import Lox.Evaluation.RuntimeError

namespace Lox.Evaluation

/-!
# Operators on values

Arithmetic and comparison take numbers; equality takes any two values; adding to
a string appends the display form of the other operand.
-/

/-- Both operands as numbers, or the error of the operator. -/
def numbers
    (operator : Token) :
    Value → Value → Except RuntimeError (Float × Float)
  | .number left, .number right => .ok (left, right)
  | _, _ => .error ⟨.operandsAreNoNumbers, operator⟩

/-- An operation on numbers with a numeric result. -/
def arithmetic
    (operator : Token)
    (operation : Float → Float → Float)
    (left right : Value) :
    Except RuntimeError Value :=
  (numbers operator left right).map fun pair => .number (operation pair.1 pair.2)

/-- A comparison of numbers. -/
def comparison
    (operator : Token)
    (relation : Float → Float → Bool)
    (left right : Value) :
    Except RuntimeError Value :=
  (numbers operator left right).map fun pair => .boolean (relation pair.1 pair.2)

/-- Division by a zero of either sign is an error. -/
def quotient
    (operator : Token)
    (left right : Value) :
    Except RuntimeError Value :=
  match numbers operator left right with
  | .error error => .error error
  | .ok (dividend, divisor) =>
      if divisor == 0.0 then
        .error ⟨.divisionByZero, operator⟩
      else
        .ok (.number (dividend / divisor))

/-- The sum of two numbers, or two texts joined if one operand is a string. -/
def sum
    (operator : Token)
    (left right : Value) :
    Except RuntimeError Value :=
  match left, right with
  | .number left, .number right => .ok (.number (left + right))
  | .string left, right => .ok (.string (left ++ right.display))
  | left, .string right => .ok (.string (left.display ++ right))
  | left, right => .error ⟨.operandsCannotBeAdded left right, operator⟩

/-- Apply an operator between its operands. -/
def applyBinary
    (operator : Token)
    (left right : Value) :
    Except RuntimeError Value :=
  match operator.kind with
  | .minus => arithmetic operator (· - ·) left right
  | .star => arithmetic operator (· * ·) left right
  | .slash => quotient operator left right
  | .plus => sum operator left right
  | .greater => comparison operator (fun left right => right < left) left right
  | .greaterEqual => comparison operator (fun left right => right ≤ left) left right
  | .less => comparison operator (fun left right => left < right) left right
  | .lessEqual => comparison operator (fun left right => left ≤ right) left right
  | .equalEqual => .ok (.boolean (left.isEqual right))
  | .bangEqual => .ok (.boolean (!left.isEqual right))
  | _ => .error ⟨.unknownOperator, operator⟩

/-- The negative of a number. -/
def negation
    (operator : Token) :
    Value → Except RuntimeError Value
  | .number number => .ok (.number (-number))
  | _ => .error ⟨.operandIsNoNumber, operator⟩

/-- Apply an operator in front of its operand; all but the bang negate. -/
def applyUnary
    (operator : Token)
    (operand : Value) :
    Except RuntimeError Value :=
  match operator.kind with
  | .bang => .ok (.boolean !operand.isTruthy)
  | _ => negation operator operand

/--
Whether the left side of an operator decides,
so that the right side is not evaluated.
-/
def decides
    (operator : Token)
    (left : Value) :
    Bool :=
  match operator.kind with
  | .orKeyword => left.isTruthy
  | _ => !left.isTruthy

end Lox.Evaluation
