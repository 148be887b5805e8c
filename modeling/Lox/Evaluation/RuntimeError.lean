import Lox.Token
import Lox.Diagnostic

namespace Lox

/-!
# Errors of running programs

A runtime error has a cause and the token that it is blamed on.
-/

/-- Why a running program stops. -/
inductive RuntimeCause where
  | operandIsNoNumber
  | operandsAreNoNumbers
  /-- Only numbers are added, and only to a string is everything else appended. -/
  | operandsCannotBeAdded (left right : Value)
  | divisionByZero
  | undefinedVariable
  | nilVariable
  | signalOutsideLoop
  /-- No tree built from a text has such an operator. -/
  | unknownOperator
  deriving Repr, DecidableEq

/-- A cause with the token at fault. -/
structure RuntimeError where
  cause : RuntimeCause
  token : Token
  deriving Repr, DecidableEq

namespace RuntimeError

/-- The kind that a runtime error is reported as. -/
def kind
    (error : RuntimeError) :
    RuntimeKind :=
  match error.cause with
  | .operandIsNoNumber => .typeError
  | .operandsAreNoNumbers => .typeError
  | .operandsCannotBeAdded _ _ => .typeError
  | .divisionByZero => .divideByZero
  | .undefinedVariable => .undefinedVariable
  | .nilVariable => .nilAccess
  | .signalOutsideLoop => .illegalControlSignal
  | .unknownOperator => .general

/-- The message of a runtime error. -/
def message
    (error : RuntimeError) :
    String :=
  let lexeme := error.token.lexeme
  match error.cause with
  | .operandIsNoNumber => "Operand must be a number."
  | .operandsAreNoNumbers => "Operands must be numbers."
  | .operandsCannotBeAdded left right =>
      "Operands must be two numbers or two strings, or one string. " ++
        s!"Got {left.kindName} and {right.kindName}."
  | .divisionByZero => "Division by zero."
  | .undefinedVariable => s!"Undefined variable '{lexeme}'."
  | .nilVariable => s!"Accessing variable '{lexeme}' whose value is nil."
  | .signalOutsideLoop => s!"'{lexeme}' outside of a loop."
  | .unknownOperator => s!"Unknown operator: {lexeme}"

/-- The line that a runtime error is reported on. -/
def line
    (error : RuntimeError) :
    Nat :=
  error.token.line

/-- A runtime error as a fault of the program. -/
def fault
    (error : RuntimeError) :
    Fault where
  origin := .runtime error.kind
  line := error.line
  location := ""
  message := error.message
  offset := some error.token.offset

end RuntimeError

end Lox
