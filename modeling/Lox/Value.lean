import Lox.Decimal.Numeral

namespace Lox

/-!
# Values

A value is nil, a boolean, a number or a string.  Values of different kinds are
never equal, and a number that is undefined is not equal to itself.
-/

/-- What an expression evaluates to. -/
inductive Value where
  | nil
  | boolean (truth : Bool)
  | number (quantity : Float)
  | string (text : String)
  deriving Repr, DecidableEq, Inhabited

namespace Value

/-- The name of the kind of a value. -/
def kindName :
    Value → String
  | .nil => "nil"
  | .boolean _ => "boolean"
  | .number _ => "number"
  | .string _ => "string"

/-- Numbers alone take part in arithmetic. -/
def isNumber :
    Value → Bool
  | .number _ => true
  | _ => false

/--
Nil and false are false; every other value is true, zero and the empty string too.
-/
def isTruthy :
    Value → Bool
  | .nil => false
  | .boolean truth => truth
  | _ => true

/-- Values are equal if they have one kind and one value of it. -/
def isEqual :
    Value → Value → Bool
  | .nil, .nil => true
  | .boolean left, .boolean right => left == right
  | .number left, .number right => left == right
  | .string left, .string right => left == right
  | _, _ => false

/-- Whole numbers are displayed without a point. -/
def wholeText
    (characters : List Char) :
    List Char :=
  match characters.reverse with
  | '0' :: '.' :: rest => rest.reverse
  | _ => characters

/-- The words for the two truth values. -/
def truthText :
    Bool → String
  | true => "true"
  | false => "false"

/-- The display form of a value, which is what printing writes. -/
def display :
    Value → String
  | .nil => "nil"
  | .boolean truth => truthText truth
  | .number quantity =>
      String.ofList (wholeText (Decimal.standard.characters quantity))
  | .string text => text

/-- A value as it stands in a tree: strings between quotes, the rest displayed. -/
def literalText :
    Value → String
  | .string text => "\"" ++ text ++ "\""
  | value => value.display

@[simp] theorem isTruthy_nil :
    isTruthy .nil = false :=
  rfl

@[simp] theorem isTruthy_boolean
    (truth : Bool) :
    isTruthy (.boolean truth) = truth :=
  rfl

@[simp] theorem isTruthy_number
    (quantity : Float) :
    isTruthy (.number quantity) = true :=
  rfl

@[simp] theorem isTruthy_string
    (text : String) :
    isTruthy (.string text) = true :=
  rfl

/-- Two values of different kinds are never equal. -/
theorem kindName_eq_of_isEqual
    {left right : Value}
    (equal : left.isEqual right = true) :
    left.kindName = right.kindName := by
  cases left <;> cases right <;> simp_all [isEqual, kindName]

end Value

end Lox
