import Lox.Evaluation.Operator
import Lox.Environment
import Lox.Tree

namespace Lox.Evaluation

/-!
# Evaluating expressions

Operands are evaluated from the left.  An expression ends with a value or a
runtime error, and with the environment that its assignments leave behind.
-/

/-- How an evaluation ends, and the environment afterwards. -/
abbrev Evaluated (α : Type) :=
  Except RuntimeError α × Environment

/-- Go on from a value, or keep the error. -/
def andThen
    (first : Evaluated α)
    (next : α → Environment → Evaluated β) :
    Evaluated β :=
  match first with
  | (.ok value, environment) => next value environment
  | (.error error, environment) => (.error error, environment)

/-- Store a value under a name; the assignment has that value. -/
def store
    (name : Token)
    (value : Value)
    (environment : Environment) :
    Evaluated Value :=
  match environment.assign name value with
  | .ok changed => (.ok value, changed)
  | .error error => (.error error, environment)

/-- Evaluate an expression. -/
def eval :
    Expr → Environment → Evaluated Value
  | .literal value, environment => (.ok value, environment)
  | .grouping inner, environment => eval inner environment
  | .unary operator operand, environment =>
      andThen (eval operand environment) fun value afterwards =>
        (applyUnary operator value, afterwards)
  | .binary left operator right, environment =>
      andThen (eval left environment) fun leftValue between =>
        andThen (eval right between) fun rightValue afterwards =>
          (applyBinary operator leftValue rightValue, afterwards)
  | .logical left operator right, environment =>
      andThen (eval left environment) fun value between =>
        if decides operator value then (.ok value, between) else eval right between
  | .reference name, environment => (environment.valueOf name, environment)
  | .assign name value, environment =>
      andThen (eval value environment) (store name)

@[simp] theorem andThen_ok
    (value : α)
    (environment : Environment)
    (next : α → Environment → Evaluated β) :
    andThen (.ok value, environment) next = next value environment :=
  rfl

@[simp] theorem andThen_error
    (error : RuntimeError)
    (environment : Environment)
    (next : α → Environment → Evaluated β) :
    andThen (.error error, environment) next = (.error error, environment) :=
  rfl

end Lox.Evaluation
