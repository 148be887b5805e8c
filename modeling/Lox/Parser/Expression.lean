import Lox.Parser.Outcome

namespace Lox.Parser

/-!
# Expressions

Operators bind by levels, from `or` up to the products, and are grouped from the
left within a level.  Assignment binds loosest and is grouped from the right.
-/

/-- Operators of one strength, and the node that they build. -/
structure Level where
  operators : List Kind
  node : Expr → Token → Expr → Expr

/-- The levels, the loosest first. -/
def levels :
    List Level :=
  [⟨[.orKeyword], .logical⟩,
    ⟨[.andKeyword], .logical⟩,
    ⟨[.bangEqual, .equalEqual], .binary⟩,
    ⟨[.greater, .greaterEqual, .less, .lessEqual], .binary⟩,
    ⟨[.minus, .plus], .binary⟩,
    ⟨[.slash, .star], .binary⟩]

/-- Operators that stand in front of their operand. -/
def frontOperators :
    List Kind :=
  [.bang, .minus]

/-- Read at most so many further operands of a level behind the one read so far. -/
def chainFrom
    (level : Level)
    (operand : Parser Expr) :
    Nat → Expr → Parser Expr
  | 0, left => accept left
  | count + 1, left => do
      match ← acceptAny level.operators with
      | none => accept left
      | some operator =>
          let right ← operand
          chainFrom level operand count (level.node left operator right)

/-- Read the operands of a level; there are at most as many as tokens. -/
def chain
    (level : Level)
    (operand : Parser Expr) :
    Parser Expr :=
  fun tokens =>
    (andThen operand (chainFrom level operand tokens.length)) tokens

/-- Read an operand behind the operators in front of it. -/
def unaryWith
    (primary : Parser Expr) :
    Parser Expr
  | [] => primary []
  | token :: rest =>
      if token.kind ∈ frontOperators then
        (unaryWith primary rest).map (.unary token)
      else
        primary (token :: rest)

/-- Read an expression between parentheses, behind the first of them. -/
def groupWith
    (expression : Parser Expr) :
    Parser Expr := do
  let inner ← expression
  let _ ← expect .rightParen .expectedParenAfterExpression
  accept (.grouping inner)

/-- Read a literal, a name or an expression between parentheses. -/
def primaryWith
    (expression : Parser Expr) :
    Parser Expr
  | [] => .rejected ⟨.expectedExpression, []⟩ []
  | token :: rest =>
      match token.kind with
      | .falseKeyword => .accepted (.literal (.boolean false)) rest []
      | .trueKeyword => .accepted (.literal (.boolean true)) rest []
      | .nilKeyword => .accepted (.literal .nil) rest []
      | .number => .accepted (.literal token.literal) rest []
      | .string => .accepted (.literal token.literal) rest []
      | .identifier => .accepted (.reference token) rest []
      | .leftParen => groupWith expression rest
      | _ => .rejected ⟨.expectedExpression, token :: rest⟩ []

/-- Read an expression of some levels, the loosest first. -/
def operationWith
    (expression : Parser Expr)
    (levels : List Level) :
    Parser Expr :=
  levels.foldr chain (unaryWith (primaryWith expression))

/--
Go on behind what may be the target of an assignment.  The value is read before
the target is judged; a target that is no name is recorded and stands for the whole.
-/
def assignmentBehind
    (expression : Parser Expr)
    (target : Expr) :
    Parser Expr := do
  let place ← remaining
  match ← acceptAny [.equal] with
  | none => accept target
  | some _ =>
      let value ← expression
      match target with
      | .reference name => accept (.assign name value)
      | _ =>
          recordError ⟨.invalidAssignmentTarget, place⟩
          accept target

/-- Read an operation, and the value that is assigned to it, if there is one. -/
def assignmentWith
    (expression : Parser Expr) :
    Parser Expr :=
  andThen (operationWith expression levels) (assignmentBehind expression)

/-- Read an expression that nests less deep than a bound. -/
def expressionWithin :
    Nat → Parser Expr
  | 0 => reject .expectedExpression
  | depth + 1 => assignmentWith (expressionWithin depth)

/-- Read an expression; it nests no deeper than it has tokens. -/
def expression :
    Parser Expr :=
  fun tokens => expressionWithin (tokens.length + 1) tokens

/-- Read an expression that takes up all tokens. -/
def wholeExpression :
    Parser Expr := do
  let whole ← expression
  match ← remaining with
  | [] => accept whole
  | _ :: _ => reject .expectedEndOfExpression

end Lox.Parser
