import Lox.Tree.Node

namespace Lox

/-!
# Trees without places

Tokens keep the place of their lexeme in a text, and trees keep tokens.  Without its
place a token is its kind, its lexeme and its literal, and a tree is what would have
been read from any other text with the same tokens.
-/

/-- A token without the place of its lexeme. -/
def Token.unplaced
    (token : Token) :
    Token :=
  { token with line := 0, offset := 0 }

@[simp] theorem Token.kind_unplaced
    (token : Token) :
    token.unplaced.kind = token.kind :=
  rfl

/-- A row of a listing without its place. -/
def Row.unplaced
    (row : Row) :
    Row :=
  { row with line := 0, offset := 0 }

/-- The rows of streams with the same tokens differ in their places only. -/
theorem Stream.unplaced_rows
    {stream other : Stream}
    (same : stream.tokens.map Token.unplaced = other.tokens.map Token.unplaced) :
    stream.rows.map Row.unplaced = other.rows.map Row.unplaced := by
  have ofTokens (tokens : List Token) :
      (tokens.map Row.ofToken).map Row.unplaced =
        (tokens.map Token.unplaced).map Row.ofToken := by
    simp only [List.map_map]
    rfl
  simp only [rows, List.map_append, ofTokens, same]
  rfl

/-- An expression without the places of its tokens. -/
def Expr.unplaced :
    Expr → Expr
  | .literal value => .literal value
  | .grouping inner => .grouping inner.unplaced
  | .unary operator operand => .unary operator.unplaced operand.unplaced
  | .binary left operator right =>
      .binary left.unplaced operator.unplaced right.unplaced
  | .logical left operator right =>
      .logical left.unplaced operator.unplaced right.unplaced
  | .reference name => .reference name.unplaced
  | .assign name value => .assign name.unplaced value.unplaced

mutual

/-- A statement without the places of its tokens. -/
def Stmt.unplaced :
    Stmt → Stmt
  | .expression inner => .expression inner.unplaced
  | .print inner => .print inner.unplaced
  | .var name initial => .var name.unplaced (initial.map Expr.unplaced)
  | .block statements => .block (Stmt.unplacedAll statements)
  | .loopBody body increment => .loopBody body.unplaced increment.unplaced
  | .ifThen condition thenPart => .ifThen condition.unplaced thenPart.unplaced
  | .ifElse condition thenPart elsePart =>
      .ifElse condition.unplaced thenPart.unplaced elsePart.unplaced
  | .whileLoop condition body => .whileLoop condition.unplaced body.unplaced
  | .breakLoop keyword => .breakLoop keyword.unplaced
  | .continueLoop keyword => .continueLoop keyword.unplaced

/-- Statements without the places of their tokens. -/
def Stmt.unplacedAll :
    List Stmt → List Stmt
  | [] => []
  | first :: rest => first.unplaced :: Stmt.unplacedAll rest

end

namespace Stmt

theorem unplacedAll_eq_map
    (statements : List Stmt) :
    unplacedAll statements = statements.map unplaced := by
  induction statements with
  | nil => rfl
  | cons first rest inductionHypothesis => simp [unplacedAll, inductionHypothesis]

@[simp] theorem nodeClass_unplaced
    (stmt : Stmt) :
    stmt.unplaced.nodeClass = stmt.nodeClass := by
  cases stmt <;> simp [unplaced, nodeClass]

end Stmt

end Lox
