import Lox.Proofs.Tree.Correspondence

namespace Lox

/-!
# Trees under other names

A tree with the names of its references, assignments and declarations changed.
Operators, keywords and literals stay, and so do the places of all tokens.
-/

/-- A token with its lexeme changed. -/
def Token.rename
    (change : String → String)
    (token : Token) :
    Token :=
  { token with lexeme := change token.lexeme }

/-- An expression with its names changed. -/
def Expr.rename
    (change : String → String) :
    Expr → Expr
  | .literal value => .literal value
  | .grouping inner => .grouping (rename change inner)
  | .unary operator operand => .unary operator (rename change operand)
  | .binary left operator right =>
      .binary (rename change left) operator (rename change right)
  | .logical left operator right =>
      .logical (rename change left) operator (rename change right)
  | .reference name => .reference (name.rename change)
  | .assign name value => .assign (name.rename change) (rename change value)

mutual

/-- A statement with its names changed. -/
def Stmt.rename
    (change : String → String) :
    Stmt → Stmt
  | .expression inner => .expression (inner.rename change)
  | .print inner => .print (inner.rename change)
  | .var name initial =>
      .var (name.rename change) (initial.map (Expr.rename change))
  | .block statements => .block (Stmt.renameAll change statements)
  | .loopBody body increment =>
      .loopBody (Stmt.rename change body) (increment.rename change)
  | .ifThen condition thenPart =>
      .ifThen (condition.rename change) (Stmt.rename change thenPart)
  | .ifElse condition thenPart elsePart =>
      .ifElse (condition.rename change) (Stmt.rename change thenPart)
        (Stmt.rename change elsePart)
  | .whileLoop condition body =>
      .whileLoop (condition.rename change) (Stmt.rename change body)
  | .breakLoop keyword => .breakLoop keyword
  | .continueLoop keyword => .continueLoop keyword

/-- Statements with their names changed. -/
def Stmt.renameAll
    (change : String → String) :
    List Stmt → List Stmt
  | [] => []
  | first :: rest => Stmt.rename change first :: Stmt.renameAll change rest

end

/-- A program with its names changed. -/
def Program.rename
    (change : String → String)
    (program : Program) :
    Program :=
  Stmt.renameAll change program

/--
Names stand for the names that they become, operators and keywords for themselves.
-/
def Correspondence.renamed
    (change : String → String) :
    Correspondence where
  names name other :=
    other = name.rename change
  marks mark other :=
    other = mark

variable {change : String → String}

/-- An expression corresponds to its renamed form. -/
theorem Expr.corresponds_rename
    (expr : Expr) :
    Expr.Corresponds (.renamed change) expr (expr.rename change) := by
  induction expr with
  | literal value => exact .literal
  | grouping inner inductionHypothesis => exact .grouping inductionHypothesis
  | unary operator operand inductionHypothesis =>
      exact .unary rfl inductionHypothesis
  | binary left operator right leftRenamed rightRenamed =>
      exact .binary leftRenamed rfl rightRenamed
  | logical left operator right leftRenamed rightRenamed =>
      exact .logical leftRenamed rfl rightRenamed
  | reference name => exact .reference rfl
  | assign name value inductionHypothesis => exact .assign rfl inductionHypothesis

mutual

/-- A statement corresponds to its renamed form. -/
theorem Stmt.corresponds_rename :
    ∀ (level : Nat) (stmt : Stmt),
      Stmt.Corresponds (.renamed change) (fun _ => True) level stmt
        (stmt.rename change)
  | _, .expression inner => .expression inner.corresponds_rename
  | _, .print inner => .print inner.corresponds_rename
  | _, .var _ none => .var trivial rfl
  | _, .var _ (some initial) => .initialized trivial rfl initial.corresponds_rename
  | level, .block statements =>
      .block (Stmt.correspond_renameAll (level + 1) statements)
  | level, .loopBody body increment =>
      .loopBody (Stmt.corresponds_rename (level + 1) body)
        increment.corresponds_rename
  | level, .ifThen condition thenPart =>
      .ifThen condition.corresponds_rename (Stmt.corresponds_rename level thenPart)
  | level, .ifElse condition thenPart elsePart =>
      .ifElse condition.corresponds_rename (Stmt.corresponds_rename level thenPart)
        (Stmt.corresponds_rename level elsePart)
  | level, .whileLoop condition body =>
      .whileLoop condition.corresponds_rename (Stmt.corresponds_rename level body)
  | _, .breakLoop _ => .breakLoop rfl
  | _, .continueLoop _ => .continueLoop rfl

theorem Stmt.correspond_renameAll :
    ∀ (level : Nat) (statements : List Stmt),
      Stmt.Correspond (.renamed change) (fun _ => True) level statements
        (Stmt.renameAll change statements)
  | _, [] => .nil
  | level, first :: rest =>
      .cons (Stmt.corresponds_rename level first)
        (Stmt.correspond_renameAll level rest)

end

end Lox
