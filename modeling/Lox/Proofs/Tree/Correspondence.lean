import Lox.Proofs.Tree.Trail

namespace Lox

/-!
# Trees that correspond

Two trees correspond if they have one shape and the tokens in one stand for the
tokens in the other.  Declarations may be restricted to some levels of blocks.
-/

/--
Which tokens of one tree stand for which of
another: names, and operators and keywords.
-/
structure Correspondence where
  names : Token → Token → Prop
  marks : Token → Token → Prop

namespace Correspondence

/-- Each token stands for itself. -/
def same :
    Correspondence :=
  ⟨Eq, Eq⟩

/-- Each token stands for the one it is changed into. -/
def ofMap
    (change : Token → Token) :
    Correspondence where
  names token other :=
    other = change token
  marks token other :=
    other = change token

/-- The tokens of the other tree stand for those of the one. -/
def flip
    (tokens : Correspondence) :
    Correspondence where
  names token other :=
    tokens.names other token
  marks token other :=
    tokens.marks other token

@[simp] theorem flip_same :
    same.flip = same := by
  simp [same, flip, eq_comm]

/-- Marks keep their kinds. -/
def KeepsKinds
    (tokens : Correspondence) :
    Prop :=
  ∀ ⦃mark other : Token⦄, tokens.marks mark other → other.kind = mark.kind

theorem KeepsKinds.flip
    {tokens : Correspondence}
    (kinds : tokens.KeepsKinds) :
    tokens.flip.KeepsKinds := by
  intro mark other marked
  exact (kinds marked).symm

/-- Marks keep their kinds, and names their lexemes. -/
structure Faithful
    (tokens : Correspondence) :
    Prop where
  kind : ∀ ⦃mark other : Token⦄, tokens.marks mark other → other.kind = mark.kind
  lexeme :
    ∀ ⦃name other : Token⦄, tokens.names name other → other.lexeme = name.lexeme

/-- Faithful pairs of tokens are faithful either way round. -/
theorem Faithful.flip
    {tokens : Correspondence}
    (faithful : tokens.Faithful) :
    tokens.flip.Faithful where
  kind _ _ marked := (faithful.kind marked).symm
  lexeme _ _ named := (faithful.lexeme named).symm

theorem faithful_same :
    same.Faithful where
  kind _ _ marked := congrArg Token.kind marked.symm
  lexeme _ _ named := congrArg Token.lexeme named.symm

end Correspondence

/-- Expressions of one shape. -/
inductive Expr.Corresponds (tokens : Correspondence) : Expr → Expr → Prop where
  | literal
      {value : Value} :
      Corresponds tokens (.literal value) (.literal value)
  | grouping
      {inner inner' : Expr} :
      Corresponds tokens inner inner' →
      Corresponds tokens (.grouping inner) (.grouping inner')
  | unary
      {operator operator' : Token}
      {operand operand' : Expr} :
      tokens.marks operator operator' →
      Corresponds tokens operand operand' →
      Corresponds tokens (.unary operator operand) (.unary operator' operand')
  | binary
      {left left' right right' : Expr}
      {operator operator' : Token} :
      Corresponds tokens left left' →
      tokens.marks operator operator' →
      Corresponds tokens right right' →
      Corresponds tokens (.binary left operator right)
        (.binary left' operator' right')
  | logical
      {left left' right right' : Expr}
      {operator operator' : Token} :
      Corresponds tokens left left' →
      tokens.marks operator operator' →
      Corresponds tokens right right' →
      Corresponds tokens (.logical left operator right)
        (.logical left' operator' right')
  | reference
      {name name' : Token} :
      tokens.names name name' →
      Corresponds tokens (.reference name) (.reference name')
  | assign
      {name name' : Token}
      {value value' : Expr} :
      tokens.names name name' →
      Corresponds tokens value value' →
      Corresponds tokens (.assign name value) (.assign name' value')

mutual

/--
Statements of one shape that stand at a level of
blocks, with declarations at some levels.
-/
inductive Stmt.Corresponds (tokens : Correspondence) (declares : Nat → Prop) :
    Nat → Stmt → Stmt → Prop where
  | expression
      {level : Nat}
      {inner inner' : Expr} :
      Expr.Corresponds tokens inner inner' →
      Corresponds tokens declares level (.expression inner) (.expression inner')
  | print
      {level : Nat}
      {inner inner' : Expr} :
      Expr.Corresponds tokens inner inner' →
      Corresponds tokens declares level (.print inner) (.print inner')
  | var
      {level : Nat}
      {name name' : Token} :
      declares level →
      tokens.names name name' →
      Corresponds tokens declares level (.var name none) (.var name' none)
  | initialized
      {level : Nat}
      {name name' : Token}
      {initial initial' : Expr} :
      declares level →
      tokens.names name name' →
      Expr.Corresponds tokens initial initial' →
      Corresponds tokens declares level (.var name (some initial))
        (.var name' (some initial'))
  | block
      {level : Nat}
      {statements statements' : List Stmt} :
      Correspond tokens declares (level + 1) statements statements' →
      Corresponds tokens declares level (.block statements) (.block statements')
  | loopBody
      {level : Nat}
      {body body' : Stmt}
      {increment increment' : Expr} :
      Corresponds tokens declares (level + 1) body body' →
      Expr.Corresponds tokens increment increment' →
      Corresponds tokens declares level (.loopBody body increment)
        (.loopBody body' increment')
  | ifThen
      {level : Nat}
      {condition condition' : Expr}
      {thenPart thenPart' : Stmt} :
      Expr.Corresponds tokens condition condition' →
      Corresponds tokens declares level thenPart thenPart' →
      Corresponds tokens declares level (.ifThen condition thenPart)
        (.ifThen condition' thenPart')
  | ifElse
      {level : Nat}
      {condition condition' : Expr}
      {thenPart thenPart' elsePart elsePart' : Stmt} :
      Expr.Corresponds tokens condition condition' →
      Corresponds tokens declares level thenPart thenPart' →
      Corresponds tokens declares level elsePart elsePart' →
      Corresponds tokens declares level (.ifElse condition thenPart elsePart)
        (.ifElse condition' thenPart' elsePart')
  | whileLoop
      {level : Nat}
      {condition condition' : Expr}
      {body body' : Stmt} :
      Expr.Corresponds tokens condition condition' →
      Corresponds tokens declares level body body' →
      Corresponds tokens declares level (.whileLoop condition body)
        (.whileLoop condition' body')
  | breakLoop
      {level : Nat}
      {keyword keyword' : Token} :
      tokens.marks keyword keyword' →
      Corresponds tokens declares level (.breakLoop keyword) (.breakLoop keyword')
  | continueLoop
      {level : Nat}
      {keyword keyword' : Token} :
      tokens.marks keyword keyword' →
      Corresponds tokens declares level (.continueLoop keyword)
        (.continueLoop keyword')

/-- Statements that correspond one by one. -/
inductive Stmt.Correspond (tokens : Correspondence) (declares : Nat → Prop) :
    Nat → List Stmt → List Stmt → Prop where
  | nil
      {level : Nat} :
      Correspond tokens declares level [] []
  | cons
      {level : Nat}
      {first first' : Stmt}
      {rest rest' : List Stmt} :
      Corresponds tokens declares level first first' →
      Correspond tokens declares level rest rest' →
      Correspond tokens declares level (first :: rest) (first' :: rest')

end

variable {tokens : Correspondence} {declares : Nat → Prop}

/-- Expressions correspond either way round. -/
theorem Expr.Corresponds.flip
    {expr other : Expr}
    (corresponds : Expr.Corresponds tokens expr other) :
    Expr.Corresponds tokens.flip other expr := by
  induction corresponds with
  | literal => exact .literal
  | grouping _ inner => exact .grouping inner
  | unary marked _ operand => exact .unary marked operand
  | binary _ marked _ left right => exact .binary left marked right
  | logical _ marked _ left right => exact .logical left marked right
  | reference named => exact .reference named
  | assign named _ value => exact .assign named value

mutual

/-- Statements correspond either way round. -/
theorem Stmt.Corresponds.flip :
    ∀ {level : Nat} {stmt other : Stmt},
      Stmt.Corresponds tokens declares level stmt other →
        Stmt.Corresponds tokens.flip declares level other stmt
  | _, _, _, .expression inner => .expression inner.flip
  | _, _, _, .print inner => .print inner.flip
  | _, _, _, .var allowed named => .var allowed named
  | _, _, _, .initialized allowed named initial =>
      .initialized allowed named initial.flip
  | _, _, _, .block elements => .block elements.flip
  | _, _, _, .loopBody body increment => .loopBody body.flip increment.flip
  | _, _, _, .ifThen condition thenPart => .ifThen condition.flip thenPart.flip
  | _, _, _, .ifElse condition thenPart elsePart =>
      .ifElse condition.flip thenPart.flip elsePart.flip
  | _, _, _, .whileLoop condition body => .whileLoop condition.flip body.flip
  | _, _, _, .breakLoop marked => .breakLoop marked
  | _, _, _, .continueLoop marked => .continueLoop marked

/-- Lists of statements correspond either way round. -/
theorem Stmt.Correspond.flip :
    ∀ {level : Nat} {statements others : List Stmt},
      Stmt.Correspond tokens declares level statements others →
        Stmt.Correspond tokens.flip declares level others statements
  | _, _, _, .nil => .nil
  | _, _, _, .cons first rest => .cons first.flip rest.flip

end

/-- Every expression corresponds to itself. -/
theorem Expr.corresponds_same
    (expr : Expr) :
    Expr.Corresponds .same expr expr := by
  induction expr with
  | literal value => exact .literal
  | grouping inner inductionHypothesis => exact .grouping inductionHypothesis
  | unary operator operand inductionHypothesis =>
      exact .unary rfl inductionHypothesis
  | binary left operator right leftSame rightSame =>
      exact .binary leftSame rfl rightSame
  | logical left operator right leftSame rightSame =>
      exact .logical leftSame rfl rightSame
  | reference name => exact .reference rfl
  | assign name value inductionHypothesis => exact .assign rfl inductionHypothesis

mutual

/-- Where all levels from one on may declare, so may any statement there. -/
theorem Stmt.corresponds_same :
    ∀ (level : Nat) (stmt : Stmt),
      (∀ deeper, level ≤ deeper → declares deeper) →
        Stmt.Corresponds .same declares level stmt stmt
  | _, .expression inner, _ => .expression inner.corresponds_same
  | _, .print inner, _ => .print inner.corresponds_same
  | level, .var _ none, allowed => .var (allowed level (Nat.le_refl level)) rfl
  | level, .var _ (some initial), allowed =>
      .initialized (allowed level (Nat.le_refl level)) rfl initial.corresponds_same
  | _, .block statements, allowed =>
      .block (Stmt.correspond_same _ statements fun deeper below =>
        allowed deeper (Nat.le_of_succ_le below))
  | _, .loopBody body increment, allowed =>
      .loopBody
        (Stmt.corresponds_same _ body fun deeper below =>
          allowed deeper (Nat.le_of_succ_le below))
        increment.corresponds_same
  | _, .ifThen condition thenPart, allowed =>
      .ifThen condition.corresponds_same (Stmt.corresponds_same _ thenPart allowed)
  | _, .ifElse condition thenPart elsePart, allowed =>
      .ifElse condition.corresponds_same (Stmt.corresponds_same _ thenPart allowed)
        (Stmt.corresponds_same _ elsePart allowed)
  | _, .whileLoop condition body, allowed =>
      .whileLoop condition.corresponds_same (Stmt.corresponds_same _ body allowed)
  | _, .breakLoop _, _ => .breakLoop rfl
  | _, .continueLoop _, _ => .continueLoop rfl

theorem Stmt.correspond_same :
    ∀ (level : Nat) (statements : List Stmt),
      (∀ deeper, level ≤ deeper → declares deeper) →
        Stmt.Correspond .same declares level statements statements
  | _, [], _ => .nil
  | _, first :: rest, allowed =>
      .cons (Stmt.corresponds_same _ first allowed)
        (Stmt.correspond_same _ rest allowed)

end

/--
A placed statement that is no declaration declares only in the blocks inside it.
-/
theorem Stmt.Placed.corresponds_same
    {stmt : Stmt}
    (placed : stmt.Placed)
    (noDeclaration : stmt.declares? = none) :
    Stmt.Corresponds .same (0 < ·) 0 stmt stmt := by
  induction placed with
  | expression => exact .expression (Expr.corresponds_same _)
  | print => exact .print (Expr.corresponds_same _)
  | var => cases noDeclaration
  | block => exact .block (Stmt.correspond_same 1 _ fun _ below => below)
  | loopBody =>
      exact .loopBody (Stmt.corresponds_same 1 _ fun _ below => below)
        (Expr.corresponds_same _)
  | ifThen _ thenDeclares thenPart =>
      exact .ifThen (Expr.corresponds_same _) (thenPart thenDeclares)
  | ifElse _ thenDeclares _ elseDeclares thenPart elsePart =>
      exact .ifElse (Expr.corresponds_same _) (thenPart thenDeclares)
        (elsePart elseDeclares)
  | whileLoop _ bodyDeclares body =>
      exact .whileLoop (Expr.corresponds_same _) (body bodyDeclares)
  | breakLoop => exact .breakLoop rfl
  | continueLoop => exact .continueLoop rfl

end Lox
