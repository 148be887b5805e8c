import Lox.Proofs.Tree.Correspondence

namespace Lox

/-!
# The names that a tree mentions

A tree mentions the names of its references, assignments and
declarations.  It corresponds to itself where each of these names stands
for itself, whatever any other name stands for.
-/

/-- The names that a node mentions: those read, assigned and declared in it. -/
inductive Node.Mentions : Node → String → Prop where
  | reference
      {name : Token} :
      Mentions (.expr (.reference name)) name.lexeme
  | assign
      {name : Token}
      {value : Expr} :
      Mentions (.expr (.assign name value)) name.lexeme
  | var
      {name : Token}
      {initial : Option Expr} :
      Mentions (.stmt (.var name initial)) name.lexeme
  | inside
      {parent child : Node}
      {name : String} :
      child ∈ parent.children →
      Mentions child name →
      Mentions parent name

/-- The names that the statements of a program mention. -/
def Program.Mentions
    (program : Program)
    (name : String) :
    Prop :=
  ∃ stmt ∈ program, Node.Mentions (.stmt stmt) name

/-- All names that a node mentions are among some names. -/
def MentionsOnly
    (mentioned : String → Prop)
    (node : Node) :
    Prop :=
  ∀ ⦃name : String⦄, node.Mentions name → mentioned name

/--
Some names stand for themselves, as operators
and keywords do, and others for nothing.
-/
def Correspondence.only
    (mentioned : String → Prop) :
    Correspondence where
  names name other :=
    other = name ∧ mentioned name.lexeme
  marks mark other :=
    other = mark

variable {mentioned : String → Prop}

/-- A child mentions what its parent mentions. -/
theorem MentionsOnly.child
    {parent child : Node}
    (only : MentionsOnly mentioned parent)
    (member : child ∈ parent.children := by
      simp [Node.children, Stmt.children, Expr.children]) :
    MentionsOnly mentioned child := by
  intro name mentions
  exact only (.inside member mentions)

/-- An expression corresponds to itself as far as it mentions names. -/
theorem Expr.corresponds_only
    {expr : Expr}
    (only : MentionsOnly mentioned (.expr expr)) :
    Expr.Corresponds (.only mentioned) expr expr := by
  induction expr with
  | literal value => exact .literal
  | grouping inner inductionHypothesis =>
      exact .grouping (inductionHypothesis only.child)
  | unary operator operand inductionHypothesis =>
      exact .unary rfl (inductionHypothesis only.child)
  | binary left operator right leftHypothesis rightHypothesis =>
      exact .binary (leftHypothesis only.child) rfl (rightHypothesis only.child)
  | logical left operator right leftHypothesis rightHypothesis =>
      exact .logical (leftHypothesis only.child) rfl (rightHypothesis only.child)
  | reference name => exact .reference ⟨rfl, only .reference⟩
  | assign name value inductionHypothesis =>
      exact .assign ⟨rfl, only .assign⟩ (inductionHypothesis only.child)

mutual

/-- A statement corresponds to itself as far as it mentions names. -/
theorem Stmt.corresponds_only :
    ∀ (level : Nat) (stmt : Stmt),
      MentionsOnly mentioned (.stmt stmt) →
        Stmt.Corresponds (.only mentioned) (fun _ => True) level stmt stmt
  | _, .expression _, only => .expression (Expr.corresponds_only only.child)
  | _, .print _, only => .print (Expr.corresponds_only only.child)
  | _, .var _ none, only => .var trivial ⟨rfl, only .var⟩
  | _, .var _ (some _), only =>
      .initialized trivial ⟨rfl, only .var⟩ (Expr.corresponds_only only.child)
  | level, .block statements, only =>
      .block (Stmt.correspond_only (level + 1) statements fun _ member =>
        only.child (List.mem_map_of_mem member))
  | level, .loopBody body increment, only =>
      have incremented : MentionsOnly mentioned (.stmt (.expression increment)) :=
        only.child
      .loopBody (Stmt.corresponds_only (level + 1) body only.child)
        (Expr.corresponds_only incremented.child)
  | level, .ifThen _ thenPart, only =>
      .ifThen (Expr.corresponds_only only.child)
        (Stmt.corresponds_only level thenPart only.child)
  | level, .ifElse _ thenPart elsePart, only =>
      .ifElse (Expr.corresponds_only only.child)
        (Stmt.corresponds_only level thenPart only.child)
        (Stmt.corresponds_only level elsePart only.child)
  | level, .whileLoop _ body, only =>
      .whileLoop (Expr.corresponds_only only.child)
        (Stmt.corresponds_only level body only.child)
  | _, .breakLoop _, _ => .breakLoop rfl
  | _, .continueLoop _, _ => .continueLoop rfl

theorem Stmt.correspond_only :
    ∀ (level : Nat) (statements : List Stmt),
      (∀ stmt ∈ statements, MentionsOnly mentioned (.stmt stmt)) →
        Stmt.Correspond (.only mentioned) (fun _ => True) level
          statements statements
  | _, [], _ => .nil
  | level, first :: rest, only =>
      .cons (Stmt.corresponds_only level first (only first List.mem_cons_self))
        (Stmt.correspond_only level rest fun stmt member =>
          only stmt (List.mem_cons_of_mem first member))

end

/--
A program corresponds to itself where the names
that it mentions stand for themselves.
-/
theorem Program.correspond_mentions
    (program : Program) :
    Stmt.Correspond (.only program.Mentions) (fun _ => True) 0 program program :=
  Stmt.correspond_only 0 program fun stmt member _ mentions =>
    ⟨stmt, member, mentions⟩

end Lox
