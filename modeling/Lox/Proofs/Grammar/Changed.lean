import Lox.Proofs.Grammar.Statement
import Lox.Proofs.Tree.Correspondence

namespace Lox.Grammar

/-!
# Derivations from changed tokens

The grammar looks at the kinds of tokens only, and a tree takes up the tokens of
names and operators and the values of literals.  If all tokens are changed and keep
kinds and values, the changed tokens derive as a tree that corresponds.
-/

/-- A change of tokens that keeps their kinds and values. -/
structure KeepsReading
    (change : Token → Token) :
    Prop where
  kind : ∀ token, (change token).kind = token.kind
  literal : ∀ token, (change token).literal = token.literal

variable {change : Token → Token}

theorem KeepsReading.kind_eq
    (keeps : KeepsReading change)
    {token : Token}
    {kind : Kind}
    (isOfKind : token.kind = kind) :
    (change token).kind = kind :=
  (keeps.kind token).trans isOfKind

section Expressions

/-- Changed tokens derive as an expression that corresponds. -/
def DerivesChanged
    (change : Token → Token)
    (phrase : Phrase)
    (tokens : List Token)
    (expr : Expr) :
    Prop :=
  ∃ changed,
    Derives phrase (tokens.map change) changed ∧
      Expr.Corresponds (.ofMap change) expr changed

/--
An operator between two expressions builds
corresponding nodes from corresponding parts.
-/
theorem Phrase.corresponds_node
    (phrase : Phrase)
    {left left' right right' : Expr}
    (leftCorresponds : Expr.Corresponds (.ofMap change) left left')
    (operator : Token)
    (rightCorresponds : Expr.Corresponds (.ofMap change) right right') :
    Expr.Corresponds (.ofMap change) (phrase.node left operator right)
      (phrase.node left' (change operator) right') := by
  cases phrase with
  | disjunction => exact .logical leftCorresponds rfl rightCorresponds
  | conjunction => exact .logical leftCorresponds rfl rightCorresponds
  | assignment => exact .binary leftCorresponds rfl rightCorresponds
  | equality => exact .binary leftCorresponds rfl rightCorresponds
  | comparison => exact .binary leftCorresponds rfl rightCorresponds
  | term => exact .binary leftCorresponds rfl rightCorresponds
  | factor => exact .binary leftCorresponds rfl rightCorresponds
  | unary => exact .binary leftCorresponds rfl rightCorresponds
  | primary => exact .binary leftCorresponds rfl rightCorresponds

/-- Tokens that are changed but keep their reading derive the changed expression. -/
theorem Derives.changed
    (keeps : KeepsReading change)
    {phrase : Phrase}
    {tokens : List Token}
    {expr : Expr}
    (derives : Derives phrase tokens expr) :
    DerivesChanged change phrase tokens expr := by
  induction derives with
  | single below _ inductionHypothesis =>
      obtain ⟨changed, derives, corresponds⟩ := inductionHypothesis
      exact ⟨changed, .single below derives, corresponds⟩
  | @chain phrase before after operator left right _ fits _
      leftChanged rightChanged =>
      obtain ⟨left', leftDerives, leftCorresponds⟩ := leftChanged
      obtain ⟨right', rightDerives, rightCorresponds⟩ := rightChanged
      have fits' : (change operator).kind ∈ phrase.operators := by
        rw [keeps.kind]
        exact fits
      refine ⟨_, ?_,
        phrase.corresponds_node leftCorresponds operator rightCorresponds⟩
      simpa using Derives.chain leftDerives fits' rightDerives
  | assign named equal _ inductionHypothesis =>
      obtain ⟨value', derives, corresponds⟩ := inductionHypothesis
      exact ⟨_, .assign (keeps.kind_eq named) (keeps.kind_eq equal) derives,
        .assign rfl corresponds⟩
  | @front operator tokens operand fits _ inductionHypothesis =>
      obtain ⟨operand', derives, corresponds⟩ := inductionHypothesis
      have fits' : (change operator).kind ∈ [.bang, .minus] := by
        rw [keeps.kind]
        exact fits
      exact ⟨_, .front fits' derives, .unary rfl corresponds⟩
  | trueLiteral kind => exact ⟨_, .trueLiteral (keeps.kind_eq kind), .literal⟩
  | falseLiteral kind => exact ⟨_, .falseLiteral (keeps.kind_eq kind), .literal⟩
  | nilLiteral kind => exact ⟨_, .nilLiteral (keeps.kind_eq kind), .literal⟩
  | @literal token fits =>
      have fits' : (change token).kind ∈ [.number, .string] := by
        rw [keeps.kind]
        exact fits
      refine ⟨_, .literal fits', ?_⟩
      rw [keeps.literal]
      exact .literal
  | reference kind => exact ⟨_, .reference (keeps.kind_eq kind), .reference rfl⟩
  | group opened _ closed inductionHypothesis =>
      obtain ⟨inner', derives, corresponds⟩ := inductionHypothesis
      refine ⟨.grouping inner', ?_, .grouping corresponds⟩
      simpa using Derives.group (keeps.kind_eq opened) derives
        (keeps.kind_eq closed)

end Expressions

/-- Statements that correspond wherever they stand. -/
def CorrespondsChanged
    (change : Token → Token)
    (stmt stmt' : Stmt) :
    Prop :=
  ∀ level, Stmt.Corresponds (.ofMap change) (fun _ => True) level stmt stmt'

/-- Tokens that are changed but keep their reading derive the changed variable. -/
theorem VarDeclaration.changed
    (keeps : KeepsReading change)
    {tokens : List Token}
    {stmt : Stmt}
    (derives : VarDeclaration tokens stmt) :
    ∃ stmt', VarDeclaration (tokens.map change) stmt' ∧
      CorrespondsChanged change stmt stmt' := by
  cases derives with
  | plain starts named ends =>
      exact ⟨_, .plain (keeps.kind_eq starts) (keeps.kind_eq named)
        (keeps.kind_eq ends), fun _ => .var trivial rfl⟩
  | initialized starts named equal initial ends =>
      obtain ⟨initial', derives, corresponds⟩ := initial.changed keeps
      refine ⟨_, ?_, fun _ => .initialized trivial rfl corresponds⟩
      simpa using VarDeclaration.initialized (keeps.kind_eq starts)
        (keeps.kind_eq named) (keeps.kind_eq equal) derives
        (keeps.kind_eq ends)

/-- Tokens that are changed but keep their reading derive the changed statement. -/
theorem ExpressionStatement.changed
    (keeps : KeepsReading change)
    {tokens : List Token}
    {stmt : Stmt}
    (derives : ExpressionStatement tokens stmt) :
    ∃ stmt',
      ExpressionStatement (tokens.map change) stmt' ∧
        CorrespondsChanged change stmt stmt' := by
  obtain ⟨inner, ends⟩ := derives
  obtain ⟨inner', derives, corresponds⟩ := inner.changed keeps
  refine ⟨_, ?_, fun _ => .expression corresponds⟩
  simpa using ExpressionStatement.mk derives (keeps.kind_eq ends)

/--
The clauses of a for loop, changed, make
corresponding loops of corresponding bodies.
-/
theorem ForInitial.changed
    (keeps : KeepsReading change)
    {tokens : List Token}
    {initial : Option Stmt}
    (derives : ForInitial tokens initial) :
    ∃ initial',
      ForInitial (tokens.map change) initial' ∧
        ∀ loop loop',
          CorrespondsChanged change loop loop' →
            CorrespondsChanged change (loopBehind initial loop)
              (loopBehind initial' loop') := by
  have inBlock : ∀ {first first' : Stmt},
      CorrespondsChanged change first first' →
        ∀ loop loop',
          CorrespondsChanged change loop loop' →
            CorrespondsChanged change (.block [first, loop])
              (.block [first', loop']) := by
    intro first first' firstCorresponds loop loop' loopCorresponds level
    exact .block (.cons (firstCorresponds _) (.cons (loopCorresponds _) .nil))
  cases derives with
  | missing ends =>
      exact ⟨none, .missing (keeps.kind_eq ends), fun _ _ corresponds =>
        corresponds⟩
  | declaration declares =>
      obtain ⟨initial', derives, corresponds⟩ := declares.changed keeps
      exact ⟨some initial', .declaration derives, inBlock corresponds⟩
  | expression evaluates =>
      obtain ⟨initial', derives, corresponds⟩ := evaluates.changed keeps
      exact ⟨some initial', .expression derives, inBlock corresponds⟩

/-- Tokens that are changed but keep their reading derive the changed clause. -/
theorem ForClause.changed
    (keeps : KeepsReading change)
    {tokens : List Token}
    {clause : Option Expr}
    (derives : ForClause tokens clause) :
    ∃ clause',
      ForClause (tokens.map change) clause' ∧
        Option.Rel (Expr.Corresponds (.ofMap change)) clause clause' := by
  cases derives with
  | missing => exact ⟨none, .missing, .none⟩
  | given derives =>
      obtain ⟨expr', derives, corresponds⟩ := derives.changed keeps
      exact ⟨some expr', .given derives, .some corresponds⟩

/--
The conditions of loops correspond if the clauses do, also where both are missing.
-/
theorem corresponds_loopCondition
    {condition condition' : Option Expr}
    (corresponds :
      Option.Rel (Expr.Corresponds (.ofMap change)) condition condition') :
    Expr.Corresponds (.ofMap change) (loopCondition condition)
      (loopCondition condition') := by
  cases corresponds with
  | none => exact .literal
  | some corresponds => exact corresponds

/-- The rounds of loops correspond if their increments and bodies do. -/
theorem corresponds_loopRound
    {increment increment' : Option Expr}
    (corresponds :
      Option.Rel (Expr.Corresponds (.ofMap change)) increment increment')
    {body body' : Stmt}
    (bodyCorresponds : CorrespondsChanged change body body') :
    CorrespondsChanged change (loopRound increment body)
      (loopRound increment' body') := by
  intro level
  cases corresponds with
  | none => exact bodyCorresponds level
  | some corresponds => exact .loopBody (bodyCorresponds _) corresponds

section Statements

variable {rule : ElseRule}

mutual

/--
Tokens that are changed but keep their reading derive a statement that corresponds.
-/
theorem Statement.changed
    (keeps : KeepsReading change) :
    ∀ {ending : Ending} {tokens : List Token} {stmt : Stmt},
      Statement rule ending tokens stmt →
        ∃ stmt',
          Statement rule ending (tokens.map change) stmt' ∧
            CorrespondsChanged change stmt stmt'
  | _, _, _, .expression derives => by
      obtain ⟨stmt', derives, corresponds⟩ := derives.changed keeps
      exact ⟨stmt', .expression derives, corresponds⟩
  | _, _, _, .print starts derives ends => by
      obtain ⟨inner', derives, corresponds⟩ := derives.changed keeps
      refine ⟨.print inner', ?_, fun _ => .print corresponds⟩
      simpa using @Statement.print rule _ _ _ _ (keeps.kind_eq starts) derives
        (keeps.kind_eq ends)
  | _, _, _, .breakLoop starts ends =>
      ⟨_, .breakLoop (keeps.kind_eq starts) (keeps.kind_eq ends),
        fun _ => .breakLoop rfl⟩
  | _, _, _, .continueLoop starts ends =>
      ⟨_, .continueLoop (keeps.kind_eq starts) (keeps.kind_eq ends),
        fun _ => .continueLoop rfl⟩
  | _, _, _, .block starts derive closes => by
      obtain ⟨statements', derive, correspond⟩ := derive.changed keeps
      refine ⟨.block statements', ?_, fun _ => .block (correspond _)⟩
      simpa using Statement.block (keeps.kind_eq starts) derive
        (keeps.kind_eq closes)
  | _, _, _, .ifThen starts opens conditionDerives closes thenDerives => by
      obtain ⟨condition', conditionDerives, condition⟩ :=
        conditionDerives.changed keeps
      obtain ⟨thenPart', thenDerives, thenPart⟩ := thenDerives.changed keeps
      refine ⟨.ifThen condition' thenPart', ?_, fun _ =>
        .ifThen condition (thenPart _)⟩
      simpa using Statement.ifThen (keeps.kind_eq starts) (keeps.kind_eq opens)
        conditionDerives (keeps.kind_eq closes) thenDerives
  | _, _, _, .ifElse starts opens conditionDerives closes thenDerives admits
      alternative elseDerives => by
        obtain ⟨condition', conditionDerives, condition⟩ :=
          conditionDerives.changed keeps
        obtain ⟨thenPart', thenDerives, thenPart⟩ := thenDerives.changed keeps
        obtain ⟨elsePart', elseDerives, elsePart⟩ := elseDerives.changed keeps
        refine ⟨.ifElse condition' thenPart' elsePart', ?_,
          fun _ => .ifElse condition (thenPart _) (elsePart _)⟩
        simpa using Statement.ifElse (keeps.kind_eq starts) (keeps.kind_eq opens)
          conditionDerives (keeps.kind_eq closes) thenDerives admits
          (keeps.kind_eq alternative) elseDerives
  | _, _, _, .whileLoop starts opens conditionDerives closes bodyDerives => by
      obtain ⟨condition', conditionDerives, condition⟩ :=
        conditionDerives.changed keeps
      obtain ⟨body', bodyDerives, body⟩ := bodyDerives.changed keeps
      refine ⟨.whileLoop condition' body', ?_, fun _ =>
        .whileLoop condition (body _)⟩
      simpa using Statement.whileLoop (keeps.kind_eq starts) (keeps.kind_eq opens)
        conditionDerives (keeps.kind_eq closes) bodyDerives
  | _, _, _, .forLoop starts opens initialDerives conditionDerives ends
      incrementDerives closes bodyDerives => by
        obtain ⟨initial', initialDerives, behind⟩ := initialDerives.changed keeps
        obtain ⟨condition', conditionDerives, condition⟩ :=
          conditionDerives.changed keeps
        obtain ⟨increment', incrementDerives, increment⟩ :=
          incrementDerives.changed keeps
        obtain ⟨body', bodyDerives, body⟩ := bodyDerives.changed keeps
        have round := corresponds_loopRound increment body
        have loop : CorrespondsChanged change (.whileLoop _ _) (.whileLoop _ _) :=
          fun level =>
          .whileLoop (corresponds_loopCondition condition) (round level)
        refine ⟨_, ?_, behind _ _ loop⟩
        simpa using Statement.forLoop (keeps.kind_eq starts) (keeps.kind_eq opens)
          initialDerives conditionDerives (keeps.kind_eq ends) incrementDerives
          (keeps.kind_eq closes) bodyDerives

/--
Tokens that are changed but keep their reading derive a declaration that
corresponds.
-/
theorem Declaration.changed
    (keeps : KeepsReading change) :
    ∀ {tokens : List Token} {stmt : Stmt},
      Declaration rule tokens stmt →
        ∃ stmt',
          Declaration rule (tokens.map change) stmt' ∧
            CorrespondsChanged change stmt stmt'
  | _, _, .var derives => by
      obtain ⟨stmt', derives, corresponds⟩ := derives.changed keeps
      exact ⟨stmt', .var derives, corresponds⟩
  | _, _, .statement derives => by
      obtain ⟨stmt', derives, corresponds⟩ := derives.changed keeps
      exact ⟨stmt', .statement derives, corresponds⟩

/-- Changed tokens derive as declarations that correspond one by one. -/
theorem Declarations.changed
    (keeps : KeepsReading change) :
    ∀ {tokens : List Token} {statements : List Stmt},
      Declarations rule tokens statements →
        ∃ statements',
          Declarations rule (tokens.map change) statements' ∧
            ∀ level,
              Stmt.Correspond (.ofMap change) (fun _ => True) level
                statements statements'
  | _, _, .nil => ⟨[], .nil, fun _ => .nil⟩
  | _, _, .cons first rest => by
      obtain ⟨first', firstDerives, firstCorresponds⟩ := first.changed keeps
      obtain ⟨rest', restDerive, restCorrespond⟩ := rest.changed keeps
      refine ⟨first' :: rest', ?_, fun _ =>
        .cons (firstCorresponds _) (restCorrespond _)⟩
      simpa using Declarations.cons firstDerives restDerive

end

/-- Declarations may be followed by more declarations. -/
theorem Declarations.append :
    ∀ {tokens others : List Token} {statements otherStatements : List Stmt},
      Declarations rule tokens statements →
        Declarations rule others otherStatements →
          Declarations rule (tokens ++ others) (statements ++ otherStatements)
  | _, _, _, _, .nil, more => more
  | _, _, _, _, .cons first rest, more => by
      rw [List.append_assoc]
      exact .cons first (rest.append more)

end Statements

end Lox.Grammar
