import Lox.Proofs.Grammar.StatementReading
import Lox.Proofs.Tree.Trail

namespace Lox

namespace Grammar

/-!
# Where declarations stand in programs

The grammar has declarations in programs, in blocks and in the first clause of a
for loop, which becomes a block with the loop.  So in each tree that is read, a
declaration is an element of a list and never a branch or the body of a loop.
-/

/-- A placed statement that is no declaration. -/
def PlacedStatement
    (stmt : Stmt) :
    Prop :=
  stmt.Placed ∧ stmt.declares? = none

/-- A declaration of a variable may stand in a list. -/
theorem VarDeclaration.placed
    {tokens : List Token}
    {stmt : Stmt}
    (derives : VarDeclaration tokens stmt) :
    stmt.Placed := by
  cases derives with
  | plain => exact .var
  | initialized => exact .var

theorem ExpressionStatement.placedStatement
    {tokens : List Token}
    {stmt : Stmt}
    (derives : ExpressionStatement tokens stmt) :
    PlacedStatement stmt := by
  obtain ⟨_, _⟩ := derives
  exact ⟨.expression, rfl⟩

/-- Both forms of a round may stand in a loop. -/
theorem placedStatement_loopRound
    {body : Stmt}
    (placed : PlacedStatement body)
    (increment : Option Expr) :
    PlacedStatement (loopRound increment body) := by
  cases increment with
  | none => exact placed
  | some increment => exact ⟨.loopBody placed.1 placed.2, rfl⟩

/-- A loop stands behind its first clause as a statement does. -/
theorem placedStatement_loopBehind
    {tokens : List Token}
    {initial : Option Stmt}
    {loop : Stmt}
    (derives : ForInitial tokens initial)
    (placed : PlacedStatement loop) :
    PlacedStatement (loopBehind initial loop) := by
  have inBlock :
      ∀ {first : Stmt}, first.Placed → PlacedStatement (.block [first, loop]) := by
    intro first firstPlaced
    refine ⟨.block ?_, rfl⟩
    intro stmt member
    rcases List.mem_pair.mp member with rfl | rfl
    · exact firstPlaced
    · exact placed.1
  cases derives with
  | missing => exact placed
  | declaration declares => exact inBlock declares.placed
  | expression evaluates => exact inBlock evaluates.placedStatement.1

mutual

/-- What derives as a statement is placed and is no declaration. -/
theorem Statement.placedStatement
    {rule : ElseRule} :
    ∀ {ending : Ending} {tokens : List Token} {stmt : Stmt},
      Statement rule ending tokens stmt → PlacedStatement stmt
  | _, _, _, .expression derives => derives.placedStatement
  | _, _, _, .print _ _ _ => ⟨.print, rfl⟩
  | _, _, _, .breakLoop _ _ => ⟨.breakLoop, rfl⟩
  | _, _, _, .continueLoop _ _ => ⟨.continueLoop, rfl⟩
  | _, _, _, .block _ derive _ => ⟨.block derive.placed, rfl⟩
  | _, _, _, .ifThen _ _ _ _ thenDerives => by
      obtain ⟨thenPlaced, thenDeclares⟩ := thenDerives.placedStatement
      exact ⟨.ifThen thenPlaced thenDeclares, rfl⟩
  | _, _, _, .ifElse _ _ _ _ thenDerives _ _ elseDerives => by
      obtain ⟨thenPlaced, thenDeclares⟩ := thenDerives.placedStatement
      obtain ⟨elsePlaced, elseDeclares⟩ := elseDerives.placedStatement
      exact ⟨.ifElse thenPlaced thenDeclares elsePlaced elseDeclares, rfl⟩
  | _, _, _, .whileLoop _ _ _ _ bodyDerives => by
      obtain ⟨bodyPlaced, bodyDeclares⟩ := bodyDerives.placedStatement
      exact ⟨.whileLoop bodyPlaced bodyDeclares, rfl⟩
  | _, _, _, @Statement.forLoop _ _ _ _ _ _ _ _ _ _ _ increment _ _ _ _
      initialDerives _ _ _ _ bodyDerives => by
        have round :=
          placedStatement_loopRound bodyDerives.placedStatement increment
        exact placedStatement_loopBehind initialDerives
          ⟨.whileLoop round.1 round.2, rfl⟩

/-- What derives as a declaration may stand in a list. -/
theorem Declaration.placed
    {rule : ElseRule} :
    ∀ {tokens : List Token} {stmt : Stmt},
      Declaration rule tokens stmt → stmt.Placed
  | _, _, .var derives => derives.placed
  | _, _, .statement derives => derives.placedStatement.1

/--
The statements of a program are placed, each in
the list of the program or of a block.
-/
theorem Declarations.placed
    {rule : ElseRule} :
    ∀ {tokens : List Token} {statements : List Stmt},
      Declarations rule tokens statements → ∀ stmt ∈ statements, stmt.Placed
  | _, _, .nil => by
      intro stmt member
      cases member
  | _, _, .cons first later => by
      have firstPlaced := first.placed
      have laterPlaced := later.placed
      intro stmt member
      rcases List.mem_cons.mp member with rfl | behind
      · exact firstPlaced
      · exact laterPlaced stmt behind

end

end Grammar

/-- Programs that are read without errors have declarations in lists only. -/
theorem placed_of_accepted
    {tokens : List Token}
    {program : Program}
    (accepted : (readProgram tokens).accepted? = some program) :
    ∀ stmt ∈ program, stmt.Placed :=
  (readProgram_accepted?_iff.mp accepted).placed

end Lox
