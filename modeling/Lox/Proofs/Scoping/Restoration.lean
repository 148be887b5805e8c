import Lox.Proofs.Evaluation.Kept
import Lox.Proofs.Scoping.SameScopes

namespace Lox.Evaluation

/-!
# Scopes and loops are left the way they were entered

Main statement: however a statement ends, it leaves the scopes that were in force
before it, and it counts as many loops around it as before.  So the state after a
program is at the global scope and outside of loops, also after an error.

The statement follows from what each step of a run keeps: only a scope that was
just opened is ever closed, and only a loop that was just entered is ever left.
-/

/-- A state with the scopes and the loops of another. -/
structure Restored
    (written : String → Prop)
    (before after : State) :
    Prop where
  scopes : before.environment.SameScopes written after.environment
  loops : after.loopDepth = before.loopDepth

/-- Every step of a run restores scopes and loops. -/
theorem kept_restored
    (written : String → Prop) :
    Kept written (Restored written) where
  refl state := ⟨.refl state.environment, rfl⟩
  trans first second third earlier later :=
    ⟨earlier.scopes.trans later.scopes, later.loops.trans earlier.loops⟩
  record state event := ⟨.refl state.environment, rfl⟩
  assign state name value changed writes assigned := ⟨.assign writes assigned, rfl⟩
  define state name value writes := ⟨.define state.environment value writes, rfl⟩
  scope before after inside := ⟨inside.scopes.leave, inside.loops⟩
  loop before after inside := by
    refine ⟨inside.scopes, ?_⟩
    have loops : after.loopDepth = before.loopDepth + 1 := inside.loops
    simp [State.leaveLoop, loops]

theorem exec_restored
    {settings : Settings}
    {budget : Nat}
    {stmt : Stmt}
    {before after : State}
    {result : Except RuntimeError Completion}
    (ended : exec settings budget stmt before = some (result, after)) :
    Restored (Node.Writes (.stmt stmt)) before after :=
  (kept_restored _).exec settings budget stmt (fun _ writes => writes) before ended

theorem interpret_restored
    {settings : Settings}
    {budget : Nat}
    {program : Program}
    {before after : State}
    {finished : Bool}
    (ended : interpret settings budget program before = some (finished, after)) :
    Restored program.Writes before.atGlobals after :=
  (kept_restored _).interpret settings budget
    (fun stmt member _ writes => ⟨stmt, member, writes⟩) ended

/-- No local scope outlasts a program. -/
theorem locals_of_interpret
    {settings : Settings}
    {budget : Nat}
    {program : Program}
    {before after : State}
    {finished : Bool}
    (ended : interpret settings budget program before = some (finished, after)) :
    after.environment.locals = [] :=
  List.eq_nil_of_length_eq_zero (interpret_restored ended).scopes.nesting

/--
A statement that completes, signals a loop or fails, in any state, leaves the
scopes and the loops that it found; a program leaves the global scope active and
no loop entered, whether it ran to its end or not.
-/
theorem run_restores_scopes_and_loops
    (settings : Settings)
    (budget : Nat) :
    (∀ stmt before result after,
        exec settings budget stmt before = some (result, after) →
          before.environment.SameScopes (Node.Writes (.stmt stmt))
            after.environment ∧
            after.loopDepth = before.loopDepth) ∧
      ∀ program before finished after,
        interpret settings budget program before = some (finished, after) →
          after.environment.locals = [] ∧
            after.environment.active = after.environment.globals ∧
            before.atGlobals.environment.SameScopes (Program.Writes program)
              after.environment ∧
            after.loopDepth = 0 := by
  constructor
  · intro stmt before result after ended
    have restored := exec_restored ended
    exact ⟨restored.scopes, restored.loops⟩
  · intro program before finished after ended
    have restored := interpret_restored ended
    have noLocals : after.environment.locals = [] :=
      List.eq_nil_of_length_eq_zero restored.scopes.nesting
    refine ⟨noLocals, ?_, restored.scopes, restored.loops⟩
    simp [Environment.active, noLocals]

/--
A loop that fails in its first round, inside a
block: it reads a name without a value.
-/
def failingLoop :
    Stmt :=
  let name : Token := ⟨.identifier, "inner", .nil, 1, 4⟩
  .whileLoop (.literal (.boolean true))
    (.block [.var name none, .print (.reference name)])

/-- The failing loop inside two loops and one scope, and as a program of its own. -/
theorem failingLoop_restored :
    let nested :=
      State.start ⟨[⟨[("inner", .string "outside")]⟩], Scope.empty, []⟩ 2
    (∃ error after,
        exec ⟨false, false⟩ 1 failingLoop nested = some (.error error, after) ∧
          nested.environment.SameScopes (Node.Writes (.stmt failingLoop))
            after.environment ∧
          after.loopDepth = 2) ∧
      ∃ after,
        interpret ⟨false, false⟩ 1 [failingLoop] nested = some (false, after) ∧
          after.environment.locals = [] ∧ after.loopDepth = 0 := by
  intro nested
  constructor
  · have ended :=
      (run_restores_scopes_and_loops ⟨false, false⟩ 1).1 failingLoop nested _ _ rfl
    exact ⟨_, _, rfl, ended⟩
  · have ended :=
      (run_restores_scopes_and_loops ⟨false, false⟩ 1).2
        [failingLoop] nested _ _ rfl
    exact ⟨_, rfl, ended.1, ended.2.2.2⟩

end Lox.Evaluation
