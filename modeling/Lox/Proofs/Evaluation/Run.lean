import Lox.Evaluation.Program

namespace Lox.Evaluation

/-!
# What holds when a run ends

A run ends with a completion or with a runtime error, or it exceeds its budget.
A fact about the ends of a run is shown along the way the run is put together:
what restores, what goes on after a completion, and what repeats a body.
-/

/-- Whatever a run ends with, something holds of that and of the state then. -/
def Run.Ends
    (run : Run)
    (holds : Except RuntimeError Completion → State → Prop) :
    Prop :=
  ∀ ⦃result : Except RuntimeError Completion⦄ ⦃after : State⦄,
    run = some (result, after) → holds result after

/-- A loop tests its condition, runs its body and goes on, unless the body broke. -/
theorem iterate_succ
    (condition : Expr)
    (body : State → Run)
    (budget : Nat)
    (state : State) :
    iterate condition body (budget + 1) state =
      withValue state condition fun value tested =>
        if value.isTruthy then
          proceed (body tested) fun
            | .broke, afterwards => some (.ok .normal, afterwards)
            | _, afterwards => iterate condition body budget afterwards
        else
          some (.ok .normal, tested) := by
  rw [iterate, withValue]
  rcases state.evaluate condition with ⟨error | value, tested⟩
  · rfl
  · by_cases truthy : value.isTruthy = true
    · simp only [truthy, ↓reduceIte, proceed]
      rcases body tested with _ | ⟨error | (_ | _ | _), afterwards⟩ <;> rfl
    · simp [truthy]

/--
Behind the body of a loop, its increment is run
as a statement, unless the body broke.
-/
theorem exec_loopBody
    (settings : Settings)
    (budget : Nat)
    (body : Stmt)
    (increment : Expr)
    (state : State) :
    exec settings budget (.loopBody body increment) state =
      restoring State.closeScope
        (proceed
          (exec settings budget body (state.begin settings .loopBody).openScope) fun
          | .broke, after => some (.ok .broke, after)
          | _, after => exec settings budget (.expression increment) after) :=
  rfl

namespace Run

variable {holds other : Except RuntimeError Completion → State → Prop}

@[simp] theorem ends_none :
    Ends none holds := by
  intro result after ended
  cases ended

@[simp] theorem ends_some
    {result : Except RuntimeError Completion}
    {state : State} :
    Ends (some (result, state)) holds ↔ holds result state := by
  constructor
  · intro ends
    exact ends rfl
  · intro held result after ended
    cases ended
    exact held

/-- A run that ends with one property ends with each that follows. -/
theorem Ends.imp
    {run : Run}
    (ends : run.Ends holds)
    (implies : ∀ result state, holds result state → other result state) :
    run.Ends other := by
  intro result after ended
  exact implies result after (ends ended)

/-- A run that restores ends with a property of the state behind the restoring. -/
@[simp] theorem ends_restoring
    {restore : State → State}
    {run : Run} :
    Ends (restoring restore run) holds ↔
      run.Ends fun result state => holds result (restore state) := by
  rcases run with _ | ⟨result, state⟩
  · simp [restoring]
  · simp [restoring]

/-- A sequence ends where its first part fails, or as its second part ends. -/
theorem ends_proceed
    {first : Run}
    {next : Completion → State → Run} :
    Ends (proceed first next) holds ↔
      first.Ends fun
        | .error error, state => holds (.error error) state
        | .ok completion, state => (next completion state).Ends holds := by
  rcases first with _ | ⟨error | completion, state⟩
  · simp [proceed]
  · simp [proceed]
  · simp [proceed]

/-- A run on a value ends where the evaluation fails, or as it ends on the value. -/
theorem ends_withValue
    {state : State}
    {expr : Expr}
    {next : Value → State → Run} :
    Ends (withValue state expr next) holds ↔
      match state.evaluate expr with
      | (.error error, afterwards) => holds (.error error) afterwards
      | (.ok value, afterwards) => (next value afterwards).Ends holds := by
  unfold withValue
  rcases state.evaluate expr with ⟨error | value, afterwards⟩
  · exact ends_some
  · exact Iff.rfl

/--
An invariant of the test and of the body of a loop holds when the loop ends, in
whatever way that is.
-/
theorem ends_iterate
    {invariant : State → Prop}
    {condition : Expr}
    {body : State → Run}
    (tested : ∀ ⦃state⦄, invariant state → invariant (state.evaluate condition).2)
    (repeated : ∀ ⦃state⦄, invariant state → (body state).Ends fun _ after =>
      invariant after)
    (budget : Nat)
    {state : State}
    (holds : invariant state) :
    (iterate condition body budget state).Ends fun _ after => invariant after := by
  induction budget generalizing state with
  | zero =>
      exact ends_none
  | succ budget inductionHypothesis =>
      have afterTest := tested holds
      rw [iterate_succ, ends_withValue]
      rcases outcome : state.evaluate condition with ⟨error | value, between⟩
      · rw [outcome] at afterTest
        exact afterTest
      · rw [outcome] at afterTest
        dsimp only
        split
        · rw [ends_proceed]
          refine (repeated afterTest).imp ?_
          intro result afterwards afterBody
          rcases result with error | _ | _ | _
          · exact afterBody
          · exact inductionHypothesis afterBody
          · exact ends_some.mpr afterBody
          · exact inductionHypothesis afterBody
        · exact ends_some.mpr afterTest

end Run

namespace State

/-- To begin a statement is seen in the log alone. -/
@[simp] theorem environment_begin
    (state : State)
    (settings : Settings)
    (nodeClass : NodeClass) :
    (state.begin settings nodeClass).environment = state.environment := by
  unfold begin trace
  split <;> rfl

@[simp] theorem loopDepth_begin
    (state : State)
    (settings : Settings)
    (nodeClass : NodeClass) :
    (state.begin settings nodeClass).loopDepth = state.loopDepth := by
  unfold begin trace
  split <;> rfl

/-- To record an error is seen in the log alone. -/
@[simp] theorem environment_recordError
    (state : State)
    (settings : Settings)
    (error : RuntimeError) :
    (state.recordError settings error).environment = state.environment := by
  unfold recordError trace
  split <;> rfl

@[simp] theorem loopDepth_recordError
    (state : State)
    (settings : Settings)
    (error : RuntimeError) :
    (state.recordError settings error).loopDepth = state.loopDepth := by
  unfold recordError trace
  split <;> rfl

end State

/-- The record of an error prints nothing. -/
theorem printedText?_recordError
    (state : State)
    (settings : Settings)
    (error : RuntimeError) :
    (state.recordError settings error).events.filterMap Event.printedText? =
      state.events.filterMap Event.printedText? := by
  unfold State.recordError State.trace
  split
  · simp [State.events, State.record, Event.printedText?]
  · simp [State.events, State.record, Event.printedText?]

/-- A program stops at its first statement with an error, or goes on behind it. -/
theorem execProgram_cons
    {settings : Settings}
    {budget : Nat}
    {first : Stmt}
    {rest : List Stmt}
    {state : State}
    {progress : Progress}
    (ended : execProgram settings budget (first :: rest) state = some progress) :
    (∃ error,
        exec settings budget first state = some (.error error, progress.state) ∧
          progress.error? = some error) ∨
      ∃ completion between later,
        exec settings budget first state = some (.ok completion, between) ∧
          execProgram settings budget rest between = some later ∧
          progress.error? = later.error? ∧
          progress.state = later.state := by
  rw [execProgram] at ended
  rcases run : exec settings budget first state with
    _ | ⟨error | completion, between⟩
  · rw [run] at ended
    cases ended
  · rw [run] at ended
    cases ended
    exact Or.inl ⟨error, rfl, rfl⟩
  · simp only [run, Option.map_eq_some_iff] at ended
    obtain ⟨later, laterEnded, rfl⟩ := ended
    exact Or.inr ⟨completion, between, later, rfl, laterEnded, rfl, rfl⟩

/--
An interpretation is whole, or its last step is
the record of the error that stopped it.
-/
theorem interpret_cases
    {settings : Settings}
    {budget : Nat}
    {program : Program}
    {state after : State}
    {finished : Bool}
    (ended : interpret settings budget program state = some (finished, after)) :
    ∃ progress,
      execProgram settings budget program state.atGlobals = some progress ∧
        ((progress.error? = none ∧ finished = true ∧ after = progress.state) ∨
          ∃ error,
            progress.error? = some error ∧
              finished = false ∧
                after = progress.state.recordError settings error) := by
  obtain ⟨progress, run, outcome⟩ := Option.map_eq_some_iff.mp ended
  refine ⟨progress, run, ?_⟩
  rcases failed : progress.error? with _ | error
  · rw [failed] at outcome
    cases outcome
    exact .inl ⟨rfl, rfl, rfl⟩
  · rw [failed] at outcome
    cases outcome
    exact .inr ⟨error, rfl, rfl, rfl⟩

/--
What a program that was interpreted leaves behind is what its statements left.
-/
theorem exists_progress_of_interpret
    {settings : Settings}
    {budget : Nat}
    {program : Program}
    {state after : State}
    {finished : Bool}
    (ended : interpret settings budget program state = some (finished, after)) :
    ∃ progress,
      execProgram settings budget program state.atGlobals = some progress ∧
        finished = progress.error?.isNone ∧
        after.environment = progress.state.environment := by
  obtain ⟨progress, run, outcome⟩ := interpret_cases ended
  refine ⟨progress, run, ?_⟩
  rcases outcome with ⟨whole, rfl, rfl⟩ | ⟨error, stopped, rfl, rfl⟩
  · exact ⟨by rw [whole]; rfl, rfl⟩
  · exact ⟨by rw [stopped]; rfl, by simp⟩

end Lox.Evaluation
