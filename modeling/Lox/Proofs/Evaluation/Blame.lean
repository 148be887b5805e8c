import Lox.Proofs.Evaluation.Lockstep

namespace Lox.Evaluation

/-!
# The faults of a run

No statement records a fault: a runtime error is handed on as a result.  It is
recorded once, where the program that it stopped ends.
-/

/-- The faults recorded so far, in order. -/
def State.faults
    (state : State) :
    List Fault :=
  state.events.filterMap Event.fault?

@[simp] theorem faults_atGlobals
    (state : State) :
    state.atGlobals.faults = state.faults :=
  rfl

@[simp] theorem faults_printed
    (state : State)
    (text : String) :
    (state.record (.printed text)).faults = state.faults := by
  simp [State.faults, State.events, State.record, Event.fault?]

@[simp] theorem faults_trace
    (state : State)
    (settings : Settings)
    (text : String) :
    (state.trace settings text).faults = state.faults := by
  unfold State.trace
  split
  · simp [State.faults, State.events, State.record, Event.fault?]
  · rfl

/--
A runtime error that is recorded adds its one fault, whether it is traced or not.
-/
theorem faults_recordError
    (state : State)
    (settings : Settings)
    (error : RuntimeError) :
    (state.recordError settings error).faults = state.faults ++ [error.fault] := by
  have recorded : ∀ traced : State,
      (traced.record (.faulted error.fault)).faults =
        traced.faults ++ [error.fault] := by
    intro traced
    simp [State.faults, State.events, State.record, Event.fault?]
  rw [State.recordError, recorded, faults_trace]

/-- Evaluation reports nothing by itself. -/
theorem faults_of_evaluate
    {state afterwards : State}
    {expr : Expr}
    {result : Except RuntimeError Value}
    (outcome : state.evaluate expr = (result, afterwards)) :
    afterwards.faults = state.faults := by
  have same : (state.evaluate expr).2.faults = state.faults := rfl
  rw [outcome] at same
  exact same

/-- A run that ends, in whatever way, has recorded no fault. -/
theorem lockstep_faults
    (settings : Settings) :
    Lockstep settings fun before run _ =>
      run.Ends fun _ after => after.faults = before.faults := by
  constructor
  case begin =>
    intro place stmt state run inside keeps result after ended
    rw [keeps ended, State.begin, faults_trace]
  case spent =>
    intro state
    exact Run.ends_none
  case completed =>
    intro completion state
    exact Run.ends_some.mpr rfl
  case printed =>
    intro state text
    exact Run.ends_some.mpr (by simp)
  case defined =>
    intro state name value
    exact Run.ends_some.mpr rfl
  case outside =>
    intro state keyword
    exact Run.ends_some.mpr rfl
  case value =>
    intro state place expr next later keeps
    rw [Run.ends_withValue]
    rcases outcome : state.evaluate expr with ⟨error | value, afterwards⟩
    · exact faults_of_evaluate outcome
    · simp only [← faults_of_evaluate outcome]
      exact keeps value afterwards
  case sequence =>
    intro state first earlier next later firstKeeps nextKeeps
    rw [Run.ends_proceed]
    refine firstKeeps.imp ?_
    intro result between reached
    cases result with
    | error error => exact reached
    | ok completion =>
        simp only [← reached]
        exact nextKeeps completion between
  case scope =>
    intro state run inside keeps
    exact Run.ends_restoring.mpr keeps
  case loop =>
    intro state run inside keeps
    exact Run.ends_restoring.mpr keeps

/-- Nothing is reported before a program has ended. -/
theorem faults_execProgram
    {settings : Settings}
    {budget : Nat}
    {program : Program}
    {state : State}
    {progress : Progress}
    (ended : execProgram settings budget program state = some progress) :
    progress.state.faults = state.faults := by
  induction program generalizing state progress with
  | nil =>
      cases ended
      rfl
  | cons first rest inductionHypothesis =>
      have keeps := (lockstep_faults settings).exec budget first ⟨0, []⟩ state
      rcases execProgram_cons ended with
        ⟨error, run, _⟩ |
        ⟨completion, between, later, run, laterEnded, _, sameState⟩
      · exact keeps run
      · rw [sameState, inductionHypothesis laterEnded, keeps run]

/-- An interpretation records the error that stops it, and no other fault. -/
theorem faults_interpret
    {settings : Settings}
    {budget : Nat}
    {program : Program}
    {state after : State}
    {finished : Bool}
    (ended : interpret settings budget program state = some (finished, after)) :
    (finished = true ∧ after.faults = state.faults) ∨
      ∃ error : RuntimeError,
        finished = false ∧ after.faults = state.faults ++ [error.fault] := by
  obtain ⟨progress, run, outcome⟩ := interpret_cases ended
  have keeps := faults_execProgram run
  rcases outcome with ⟨-, rfl, rfl⟩ | ⟨error, -, rfl, rfl⟩
  · exact .inl ⟨rfl, keeps⟩
  · exact .inr ⟨error, rfl, by rw [faults_recordError, keeps, faults_atGlobals]⟩

end Lox.Evaluation
