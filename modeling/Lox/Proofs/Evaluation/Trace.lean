import Lox.Proofs.Evaluation.Lockstep

namespace Lox.Evaluation

/-!
# The trace of a run

With tracing on, a run writes a line for each statement that it comes to.  These
are the statements of its moments, one by one and in order, so that no moment is
missing from the list and none is in it that the run does not have.
-/

/-- The line that a trace has for a moment at which the run comes to a statement. -/
def Moment.line?
    (moment : Moment) :
    Option String :=
  match moment.node with
  | .stmt inner => some ("Executing: " ++ inner.nodeClass.name)
  | .expr _ => none

/-- The lines that a trace has for moments. -/
def traceLines
    (moments : List Moment) :
    List String :=
  moments.filterMap Moment.line?

/-- The lines traced so far, in order. -/
def State.traced
    (state : State) :
    List String :=
  state.events.filterMap Event.tracedText?

@[simp] theorem traceLines_nil :
    traceLines [] = [] :=
  rfl

/-- The lines of moments are traced one behind the other. -/
@[simp] theorem traceLines_append
    (first second : List Moment) :
    traceLines (first ++ second) = traceLines first ++ traceLines second := by
  simp [traceLines]

@[simp] theorem traceLines_cons_stmt
    (place : Place)
    (stmt : Stmt)
    (state : State)
    (rest : List Moment) :
    traceLines (⟨place, .stmt stmt, state⟩ :: rest) =
      ("Executing: " ++ stmt.nodeClass.name) :: traceLines rest :=
  rfl

/-- Look-ups are not traced. -/
@[simp] theorem traceLines_lookups
    (place : Place)
    (expr : Expr)
    (state : State) :
    traceLines (lookups place expr state) = [] := by
  induction expr generalizing place state with
  | literal value =>
      rfl
  | grouping inner inductionHypothesis =>
      exact inductionHypothesis _ state
  | unary operator operand inductionHypothesis =>
      exact inductionHypothesis _ state
  | binary left operator right leftHypothesis rightHypothesis =>
      simp only [lookups, traceLines_append, leftHypothesis, whenValue]
      rcases state.evaluate left with ⟨error | value, between⟩
      · rfl
      · exact rightHypothesis _ between
  | logical left operator right leftHypothesis rightHypothesis =>
      simp only [lookups, traceLines_append, leftHypothesis, whenValue]
      rcases state.evaluate left with ⟨error | value, between⟩
      · rfl
      · by_cases decided : decides operator value = true
        · simp [decided]
        · simpa [decided] using rightHypothesis _ between
  | reference name =>
      rfl
  | assign name value inductionHypothesis =>
      simp only [lookups, traceLines_append, inductionHypothesis, whenValue]
      rcases state.evaluate value with ⟨error | stored, afterwards⟩
      · rfl
      · rfl

@[simp] theorem traced_printed
    (state : State)
    (text : String) :
    (state.record (.printed text)).traced = state.traced := by
  simp [State.traced, State.events, State.record, Event.tracedText?]

/-- The beginning of a statement is traced with its class. -/
theorem traced_begin
    {settings : Settings}
    (tracing : settings.tracing = true)
    (state : State)
    (nodeClass : NodeClass) :
    (state.begin settings nodeClass).traced =
      state.traced ++ ["Executing: " ++ nodeClass.name] := by
  simp [State.begin, State.trace, tracing, State.traced, State.events, State.record,
    Event.tracedText?]

/-- An evaluation traces nothing. -/
theorem traced_of_evaluate
    {state afterwards : State}
    {expr : Expr}
    {result : Except RuntimeError Value}
    (outcome : state.evaluate expr = (result, afterwards)) :
    afterwards.traced = state.traced := by
  have same : (state.evaluate expr).2.traced = state.traced := rfl
  rw [outcome] at same
  exact same

/-- With tracing on, a run that ends has traced the lines of its moments. -/
theorem lockstep_traced
    {settings : Settings}
    (tracing : settings.tracing = true) :
    Lockstep settings fun before run moments =>
      run.Ends fun _ after =>
        after.traced = before.traced ++ traceLines moments := by
  constructor
  case begin =>
    intro place stmt state run inside traces result after ended
    rw [traces ended, traced_begin tracing, traceLines_cons_stmt, List.append_assoc]
    rfl
  case spent =>
    intro state
    exact Run.ends_none
  case completed =>
    intro completion state
    exact Run.ends_some.mpr (by simp)
  case printed =>
    intro state text
    exact Run.ends_some.mpr (by simp)
  case defined =>
    intro state name value
    refine Run.ends_some.mpr ?_
    rw [traceLines_nil, List.append_nil]
    rfl
  case outside =>
    intro state keyword
    exact Run.ends_some.mpr (by simp)
  case value =>
    intro state place expr next later traces
    rw [Run.ends_withValue, traceLines_append, traceLines_lookups,
      List.nil_append, whenValue]
    rcases outcome : state.evaluate expr with ⟨error | value, afterwards⟩
    · simpa using traced_of_evaluate outcome
    · simp only [← traced_of_evaluate outcome]
      exact traces value afterwards
  case sequence =>
    intro state first earlier next later firstTraces nextTraces
    rw [Run.ends_proceed]
    rcases first with _ | ⟨error | completion, between⟩
    · exact Run.ends_none
    · simpa [whenCompleted] using firstTraces
    · have reached := Run.ends_some.mp firstTraces
      refine Run.ends_some.mpr ?_
      intro result after ended
      rw [nextTraces completion between ended, reached]
      simp [whenCompleted]
  case scope =>
    intro state run inside traces
    exact Run.ends_restoring.mpr traces
  case loop =>
    intro state run inside traces
    exact Run.ends_restoring.mpr traces

/-- The trace of a program shows the statements at its moments, in order. -/
theorem traced_execProgram
    {settings : Settings}
    (tracing : settings.tracing = true)
    (budget : Nat)
    {program : Program}
    (position : Nat)
    {state : State}
    {progress : Progress}
    (ended : execProgram settings budget program state = some progress) :
    progress.state.traced =
      state.traced ++
        traceLines (programMoments settings budget position program state) := by
  induction program generalizing position state progress with
  | nil =>
      simp only [execProgram, Option.some.injEq] at ended
      subst ended
      simp [programMoments]
  | cons first rest inductionHypothesis =>
      have traces :=
        (lockstep_traced tracing).exec budget first ⟨position, []⟩ state
      rw [programMoments, traceLines_append]
      rcases execProgram_cons ended with
        ⟨error, run, _⟩ |
        ⟨completion, between, later, run, laterEnded, _, sameState⟩
      · simpa [run, whenCompleted] using traces run
      · have reached := inductionHypothesis (position + 1) laterEnded
        simp [run, whenCompleted, sameState, reached, traces run]

end Lox.Evaluation
