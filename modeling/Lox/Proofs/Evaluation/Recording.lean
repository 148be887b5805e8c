import Lox.Proofs.Evaluation.Moment

namespace Lox.Evaluation

/-!
# Runs that record what they come to

A recording run takes the steps of a run and writes down, with the state at hand,
each statement when it is entered and each name when it is looked up.  Main
statement: without its record, a recording run is the run itself, and its record is
the list of moments.  So the moments of a run are what the run comes to.
-/

/-- What a run came to, and what came of it. -/
structure Recorded (α : Type) where
  record : List Moment
  outcome : α

/-- What is run with a record: it may fail, or exceed the budget. -/
abbrev Recording (α : Type) :=
  Recorded (Option (Except RuntimeError α × State))

/-- An outcome before which a run comes to nothing. -/
def Recorded.only
    (outcome : α) :
    Recorded α :=
  ⟨[], outcome⟩

/-- Write down that a run comes to a node, and go on. -/
def Recorded.enter
    (place : Place)
    (node : Node)
    (state : State)
    (onward : State → Recorded α) :
    Recorded α :=
  let rest := onward state
  ⟨⟨place, node, state⟩ :: rest.record, rest.outcome⟩

/-- Change the final state, however a recording run ends. -/
def Recording.restoring
    (restore : State → State)
    (run : Recording Completion) :
    Recording Completion :=
  ⟨run.record, Evaluation.restoring restore run.outcome⟩

/-- Go on from a result, but not after an error; the record goes on, too. -/
def Recording.proceed
    (first : Recording α)
    (next : α → State → Recording β) :
    Recording β :=
  match first.outcome with
  | none => ⟨first.record, none⟩
  | some (.error error, state) => ⟨first.record, some (.error error, state)⟩
  | some (.ok result, state) =>
      let rest := next result state
      ⟨first.record ++ rest.record, rest.outcome⟩

/-- Evaluate an expression, and record the names that are looked up. -/
def recordEval
    (place : Place) :
    Expr → State → Recording Value
  | .literal value, state => .only (some (.ok value, state))
  | .grouping inner, state =>
      recordEval (place.inside (.expr (.grouping inner)) 0) inner state
  | .unary operator operand, state =>
      let below := place.inside (.expr (.unary operator operand))
      (recordEval (below 0) operand state).proceed fun value afterwards =>
        .only (some (applyUnary operator value, afterwards))
  | .binary left operator right, state =>
      let below := place.inside (.expr (.binary left operator right))
      (recordEval (below 0) left state).proceed fun leftValue between =>
        (recordEval (below 1) right between).proceed fun rightValue afterwards =>
          .only (some (applyBinary operator leftValue rightValue, afterwards))
  | .logical left operator right, state =>
      let below := place.inside (.expr (.logical left operator right))
      (recordEval (below 0) left state).proceed fun value between =>
        if decides operator value then
          .only (some (.ok value, between))
        else
          recordEval (below 1) right between
  | .reference name, state =>
      .enter place (.expr (.reference name)) state fun here =>
        .only (some (here.environment.valueOf name, here))
  | .assign name value, state =>
      let below := place.inside (.expr (.assign name value))
      (recordEval (below 0) value state).proceed fun stored afterwards =>
        .enter place (.expr (.assign name value)) afterwards fun here =>
          let (result, environment) := store name stored here.environment
          .only (some (result, { here with environment := environment }))

/-- Run an expression statement that was entered. -/
def recordExpression
    (settings : Settings)
    (place : Place)
    (inner : Expr)
    (state : State) :
    Recording Completion :=
  (recordEval place inner state).proceed fun value afterwards =>
    .only (some (.ok .normal,
      if settings.echo then
        afterwards.record (.printed value.display)
      else
        afterwards))

/-- Repeat a recording body while a condition holds, at most so many times. -/
def recordIterate
    (test : State → Recording Value)
    (body : State → Recording Completion) :
    Nat → State → Recording Completion
  | 0, _ => .only none
  | budget + 1, state =>
      (test state).proceed fun value tested =>
        if value.isTruthy then
          (body tested).proceed fun
            | .broke, afterwards => .only (some (.ok .normal, afterwards))
            | _, afterwards => recordIterate test body budget afterwards
        else
          .only (some (.ok .normal, tested))

mutual

/-- Run a statement, and record what the run comes to. -/
def recordExec
    (settings : Settings)
    (budget : Nat)
    (place : Place) :
    Stmt → State → Recording Completion
  | .expression inner, state =>
      let below := place.inside (.stmt (.expression inner))
      .enter place (.stmt (.expression inner)) state fun here =>
        recordExpression settings (below 0) inner (here.begin settings .expression)
  | .print inner, state =>
      let below := place.inside (.stmt (.print inner))
      .enter place (.stmt (.print inner)) state fun here =>
        (recordEval (below 0) inner (here.begin settings .print)).proceed
          fun value afterwards =>
            .only (some (.ok .normal, afterwards.record (.printed value.display)))
  | .var name none, state =>
      .enter place (.stmt (.var name none)) state fun here =>
        .only (runDefinition name .nil (here.begin settings .var))
  | .var name (some initial), state =>
      let below := place.inside (.stmt (.var name (some initial)))
      .enter place (.stmt (.var name (some initial))) state fun here =>
        (recordEval (below 0) initial (here.begin settings .var)).proceed
          fun value afterwards => .only (runDefinition name value afterwards)
  | .block statements, state =>
      let below := place.inside (.stmt (.block statements))
      .enter place (.stmt (.block statements)) state fun here =>
        (recordAll settings budget below 0 statements
          (here.begin settings .block).openScope).restoring State.closeScope
  | .loopBody body increment, state =>
      let below := place.inside (.stmt (.loopBody body increment))
      .enter place (.stmt (.loopBody body increment)) state fun here =>
        ((recordExec settings budget (below 0) body
          (here.begin settings .loopBody).openScope).proceed fun
            | .broke, afterwards => .only (some (.ok .broke, afterwards))
            | _, afterwards =>
                .enter (below 1) (.stmt (.expression increment)) afterwards
                  fun behind =>
                    recordExpression settings
                      ((below 1).inside (.stmt (.expression increment)) 0) increment
                      (behind.begin settings .expression)).restoring
          State.closeScope
  | .ifThen condition thenPart, state =>
      let below := place.inside (.stmt (.ifThen condition thenPart))
      .enter place (.stmt (.ifThen condition thenPart)) state fun here =>
        (recordEval (below 0) condition (here.begin settings .branch)).proceed
          fun value tested =>
            if value.isTruthy then
              recordExec settings budget (below 1) thenPart tested
            else
              .only (some (.ok .normal, tested))
  | .ifElse condition thenPart elsePart, state =>
      let below := place.inside (.stmt (.ifElse condition thenPart elsePart))
      .enter place (.stmt (.ifElse condition thenPart elsePart)) state fun here =>
        (recordEval (below 0) condition (here.begin settings .branch)).proceed
          fun value tested =>
            if value.isTruthy then
              recordExec settings budget (below 1) thenPart tested
            else
              recordExec settings budget (below 2) elsePart tested
  | .whileLoop condition body, state =>
      let below := place.inside (.stmt (.whileLoop condition body))
      .enter place (.stmt (.whileLoop condition body)) state fun here =>
        (recordIterate (recordEval (below 0) condition)
          (fun tested => recordExec settings budget (below 1) body tested) budget
          (here.begin settings .whileLoop).enterLoop).restoring State.leaveLoop
  | .breakLoop keyword, state =>
      .enter place (.stmt (.breakLoop keyword)) state fun here =>
        .only (runSignal keyword .broke (here.begin settings .breakLoop))
  | .continueLoop keyword, state =>
      .enter place (.stmt (.continueLoop keyword)) state fun here =>
        .only (runSignal keyword .continued (here.begin settings .continueLoop))

/--
Run statements in order, recording, up to the first that does not complete normally.
-/
def recordAll
    (settings : Settings)
    (budget : Nat)
    (place : Nat → Place) :
    Nat → List Stmt → State → Recording Completion
  | _, [], state => .only (some (.ok .normal, state))
  | index, first :: rest, state =>
      (recordExec settings budget (place index) first state).proceed fun
        | .normal, afterwards =>
            recordAll settings budget place (index + 1) rest afterwards
        | signal, afterwards => .only (some (.ok signal, afterwards))

end

/-- Run the statements of a program, recording, up to the first error. -/
def recordProgram
    (settings : Settings)
    (budget : Nat) :
    Nat → Program → State → Recorded (Option Progress)
  | _, [], state => .only (some ⟨[], none, state⟩)
  | position, first :: rest, state =>
      let here := recordExec settings budget ⟨position, []⟩ first state
      match here.outcome with
      | none => ⟨here.record, none⟩
      | some (.error error, afterwards) =>
          ⟨here.record, some ⟨[], some error, afterwards⟩⟩
      | some (.ok completion, afterwards) =>
          let later := recordProgram settings budget (position + 1) rest afterwards
          ⟨here.record ++ later.record,
            later.outcome.map fun progress =>
              { progress with completions := completion :: progress.completions }⟩

/-- Without its record, a recording evaluation is the evaluation. -/
theorem recordEval_eq
    (place : Place)
    (expr : Expr)
    (state : State) :
    recordEval place expr state =
      ⟨lookups place expr state, some (state.evaluate expr)⟩ := by
  induction expr generalizing place state with
  | literal value =>
      rfl
  | grouping inner inductionHypothesis =>
      exact inductionHypothesis ..
  | unary operator operand inductionHypothesis =>
      simp only [recordEval, inductionHypothesis, lookups, State.evaluate, eval,
        Recording.proceed]
      rcases eval operand state.environment with ⟨error | value, between⟩ <;>
        simp [Recorded.only]
  | binary left operator right leftHypothesis rightHypothesis =>
      simp only [recordEval, leftHypothesis, rightHypothesis, lookups, whenValue,
        State.evaluate, eval, Recording.proceed]
      rcases eval left state.environment with ⟨error | value, between⟩
      · simp
      · rcases outcome : eval right between with
          ⟨error | rightValue, afterwards⟩ <;>
          simp [outcome, Recorded.only]
  | logical left operator right leftHypothesis rightHypothesis =>
      simp only [recordEval, leftHypothesis, rightHypothesis, lookups, whenValue,
        State.evaluate, eval, Recording.proceed]
      rcases eval left state.environment with ⟨error | value, between⟩
      · simp
      · by_cases decided : decides operator value = true <;>
          simp [decided, Recorded.only]
  | reference name =>
      rfl
  | assign name value inductionHypothesis =>
      simp only [recordEval, inductionHypothesis, lookups, whenValue,
        State.evaluate, eval, Recording.proceed]
      rcases eval value state.environment with ⟨error | stored, between⟩ <;>
        simp [Recorded.only, Recorded.enter]

/-- A node that a run comes to stands in the record before what follows. -/
theorem enter_eq
    {place : Place}
    {node : Node}
    {state : State}
    {onward : State → Recorded α}
    {later : List Moment}
    {outcome : α}
    (same : onward state = ⟨later, outcome⟩) :
    Recorded.enter place node state onward =
      ⟨⟨place, node, state⟩ :: later, outcome⟩ := by
  simp [Recorded.enter, same]

theorem restoring_eq
    {run : Recording Completion}
    {record : List Moment}
    {outcome : Run}
    (same : run = ⟨record, outcome⟩)
    (restore : State → State) :
    run.restoring restore = ⟨record, restoring restore outcome⟩ := by
  rw [same]
  rfl

/--
Going on with a value is recorded as look-ups and then what is come to behind them.
-/
theorem proceed_recordEval
    {place : Place}
    {expr : Expr}
    {state : State}
    {next : Value → State → Recording Completion}
    {later : Value → State → List Moment}
    {onward : Value → State → Run}
    (goesOn : ∀ value between, next value between =
      ⟨later value between, onward value between⟩) :
    (recordEval place expr state).proceed next =
      ⟨lookups place expr state ++ whenValue state expr later,
        withValue state expr onward⟩ := by
  rw [recordEval_eq]
  unfold Recording.proceed whenValue withValue
  rcases state.evaluate expr with ⟨error | value, between⟩
  · simp
  · simp [goesOn]

/-- Where nothing is come to behind a value, the look-ups are the whole record. -/
theorem proceed_recordEval_only
    {place : Place}
    {expr : Expr}
    {state : State}
    (onward : Value → State → Run) :
    (recordEval place expr state).proceed
      (fun value between => .only (onward value between)) =
      ⟨lookups place expr state, withValue state expr onward⟩ := by
  have nothing :
      ∀ value between,
        Recorded.only (onward value between) =
          ⟨(fun _ _ => []) value between, onward value between⟩ :=
    fun _ _ => rfl
  rw [proceed_recordEval nothing, whenValue_nothing, List.append_nil]

/-- Going on from a completion is recorded part by part. -/
theorem proceed_eq
    {first : Recording Completion}
    {earlier : List Moment}
    {run : Run}
    (same : first = ⟨earlier, run⟩)
    {next : Completion → State → Recording Completion}
    {later : Completion → State → List Moment}
    {onward : Completion → State → Run}
    (goesOn :
      ∀ completion between,
        next completion between =
          ⟨later completion between, onward completion between⟩) :
    first.proceed next =
      ⟨earlier ++ whenCompleted run later, Evaluation.proceed run onward⟩ := by
  subst same
  rcases run with _ | ⟨error | completion, between⟩ <;>
    simp [Recording.proceed, whenCompleted, Evaluation.proceed, goesOn]

theorem recordIterate_eq
    {place : Place}
    {condition : Expr}
    {body : State → Recording Completion}
    {round : State → List Moment}
    {run : State → Run}
    (same : ∀ state, body state = ⟨round state, run state⟩)
    (budget : Nat)
    (state : State) :
    recordIterate (recordEval place condition) body budget state =
      ⟨loopMoments condition (lookups place condition) round run budget state,
        iterate condition run budget state⟩ := by
  induction budget generalizing state with
  | zero =>
      rfl
  | succ budget inductionHypothesis =>
      rw [iterate_succ, loopMoments, recordIterate]
      apply proceed_recordEval
      intro value tested
      split
      · apply proceed_eq (same tested)
        intro completion afterwards
        rcases completion with _ | _ | _
        · exact inductionHypothesis afterwards
        · rfl
        · exact inductionHypothesis afterwards
      · rfl

/-- An expression statement comes to the names of its expression. -/
theorem recordExpression_eq
    (settings : Settings)
    (place : Place)
    (inner : Expr)
    (state : State) :
    recordExpression settings place inner state =
      ⟨lookups place inner state, runExpression settings inner state⟩ :=
  proceed_recordEval_only _

mutual

/--
Without its record, a recording run is the run, and its record is the moments.
-/
theorem recordExec_eq
    (settings : Settings)
    (budget : Nat) :
    ∀ (stmt : Stmt) (place : Place) (state : State),
      recordExec settings budget place stmt state =
        ⟨moments settings budget place stmt state, exec settings budget stmt state⟩
  | .expression inner, place, state => by
      rw [recordExec, moments, exec]
      exact enter_eq (recordExpression_eq ..)
  | .print inner, place, state => by
      rw [recordExec, moments, exec]
      exact enter_eq (proceed_recordEval_only _)
  | .var name none, place, state => by
      rw [recordExec, moments, exec]
      exact enter_eq rfl
  | .var name (some initial), place, state => by
      rw [recordExec, moments, exec]
      exact enter_eq (proceed_recordEval_only _)
  | .block statements, place, state => by
      rw [recordExec, moments, exec]
      exact enter_eq
        (restoring_eq (recordAll_eq settings budget statements _ 0 _) _)
  | .loopBody body increment, place, state => by
      rw [recordExec, moments, exec]
      apply enter_eq
      apply restoring_eq
      apply proceed_eq (recordExec_eq settings budget body _ _)
      intro completion afterwards
      rcases completion with _ | _ | _
      · exact enter_eq (recordExpression_eq ..)
      · rfl
      · exact enter_eq (recordExpression_eq ..)
  | .ifThen condition thenPart, place, state => by
      rw [recordExec, moments, exec]
      apply enter_eq
      apply proceed_recordEval
      intro value tested
      split
      · exact recordExec_eq settings budget thenPart _ tested
      · rfl
  | .ifElse condition thenPart elsePart, place, state => by
      rw [recordExec, moments, exec]
      apply enter_eq
      apply proceed_recordEval
      intro value tested
      split
      · exact recordExec_eq settings budget thenPart _ tested
      · exact recordExec_eq settings budget elsePart _ tested
  | .whileLoop condition body, place, state => by
      rw [recordExec, moments, exec]
      apply enter_eq
      apply restoring_eq
      exact recordIterate_eq (recordExec_eq settings budget body _) budget _
  | .breakLoop keyword, place, state => by
      rw [recordExec, moments, exec]
      exact enter_eq rfl
  | .continueLoop keyword, place, state => by
      rw [recordExec, moments, exec]
      exact enter_eq rfl

/-- And so it is with statements that are run in order. -/
theorem recordAll_eq
    (settings : Settings)
    (budget : Nat) :
    ∀ (statements : List Stmt) (place : Nat → Place) (index : Nat) (state : State),
      recordAll settings budget place index statements state =
        ⟨momentsAll settings budget place index statements state,
          execAll settings budget statements state⟩
  | [], place, index, state => rfl
  | first :: rest, place, index, state => by
      rw [recordAll, momentsAll, execAll]
      apply proceed_eq (recordExec_eq settings budget first (place index) state)
      intro completion afterwards
      rcases completion with _ | _ | _
      · exact recordAll_eq settings budget rest place (index + 1) afterwards
      · rfl
      · rfl

end

/-- A program comes to its moments and to nothing else. -/
theorem recordProgram_eq
    (settings : Settings)
    (budget : Nat)
    (position : Nat)
    (program : Program)
    (state : State) :
    recordProgram settings budget position program state =
      ⟨programMoments settings budget position program state,
        execProgram settings budget program state⟩ := by
  induction program generalizing position state with
  | nil =>
      rfl
  | cons first rest inductionHypothesis =>
      simp only [recordProgram, recordExec_eq, inductionHypothesis, programMoments,
        execProgram, whenCompleted]
      rcases exec settings budget first state with
        _ | ⟨error | completion, afterwards⟩ <;>
        simp

end Lox.Evaluation
