import Lox.Proofs.Evaluation.Failure
import Lox.Proofs.Evaluation.Lockstep
import Lox.Proofs.Scoping.Outline

namespace Lox.Evaluation

/-!
# Undefined variables

Main statement: a program that fails with an undefined variable has come to a moment
at which the variable is looked up, or assigned, and bound in none of the scopes in
force.  Operators never blame a variable, so such an error comes from a look-up.
-/

theorem evaluate_of_eval
    {state : State}
    {expr : Expr}
    {result : Except RuntimeError Value}
    {between : Environment}
    (outcome : eval expr state.environment = (result, between)) :
    state.evaluate expr = (result, { state with environment := between }) := by
  simp [State.evaluate, outcome]

/-- What comes after a value is among the moments after it. -/
theorem mem_whenValue
    {state : State}
    {expr : Expr}
    {value : Value}
    {between : Environment}
    (outcome : eval expr state.environment = (.ok value, between))
    {next : Value → State → List Moment}
    {moment : Moment}
    (member : moment ∈ next value { state with environment := between }) :
    moment ∈ whenValue state expr next := by
  simpa [whenValue, evaluate_of_eval outcome] using member

/-- A moment at which a name is looked up and not found. -/
def Unresolved
    (name : Token)
    (moment : Moment) :
    Prop :=
  (moment.node = .expr (.reference name) ∨
    ∃ value, moment.node = .expr (.assign name value)) ∧
    Chain.resolve? moment.state.environment.chain name.lexeme = none

/--
An expression fails with an undefined variable
only where a look-up finds no binding.
-/
theorem exists_unresolved_of_undefined
    {expr : Expr}
    {place : Place}
    {state : State}
    {name : Token}
    (failed : (eval expr state.environment).1 = .error ⟨.undefinedVariable, name⟩) :
    ∃ moment ∈ lookups place expr state, Unresolved name moment := by
  induction expr generalizing place state with
  | literal value =>
      cases failed
  | grouping inner inductionHypothesis =>
      exact inductionHypothesis failed
  | unary operator operand inductionHypothesis =>
      rcases failure_of_andThen failed with
        operandFailed | ⟨value, between, _, applied⟩
      · exact inductionHypothesis operandFailed
      · cases (blamed_of_applyUnary applied).1
  | binary left operator right leftHypothesis rightHypothesis =>
      rcases failure_of_andThen failed with
        leftFailed | ⟨value, between, outcome, later⟩
      · obtain ⟨moment, member, unresolved⟩ := leftHypothesis leftFailed
        exact ⟨moment, List.mem_append_left _ member, unresolved⟩
      · rcases failure_of_andThen later with
          rightFailed | ⟨rightValue, afterwards, _, applied⟩
        · have failedBehind :
              (eval right ({ state with environment := between } :
                  State).environment).1 =
                .error ⟨.undefinedVariable, name⟩ :=
            rightFailed
          obtain ⟨moment, member, unresolved⟩ := rightHypothesis failedBehind
          exact ⟨moment,
            List.mem_append_right _ (mem_whenValue outcome member), unresolved⟩
        · exact ((blamed_of_applyBinary applied).2.blamesNoVariable rfl).elim
  | logical left operator right leftHypothesis rightHypothesis =>
      rcases failure_of_andThen failed with
        leftFailed | ⟨value, between, outcome, later⟩
      · obtain ⟨moment, member, unresolved⟩ := leftHypothesis leftFailed
        exact ⟨moment, List.mem_append_left _ member, unresolved⟩
      · split at later
        · cases later
        · rename_i undecided
          have failedBehind :
              (eval right ({ state with environment := between } :
                  State).environment).1 =
                .error ⟨.undefinedVariable, name⟩ :=
            later
          obtain ⟨moment, member, unresolved⟩ := rightHypothesis failedBehind
          refine ⟨moment,
            List.mem_append_right _ (mem_whenValue outcome ?_), unresolved⟩
          simp only [undecided, Bool.false_eq_true, ↓reduceIte]
          exact member
  | reference found =>
      rw [eval, Environment.valueOf] at failed
      split at failed
      · rename_i missing
        cases failed
        exact ⟨_, List.mem_singleton_self _, Or.inl rfl,
          Chain.get?_eq_none_iff.mp missing⟩
      · cases (reading_eq_error_iff.mp failed).2
  | assign target value inductionHypothesis =>
      rcases failure_of_andThen failed with
        valueFailed | ⟨stored, between, outcome, later⟩
      · obtain ⟨moment, member, unresolved⟩ := inductionHypothesis valueFailed
        exact ⟨moment, List.mem_append_left _ member, unresolved⟩
      · rcases resolved :
          Chain.resolve? between.chain target.lexeme with _ | distance
        · rw [store_of_unresolved resolved] at later
          cases later
          exact ⟨_,
            List.mem_append_right _
              (mem_whenValue outcome (List.mem_singleton_self _)),
              Or.inr ⟨value, rfl⟩, resolved⟩
        · obtain ⟨changed, stores, -⟩ := exists_store_of_resolved resolved stored
          rw [stores] at later
          cases later

/--
A statement fails with an undefined variable only where a look-up finds no binding.
-/
theorem lockstep_undefined
    (settings : Settings)
    (name : Token) :
    Lockstep settings fun _ run moments =>
      run.Ends fun result _ =>
        result = .error ⟨.undefinedVariable, name⟩ →
          ∃ moment ∈ moments, Unresolved name moment := by
  constructor
  case begin =>
    intro place stmt state run inside blames result after ended failed
    obtain ⟨moment, member, unresolved⟩ := blames ended failed
    exact ⟨moment, List.mem_cons_of_mem _ member, unresolved⟩
  case spent =>
    intro state
    exact Run.ends_none
  case completed =>
    intro completion state
    refine Run.ends_some.mpr ?_
    intro failed
    cases failed
  case printed =>
    intro state text
    refine Run.ends_some.mpr ?_
    intro failed
    cases failed
  case defined =>
    intro state name value
    refine Run.ends_some.mpr ?_
    intro failed
    cases failed
  case outside =>
    intro state keyword
    refine Run.ends_some.mpr ?_
    intro failed
    cases failed
  case value =>
    intro state place expr next later blames
    rw [Run.ends_withValue]
    rcases outcome : state.evaluate expr with ⟨error | value, afterwards⟩
    · intro failed
      have evaluated :
          (eval expr state.environment).1 = .error ⟨.undefinedVariable, name⟩ := by
        have same : (state.evaluate expr).1 = (eval expr state.environment).1 := rfl
        rw [← same, outcome]
        cases failed
        rfl
      obtain ⟨moment, member, unresolved⟩ :=
        exists_unresolved_of_undefined evaluated
      exact ⟨moment, List.mem_append_left _ member, unresolved⟩
    · intro result after ended failed
      obtain ⟨moment, member, unresolved⟩ := blames value afterwards ended failed
      refine ⟨moment, List.mem_append_right _ ?_, unresolved⟩
      simpa [whenValue, outcome] using member
  case sequence =>
    intro state first earlier next later firstBlames nextBlames
    rw [Run.ends_proceed]
    rcases first with _ | ⟨error | completion, between⟩
    · exact Run.ends_none
    · refine Run.ends_some.mpr ?_
      intro failed
      obtain ⟨moment, member, unresolved⟩ := Run.ends_some.mp firstBlames failed
      exact ⟨moment, List.mem_append_left _ member, unresolved⟩
    · refine Run.ends_some.mpr ?_
      intro result after ended failed
      obtain ⟨moment, member, unresolved⟩ :=
        nextBlames completion between ended failed
      exact ⟨moment, List.mem_append_right _ member, unresolved⟩
  case scope =>
    intro state run inside blames
    exact Run.ends_restoring.mpr blames
  case loop =>
    intro state run inside blames
    exact Run.ends_restoring.mpr blames

/--
A program that fails with an undefined variable came to the name while unbound.
-/
theorem exists_unresolved_of_execProgram
    {settings : Settings}
    {budget : Nat}
    {program : Program}
    (position : Nat)
    {state : State}
    {progress : Progress}
    {name : Token}
    (ended : execProgram settings budget program state = some progress)
    (failed : progress.error? = some ⟨.undefinedVariable, name⟩) :
    ∃ moment ∈ programMoments settings budget position program state,
      Unresolved name moment := by
  induction program generalizing position state progress with
  | nil =>
      simp only [execProgram, Option.some.injEq] at ended
      subst ended
      cases failed
  | cons first rest inductionHypothesis =>
      have blames :=
        (lockstep_undefined settings name).exec budget first ⟨position, []⟩ state
      rw [programMoments]
      rcases execProgram_cons ended with
        ⟨error, run, stopped⟩ |
        ⟨completion, between, later, run, laterEnded, sameError, _⟩
      · rw [stopped] at failed
        cases failed
        obtain ⟨moment, member, unresolved⟩ := blames run rfl
        exact ⟨moment, List.mem_append_left _ member, unresolved⟩
      · rw [sameError] at failed
        obtain ⟨moment, member, unresolved⟩ :=
          inductionHypothesis (position + 1) laterEnded failed
        refine ⟨moment, List.mem_append_right _ ?_, unresolved⟩
        simpa [run, whenCompleted] using member

end Lox.Evaluation
