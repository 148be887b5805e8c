import Lox.Proofs.Evaluation.Blame
import Lox.Proofs.Evaluation.Operands

namespace Lox

/-!
# Where errors come from

A run fails at a node of its program: at an operator, at a name, or at a signal
outside of loops.  Main statement: the error that stops a program is one that a node
in it can raise, and it blames the token of that node.
-/

open Evaluation in
/--
The errors that a node, or a node in it, can
raise, each blaming the token of its node.
-/
inductive Node.Raises : Node → RuntimeError → Prop where
  | operand
      {operator : Token}
      {operand : Expr} :
      operator.kind ≠ .bang →
      Raises (.expr (.unary operator operand)) ⟨.operandIsNoNumber, operator⟩
  | operands
      {left right : Expr}
      {operator : Token}
      {cause : RuntimeCause} :
      BinaryCause operator.kind cause →
      Raises (.expr (.binary left operator right)) ⟨cause, operator⟩
  | undefined
      {name : Token} :
      Raises (.expr (.reference name)) ⟨.undefinedVariable, name⟩
  | withoutValue
      {name : Token} :
      Raises (.expr (.reference name)) ⟨.nilVariable, name⟩
  | undeclared
      {name : Token}
      {value : Expr} :
      Raises (.expr (.assign name value)) ⟨.undefinedVariable, name⟩
  | broken
      {keyword : Token} :
      Raises (.stmt (.breakLoop keyword)) ⟨.signalOutsideLoop, keyword⟩
  | continued
      {keyword : Token} :
      Raises (.stmt (.continueLoop keyword)) ⟨.signalOutsideLoop, keyword⟩
  | inside
      {parent child : Node}
      {error : RuntimeError} :
      child ∈ parent.children →
      Raises child error →
      Raises parent error

namespace Node

/-- A node raises what a node directly below it raises. -/
theorem Raises.within
    {parent child : Node}
    {error : RuntimeError}
    (raises : child.Raises error)
    (member : child ∈ parent.children := by
      simp [Node.children, Stmt.children, Expr.children]) :
    parent.Raises error :=
  .inside member raises

/-- Signals are statements, so no expression fails at one. -/
theorem Raises.cause_of_expr
    {expr : Expr}
    {error : RuntimeError}
    (raises : (Node.expr expr).Raises error) :
    error.cause ≠ .signalOutsideLoop := by
  generalize isExpr : Node.expr expr = node at raises
  induction raises generalizing expr with
  | operand => simp
  | @operands _ _ operator _ blamed =>
      generalize operator.kind = kind at blamed
      cases blamed <;> simp
  | undefined => simp
  | withoutValue => simp
  | undeclared => simp
  | broken => cases isExpr
  | continued => cases isExpr
  | inside member _ inductionHypothesis =>
      subst isExpr
      obtain ⟨inner, -, isInner⟩ := List.mem_map.mp member
      exact inductionHypothesis isInner

end Node

namespace Evaluation

/-- A sequence of evaluations fails in the first or behind its value. -/
theorem failure_of_andThen
    {first : Evaluated α}
    {next : α → Environment → Evaluated β}
    {error : RuntimeError}
    (failed : (andThen first next).1 = .error error) :
    first.1 = .error error ∨
      ∃ value between,
        first = (.ok value, between) ∧ (next value between).1 = .error error := by
  rcases first with ⟨cause | value, between⟩
  · cases failed
    exact Or.inl rfl
  · exact Or.inr ⟨value, between, rfl, failed⟩

/-- An expression fails with an error that one of its nodes raises. -/
theorem raises_of_eval
    {expr : Expr}
    {environment : Environment}
    {error : RuntimeError}
    (failed : (eval expr environment).1 = .error error) :
    (Node.expr expr).Raises error := by
  induction expr generalizing environment with
  | literal value => cases failed
  | grouping inner inductionHypothesis => exact (inductionHypothesis failed).within
  | unary operator operand inductionHypothesis =>
      rcases failure_of_andThen failed with
        operandFailed | ⟨value, between, -, applied⟩
      · exact (inductionHypothesis operandFailed).within
      · obtain ⟨rfl, noBang, -⟩ := blamed_of_applyUnary applied
        exact .operand noBang
  | binary left operator right leftHypothesis rightHypothesis =>
      rcases failure_of_andThen failed with leftFailed | ⟨value, between, -, later⟩
      · exact (leftHypothesis leftFailed).within
      · rcases failure_of_andThen later with
          rightFailed | ⟨rightValue, after, -, applied⟩
        · exact (rightHypothesis rightFailed).within
        · obtain ⟨cause, token⟩ := error
          obtain ⟨rfl, blamed⟩ := blamed_of_applyBinary applied
          exact .operands blamed
  | logical left operator right leftHypothesis rightHypothesis =>
      rcases failure_of_andThen failed with leftFailed | ⟨value, between, -, later⟩
      · exact (leftHypothesis leftFailed).within
      · split at later
        · cases later
        · exact (rightHypothesis later).within
  | reference name =>
      rw [eval, Environment.valueOf] at failed
      split at failed
      · cases failed
        exact .undefined
      · obtain ⟨-, rfl⟩ := reading_eq_error_iff.mp failed
        exact .withoutValue
  | assign name value inductionHypothesis =>
      rcases failure_of_andThen failed with
        valueFailed | ⟨stored, between, -, later⟩
      · exact (inductionHypothesis valueFailed).within
      · unfold store Environment.assign at later
        generalize between.assign? name.lexeme stored = changed at later
        cases changed with
        | none =>
            cases later
            exact .undeclared
        | some changed => cases later

/-- An evaluation in a state fails with an error that one of the nodes raises. -/
theorem raises_of_evaluate
    {state after : State}
    {expr : Expr}
    {error : RuntimeError}
    (outcome : state.evaluate expr = (.error error, after)) :
    (Node.expr expr).Raises error := by
  have failed : (eval expr state.environment).1 = .error error :=
    congrArg Prod.fst outcome
  exact raises_of_eval failed

/-- If a run fails, something holds of its error. -/
def Run.FailsOnly
    (holds : RuntimeError → Prop)
    (run : Run) :
    Prop :=
  run.Ends fun result _ => ∀ error, result = .error error → holds error

namespace Run

variable {holds other : RuntimeError → Prop}

theorem failsOnly_none :
    FailsOnly holds none :=
  ends_none

theorem failsOnly_completed
    {completion : Completion}
    {state : State} :
    FailsOnly holds (some (.ok completion, state)) := by
  refine ends_some.mpr ?_
  intro error failed
  cases failed

/-- A run that fails with some errors only fails with no others. -/
theorem FailsOnly.imp
    {run : Run}
    (fails : run.FailsOnly holds)
    (implies : ∀ error, holds error → other error) :
    run.FailsOnly other :=
  Ends.imp fails fun _ _ held error failed => implies error (held error failed)

/-- Leaving a scope or a loop adds no errors. -/
theorem FailsOnly.restoring
    {run : Run}
    (fails : run.FailsOnly holds)
    (restore : State → State) :
    FailsOnly holds (Evaluation.restoring restore run) :=
  ends_restoring.mpr fails

/-- A run in sequence fails with the errors of its parts. -/
theorem FailsOnly.proceed
    {first : Run}
    {next : Completion → State → Run}
    (fails : first.FailsOnly holds)
    (nextFails : ∀ completion state, (next completion state).FailsOnly holds) :
    FailsOnly holds (Evaluation.proceed first next) := by
  refine ends_proceed.mpr (Ends.imp fails ?_)
  intro result state held
  cases result with
  | error error => exact held
  | ok completion => exact nextFails completion state

/--
Going on with a value fails with the errors of the expression or with later ones.
-/
theorem failsOnly_withValue
    {state : State}
    {expr : Expr}
    {next : Value → State → Run}
    (raised : ∀ error, (Node.expr expr).Raises error → holds error)
    (nextFails : ∀ value after, (next value after).FailsOnly holds) :
    FailsOnly holds (withValue state expr next) := by
  refine ends_withValue.mpr ?_
  rcases outcome : state.evaluate expr with ⟨error | value, after⟩
  · intro error' same
    cases same
    exact raised error (raises_of_evaluate outcome)
  · exact nextFails value after

/-- Rounds of a loop fail with the errors of its condition or of its body. -/
theorem failsOnly_iterate
    {condition : Expr}
    {body : State → Run}
    (raised : ∀ error, (Node.expr condition).Raises error → holds error)
    (repeated : ∀ state, (body state).FailsOnly holds)
    (budget : Nat)
    (state : State) :
    FailsOnly holds (iterate condition body budget state) := by
  induction budget generalizing state with
  | zero => exact failsOnly_none
  | succ budget inductionHypothesis =>
      rw [iterate_succ]
      apply failsOnly_withValue raised
      intro value tested
      split
      · apply (repeated tested).proceed
        intro completion after
        cases completion with
        | normal => exact inductionHypothesis after
        | broke => exact failsOnly_completed
        | continued => exact inductionHypothesis after
      · exact failsOnly_completed

end Run

/--
An expression that is evaluated last raises what a run of its statement fails with.
-/
theorem failsOnly_lastValue
    {expr : Expr}
    {parent : Node}
    {state : State}
    {next : Value → State → Run}
    (member : .expr expr ∈ parent.children)
    (completes :
      ∀ value after, ∃ state', next value after = some (.ok .normal, state')) :
    (withValue state expr next).FailsOnly parent.Raises := by
  apply Run.failsOnly_withValue fun error raises => raises.within member
  intro value after
  obtain ⟨state', completed⟩ := completes value after
  rw [completed]
  exact Run.failsOnly_completed

/-- An expression statement fails with the errors of its expression. -/
theorem failsOnly_runExpression
    (settings : Settings)
    (inner : Expr)
    (state : State) :
    (runExpression settings inner state).FailsOnly
      (Node.stmt (.expression inner)).Raises :=
  failsOnly_lastValue List.mem_cons_self fun _ _ => ⟨_, rfl⟩

/-- A signal fails outside of loops, and blames its keyword. -/
theorem failsOnly_runSignal
    {keyword : Token}
    {signal : Completion}
    {state : State}
    {holds : RuntimeError → Prop}
    (raised : holds ⟨.signalOutsideLoop, keyword⟩) :
    (runSignal keyword signal state).FailsOnly holds := by
  unfold runSignal
  split
  · refine Run.ends_some.mpr ?_
    intro error failed
    cases failed
    exact raised
  · exact Run.failsOnly_completed

mutual

/-- A statement fails only with what a node in it raises. -/
theorem failsOnly_exec
    (settings : Settings)
    (budget : Nat) :
    ∀ (stmt : Stmt) (state : State),
      (exec settings budget stmt state).FailsOnly (Node.stmt stmt).Raises
  | .expression inner, state => by
      rw [exec]
      exact failsOnly_runExpression settings inner _
  | .print inner, state => by
      rw [exec]
      exact failsOnly_lastValue List.mem_cons_self fun _ _ => ⟨_, rfl⟩
  | .var name none, state => by
      rw [exec]
      exact Run.failsOnly_completed
  | .var name (some initial), state => by
      rw [exec]
      exact failsOnly_lastValue List.mem_cons_self fun _ _ => ⟨_, rfl⟩
  | .block statements, state => by
      rw [exec]
      apply Run.FailsOnly.restoring
      refine (failsOnly_execAll settings budget statements _).imp ?_
      rintro error ⟨stmt, member, raises⟩
      exact raises.within (List.mem_map_of_mem member)
  | .loopBody body increment, state => by
      rw [exec]
      apply Run.FailsOnly.restoring
      have above :
          ∀ {child}, child ∈ (Node.stmt (.loopBody body increment)).children →
          ∀ error, child.Raises error →
            (Node.stmt (.loopBody body increment)).Raises error :=
        fun member error raises => raises.within member
      have bodyFails := (failsOnly_exec settings budget body
        (state.begin settings .loopBody).openScope).imp (above List.mem_cons_self)
      apply bodyFails.proceed
      intro completion after
      have incrementFails :=
        (failsOnly_runExpression settings increment
          (after.begin settings .expression)).imp
          (above (List.mem_cons_of_mem _ List.mem_cons_self))
      cases completion with
      | normal => exact incrementFails
      | broke => exact Run.failsOnly_completed
      | continued => exact incrementFails
  | .ifThen condition thenPart, state => by
      rw [exec]
      apply Run.failsOnly_withValue fun error raises => raises.within
      intro value tested
      split
      · exact (failsOnly_exec settings budget thenPart tested).imp
          fun error raises => raises.within
      · exact Run.failsOnly_completed
  | .ifElse condition thenPart elsePart, state => by
      rw [exec]
      apply Run.failsOnly_withValue fun error raises => raises.within
      intro value tested
      split
      · exact (failsOnly_exec settings budget thenPart tested).imp
          fun error raises => raises.within
      · exact (failsOnly_exec settings budget elsePart tested).imp
          fun error raises => raises.within
  | .whileLoop condition body, state => by
      rw [exec]
      apply Run.FailsOnly.restoring
      apply Run.failsOnly_iterate fun error raises => raises.within
      intro tested
      exact (failsOnly_exec settings budget body tested).imp fun error raises =>
        raises.within
  | .breakLoop keyword, state => by
      rw [exec]
      exact failsOnly_runSignal .broken
  | .continueLoop keyword, state => by
      rw [exec]
      exact failsOnly_runSignal .continued

/-- Statements in order fail with the errors of one of them. -/
theorem failsOnly_execAll
    (settings : Settings)
    (budget : Nat) :
    ∀ (statements : List Stmt) (state : State),
      (execAll settings budget statements state).FailsOnly
        fun error => ∃ stmt ∈ statements, (Node.stmt stmt).Raises error
  | [], state => by
      rw [execAll]
      exact Run.failsOnly_completed
  | first :: rest, state => by
      rw [execAll]
      have firstFails :
          (exec settings budget first state).FailsOnly
            fun error => ∃ stmt ∈ first :: rest, (Node.stmt stmt).Raises error :=
        (failsOnly_exec settings budget first state).imp fun error raises =>
          ⟨first, List.mem_cons_self, raises⟩
      apply firstFails.proceed
      intro completion after
      cases completion with
      | normal =>
          refine (failsOnly_execAll settings budget rest after).imp ?_
          rintro error ⟨stmt, member, raises⟩
          exact ⟨stmt, List.mem_cons_of_mem first member, raises⟩
      | broke => exact Run.failsOnly_completed
      | continued => exact Run.failsOnly_completed

end

/-- A program stops only with what a node of one of its statements raises. -/
theorem raises_of_execProgram
    {settings : Settings}
    {budget : Nat}
    {program : Program}
    {state : State}
    {progress : Progress}
    {error : RuntimeError}
    (ended : execProgram settings budget program state = some progress)
    (stopped : progress.error? = some error) :
    ∃ stmt ∈ program, (Node.stmt stmt).Raises error := by
  induction program generalizing state progress with
  | nil =>
      cases ended
      cases stopped
  | cons first rest inductionHypothesis =>
      rcases execProgram_cons ended with
        ⟨error', run, failed⟩ |
        ⟨completion, between, later, -, laterEnded, sameError, -⟩
      · rw [failed] at stopped
        cases stopped
        exact ⟨first, List.mem_cons_self,
          failsOnly_exec settings budget first state run error rfl⟩
      · rw [sameError] at stopped
        obtain ⟨stmt, member, raises⟩ := inductionHypothesis laterEnded stopped
        exact ⟨stmt, List.mem_cons_of_mem first member, raises⟩

end Evaluation

end Lox
