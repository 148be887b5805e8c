import Lox.Proofs.Evaluation.Moment

namespace Lox.Evaluation

/-!
# Runs together with their moments

A run and the list of its moments are put together in the same steps.  What holds
of a state, a run from it and the moments of that run is therefore shown step by
step, and then holds of every statement and of every program.
-/

/--
What holds of a state, a run and its moments if
it holds of the parts they are made of.
-/
structure Lockstep
    (settings : Settings)
    (holds : State → Run → List Moment → Prop) :
    Prop where
  begin :
    ∀ ⦃place : Place⦄ ⦃stmt : Stmt⦄ ⦃state : State⦄ ⦃run : Run⦄
      ⦃inside : List Moment⦄,
      holds (state.begin settings stmt.nodeClass) run inside →
        holds state run (⟨place, .stmt stmt, state⟩ :: inside)
  spent : ∀ state, holds state none []
  completed : ∀ completion state, holds state (some (.ok completion, state)) []
  printed :
    ∀ state text, holds state (some (.ok .normal, state.record (.printed text))) []
  defined : ∀ state name value, holds state (runDefinition name value state) []
  outside :
    ∀ state keyword,
      holds state (some (.error ⟨.signalOutsideLoop, keyword⟩, state)) []
  value :
    ∀ ⦃state : State⦄ ⦃place : Place⦄ ⦃expr : Expr⦄ ⦃next : Value → State → Run⦄
        ⦃later : Value → State → List Moment⦄,
      (∀ value afterwards,
        holds afterwards (next value afterwards) (later value afterwards)) →
        holds state (withValue state expr next)
          (lookups place expr state ++ whenValue state expr later)
  sequence :
    ∀ ⦃state : State⦄ ⦃first : Run⦄ ⦃earlier : List Moment⦄
        ⦃next : Completion → State → Run⦄
          ⦃later : Completion → State → List Moment⦄,
      holds state first earlier →
        (∀ completion afterwards,
          holds afterwards (next completion afterwards)
            (later completion afterwards)) →
        holds state (proceed first next) (earlier ++ whenCompleted first later)
  scope :
    ∀ ⦃state : State⦄ ⦃run : Run⦄ ⦃inside : List Moment⦄,
      holds state.openScope run inside →
        holds state (restoring State.closeScope run) inside
  loop :
    ∀ ⦃state : State⦄ ⦃run : Run⦄ ⦃inside : List Moment⦄,
      holds state.enterLoop run inside →
        holds state (restoring State.leaveLoop run) inside

namespace Lockstep

variable {settings : Settings} {holds : State → Run → List Moment → Prop}

/--
A statement that goes on with a value and nothing else has its look-ups as moments.
-/
theorem lastValue
    (lockstep : Lockstep settings holds)
    {state : State}
    {place : Place}
    {expr : Expr}
    {next : Value → State → Run}
    (ends : ∀ value afterwards, holds afterwards (next value afterwards) []) :
    holds state (withValue state expr next) (lookups place expr state) := by
  have whole : holds state (withValue state expr next)
      (lookups place expr state ++ whenValue state expr fun _ _ => []) :=
    lockstep.value ends
  simpa using whole

/-- An expression statement keeps step once its value does. -/
theorem runExpression
    (lockstep : Lockstep settings holds)
    (place : Place)
    (inner : Expr)
    (state : State) :
    holds state (Evaluation.runExpression settings inner state)
      (lookups place inner state) := by
  apply lockstep.lastValue
  intro value afterwards
  split
  · exact lockstep.printed afterwards value.display
  · exact lockstep.completed .normal afterwards

/-- A signal looks up nothing, inside a loop and outside. -/
theorem runSignal
    (lockstep : Lockstep settings holds)
    (keyword : Token)
    (signal : Completion)
    (state : State) :
    holds state (Evaluation.runSignal keyword signal state) [] := by
  unfold Evaluation.runSignal
  split
  · exact lockstep.outside state keyword
  · exact lockstep.completed signal state

/-- A loop keeps step if its body does, by induction on the budget. -/
theorem iterate
    (lockstep : Lockstep settings holds)
    {place : Place}
    {condition : Expr}
    {body : State → Run}
    {round : State → List Moment}
    (repeated : ∀ state, holds state (body state) (round state))
    (budget : Nat)
    (state : State) :
    holds state (Evaluation.iterate condition body budget state)
      (loopMoments condition (lookups place condition) round body
        budget state) := by
  induction budget generalizing state with
  | zero =>
      exact lockstep.spent state
  | succ budget inductionHypothesis =>
      rw [iterate_succ, loopMoments]
      apply lockstep.value
      intro value tested
      split
      · apply lockstep.sequence (repeated tested)
        intro completion afterwards
        rcases completion with _ | _ | _
        · exact inductionHypothesis afterwards
        · exact lockstep.completed .normal afterwards
        · exact inductionHypothesis afterwards
      · exact lockstep.completed .normal tested

mutual

/-- What goes along with each step goes along with every statement. -/
theorem exec
    (lockstep : Lockstep settings holds)
    (budget : Nat) :
    ∀ (stmt : Stmt) (place : Place) (state : State),
      holds state (Evaluation.exec settings budget stmt state)
        (moments settings budget place stmt state)
  | .expression inner, place, state => by
      rw [Evaluation.exec, moments]
      exact lockstep.begin (lockstep.runExpression _ inner _)
  | .print inner, place, state => by
      rw [Evaluation.exec, moments]
      apply lockstep.begin
      apply lockstep.lastValue
      intro value afterwards
      exact lockstep.printed afterwards value.display
  | .var name none, place, state => by
      rw [Evaluation.exec, moments]
      exact lockstep.begin (lockstep.defined _ name .nil)
  | .var name (some initial), place, state => by
      rw [Evaluation.exec, moments]
      apply lockstep.begin
      apply lockstep.lastValue
      intro value afterwards
      exact lockstep.defined afterwards name value
  | .block statements, place, state => by
      rw [Evaluation.exec, moments]
      apply lockstep.begin
      apply lockstep.scope
      exact lockstep.execAll budget statements _ 0 _
  | .loopBody body increment, place, state => by
      rw [Evaluation.exec, moments]
      apply lockstep.begin
      apply lockstep.scope
      apply lockstep.sequence (lockstep.exec budget body _ _)
      have increments : ∀ behind afterwards,
          holds afterwards
            (Evaluation.runExpression settings increment
              (afterwards.begin settings .expression))
            (⟨behind, .stmt (.expression increment), afterwards⟩ ::
              lookups (behind.inside (.stmt (.expression increment)) 0) increment
                (afterwards.begin settings .expression)) := by
        intro behind afterwards
        exact lockstep.begin (lockstep.runExpression _ increment _)
      intro completion afterwards
      rcases completion with _ | _ | _
      · exact increments _ afterwards
      · exact lockstep.completed .broke afterwards
      · exact increments _ afterwards
  | .ifThen condition thenPart, place, state => by
      rw [Evaluation.exec, moments]
      apply lockstep.begin
      apply lockstep.value
      intro value tested
      split
      · exact lockstep.exec budget thenPart _ tested
      · exact lockstep.completed .normal tested
  | .ifElse condition thenPart elsePart, place, state => by
      rw [Evaluation.exec, moments]
      apply lockstep.begin
      apply lockstep.value
      intro value tested
      split
      · exact lockstep.exec budget thenPart _ tested
      · exact lockstep.exec budget elsePart _ tested
  | .whileLoop condition body, place, state => by
      rw [Evaluation.exec, moments]
      apply lockstep.begin
      apply lockstep.loop
      exact lockstep.iterate (lockstep.exec budget body _) budget _
  | .breakLoop keyword, place, state => by
      rw [Evaluation.exec, moments]
      exact lockstep.begin (lockstep.runSignal keyword .broke _)
  | .continueLoop keyword, place, state => by
      rw [Evaluation.exec, moments]
      exact lockstep.begin (lockstep.runSignal keyword .continued _)

/-- Statements in a list keep step one after the other. -/
theorem execAll
    (lockstep : Lockstep settings holds)
    (budget : Nat) :
    ∀ (statements : List Stmt) (place : Nat → Place) (index : Nat) (state : State),
      holds state (Evaluation.execAll settings budget statements state)
        (momentsAll settings budget place index statements state)
  | [], _, _, state => lockstep.completed .normal state
  | first :: rest, place, index, state => by
      rw [Evaluation.execAll, momentsAll]
      apply lockstep.sequence (lockstep.exec budget first _ state)
      intro completion afterwards
      rcases completion with _ | _ | _
      · exact lockstep.execAll budget rest place (index + 1) afterwards
      · exact lockstep.completed .broke afterwards
      · exact lockstep.completed .continued afterwards

end

end Lockstep

end Lox.Evaluation
