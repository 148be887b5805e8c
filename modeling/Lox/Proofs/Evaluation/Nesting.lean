import Lox.Proofs.Evaluation.Trace
import Lox.Proofs.Scoping.Restoration

namespace Lox

/-!
# Loops are counted as the text nests them

A run counts the loops that it is in.  Main statement: whenever it comes to a
statement, the count is that of the loops which have the statement in their bodies.
The condition of a loop holds no statement, so only the way down to a body counts.
-/

/-- Whether the way goes on to the body of a loop, which is its second child. -/
def Passed.repeats
    (passed : Passed) :
    Bool :=
  passed.node.isA .whileLoop && passed.index == 1

/-- How many loops have the node at the end of a way in their bodies. -/
def Trail.loops
    (trail : Trail) :
    Nat :=
  trail.countP Passed.repeats

@[simp] theorem Trail.loops_nil :
    Trail.loops [] = 0 :=
  rfl

/-- The loops on two ways, one behind the other, add up. -/
theorem Trail.loops_append
    (first second : Trail) :
    Trail.loops (first ++ second) = first.loops + second.loops :=
  List.countP_append

theorem Trail.loops_cons
    (passed : Passed)
    (trail : Trail) :
    Trail.loops (passed :: trail) = trail.loops + if passed.repeats then 1 else 0 :=
  List.countP_cons

namespace Evaluation

/-- The place at the end of a way down from a place. -/
def Place.beneath
    (place : Place)
    (way : Trail) :
    Place :=
  { place with trail := way ++ place.trail }

/--
At a statement below a place, the loops on the
way down count on top of those around.
-/
def Nested
    (place : Place)
    (depth : Nat)
    (moment : Moment) :
    Prop :=
  ∀ stmt,
    moment.node = .stmt stmt →
      ∃ way,
        moment.place = place.beneath way ∧
          moment.state.loopDepth = depth + way.loops

/-- All of some moments are nested below a place. -/
def AllNested
    (place : Place)
    (depth : Nat)
    (moments : List Moment) :
    Prop :=
  ∀ moment ∈ moments, Nested place depth moment

/-- The look-ups of an expression come to no statement. -/
theorem ne_stmt_of_mem_lookups
    {place : Place}
    {expr : Expr}
    {state : State}
    {moment : Moment}
    (member : moment ∈ lookups place expr state)
    (stmt : Stmt) :
    moment.node ≠ .stmt stmt := by
  intro isStmt
  have noLine :=
    List.filterMap_eq_nil_iff.mp (traceLines_lookups place expr state) moment member
  simp [Moment.line?, isStmt] at noLine

@[simp] theorem loopDepth_evaluate
    (state : State)
    (expr : Expr) :
    (state.evaluate expr).2.loopDepth = state.loopDepth :=
  rfl

/-- An evaluation keeps the number of loops around it. -/
theorem loopDepth_of_evaluate
    {state after : State}
    {expr : Expr}
    {result : Except RuntimeError Value}
    (outcome : state.evaluate expr = (result, after)) :
    after.loopDepth = state.loopDepth := by
  rw [← loopDepth_evaluate state expr, outcome]

section Nesting

variable {place : Place} {depth : Nat}

theorem allNested_nil :
    AllNested place depth [] := by
  intro moment member
  cases member

/-- Moments one after the other are nested if each of them is. -/
theorem AllNested.append
    {first second : List Moment}
    (firstNested : AllNested place depth first)
    (secondNested : AllNested place depth second) :
    AllNested place depth (first ++ second) := by
  intro moment member
  rcases List.mem_append.mp member with inFirst | inSecond
  · exact firstNested moment inFirst
  · exact secondNested moment inSecond

/-- A statement is the first moment of its own. -/
theorem AllNested.cons
    {stmt : Stmt}
    {state : State}
    {rest : List Moment}
    (restNested : AllNested place state.loopDepth rest) :
    AllNested place state.loopDepth (⟨place, .stmt stmt, state⟩ :: rest) := by
  intro moment member
  rcases List.mem_cons.mp member with rfl | inRest
  · intro stmt isStmt
    exact ⟨[], rfl, rfl⟩
  · exact restNested moment inRest

theorem allNested_lookups
    (below : Place)
    (expr : Expr)
    (state : State) :
    AllNested place depth (lookups below expr state) := by
  intro moment member stmt isStmt
  exact (ne_stmt_of_mem_lookups member stmt isStmt).elim

/-- From a child up to its parent, only the body of a loop adds to the count. -/
theorem AllNested.outside
    {parent : Node}
    {index inner : Nat}
    {moments : List Moment}
    (nested : AllNested (place.inside parent index) inner moments)
    (counts : inner = depth + Trail.loops [⟨parent, index⟩]) :
    AllNested place depth moments := by
  intro moment member stmt isStmt
  obtain ⟨way, stands, loops⟩ := nested moment member stmt isStmt
  refine ⟨way ++ [⟨parent, index⟩], ?_, ?_⟩
  · simpa [Place.beneath, Place.inside] using stands
  · rw [loops, counts, Trail.loops_append]
    omega

/-- What follows a value is nested, since the value left the loops as they were. -/
theorem allNested_whenValue
    {state : State}
    {expr : Expr}
    {next : Value → State → List Moment}
    (nested : ∀ value after, after.loopDepth = state.loopDepth →
      AllNested place depth (next value after)) :
    AllNested place depth (whenValue state expr next) := by
  unfold whenValue
  rcases outcome : state.evaluate expr with ⟨error | value, after⟩
  · exact allNested_nil
  · exact nested value after (loopDepth_of_evaluate outcome)

/-- A statement counts as many loops when it is done as before. -/
theorem allNested_whenCompleted
    {settings : Settings}
    {budget : Nat}
    {stmt : Stmt}
    {state : State}
    {next : Completion → State → List Moment}
    (nested : ∀ completion after, after.loopDepth = state.loopDepth →
      AllNested place depth (next completion after)) :
    AllNested place depth
      (whenCompleted (exec settings budget stmt state) next) := by
  unfold whenCompleted
  rcases run : exec settings budget stmt state with _ | ⟨error | completion, after⟩
  · exact allNested_nil
  · exact allNested_nil
  · exact nested completion after (exec_restored run).loops

/-- The rounds of a loop all begin with the same count. -/
theorem allNested_loopMoments
    {settings : Settings}
    {budget : Nat}
    {below : Place}
    {condition : Expr}
    {body : Stmt}
    {round : State → List Moment}
    {inner : Nat}
    (nested :
      ∀ tested, tested.loopDepth = inner → AllNested place depth (round tested))
    (rounds : Nat)
    {state : State}
    (counted : state.loopDepth = inner) :
    AllNested place depth
      (loopMoments condition (lookups below condition) round
        (fun tested => exec settings budget body tested) rounds state) := by
  induction rounds generalizing state with
  | zero =>
      exact allNested_nil
  | succ rounds inductionHypothesis =>
      unfold loopMoments
      apply (allNested_lookups below condition state).append
      apply allNested_whenValue
      intro value tested afterTest
      have testedCount := afterTest.trans counted
      split
      · apply (nested tested testedCount).append
        apply allNested_whenCompleted
        intro completion after afterBody
        have again := inductionHypothesis (afterBody.trans testedCount)
        rcases completion with _ | _ | _
        · exact again
        · exact allNested_nil
        · exact again
      · exact allNested_nil

/-- An expression statement is entered at the depth of its place. -/
theorem allNested_expression
    (settings : Settings)
    (budget : Nat)
    (inner : Expr)
    (place : Place)
    (state : State) :
    AllNested place state.loopDepth
      (moments settings budget place (.expression inner) state) := by
  rw [moments]
  exact (allNested_lookups _ inner _).cons

end Nesting

mutual

/--
Below a statement, a run counts the loops that the text has around each statement.
-/
theorem allNested_moments
    (settings : Settings)
    (budget : Nat) :
    ∀ (stmt : Stmt) (place : Place) (state : State),
      AllNested place state.loopDepth (moments settings budget place stmt state)
  | .expression inner, place, state =>
      allNested_expression settings budget inner place state
  | .print inner, place, state => by
      rw [moments]
      exact (allNested_lookups _ inner _).cons
  | .var name none, place, state => by
      rw [moments]
      exact allNested_nil.cons
  | .var name (some initial), place, state => by
      rw [moments]
      exact (allNested_lookups _ initial _).cons
  | .block statements, place, state => by
      rw [moments]
      apply AllNested.cons
      apply allNested_momentsAll settings budget statements place statements 0
      simp [State.openScope]
  | .loopBody body increment, place, state => by
      rw [moments_loopBody]
      apply AllNested.cons
      have opened :
          (state.begin settings .loopBody).openScope.loopDepth =
            state.loopDepth := by
        simp [State.openScope]
      apply AllNested.append
      · exact (allNested_moments settings budget body _ _).outside opened
      · apply allNested_whenCompleted
        intro completion after afterBody
        have increments : AllNested place state.loopDepth
            (moments settings budget
              (place.inside (.stmt (.loopBody body increment)) 1)
              (.expression increment) after) :=
          (allNested_expression settings budget increment _ after).outside
            (afterBody.trans opened)
        rcases completion with _ | _ | _
        · exact increments
        · exact allNested_nil
        · exact increments
  | .ifThen condition thenPart, place, state => by
      rw [moments]
      apply AllNested.cons
      apply (allNested_lookups _ condition _).append
      apply allNested_whenValue
      intro value tested afterTest
      rw [State.loopDepth_begin] at afterTest
      split
      · exact (allNested_moments settings budget thenPart _
          tested).outside afterTest
      · exact allNested_nil
  | .ifElse condition thenPart elsePart, place, state => by
      rw [moments]
      apply AllNested.cons
      apply (allNested_lookups _ condition _).append
      apply allNested_whenValue
      intro value tested afterTest
      rw [State.loopDepth_begin] at afterTest
      split
      · exact (allNested_moments settings budget thenPart _
          tested).outside afterTest
      · exact (allNested_moments settings budget elsePart _
          tested).outside afterTest
  | .whileLoop condition body, place, state => by
      rw [moments]
      apply AllNested.cons
      have rounds : ∀ tested : State, tested.loopDepth = state.loopDepth + 1 →
          AllNested place state.loopDepth
            (moments settings budget
              (place.inside (.stmt (.whileLoop condition body)) 1)
              body tested) := by
        intro tested inLoop
        exact (allNested_moments settings budget body _ tested).outside inLoop
      exact allNested_loopMoments rounds budget (by simp [State.enterLoop])
  | .breakLoop keyword, place, state => by
      rw [moments]
      exact allNested_nil.cons
  | .continueLoop keyword, place, state => by
      rw [moments]
      exact allNested_nil.cons

/-- Statements in order are entered at the depth of their block. -/
theorem allNested_momentsAll
    (settings : Settings)
    (budget : Nat) :
    ∀ (statements : List Stmt) (place : Place) (elements : List Stmt) (index : Nat)
      {state : State} {depth : Nat},
      state.loopDepth = depth →
        AllNested place depth
          (momentsAll settings budget (place.inside (.stmt (.block elements)))
            index statements state)
  | [], place, elements, index, state, depth, counted => by
      rw [momentsAll]
      exact allNested_nil
  | first :: rest, place, elements, index, state, depth, counted => by
      rw [momentsAll]
      apply AllNested.append
      · exact (allNested_moments settings budget first _ state).outside counted
      · apply allNested_whenCompleted
        intro completion after afterFirst
        rcases completion with _ | _ | _
        · exact allNested_momentsAll settings budget rest place elements (index + 1)
            (afterFirst.trans counted)
        · exact allNested_nil
        · exact allNested_nil

end

/-- In a program, a run counts the loops that have a statement in their bodies. -/
theorem loopDepth_of_mem_programMoments
    {settings : Settings}
    {budget : Nat}
    {program : Program}
    {position : Nat}
    {state : State}
    (outside : state.loopDepth = 0)
    {moment : Moment}
    (member : moment ∈ programMoments settings budget position program state)
    {stmt : Stmt}
    (isStmt : moment.node = .stmt stmt) :
    moment.state.loopDepth = moment.place.trail.loops := by
  induction program generalizing position state with
  | nil =>
      cases member
  | cons first rest inductionHypothesis =>
      rcases List.mem_append.mp member with inFirst | inRest
      · obtain ⟨way, stands, loops⟩ :=
          allNested_moments settings budget first _ state moment inFirst stmt isStmt
        simp [loops, stands, outside, Place.beneath]
      · unfold whenCompleted at inRest
        rcases run : exec settings budget first state with
          _ | ⟨error | completion, after⟩
        · simp [run] at inRest
        · simp [run] at inRest
        · simp only [run] at inRest
          exact inductionHypothesis ((exec_restored run).loops.trans outside) inRest

end Evaluation

end Lox
