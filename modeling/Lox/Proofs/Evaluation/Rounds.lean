import Lox.Proofs.Evaluation.Signal
import Lox.Proofs.Tree.Formed

namespace Lox.Evaluation

/-!
# Loops stop the signals in their bodies

A loop completes normally, whatever its body completes with.  Main statement:
statements heed their signals if loop bodies stand below loops only.  The
proof goes round by round: a signal in a round is for the loop, or for a loop
inside, and so it is behind more rounds.
-/

/-- If a run completes, it signals nothing. -/
def Run.CompletesNormally
    (run : Run) :
    Prop :=
  run.Ends fun result _ =>
    ∀ completion, result = .ok completion → completion = .normal

theorem completesNormally_normal
    (state : State) :
    Run.CompletesNormally (some (.ok .normal, state)) := by
  refine Run.ends_some.mpr ?_
  rintro completion same
  cases same
  rfl

theorem completesNormally_failed
    (error : RuntimeError)
    (state : State) :
    Run.CompletesNormally (some (.error error, state)) := by
  refine Run.ends_some.mpr ?_
  rintro completion same
  cases same

/-- An expression statement that completes does so normally. -/
theorem completesNormally_runExpression
    (settings : Settings)
    (inner : Expr)
    (state : State) :
    (runExpression settings inner state).CompletesNormally := by
  unfold runExpression withValue
  split
  · exact completesNormally_normal _
  · exact completesNormally_failed _ _

/-- However the body completes, its loop completes normally. -/
theorem completesNormally_iterate
    (condition : Expr)
    (body : State → Run)
    (left : Nat)
    (state : State) :
    (iterate condition body left state).CompletesNormally := by
  induction left generalizing state with
  | zero => exact Run.ends_none
  | succ left inductionHypothesis =>
      rw [iterate_succ, withValue]
      split
      · rename_i tested _
        split
        · rcases body tested with _ | ⟨error | _ | _ | _, after⟩
          · exact Run.ends_none
          · exact completesNormally_failed error after
          · exact inductionHypothesis after
          · exact completesNormally_normal after
          · exact inductionHypothesis after
        · exact completesNormally_normal _
      · exact completesNormally_failed _ _

/-- A loop completes normally, from any state and with any body. -/
theorem completesNormally_whileLoop
    (settings : Settings)
    (budget : Nat)
    (condition : Expr)
    (body : Stmt)
    (state : State) :
    (exec settings budget (.whileLoop condition body) state).CompletesNormally := by
  rw [exec]
  exact Run.ends_restoring.mpr (completesNormally_iterate _ _ _ _)

/-- Only a round that was not broken goes on to what is left of it. -/
theorem ContinuesRound.ne_broke
    {settings : Settings}
    {budget : Nat}
    {place : Place}
    {tested after : State}
    {body : Stmt}
    {remaining : List Moment}
    (continues : ContinuesRound settings budget place tested body remaining) :
    exec settings budget body tested ≠ some (.ok .broke, after) := by
  intro broke
  cases continues with
  | whole ended =>
      rw [ended] at broke
      cases broke
  | @counted inner increment between _ isRun =>
      have completes :
          (exec settings budget (.loopBody inner increment)
            tested).CompletesNormally := by
        rw [isRun, exec]
        exact Run.ends_restoring.mpr (completesNormally_runExpression _ _ _)
      cases completes broke _ rfl

namespace Loop

variable {settings : Settings} {budget depth : Nat} {loop : Loop}

/--
The body of a loop heeds its signals: it fails at none, and one that is
for the loop breaks it or continues it.
-/
structure HeedsRound
    (settings : Settings)
    (budget : Nat)
    (loop : Loop)
    (tested : State) :
    Prop where
  fails :
    (exec settings budget loop.body tested).FailsOnly (·.cause ≠ .signalOutsideLoop)
  reaches :
    ∀ ⦃earlier : List Moment⦄ ⦃moment : Moment⦄
      ⦃later : List Moment⦄ ⦃keyword : Token⦄
        ⦃signal : Completion⦄,
      moments settings budget loop.inside loop.body tested =
        earlier ++ moment :: later →
        moment.signal? = some (keyword, signal) →
          (moment.state.loopDepth = tested.loopDepth ∧
              ((signal = .broke ∧ later = [] ∧
                  ∃ after, exec settings budget loop.body tested =
                    some (.ok .broke, after)) ∨
                (signal = .continued ∧
                  ContinuesRound settings budget loop.inside tested
                    loop.body later))) ∨
            Handled settings budget signal earlier moment later

/-- The loop settles a signal itself, or a loop inside it handles the signal. -/
def Settles
    (settings : Settings)
    (budget : Nat)
    (loop : Loop)
    (moment : Moment)
    (signal : Completion)
    (earlier later : List Moment)
    (run : Run) :
    Prop :=
  (loop.Innermost moment ∧
    loop.Answers settings budget moment signal earlier later run) ∨
    Handled settings budget signal earlier moment later

/-- How a loop settles a signal does not depend on the moments before. -/
theorem Settles.extend
    {moment : Moment}
    {signal : Completion}
    {earlier later : List Moment}
    {run : Run}
    (settles : loop.Settles settings budget moment signal earlier later run)
    (front : List Moment) :
    loop.Settles settings budget moment signal (front ++ earlier) later run := by
  rcases settles with ⟨innermost, answers⟩ | handled
  · refine .inl ⟨innermost, ?_⟩
    cases answers with
    | broke isSuffix shape ended =>
        exact .broke (isSuffix.trans (List.suffix_append front earlier)) shape ended
    | continued isSuffix shape continues =>
        exact .continued
          (isSuffix.trans (List.suffix_append front earlier)) shape continues
  · refine .inr ?_
    simpa using handled.extend front []

/--
A signal in the body of a loop, at which no
further loop is counted, is in none inside.
-/
theorem innermost_of_mem
    {tested : State}
    {moment : Moment}
    {keyword : Token}
    {signal : Completion}
    (member : moment ∈ moments settings budget loop.inside loop.body tested)
    (isSignal : moment.signal? = some (keyword, signal))
    (here : moment.state.loopDepth = tested.loopDepth) :
    loop.Innermost moment := by
  obtain ⟨stmt, isStmt⟩ := Moment.exists_stmt_of_signal isSignal
  obtain ⟨way, stands, counted⟩ :=
    allNested_moments settings budget loop.body loop.inside tested moment
      member stmt isStmt
  exact ⟨way, stands, by omega⟩

/-- Behind a test that holds, a loop runs its body and goes on. -/
theorem rounds_succ
    (left : Nat)
    (state : State) :
    loop.rounds settings budget (left + 1) state =
      withValue state loop.condition fun value tested =>
        if value.isTruthy then
          proceed (exec settings budget loop.body tested)
            (loop.goOn settings budget left)
        else
          some (.ok .normal, tested) := by
  rw [rounds, iterate_succ]
  rfl

theorem roundMoments_succ
    (left : Nat)
    (state : State) :
    loop.roundMoments settings budget (left + 1) state =
      lookups (loop.place.inside (.stmt loop.stmt) 0) loop.condition state ++
        whenValue state loop.condition fun value tested =>
          if value.isTruthy then
            moments settings budget loop.inside loop.body tested ++
              whenCompleted (exec settings budget loop.body tested)
                (loop.momentsBehind settings budget left)
          else
            [] := by
  rw [roundMoments, loopMoments]
  rfl

/-- Rounds that heed their signals do not fail at one. -/
theorem failsOnly_rounds
    (heeds :
      ∀ tested, tested.loopDepth = depth → loop.HeedsRound settings budget tested)
    (left : Nat)
    {state : State}
    (inLoop : state.loopDepth = depth) :
    (loop.rounds settings budget left state).FailsOnly
      (·.cause ≠ .signalOutsideLoop) := by
  induction left generalizing state with
  | zero => exact Run.failsOnly_none
  | succ left inductionHypothesis =>
      rw [rounds_succ, withValue]
      rcases outcome : state.evaluate loop.condition with ⟨error | value, tested⟩
      · refine Run.ends_some.mpr ?_
        intro error' same
        cases same
        exact (raises_of_evaluate outcome).cause_of_expr
      · have testedDepth := (loopDepth_of_evaluate outcome).trans inLoop
        dsimp only
        split
        · have round := (heeds tested testedDepth).fails
          rcases run : exec settings budget loop.body tested with
            _ | ⟨error | _ | _ | _, after⟩
          · exact Run.failsOnly_none
          · rw [run] at round
            exact round
          · exact inductionHypothesis ((exec_restored run).loops.trans testedDepth)
          · exact Run.failsOnly_completed
          · exact inductionHypothesis ((exec_restored run).loops.trans testedDepth)
        · exact Run.failsOnly_completed

/--
A body that was continued completes, if it does, with what goes on with the rounds.
-/
theorem goOn_of_continues
    {tested : State}
    {remaining : List Moment}
    (continues :
      ContinuesRound settings budget loop.inside tested loop.body remaining)
    (left : Nat) :
    proceed (exec settings budget loop.body tested)
      (loop.goOn settings budget left) =
        (proceed (exec settings budget loop.body tested) fun _ next =>
          loop.rounds settings budget left next) ∧
      whenCompleted (exec settings budget loop.body tested)
          (loop.momentsBehind settings budget left) =
        whenCompleted (exec settings budget loop.body tested) fun _ next =>
          loop.roundMoments settings budget left next := by
  rcases run : exec settings budget loop.body tested with
    _ | ⟨error | _ | _ | _, after⟩
  · exact ⟨rfl, rfl⟩
  · exact ⟨rfl, rfl⟩
  · exact ⟨rfl, rfl⟩
  · exact (continues.ne_broke run).elim
  · exact ⟨rfl, rfl⟩

/--
A signal in a round of a loop, and not behind
it, is for that loop or for one inside.
-/
theorem settles_round
    {tested : State}
    (round : loop.HeedsRound settings budget tested)
    (left : Nat)
    {earlier rest : List Moment}
    {moment : Moment}
    {keyword : Token}
    {signal : Completion}
    (inBody :
      moments settings budget loop.inside loop.body tested =
        earlier ++ moment :: rest)
    (isSignal : moment.signal? = some (keyword, signal)) :
    loop.Settles settings budget moment signal earlier
      (rest ++
        whenCompleted (exec settings budget loop.body tested)
          (loop.momentsBehind settings budget left))
      (proceed (exec settings budget loop.body tested)
        (loop.goOn settings budget left)) := by
  rcases round.reaches inBody isSignal with ⟨here, signals⟩ | handled
  · have member :
        moment ∈ moments settings budget loop.inside loop.body tested := by
      simp [inBody]
    refine .inl ⟨innermost_of_mem member isSignal here, ?_⟩
    rcases signals with ⟨rfl, rfl, after, broke⟩ | ⟨rfl, continues⟩
    · rw [broke]
      exact .broke List.suffix_rfl inBody broke
    · obtain ⟨sameRun, sameMoments⟩ := goOn_of_continues continues left
      rw [sameRun, sameMoments]
      exact .continued List.suffix_rfl inBody continues
  · exact .inr (handled.extend [] _)

/--
A signal in the rounds of a loop is for that loop, or for a loop inside its body.
-/
theorem settles_rounds
    (heeds :
      ∀ tested, tested.loopDepth = depth → loop.HeedsRound settings budget tested)
    (left : Nat)
    {state : State}
    (inLoop : state.loopDepth = depth)
    {earlier later : List Moment}
    {moment : Moment}
    {keyword : Token}
    {signal : Completion}
    (split :
      loop.roundMoments settings budget left state = earlier ++ moment :: later)
    (isSignal : moment.signal? = some (keyword, signal)) :
    loop.Settles settings budget moment signal earlier later
      (loop.rounds settings budget left state) := by
  induction left generalizing state earlier with
  | zero =>
      simp [roundMoments, loopMoments] at split
  | succ left inductionHypothesis =>
      rw [roundMoments_succ] at split
      rw [rounds_succ]
      rcases split_append split with ⟨rest, inTest, -⟩ | ⟨front, rfl, behindTest⟩
      · have member :
            moment ∈ lookups (loop.place.inside (.stmt loop.stmt) 0)
              loop.condition state := by
          simp [inTest]
        rw [signal?_of_mem_lookups member] at isSignal
        cases isSignal
      apply Settles.extend
      unfold whenValue at behindTest
      unfold withValue
      rcases outcome : state.evaluate loop.condition with ⟨error | value, tested⟩
      · simp [outcome] at behindTest
      simp only [outcome] at behindTest ⊢
      have testedDepth := (loopDepth_of_evaluate outcome).trans inLoop
      by_cases truthy : value.isTruthy = true
      · simp only [truthy, ↓reduceIte] at behindTest ⊢
        rcases split_append behindTest with
          ⟨rest, inBody, rfl⟩ | ⟨next, rfl, inRest⟩
        · exact settles_round (heeds tested testedDepth) left inBody isSignal
        · apply Settles.extend
          rcases run : exec settings budget loop.body tested with
            _ | ⟨error | _ | _ | _, after⟩
          · simp [run, whenCompleted] at inRest
          · simp [run, whenCompleted] at inRest
          · rw [run] at inRest
            exact inductionHypothesis
              ((exec_restored run).loops.trans testedDepth) inRest
          · simp [run, whenCompleted, momentsBehind] at inRest
          · rw [run] at inRest
            exact inductionHypothesis
              ((exec_restored run).loops.trans testedDepth) inRest
      · simp [truthy] at behindTest

/-- In a loop, a run that heeds its signals does not fail at one. -/
theorem failsOnly_of_heeds
    {run : Run}
    {moments : List Moment}
    (heeds : Heeds settings budget depth run moments)
    (inLoop : depth ≠ 0) :
    run.FailsOnly (·.cause ≠ .signalOutsideLoop) := by
  rintro result after ended error rfl isSignal
  obtain ⟨earlier, moment, keyword, signal, -, -, -, same⟩ :=
    heeds.ends ended isSignal
  rw [signalled, if_neg inLoop] at same
  cases same

/-- An increment fails with no signal. -/
theorem failsOnly_increment
    {increment : Expr}
    (state : State) :
    (exec settings budget (.expression increment) state).FailsOnly
      (·.cause ≠ .signalOutsideLoop) := by
  rw [exec]
  exact Run.failsOnly_withValue (fun _ raises => raises.cause_of_expr)
    fun _ _ => Run.failsOnly_completed

theorem signal?_of_mem_increment
    {place : Place}
    {increment : Expr}
    {run : Run}
    {moment : Moment}
    (member : moment ∈ whenCompleted run fun
      | .broke, _ => []
      | _, after => moments settings budget place (.expression increment) after) :
    moment.signal? = none := by
  rcases run with _ | ⟨error | _ | _ | _, after⟩
  · cases member
  · cases member
  · exact signal?_of_mem_expression settings budget member
  · cases member
  · exact signal?_of_mem_expression settings budget member

/--
The body of a loop heeds its signals as a statement does that may stand anywhere.
-/
theorem heedsRound_of_heeds
    {tested : State}
    (heeds :
      Heeds settings budget tested.loopDepth (exec settings budget loop.body tested)
        (moments settings budget loop.inside loop.body tested))
    (inLoop : tested.loopDepth ≠ 0) :
    loop.HeedsRound settings budget tested where
  fails := failsOnly_of_heeds heeds inLoop
  reaches := by
    intro earlier moment later keyword signal split isSignal
    rcases heeds.reaches split isSignal with ⟨here, rfl, after, ended⟩ | handled
    · rw [signalled, if_neg inLoop] at ended
      refine .inl ⟨here, ?_⟩
      rcases Moment.signal_cases isSignal with rfl | rfl
      · exact .inl ⟨rfl, rfl, after, ended⟩
      · exact .inr ⟨rfl, .whole ended⟩
    · exact .inr handled

/--
A body with an increment heeds its signals: a continue goes on with the increment.
-/
theorem heedsRound_loopBody
    {place : Place}
    {condition increment : Expr}
    {inner : Stmt}
    {tested : State}
    (heeds : ∀ place state,
      Heeds settings budget state.loopDepth (exec settings budget inner state)
        (moments settings budget place inner state))
    (inLoop : tested.loopDepth ≠ 0) :
    HeedsRound settings budget
      ⟨place, condition, .loopBody inner increment⟩ tested := by
  have opened :
      (tested.begin settings .loopBody).openScope.loopDepth = tested.loopDepth := by
    simp [State.openScope]
  constructor
  case fails =>
    rw [exec_loopBody]
    refine ((failsOnly_of_heeds (heeds place _)
      (opened ▸ inLoop)).proceed ?_).restoring _
    intro completion after
    rcases completion with _ | _ | _
    · exact failsOnly_increment after
    · exact Run.failsOnly_completed
    · exact failsOnly_increment after
  case reaches =>
    intro earlier moment later keyword signal split isSignal
    rw [moments_loopBody] at split
    obtain ⟨before, rfl, behindFirst⟩ := behind_first split rfl isSignal
    rcases split_append behindFirst with
      ⟨rest, inInner, rfl⟩ | ⟨front, rfl, inIncrement⟩
    · rcases (heeds _ _).reaches inInner isSignal with
        ⟨here, rfl, after, ended⟩ | handled
      · rw [signalled, opened, if_neg inLoop] at ended
        refine .inl ⟨here.trans opened, ?_⟩
        rw [ended]
        rcases Moment.signal_cases isSignal with rfl | rfl
        · exact .inl ⟨rfl, rfl, after.closeScope, by rw [exec_loopBody, ended]; rfl⟩
        · exact .inr ⟨rfl, .counted ended (by rw [exec_loopBody, ended]; rfl)⟩
      · exact .inr (handled.extend [_] _)
    · have member : moment ∈ front ++ moment :: later := by simp
      rw [← inIncrement] at member
      rw [signal?_of_mem_increment member] at isSignal
      cases isSignal

/--
A loop heeds its signals if its body does: they
are all for itself or for loops inside.
-/
theorem heeds_whileLoop
    (loop : Loop)
    {state : State}
    (heeds : ∀ tested, tested.loopDepth = state.loopDepth + 1 →
      loop.HeedsRound settings budget tested) :
    Heeds settings budget state.loopDepth (exec settings budget loop.stmt state)
      (moments settings budget loop.place loop.stmt state) := by
  have entered :
      (state.begin settings .whileLoop).enterLoop.loopDepth =
        state.loopDepth + 1 := by
    simp [State.enterLoop]
  constructor
  case ends =>
    intro result after ended signals
    obtain ⟨⟨result', between⟩, isRun, same⟩ := Option.map_eq_some_iff.mp ended
    cases same
    cases result with
    | ok completion =>
        exact (signals
          (completesNormally_whileLoop _ _ _ _ _ ended completion rfl)).elim
    | error error =>
        exact (failsOnly_rounds heeds budget entered isRun error rfl signals).elim
  case reaches =>
    intro earlier moment later keyword signal split isSignal
    refine .inr ?_
    obtain ⟨before, rfl, inRounds⟩ := behind_first split rfl isSignal
    have settles := (settles_rounds heeds budget entered inRounds isSignal).extend
      [⟨loop.place, .stmt loop.stmt, state⟩]
    rcases settles with ⟨innermost, answers⟩ | handled
    · exact ⟨loop, state, innermost, _, later, _, List.suffix_rfl, List.prefix_rfl,
        split, rfl, answers⟩
    · exact handled

end Loop

mutual

/-- A statement heeds its signals, wherever a loop body stands below a loop only. -/
theorem heeds_exec
    (settings : Settings)
    (budget : Nat)
    {tokens : List Token} :
    ∀ (stmt : Stmt) (_ : stmt.Formed tokens) (place : Place) (state : State),
      Heeds settings budget state.loopDepth (exec settings budget stmt state)
        (moments settings budget place stmt state)
  | .expression inner, formed, place, state => by
      rw [exec, moments]
      exact (heeds_lastValue fun _ _ => ⟨_, rfl⟩).cons
  | .print inner, formed, place, state => by
      rw [exec, moments]
      exact (heeds_lastValue fun _ _ => ⟨_, rfl⟩).cons
  | .var name none, formed, place, state => by
      rw [exec, moments]
      exact (heeds_completed _).cons
  | .var name (some initial), formed, place, state => by
      rw [exec, moments]
      exact (heeds_lastValue fun _ _ => ⟨_, rfl⟩).cons
  | .block statements, formed, place, state => by
      rw [exec, moments]
      refine Heeds.cons (Heeds.restoring ?_ _)
      have opened :
          (state.begin settings .block).openScope.loopDepth = state.loopDepth := by
        simp [State.openScope]
      rw [← opened]
      apply heeds_execAll settings budget statements
      intro stmt member
      exact formed.nodes.formed_child nofun (List.mem_map_of_mem member)
  | .loopBody body increment, formed, place, state =>
      (formed.noRound rfl).elim
  | .ifThen condition thenPart, formed, place, state => by
      rw [exec, moments]
      refine Heeds.cons (heeds_value ?_)
      intro value tested afterTest
      rw [State.loopDepth_begin] at afterTest
      rw [← afterTest]
      split
      · exact heeds_exec settings budget thenPart formed.nodes.formed_child _ tested
      · exact heeds_completed tested
  | .ifElse condition thenPart elsePart, formed, place, state => by
      rw [exec, moments]
      refine Heeds.cons (heeds_value ?_)
      intro value tested afterTest
      rw [State.loopDepth_begin] at afterTest
      rw [← afterTest]
      split
      · exact heeds_exec settings budget thenPart formed.nodes.formed_child _ tested
      · exact heeds_exec settings budget elsePart formed.nodes.formed_child _ tested
  | .whileLoop condition body, formed, place, state => by
      apply Loop.heeds_whileLoop ⟨place, condition, body⟩
      intro tested inLoop
      have bodyNodes : Node.Everywhere (Node.Formed tokens) (.stmt body) :=
        formed.nodes.child
      rcases bodyNodes.formed_or_counted with
        bodyFormed | ⟨inner, increment, rfl, innerFormed⟩
      · exact Loop.heedsRound_of_heeds
          (heeds_exec settings budget body bodyFormed _ tested) (by omega)
      · exact Loop.heedsRound_loopBody
          (fun place state =>
            heeds_exec settings budget inner innerFormed place state)
          (by omega)
  | .breakLoop keyword, formed, place, state => by
      rw [exec, moments]
      exact heeds_signal ⟨place, .stmt (.breakLoop keyword), state⟩ rfl (by simp)
  | .continueLoop keyword, formed, place, state => by
      rw [exec, moments]
      exact heeds_signal ⟨place, .stmt (.continueLoop keyword), state⟩ rfl (by simp)

/-- Statements in order heed the signals of each. -/
theorem heeds_execAll
    (settings : Settings)
    (budget : Nat)
    {tokens : List Token} :
    ∀ (statements : List Stmt) (_ : ∀ stmt ∈ statements, stmt.Formed tokens)
      (place : Nat → Place) (index : Nat) (state : State),
      Heeds settings budget state.loopDepth
        (execAll settings budget statements state)
        (momentsAll settings budget place index statements state)
  | [], _, place, index, state => by
      rw [execAll, momentsAll]
      exact heeds_completed state
  | first :: rest, formed, place, index, state => by
      rw [execAll, momentsAll]
      have firstFormed : first.Formed tokens := formed first List.mem_cons_self
      apply (heeds_exec settings budget first firstFormed _ state).sequence
      · intro after run
        rw [← (exec_restored run).loops]
        exact heeds_execAll settings budget rest
          (fun stmt member =>
            formed stmt (List.mem_cons_of_mem first member)) _ _ after
      · intro signal after notNormal
        cases signal with
        | normal => exact (notNormal rfl).elim
        | broke => exact ⟨rfl, rfl⟩
        | continued => exact ⟨rfl, rfl⟩

end

end Lox.Evaluation
