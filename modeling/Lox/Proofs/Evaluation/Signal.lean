import Lox.Proofs.Evaluation.Failure
import Lox.Proofs.Evaluation.Nesting

namespace Lox.Evaluation

/-!
# Signals and the loops that they are for

A break or continue statement ends the statements around it, up to the nearest loop
and not beyond: a break ends that loop, and a continue ends what it repeats.
Outside of loops it ends the program, with an error that blames its keyword.

A run heeds its signals if it comes to a signal of its own, which has no loop of the
run around it, only as its last moment, and then ends with it; all other signals are
for loops in it.  What runs are put together with keeps that, but for loops.
-/

/-- The keyword of a break or continue statement, and what it completes with. -/
def Moment.signal?
    (moment : Moment) :
    Option (Token × Completion) :=
  match moment.node with
  | .stmt (.breakLoop keyword) => some (keyword, .broke)
  | .stmt (.continueLoop keyword) => some (keyword, .continued)
  | _ => none

/-- How a signal ends a run, given how many loops are around it. -/
def signalled
    (keyword : Token)
    (signal : Completion)
    (depth : Nat) :
    Except RuntimeError Completion :=
  if depth = 0 then .error ⟨.signalOutsideLoop, keyword⟩ else .ok signal

/-- A run ends with a signal, or with the error of a signal outside of loops. -/
def Signals :
    Except RuntimeError Completion → Prop
  | .ok completion => completion ≠ .normal
  | .error error => error.cause = .signalOutsideLoop

/-- A signal completes inside of loops and fails outside of them. -/
theorem runSignal_eq
    (keyword : Token)
    (signal : Completion)
    (state : State) :
    runSignal keyword signal state =
      some (signalled keyword signal state.loopDepth, state) := by
  unfold runSignal signalled
  split <;> rfl

/-- A statement signals a break or that its loop goes on. -/
theorem Moment.signal_cases
    {moment : Moment}
    {keyword : Token}
    {signal : Completion}
    (isSignal : moment.signal? = some (keyword, signal)) :
    signal = .broke ∨ signal = .continued := by
  unfold signal? at isSignal
  split at isSignal
  · cases isSignal
    exact .inl rfl
  · cases isSignal
    exact .inr rfl
  · cases isSignal

/-- Only statements signal. -/
theorem Moment.exists_stmt_of_signal
    {moment : Moment}
    {keyword : Token}
    {signal : Completion}
    (isSignal : moment.signal? = some (keyword, signal)) :
    ∃ stmt, moment.node = .stmt stmt := by
  unfold signal? at isSignal
  split at isSignal
  · exact ⟨_, ‹_›⟩
  · exact ⟨_, ‹_›⟩
  · cases isSignal

/-- What a signal ends a run with is passed on by the statements around it. -/
theorem whenCompleted_signalled
    {keyword : Token}
    {signal : Completion}
    {depth : Nat}
    {state : State}
    {later : Completion → State → List Moment}
    (passed : later signal state = []) :
    whenCompleted (some (signalled keyword signal depth, state)) later = [] := by
  unfold signalled
  split
  · rfl
  · exact passed

/-- A signal passes through what follows it. -/
theorem proceed_signalled
    {keyword : Token}
    {signal : Completion}
    {depth : Nat}
    {state : State}
    {next : Completion → State → Run}
    (passed : next signal state = some (.ok signal, state)) :
    proceed (some (signalled keyword signal depth, state)) next =
      some (signalled keyword signal depth, state) := by
  unfold signalled
  split
  · rfl
  · exact passed

/-- An element of two lists in a row is in the first or in the second. -/
theorem split_append
    {first second earlier later : List α}
    {item : α}
    (split : first ++ second = earlier ++ item :: later) :
    (∃ rest, first = earlier ++ item :: rest ∧ later = rest ++ second) ∨
      ∃ front, earlier = first ++ front ∧ second = front ++ item :: later := by
  rcases List.append_eq_append_iff.mp split with
    ⟨front, earlierShape, secondShape⟩ | ⟨rest, firstShape, itemShape⟩
  · exact .inr ⟨front, earlierShape, secondShape⟩
  · cases rest with
    | nil => exact .inr ⟨[], by simp [firstShape], by simpa using itemShape.symm⟩
    | cons head rest =>
        obtain ⟨rfl, rfl⟩ := List.cons.inj itemShape
        exact .inl ⟨rest, firstShape, rfl⟩

/-- A signal among moments of which the first is none comes behind the first. -/
theorem behind_first
    {first moment : Moment}
    {rest earlier later : List Moment}
    {keyword : Token}
    {signal : Completion}
    (split : first :: rest = earlier ++ moment :: later)
    (quiet : first.signal? = none)
    (isSignal : moment.signal? = some (keyword, signal)) :
    ∃ before, earlier = first :: before ∧ rest = before ++ moment :: later := by
  cases earlier with
  | nil =>
      cases split
      rw [quiet] at isSignal
      cases isSignal
  | cons head before =>
      obtain ⟨rfl, behind⟩ := List.cons.inj split
      exact ⟨before, rfl, behind⟩

/-- A loop at a place of a program. -/
structure Loop where
  place : Place
  condition : Expr
  body : Stmt

namespace Loop

/-- The statement of a loop. -/
def stmt
    (loop : Loop) :
    Stmt :=
  .whileLoop loop.condition loop.body

/-- The place of the body. -/
def inside
    (loop : Loop) :
    Place :=
  loop.place.inside (.stmt loop.stmt) 1

/-- The run of a loop that was entered, with so many rounds left. -/
def rounds
    (settings : Settings)
    (budget : Nat)
    (loop : Loop)
    (left : Nat)
    (state : State) :
    Run :=
  iterate loop.condition
    (fun tested => exec settings budget loop.body tested) left state

/-- The moments of a loop that was entered, with so many rounds left. -/
def roundMoments
    (settings : Settings)
    (budget : Nat)
    (loop : Loop)
    (left : Nat)
    (state : State) :
    List Moment :=
  loopMoments loop.condition
    (lookups (loop.place.inside (.stmt loop.stmt) 0) loop.condition)
    (fun tested => moments settings budget loop.inside loop.body tested)
    (fun tested => exec settings budget loop.body tested) left state

/-- How the rounds go on behind the body of one. -/
def goOn
    (settings : Settings)
    (budget : Nat)
    (loop : Loop)
    (left : Nat) :
    Completion → State → Run
  | .broke, after => some (.ok .normal, after)
  | _, after => loop.rounds settings budget left after

/-- The moments behind the body of a round. -/
def momentsBehind
    (settings : Settings)
    (budget : Nat)
    (loop : Loop)
    (left : Nat) :
    Completion → State → List Moment
  | .broke, _ => []
  | _, after => loop.roundMoments settings budget left after

/-- A moment in the body of a loop, and not in a loop inside that body. -/
def Innermost
    (loop : Loop)
    (moment : Moment) :
    Prop :=
  ∃ way, moment.place = loop.inside.beneath way ∧ way.loops = 0

end Loop

/--
What is left of the round of a loop once a statement in its body has continued the
loop. The body is done, but for the increment if there is one behind it.
-/
inductive ContinuesRound (settings : Settings) (budget : Nat) (place : Place)
    (tested : State) :
    Stmt → List Moment → Prop where
  | whole
      {body : Stmt}
      {after : State} :
      exec settings budget body tested = some (.ok .continued, after) →
      ContinuesRound settings budget place tested body []
  | counted
      {inner : Stmt}
      {increment : Expr}
      {between : State} :
      exec settings budget inner (tested.begin settings .loopBody).openScope =
        some (.ok .continued, between) →
      exec settings budget (.loopBody inner increment) tested =
        restoring State.closeScope
          (exec settings budget (.expression increment) between) →
      ContinuesRound settings budget place tested (.loopBody inner increment)
        (moments settings budget
          (place.inside (.stmt (.loopBody inner increment)) 1)
          (.expression increment) between)

namespace Loop

/--
How the rounds of a loop go on behind a signal: not at all behind a break, and
behind a continue with what is left of the round and with the rounds from there.
-/
inductive Answers (settings : Settings) (budget : Nat) (loop : Loop)
    (moment : Moment) :
    Completion → List Moment → List Moment → Run → Prop where
  | broke
      {tested after : State}
      {earlier inside : List Moment} :
      inside <:+ earlier →
      moments settings budget loop.inside loop.body tested = inside ++ [moment] →
      exec settings budget loop.body tested = some (.ok .broke, after) →
      Answers settings budget loop moment .broke earlier []
        (some (.ok .normal, after))
  | continued
      {tested : State}
      {earlier inside remaining : List Moment}
      {left : Nat} :
      inside <:+ earlier →
      moments settings budget loop.inside loop.body tested =
        inside ++ moment :: remaining →
      ContinuesRound settings budget loop.inside tested loop.body remaining →
      Answers settings budget loop moment .continued earlier
        (remaining ++
          whenCompleted (exec settings budget loop.body tested) fun _ next =>
            loop.roundMoments settings budget left next)
        (proceed (exec settings budget loop.body tested) fun _ next =>
          loop.rounds settings budget left next)

/--
A loop that was entered in some state handles a signal: it is the innermost one
around it, the run comes to the signal between the first and the last moment of the
loop, and what is left of the loop is as the signal says.
-/
structure Handles
    (settings : Settings)
    (budget : Nat)
    (loop : Loop)
    (entered : State)
    (signal : Completion)
    (earlier : List Moment)
    (moment : Moment)
    (later : List Moment) :
    Prop where
  innermost : loop.Innermost moment
  answers :
    ∃ before rest run,
      before <:+ earlier ∧
        rest <+: later ∧
        moments settings budget loop.place loop.stmt entered =
          before ++ moment :: rest ∧
        exec settings budget loop.stmt entered = restoring State.leaveLoop run ∧
        loop.Answers settings budget moment signal before rest run

end Loop

/-- Some loop handles a signal, of the moments before and behind it. -/
def Handled
    (settings : Settings)
    (budget : Nat)
    (signal : Completion)
    (earlier : List Moment)
    (moment : Moment)
    (later : List Moment) :
    Prop :=
  ∃ (loop : Loop) (entered : State),
    loop.Handles settings budget entered signal earlier moment later

/--
A run with so many loops around it heeds its signals: it ends with a signal only at
one of its own, and at such a one it ends; all others are handled by loops in it.
-/
structure Heeds
    (settings : Settings)
    (budget : Nat)
    (depth : Nat)
    (run : Run)
    (moments : List Moment) :
    Prop where
  ends :
    ∀ ⦃result : Except RuntimeError Completion⦄ ⦃after : State⦄,
      run = some (result, after) →
        Signals result →
          ∃ earlier moment keyword signal,
            moments = earlier ++ [moment] ∧
              moment.signal? = some (keyword, signal) ∧
              moment.state.loopDepth = depth ∧
              result = signalled keyword signal depth
  reaches :
    ∀ ⦃earlier : List Moment⦄ ⦃moment : Moment⦄
      ⦃later : List Moment⦄ ⦃keyword : Token⦄
        ⦃signal : Completion⦄,
      moments = earlier ++ moment :: later →
        moment.signal? = some (keyword, signal) →
          (moment.state.loopDepth = depth ∧
              later = [] ∧ ∃ after, run =
                some (signalled keyword signal depth, after)) ∨
            Handled settings budget signal earlier moment later

section Heeding

variable {settings : Settings} {budget depth : Nat}

/-- A loop handles its signals also if the run goes on longer, on both sides. -/
theorem Handled.extend
    {signal : Completion}
    {earlier later : List Moment}
    {moment : Moment}
    (handled : Handled settings budget signal earlier moment later)
    (front behind : List Moment) :
    Handled settings budget signal (front ++ earlier) moment (later ++ behind) := by
  obtain ⟨loop, entered, innermost, before, rest, run, isSuffix, isPrefix, shape⟩ :=
    handled
  exact ⟨loop, entered, innermost, before, rest, run,
    isSuffix.trans (List.suffix_append front earlier),
    isPrefix.trans (List.prefix_append later behind), shape⟩

/-- A run without moments ends with no signal. -/
theorem heeds_nil
    {run : Run}
    (silent : run.Ends fun result _ => ¬ Signals result) :
    Heeds settings budget depth run [] where
  ends := by
    intro result after ended signals
    exact (silent ended signals).elim
  reaches := by
    intro earlier moment later keyword signal split
    simp at split

/-- A run that completes normally heeds every signal, since it has none. -/
theorem heeds_completed
    (state : State) :
    Heeds settings budget depth (some (.ok .normal, state)) [] :=
  heeds_nil (Run.ends_some.mpr fun signals => signals rfl)

/-- Moments that are no signals may come before a run. -/
theorem Heeds.behind
    {run : Run}
    {front inside : List Moment}
    (heeds : Heeds settings budget depth run inside)
    (quiet : ∀ moment ∈ front, moment.signal? = none) :
    Heeds settings budget depth run (front ++ inside) where
  ends := by
    intro result after ended signals
    obtain ⟨earlier, moment, keyword, signal, rfl, last⟩ := heeds.ends ended signals
    exact ⟨front ++ earlier, moment, keyword, signal, by simp, last⟩
  reaches := by
    intro earlier moment later keyword signal split isSignal
    rcases split_append split with ⟨rest, inFront, -⟩ | ⟨between, rfl, inInside⟩
    · have none := quiet moment (by simp [inFront])
      rw [isSignal] at none
      cases none
    · rcases heeds.reaches inInside isSignal with own | handled
      · exact .inl own
      · refine .inr ?_
        simpa using handled.extend front []

/-- A moment without a signal in front of a run changes nothing. -/
theorem Heeds.cons
    {run : Run}
    {first : Moment}
    {inside : List Moment}
    (heeds : Heeds settings budget depth run inside)
    (quiet : first.signal? = none := by rfl) :
    Heeds settings budget depth run (first :: inside) := by
  have alone : ∀ moment ∈ [first], moment.signal? = none := by
    simpa using quiet
  exact heeds.behind alone

/-- A look-up is no signal. -/
theorem signal?_of_mem_lookups
    {place : Place}
    {expr : Expr}
    {state : State}
    {moment : Moment}
    (member : moment ∈ lookups place expr state) :
    moment.signal? = none := by
  unfold Moment.signal?
  split
  · exact (ne_stmt_of_mem_lookups member _ ‹_›).elim
  · exact (ne_stmt_of_mem_lookups member _ ‹_›).elim
  · rfl

/-- An expression statement signals nothing. -/
theorem signal?_of_mem_expression
    (settings : Settings)
    (budget : Nat)
    {place : Place}
    {inner : Expr}
    {state : State}
    {moment : Moment}
    (member : moment ∈ moments settings budget place (.expression inner) state) :
    moment.signal? = none := by
  rw [moments] at member
  rcases List.mem_cons.mp member with rfl | inLookups
  · rfl
  · exact signal?_of_mem_lookups inLookups

/-- An expression that has no value stops a run, but with no signal. -/
theorem heeds_value
    {place : Place}
    {state : State}
    {expr : Expr}
    {next : Value → State → Run}
    {later : Value → State → List Moment}
    (heeds : ∀ value after, after.loopDepth = state.loopDepth →
      Heeds settings budget depth (next value after) (later value after)) :
    Heeds settings budget depth (withValue state expr next)
      (lookups place expr state ++ whenValue state expr later) := by
  refine Heeds.behind ?_ fun moment => signal?_of_mem_lookups
  unfold withValue whenValue
  rcases outcome : state.evaluate expr with ⟨error | value, after⟩
  · exact heeds_nil (Run.ends_some.mpr (raises_of_evaluate outcome).cause_of_expr)
  · exact heeds value after (loopDepth_of_evaluate outcome)

/-- A statement that completes behind its value heeds signals. -/
theorem heeds_lastValue
    {place : Place}
    {state : State}
    {expr : Expr}
    {next : Value → State → Run}
    (completes :
      ∀ value after, ∃ last, next value after = some (.ok .normal, last)) :
    Heeds settings budget depth (withValue state expr next)
      (lookups place expr state) := by
  have whole : Heeds settings budget depth (withValue state expr next)
      (lookups place expr state ++ whenValue state expr fun _ _ => []) := by
    apply heeds_value
    intro value after _
    obtain ⟨last, completed⟩ := completes value after
    rw [completed]
    exact heeds_completed last
  simpa using whole

/--
In a sequence that passes signals on, a signal
is the last moment of the part it is in.
-/
theorem Heeds.sequence
    {first : Run}
    {earlier : List Moment}
    {next : Completion → State → Run}
    {later : Completion → State → List Moment}
    (heeds : Heeds settings budget depth first earlier)
    (goesOn : ∀ after, first = some (.ok .normal, after) →
      Heeds settings budget depth (next .normal after) (later .normal after))
    (passed : ∀ signal after, signal ≠ .normal →
      next signal after = some (.ok signal, after) ∧ later signal after = []) :
    Heeds settings budget depth (proceed first next)
      (earlier ++ whenCompleted first later) where
  ends := by
    intro result after ended signals
    rcases first with _ | ⟨error | completion, between⟩
    · cases ended
    · cases ended
      simpa [whenCompleted] using heeds.ends rfl signals
    · by_cases isNormal : completion = .normal
      · subst isNormal
        obtain ⟨front, moment, keyword, signal, shape, last⟩ :=
          (goesOn between rfl).ends ended signals
        exact ⟨earlier ++ front, moment, keyword, signal,
          by simp [whenCompleted, shape], last⟩
      · obtain ⟨goesThrough, nothingLater⟩ := passed completion between isNormal
        simp only [proceed, goesThrough] at ended
        cases ended
        simpa [whenCompleted, nothingLater] using heeds.ends rfl signals
  reaches := by
    intro front moment behind keyword signal split isSignal
    rcases split_append split with ⟨rest, inFirst, rfl⟩ | ⟨between, rfl, inLater⟩
    · rcases heeds.reaches inFirst isSignal with ⟨here, rfl, after, rfl⟩ | handled
      · have isPassed := passed signal after
          (by rcases Moment.signal_cases isSignal with rfl | rfl <;> decide)
        refine .inl ⟨here, ?_, after, proceed_signalled isPassed.1⟩
        simpa using whenCompleted_signalled isPassed.2
      · exact .inr (handled.extend [] _)
    · rcases first with _ | ⟨error | completion, after⟩
      · simp [whenCompleted] at inLater
      · simp [whenCompleted] at inLater
      · by_cases isNormal : completion = .normal
        · subst isNormal
          rcases (goesOn after rfl).reaches inLater isSignal with own | handled
          · exact .inl own
          · refine .inr ?_
            simpa using handled.extend earlier []
        · simp [whenCompleted, (passed completion after isNormal).2] at inLater

/-- A run heeds its signals when a scope or a loop is left behind it. -/
theorem Heeds.restoring
    {run : Run}
    {moments : List Moment}
    (heeds : Heeds settings budget depth run moments)
    (restore : State → State) :
    Heeds settings budget depth (Evaluation.restoring restore run) moments where
  ends := by
    intro result after ended signals
    obtain ⟨⟨result', before⟩, isRun, same⟩ := Option.map_eq_some_iff.mp ended
    cases same
    exact heeds.ends isRun signals
  reaches := by
    intro earlier moment later keyword signal split isSignal
    rcases heeds.reaches split isSignal with ⟨here, atEnd, after, rfl⟩ | handled
    · exact .inl ⟨here, atEnd, restore after, rfl⟩
    · exact .inr handled

/-- A break or continue statement is a run with nothing but a signal. -/
theorem heeds_signal
    (moment : Moment)
    {keyword : Token}
    {signal : Completion}
    (isSignal : moment.signal? = some (keyword, signal))
    {state : State}
    (counted : state.loopDepth = moment.state.loopDepth) :
    Heeds settings budget moment.state.loopDepth
      (runSignal keyword signal state) [moment] where
  ends := by
    intro result after ended signals
    rw [runSignal_eq, counted] at ended
    cases ended
    exact ⟨[], moment, keyword, signal, rfl, isSignal, rfl, rfl⟩
  reaches := by
    intro earlier other later otherKeyword otherSignal split isOther
    obtain ⟨rfl, rfl, rfl⟩ : earlier = [] ∧ other = moment ∧ later = [] := by
      cases earlier with
      | nil => simpa [eq_comm] using split
      | cons head rest => simp at split
    rw [isSignal] at isOther
    cases isOther
    exact .inl ⟨rfl, rfl, state, by rw [runSignal_eq, counted]⟩

end Heeding

end Lox.Evaluation
