import Lox.Proofs.Evaluation.Rounds
import Lox.Proofs.Grammar.Built
import Lox.Proofs.Scoping.Lexical

namespace Lox.Evaluation

/-!
# Break and continue follow the text

Main statement: in a program that was read, whether a break or continue statement is
an error can be seen in the text.  With no loop that has it in its body, it stops
the program when it is reached; otherwise it never fails, and the innermost of those
loops handles it.  So no statement of a program completes with a signal.
-/

/-- At a moment of a run, signals do what the loops of the text say. -/
structure LoopControlled
    (settings : Settings)
    (budget : Nat)
    (program : Program)
    (start : State)
    (earlier : List Moment)
    (moment : Moment)
    (later : List Moment) :
    Prop where
  stands :
    ∃ root,
      program[moment.place.position]? = some root ∧
        (Node.stmt root).Leads moment.place.trail moment.node
  counted :
    ∀ stmt, moment.node = .stmt stmt →
      moment.state.loopDepth = moment.place.trail.loops
  outside :
    ∀ keyword signal,
      moment.signal? = some (keyword, signal) →
        moment.place.trail.loops = 0 →
          later = [] ∧
            ∃ stopped,
              interpret settings budget program start =
                some (false,
                  State.recordError stopped settings ⟨.signalOutsideLoop, keyword⟩)
  inside :
    ∀ keyword signal,
      moment.signal? = some (keyword, signal) →
        moment.place.trail.loops ≠ 0 →
          (∀ stmt,
              moment.node = .stmt stmt →
                ∃ after, exec settings budget stmt moment.state =
                  some (.ok signal, after)) ∧
            Handled settings budget signal earlier moment later
  completes :
    ∀ stmt completion after,
      moment.place.trail = [] →
        moment.node = .stmt stmt →
          exec settings budget stmt moment.state = some (.ok completion, after) →
            completion = .normal

section Programs

variable {settings : Settings} {budget : Nat} {tokens : List Token}
  {program : Program}

/-- Outside of loops, a statement that completes signals nothing. -/
theorem eq_normal_of_exec
    {stmt : Stmt}
    (formed : stmt.Formed tokens)
    {state after : State}
    (outside : state.loopDepth = 0)
    {completion : Completion}
    (ended : exec settings budget stmt state = some (.ok completion, after)) :
    completion = .normal := by
  by_contra isSignal
  obtain ⟨_, _, _, _, -, -, -, same⟩ :=
    (heeds_exec settings budget stmt formed ⟨0, []⟩ state).ends ended isSignal
  rw [outside] at same
  cases same

/-- At a signal, a program stops, or goes on as a loop says that handles it. -/
theorem reaches_programMoments
    (formed : ∀ stmt ∈ program, stmt.Formed tokens)
    {position : Nat}
    {state : State}
    (outside : state.loopDepth = 0)
    {earlier later : List Moment}
    {moment : Moment}
    {keyword : Token}
    {signal : Completion}
    (split : programMoments settings budget position program state =
      earlier ++ moment :: later)
    (isSignal : moment.signal? = some (keyword, signal)) :
    (moment.state.loopDepth = 0 ∧
        later = [] ∧
        ∃ progress,
          execProgram settings budget program state = some progress ∧
            progress.error? = some ⟨.signalOutsideLoop, keyword⟩) ∨
      Handled settings budget signal earlier moment later := by
  induction program generalizing position state earlier with
  | nil =>
      simp [programMoments] at split
  | cons first rest inductionHypothesis =>
      have heeds :=
        heeds_exec settings budget first (formed first List.mem_cons_self)
          ⟨position, []⟩ state
      rw [outside] at heeds
      rcases split_append split with ⟨between, inFirst, rfl⟩ | ⟨front, rfl, inRest⟩
      · rcases heeds.reaches inFirst isSignal with ⟨here, rfl, after, run⟩ | handled
        · refine .inl
            ⟨here, ?_, ⟨[], some ⟨.signalOutsideLoop, keyword⟩, after⟩, ?_, rfl⟩
          · rw [run]
            rfl
          · rw [execProgram, run]
            rfl
        · exact .inr (handled.extend [] _)
      · rcases run : exec settings budget first state with
          _ | ⟨error | completion, after⟩
        · simp [run, whenCompleted] at inRest
        · simp [run, whenCompleted] at inRest
        · rw [run] at inRest
          have restFormed : ∀ stmt ∈ rest, stmt.Formed tokens :=
            fun stmt member => formed stmt (List.mem_cons_of_mem first member)
          have restOutside := (exec_restored run).loops.trans outside
          rcases inductionHypothesis restFormed restOutside inRest with
            ⟨here, atEnd, progress, restRun, stopped⟩ | handled
          · refine .inl ⟨here, atEnd,
              { progress with completions :=
                completion :: progress.completions }, ?_, stopped⟩
            simp [execProgram, run, restRun]
          · refine .inr ?_
            simpa using handled.extend _ []

/--
The statements of a program complete normally,
and its last moment is what stopped it.
-/
theorem ends_execProgram
    (formed : ∀ stmt ∈ program, stmt.Formed tokens)
    (position : Nat)
    {state : State}
    (outside : state.loopDepth = 0)
    {progress : Progress}
    (ended : execProgram settings budget program state = some progress) :
    (∀ completion ∈ progress.completions, completion = .normal) ∧
      ∀ keyword,
        progress.error? = some ⟨.signalOutsideLoop, keyword⟩ →
          ∃ earlier moment signal,
            programMoments settings budget position program state =
              earlier ++ [moment] ∧
              moment.signal? = some (keyword, signal) ∧
                moment.state.loopDepth = 0 := by
  induction program generalizing position state progress with
  | nil =>
      cases ended
      simp
  | cons first rest inductionHypothesis =>
      have heeds :=
        heeds_exec settings budget first (formed first List.mem_cons_self)
          ⟨position, []⟩ state
      rw [outside] at heeds
      rw [execProgram] at ended
      rw [programMoments]
      rcases run : exec settings budget first state with
        _ | ⟨error | completion, after⟩
      · rw [run] at ended
        cases ended
      · rw [run] at ended
        cases ended
        refine ⟨by simp, ?_⟩
        rintro keyword ⟨⟩
        obtain ⟨earlier, moment, keyword', signal, shape, isSignal, here, same⟩ :=
          heeds.ends run rfl
        cases same
        exact ⟨earlier, moment, signal,
          by simp [shape, whenCompleted], isSignal, here⟩
      · simp only [run, Option.map_eq_some_iff] at ended
        obtain ⟨later, laterEnded, rfl⟩ := ended
        have restFormed : ∀ stmt ∈ rest, stmt.Formed tokens :=
          fun stmt member => formed stmt (List.mem_cons_of_mem first member)
        obtain ⟨normal, stops⟩ :=
          inductionHypothesis restFormed (position + 1)
            ((exec_restored run).loops.trans outside) laterEnded
        constructor
        · intro other member
          rcases List.mem_cons.mp member with rfl | inLater
          · exact eq_normal_of_exec (formed first List.mem_cons_self) outside run
          · exact normal other inLater
        · intro keyword stopped
          obtain ⟨earlier, moment, signal, shape, isSignal, here⟩ :=
            stops keyword stopped
          exact ⟨moments settings budget ⟨position, []⟩ first state ++ earlier,
            moment, signal, by simp [whenCompleted, shape], isSignal, here⟩

end Programs

/-- A signal that a loop handles has that loop around it in the text. -/
theorem Handled.loops_ne_zero
    {settings : Settings}
    {budget : Nat}
    {signal : Completion}
    {earlier later : List Moment}
    {moment : Moment}
    (handled : Handled settings budget signal earlier moment later) :
    moment.place.trail.loops ≠ 0 := by
  obtain ⟨loop, entered, ⟨way, stands, -⟩, -⟩ := handled
  have repeats : Passed.repeats ⟨.stmt loop.stmt, 1⟩ = true := rfl
  rw [stands]
  simp [Place.beneath, Loop.inside, Place.inside, Trail.loops_append,
    Trail.loops_cons, repeats]

/-- Where loops are around a statement, its signal is no error. -/
theorem exec_signal
    (settings : Settings)
    (budget : Nat)
    {moment : Moment}
    {keyword : Token}
    {signal : Completion}
    (isSignal : moment.signal? = some (keyword, signal))
    (inLoop : moment.state.loopDepth ≠ 0)
    {stmt : Stmt}
    (isStmt : moment.node = .stmt stmt) :
    ∃ after, exec settings budget stmt moment.state = some (.ok signal, after) := by
  rw [Moment.signal?, isStmt] at isSignal
  cases stmt with
  | breakLoop keyword' =>
      cases isSignal
      refine ⟨moment.state.begin settings .breakLoop, ?_⟩
      rw [exec, runSignal_eq, State.loopDepth_begin, signalled, if_neg inLoop]
  | continueLoop keyword' =>
      cases isSignal
      refine ⟨moment.state.begin settings .continueLoop, ?_⟩
      rw [exec, runSignal_eq, State.loopDepth_begin, signalled, if_neg inLoop]
  | _ => cases isSignal

theorem loopControlled_of_split
    {settings : Settings}
    {budget : Nat}
    {tokens : List Token}
    {program : Program}
    (accepted : (readProgram tokens).accepted? = some program)
    {state : State}
    {earlier later : List Moment}
    {moment : Moment}
    (split :
      interpretMoments settings budget program state = earlier ++ moment :: later) :
    LoopControlled settings budget program state earlier moment later := by
  have formed := formed_of_accepted accepted
  have member : moment ∈ interpretMoments settings budget program state := by
    simp [split]
  have counted : ∀ stmt, moment.node = .stmt stmt →
      moment.state.loopDepth = moment.place.trail.loops := by
    intro stmt isStmt
    exact loopDepth_of_mem_programMoments rfl member isStmt
  have stands :=
    (lexicallyScoped_of_mem (placed_of_accepted accepted) member).stands
  constructor
  case stands => exact stands
  case counted => exact counted
  case outside =>
    intro keyword signal isSignal noLoop
    rcases reaches_programMoments formed rfl split isSignal with
      ⟨-, atEnd, progress, run, stopped⟩ | handled
    · refine ⟨atEnd, progress.state, ?_⟩
      simp [interpret, run, stopped]
    · exact (handled.loops_ne_zero noLoop).elim
  case inside =>
    intro keyword signal isSignal inLoop
    obtain ⟨stmt, isStmt⟩ := Moment.exists_stmt_of_signal isSignal
    rw [← counted stmt isStmt] at inLoop
    constructor
    · intro stmt isStmt
      exact exec_signal settings budget isSignal inLoop isStmt
    · rcases reaches_programMoments formed rfl split isSignal with
        ⟨here, -⟩ | handled
      · exact (inLoop here).elim
      · exact handled
  case completes =>
    intro stmt completion after atTop isStmt ended
    obtain ⟨root, found, leads⟩ := stands
    have stmtFormed : stmt.Formed tokens := by
      rw [atTop, isStmt] at leads
      cases leads
      exact formed stmt (List.mem_of_getElem? found)
    have outside : moment.state.loopDepth = 0 := by
      rw [counted stmt isStmt, atTop, Trail.loops_nil]
    exact eq_normal_of_exec stmtFormed outside ended

/--
In a run of a program that was read without errors, from any state, the loops
counted at a statement are those that have it in their bodies.  A break or
continue statement in a loop completes and the innermost loop handles it; one
outside of loops is the last moment of the run and its error.  Loops, whatever
their bodies, and the statements of a program complete normally.  The moments are
what a run comes to that records its steps.
-/
theorem interpret_loopControlled
    (settings : Settings)
    (budget : Nat)
    {tokens : List Token}
    {program : Program}
    (accepted : (readProgram tokens).accepted? = some program)
    (state : State) :
    (∀ earlier moment later,
        interpretMoments settings budget program state =
          earlier ++ moment :: later →
          LoopControlled settings budget program state earlier moment later) ∧
      recordProgram settings budget 0 program state.atGlobals =
        ⟨interpretMoments settings budget program state,
          execProgram settings budget program state.atGlobals⟩ ∧
      (∀ condition body before completion after,
        exec settings budget (.whileLoop condition body) before =
            some (.ok completion, after) →
          completion = .normal) ∧
      (∀ progress,
        execProgram settings budget program state.atGlobals = some progress →
          (∀ completion ∈ progress.completions, completion = .normal) ∧
            (∀ keyword,
              progress.error? = some ⟨.signalOutsideLoop, keyword⟩ →
                ∃ earlier moment signal,
                  interpretMoments settings budget program state =
                    earlier ++ [moment] ∧
                    moment.signal? = some (keyword, signal) ∧
                    moment.place.trail.loops = 0) ∧
            (settings.tracing = true →
              progress.state.traced =
                state.traced ++
                  traceLines
                    (interpretMoments settings budget program state))) := by
  refine ⟨?_, recordProgram_eq settings budget 0 program state.atGlobals, ?_, ?_⟩
  · intro earlier moment later split
    exact loopControlled_of_split accepted split
  · intro condition body before completion after ended
    exact completesNormally_whileLoop settings budget condition body before
      ended completion rfl
  · intro progress run
    obtain ⟨normal, stops⟩ :=
      ends_execProgram (formed_of_accepted accepted) 0 rfl run
    refine ⟨normal, ?_, fun tracing => traced_execProgram tracing budget 0 run⟩
    intro keyword stopped
    obtain ⟨earlier, moment, signal, shape, isSignal, here⟩ := stops keyword stopped
    obtain ⟨stmt, isStmt⟩ := Moment.exists_stmt_of_signal isSignal
    have counted := (loopControlled_of_split accepted shape).counted stmt isStmt
    exact ⟨earlier, moment, signal, shape, isSignal, counted.symm.trans here⟩

/-- The tokens of `while (true) { break; } continue;`. -/
def brokenTokens :
    List Token :=
  [⟨.whileKeyword, "while", .nil, 1, 0⟩, ⟨.leftParen, "(", .nil, 1, 6⟩,
    ⟨.trueKeyword, "true", .nil, 1, 7⟩, ⟨.rightParen, ")", .nil, 1, 11⟩,
    ⟨.leftBrace, "\x7b", .nil, 1, 13⟩, ⟨.breakKeyword, "break", .nil, 1, 15⟩,
    ⟨.semicolon, ";", .nil, 1, 20⟩, ⟨.rightBrace, "\x7d", .nil, 1, 22⟩,
    ⟨.continueKeyword, "continue", .nil, 1, 24⟩, ⟨.semicolon, ";", .nil, 1, 32⟩]

/-- A loop that is broken, and a signal that no loop handles. -/
def brokenLoop :
    Program :=
  [.whileLoop (.literal (.boolean true))
      (.block [.breakLoop ⟨.breakKeyword, "break", .nil, 1, 15⟩]),
    .continueLoop ⟨.continueKeyword, "continue", .nil, 1, 24⟩]

/--
The break ends the loop and not the program, which the continue behind it stops.
-/
theorem brokenLoop_controlled :
    let state := State.start default 0
    (∃ earlier moment later,
        interpretMoments ⟨false, true⟩ 1 brokenLoop state =
          earlier ++ moment :: later ∧
          moment.state.loopDepth = 1 ∧
          later.length = 1 ∧
          Handled ⟨false, true⟩ 1 .broke earlier moment later) ∧
      ∃ stopped,
        interpret ⟨false, true⟩ 1 brokenLoop state =
          some (false, State.recordError stopped ⟨false, true⟩
            ⟨.signalOutsideLoop, ⟨.continueKeyword, "continue", .nil, 1, 24⟩⟩) := by
  intro state
  have accepted : (readProgram brokenTokens).accepted? = some brokenLoop := rfl
  obtain ⟨controlled, -, -, -⟩ :=
    interpret_loopControlled ⟨false, true⟩ 1 accepted state
  constructor
  · have shape :
        interpretMoments ⟨false, true⟩ 1 brokenLoop state = [_, _] ++ _ :: [_] :=
      rfl
    have atBreak := controlled _ _ _ shape
    exact ⟨_, _, _, shape, rfl, rfl, (atBreak.inside _ _ rfl (by decide)).2⟩
  · have atContinue := controlled [_, _, _] _ [] rfl
    exact (atContinue.outside _ _ rfl (by decide)).2

end Lox.Evaluation
