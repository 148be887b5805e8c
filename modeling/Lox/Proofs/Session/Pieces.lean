import Lox.Proofs.Grammar.Changed
import Lox.Proofs.Grammar.StatementReading
import Lox.Proofs.Session.Call
import Lox.Proofs.Token.Seam

namespace Lox

/-!
# Texts in pieces

Two texts run one after the other do what one text does that joins them with a
line feed.  Both are read in the same way, so that the joined program is the
first program and behind it one that corresponds to the second, with its
tokens further down.  Behind the first program the runs go side by side, and
errors are only blamed on later lines.
-/

namespace Evaluation

section Programs

variable {settings : Settings} {budget : Nat} {first second : Program}
  {state between : State}

/-- A program that ran to its end goes on with what is appended to it. -/
theorem execProgram_append
    {progress : Progress}
    (ended : execProgram settings budget first state = some progress)
    (finished : progress.error? = none) :
    execProgram settings budget (first ++ second) state =
      (execProgram settings budget second progress.state).map fun later =>
        { later with completions :=
          progress.completions ++ later.completions } := by
  induction first generalizing state progress with
  | nil =>
      cases ended
      simp
  | cons stmt rest inductionHypothesis =>
      rw [List.cons_append, execProgram]
      rw [execProgram] at ended
      rcases run : exec settings budget stmt state with
        _ | ⟨error | completion, after⟩
      · rw [run] at ended
        cases ended
      · rw [run] at ended
        cases ended
        cases finished
      · simp only [run, Option.map_eq_some_iff] at ended
        obtain ⟨later, laterEnded, rfl⟩ := ended
        simp only [inductionHypothesis laterEnded finished, Option.map_map,
          Function.comp_def, List.cons_append]

/--
What a program that ran to its end leaves behind is where the next one starts.
-/
theorem interpret_append
    (ended : interpret settings budget first state = some (true, between)) :
    interpret settings budget (first ++ second) state =
      interpret settings budget second between := by
  have noLocals := locals_of_interpret ended
  have noLoops : between.loopDepth = 0 := (interpret_restored ended).loops
  have atGlobals : between.atGlobals = between := by
    obtain ⟨⟨locals, globals, outer⟩, loopDepth, log⟩ := between
    cases noLocals
    cases noLoops
    rfl
  obtain ⟨progress, run, outcome⟩ := interpret_cases ended
  rcases outcome with ⟨whole, -, rfl⟩ | ⟨error, -, stopped, -⟩
  · unfold interpret
    rw [execProgram_append run whole, atGlobals, Option.map_map]
    rfl
  · cases stopped

end Programs

/-- A log with earlier events behind it, since the latest come first. -/
def Continues
    (earlier : List Event)
    (log other : List Event) :
    Prop :=
  other = log ++ earlier

/-- The second half of a joined text runs as it does behind the first. -/
theorem simulation_continues
    {tokens : Correspondence}
    (faithful : tokens.Faithful)
    (earlier : List Event) :
    Simulation tokens (fun _ => True) (fun _ => Eq) (Continues earlier) := by
  apply simulation_eq faithful
  intro log other event continues
  rw [Continues, continues, List.cons_append]

theorem State.Paired.events
    {scopes : Environment → Environment → Prop}
    {earlier : List Event}
    {state other : State}
    (paired : State.Paired scopes (Continues earlier) state other) :
    other.events = earlier.reverse ++ state.events := by
  have continues : other.log = state.log ++ earlier := paired.log
  rw [State.events, State.events, continues, List.reverse_append]

/--
What interpretations leave behind, of which one goes on behind earlier events.
-/
theorem Interpreted.output
    {settings : Settings}
    {tokens : Correspondence}
    {earlier : List Event}
    {finished : Bool}
    {after after' : State}
    (interpreted :
      Interpreted settings tokens (State.Paired Eq (Continues earlier))
        finished after after') :
    after'.environment = after.environment ∧
      after'.events.filterMap Event.printedText? =
        earlier.reverse.filterMap Event.printedText? ++
          after.events.filterMap Event.printedText? := by
  cases interpreted with
  | finished paired =>
      rw [paired.events, List.filterMap_append]
      exact ⟨paired.environment.symm, rfl⟩
  | stopped paired matched =>
      rw [printedText?_recordError, printedText?_recordError, paired.events,
        List.filterMap_append]
      refine ⟨?_, rfl⟩
      rw [State.environment_recordError, State.environment_recordError]
      exact paired.environment.symm

end Evaluation

/-- How far down the second of two joined texts starts. -/
def linesBehind
    (first : String) :
    Nat :=
  1 + Text.lineFeeds first.toList

/-- The tokens of the second of two joined texts. -/
def joinedTokens
    (first : String) :
    Correspondence :=
  .ofMap (Token.moved (linesBehind first) (first.length + 1))

/-- A token keeps its kind and its literal when it is moved. -/
theorem keepsReading_moved
    (lines characters : Nat) :
    Grammar.KeepsReading (Token.moved lines characters) :=
  ⟨fun _ => rfl, fun _ => rfl⟩

theorem faithful_joinedTokens
    (first : String) :
    (joinedTokens first).Faithful where
  kind _ _ marked := by
    rw [marked]
    rfl
  lexeme _ _ named := by
    rw [named]
    rfl

/--
Joined texts without errors read as the one program and behind it the other, moved.
-/
theorem exists_found_append
    {first second : String}
    (firstClean : (Analysis.ofSource first).faults = [])
    (secondClean : (Analysis.ofSource second).faults = []) :
    (Analysis.ofSource (first ++ "\n" ++ second)).faults = [] ∧
      ∃ moved,
        (Analysis.ofSource (first ++ "\n" ++ second)).reading.found =
            (Analysis.ofSource first).reading.found ++ moved ∧
          Stmt.Correspond (joinedTokens first) (fun _ => True) 0
            (Analysis.ofSource second).reading.found moved := by
  obtain ⟨firstScanned, firstRead⟩ := Analysis.faults_eq_nil_iff.mp firstClean
  obtain ⟨secondScanned, secondRead⟩ := Analysis.faults_eq_nil_iff.mp secondClean
  have closed :
      ∀ error ∈ (Lexer.scan first).errors, error.cause ≠ .unterminatedString := by
    intro error member
    have noErrors : (Lexer.scan first).errors = [] := firstScanned
    rw [noErrors] at member
    cases member
  have scanned := Lexer.scan_append_lineFeed closed second
  have firstDerive := readProgram_found_iff.mp ⟨firstRead, rfl⟩
  have secondDerive := readProgram_found_iff.mp ⟨secondRead, rfl⟩
  obtain ⟨moved, movedDerive, correspond⟩ :=
    secondDerive.changed (keepsReading_moved (linesBehind first) (first.length + 1))
  obtain ⟨read, found⟩ := readProgram_found_iff.mpr (firstDerive.append movedDerive)
  have tokens : (Lexer.scan (first ++ "\n" ++ second)).stream.tokens =
      (Lexer.scan first).stream.tokens ++
        (Lexer.scan second).stream.tokens.map
          (Token.moved (linesBehind first) (first.length + 1)) := by
    rw [scanned]
    rfl
  have errors : (Lexer.scan (first ++ "\n" ++ second)).errors = [] := by
    have noErrors : (Lexer.scan first).errors = [] := firstScanned
    have noMoreErrors : (Lexer.scan second).errors = [] := secondScanned
    rw [scanned, noErrors, noMoreErrors]
    rfl
  have reading : (Analysis.ofSource (first ++ "\n" ++ second)).reading =
      readProgram ((Lexer.scan first).stream.tokens ++
        (Lexer.scan second).stream.tokens.map
          (Token.moved (linesBehind first) (first.length + 1))) := by
    rw [← tokens]
    rfl
  refine ⟨Analysis.faults_eq_nil_iff.mpr ⟨errors, ?_⟩, moved, ?_, correspond 0⟩
  · rw [reading]
    exact read
  · rw [reading]
    exact found

/--
An error in the second of two joined texts is the error of that text, further down.
-/
theorem fault_of_matches
    {first : String}
    {error error' : RuntimeError}
    (matched : Evaluation.Matches (joinedTokens first) error error') :
    error'.kind = error.kind ∧
      error'.message = error.message ∧
      error'.line = error.line + linesBehind first := by
  obtain ⟨cause, token⟩ := error
  obtain ⟨cause', token'⟩ := error'
  obtain ⟨sameCause, sameToken⟩ := matched
  obtain rfl : cause' = cause := sameCause
  obtain rfl : token' = token.moved (linesBehind first) (first.length + 1) := by
    split at sameToken
    · exact sameToken
    · exact sameToken
  exact ⟨rfl, rfl, rfl⟩

namespace Session

/--
What a run of joined texts shares with the runs of the texts, one after the other.
-/
structure Joins
    (session : Session)
    (first second : String)
    (firstRun secondRun whole : SourceRun) :
    Prop where
  output : whole.output = firstRun.output ++ secondRun.output
  environment : whole.session.environment = secondRun.session.environment
  status : whole.status = secondRun.status
  stopped :
    secondRun.status = .runtimeError →
      ∃ kind fault fault',
        secondRun.faults = [fault] ∧
          secondRun.session.sink =
            (firstRun.session.sink.prepare second).receive fault ∧
          whole.faults = [fault'] ∧
          whole.session.sink =
            (session.sink.prepare (first ++ "\n" ++ second)).receive fault' ∧
          fault.origin = .runtime kind ∧
          fault'.origin = .runtime kind ∧
          fault'.message = fault.message ∧
          fault'.line = fault.line + linesBehind first

variable {session : Session} {first second source : String}
  {run firstRun : SourceRun}

/-- A run to the end is that of a program that was interpreted to its end. -/
theorem exists_interpret_of_ok
    (runs : session.Runs source run)
    (finished : run.status = .ok) :
    (Analysis.ofSource source).faults = [] ∧
      ∃ budget state,
        Evaluation.interpret session.settings budget
          (Analysis.ofSource source).reading.found
            (.start session.environment session.loopDepth) = some (true, state) ∧
          run = session.runOf source (true, state) := by
  obtain ⟨budget, ran⟩ := runs
  rcases cases_of_run? ran with
    ⟨-, rfl⟩ | ⟨clean, succeeded, state, interpreted, rfl⟩
  · cases finished
  · cases succeeded with
    | true => exact ⟨clean, budget, state, interpreted, rfl⟩
    | false => cases finished

/-- A run that only one fault was found in has told its sink of that. -/
theorem sink_of_faults
    {fault : Fault}
    (runs : session.Runs source run)
    (found : run.faults = [fault]) :
    run.session.sink = (session.sink.prepare source).receive fault := by
  obtain ⟨budget, ran⟩ := runs
  have told : (session.sink.prepare source).receiveAll run.events =
      run.faults.foldl Sink.receive (session.sink.prepare source) :=
    rfl
  rw [sink_of_run? ran, told, found]
  rfl

/-- The error that stops an interpretation is the only fault of that. -/
theorem faults_of_stopped
    {settings : Evaluation.Settings}
    {budget : Nat}
    {program : Program}
    {state before : Evaluation.State}
    {error : RuntimeError}
    {finished : Bool}
    (clean : state.faults = [])
    (ended :
      Evaluation.interpret settings budget program state =
        some (finished, before.recordError settings error)) :
    (before.recordError settings error).faults = [error.fault] := by
  have recorded := Evaluation.faults_recordError before settings error
  have noneBefore : before.faults = [] := by
    rcases Evaluation.faults_interpret ended with ⟨-, found⟩ | ⟨other, -, found⟩
    · rw [recorded, clean] at found
      simp at found
    · rw [recorded, clean] at found
      simpa using congrArg List.length found
  rw [recorded, noneBefore]
  rfl

/-- Interpretations that ended alike make runs that join. -/
theorem joins_of_interpreted
    {between after after' : Evaluation.State}
    {finished : Bool}
    {budget budget' : Nat}
    (secondClean : (Analysis.ofSource second).faults = [])
    (wholeClean : (Analysis.ofSource (first ++ "\n" ++ second)).faults = [])
    (betweenClean : between.faults = [])
    {program program' : Program}
    (ended :
      Evaluation.interpret session.settings budget program
        (.start between.environment between.loopDepth) = some (finished, after))
    (ended' :
      Evaluation.interpret session.settings budget' program' between =
        some (finished, after'))
    (interpreted :
      Evaluation.Interpreted session.settings (joinedTokens first)
        (Evaluation.State.Paired Eq (Evaluation.Continues between.log))
          finished after after') :
    let firstRun := session.runOf first (true, between)
    let secondRun := firstRun.session.runOf second (finished, after)
    let whole := session.runOf (first ++ "\n" ++ second) (finished, after')
    firstRun.session.Runs second secondRun →
      session.Runs (first ++ "\n" ++ second) whole →
        session.Joins first second firstRun secondRun whole := by
  intro firstRun secondRun whole secondRuns wholeRuns
  obtain ⟨sameEnvironment, output⟩ := interpreted.output
  constructor
  case output =>
    rw [output_runOf, output_runOf, output_runOf]
    exact output
  case environment => exact sameEnvironment
  case status => rfl
  case stopped =>
    intro stopped
    cases interpreted with
    | finished paired => cases stopped
    | @stopped before before' error error' paired matched =>
        have found : secondRun.faults = [error.fault] :=
          (faults_runOf _ secondClean _).trans (faults_of_stopped rfl ended)
        have found' : whole.faults = [error'.fault] :=
          (faults_runOf _ wholeClean _).trans
            (faults_of_stopped betweenClean ended')
        obtain ⟨kind, message, line⟩ := fault_of_matches matched
        refine ⟨error.kind, error.fault, error'.fault, found,
          sink_of_faults secondRuns found, found', sink_of_faults wholeRuns found',
          rfl, ?_, message, ?_⟩
        · exact congrArg Origin.runtime kind
        · simp [RuntimeError.fault, line]

/--
Where the run of the first of two joined texts ends and that of the second begins.
-/
structure Seam
    (session : Session)
    (first second : String)
    (budget : Nat)
    (between : Evaluation.State)
    (moved : Program) :
    Prop where
  secondClean : (Analysis.ofSource second).faults = []
  wholeClean : (Analysis.ofSource (first ++ "\n" ++ second)).faults = []
  betweenClean : between.faults = []
  correspond :
    Stmt.Correspond (joinedTokens first) (fun _ => True) 0
      (Analysis.ofSource second).reading.found moved
  /--
  With rounds enough for the first text, the joined texts go on with the second.
  -/
  goesOn :
    ∀ enough,
      budget ≤ enough →
        session.run? enough (first ++ "\n" ++ second) =
          (Evaluation.interpret session.settings enough moved between).map
            (session.runOf (first ++ "\n" ++ second))

/-- Where both texts are clean and the first one ends well, a seam joins them. -/
theorem exists_seam
    (runs : session.Runs first firstRun)
    (finished : firstRun.status = .ok)
    (secondClean : (Analysis.ofSource second).faults = []) :
    ∃ budget between moved,
      firstRun = session.runOf first (true, between) ∧
        session.Seam first second budget between moved := by
  obtain ⟨firstClean, budget, between, interpreted, rfl⟩ :=
    exists_interpret_of_ok runs finished
  obtain ⟨wholeClean, moved, found, correspond⟩ :=
    exists_found_append firstClean secondClean
  refine ⟨budget, between, moved, rfl, secondClean, wholeClean, ?_, correspond, ?_⟩
  · rcases Evaluation.faults_interpret interpreted with
      ⟨-, clean⟩ | ⟨error, unfinished, -⟩
    · exact clean
    · cases unfinished
  · intro enough more
    rw [run?_of_clean enough session wholeClean, found,
      Evaluation.interpret_append (Evaluation.interpret_mono more interpreted)]

section Seam

variable {budget : Nat} {between : Evaluation.State} {moved : Program}

/-- Behind the seam, the second text starts as on its own, with an empty log. -/
theorem paired_seam
    (between : Evaluation.State) :
    Evaluation.State.Paired Eq (Evaluation.Continues between.log)
      (Evaluation.State.start between.environment between.loopDepth).atGlobals
      between.atGlobals :=
  ⟨rfl, rfl, rfl⟩

theorem Seam.run?_second
    (seam : session.Seam first second budget between moved)
    (enough : Nat) :
    (session.runOf first (true, between)).session.run? enough second =
      (Evaluation.interpret session.settings enough
        (Analysis.ofSource second).reading.found
        (.start between.environment between.loopDepth)).map
          ((session.runOf first (true, between)).session.runOf second) :=
  run?_of_clean enough _ seam.secondClean

/-- Rounds enough for both parts are enough for the whole. -/
theorem Seam.exists_whole
    (seam : session.Seam first second budget between moved)
    {secondRun : SourceRun}
    (secondRuns :
      (session.runOf first (true, between)).session.Runs second secondRun) :
    ∃ whole,
      session.Runs (first ++ "\n" ++ second) whole ∧
        session.Joins first second (session.runOf first (true, between))
          secondRun whole := by
  obtain ⟨rounds, ran⟩ := secondRuns
  have interpreted := ran
  rw [seam.run?_second] at interpreted
  obtain ⟨⟨succeeded, after⟩, ended, rfl⟩ := Option.map_eq_some_iff.mp interpreted
  have simulation :=
    Evaluation.simulation_continues (faithful_joinedTokens first) between.log
  obtain ⟨after', ended', alike⟩ :=
    simulation.exists_interpret (Nat.le_max_right budget rounds) seam.correspond
      (paired_seam between) ended
  have wholeRuns : session.Runs (first ++ "\n" ++ second)
      (session.runOf (first ++ "\n" ++ second) (succeeded, after')) :=
    ⟨max budget rounds, (seam.goesOn _ (Nat.le_max_left budget rounds)).trans
      (Option.map_eq_some_iff.mpr ⟨_, ended', rfl⟩)⟩
  exact ⟨_, wholeRuns, joins_of_interpreted seam.secondClean seam.wholeClean
    seam.betweenClean ended ended' alike ⟨rounds, ran⟩ wholeRuns⟩

/-- Rounds enough for the whole are enough for its second part. -/
theorem Seam.exists_second
    (seam : session.Seam first second budget between moved)
    {whole : SourceRun}
    (wholeRuns : session.Runs (first ++ "\n" ++ second) whole) :
    ∃ secondRun,
      (session.runOf first (true, between)).session.Runs second secondRun := by
  obtain ⟨rounds, ran⟩ := wholeRuns
  have interpreted := run?_mono (Nat.le_max_right budget rounds) ran
  rw [seam.goesOn _ (Nat.le_max_left budget rounds)] at interpreted
  obtain ⟨⟨succeeded, after'⟩, ended', -⟩ := Option.map_eq_some_iff.mp interpreted
  have simulation :=
    Evaluation.simulation_continues (faithful_joinedTokens first) between.log
  obtain ⟨after, ended, -⟩ :=
    simulation.flip.exists_interpret (Nat.le_refl _) seam.correspond.flip
      (paired_seam between).flip ended'
  exact ⟨_, max budget rounds, (seam.run?_second _).trans
    (Option.map_eq_some_iff.mpr ⟨_, ended, rfl⟩)⟩

end Seam

/--
Texts run one after the other, the first to its end, do what both joined by a line
feed do at once, whether or not the second stops with an error.
-/
theorem joins_of_runs
    {session : Session}
    {first second : String}
    {firstRun : SourceRun}
    (runs : session.Runs first firstRun)
    (finished : firstRun.status = .ok)
    (scanned : (Lexer.scan second).errors = [])
    (read : (readProgram (Lexer.scan second).stream.tokens).errors = []) :
    ((∃ secondRun, firstRun.session.Runs second secondRun) ↔
        ∃ whole, session.Runs (first ++ "\n" ++ second) whole) ∧
      ∀ secondRun whole,
        firstRun.session.Runs second secondRun →
          session.Runs (first ++ "\n" ++ second) whole →
            session.Joins first second firstRun secondRun whole := by
  have secondClean : (Analysis.ofSource second).faults = [] :=
    Analysis.faults_eq_nil_iff.mpr ⟨scanned, read⟩
  obtain ⟨budget, between, moved, rfl, seam⟩ :=
    exists_seam runs finished secondClean
  refine ⟨⟨?_, ?_⟩, ?_⟩
  · intro ended
    obtain ⟨secondRun, secondRuns⟩ := ended
    obtain ⟨whole, wholeRuns, -⟩ := seam.exists_whole secondRuns
    exact ⟨whole, wholeRuns⟩
  · intro ended
    obtain ⟨whole, wholeRuns⟩ := ended
    exact seam.exists_second wholeRuns
  · intro secondRun whole secondRuns wholeRuns
    obtain ⟨other, otherRuns, joins⟩ := seam.exists_whole secondRuns
    rwa [otherRuns.unique wholeRuns]

/-- A second text that stops at a name that neither text defines. -/
theorem joins_undefined :
    let session := fresh ⟨false, false⟩ (.reporter (.fresh none true))
    ∃ firstRun secondRun whole,
      session.Runs "var a =\n true;" firstRun ∧
        firstRun.session.Runs "print a; print b;" secondRun ∧
        secondRun.status = .runtimeError ∧
        session.Runs ("var a =\n true;" ++ "\n" ++ "print a; print b;") whole ∧
        session.Joins "var a =\n true;" "print a; print b;" firstRun
          secondRun whole := by
  intro session
  have ends : (session.run? 1 "var a =\n true;").any (fun firstRun =>
      firstRun.status == .ok &&
        (firstRun.session.run? 1 "print a; print b;").any
          (·.status == .runtimeError)) = true := by
    decide +kernel
  obtain ⟨firstRun, firstRan, both⟩ := (Option.any_eq_true _ _).mp ends
  obtain ⟨finished, second⟩ := Bool.and_eq_true_iff.mp both
  obtain ⟨secondRun, secondRan, stopped⟩ := (Option.any_eq_true _ _).mp second
  have secondRuns : firstRun.session.Runs "print a; print b;" secondRun :=
    ⟨1, secondRan⟩
  have joined := joins_of_runs ⟨1, firstRan⟩ (by simpa using finished)
    (show (Lexer.scan "print a; print b;").errors = [] by decide +kernel)
      (by decide +kernel)
  obtain ⟨whole, wholeRuns⟩ := joined.1.mp ⟨secondRun, secondRuns⟩
  exact ⟨firstRun, secondRun, whole, ⟨1, firstRan⟩, secondRuns,
    by simpa using stopped, wholeRuns,
    joined.2 secondRun whole secondRuns wholeRuns⟩

end Session

end Lox
