import Lox.Proofs.Evaluation.Blame
import Lox.Proofs.Evaluation.Simulation
import Lox.Proofs.Scoping.Restoration
import Lox.Session

namespace Lox

/-!
# The run of one text

A text with errors is refused and leaves the global scope as it is.  Any
other text is run to its end, or up to the first runtime error.  What is
reported are the faults among the events of the run, in order, to a
reporter that forgot all earlier ones.
-/

/-- Where traces are not selected, it makes no difference whether there is one. -/
theorem filterMap_traced
    (select : Event → Option α)
    (unselected : ∀ text, select (.traced text) = none)
    (tracing : Bool)
    (text : String) :
    (if tracing then [Event.traced text] else []).filterMap select = [] := by
  split
  · simp [unselected]
  · rfl

/-- The faults among the events of a scan are those of its errors. -/
theorem Lexer.Scan.fault?_events
    (scan : Lexer.Scan)
    (tracing : Bool) :
    (scan.events tracing).filterMap Event.fault? =
      scan.errors.map Lexer.LexicalError.fault := by
  have untraced := filterMap_traced Event.fault? (fun _ => rfl) tracing
  simp [Lexer.Scan.events, untraced, List.filterMap_map,
    Function.comp_def, Event.fault?]

/-- A note reports a fault if it carries an error. -/
theorem Note.fault?_event?
    (finish : EndMark)
    (tracing : Bool)
    (note : Note) :
    (note.event? finish tracing).bind Event.fault? =
      note.error?.map (GrammarError.fault finish) := by
  cases note with
  | failed error => rfl
  | parsed nodeClass line =>
      cases tracing with
      | false => rfl
      | true => rfl

/-- No note prints anything. -/
theorem Note.printedText?_event?
    (finish : EndMark)
    (tracing : Bool)
    (note : Note) :
    (note.event? finish tracing).bind Event.printedText? = none := by
  cases note with
  | failed error => rfl
  | parsed nodeClass line =>
      cases tracing with
      | false => rfl
      | true => rfl

/-- The faults among the events of a reading are those of its errors. -/
theorem Reading.fault?_noteEvents
    (reading : Reading α)
    (finish : EndMark)
    (tracing : Bool) :
    (reading.noteEvents finish tracing).filterMap Event.fault? =
      reading.errors.map (GrammarError.fault finish) := by
  simp [noteEvents, errors, List.filterMap_filterMap, List.map_filterMap,
    Note.fault?_event?]

namespace Analysis

/-- The faults found by an analysis, the lexical ones first. -/
theorem fault?_events
    (analysis : Analysis)
    (tracing : Bool) :
    (analysis.events tracing).filterMap Event.fault? =
      analysis.scan.errors.map Lexer.LexicalError.fault ++
        analysis.reading.errors.map
          (GrammarError.fault analysis.scan.stream.finish) := by
  have untraced := filterMap_traced Event.fault? (fun _ => rfl) tracing
  simp [Analysis.events, Reading.programEvents, Lexer.Scan.fault?_events,
    Reading.fault?_noteEvents, untraced]

/-- The faults of a text are those of its scan and then those of its reading. -/
theorem faults_eq
    (analysis : Analysis) :
    analysis.faults =
      analysis.scan.errors.map Lexer.LexicalError.fault ++
        analysis.reading.errors.map
          (GrammarError.fault analysis.scan.stream.finish) :=
  analysis.fault?_events false

/-- A text is without faults if its scan and its reading are without errors. -/
theorem faults_eq_nil_iff
    {analysis : Analysis} :
    analysis.faults = [] ↔
      analysis.scan.errors = [] ∧ analysis.reading.errors = [] := by
  simp [faults_eq]

/-- An analysis prints nothing. -/
theorem printedText?_events
    (analysis : Analysis)
    (tracing : Bool) :
    (analysis.events tracing).filterMap Event.printedText? = [] := by
  have untraced := filterMap_traced Event.printedText? (fun _ => rfl) tracing
  simp [Analysis.events, Lexer.Scan.events, Reading.programEvents,
    Reading.noteEvents, untraced, List.filterMap_filterMap, List.filterMap_map,
    Function.comp_def, Event.printedText?, Note.printedText?_event?]

/-- A text with faults has no program. -/
theorem program?_of_faults
    {analysis : Analysis}
    (faulty : analysis.faults ≠ []) :
    analysis.program? = none := by
  simp [program?, faulty]

/-- A text without faults has the program that was found. -/
theorem program?_of_clean
    {analysis : Analysis}
    (clean : analysis.faults = []) :
    analysis.program? = some analysis.reading.found := by
  simp [program?, clean]

end Analysis

/-- A reporter holds the reports of some faults and of nothing else. -/
structure Reporter.Holds
    (recorder : Reporter)
    (faults : List Fault) :
    Prop where
  told : recorder.faults = faults
  reports : recorder.reports = faults.map recorder.reportOf
  hadError : recorder.hadError = faults.any fun fault => fault.origin.stage.isStatic
  hadRuntimeError :
    recorder.hadRuntimeError = faults.any fun fault => !fault.origin.stage.isStatic

namespace Reporter

/-- A report is of the stage that found its fault. -/
@[simp] theorem stage_reportOf
    (recorder : Reporter)
    (fault : Fault) :
    (recorder.reportOf fault).stage = fault.origin.stage := by
  obtain ⟨origin, line, location, message, offset⟩ := fault
  cases origin with
  | lexical => rfl
  | grammar => rfl
  | runtime kind => rfl

/-- A reporter that is reset holds no faults. -/
theorem holds_reset
    (recorder : Reporter)
    (source : Option String) :
    (recorder.reset source).Holds [] :=
  ⟨rfl, rfl, rfl, rfl⟩

/-- Being told of a fault adds its report and nothing else. -/
theorem Holds.receive
    {recorder : Reporter}
    {faults : List Fault}
    (holds : recorder.Holds faults)
    (fault : Fault) :
    (recorder.receive fault).Holds (faults ++ [fault]) := by
  have sameReports : (recorder.receive fault).reportOf = recorder.reportOf := by
    funext other
    exact reportOf_receive recorder fault other
  constructor
  · rw [receive_faults, holds.told]
  · rw [receive_reports, holds.reports, sameReports]
    simp
  · have hadError : (recorder.receive fault).hadError =
        (recorder.hadError || (recorder.reportOf fault).stage.isStatic) := rfl
    simp [hadError, holds.hadError]
  · have hadRuntimeError : (recorder.receive fault).hadRuntimeError =
        (recorder.hadRuntimeError || !(recorder.reportOf fault).stage.isStatic) :=
          rfl
    simp [hadRuntimeError, holds.hadRuntimeError]

/-- A reporter told of faults one by one holds them all, for the source it had. -/
theorem Holds.receiveAll
    {recorder : Reporter}
    {earlier : List Fault}
    (holds : recorder.Holds earlier)
    (faults : List Fault) :
    ∃ told : Reporter,
      faults.foldl Sink.receive (.reporter recorder) = .reporter told ∧
        told.Holds (earlier ++ faults) ∧
        told.source = recorder.source ∧
        told.showContext = recorder.showContext := by
  induction faults generalizing recorder earlier with
  | nil =>
      exact ⟨recorder, rfl, by simpa using holds, rfl, rfl⟩
  | cons fault rest inductionHypothesis =>
      obtain ⟨told, folded, toldHolds, source, showContext⟩ :=
        inductionHypothesis (holds.receive fault)
      refine ⟨told, folded, ?_, source, showContext⟩
      simpa using toldHolds

end Reporter

/-- A sink receives events one behind the other. -/
theorem Sink.receiveAll_append
    (sink : Sink)
    (first second : List Event) :
    sink.receiveAll (first ++ second) =
      (sink.receiveAll first).receiveAll second := by
  simp [receiveAll]

namespace SourceRun

/-- The faults found while a text was read and run, in order. -/
def faults
    (run : SourceRun) :
    List Fault :=
  run.events.filterMap Event.fault?

/-- The texts that the program of a text printed, in order. -/
def output
    (run : SourceRun) :
    List String :=
  run.events.filterMap Event.printedText?

end SourceRun

namespace Session

/-- A session outside of all scopes but the global one, and of all loops. -/
structure AtGlobals
    (session : Session) :
    Prop where
  locals : session.environment.locals = []
  outer : session.environment.outer = []
  loopDepth : session.loopDepth = 0

/-- A session at its globals has the environment of its globals. -/
theorem AtGlobals.environment_eq
    {session : Session}
    (atGlobals : session.AtGlobals) :
    session.environment = .ofGlobals session.environment.globals [] := by
  obtain ⟨locals, outer, -⟩ := atGlobals
  rcases environment : session.environment with ⟨_, globals, _⟩
  rw [environment] at locals outer
  cases locals
  cases outer
  rfl

/-- The ways in which the run of a text ends, with what is reported and printed. -/
inductive Ends (session : Session) (source : String) (run : SourceRun) : Prop where
  | refused :
      (Analysis.ofSource source).faults ≠ [] →
      run.status = .staticError →
      run.faults = (Analysis.ofSource source).faults →
      run.output = [] →
      run.session.environment = session.environment →
      Ends session source run
  | finished :
      (Analysis.ofSource source).faults = [] →
      run.status = .ok →
      run.faults = [] →
      Ends session source run
  | stopped
      {error : RuntimeError} :
      (Analysis.ofSource source).faults = [] →
      run.status = .runtimeError →
      run.faults = [error.fault] →
      Ends session source run

/-- The run of a text that was refused. -/
def refusalOf
    (session : Session)
    (source : String) :
    SourceRun where
  status := .staticError
  events :=
    (Analysis.ofSource source).events session.settings.tracing ++
      session.skippedEvents (Analysis.ofSource source)
  session := session.afterReading source (Analysis.ofSource source)

/-- The run of a text whose program was interpreted. -/
def runOf
    (session : Session)
    (source : String)
    (ending : Bool × Evaluation.State) :
    SourceRun where
  status :=
    if ending.1 then .ok else .runtimeError
  events :=
    (Analysis.ofSource source).events session.settings.tracing ++ ending.2.events
  session :=
    (session.afterReading source (Analysis.ofSource source)).afterRunning ending.2

variable {budget : Nat} {session : Session} {source : String} {run : SourceRun}

/-- A text with errors is refused, however few rounds its loops may have. -/
theorem run?_of_faults
    (budget : Nat)
    (session : Session)
    (faulty : (Analysis.ofSource source).faults ≠ []) :
    session.run? budget source = some (session.refusalOf source) := by
  simp only [run?, Analysis.program?_of_faults faulty]
  rfl

/-- A text without errors is run as the program that it was read as. -/
theorem run?_of_clean
    (budget : Nat)
    (session : Session)
    (clean : (Analysis.ofSource source).faults = []) :
    session.run? budget source =
      (Evaluation.interpret session.settings budget
        (Analysis.ofSource source).reading.found
        (Evaluation.State.start session.environment session.loopDepth)).map
          (session.runOf source) := by
  simp only [run?, Analysis.program?_of_clean clean]
  rfl

/-- All that the run of a text can be. -/
theorem cases_of_run?
    (ran : session.run? budget source = some run) :
    (Analysis.ofSource source).faults ≠ [] ∧ run = session.refusalOf source ∨
      (Analysis.ofSource source).faults = [] ∧
        ∃ succeeded state,
          Evaluation.interpret session.settings budget
            (Analysis.ofSource source).reading.found
              (.start session.environment session.loopDepth) =
                some (succeeded, state) ∧
            run = session.runOf source (succeeded, state) := by
  by_cases clean : (Analysis.ofSource source).faults = []
  · rw [run?_of_clean budget session clean] at ran
    obtain ⟨⟨succeeded, state⟩, interpreted, same⟩ := Option.map_eq_some_iff.mp ran
    exact .inr ⟨clean, succeeded, state, interpreted, same.symm⟩
  · rw [run?_of_faults budget session clean] at ran
    exact .inl ⟨clean, (Option.some.inj ran).symm⟩

/-- Refusing a text is traced, and nothing else happens. -/
theorem filterMap_skippedEvents
    (select : Event → Option α)
    (unselected : ∀ text, select (.traced text) = none)
    (session : Session)
    (analysis : Analysis) :
    (session.skippedEvents analysis).filterMap select = [] :=
  filterMap_traced select unselected session.settings.tracing _

/-- Of a text without errors only the interpretation has faults. -/
theorem faults_runOf
    (session : Session)
    (clean : (Analysis.ofSource source).faults = [])
    (ending : Bool × Evaluation.State) :
    (session.runOf source ending).faults = ending.2.faults := by
  have analysed := (Analysis.ofSource source).fault?_events session.settings.tracing
  rw [← Analysis.faults_eq, clean] at analysed
  simp only [SourceRun.faults, runOf, List.filterMap_append, analysed]
  rfl

/-- What a run prints is what its events print. -/
theorem output_runOf
    (session : Session)
    (source : String)
    (ending : Bool × Evaluation.State) :
    (session.runOf source ending).output =
      ending.2.events.filterMap Event.printedText? := by
  simp [SourceRun.output, runOf, Analysis.printedText?_events]

/-- Every run of a text ends in one of the ways. -/
theorem ends_of_run?
    (ran : session.run? budget source = some run) :
    session.Ends source run := by
  rcases cases_of_run? ran with
    ⟨faulty, rfl⟩ | ⟨clean, succeeded, state, interpreted, rfl⟩
  · refine .refused faulty rfl ?_ ?_ rfl
    · have skipped := filterMap_skippedEvents Event.fault? (fun _ => rfl) session
      simp [SourceRun.faults, refusalOf, Analysis.faults_eq,
        Analysis.fault?_events, skipped]
    · have skipped :=
        filterMap_skippedEvents Event.printedText? (fun _ => rfl) session
      simp [SourceRun.output, refusalOf, Analysis.printedText?_events, skipped]
  · have reported := session.faults_runOf clean (succeeded, state)
    rcases Evaluation.faults_interpret interpreted with
      ⟨rfl, found⟩ | ⟨error, rfl, found⟩
    · exact .finished clean rfl (reported.trans found)
    · exact .stopped clean rfl (reported.trans found)

/-- A sink is told of the faults among the events of a run. -/
theorem sink_of_run?
    (ran : session.run? budget source = some run) :
    run.session.sink = (session.sink.prepare source).receiveAll run.events := by
  rcases cases_of_run? ran with ⟨-, rfl⟩ | ⟨-, succeeded, state, -, rfl⟩
  · have skipped := filterMap_skippedEvents Event.fault? (fun _ => rfl) session
      (Analysis.ofSource source)
    simp only [refusalOf, Sink.receiveAll_append]
    simp [Sink.receiveAll, skipped, afterReading]
  · exact (Sink.receiveAll_append _ _ _).symm

/-- After a text, a reporter holds the faults of that text only. -/
theorem holds_of_run?
    {recorder : Reporter}
    (reporting : session.sink = .reporter recorder)
    (ran : session.run? budget source = some run) :
    ∃ told : Reporter,
      run.session.sink = .reporter told ∧
        told.Holds run.faults ∧
        told.source = some source ∧
        told.showContext = recorder.showContext := by
  obtain ⟨told, folded, holds, sameSource, sameContext⟩ :=
    (recorder.holds_reset (some source)).receiveAll run.faults
  refine ⟨told, ?_, by simpa using holds, sameSource, sameContext⟩
  rw [sink_of_run? ran, reporting]
  exact folded

/-- A run keeps the settings of its session. -/
theorem settings_of_run?
    (ran : session.run? budget source = some run) :
    run.session.settings = session.settings := by
  rcases cases_of_run? ran with ⟨-, rfl⟩ | ⟨-, succeeded, state, -, rfl⟩
  · rfl
  · rfl

/-- A run keeps the names of the global scope, in their order. -/
theorem names_of_run?
    (ran : session.run? budget source = some run) :
    session.environment.globals.names <+:
      run.session.environment.globals.names := by
  rcases cases_of_run? ran with ⟨-, rfl⟩ | ⟨-, succeeded, state, interpreted, rfl⟩
  · exact List.prefix_rfl
  · have restored := Evaluation.interpret_restored interpreted
    have noLocals := Evaluation.locals_of_interpret interpreted
    have names := restored.scopes.active.names
    simpa [Environment.active, noLocals, Evaluation.State.atGlobals,
      Evaluation.State.start, runOf, afterRunning] using names

/-- A run leaves all scopes but the global one, and all loops. -/
theorem AtGlobals.of_run?
    (atGlobals : session.AtGlobals)
    (ran : session.run? budget source = some run) :
    run.session.AtGlobals := by
  rcases cases_of_run? ran with ⟨-, rfl⟩ | ⟨-, succeeded, state, interpreted, rfl⟩
  · exact ⟨atGlobals.locals, atGlobals.outer, atGlobals.loopDepth⟩
  · have restored := Evaluation.interpret_restored interpreted
    have noLocals := Evaluation.locals_of_interpret interpreted
    have noOuter : state.environment.outer = [] := by
      have enclosing := restored.scopes.enclosing.length_eq
      simpa [Environment.enclosing, Environment.chain, noLocals, atGlobals.outer,
        Evaluation.State.atGlobals, Evaluation.State.start, eq_comm] using enclosing
    exact ⟨noLocals, noOuter, restored.loops⟩

/-- More rounds than a run needs change nothing about it. -/
theorem run?_mono
    {budget' : Nat}
    (enough : budget ≤ budget')
    (ran : session.run? budget source = some run) :
    session.run? budget' source = some run := by
  rcases cases_of_run? ran with
    ⟨faulty, rfl⟩ | ⟨clean, succeeded, state, interpreted, rfl⟩
  · exact run?_of_faults budget' session faulty
  · rw [run?_of_clean budget' session clean]
    exact Option.map_eq_some_iff.mpr
      ⟨(succeeded, state), Evaluation.interpret_mono enough interpreted, rfl⟩

/-- The run of a text, however often its loops are repeated. -/
def Runs
    (session : Session)
    (source : String)
    (run : SourceRun) :
    Prop :=
  ∃ budget, session.run? budget source = some run

/-- A text has one run, whatever the budget. -/
theorem run?_unique
    {budget' : Nat}
    {run' : SourceRun}
    (ran : session.run? budget source = some run)
    (ran' : session.run? budget' source = some run') :
    run' = run := by
  rcases Nat.le_total budget budget' with less | less
  · have same := run?_mono less ran
    rw [same] at ran'
    exact (Option.some.inj ran').symm
  · have same := run?_mono less ran'
    rw [same] at ran
    exact Option.some.inj ran

/-- A source runs in one way only. -/
theorem Runs.unique
    {run' : SourceRun}
    (runs : session.Runs source run)
    (runs' : session.Runs source run') :
    run' = run := by
  obtain ⟨budget, ran⟩ := runs
  obtain ⟨budget', ran'⟩ := runs'
  exact run?_unique ran ran'

end Session

end Lox
