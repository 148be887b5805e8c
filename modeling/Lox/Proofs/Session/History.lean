import Lox.Proofs.Session.Call
import Mathlib.Logic.Relation

namespace Lox.Session

/-!
# Sessions over many texts

A session runs one text after another.  Whatever was run before, and however it
ended, each text is settled by itself: its reporter holds the errors of this text
only, and everything but the global scope is as in a fresh session.
-/

/-- One session becomes another by the run of a text. -/
def Step
    (before after : Session) :
    Prop :=
  ∃ budget source run, before.run? budget source = some run ∧ run.session = after

/-- One session becomes another by the runs of texts, one after the other. -/
def LeadsTo :
    Session → Session → Prop :=
  Relation.ReflTransGen Step

/-- The sessions that runs of texts make of a fresh one. -/
def Reachable
    (settings : Evaluation.Settings)
    (sink : Sink)
    (session : Session) :
    Prop :=
  (fresh settings sink).LeadsTo session

section LeadsTo

variable {before after : Session}

/-- No name disappears from the global scope, and none moves. -/
theorem LeadsTo.names
    (leads : before.LeadsTo after) :
    before.environment.globals.names <+: after.environment.globals.names := by
  induction leads with
  | refl => exact List.prefix_rfl
  | tail _ step inductionHypothesis =>
      obtain ⟨budget, source, run, ran, rfl⟩ := step
      exact inductionHypothesis.trans (names_of_run? ran)

/-- A session keeps its settings. -/
theorem LeadsTo.settings
    (leads : before.LeadsTo after) :
    after.settings = before.settings := by
  induction leads with
  | refl => rfl
  | tail _ step inductionHypothesis =>
      obtain ⟨budget, source, run, ran, rfl⟩ := step
      exact (settings_of_run? ran).trans inductionHypothesis

/-- Between two texts a session stands at its globals. -/
theorem LeadsTo.atGlobals
    (leads : before.LeadsTo after)
    (atGlobals : before.AtGlobals) :
    after.AtGlobals := by
  induction leads with
  | refl => exact atGlobals
  | tail _ step inductionHypothesis =>
      obtain ⟨budget, source, run, ran, rfl⟩ := step
      exact inductionHypothesis.of_run? ran

/-- A session keeps its reporter, which keeps the way it shows reports. -/
theorem LeadsTo.reporting
    (leads : before.LeadsTo after)
    {recorder : Reporter}
    (reporting : before.sink = .reporter recorder) :
    ∃ told : Reporter,
      after.sink = .reporter told ∧ told.showContext = recorder.showContext := by
  induction leads with
  | refl => exact ⟨recorder, reporting, rfl⟩
  | tail _ step inductionHypothesis =>
      obtain ⟨budget, source, run, ran, rfl⟩ := step
      obtain ⟨between, betweenReporting, sameBetween⟩ := inductionHypothesis
      obtain ⟨told, toldReporting, -, -, sameTold⟩ :=
        holds_of_run? betweenReporting ran
      exact ⟨told, toldReporting, sameTold.trans sameBetween⟩

end LeadsTo

/-- A fresh session stands at its globals. -/
theorem atGlobals_fresh
    (settings : Evaluation.Settings)
    (sink : Sink) :
    (fresh settings sink).AtGlobals :=
  ⟨rfl, rfl, rfl⟩

section Dependence

variable {session other : Session} {recorder told : Reporter}

/--
A reporter shows after its reset what its way of showing reports makes of a source.
-/
theorem prepare_reporter
    (sameContext : told.showContext = recorder.showContext)
    (source : String) :
    (Sink.reporter told).prepare source =
      (Sink.reporter recorder).prepare source := by
  simp [Sink.prepare, Reporter.reset, sameContext]

/--
Outside of scopes and loops, a run depends on
nothing but the settings and the globals.
-/
theorem run?_eq_of_globals
    (settings : other.settings = session.settings)
    (atGlobals : session.AtGlobals)
    (otherAtGlobals : other.AtGlobals)
    (globals : other.environment.globals = session.environment.globals)
    {source : String}
    (prepared : other.sink.prepare source = session.sink.prepare source)
    (budget : Nat) :
    other.run? budget source = session.run? budget source := by
  have environment : other.environment = session.environment := by
    rw [otherAtGlobals.environment_eq, atGlobals.environment_eq, globals]
  have loopDepth : other.loopDepth = session.loopDepth :=
    otherAtGlobals.loopDepth.trans atGlobals.loopDepth.symm
  simp only [run?, afterReading, afterRunning, skippedEvents, settings, environment,
    loopDepth, prepared]

end Dependence

/--
What the status of a run tells about the reporter, the output and the global scope.
-/
structure Settled
    (session : Session)
    (source : String)
    (run : SourceRun)
    (told : Reporter) :
    Prop where
  sink : run.session.sink = .reporter told
  refused_iff : run.status = .staticError ↔ told.hadError = true
  faulty_iff :
    told.hadError = true ↔
      (Lexer.scan source).errors ≠ [] ∨
        (readProgram (Lexer.scan source).stream.tokens).errors ≠ []
  refused :
    run.status = .staticError →
      told.reports =
          (Lexer.scan source).errors.map (fun error => told.reportOf error.fault) ++
            (readProgram (Lexer.scan source).stream.tokens).errors.map
              (fun error =>
                told.reportOf (error.fault (Lexer.scan source).stream.finish)) ∧
        told.hadRuntimeError = false ∧
        run.output = [] ∧
        run.session.environment = session.environment
  stopped_iff : run.status = .runtimeError ↔ told.hadRuntimeError = true
  stopped :
    run.status = .runtimeError →
      ∃ report, told.reports = [report] ∧ report.stage = .runtime ∧
        told.hadError = false
  finished_iff : run.status = .ok ↔ told.reports = []

/-- Faults of a text are found before anything runs. -/
theorem isStatic_of_mem_faults
    {analysis : Analysis}
    {fault : Fault}
    (member : fault ∈ analysis.faults) :
    fault.origin.stage.isStatic = true := by
  rw [Analysis.faults_eq] at member
  rcases List.mem_append.mp member with lexical | grammar
  · obtain ⟨error, -, rfl⟩ := List.mem_map.mp lexical
    rfl
  · obtain ⟨⟨cause, remaining⟩, -, rfl⟩ := List.mem_map.mp grammar
    cases remaining with
    | nil => rfl
    | cons blamed rest => rfl

theorem any_isStatic_faults
    (analysis : Analysis) :
    analysis.faults.any (fun fault => fault.origin.stage.isStatic) = true ↔
      analysis.faults ≠ [] := by
  constructor
  · intro some none
    simp [none] at some
  · intro faulty
    obtain ⟨fault, member⟩ := List.exists_mem_of_ne_nil _ faulty
    exact List.any_eq_true.mpr ⟨fault, member, isStatic_of_mem_faults member⟩

theorem any_not_isStatic_faults
    (analysis : Analysis) :
    analysis.faults.any (fun fault => !fault.origin.stage.isStatic) = false := by
  apply List.any_eq_false.mpr
  intro fault member
  simp [isStatic_of_mem_faults member]

/-- A run whose faults the reporter holds is settled. -/
theorem settled_of_holds
    {budget : Nat}
    {session : Session}
    {source : String}
    {run : SourceRun}
    {told : Reporter}
    (ran : session.run? budget source = some run)
    (sink : run.session.sink = .reporter told)
    (holds : told.Holds run.faults) :
    session.Settled source run told := by
  have faulty_iff : (Analysis.ofSource source).faults ≠ [] ↔
      (Lexer.scan source).errors ≠ [] ∨
        (readProgram (Lexer.scan source).stream.tokens).errors ≠ [] := by
    rw [ne_eq, Analysis.faults_eq_nil_iff, not_and_or]
    rfl
  obtain ⟨-, reports, hadError, hadRuntimeError⟩ := holds
  cases ends_of_run? ran with
  | refused faulty status found output environment =>
      rw [found] at reports hadError hadRuntimeError
      have failed : told.hadError = true := by
        rw [hadError]
        exact (any_isStatic_faults _).mpr faulty
      have neverRan : told.hadRuntimeError = false := by
        rw [hadRuntimeError]
        exact any_not_isStatic_faults _
      have allReports := reports
      rw [Analysis.faults_eq, List.map_append, List.map_map,
        List.map_map] at allReports
      refine ⟨sink, ?_, ?_, ?_, ?_, ?_, ?_⟩
      · simp [status, failed]
      · simpa [failed] using faulty_iff.mp faulty
      · intro _
        exact ⟨allReports, neverRan, output, environment⟩
      · simp [status, neverRan]
      · intro stopped
        rw [status] at stopped
        cases stopped
      · simp [status, reports, faulty]
  | finished clean status found =>
      rw [found] at reports hadError hadRuntimeError
      have unfailed : told.hadError = false := hadError
      have unstopped : told.hadRuntimeError = false := hadRuntimeError
      have noFault := mt faulty_iff.mpr (not_not.mpr clean)
      refine ⟨sink, ?_, ?_, ?_, ?_, ?_, ?_⟩
      · simp [status, unfailed]
      · simpa [unfailed] using noFault
      · intro refused
        rw [status] at refused
        cases refused
      · simp [status, unstopped]
      · intro stopped
        rw [status] at stopped
        cases stopped
      · simp [status, reports]
  | @stopped error clean status found =>
      rw [found] at reports hadError hadRuntimeError
      have unfailed : told.hadError = false := hadError
      have stopped : told.hadRuntimeError = true := hadRuntimeError
      have noFault := mt faulty_iff.mpr (not_not.mpr clean)
      refine ⟨sink, ?_, ?_, ?_, ?_, ?_, ?_⟩
      · simp [status, unfailed]
      · simpa [unfailed] using noFault
      · intro refused
        rw [status] at refused
        cases refused
      · simp [status, stopped]
      · intro _
        refine ⟨told.reportOf error.fault, reports, ?_, unfailed⟩
        rw [Reporter.stage_reportOf]
        rfl
      · simp [status, reports]

/-- What holds of the run of a text, whatever the session ran before. -/
structure RunsApart
    (settings : Evaluation.Settings)
    (recorder : Reporter)
    (session : Session)
    (source : String) :
    Prop where
  /--
  Status, reports, output and global scope agree,
  and the global scope keeps its names.
  -/
  settled :
    ∀ budget run,
      session.run? budget source = some run →
        (∃ told, session.Settled source run told) ∧
          session.environment.globals.names <+:
            run.session.environment.globals.names
  /-- A text with errors is refused whatever the budget. -/
  refuses :
    (Lexer.scan source).errors ≠ [] ∨
        (readProgram (Lexer.scan source).stream.tokens).errors ≠ [] →
      ∀ budget, ∃ run, session.run? budget source = some run
  /-- No later text removes a name. -/
  names :
    ∀ later,
      session.LeadsTo later →
        session.environment.globals.names <+: later.environment.globals.names
  /-- Only the text and the global scope make a difference to a run. -/
  independent :
    ∀ other,
      Reachable settings (.reporter recorder) other →
        other.environment.globals = session.environment.globals →
          (∀ budget, other.run? budget source = session.run? budget source) ∧
            ∀ budget budget' run run',
              session.run? budget source = some run →
                other.run? budget' source = some run' → run' = run

/--
In every session that can be reached from a fresh one, a text runs as its own errors
and the global scope say, whatever was run, refused or failed before: nothing of an
earlier text is left but the names that it defined and their values.
-/
theorem runsApart_of_reachable
    {settings : Evaluation.Settings}
    {recorder : Reporter}
    {session : Session}
    (reachable : Reachable settings (.reporter recorder) session)
    (source : String) :
    RunsApart settings recorder session source := by
  obtain ⟨known, reporting, sameContext⟩ := LeadsTo.reporting reachable rfl
  constructor
  case settled =>
    intro budget run ran
    obtain ⟨told, sink, holds, -, -⟩ := holds_of_run? reporting ran
    exact ⟨⟨told, settled_of_holds ran sink holds⟩, names_of_run? ran⟩
  case refuses =>
    intro faulty budget
    have found : (Analysis.ofSource source).faults ≠ [] := by
      rw [ne_eq, Analysis.faults_eq_nil_iff, not_and_or]
      exact faulty
    exact ⟨_, run?_of_faults budget session found⟩
  case names =>
    intro later leads
    exact leads.names
  case independent =>
    intro other otherReachable globals
    obtain ⟨otherKnown, otherReporting, otherContext⟩ :=
      LeadsTo.reporting otherReachable rfl
    have prepared : other.sink.prepare source = session.sink.prepare source := by
      rw [reporting, otherReporting]
      exact prepare_reporter (otherContext.trans sameContext.symm) source
    have same : ∀ budget, other.run? budget source = session.run? budget source :=
      run?_eq_of_globals
        ((LeadsTo.settings otherReachable).trans (LeadsTo.settings reachable).symm)
        (LeadsTo.atGlobals reachable (atGlobals_fresh _ _))
        (LeadsTo.atGlobals otherReachable (atGlobals_fresh _ _)) globals prepared
    refine ⟨same, ?_⟩
    intro budget budget' run run' ran ran'
    rw [same] at ran'
    exact run?_unique ran ran'

/-- A text that is refused after another one failed, with what that one defined. -/
theorem runsApart_after_failure :
    ∃ session run told,
      Reachable ⟨true, false⟩ (.reporter (.fresh none true)) session ∧
        session.environment.globals.names = ["x"] ∧
        session.run? 1 "print ;" = some run ∧
        told.hadError = true ∧
        session.Settled "print ;" run told ∧
        RunsApart ⟨true, false⟩ (.fresh none true) session "print ;" := by
  have failed :
      ((fresh ⟨true, false⟩ (.reporter (.fresh none true))).run? 1 "var x; x;").any
        (fun run => run.session.environment.globals.names == ["x"]) = true := by
    decide +kernel
  obtain ⟨earlier, ranEarlier, names⟩ := (Option.any_eq_true _ _).mp failed
  have reachable :
      Reachable ⟨true, false⟩ (.reporter (.fresh none true)) earlier.session :=
    .single ⟨1, "var x; x;", earlier, ranEarlier, rfl⟩
  have faulty : (readProgram (Lexer.scan "print ;").stream.tokens).errors ≠ [] := by
    decide +kernel
  have apart := runsApart_of_reachable reachable "print ;"
  obtain ⟨run, ran⟩ := apart.refuses (.inr faulty) 1
  obtain ⟨⟨told, settled⟩, -⟩ := apart.settled 1 run ran
  exact ⟨earlier.session, run, told, reachable, by simpa using names, ran,
    settled.faulty_iff.mpr (.inr faulty), settled, apart⟩

end Lox.Session
