import Lox.Proofs.Evaluation.Shown
import Lox.Proofs.Session.FrontEnds

namespace Lox

/-!
# Settings, reporters and receivers

Traces, echoes, excerpts and the kind of receiver are for those who
watch a run.  Main statement: none of them changes how the run of a text
ends and what it leaves behind, and what each of them adds to the events
or to the reports is all that it adds.
-/

open Evaluation (Settings withoutTrace withoutEchoes)

/-- Results are related in another way if each pair of related ones is. -/
theorem rel_imp
    {related related' : α → β → Prop}
    {result : Option α}
    {other : Option β}
    (rel : Option.Rel related result other)
    (imp : ∀ value value', related value value' → related' value value') :
    Option.Rel related' result other := by
  cases rel with
  | none => exact .none
  | some both => exact .some (imp _ _ both)

theorem withoutTrace_summary
    (tracing : Bool)
    (text : String) :
    withoutTrace (if tracing then [Event.traced text] else []) = [] := by
  cases tracing with
  | true => rfl
  | false => rfl

/-- Without its trace, a scan that traces has the events of one that does not. -/
theorem Lexer.Scan.withoutTrace_events
    (scan : Lexer.Scan) :
    withoutTrace (scan.events true) = scan.events false := by
  have faulted :
      withoutTrace (scan.errors.map fun error => Event.faulted error.fault) =
      scan.errors.map fun error => Event.faulted error.fault := by
    simp [withoutTrace, List.filter_eq_self, Event.tracedText?]
  rw [Lexer.Scan.events, Evaluation.withoutTrace_append,
    withoutTrace_summary, faulted]
  simp [Lexer.Scan.events]

/--
Without their trace, the notes of a reading are those of one that does not trace.
-/
theorem Reading.withoutTrace_noteEvents
    (reading : Reading α)
    (finish : EndMark) :
    withoutTrace (reading.noteEvents finish true) =
      reading.noteEvents finish false := by
  unfold Reading.noteEvents
  induction reading.notes with
  | nil => rfl
  | cons note rest inductionHypothesis =>
      cases note with
      | failed error =>
          exact congrArg (Event.faulted (error.fault finish) :: ·)
            inductionHypothesis
      | parsed nodeClass line => exact inductionHypothesis

/--
Without its trace, the reading of a program is that of one that does not trace.
-/
theorem Reading.withoutTrace_programEvents
    (reading : Reading Program)
    (finish : EndMark) :
    withoutTrace (reading.programEvents finish true) =
      reading.programEvents finish false := by
  rw [programEvents, Evaluation.withoutTrace_append, withoutTrace_summary,
    withoutTrace_noteEvents]
  simp [programEvents]

namespace Analysis

variable (analysis : Analysis)

/-- Without its trace, an analysis is one that does not trace. -/
theorem withoutTrace_events :
    withoutTrace (analysis.events true) = analysis.events false := by
  rw [Analysis.events, Evaluation.withoutTrace_append,
    Lexer.Scan.withoutTrace_events, Reading.withoutTrace_programEvents]
  rfl

/-- With any settings an analysis shows what it does. -/
theorem shownOf_events
    (settings : Settings) :
    settings.shownOf (analysis.events true) = analysis.events settings.tracing := by
  rw [Evaluation.shownOf_of_unprinted (analysis.printedText?_events true),
    withoutTrace_events]
  cases settings.tracing with
  | true => rfl
  | false => rfl

/-- The trace of an analysis does not end like that of an expression statement. -/
theorem getLast?_events :
    (analysis.events true).getLast? ≠ some Evaluation.echoLead := by
  intro last
  rw [Analysis.events, Reading.programEvents, if_pos rfl, ← List.append_assoc,
    List.getLast?_concat] at last
  have same :=
    congrArg (fun event? : Option Event => event?.bind Event.tracedText?) last
  have head :=
    congrArg (fun text? : Option String => text?.bind (·.toList.head?)) same
  simp only [Option.bind_some, Event.tracedText?, Evaluation.echoLead,
    String.toList_append] at head
  exact absurd head (by simp [toString])

end Analysis

namespace Session

/-- A session with other settings. -/
def withSettings
    (session : Session)
    (settings : Settings) :
    Session :=
  { session with settings := settings }

/-- A session that tells another receiver. -/
def withSink
    (session : Session)
    (sink : Sink) :
    Session :=
  { session with sink := sink }

end Session

namespace SourceRun

/-- Runs that end in the same way and leave the same behind, receivers aside. -/
structure EndsLike
    (run other : SourceRun) :
    Prop where
  status : other.status = run.status
  faults : other.faults = run.faults
  environment : other.session.environment = run.session.environment
  loopDepth : other.session.loopDepth = run.session.loopDepth
  lastProgram : other.session.lastProgram = run.session.lastProgram

/-- A run with some settings, and the run that echoes and traces. -/
structure Shows
    (settings : Settings)
    (run other : SourceRun) :
    Prop where
  ends : run.EndsLike other
  events : other.events = settings.shownOf run.events
  attributed : Evaluation.Attributed run.events
  sink : other.session.sink = run.session.sink

end SourceRun

namespace Session

variable {session : Session} {settings : Settings} {budget : Nat} {source : String}

/-- Runs are alike if they end in the same way and the one shows what it should. -/
theorem shows_of_events
    {run other : SourceRun}
    (ran : (session.withSettings .full).run? budget source = some run)
    (ranOther : (session.withSettings settings).run? budget source = some other)
    (status : other.status = run.status)
    (environment : other.session.environment = run.session.environment)
    (loopDepth : other.session.loopDepth = run.session.loopDepth)
    (events : other.events = settings.shownOf run.events)
    (attributed : Evaluation.Attributed run.events) :
    SourceRun.Shows settings run other := by
  have faults :
      other.events.filterMap Event.fault? = run.events.filterMap Event.fault? := by
    rw [events, Evaluation.fault?_shownOf]
  refine ⟨⟨status, faults, environment, loopDepth, ?_⟩, events, attributed, ?_⟩
  · rw [lastProgram_of_run? ran, lastProgram_of_run? ranOther]
  · rw [sink_of_run? ran, sink_of_run? ranOther, Sink.receiveAll,
      Sink.receiveAll, faults]
    rfl

/-- With any settings the same is shown of a text that is refused. -/
theorem shownOf_refusalOf
    (session : Session)
    (settings : Settings)
    (source : String) :
    ((session.withSettings settings).refusalOf source).events =
      settings.shownOf ((session.withSettings .full).refusalOf source).events := by
  have isShown :
      ∀ previous? text,
        settings.shows previous? (.traced text) = settings.tracing := by
    intro previous? text
    simp [Settings.shows, Evaluation.isEcho, Event.printedText?, Event.tracedText?]
  have skipped :
      ∀ analysis : Analysis,
        (session.withSettings .full).skippedEvents analysis =
          [.traced
            s!"Skipping execution: {analysis.faults.length} static errors"] :=
    fun _ => rfl
  have analysed := (Analysis.ofSource source).shownOf_events settings
  simp only [refusalOf, skipped, Evaluation.shownOf_append, isShown]
  exact congrArg (· ++ _) analysed.symm

/-- A text that is refused prints nothing. -/
theorem attributed_refusalOf
    (session : Session)
    (source : String) :
    Evaluation.Attributed (session.refusalOf source).events := by
  have analysed :=
    (Analysis.ofSource source).printedText?_events session.settings.tracing
  have skipped := filterMap_skippedEvents Event.printedText? (fun _ => rfl) session
    (Analysis.ofSource source)
  exact Evaluation.attributed_of_unprinted (by simp [refusalOf, analysed, skipped])

/-- What is shown of a text whose program was interpreted. -/
theorem shownOf_runOf
    (session : Session)
    (settings : Settings)
    (source : String)
    {ending ending' : Bool × Evaluation.State}
    (events : ending'.2.events = settings.shownOf ending.2.events) :
    settings.shownOf ((session.withSettings .full).runOf source ending).events =
      ((session.withSettings settings).runOf source ending').events := by
  have analysed := (Analysis.ofSource source).shownOf_events settings
  have notLead := (Analysis.ofSource source).getLast?_events
  have split : ((session.withSettings .full).runOf source ending).events =
      (Analysis.ofSource source).events true ++ ending.2.events := rfl
  rw [split, Evaluation.shownOf_append_events notLead, analysed, ← events]
  rfl

/-- A text without errors is run with other settings from the same environment. -/
theorem run?_withSettings
    (session : Session)
    (settings : Settings)
    (budget : Nat)
    (clean : (Analysis.ofSource source).faults = []) :
    (session.withSettings settings).run? budget source =
      (Evaluation.interpret settings budget (Analysis.ofSource source).reading.found
        (.start session.environment session.loopDepth)).map
          ((session.withSettings settings).runOf source) :=
  run?_of_clean budget _ clean

/-- With any settings a text is run as it is with echoes and traces. -/
theorem shows_run?
    (session : Session)
    (settings : Settings)
    (budget : Nat)
    (source : String) :
    Option.Rel (SourceRun.Shows settings)
      ((session.withSettings .full).run? budget source)
      ((session.withSettings settings).run? budget source) := by
  by_cases clean : (Analysis.ofSource source).faults = []
  · have started : Evaluation.State.Shows settings
        (Evaluation.State.start session.environment session.loopDepth).atGlobals
        (Evaluation.State.start session.environment session.loopDepth).atGlobals :=
      Evaluation.State.shows_of_silent rfl
    have interpreted :=
      Evaluation.shows_interpret budget
        (Analysis.ofSource source).reading.found started
    have ran := run?_withSettings session .full budget clean
    have ranOther := run?_withSettings session settings budget clean
    generalize Evaluation.interpret .full budget _ _ = ended at interpreted ran
    generalize Evaluation.interpret settings budget _ _ =
      ended' at interpreted ranOther
    cases interpreted with
    | none =>
        rw [ran, ranOther]
        exact .none
    | @some ending ending' both =>
        obtain ⟨sameEnd, shows⟩ := both
        rw [ran, ranOther]
        refine .some
          (shows_of_events ran ranOther ?_ shows.environment shows.loopDepth ?_ ?_)
        · simp [runOf, sameEnd]
        · exact (shownOf_runOf session settings source shows.events).symm
        · exact shows.attributed.behind_unprinted
            ((Analysis.ofSource source).printedText?_events true)
  · have ran := run?_of_faults budget (session.withSettings .full) clean
    have ranOther := run?_of_faults budget (session.withSettings settings) clean
    rw [ran, ranOther]
    exact .some (shows_of_events ran ranOther rfl rfl rfl
      (shownOf_refusalOf session settings source)
      (attributed_refusalOf (session.withSettings .full) source))

/--
Runs with two settings, each with what it shows of the run that echoes and traces.
-/
theorem shows_both
    (session : Session)
    (settings settings' : Settings)
    (budget : Nat)
    (source : String) :
    Option.Rel
      (fun run other =>
        ∃ full, (session.withSettings .full).run? budget source = some full ∧
          SourceRun.Shows settings full run ∧ SourceRun.Shows settings' full other)
      ((session.withSettings settings).run? budget source)
      ((session.withSettings settings').run? budget source) := by
  have first := shows_run? session settings budget source
  have second := shows_run? session settings' budget source
  generalize (session.withSettings .full).run? budget source =
    full? at first second ⊢
  generalize (session.withSettings settings).run? budget source = run? at first ⊢
  generalize (session.withSettings settings').run? budget source =
    other? at second ⊢
  cases first with
  | none =>
      cases second with
      | none => exact .none
  | some firstShows =>
      cases second with
      | some secondShows => exact .some ⟨_, rfl, firstShows, secondShows⟩

end Session

namespace SourceRun

variable {full run other : SourceRun} {settings : Settings}

/-- Runs end alike either way round. -/
theorem EndsLike.symm
    (like : run.EndsLike other) :
    other.EndsLike run :=
  ⟨like.status.symm, like.faults.symm, like.environment.symm, like.loopDepth.symm,
    like.lastProgram.symm⟩

/-- Runs that end like the same run end like each other. -/
theorem EndsLike.trans
    {third : SourceRun}
    (first : run.EndsLike other)
    (second : other.EndsLike third) :
    run.EndsLike third :=
  ⟨second.status.trans first.status, second.faults.trans first.faults,
    second.environment.trans first.environment,
    second.loopDepth.trans first.loopDepth,
    second.lastProgram.trans first.lastProgram⟩

/-- A run that does not echo prints what is left without the echoes. -/
theorem Shows.output
    (shows : Shows settings full run) :
    run.output =
      if settings.echo then full.output
      else (withoutEchoes full.events).filterMap Event.printedText? := by
  have untraced := Evaluation.filterMap_withoutTrace Event.printedText? fun _ => rfl
  rw [SourceRun.output, shows.events, Settings.shownOf]
  cases settings.echo <;> cases settings.tracing <;>
    simp [untraced, SourceRun.output]

end SourceRun

/-- The call that a report stands for. -/
def Report.call
    (report : Report) :
    Call :=
  if report.stage.isStatic then .static report.line report.location report.message
  else .runtime report.message report.line

/-- A report without its column and its excerpt. -/
def Report.withoutExcerpt
    (report : Report) :
    Report :=
  { report with
    column := none
    context := none }

namespace Reporter

variable (recorder : Reporter) (fault : Fault)

/-- A report of a fault calls what the fault calls. -/
theorem call_reportOf :
    (recorder.reportOf fault).call = fault.call := by
  obtain ⟨origin, line, location, message, offset⟩ := fault
  cases origin with
  | lexical => rfl
  | grammar => rfl
  | runtime kind => rfl

/-- Without its excerpt, a report is that of the fault alone. -/
theorem withoutExcerpt_reportOf :
    (recorder.reportOf fault).withoutExcerpt = fault.report none := by
  obtain ⟨origin, line, location, message, offset⟩ := fault
  cases origin with
  | lexical => rfl
  | grammar => rfl
  | runtime kind => rfl

/-- Reporters that hold the same, the excerpts in their reports aside. -/
structure HoldsLike
    (told bare : Reporter) :
    Prop where
  source : bare.source = told.source
  faults : bare.faults = told.faults
  reports :
    bare.reports.map Report.withoutExcerpt = told.reports.map Report.withoutExcerpt
  hadError : bare.hadError = told.hadError
  hadRuntimeError : bare.hadRuntimeError = told.hadRuntimeError

/-- Reporters that hold the same faults of the same text hold them alike. -/
theorem holdsLike_of_holds
    {told bare : Reporter}
    {faults : List Fault}
    (toldHolds : told.Holds faults)
    (bareHolds : bare.Holds faults)
    (source : bare.source = told.source) :
    told.HoldsLike bare where
  source := source
  faults := bareHolds.told.trans toldHolds.told.symm
  reports := by
    rw [toldHolds.reports, bareHolds.reports]
    simp [withoutExcerpt_reportOf]
  hadError := bareHolds.hadError.trans toldHolds.hadError.symm
  hadRuntimeError := bareHolds.hadRuntimeError.trans toldHolds.hadRuntimeError.symm

end Reporter

namespace Session

/-- A text is run in the same way whoever is told of its faults. -/
theorem endsLike_withSink
    (session : Session)
    (sink : Sink)
    (budget : Nat)
    (source : String) :
    Option.Rel (fun run other => run.EndsLike other ∧ other.events = run.events)
      (session.run? budget source)
        ((session.withSink sink).run? budget source) := by
  by_cases clean : (Analysis.ofSource source).faults = []
  · have ran : session.run? budget source =
        (Evaluation.interpret session.settings budget
          (Analysis.ofSource source).reading.found
          (.start session.environment session.loopDepth)).map
              (session.runOf source) :=
      run?_of_clean budget _ clean
    have ranOther : (session.withSink sink).run? budget source =
        (Evaluation.interpret session.settings budget
          (Analysis.ofSource source).reading.found
          (.start session.environment session.loopDepth)).map
            ((session.withSink sink).runOf source) := run?_of_clean budget _ clean
    rw [ran, ranOther]
    cases Evaluation.interpret session.settings budget _ _ with
    | none => exact .none
    | some ending => exact .some ⟨⟨rfl, rfl, rfl, rfl, rfl⟩, rfl⟩
  · rw [run?_of_faults budget session clean,
      run?_of_faults budget (session.withSink sink) clean]
    exact .some ⟨⟨rfl, rfl, rfl, rfl, rfl⟩, rfl⟩

/-- Runs with two receivers, each told of the faults of its run. -/
theorem endsLike_withSinks
    (session : Session)
    (sink sink' : Sink)
    (budget : Nat)
    (source : String) :
    Option.Rel
      (fun run other =>
        run.EndsLike other ∧ other.events = run.events ∧
          (session.withSink sink).run? budget source = some run ∧
            (session.withSink sink').run? budget source = some other)
      ((session.withSink sink).run? budget source)
      ((session.withSink sink').run? budget source) := by
  have alike :
      Option.Rel (fun run other => run.EndsLike other ∧ other.events = run.events)
      ((session.withSink sink).run? budget source)
      ((session.withSink sink').run? budget source) :=
    endsLike_withSink (session.withSink sink) sink' budget source
  generalize (session.withSink sink).run? budget source = run? at alike ⊢
  generalize (session.withSink sink').run? budget source = other? at alike ⊢
  cases alike with
  | none => exact .none
  | some both => exact .some ⟨both.1, both.2, rfl, rfl⟩

end Session

/-- A reader that traces and one that does not, behind the same text. -/
structure TextReader.ReadsLike
    (traced untraced : Answer α × TextReader) :
    Prop where
  value? : untraced.1.value? = traced.1.value?
  events : untraced.1.events = withoutTrace traced.1.events
  faults : untraced.2.faults = traced.2.faults

namespace TextReader

variable (faults : List Fault) (source : String)

/-- Tokens are read alike with and without a trace. -/
theorem readsLike_readTokens :
    ReadsLike ((TextReader.mk true faults).readTokens source)
      ((TextReader.mk false faults).readTokens source) :=
  ⟨rfl, ((Lexer.scan source).withoutTrace_events).symm, rfl⟩

/-- Programs are read alike with and without a trace. -/
theorem readsLike_readProgram :
    ReadsLike ((TextReader.mk true faults).readProgram source)
      ((TextReader.mk false faults).readProgram source) :=
  ⟨rfl, ((Analysis.ofSource source).withoutTrace_events).symm, rfl⟩

/-- Expressions are read alike with and without a trace. -/
theorem readsLike_readExpression :
    ReadsLike ((TextReader.mk true faults).readExpression source)
      ((TextReader.mk false faults).readExpression source) := by
  have scanned := (Lexer.scan source).withoutTrace_events
  have noted :=
    (Lox.readExpression (Lexer.scan source).stream.tokens).withoutTrace_noteEvents
      (Lexer.scan source).stream.finish
  by_cases clean : (Lexer.scan source).errors = []
  · simp only [readExpression, scan, hadError, clean, List.map_nil,
      List.isEmpty_nil, Bool.not_true, Bool.false_eq_true, ↓reduceIte]
    exact ⟨rfl, by rw [Evaluation.withoutTrace_append, scanned, noted], rfl⟩
  · have faulty : (Lexer.scan source).errors.isEmpty = false := by simpa using clean
    simp only [readExpression, scan, hadError, List.isEmpty_map, faulty,
      Bool.not_false, ↓reduceIte]
    exact ⟨rfl, scanned.symm, rfl⟩

end TextReader

/-- What those who watch the run of a text choose makes no difference to the run. -/
structure OnlyShown
    (session : Session)
    (source : String) :
    Prop where
  tokens :
    ∀ faults, TextReader.ReadsLike ((TextReader.mk true faults).readTokens source)
      ((TextReader.mk false faults).readTokens source)
  programs :
    ∀ faults, TextReader.ReadsLike ((TextReader.mk true faults).readProgram source)
      ((TextReader.mk false faults).readProgram source)
  expressions :
    ∀ faults,
      TextReader.ReadsLike ((TextReader.mk true faults).readExpression source)
        ((TextReader.mk false faults).readExpression source)
  /-- A trace adds its own lines. -/
  tracing :
    ∀ echo budget,
      Option.Rel
        (fun traced untraced =>
          traced.EndsLike untraced ∧ untraced.session.sink = traced.session.sink ∧
            untraced.output = traced.output ∧
              untraced.events = withoutTrace traced.events)
        ((session.withSettings ⟨echo, true⟩).run? budget source)
        ((session.withSettings ⟨echo, false⟩).run? budget source)
  /-- Excerpts add a column and an excerpt to the reports. -/
  excerpts :
    ∀ (recorder : Reporter) budget,
      Option.Rel
        (fun run other =>
          run.EndsLike other ∧ other.events = run.events ∧
            ∃ told bare, run.session.sink = .reporter told ∧
              other.session.sink = .reporter bare ∧
              told.HoldsLike bare)
        ((session.withSink
            (.reporter { recorder with showContext := true })).run? budget source)
        ((session.withSink
            (.reporter { recorder with showContext := false })).run? budget source)
  /-- A plain receiver is called once for each report that a reporter holds. -/
  receivers :
    ∀ recorder calls budget,
      Option.Rel
        (fun run other =>
          run.EndsLike other ∧ other.events = run.events ∧
            ∃ told, run.session.sink = .reporter told ∧
              other.session.sink = .plain (calls ++ told.reports.map Report.call))
        ((session.withSink (.reporter recorder)).run? budget source)
        ((session.withSink (.plain calls)).run? budget source)
  /-- Echoes add the texts behind the traces of expression statements. -/
  echoes :
    ∀ tracing budget,
      Option.Rel
        (fun loud quiet =>
          loud.EndsLike quiet ∧ quiet.session.sink = loud.session.sink ∧
            ∃ full, (session.withSettings .full).run? budget source = some full ∧
              loud.output = full.output ∧
                quiet.output =
                  (withoutEchoes full.events).filterMap Event.printedText?)
        ((session.withSettings ⟨true, tracing⟩).run? budget source)
        ((session.withSettings ⟨false, tracing⟩).run? budget source)
  /-- Each printed text stands behind the trace of the statement that printed it. -/
  attributed :
    ∀ budget full, (session.withSettings .full).run? budget source = some full →
      Evaluation.Attributed full.events

/-- Instrumentation shows runs and does not change them. -/
theorem onlyShown
    (session : Session)
    (source : String) :
    OnlyShown session source where
  tokens := fun faults => TextReader.readsLike_readTokens faults source
  programs := fun faults => TextReader.readsLike_readProgram faults source
  expressions := fun faults => TextReader.readsLike_readExpression faults source
  tracing := by
    intro echo budget
    refine rel_imp (session.shows_both ⟨echo, true⟩ ⟨echo, false⟩ budget source) ?_
    rintro traced untraced ⟨full, -, first, second⟩
    refine ⟨first.ends.symm.trans second.ends,
      second.sink.trans first.sink.symm, ?_, ?_⟩
    · rw [first.output, second.output]
    · rw [first.events, second.events]
      rfl
  excerpts := by
    intro recorder budget
    refine rel_imp (session.endsLike_withSinks _ _ budget source) ?_
    rintro run other ⟨like, events, ran, ranOther⟩
    obtain ⟨told, toldSink, toldHolds, toldSource, -⟩ :=
      Session.holds_of_run? rfl ran
    obtain ⟨bare, bareSink, bareHolds, bareSource, -⟩ :=
      Session.holds_of_run? rfl ranOther
    rw [like.faults] at bareHolds
    exact ⟨like, events, told, bare, toldSink, bareSink,
      Reporter.holdsLike_of_holds toldHolds bareHolds
        (bareSource.trans toldSource.symm)⟩
  receivers := by
    intro recorder calls budget
    refine rel_imp (session.endsLike_withSinks _ _ budget source) ?_
    rintro run other ⟨like, events, ran, ranOther⟩
    obtain ⟨told, toldSink, toldHolds, -, -⟩ := Session.holds_of_run? rfl ran
    refine ⟨like, events, told, toldSink, ?_⟩
    have called :
        other.session.sink = .plain (calls ++ other.faults.map Fault.call) := by
      rw [Session.sink_of_run? ranOther]
      exact Sink.receiveAll_plain calls other.events
    rw [called, toldHolds.reports, like.faults, List.map_map]
    simp [Function.comp_def, Reporter.call_reportOf]
  echoes := by
    intro tracing budget
    refine rel_imp
      (session.shows_both ⟨true, tracing⟩ ⟨false, tracing⟩ budget source) ?_
    rintro loud quiet ⟨full, ran, first, second⟩
    refine ⟨first.ends.symm.trans second.ends, second.sink.trans first.sink.symm,
      full, ran, ?_, ?_⟩
    · rw [first.output]
      rfl
    · rw [second.output]
      rfl
  attributed := by
    intro budget full ran
    have shows := session.shows_run? .full budget source
    rw [ran] at shows
    cases shows with
    | some both => exact both.attributed

/-- The value of an expression statement is printed where it is echoed. -/
example :
    [true, false].map (fun echo =>
      ((Session.fresh ⟨echo, false⟩ (.plain [])).run? 1 "1; print 2; x;").map
        SourceRun.output) =
        [some ["1", "2"], some ["2"]] := by
  decide +kernel

end Lox
