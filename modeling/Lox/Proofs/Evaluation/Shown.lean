import Lox.Proofs.Evaluation.Run

namespace Lox.Evaluation

/-!
# What settings show

Settings add events to a run and change nothing else about it.  A run that echoes
and traces shows which texts were printed by expression statements: those directly
behind the trace of such a statement.  Main statement: with any settings a run goes
as it does with both, and shows what these settings leave of its events.
-/

/--
The line of a trace that stands in front of what an expression statement prints.
-/
def echoLead :
    Event :=
  .traced ("Executing: " ++ NodeClass.expression.name)

/-- The line of a trace that stands in front of what a print statement prints. -/
def printLead :
    Event :=
  .traced ("Executing: " ++ NodeClass.print.name)

/--
Each printed text stands directly behind the trace of the statement that printed it.
-/
def Attributed
    (events : List Event) :
    Prop :=
  ∀ earlier text later, events = earlier ++ .printed text :: later →
    earlier.getLast? = some echoLead ∨ earlier.getLast? = some printLead

/--
Whether an event behind another one is a text printed by an expression statement.
-/
def isEcho
    (previous? : Option Event)
    (event : Event) :
    Bool :=
  decide (previous? = some echoLead) && event.printedText?.isSome

/-- Leave out the texts printed by expression statements. -/
def withoutEchoesFrom :
    (previous? : Option Event) → List Event → List Event
  | _, [] => []
  | previous?, event :: rest =>
      if isEcho previous? event then withoutEchoesFrom (some event) rest
      else event :: withoutEchoesFrom (some event) rest

/--
The events of a traced run without the texts printed by expression statements.
-/
def withoutEchoes
    (events : List Event) :
    List Event :=
  withoutEchoesFrom none events

/-- The events of a run without its trace. -/
def withoutTrace
    (events : List Event) :
    List Event :=
  events.filter fun event => event.tracedText?.isNone

namespace Settings

/-- Settings that echo and trace. -/
def full :
    Settings :=
  ⟨true, true⟩

/-- What settings leave of the events of a run that echoes and traces. -/
def shownOf
    (settings : Settings)
    (events : List Event) :
    List Event :=
  let echoed := if settings.echo then events else withoutEchoes events
  if settings.tracing then echoed else withoutTrace echoed

/-- Whether settings leave an event that stands behind another one. -/
def shows
    (settings : Settings)
    (previous? : Option Event)
    (event : Event) :
    Bool :=
  (settings.echo || !isEcho previous? event) &&
    (settings.tracing || event.tracedText?.isNone)

end Settings

section Events

variable {settings : Settings} {previous? : Option Event} {events more : List Event}
  {event : Event}

/--
Echoes are taken out of later events with the last of the earlier ones in sight.
-/
theorem withoutEchoesFrom_append :
    withoutEchoesFrom previous? (events ++ more) =
      withoutEchoesFrom previous? events ++
        withoutEchoesFrom (events.getLast?.or previous?) more := by
  induction events generalizing previous? with
  | nil => rfl
  | cons event rest inductionHypothesis =>
      have last :
          rest.getLast?.or (some event) =
            (event :: rest).getLast?.or previous? := by
        rw [List.getLast?_cons]
        cases rest.getLast? <;> rfl
      rw [List.cons_append, withoutEchoesFrom, withoutEchoesFrom,
        inductionHypothesis, last]
      split
      · rfl
      · rfl

/-- Traces are taken out of events wherever these are split. -/
theorem withoutTrace_append :
    withoutTrace (events ++ more) = withoutTrace events ++ withoutTrace more :=
  List.filter_append ..

/-- Whether an event is shown does not depend on what comes later. -/
theorem shownOf_append
    (settings : Settings)
    (events : List Event)
    (event : Event) :
    settings.shownOf (events ++ [event]) =
      settings.shownOf events ++
        if settings.shows events.getLast? event then [event] else [] := by
  have echoes :
      withoutEchoes (events ++ [event]) =
        withoutEchoes events ++
          if isEcho events.getLast? event then [] else [event] := by
    rw [withoutEchoes, withoutEchoesFrom_append, Option.or_none]
    rfl
  have traces :
      withoutTrace [event] = if event.tracedText?.isNone then [event] else [] := by
    cases event <;> rfl
  unfold Settings.shownOf Settings.shows
  cases settings.echo <;> cases settings.tracing <;>
    cases echo : isEcho events.getLast? event
  all_goals simp [echoes, echo, withoutTrace_append, traces]

/--
Events stay attributed if one more is no printed text, or stands where it should.
-/
theorem Attributed.append
    (attributed : Attributed events)
    (behind : ∀ text, event = .printed text →
      events.getLast? = some echoLead ∨ events.getLast? = some printLead) :
    Attributed (events ++ [event]) := by
  intro earlier text later split
  rcases List.eq_nil_or_concat later with rfl | ⟨rest, last, rfl⟩
  · obtain ⟨rfl, isPrinted⟩ := List.append_singleton_inj.mp split
    exact behind text isPrinted
  · have whole :
        events ++ [event] = (earlier ++ .printed text :: rest) ++ [last] := by
      simpa using split
    obtain ⟨rfl, -⟩ := List.append_singleton_inj.mp whole
    exact attributed earlier text rest rfl

/-- Without printed texts there are no echoes. -/
theorem withoutEchoesFrom_of_unprinted
    (unprinted : events.filterMap Event.printedText? = []) :
    ∀ previous?, withoutEchoesFrom previous? events = events := by
  induction events with
  | nil => exact fun _ => rfl
  | cons event rest inductionHypothesis =>
      intro previous?
      have all : ∀ event' ∈ event :: rest, event'.printedText? = none := by
        simpa [List.filterMap_eq_nil_iff] using unprinted
      have restUnprinted : rest.filterMap Event.printedText? = [] :=
        List.filterMap_eq_nil_iff.mpr fun event' member =>
          all event' (.tail _ member)
      rw [withoutEchoesFrom, inductionHypothesis restUnprinted]
      simp [isEcho, all event (.head _)]

/-- What is shown of events that print nothing. -/
theorem shownOf_of_unprinted
    (unprinted : events.filterMap Event.printedText? = []) :
    settings.shownOf events =
      if settings.tracing then events else withoutTrace events := by
  simp [Settings.shownOf, withoutEchoes, withoutEchoesFrom_of_unprinted unprinted]

/-- Where nothing is printed, there is nothing to attribute. -/
theorem attributed_of_unprinted
    (unprinted : events.filterMap Event.printedText? = []) :
    Attributed events := by
  rintro earlier text later rfl
  simp [Event.printedText?] at unprinted

/-- Printed texts stay attributed behind events that print nothing. -/
theorem Attributed.behind_unprinted
    (attributed : Attributed more)
    (unprinted : events.filterMap Event.printedText? = []) :
    Attributed (events ++ more) := by
  intro earlier text later split
  rcases List.append_eq_append_iff.mp split with
    ⟨between, rfl, rest⟩ | ⟨between, rfl, rest⟩
  · have behind := attributed between text later rest
    rw [List.getLast?_append]
    rcases behind with isLead | isLead
    · exact .inl (by rw [isLead]; rfl)
    · exact .inr (by rw [isLead]; rfl)
  · cases between with
    | nil =>
        have behind := attributed [] text later rest.symm
        simp at behind
    | cons first between =>
        obtain ⟨rfl, -⟩ := List.cons.inj rest
        simp [Event.printedText?] at unprinted

/--
What is shown of events and later ones, where
these are not all behind an expression.
-/
theorem shownOf_append_events
    (notLead : events.getLast? ≠ some echoLead) :
    settings.shownOf (events ++ more) =
      settings.shownOf events ++ settings.shownOf more := by
  have fresh : ∀ later, withoutEchoesFrom events.getLast? later =
      withoutEchoesFrom none later := by
    intro later
    cases later with
    | nil => rfl
    | cons event rest => simp [withoutEchoesFrom, isEcho, notLead]
  unfold Settings.shownOf
  cases settings.echo <;> cases settings.tracing <;>
    simp [withoutEchoes, withoutEchoesFrom_append, withoutTrace_append, fresh]

/-- What is selected from a run without its trace, if traces are not selected. -/
theorem filterMap_withoutTrace
    (select : Event → Option α)
    (unselected : ∀ text, select (.traced text) = none)
    (events : List Event) :
    (withoutTrace events).filterMap select = events.filterMap select := by
  have same : ∀ event : Event,
      (if event.tracedText?.isNone then select event else none) = select event := by
    intro event
    cases event with
    | printed text => rfl
    | traced text => exact (unselected text).symm
    | faulted fault => rfl
  rw [withoutTrace, List.filterMap_filter]
  simp only [same]

/-- Echoes are no faults. -/
theorem fault?_withoutEchoesFrom
    (events : List Event) :
    ∀ previous?, (withoutEchoesFrom previous? events).filterMap Event.fault? =
      events.filterMap Event.fault? := by
  induction events with
  | nil => exact fun _ => rfl
  | cons event rest inductionHypothesis =>
      intro previous?
      rw [withoutEchoesFrom]
      split
      · rename_i dropped
        have printed : event.fault? = none := by
          cases event with
          | printed text => rfl
          | traced text => rfl
          | faulted fault => simp [isEcho, Event.printedText?] at dropped
        rw [List.filterMap_cons_none printed, inductionHypothesis]
      · rw [List.filterMap_cons, List.filterMap_cons, inductionHypothesis]

/-- Settings hide no fault. -/
theorem fault?_shownOf
    (settings : Settings)
    (events : List Event) :
    (settings.shownOf events).filterMap Event.fault? =
      events.filterMap Event.fault? := by
  have echoed :
      (withoutEchoes events).filterMap Event.fault? =
        events.filterMap Event.fault? :=
    fault?_withoutEchoesFrom events none
  have untraced := filterMap_withoutTrace Event.fault? fun _ => rfl
  unfold Settings.shownOf
  cases settings.echo <;> cases settings.tracing <;> simp [echoed, untraced]

end Events

/--
A state of a run with some settings, and the state of a run that echoes and traces.
-/
structure State.Shows
    (settings : Settings)
    (state other : State) :
    Prop where
  environment : other.environment = state.environment
  loopDepth : other.loopDepth = state.loopDepth
  events : other.events = settings.shownOf state.events
  attributed : Attributed state.events

/-- Both runs end, in the same way, or neither does. -/
inductive Run.Shows (settings : Settings) : Run → Run → Prop where
  | endless : Shows settings none none
  | ended
      {result : Except RuntimeError Completion}
      {after after' : State} :
      State.Shows settings after after' →
      Shows settings (some (result, after)) (some (result, after'))

section Steps

variable {settings : Settings} {state other after after' : State}

/-- A record adds its event at the end. -/
theorem events_record
    (state : State)
    (event : Event) :
    (state.record event).events = state.events ++ [event] := by
  simp [State.events, State.record]

/-- The last event is the head of the log. -/
theorem getLast?_events
    (state : State) :
    state.events.getLast? = state.log.head? := by
  simp [State.events]

/-- Before anything happened there is nothing to be shown. -/
theorem State.shows_of_silent
    (silent : state.log = []) :
    State.Shows settings state state := by
  have noEvents : state.events = [] := by simp [State.events, silent]
  refine ⟨rfl, rfl, ?_, ?_⟩
  · rw [noEvents]
    cases settings with
    | mk echo tracing => cases echo <;> cases tracing <;> rfl
  · intro earlier text later split
    rw [noEvents] at split
    simp at split

namespace State.Shows

/-- One more event on the one side, and on the other where it is shown. -/
theorem record
    (shows : State.Shows settings state other)
    (event : Event)
    (behind : ∀ text, event = .printed text →
      state.log.head? = some echoLead ∨ state.log.head? = some printLead) :
    State.Shows settings (state.record event)
      (if settings.shows state.log.head? event then
        other.record event
      else
        other) := by
  have recorded := shownOf_append settings state.events event
  have attributed : Attributed (state.events ++ [event]) :=
    shows.attributed.append (by rwa [getLast?_events])
  rw [← events_record] at attributed
  rw [getLast?_events, ← events_record, ← shows.events] at recorded
  split
  · rename_i isShown
    rw [if_pos isShown] at recorded
    exact ⟨shows.environment, shows.loopDepth,
      (events_record other event).trans recorded.symm, attributed⟩
  · rename_i isLeft
    rw [if_neg isLeft, List.append_nil] at recorded
    exact ⟨shows.environment, shows.loopDepth, recorded.symm, attributed⟩

/-- A line that is traced is shown if the settings trace. -/
theorem trace
    (shows : State.Shows settings state other)
    (text : String) :
    State.Shows settings (state.trace .full text) (other.trace settings text) := by
  have isShown :
      settings.shows state.log.head? (.traced text) = settings.tracing := by
    simp [Settings.shows, isEcho, Event.printedText?, Event.tracedText?]
  have recorded := shows.record (.traced text) fun _ isPrinted => by cases isPrinted
  rwa [isShown] at recorded

/-- The beginning of a statement is shown if the settings trace. -/
theorem begin
    (shows : State.Shows settings state other)
    (nodeClass : NodeClass) :
    State.Shows settings (state.begin .full nodeClass)
      (other.begin settings nodeClass) :=
  shows.trace _

theorem openScope
    (shows : State.Shows settings state other) :
    State.Shows settings state.openScope other.openScope :=
  ⟨congrArg Environment.enter shows.environment, shows.loopDepth,
    shows.events, shows.attributed⟩

theorem closeScope
    (shows : State.Shows settings state other) :
    State.Shows settings state.closeScope other.closeScope :=
  ⟨congrArg Environment.leave shows.environment, shows.loopDepth,
    shows.events, shows.attributed⟩

theorem enterLoop
    (shows : State.Shows settings state other) :
    State.Shows settings state.enterLoop other.enterLoop :=
  ⟨shows.environment, congrArg (· + 1) shows.loopDepth,
    shows.events, shows.attributed⟩

theorem leaveLoop
    (shows : State.Shows settings state other) :
    State.Shows settings state.leaveLoop other.leaveLoop :=
  ⟨shows.environment, congrArg (· - 1) shows.loopDepth,
    shows.events, shows.attributed⟩

/-- An error is traced by both runs, as far as the settings trace. -/
theorem recordError
    (shows : State.Shows settings state other)
    (error : RuntimeError) :
    State.Shows settings (state.recordError .full error)
      (other.recordError settings error) := by
  have traced :=
    shows.trace s!"Runtime error ({error.kind.name}) at line {error.line}"
  have isShown :
      ∀ previous?, settings.shows previous? (.faulted error.fault) = true := by
    intro previous?
    simp [Settings.shows, isEcho, Event.printedText?, Event.tracedText?]
  have recorded := traced.record (.faulted error.fault) fun _ isPrinted => by
    cases isPrinted
  rwa [if_pos (isShown _)] at recorded

end State.Shows

namespace Run

/-- What is shown of a run stays so when scopes or loops are left behind it. -/
theorem Shows.restoring
    {restore : State → State}
    {run other : Run}
    (shows : Shows settings run other)
    (restored : ∀ state other : State,
      State.Shows settings state other →
        State.Shows settings (restore state) (restore other)) :
    Shows settings (restoring restore run)
      (Evaluation.restoring restore other) := by
  cases shows with
  | endless => exact .endless
  | ended shows => exact .ended (restored _ _ shows)

/-- What is shown of two runs in sequence is shown of the whole. -/
theorem Shows.proceed
    {first first' : Run}
    {next next' : Completion → State → Run}
    (earlier : Shows settings first first')
    (later : ∀ completion state other,
      State.Shows settings state other →
        Shows settings (next completion state) (next' completion other)) :
    Shows settings (proceed first next) (Evaluation.proceed first' next') := by
  cases earlier with
  | endless => exact .endless
  | @ended result after after' shows =>
      cases result with
      | ok completion => exact later completion after after' shows
      | error error => exact .ended shows

end Run

/--
Both runs evaluate an expression, and go on with the same value and the same log.
-/
theorem shows_withValue
    {expr : Expr}
    {next next' : Value → State → Run}
    (shows : State.Shows settings state other)
    (later : ∀ value after after',
      State.Shows settings after after' → after.log = state.log →
        Run.Shows settings (next value after) (next' value after')) :
    Run.Shows settings (withValue state expr next)
      (withValue other expr next') := by
  unfold withValue State.evaluate
  rw [shows.environment]
  generalize eval expr state.environment = evaluated
  obtain ⟨result, environment⟩ := evaluated
  have behind : State.Shows settings { state with environment := environment }
      { other with environment := environment } :=
    ⟨rfl, shows.loopDepth, shows.events, shows.attributed⟩
  cases result with
  | ok value => exact later value _ _ behind rfl
  | error error => exact Run.Shows.ended behind

/-- What an expression statement prints is shown where it is echoed. -/
theorem shows_runExpression
    (inner : Expr)
    (shows : State.Shows settings state other) :
    Run.Shows settings (runExpression .full inner (state.begin .full .expression))
      (runExpression settings inner (other.begin settings .expression)) := by
  apply shows_withValue (shows.begin .expression)
  intro value after after' shows sameLog
  have isLead : after.log.head? = some echoLead := by
    rw [sameLog]
    rfl
  have isShown :
      settings.shows after.log.head? (.printed value.display) = settings.echo := by
    simp [Settings.shows, isEcho, isLead, Event.printedText?, Event.tracedText?]
  have recorded := shows.record (.printed value.display) fun _ _ => .inl isLead
  rw [isShown] at recorded
  exact Run.Shows.ended recorded

/-- What a print statement prints is shown. -/
theorem shows_runPrint
    (inner : Expr)
    (shows : State.Shows settings state other) :
    Run.Shows settings (runPrint inner (state.begin .full .print))
      (runPrint inner (other.begin settings .print)) := by
  apply shows_withValue (shows.begin .print)
  intro value after after' shows sameLog
  have isLead : after.log.head? = some printLead := by
    rw [sameLog]
    rfl
  have notEcho : printLead ≠ echoLead := by decide
  have isShown :
      settings.shows after.log.head? (.printed value.display) = true := by
    simp [Settings.shows, isEcho, isLead, notEcho, Event.tracedText?]
  have recorded := shows.record (.printed value.display) fun _ _ => .inr isLead
  rw [if_pos isShown] at recorded
  exact Run.Shows.ended recorded

/-- A definition shows nothing and binds the same in both runs. -/
theorem shows_runDefinition
    (name : Token)
    (value : Value)
    (shows : State.Shows settings state other) :
    Run.Shows settings (runDefinition name value state)
      (runDefinition name value other) :=
  Run.Shows.ended
    ⟨congrArg (·.define name.lexeme value) shows.environment, shows.loopDepth,
      shows.events, shows.attributed⟩

/-- A declaration is shown as the evaluation of its value. -/
theorem shows_runVar
    (name : Token)
    (initial : Option Expr)
    (shows : State.Shows settings state other) :
    Run.Shows settings (runVar name initial state) (runVar name initial other) := by
  cases initial with
  | none => exact shows_runDefinition name .nil shows
  | some initial =>
      apply shows_withValue shows
      intro value after after' shows _
      exact shows_runDefinition name value shows

/-- A signal outside of loops is the same error in both runs. -/
theorem shows_runSignal
    (keyword : Token)
    (signal : Completion)
    (shows : State.Shows settings state other) :
    Run.Shows settings (runSignal keyword signal state)
      (runSignal keyword signal other) := by
  unfold runSignal
  rw [shows.loopDepth]
  split
  · exact Run.Shows.ended shows
  · exact Run.Shows.ended shows

/-- Rounds of a loop are shown one by one. -/
theorem shows_iterate
    (condition : Expr)
    {body body' : State → Run}
    (repeated : ∀ state other,
      State.Shows settings state other →
        Run.Shows settings (body state) (body' other))
    (budget : Nat)
    (shows : State.Shows settings state other) :
    Run.Shows settings (iterate condition body budget state)
      (iterate condition body' budget other) := by
  induction budget generalizing state other with
  | zero => exact .endless
  | succ budget inductionHypothesis =>
      rw [iterate_succ, iterate_succ]
      apply shows_withValue shows
      intro value tested tested' shows _
      split
      · apply (repeated tested tested' shows).proceed
        intro completion after after' shows
        cases completion with
        | normal => exact inductionHypothesis shows
        | broke => exact Run.Shows.ended shows
        | continued => exact inductionHypothesis shows
      · exact Run.Shows.ended shows

end Steps

variable {settings : Settings}

mutual

/-- A statement goes with any settings as it does with both. -/
theorem shows_exec
    (budget : Nat) :
    ∀ (stmt : Stmt) {state other : State},
      State.Shows settings state other →
        Run.Shows settings (exec .full budget stmt state)
          (exec settings budget stmt other)
  | .expression inner, _, _, shows => by
      rw [exec, exec]
      exact shows_runExpression inner shows
  | .print inner, _, _, shows => by
      rw [exec, exec]
      exact shows_runPrint inner shows
  | .var name initial, _, _, shows => by
      rw [exec, exec]
      exact shows_runVar name initial (shows.begin .var)
  | .block statements, _, _, shows => by
      rw [exec, exec]
      exact (shows_execAll budget statements
        (shows.begin .block).openScope).restoring fun _ _ shows => shows.closeScope
  | .loopBody body increment, _, _, shows => by
      rw [exec, exec]
      refine Run.Shows.restoring
        ((shows_exec budget body (shows.begin .loopBody).openScope).proceed ?_)
        fun _ _ shows => shows.closeScope
      intro completion after after' shows
      cases completion with
      | normal => exact shows_runExpression increment shows
      | broke => exact Run.Shows.ended shows
      | continued => exact shows_runExpression increment shows
  | .ifThen condition thenPart, _, _, shows => by
      rw [exec, exec]
      apply shows_withValue (shows.begin .branch)
      intro value tested tested' shows _
      split
      · exact shows_exec budget thenPart shows
      · exact Run.Shows.ended shows
  | .ifElse condition thenPart elsePart, _, _, shows => by
      rw [exec, exec]
      apply shows_withValue (shows.begin .branch)
      intro value tested tested' shows _
      split
      · exact shows_exec budget thenPart shows
      · exact shows_exec budget elsePart shows
  | .whileLoop condition body, _, _, shows => by
      rw [exec, exec]
      have repeats :=
        shows_iterate condition (fun _ _ shows => shows_exec budget body shows)
          budget (shows.begin .whileLoop).enterLoop
      exact repeats.restoring fun _ _ shows => shows.leaveLoop
  | .breakLoop keyword, _, _, shows => by
      rw [exec, exec]
      exact shows_runSignal keyword .broke (shows.begin .breakLoop)
  | .continueLoop keyword, _, _, shows => by
      rw [exec, exec]
      exact shows_runSignal keyword .continued (shows.begin .continueLoop)

/-- Statements in order are shown one by one. -/
theorem shows_execAll
    (budget : Nat) :
    ∀ (statements : List Stmt) {state other : State},
      State.Shows settings state other →
        Run.Shows settings (execAll .full budget statements state)
          (execAll settings budget statements other)
  | [], _, _, shows => by
      rw [execAll, execAll]
      exact Run.Shows.ended shows
  | first :: rest, _, _, shows => by
      rw [execAll, execAll]
      apply (shows_exec budget first shows).proceed
      intro completion after after' shows
      cases completion with
      | normal => exact shows_execAll budget rest shows
      | broke => exact Run.Shows.ended shows
      | continued => exact Run.Shows.ended shows

end

/-- The statements of a program go with any settings as they do with both. -/
theorem shows_execProgram
    (budget : Nat)
    (program : Program)
    {state other : State}
    (shows : State.Shows settings state other) :
    Option.Rel
      (fun progress progress' =>
        progress'.completions = progress.completions ∧
          progress'.error? = progress.error? ∧
          State.Shows settings progress.state progress'.state)
      (execProgram .full budget program state)
        (execProgram settings budget program other) := by
  induction program generalizing state other with
  | nil => exact .some ⟨rfl, rfl, shows⟩
  | cons first rest inductionHypothesis =>
      have firstShows := shows_exec budget first shows
      rw [execProgram, execProgram]
      generalize exec .full budget first state = run at firstShows ⊢
      generalize exec settings budget first other = run' at firstShows ⊢
      cases firstShows with
      | endless => exact .none
      | @ended result after after' shows =>
          cases result with
          | error error => exact .some ⟨rfl, rfl, shows⟩
          | ok completion =>
              have restShows := inductionHypothesis shows
              dsimp only
              generalize execProgram .full budget rest after = later at restShows ⊢
              generalize execProgram settings budget rest after' =
                later' at restShows ⊢
              cases restShows with
              | none => exact .none
              | some both =>
                  obtain ⟨completions, error, shows⟩ := both
                  exact .some ⟨congrArg (completion :: ·) completions, error, shows⟩

/-- A program is interpreted with any settings as it is with both. -/
theorem shows_interpret
    (budget : Nat)
    (program : Program)
    {state other : State}
    (shows : State.Shows settings state.atGlobals other.atGlobals) :
    Option.Rel
      (fun ending ending' =>
        ending'.1 = ending.1 ∧ State.Shows settings ending.2 ending'.2)
      (interpret .full budget program state)
        (interpret settings budget program other) := by
  have executed := shows_execProgram budget program shows
  unfold interpret
  generalize execProgram .full budget program state.atGlobals =
    progress? at executed ⊢
  generalize execProgram settings budget program other.atGlobals =
    progress?' at executed ⊢
  cases executed with
  | none => exact .none
  | @some progress progress' both =>
      obtain ⟨-, sameError, shows⟩ := both
      refine .some ?_
      dsimp only
      rw [sameError]
      cases progress.error? with
      | none => exact ⟨rfl, shows⟩
      | some error => exact ⟨rfl, shows.recordError error⟩

end Lox.Evaluation
