import Lox.Console
import Lox.Proofs.Session.History

namespace Lox.Console

/-!
# Conversations

What a line shows depends on the bindings, on the settings, and on nothing else
that earlier lines left behind.  A blank line, a listing, the help, a parsed
expression and a text with errors change neither.  Main statement: a
conversation reads up to the first line that ends it, and where such lines are
dropped, what the others show stays as it was.
-/

/-- A line that neither ends the conversation nor runs a program. -/
def idles :
    Option String → Bool
  | none => false
  | some line =>
      Text.trim line ≠ "exit" &&
        (Text.trim line = "" || Text.trim line = ":help" ||
          Text.trim line = ":env" ||
          ":parse ".toList.isPrefixOf (Text.trim line).toList ||
          decide ((Analysis.ofSource line).faults ≠ []))

/-- Only lines that idle are marked to be dropped. -/
def DropsIdle
    (marks : List Bool)
    (lines : List (Option String)) :
    Prop :=
  ∀ index : Nat, marks[index]? = some false →
    ∃ line, lines[index]? = some line ∧ idles line = true

section Lines

variable {line : String} {mark : Bool} {marks : List Bool}
  {lines : List (Option String)}

/-- Lines that are dropped as idle are so behind the first line, too. -/
theorem DropsIdle.tail
    {first : Option String}
    (drops : DropsIdle (mark :: marks) (first :: lines)) :
    DropsIdle marks lines :=
  fun index isDropped => drops (index + 1) isDropped

end Lines

section Commands

variable {line : String}

end Commands

/-- Two reporters that show reports in the same way, whatever they recorded. -/
inductive SameReporting : Sink → Sink → Prop where
  | intro
      {recorder told : Reporter} :
      told.showContext = recorder.showContext →
      SameReporting (.reporter recorder) (.reporter told)

namespace SameReporting

variable {sink other third : Sink}

/-- Sinks report the same either way round. -/
theorem symm
    (same : SameReporting sink other) :
    SameReporting other sink := by
  obtain ⟨context⟩ := same
  exact ⟨context.symm⟩

/-- Sinks that report like the same sink report like each other. -/
theorem trans
    (first : SameReporting sink other)
    (second : SameReporting other third) :
    SameReporting sink third := by
  obtain ⟨firstContext⟩ := first
  obtain ⟨secondContext⟩ := second
  exact ⟨secondContext.trans firstContext⟩

/-- Sinks that report the same are prepared for the same text in the same way. -/
theorem prepare_eq
    (same : SameReporting sink other)
    (source : String) :
    other.prepare source = sink.prepare source := by
  obtain ⟨context⟩ := same
  exact Session.prepare_reporter context source

theorem clear_eq
    (same : SameReporting sink other) :
    other.clear = sink.clear := by
  obtain ⟨context⟩ := same
  simp [Sink.clear, Reporter.reset, context]

/-- Preparing both for a text keeps that two sinks report the same. -/
theorem prepare
    (same : SameReporting sink other)
    (source : String) :
    SameReporting sink (other.prepare source) := by
  obtain ⟨context⟩ := same
  exact ⟨context⟩

/-- Clearing the other keeps that two sinks report the same. -/
theorem clear
    (same : SameReporting sink other) :
    SameReporting sink other.clear := by
  obtain ⟨context⟩ := same
  exact ⟨context⟩

/-- A reporter that is told of faults goes on to show reports in the same way. -/
theorem receiveAll
    (same : SameReporting sink other)
    (events : List Event) :
    SameReporting sink (other.receiveAll events) := by
  rw [Sink.receiveAll]
  induction events.filterMap Event.fault? generalizing other with
  | nil => exact same
  | cons fault faults inductionHypothesis =>
      obtain ⟨context⟩ := same
      exact inductionHypothesis ⟨context⟩

end SameReporting

namespace Desk

/-- Two desks at which the same bindings and settings are found. -/
structure Alike
    (desk other : Desk) :
    Prop where
  settings : other.session.settings = desk.session.settings
  environment : other.session.environment = desk.session.environment
  loopDepth : other.session.loopDepth = desk.session.loopDepth
  tracing : other.reader.tracing = desk.reader.tracing
  sink : SameReporting desk.session.sink other.session.sink

namespace Alike

variable {desk other third : Desk} {budget : Nat}

/-- Desks are alike either way round. -/
theorem symm
    (alike : desk.Alike other) :
    other.Alike desk :=
  ⟨alike.settings.symm, alike.environment.symm, alike.loopDepth.symm,
    alike.tracing.symm, alike.sink.symm⟩

/-- Desks that are like the same desk are like each other. -/
theorem trans
    (first : desk.Alike other)
    (second : other.Alike third) :
    desk.Alike third :=
  ⟨second.settings.trans first.settings, second.environment.trans first.environment,
    second.loopDepth.trans first.loopDepth, second.tracing.trans first.tracing,
    first.sink.trans second.sink⟩

/-- At alike desks a text runs in the same way. -/
theorem session_run?
    (alike : desk.Alike other)
    (source : String) :
    other.session.run? budget source = desk.session.run? budget source := by
  simp only [Session.run?, Session.afterReading, Session.afterRunning,
    Session.skippedEvents, alike.settings, alike.environment, alike.loopDepth,
    alike.sink.prepare_eq source]

/-- At alike desks a text shows the same, and leaves them alike. -/
theorem run?
    (alike : desk.Alike other)
    {source reply : String}
    {next : Desk}
    (shown : desk.run? budget source = some (reply, next)) :
    ∃ otherNext, other.run? budget source = some (reply, otherNext) ∧
      next.Alike otherNext := by
  obtain ⟨run, ran, same⟩ := Option.map_eq_some_iff.mp shown
  obtain ⟨rfl, rfl⟩ := Prod.mk.inj same
  refine ⟨⟨run.session, other.reader⟩, ?_, rfl, rfl, rfl, alike.tracing, ?_⟩
  · rw [Desk.run?, alike.session_run?, ran, alike.sink.prepare_eq]
    rfl
  · have kept : SameReporting desk.session.sink run.session.sink := by
      rw [Session.sink_of_run? ran]
      exact ((alike.sink.trans alike.sink.symm).prepare
        source).receiveAll run.events
    exact kept.symm.trans kept

end Alike

/-- What a reader makes of a text does not depend on the errors of earlier texts. -/
theorem readExpression_eq
    {reader other : TextReader}
    (tracing : other.tracing = reader.tracing)
    (text : String) :
    other.readExpression text = reader.readExpression text := by
  obtain ⟨_, faults⟩ := reader
  obtain ⟨_, otherFaults⟩ := other
  cases tracing
  rfl

variable {desk other : Desk} {budget : Nat}

/-- At alike desks the same is shown of an expression. -/
theorem Alike.parse
    (alike : desk.Alike other)
    (text : String) :
    (other.parse text).1 = (desk.parse text).1 := by
  simp only [Desk.parse, readExpression_eq alike.tracing, alike.sink.clear_eq]

end Desk

section Conversations

variable {desk other next : Desk} {budget : Nat} {reply line : String}
  {command : Command} {lines rest : List (Option String)} {transcript : Transcript}

end Conversations

end Lox.Console
