import Lox.Analysis
import Lox.Evaluation.Program

namespace Lox

/-!
# Sessions

A session runs one source text after another.  The global scope lasts from text
to text; what went wrong with one text does not touch the next.
-/

/-- How the run of a text ends. -/
inductive Status where
  | ok
  | staticError
  | runtimeError
  deriving Repr, DecidableEq

namespace Status

/-- The name of a status. -/
def name :
    Status → String
  | .ok => "ok"
  | .staticError => "static_error"
  | .runtimeError => "runtime_error"

end Status

/-- A session between two texts. -/
structure Session where
  settings : Evaluation.Settings
  sink : Sink
  environment : Environment
  loopDepth : Nat
  /-- The program of the latest text, if its tokens could be read. -/
  lastProgram : Option Program
  deriving Repr

/-- The run of a text: how it ended, what happened, and the session afterwards. -/
structure SourceRun where
  status : Status
  events : List Event
  session : Session
  deriving Repr

namespace Session

/-- A session that has run nothing. -/
def fresh
    (settings : Evaluation.Settings)
    (sink : Sink) :
    Session where
  settings := settings
  sink := sink
  environment := Environment.ofGlobals Scope.empty []
  loopDepth := 0
  lastProgram := none

/-- Put a session behind the reading of a text. -/
def afterReading
    (session : Session)
    (source : String)
    (analysis : Analysis) :
    Session :=
  { session with
    sink :=
      (session.sink.prepare source).receiveAll
        (analysis.events session.settings.tracing)
    lastProgram := analysis.reading.accepted? }

/-- Put a session behind the run of a program. -/
def afterRunning
    (session : Session)
    (state : Evaluation.State) :
    Session :=
  { session with
    sink := session.sink.receiveAll state.events
    environment := state.environment
    loopDepth := state.loopDepth }

/-- The line that a trace shows in place of a run. -/
def skippedEvents
    (session : Session)
    (analysis : Analysis) :
    List Event :=
  if session.settings.tracing then
    [.traced s!"Skipping execution: {analysis.faults.length} static errors"]
  else
    []

/--
Run a text.  A text with lexical errors or errors of grammar is not run.  There
is no result if a loop exceeds the budget.
-/
def run?
    (budget : Nat)
    (session : Session)
    (source : String) :
    Option SourceRun :=
  let analysis := Analysis.ofSource source
  let reading := session.afterReading source analysis
  let events := analysis.events session.settings.tracing
  match analysis.program? with
  | none =>
      some ⟨.staticError, events ++ session.skippedEvents analysis, reading⟩
  | some program =>
      (Evaluation.interpret session.settings budget program
        (Evaluation.State.start session.environment session.loopDepth)).map
          fun (succeeded, state) =>
            {
              status := if succeeded then .ok else .runtimeError
              events := events ++ state.events
              session := reading.afterRunning state
            }

end Session

end Lox
