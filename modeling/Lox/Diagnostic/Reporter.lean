import Lox.Diagnostic

namespace Lox

/-!
# Receivers of faults

A reporter records a report of each fault and writes its text.  A plain
receiver is called with the parts of each fault instead.
-/

/-- A reporter, with what it recorded since its last reset. -/
structure Reporter where
  source : Option String
  /-- Reports show an excerpt of the source. -/
  showContext : Bool
  reports : List Report
  faults : List Fault
  hadError : Bool
  hadRuntimeError : Bool
  deriving Repr, DecidableEq

namespace Reporter

/-- A reporter that recorded nothing. -/
def fresh
    (source : Option String)
    (showContext : Bool) :
    Reporter where
  source := source
  showContext := showContext
  reports := []
  faults := []
  hadError := false
  hadRuntimeError := false

/-- Forget all records and take up a new source. -/
def reset
    (reporter : Reporter)
    (source : Option String) :
    Reporter :=
  fresh source reporter.showContext

/-- Record a report. -/
def record
    (reporter : Reporter)
    (report : Report) :
    Reporter :=
  { reporter with
    reports := reporter.reports ++ [report]
    hadError := reporter.hadError || report.stage.isStatic
    hadRuntimeError := reporter.hadRuntimeError || !report.stage.isStatic }

/-- The report of a fault, with an excerpt if the reporter shows them. -/
def reportOf
    (reporter : Reporter)
    (fault : Fault) :
    Report :=
  fault.report (if reporter.showContext then reporter.source else none)

/-- Record a fault and its report. -/
def receive
    (reporter : Reporter)
    (fault : Fault) :
    Reporter :=
  { reporter.record (reporter.reportOf fault) with
    faults := reporter.faults ++ [fault] }

/-- The report of a bare message. -/
def bareReport
    (line : Int)
    (location : String)
    (message : String) :
    Report :=
  ⟨.grammar, line, location, message, none, none⟩

/-- The text that the recorded reports were written as. -/
def written
    (reporter : Reporter) :
    String :=
  joinLines (reporter.reports.map Report.text)

/-- What a screen shows of some events, reports among the other lines. -/
def transcript
    (reporter : Reporter)
    (events : List Event) :
    String :=
  joinLines (events.map fun
    | .printed text => text
    | .traced text => text
    | .faulted fault => (reporter.reportOf fault).text)

@[simp] theorem reset_reports
    (reporter : Reporter)
    (source : Option String) :
    (reporter.reset source).reports = [] :=
  rfl

@[simp] theorem receive_reports
    (reporter : Reporter)
    (fault : Fault) :
    (reporter.receive fault).reports =
      reporter.reports ++ [reporter.reportOf fault] :=
  rfl

@[simp] theorem receive_faults
    (reporter : Reporter)
    (fault : Fault) :
    (reporter.receive fault).faults = reporter.faults ++ [fault] :=
  rfl

/-- What a reporter shows of a fault does not depend on its records. -/
@[simp] theorem reportOf_receive
    (reporter : Reporter)
    (earlier fault : Fault) :
    (reporter.receive earlier).reportOf fault = reporter.reportOf fault :=
  rfl

end Reporter

/-- A call of a plain receiver. -/
inductive Call where
  | static (line : Int) (location : String) (message : String)
  | runtime (message : String) (line : Int)
  deriving Repr, DecidableEq

/-- The call that tells a plain receiver of a fault. -/
def Fault.call
    (fault : Fault) :
    Call :=
  match fault.origin with
  | .runtime _ => .runtime fault.message fault.line
  | _ => .static fault.line fault.location fault.message

/-- A receiver of faults. -/
inductive Sink where
  | reporter (recorder : Reporter)
  /-- A plain receiver, with the calls made to it. -/
  | plain (calls : List Call)
  deriving Repr, DecidableEq

namespace Sink

/-- A reporter is reset before each source; a plain receiver is not. -/
def prepare
    (source : String) :
    Sink → Sink
  | .reporter recorder => .reporter (recorder.reset (some source))
  | .plain calls => .plain calls

/-- A reporter forgets its records and its source. -/
def clear :
    Sink → Sink
  | .reporter recorder => .reporter (recorder.reset none)
  | .plain calls => .plain calls

/-- Tell a receiver of a fault. -/
def receive
    (sink : Sink)
    (fault : Fault) :
    Sink :=
  match sink with
  | .reporter recorder => .reporter (recorder.receive fault)
  | .plain calls => .plain (calls ++ [fault.call])

/-- Tell a receiver of all faults among some events. -/
def receiveAll
    (sink : Sink)
    (events : List Event) :
    Sink :=
  (events.filterMap Event.fault?).foldl receive sink

/-- What a screen shows of some events; a plain receiver shows nothing itself. -/
def transcript
    (events : List Event) :
    Sink → String
  | .reporter recorder => recorder.transcript events
  | .plain _ => joinLines (events.filterMap Event.shownText?)

end Sink

end Lox
