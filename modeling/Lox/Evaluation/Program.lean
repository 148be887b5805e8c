import Lox.Evaluation.Statement

namespace Lox.Evaluation

/-!
# Running programs

A program runs in the global scope.  Its first runtime error is recorded and
stops it.
-/

/-- How far the statements of a program came. -/
structure Progress where
  /-- What the statements completed with, up to the first that did not. -/
  completions : List Completion
  error? : Option RuntimeError
  state : State
  deriving Repr

/-- Run statements in order, whatever they complete with, up to the first error. -/
def execProgram
    (settings : Settings)
    (budget : Nat) :
    Program → State → Option Progress
  | [], state => some ⟨[], none, state⟩
  | first :: rest, state =>
      match exec settings budget first state with
      | none => none
      | some (.error error, afterwards) => some ⟨[], some error, afterwards⟩
      | some (.ok completion, afterwards) =>
          (execProgram settings budget rest afterwards).map fun later =>
            { later with completions := completion :: later.completions }

/-- A state at the start of a program: at the global scope and outside of loops. -/
def State.atGlobals
    (state : State) :
    State :=
  { state with
    environment := { state.environment with locals := [] }
    loopDepth := 0 }

/-- Record the error that stopped a program. -/
def State.recordError
    (state : State)
    (settings : Settings)
    (error : RuntimeError) :
    State :=
  (state.trace settings
    s!"Runtime error ({error.kind.name}) at line {error.line}").record
      (.faulted error.fault)

/-- Run a program; the result tells whether it ran to its end. -/
def interpret
    (settings : Settings)
    (budget : Nat)
    (program : Program)
    (state : State) :
    Option (Bool × State) :=
  (execProgram settings budget program state.atGlobals).map fun progress =>
    match progress.error? with
    | none => (true, progress.state)
    | some error => (false, progress.state.recordError settings error)

end Lox.Evaluation
