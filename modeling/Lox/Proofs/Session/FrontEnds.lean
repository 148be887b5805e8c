import Lox.CommandLine.Call
import Lox.Proofs.Session.History

namespace Lox

/-!
# Front ends

A reader reads a text without running it, a session reads it and runs it, and a call
lists its tokens, shows its tree or runs it.  Main statement: all of them find the
same errors, in the same order and whatever they read before, and the exit codes of
calls tell which kinds of errors there are.
-/

namespace TextReader

/-- A reader had an error if it has faults. -/
theorem hadError_iff
    {reader : TextReader} :
    reader.hadError = true ↔ reader.faults ≠ [] := by
  simp [hadError]

section Readers

variable (reader : TextReader) (source : String)

theorem faults_readProgram :
    (reader.readProgram source).2.faults = (Analysis.ofSource source).faults :=
  (Analysis.faults_eq (Analysis.ofSource source)).symm

/-- A reader had an error reading a program if its text has faults. -/
theorem hadError_readProgram :
    (reader.readProgram source).2.hadError = true ↔
      (Analysis.ofSource source).faults ≠ [] := by
  rw [hadError_iff, faults_readProgram]

/-- A reader hands out what an analysis accepts. -/
theorem value?_readProgram :
    (reader.readProgram source).1.value? = (Analysis.ofSource source).program? := by
  have handed : (reader.readProgram source).1.value? =
      if (reader.readProgram source).2.hadError then none
      else some (Analysis.ofSource source).reading.found := rfl
  by_cases clean : (Analysis.ofSource source).faults = []
  · have unfailed := mt (hadError_readProgram reader source).mp (not_not.mpr clean)
    rw [handed, if_neg unfailed, Analysis.program?_of_clean clean]
  · rw [handed, if_pos ((hadError_readProgram reader source).mpr clean),
      Analysis.program?_of_faults clean]

end Readers

end TextReader

/-- A plain receiver is called once for each fault. -/
theorem Sink.receiveAll_plain
    (calls : List Call)
    (events : List Event) :
    (Sink.plain calls).receiveAll events =
      .plain (calls ++ (events.filterMap Event.fault?).map Fault.call) := by
  rw [Sink.receiveAll]
  induction events.filterMap Event.fault? generalizing calls with
  | nil => simp
  | cons fault faults inductionHypothesis =>
      rw [List.foldl_cons, Sink.receive, inductionHypothesis]
      simp

namespace Session

section Runs

variable {budget : Nat} {session : Session} {source : String} {run : SourceRun}

/-- A run leaves the program that was accepted, if one was. -/
theorem lastProgram_of_run?
    (ran : session.run? budget source = some run) :
    run.session.lastProgram = (Analysis.ofSource source).reading.accepted? := by
  rcases cases_of_run? ran with ⟨-, rfl⟩ | ⟨-, succeeded, state, -, rfl⟩
  · rfl
  · rfl

end Runs

end Session

namespace CommandLine

/-- The state in which the program of a script starts. -/
def scriptStart :
    Evaluation.State :=
  .start (.ofGlobals Scope.empty []) 0

/-- A script without errors one of whose statements raises an error. -/
def StopsWithError
    (source : String) :
    Prop :=
  (Analysis.ofSource source).faults = [] ∧
    ∃ budget progress error,
      Evaluation.execProgram ⟨false, false⟩ budget
        (Analysis.ofSource source).reading.found
          scriptStart = some progress ∧
        progress.error? = some error

section Calls

variable {budget : Nat} {directory : Directory} {arguments : List String}
  {options : Options} {source path : String}

/-- How the run of a script ends. -/
inductive RunEnds (source : String) (ending : Ending) : Prop where
  | refused :
      (Analysis.ofSource source).faults ≠ [] →
      ending.exitCode = 65 →
      ending.output = "" →
      RunEnds source ending
  | finished :
      (Analysis.ofSource source).faults = [] →
      ¬ StopsWithError source →
      ending.exitCode = 0 →
      RunEnds source ending
  | stopped :
      StopsWithError source →
      ending.exitCode = 70 →
      RunEnds source ending

/-- The exit code of a script that is run without a trace. -/
structure RunExit
    (source : String)
    (ending : Ending) :
    Prop where
  static : ending.exitCode = 65 ↔ (Analysis.ofSource source).faults ≠ []
  quiet : (Analysis.ofSource source).faults ≠ [] → ending.output = ""
  runtime : ending.exitCode = 70 ↔ StopsWithError source
  otherwise : ending.exitCode = 0 ↔
    (Analysis.ofSource source).faults = [] ∧ ¬ StopsWithError source

/-- How a run ends tells how the program exits. -/
theorem RunEnds.exit
    {ending : Ending}
    (ends : RunEnds source ending) :
    RunExit source ending := by
  cases ends with
  | refused faulty code output =>
      have noStop : ¬ StopsWithError source := fun stops => faulty stops.1
      constructor <;> simp [code, output, faulty, noStop]
  | finished clean noStop code => constructor <;> simp [code, clean, noStop]
  | stopped stops code => constructor <;> simp [code, stops, stops.1]

end Calls

end CommandLine

end Lox
