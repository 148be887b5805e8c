import Lox.Text.Position

namespace Lox

/-!
# Faults and reports

A fault is what is wrong with a program, at a place of its text.  A report adds
the column and an excerpt of the text, where the text is known.
-/

/-- The kinds of runtime errors. -/
inductive RuntimeKind where
  | typeError
  | divideByZero
  | undefinedVariable
  | nilAccess
  | illegalControlSignal
  /-- Any other error of a running program. -/
  | general
  deriving Repr, DecidableEq

namespace RuntimeKind

/-- The name of a kind. -/
def name :
    RuntimeKind → String
  | .typeError => "TypeError"
  | .divideByZero => "DivideByZero"
  | .undefinedVariable => "UndefinedVariable"
  | .nilAccess => "NilAccess"
  | .illegalControlSignal => "IllegalControlSignal"
  | .general => "RuntimeError"

/-- All kinds. -/
def all :
    List RuntimeKind :=
  [.typeError, .divideByZero, .undefinedVariable, .nilAccess,
    .illegalControlSignal, .general]

/-- The kind with a name. -/
def ofName?
    (name : String) :
    Option RuntimeKind :=
  all.find? fun kind => kind.name = name

end RuntimeKind

/-- The stage of the work that found a fault. -/
inductive Stage where
  | lexical
  | grammar
  | runtime
  /-- A stage outside the interpreter, which reports by its own name. -/
  | other (name : String)
  deriving Repr, DecidableEq

namespace Stage

/-- The name of a stage in reports. -/
def name :
    Stage → String
  | .lexical => "lexical"
  | .grammar => "syntax"
  | .runtime => "runtime"
  | .other name => name

/-- The stage with a name. -/
def ofName
    (name : String) :
    Stage :=
  if name = Stage.lexical.name then
    .lexical
  else if name = Stage.grammar.name then
    .grammar
  else if name = Stage.runtime.name then
    .runtime
  else
    .other name

/-- Stages before the program runs. -/
def isStatic
    (stage : Stage) :
    Bool :=
  stage != .runtime

end Stage

/-- A report, ready to be written. -/
structure Report where
  stage : Stage
  line : Int
  /-- Where on the line, in words that follow the word Error. -/
  location : String
  message : String
  column : Option Int
  context : Option String
  deriving Repr, DecidableEq

namespace Report

/-- A report without its excerpt. -/
def headline
    (report : Report) :
    String :=
  if report.stage.isStatic then
    s!"[line {report.line}] Error{report.location}: {report.message}"
  else
    s!"{report.message}\n[line {report.line}]"

/-- The whole text of a report; an empty excerpt is left out. -/
def text
    (report : Report) :
    String :=
  match report.context with
  | none => report.headline
  | some context =>
      if context.isEmpty then
        report.headline
      else
        report.headline ++ "\n" ++ context

end Report

/-- What found a fault; runtime errors have kinds. -/
inductive Origin where
  | lexical
  | grammar
  | runtime (kind : RuntimeKind)
  deriving Repr, DecidableEq

namespace Origin

/-- The stage that an origin belongs to. -/
def stage :
    Origin → Stage
  | .lexical => .lexical
  | .grammar => .grammar
  | .runtime _ => .runtime

end Origin

/-- The words for a place at the end of a text. -/
def locationAtEnd :
    String :=
  " at end"

/-- The words for a place at a lexeme. -/
def locationAt
    (lexeme : String) :
    String :=
  " at '" ++ lexeme ++ "'"

/-- Something wrong with a program. -/
structure Fault where
  origin : Origin
  line : Int
  location : String
  message : String
  /-- The character at fault, if it is known. -/
  offset : Option Nat
  deriving Repr, DecidableEq

namespace Fault

/-- Report a fault of a text; runtime errors are reported without a column. -/
def report
    (fault : Fault)
    (source : Option String) :
    Report :=
  let context :=
    match source, fault.offset with
    | some text, some offset => some (Text.excerpt text offset)
    | _, _ => none
  let column :=
    match source, fault.offset with
    | some text, some offset => (Text.column? text offset).map Int.ofNat
    | _, _ => none
  match fault.origin with
  | .runtime _ =>
      ⟨.runtime, fault.line, "", fault.message, none, context⟩
  | origin =>
      ⟨origin.stage, fault.line, fault.location, fault.message, column, context⟩

/--
A fault found before the program runs in one line, a runtime error by its message.
-/
def text
    (fault : Fault) :
    String :=
  match fault.origin with
  | .runtime _ => fault.message
  | _ => (fault.report none).text

end Fault

/-- What happens while a text is read and run, in order. -/
inductive Event where
  | printed (text : String)
  /-- A line that only a trace shows. -/
  | traced (text : String)
  | faulted (fault : Fault)
  deriving Repr, DecidableEq

namespace Event

/-- The texts printed by a program. -/
def printedText? :
    Event → Option String
  | .printed text => some text
  | _ => none

/-- The lines of a trace. -/
def tracedText? :
    Event → Option String
  | .traced text => some text
  | _ => none

/-- All lines but those of reports. -/
def shownText? :
    Event → Option String
  | .printed text => some text
  | .traced text => some text
  | .faulted _ => none

/-- The faults found. -/
def fault? :
    Event → Option Fault
  | .faulted fault => some fault
  | _ => none

end Event

/-- Lines of text, each with its line feed. -/
def joinLines
    (lines : List String) :
    String :=
  String.join (lines.map (· ++ "\n"))

end Lox
