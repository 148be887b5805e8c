import Lox.CommandLine.Options
import Lox.CommandLine.Directory
import Lox.Text.Newline

namespace Lox.CommandLine

/-!
# Calls of the interpreter

A call lists the tokens of a script, shows its tree or runs it, or holds a
conversation.  Its exit code tells how that went.
-/

/-- What a call writes, and its exit code. -/
structure Ending where
  exitCode : Nat
  output : String
  errors : String
  deriving Repr, DecidableEq

/-- Why a call breaks off. -/
inductive Failure where
  | isDirectory (path : String)
  deriving Repr, DecidableEq

namespace Failure

/-- The message of a failure. -/
def message :
    Failure → String
  | .isDirectory path => s!"[Errno 21] Is a directory: {Text.quoted path}"

end Failure

/-- The call cannot be understood together with its script. -/
def exitUsage : Nat :=
  64

/-- The script has lexical errors or errors of grammar. -/
def exitStaticError : Nat :=
  65

/-- The script cannot be read. -/
def exitNoInput : Nat :=
  66

/-- The script stopped with a runtime error. -/
def exitRuntimeError : Nat :=
  70

/-- The options of a call are wrong. -/
def exitOptions : Nat :=
  2

/-- The line that shows how the interpreter is called. -/
def usageText :
    String :=
  joinLines
    ["usage: lox [-h] [-i] [--tokens] [--parse] [--debug] [--version] [script]"]

/-- The help for calls. -/
def helpText :
    String :=
  usageText ++ joinLines
    ["",
      "Lox Programming Language - tree-walking interpreter",
      "",
      "positional arguments:",
      "  script             Lox script file to execute",
      "",
      "options:",
      "  -h, --help         show this help message and exit",
      "  -i, --interactive  Start interactive mode",
      "  --tokens           Scan file and show tokens (for debugging)",
      "  --parse            Parse file and show AST (for debugging)",
      "  --debug            Enable debug output for all stages",
      "  --version          show program's version number and exit",
      "",
      "Examples:",
      "  lox script.lox             # Run a Lox script",
      "  lox                        # Interactive mode",
      "  lox --tokens script.lox    # Scan file and show tokens",
      "  lox --parse script.lox     # Parse file and show AST",
      "  lox --debug script.lox     # Run with debug output",
      "        "]

/-- Reports on scripts show excerpts of them. -/
def scriptReporter
    (source : String) :
    Reporter :=
  Reporter.fresh (some source) true

/-- The text of the reports on a script. -/
def reportsText
    (source : String)
    (events : List Event) :
    String :=
  joinLines ((events.filterMap Event.fault?).map fun fault =>
    ((scriptReporter source).reportOf fault).text)

/-- The lines that a script prints and traces. -/
def shownText
    (events : List Event) :
    String :=
  joinLines (events.filterMap Event.shownText?)

/-- List the tokens of a script. -/
def listTokens
    (debug : Bool)
    (source : String) :
    Ending :=
  let scan := Lexer.scan source
  let events := scan.events debug
  {
    exitCode := if scan.errors.isEmpty then 0 else exitStaticError
    output := shownText events ++ scan.stream.listing ++ "\n"
    errors := reportsText source events
  }

/-- The outlines of some statements, numbered from a number on. -/
def outlinesFrom :
    Nat → Program → String
  | _, [] => ""
  | number, statement :: rest =>
      joinLines ["", s!"Statement {number}:"] ++ (Node.stmt statement).outline 0 ++
        outlinesFrom (number + 1) rest

/-- Show the tree of a script. -/
def showTree
    (debug : Bool)
    (path : String)
    (source : String) :
    Ending :=
  let (answer, reader) := (TextReader.fresh debug).readProgram source
  let start := joinLines [s!"Parsing {path}..."] ++ shownText answer.events
  let reports := reportsText source answer.events
  match answer.value? with
  | none =>
      {
        exitCode := exitStaticError
        output := start
        errors := reports ++
          joinLines ["", s!"{reader.faults.length} error(s) in '{path}'"]
      }
  | some program =>
      {
        exitCode := 0
        output := start ++
          joinLines
            ["", s!"Parsed {program.length} top-level statements:",
              String.ofList (List.replicate 50 '=')] ++
          outlinesFrom 1 program
        errors := reports
      }

/-- The exit code of a run. -/
def exitCodeOf :
    Status → Nat
  | .ok => 0
  | .staticError => exitStaticError
  | .runtimeError => exitRuntimeError

/-- Run a script. -/
def runScript?
    (budget : Nat)
    (debug : Bool)
    (path : String)
    (source : String) :
    Option Ending :=
  let session := Session.fresh ⟨false, debug⟩ (.reporter (scriptReporter source))
  (session.run? budget source).map fun run =>
    {
      exitCode := exitCodeOf run.status
      output :=
        (if debug then joinLines [s!"Running {path}..."] else "") ++
          shownText run.events
      errors := reportsText source run.events
    }

/-- The end of a call whose script cannot be read. -/
def noInput
    (lines : List String) :
    Ending :=
  ⟨exitNoInput, "", joinLines lines⟩

/-- Work on a script as the options tell. -/
def workOn?
    (budget : Nat)
    (options : Options)
    (path : String)
    (bytes : List UInt8) :
    Option Ending :=
  match Text.ofFile bytes with
  | .error fault =>
      some (noInput
        [s!"Error: Cannot decode file '{path}': {fault.message}",
          "  Hint: Make sure the file is a text file with UTF-8 encoding"])
  | .ok source =>
      if options.tokens then
        some (listTokens options.debug source)
      else if options.parse then
        some (showTree options.debug path source)
      else
        runScript? budget options.debug path source

/--
Work on what the path of a script leads to; there is no conversation over a script.
-/
def workAt?
    (budget : Nat)
    (options : Options)
    (path : String)
    (entry : Entry) :
    Option (Except Failure Ending) :=
  match entry with
  | .missing =>
      some (.ok (noInput [s!"Error: Script file '{path}' does not exist"]))
  | .directory =>
      if options.interactive then
        some (.ok ⟨exitUsage, "", usageText⟩)
      else
        some (.error (.isDirectory path))
  | .file bytes =>
      if options.interactive then
        some (.ok ⟨exitUsage, "", usageText⟩)
      else
        (workOn? budget options path bytes).map .ok

/-- The prompt of a console. -/
def prompt :
    String :=
  "lox> "

/-- The lines of an input; the last one need not be ended. -/
def inputLines
    (input : String) :
    List String :=
  let rec linesFrom : List Char → List (List Char)
    | [] => []
    | character :: rest =>
        if character = '\n' then
          [] :: linesFrom rest
        else
          match linesFrom rest with
          | [] => [[character]]
          | line :: lines => (character :: line) :: lines
  (linesFrom input.toList).map String.ofList

/-- Hold a conversation over an input. -/
def interact?
    (budget : Nat)
    (debug : Bool)
    (input : String) :
    Option Ending :=
  (Console.converse? budget (Console.freshSession debug)
    ((inputLines input).map some)).map fun transcript =>
      ⟨0, transcript.text debug prompt, ""⟩

/-- The next thing to do for a call. -/
inductive Task where
  | finish (ending : Ending)
  | converse (debug : Bool)
  | work (options : Options) (path : String)
  deriving Repr, DecidableEq

/-- What a call asks for; a script without a name is none. -/
def taskOf
    (arguments : List String) :
    Task :=
  match decideCall arguments with
  | .showHelp => .finish ⟨0, helpText, ""⟩
  | .showVersion => .finish ⟨0, joinLines [versionText], ""⟩
  | .refuse error =>
      .finish
        ⟨exitOptions, "", usageText ++ joinLines [s!"lox: error: {error.message}"]⟩
  | .proceed options =>
      match options.script with
      | none => .converse options.debug
      | some path =>
          if path.isEmpty then .converse options.debug else .work options path

/-- Answer a call in a directory, with an input. -/
def answer?
    (budget : Nat)
    (directory : Directory)
    (arguments : List String)
    (input : String) :
    Option (Except Failure Ending) :=
  match taskOf arguments with
  | .finish ending => some (.ok ending)
  | .converse debug => (interact? budget debug input).map .ok
  | .work options path => workAt? budget options path (directory.entry path)

end Lox.CommandLine
