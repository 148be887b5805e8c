import Lox.Session
import Lox.Tree.Printer
import Lox.Text.Blank

namespace Lox

/-!
# Interactive mode

Lines are commands or source texts.  Bindings last from line to line; errors do
not.
-/

/-- The name and version of the interpreter. -/
def versionText :
    String :=
  "Lox v0.3.0 (Tree-walking Interpreter)"

namespace Console

/-- What a line asks for. -/
inductive Command where
  | quit
  | skip
  | help
  | listBindings
  | parse (text : String)
  | run (source : String)
  deriving Repr, DecidableEq

namespace Command

/-- The characters in front of an expression that is only parsed. -/
def parseLead :
    List Char :=
  ":parse ".toList

/-- Blanks around a line do not count for commands; source texts keep them. -/
def ofLine
    (line : String) :
    Command :=
  let trimmed := Text.trim line
  if trimmed = "exit" then
    .quit
  else if trimmed.isEmpty then
    .skip
  else if trimmed = ":help" then
    .help
  else if trimmed = ":env" then
    .listBindings
  else if parseLead.isPrefixOf trimmed.toList then
    .parse (String.ofList (trimmed.toList.drop parseLead.length))
  else
    .run line

end Command

/-- The help text. -/
def helpText :
    String :=
  joinLines
    ["REPL Commands:",
      "  :parse <expr>     - Show the parsed expression",
      "  :env              - Show global bindings",
      "  :help             - Show this help",
      "  exit              - Exit REPL",
      "",
      "Language features:",
      "  var x = 5;                      - Variable declaration",
      "  x = x + 1;                      - Assignment",
      "  print \"a\" + 1;                  - Print (strings absorb other values)",
      "  if (x > 3) print x; else \x7b \x7d    - Conditionals",
      "  for (var i = 0; i < 3; i = i + 1) \x7b if (i == 1) continue; " ++
        "print i; \x7d"]

/-- The longest value that a listing shows whole. -/
def widestValue :
    Nat :=
  60

/-- A value in a listing; a long one is cut and marked. -/
def clippedText
    (text : String) :
    String :=
  let characters := text.toList
  if characters.length > widestValue then
    String.ofList (characters.take (widestValue - 3)) ++ "..."
  else
    text

/-- The bindings of a scope, one a line. -/
def bindingsText
    (scope : Scope) :
    String :=
  let rows := scope.bindings.map fun binding =>
    "  " ++ binding.1 ++ " = " ++ clippedText binding.2.display
  joinLines
    ("Current environment:" ::
      if rows.isEmpty then ["  (no user-defined bindings)"] else rows)

/-- Reports stand among the other lines and show no excerpts. -/
def reporter :
    Reporter :=
  Reporter.fresh none false

/-- The session that a console starts with; values of expressions are shown. -/
def freshSession
    (tracing : Bool) :
    Session :=
  Session.fresh ⟨true, tracing⟩ (.reporter reporter)

/--
What a console works with: a session that runs texts, and a reader that only parses.
-/
structure Desk where
  session : Session
  reader : TextReader
  deriving Repr

namespace Desk

/-- A desk with a session; its reader tells the same receiver of errors. -/
def ofSession
    (session : Session) :
    Desk where
  session := session
  reader := TextReader.fresh session.settings.tracing

/-- Parse an expression, and show it if it is one. -/
def parse
    (desk : Desk)
    (text : String) :
    String × Desk :=
  let (answer, reader) := desk.reader.readExpression text
  let sink := desk.session.sink.clear
  let shown :=
    match answer.value? with
    | none => ""
    | some expr => expr.text ++ "\n"
  (sink.transcript answer.events ++ shown,
    ⟨{ desk.session with sink := sink.receiveAll answer.events }, reader⟩)

/-- Run a text, and show what happens. -/
def run?
    (budget : Nat)
    (desk : Desk)
    (source : String) :
    Option (String × Desk) :=
  (desk.session.run? budget source).map fun run =>
    ((desk.session.sink.prepare source).transcript run.events,
      ⟨run.session, desk.reader⟩)

end Desk

/-- What a command shows, and the desk behind it; quitting ends the conversation. -/
def perform?
    (budget : Nat)
    (desk : Desk) :
    Command → Option (String × Desk)
  | .quit => some ("", desk)
  | .skip => some ("", desk)
  | .help => some (helpText, desk)
  | .listBindings => some (bindingsText desk.session.environment.globals, desk)
  | .parse text => some (desk.parse text)
  | .run source => desk.run? budget source

/-- The lines above the first prompt. -/
def bannerText
    (tracing : Bool) :
    String :=
  joinLines
    (s!"{versionText} - Interactive Mode" ::
      "Type 'exit' to quit, ':help' for commands" ::
      ((if tracing then ["Debug mode enabled"] else []) ++ [""]))

/-- The lines that an interrupt or the end of the input show. -/
def farewellText :
    String :=
  joinLines ["", "Goodbye!"]

/-- A conversation: what was shown, prompts aside, and how the input was used. -/
structure Transcript where
  /-- What was shown after each prompt. -/
  replies : List String
  /-- How many lines were left when the conversation ended. -/
  unread : Nat
  deriving Repr, DecidableEq

namespace Transcript

/-- Put a reply in front of the others. -/
def after
    (reply : String)
    (later : Transcript) :
    Transcript :=
  { later with replies := reply :: later.replies }

/-- The whole text of a conversation. -/
def text
    (transcript : Transcript)
    (tracing : Bool)
    (prompt : String) :
    String :=
  bannerText tracing ++ String.join (transcript.replies.map (prompt ++ ·))

end Transcript

/--
Go on with a conversation over some lines, among which an interrupt is no line.  It
ends with the first interrupt, the first line that quits, or the input.
-/
def goOn?
    (budget : Nat) :
    Desk → List (Option String) → Option Transcript
  | _, [] => some ⟨[farewellText], 0⟩
  | _, none :: rest => some ⟨[farewellText], rest.length⟩
  | desk, some line :: rest =>
      match Command.ofLine line with
      | .quit => some ⟨[""], rest.length⟩
      | command =>
          match perform? budget desk command with
          | none => none
          | some (reply, next) =>
              (goOn? budget next rest).map (Transcript.after reply)

/-- Hold a conversation over some lines, with a session to run texts in. -/
def converse?
    (budget : Nat)
    (session : Session)
    (lines : List (Option String)) :
    Option Transcript :=
  goOn? budget (Desk.ofSession session) lines

/-- The words that the console completes. -/
def completions :
    List String :=
  ["and", "break", "continue", "else", "false", "for", "if", "nil", "or", "print",
    "true", "var", "while", ":parse", ":env", ":help", "exit"]

/-- The words that start with a text, in order. -/
def completionsOf
    (text : String) :
    List String :=
  completions.filter fun word => text.toList.isPrefixOf word.toList

end Console

end Lox
