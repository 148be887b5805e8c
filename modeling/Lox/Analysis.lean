import Lox.Token.Lexer
import Lox.Parser.Program
import Lox.Diagnostic.Reporter

namespace Lox

/-!
# Analysing a source text

A text is read into tokens and the tokens into a tree.  The tokens are read also
if the text has lexical errors, so that all errors are found at once.
-/

/-- A lexical error as a fault of the text. -/
def Lexer.LexicalError.fault
    (error : Lexer.LexicalError) :
    Fault :=
  ⟨.lexical, error.line, "", error.cause.message, some error.offset⟩

/-- What happens while a text is cut into tokens. -/
def Lexer.Scan.events
    (scan : Lexer.Scan)
    (tracing : Bool) :
    List Event :=
  let summary :=
    s!"Scanned {scan.stream.tokens.length + 1} tokens, {scan.errors.length} errors"
  scan.errors.map (fun error => .faulted error.fault) ++
    if tracing then [.traced summary] else []

namespace Reading

/-- What happens while tokens are read. -/
def noteEvents
    (reading : Reading α)
    (finish : EndMark)
    (tracing : Bool) :
    List Event :=
  reading.notes.filterMap (Note.event? finish tracing)

/-- What happens while a program is read. -/
def programEvents
    (reading : Reading Program)
    (finish : EndMark)
    (tracing : Bool) :
    List Event :=
  let summary :=
    s!"Parsed {reading.found.length} statements, {reading.errors.length} errors"
  reading.noteEvents finish tracing ++ if tracing then [.traced summary] else []

end Reading

/-- The tokens of a text and the program read from them. -/
structure Analysis where
  scan : Lexer.Scan
  reading : Reading Program
  deriving Repr

namespace Analysis

/-- Analyse a text. -/
def ofSource
    (source : String) :
    Analysis :=
  let scan := Lexer.scan source
  ⟨scan, readProgram scan.stream.tokens⟩

/-- What happens during an analysis. -/
def events
    (analysis : Analysis)
    (tracing : Bool) :
    List Event :=
  analysis.scan.events tracing ++
    analysis.reading.programEvents analysis.scan.stream.finish tracing

/-- All errors, the lexical ones first. -/
def faults
    (analysis : Analysis) :
    List Fault :=
  (analysis.events false).filterMap Event.fault?

/-- The program, if the text has no error. -/
def program?
    (analysis : Analysis) :
    Option Program :=
  if analysis.faults.isEmpty then some analysis.reading.found else none

end Analysis

/-- The answer to a text that is read without being run. -/
structure Answer (α : Type) where
  value? : Option α
  events : List Event
  deriving Repr

namespace Answer

/-- The errors that stood in the way. -/
def faults
    (answer : Answer α) :
    List Fault :=
  answer.events.filterMap Event.fault?

end Answer

/-- A reader of texts that are not run, with the errors of the latest text. -/
structure TextReader where
  tracing : Bool
  faults : List Fault
  deriving Repr, DecidableEq

namespace TextReader

/-- A reader that has read nothing. -/
def fresh
    (tracing : Bool) :
    TextReader where
  tracing := tracing
  faults := []

/-- Whether the latest text had errors. -/
def hadError
    (reader : TextReader) :
    Bool :=
  !reader.faults.isEmpty

/-- Cut a text into tokens; its errors take the place of those of earlier texts. -/
def scan
    (reader : TextReader)
    (source : String) :
    Lexer.Scan × TextReader :=
  let scan := Lexer.scan source
  (scan, { reader with faults := scan.errors.map Lexer.LexicalError.fault })

/-- Add the errors that were found while the tokens were read. -/
def recordErrors
    (reader : TextReader)
    (reading : Reading α)
    (finish : EndMark) :
    TextReader :=
  { reader with
    faults := reader.faults ++ reading.errors.map (GrammarError.fault finish) }

/-- Read the tokens of a text. -/
def readTokens
    (reader : TextReader)
    (source : String) :
    Answer Stream × TextReader :=
  let (scan, scanned) := reader.scan source
  (⟨some scan.stream, scan.events reader.tracing⟩, scanned)

/-- Read the program of a text. -/
def readProgram
    (reader : TextReader)
    (source : String) :
    Answer Program × TextReader :=
  let (scan, scanned) := reader.scan source
  let reading := Lox.readProgram scan.stream.tokens
  let read := scanned.recordErrors reading scan.stream.finish
  (⟨if read.hadError then none else some reading.found,
    scan.events reader.tracing ++
      reading.programEvents scan.stream.finish reader.tracing⟩,
    read)

/--
Read the one expression of a text; a text with lexical errors is not read further.
-/
def readExpression
    (reader : TextReader)
    (source : String) :
    Answer Expr × TextReader :=
  let (scan, scanned) := reader.scan source
  if scanned.hadError then
    (⟨none, scan.events reader.tracing⟩, scanned)
  else
    let reading := Lox.readExpression scan.stream.tokens
    (⟨reading.accepted?.join,
      scan.events reader.tracing ++
        reading.noteEvents scan.stream.finish reader.tracing⟩,
      scanned.recordErrors reading scan.stream.finish)

end TextReader

/-- Read the program of a text. -/
def readProgramText
    (tracing : Bool)
    (source : String) :
    Answer Program :=
  ((TextReader.fresh tracing).readProgram source).1

/-- Read the tokens of a text. -/
def readTokens
    (tracing : Bool)
    (source : String) :
    Answer Stream :=
  ((TextReader.fresh tracing).readTokens source).1

/-- Read the one expression of a text. -/
def readExpressionText
    (tracing : Bool)
    (source : String) :
    Answer Expr :=
  ((TextReader.fresh tracing).readExpression source).1

end Lox
