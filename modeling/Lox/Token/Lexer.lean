import Lox.Token

namespace Lox.Lexer

/-!
# From text to tokens

A text is cut into pieces from the left: tokens, blanks, comments and faulty
stretches.  Each piece is the longest that starts where it starts, and the
pieces joined are the text.  Tokens and faults then get their places from the
pieces before them.
-/

/-- What a piece of text is. -/
inductive Shape where
  | token (kind : Kind)
  | blank
  | comment
  | unexpectedCharacter
  | unterminatedString
  deriving Repr, DecidableEq

/-- A stretch of text with its shape. -/
structure Piece where
  shape : Shape
  text : List Char
  deriving Repr, DecidableEq

/-- ASCII letters and the underscore start a name. -/
def startsName
    (character : Char) :
    Bool :=
  character.isAlpha || character == '_'

/-- ASCII letters, digits and the underscore continue a name. -/
def continuesName
    (character : Char) :
    Bool :=
  character.isAlphanum || character == '_'

/-- Blanks between tokens. -/
def isBlank
    (character : Char) :
    Bool :=
  character == ' ' || character == '\r' || character == '\t' || character == '\n'

/-- How many characters satisfy a test before the first that fails it. -/
def runLength
    (test : Char → Bool)
    (characters : List Char) :
    Nat :=
  (characters.takeWhile test).length

/-- A point belongs to a number only if a digit follows it. -/
def fractionLength :
    List Char → Nat
  | '.' :: digit :: rest =>
      if digit.isDigit then 2 + runLength Char.isDigit rest else 0
  | _ => 0

/-- How many characters continue a number after its first digit. -/
def numberLength
    (rest : List Char) :
    Nat :=
  let whole := runLength Char.isDigit rest
  whole + fractionLength (rest.drop whole)

/-- A string ends at the next quote; without one it takes all that is left. -/
def stringShape
    (rest : List Char) :
    Shape × Nat :=
  let body := runLength (· != '"') rest
  if body < rest.length then
    (.token .string, body + 1)
  else
    (.unterminatedString, body)

/--
The shape of the piece that starts with a character, and how far it continues.
-/
def leading
    (first : Char)
    (rest : List Char) :
    Shape × Nat :=
  if let some kind := Kind.ofPunctuation? first then
    (.token kind, 0)
  else if let some (alone, paired) := Kind.ofComparison? first then
    if rest.head? = some '=' then (.token paired, 1) else (.token alone, 0)
  else if first = '/' then
    if rest.head? = some '/' then
      (.comment, runLength (· != '\n') rest)
    else
      (.token .slash, 0)
  else if isBlank first then
    (.blank, 0)
  else if first = '"' then
    stringShape rest
  else if first.isDigit then
    (.token .number, numberLength rest)
  else if startsName first then
    let length := runLength continuesName rest
    (.token (Kind.ofWord (String.ofList (first :: rest.take length))), length)
  else
    (.unexpectedCharacter, 0)

/-- Cut a text whose first `pending` characters belong to the piece before. -/
def piecesAfter :
    (pending : Nat) → List Char → List Piece
  | _, [] => []
  | pending + 1, _ :: rest => piecesAfter pending rest
  | 0, first :: rest =>
      let (shape, length) := leading first rest
      ⟨shape, first :: rest.take length⟩ :: piecesAfter length rest

/-- Cut a text into pieces. -/
def pieces
    (characters : List Char) :
    List Piece :=
  piecesAfter 0 characters

/-- Characters that belong to the piece before are passed over. -/
theorem piecesAfter_eq_pieces_drop
    (pending : Nat)
    (characters : List Char) :
    piecesAfter pending characters = pieces (characters.drop pending) := by
  induction characters generalizing pending with
  | nil => cases pending <;> simp [pieces, piecesAfter]
  | cons first rest inductionHypothesis =>
      cases pending with
      | zero =>
          rfl
      | succ pending =>
          simpa [piecesAfter] using inductionHypothesis pending

@[simp] theorem pieces_nil :
    pieces [] = [] :=
  rfl

/-- The first piece is the leading one, and cutting goes on behind it. -/
theorem pieces_cons
    (first : Char)
    (rest : List Char) :
    pieces (first :: rest) =
      ⟨(leading first rest).1, first :: rest.take (leading first rest).2⟩ ::
        pieces (rest.drop (leading first rest).2) := by
  rw [← piecesAfter_eq_pieces_drop]
  rfl

/-- The pieces joined are the text. -/
theorem flatMap_pieces
    (characters : List Char) :
    (pieces characters).flatMap Piece.text = characters := by
  match characters with
  | [] => rfl
  | first :: rest =>
      rw [pieces_cons, List.flatMap_cons,
        flatMap_pieces (rest.drop (leading first rest).2)]
      simp
termination_by characters.length
decreasing_by
  simp only [List.length_drop, List.length_cons]
  omega

/-- A piece with the place where it starts and the line on which it ends. -/
structure Placed where
  piece : Piece
  offset : Nat
  line : Nat
  deriving Repr, DecidableEq

/-- Place pieces that start at an offset, on a line. -/
def place :
    (offset : Nat) → (line : Nat) → List Piece → List Placed
  | _, _, [] => []
  | offset, line, piece :: rest =>
      let lastLine := line + Text.lineFeeds piece.text
      ⟨piece, offset, lastLine⟩ :: place (offset + piece.text.length) lastLine rest

/-- The value that a lexeme of a kind denotes. -/
def literalOf
    (kind : Kind)
    (text : List Char) :
    Value :=
  match kind with
  | .number =>
      let whole := text.takeWhile Char.isDigit
      .number (Decimal.Numeral.mk whole (text.drop (whole.length + 1)) 0).value
  | .string => .string (String.ofList (text.drop 1).dropLast)
  | _ => .nil

/-- Why a stretch of text is no token. -/
inductive Cause where
  | unexpectedCharacter
  | unterminatedString
  deriving Repr, DecidableEq

namespace Cause

/-- The message of a lexical error. -/
def message :
    Cause → String
  | .unexpectedCharacter => "Unexpected character."
  | .unterminatedString => "Unterminated string."

end Cause

/-- A faulty stretch of text, by its first character and its last line. -/
structure LexicalError where
  cause : Cause
  line : Nat
  offset : Nat
  deriving Repr, DecidableEq

namespace Placed

/-- The token of a piece. -/
def token?
    (placed : Placed) :
    Option Token :=
  match placed.piece.shape with
  | .token kind =>
      some {
        kind := kind
        lexeme := String.ofList placed.piece.text
        literal := literalOf kind placed.piece.text
        line := placed.line
        offset := placed.offset
      }
  | _ => none

/-- The error of a piece. -/
def error?
    (placed : Placed) :
    Option LexicalError :=
  match placed.piece.shape with
  | .unexpectedCharacter =>
      some ⟨.unexpectedCharacter, placed.line, placed.offset⟩
  | .unterminatedString =>
      some ⟨.unterminatedString, placed.line, placed.offset⟩
  | _ => none

end Placed

/-- The tokens of a text and its lexical errors, each in order. -/
structure Scan where
  stream : Stream
  errors : List LexicalError
  deriving Repr, DecidableEq

/-- Read a text; faulty stretches are recorded and passed over. -/
def scan
    (source : String) :
    Scan :=
  let characters := source.toList
  let placed := place 0 1 (pieces characters)
  {
    stream := {
      tokens := placed.filterMap Placed.token?
      finish := ⟨1 + Text.lineFeeds characters, characters.length⟩
    }
    errors := placed.filterMap Placed.error?
  }

end Lox.Lexer
