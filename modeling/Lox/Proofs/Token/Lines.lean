import Lox.Proofs.Token.Coverage
import Lox.Proofs.Token.Seam

namespace Lox

/-!
# Lines of tokens and errors

Every piece of a text stands where it is cut off, and ends on the line that the
line feeds up to its end make.  An unterminated string ends with its text, so
more text behind it would move its error further down.  Main statement: the
scans of two texts make up the scan of both with a line feed between them
exactly if the first leaves no string open.
-/

/-- A stretch of a text that starts at an offset and ends on a line. -/
inductive Text.Stands (text stretch : List Char) (offset line : Nat) : Prop where
  | mk
      {before after : List Char} :
      text = before ++ (stretch ++ after) →
      offset = before.length →
      line = 1 + lineFeeds before + lineFeeds stretch →
      Stands text stretch offset line

/-- A row of a listing for a text that stands further down and further behind. -/
def Row.moved
    (lines characters : Nat)
    (row : Row) :
    Row :=
  { row with line := row.line + lines, offset := row.offset + characters }

namespace Lexer

/--
The stretch of a text that an error blames: one character, or all that is left.
-/
def LexicalError.stretch
    (text : List Char)
    (error : LexicalError) :
    List Char :=
  match error.cause with
  | .unexpectedCharacter => (text.drop error.offset).take 1
  | .unterminatedString => text.drop error.offset

/--
A placed piece is cut off by a rule from what is left of a text where it stands.
-/
inductive CutFrom (text : List Char) (placed : Placed) : Prop where
  | mk
      {before rest : List Char}
      {first : Char}
      {length : Nat} :
      Rule first rest placed.piece.shape length →
      placed.piece.text = first :: rest.take length →
      text = before ++ first :: rest →
      placed.offset = before.length →
      placed.line = 1 + Text.lineFeeds before + Text.lineFeeds placed.piece.text →
      CutFrom text placed

/-- The pieces of what is left of a text are cut from the text. -/
theorem cutFrom_append
    (before characters : List Char)
    {placed : Placed}
    (member : placed ∈
      place before.length (1 + Text.lineFeeds before) (pieces characters)) :
    CutFrom (before ++ characters) placed := by
  match characters with
  | [] => cases member
  | first :: rest =>
      obtain ⟨shape, length, rule⟩ := exists_rule first rest
      rw [pieces_cons, rule.leading_eq] at member
      simp only [place, List.mem_cons] at member
      rcases member with rfl | later
      · exact .mk rule rfl rfl rfl rfl
      · rw [← List.length_append, Nat.add_assoc, ← lineFeeds_append] at later
        have cut :=
          cutFrom_append (before ++ first :: rest.take length)
            (rest.drop length) later
        simpa using cut
termination_by characters.length
decreasing_by
  simp only [List.length_drop, List.length_cons]
  omega

theorem cutFrom_of_mem
    {text : List Char}
    {placed : Placed}
    (member : placed ∈ place 0 1 (pieces text)) :
    CutFrom text placed :=
  cutFrom_append [] text member

theorem CutFrom.stands
    {text : List Char}
    {placed : Placed}
    (cut : CutFrom text placed) :
    Text.Stands text placed.piece.text placed.offset placed.line := by
  obtain @⟨before, rest, first, length, -, taken, isText, offset, line⟩ := cut
  refine @Text.Stands.mk _ _ _ _ before (rest.drop length) ?_ offset line
  simp [isText, taken]

section Places

variable {source : String} {token : Token} {error : LexicalError}

theorem stands_token
    (member : token ∈ (scan source).stream.tokens) :
    Text.Stands source.toList token.lexeme.toList token.offset token.line := by
  obtain ⟨⟨⟨shape, text⟩, offset, line⟩, isPlaced, isToken⟩ :=
    List.mem_filterMap.mp member
  have stands := (cutFrom_of_mem isPlaced).stands
  cases shape with
  | token kind =>
      cases isToken
      simpa using stands
  | _ => cases isToken

/-- The end of a text is a stretch without characters behind all others. -/
theorem stands_finish
    (source : String) :
    Text.Stands source.toList [] (scan source).stream.finish.offset
      (scan source).stream.finish.line :=
  @Text.Stands.mk _ _ _ _ source.toList [] (by simp) rfl rfl

/--
An error blames a character, or the whole text from an unterminated string on.
-/
theorem stands_error
    (member : error ∈ (scan source).errors) :
    Text.Stands source.toList (error.stretch source.toList)
      error.offset error.line := by
  obtain ⟨⟨⟨shape, text⟩, offset, line⟩, isPlaced, isError⟩ :=
    List.mem_filterMap.mp member
  have stands := (cutFrom_of_mem isPlaced).stands
  obtain @⟨before, rest, first, length, rule, taken, isText, isOffset, -⟩ :=
    cutFrom_of_mem isPlaced
  dsimp only at rule taken isOffset stands
  cases shape with
  | unexpectedCharacter =>
      cases isError
      cases rule with
      | unexpected noLexeme noBlank =>
          have blamed : LexicalError.stretch source.toList
              ⟨.unexpectedCharacter, line, offset⟩ = text := by
            simp [LexicalError.stretch, isText, isOffset, taken]
          rwa [blamed]
  | unterminatedString =>
      cases isError
      cases rule with
      | unterminated quote unclosed =>
          obtain ⟨whole, -⟩ := runLength_of_unclosed unclosed
          have blamed : LexicalError.stretch source.toList
              ⟨.unterminatedString, line, offset⟩ = text := by
            simp [LexicalError.stretch, isText, isOffset, taken, whole]
          rwa [blamed]
  | _ => cases isError

/-- A stretch ends on the line that all line feeds up to its end make. -/
theorem line_of_stands
    {text stretch : List Char}
    {offset line : Nat}
    (stands : Text.Stands text stretch offset line) :
    line = 1 + Text.lineFeeds (text.take (offset + stretch.length)) := by
  obtain ⟨isText, rfl, rfl⟩ := stands
  rw [isText, ← List.append_assoc, ← List.length_append, List.take_left,
    lineFeeds_append, Nat.add_assoc]

/-- The error of an unterminated string is blamed on the last line. -/
theorem line_of_unterminated
    (member : error ∈ (scan source).errors)
    (unterminated : error.cause = .unterminatedString) :
    error.line = 1 + Text.lineFeeds source.toList := by
  have stands := stands_error member
  have whole : error.stretch source.toList = source.toList.drop error.offset := by
    simp only [LexicalError.stretch, unterminated]
  rw [whole] at stands
  rw [line_of_stands stands, List.take_of_length_le]
  simp only [List.length_drop]
  omega

end Places

/-- The scans of two texts make up the scan of both, joined by a line feed. -/
structure ScansApart (first second : String) : Prop where
  /-- The row for the end of the first text is left out. -/
  rows :
    (scan (first ++ "\n" ++ second)).stream.rows =
      (scan first).stream.rows.dropLast ++
        (scan second).stream.rows.map
          (Row.moved (1 + Text.lineFeeds first.toList) (first.length + 1))
  errors :
    (scan (first ++ "\n" ++ second)).errors =
      (scan first).errors ++
        (scan second).errors.map
          (LexicalError.moved (1 + Text.lineFeeds first.toList) (first.length + 1))

/--
Two texts joined by a line feed are scanned one by one, exactly if the first has no
error for an unterminated string. If it has one, the same error would have to be on
the last line of both texts.
-/
theorem scansApart_iff
    (first second : String) :
    ScansApart first second ↔
      ∀ error ∈ (scan first).errors,
        error.cause.message ≠ "Unterminated string." := by
  constructor
  · intro apart error member message
    have unterminated : error.cause = .unterminatedString := by
      cases cause : error.cause with
      | unexpectedCharacter =>
          rw [cause] at message
          exact absurd message (by decide)
      | unterminatedString => rfl
    have inWhole : error ∈ (scan (first ++ "\n" ++ second)).errors := by
      rw [apart.errors]
      exact List.mem_append_left _ member
    have line := line_of_unterminated member unterminated
    have lineInWhole := line_of_unterminated inWhole unterminated
    have further : Text.lineFeeds (first ++ "\n" ++ second).toList =
        Text.lineFeeds first.toList + 1 + Text.lineFeeds second.toList := by
      simp [Text.lineFeeds, Nat.add_comm 1, Nat.add_assoc]
    omega
  · intro closed
    have joined := scan_append_lineFeed
      (fun error member cause => closed error member (cause ▸ rfl)) second
    constructor
    · rw [joined]
      simp only [Stream.rows, List.dropLast_concat, List.map_append, List.map_map,
        List.map_cons, List.map_nil, List.append_assoc]
      rfl
    · rw [joined]

end Lexer

end Lox
