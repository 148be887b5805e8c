import Lox.Proofs.Token.Leading

namespace Lox

/-!
# Texts joined by a line feed

A line feed ends every piece but an unterminated string.  So the pieces of two texts
with a line feed between them are those of the one and those of the other, and the
tokens of the second text only stand further down and further behind.
-/

/-- A token further down and further behind in its text. -/
def Token.moved
    (lines characters : Nat)
    (token : Token) :
    Token :=
  { token with line := token.line + lines, offset := token.offset + characters }

/-- The end of a text further down and further behind. -/
def EndMark.moved
    (lines characters : Nat)
    (finish : EndMark) :
    EndMark :=
  ⟨finish.line + lines, finish.offset + characters⟩

namespace Lexer

/-- An error further down and further behind in its text. -/
def LexicalError.moved
    (lines characters : Nat)
    (error : LexicalError) :
    LexicalError :=
  { error with line := error.line + lines, offset := error.offset + characters }

/-- A piece placed further down and further behind. -/
def Placed.moved
    (lines characters : Nat)
    (placed : Placed) :
    Placed :=
  { placed with offset := placed.offset + characters, line := placed.line + lines }

section Rules

variable {first : Char} {rest after : List Char} {shape : Shape} {length : Nat}

theorem runLength_le
    (test : Char → Bool)
    (characters : List Char) :
    runLength test characters ≤ characters.length :=
  (List.takeWhile_prefix test).length_le

/-- A run ends in front of a character that fails the test. -/
theorem runLength_append_cons
    {test : Char → Bool}
    {stop : Char}
    (stops : test stop = false)
    (characters after : List Char) :
    runLength test (characters ++ stop :: after) = runLength test characters := by
  simp only [runLength, List.takeWhile_append, List.takeWhile_cons, stops]
  split <;> simp_all

/-- A run that ends inside a text ends there whatever stands behind the text. -/
theorem runLength_append_of_lt
    {test : Char → Bool}
    {characters : List Char}
    (inside : runLength test characters < characters.length)
    (after : List Char) :
    runLength test (characters ++ after) = runLength test characters := by
  have shorter : ¬ (characters.takeWhile test).length = characters.length :=
    Nat.ne_of_lt inside
  simp only [runLength, List.takeWhile_append, shorter, ↓reduceIte]

/-- A line feed behind the characters does not belong to a fraction. -/
theorem fractionLength_append_lineFeed
    (characters after : List Char) :
    fractionLength (characters ++ '\n' :: after) = fractionLength characters := by
  match characters with
  | [] => rfl
  | [single] =>
      by_cases point : single = '.'
      · simp [fractionLength, point]
      · simp [fractionLength, point]
  | first :: digit :: rest =>
      have run :
          runLength Char.isDigit (rest ++ '\n' :: after) =
            runLength Char.isDigit rest :=
        runLength_append_cons rfl rest after
      by_cases point : first = '.'
      · simp [fractionLength, point, run]
      · simp [fractionLength, point]

theorem fractionLength_le
    (characters : List Char) :
    fractionLength characters ≤ characters.length := by
  unfold fractionLength
  split
  · rename_i digit rest
    have run := runLength_le Char.isDigit rest
    split
    · simp only [List.length_cons]
      omega
    · exact Nat.zero_le _
  · exact Nat.zero_le _

theorem numberLength_le
    (characters : List Char) :
    numberLength characters ≤ characters.length := by
  have whole := runLength_le Char.isDigit characters
  have fraction :=
    fractionLength_le (characters.drop (runLength Char.isDigit characters))
  rw [List.length_drop] at fraction
  simp only [numberLength]
  omega

/-- A line feed behind the characters does not belong to a number. -/
theorem numberLength_append_lineFeed
    (characters after : List Char) :
    numberLength (characters ++ '\n' :: after) = numberLength characters := by
  have whole := runLength_le Char.isDigit characters
  have digits : runLength Char.isDigit (characters ++ '\n' :: after) =
      runLength Char.isDigit characters :=
    runLength_append_cons rfl characters after
  simp only [numberLength, digits]
  rw [List.drop_append_of_le_length whole, fractionLength_append_lineFeed]

/-- A piece does not reach beyond its text. -/
theorem Rule.length_le
    (rule : Rule first rest shape length) :
    length ≤ rest.length := by
  cases rule with
  | paired _ equals =>
      obtain ⟨tail, rfl⟩ := List.head?_eq_some_iff.mp equals
      exact Nat.succ_le_succ (Nat.zero_le _)
  | comment => exact runLength_le _ rest
  | string _ closed => exact closed
  | unterminated => exact runLength_le _ rest
  | number => exact numberLength_le rest
  | word => exact runLength_le _ rest
  | _ => exact Nat.zero_le _

/--
A line feed behind a text is not at the head of
what is left of it, unless nothing is.
-/
theorem head?_append_lineFeed_iff
    {wanted : Char}
    (other : wanted ≠ '\n') :
    (rest ++ '\n' :: after).head? = some wanted ↔ rest.head? = some wanted := by
  cases rest with
  | nil => simp [other.symm]
  | cons next tail => simp

/--
A line feed and more behind a text change no first piece but an unterminated string.
-/
theorem Rule.append_lineFeed
    (rule : Rule first rest shape length)
    (closed : shape ≠ .unterminatedString)
    (after : List Char) :
    Rule first (rest ++ '\n' :: after) shape length := by
  cases rule with
  | punctuation punctuation => exact .punctuation punctuation
  | paired comparison equals =>
      exact .paired comparison ((head?_append_lineFeed_iff (by decide)).mpr equals)
  | alone comparison other =>
      exact .alone comparison (mt (head?_append_lineFeed_iff (by decide)).mp other)
  | comment slash slashes =>
      have run :
          runLength (· != '\n') (rest ++ '\n' :: after) =
            runLength (· != '\n') rest :=
        runLength_append_cons rfl rest after
      rw [← run]
      exact .comment slash ((head?_append_lineFeed_iff (by decide)).mpr slashes)
  | slash slash other =>
      exact .slash slash (mt (head?_append_lineFeed_iff (by decide)).mp other)
  | blank blank => exact .blank blank
  | string quote ends =>
      have same := runLength_append_of_lt ends ('\n' :: after)
      rw [← same] at ends ⊢
      refine .string quote (Nat.lt_of_lt_of_le ends ?_)
      simp
  | unterminated => exact (closed rfl).elim
  | number digit =>
      rw [← numberLength_append_lineFeed rest after]
      exact .number digit
  | word letter =>
      have run :
          runLength continuesName (rest ++ '\n' :: after) =
            runLength continuesName rest :=
        runLength_append_cons rfl rest after
      rw [← List.take_append_of_le_length (runLength_le continuesName rest), ← run]
      exact .word letter
  | unexpected noLexeme noBlank => exact .unexpected noLexeme noBlank

end Rules

/-- The piece that a line feed is. -/
def lineFeedPiece :
    Piece :=
  ⟨.blank, ['\n']⟩

/--
The pieces of texts joined by a line feed, if
the first text ends outside of strings.
-/
theorem pieces_append_lineFeed
    {before : List Char}
    (closed : ∀ piece ∈ pieces before, piece.shape ≠ .unterminatedString)
    (after : List Char) :
    pieces (before ++ '\n' :: after) =
      pieces before ++ lineFeedPiece :: pieces after := by
  match before with
  | [] =>
      have blank : Rule '\n' after .blank 0 := .blank (by decide)
      rw [List.nil_append, pieces_cons, blank.leading_eq]
      rfl
  | first :: rest =>
      obtain ⟨shape, length, rule⟩ := exists_rule first rest
      rw [pieces_cons, rule.leading_eq] at closed
      obtain ⟨firstClosed, laterClosed⟩ := List.forall_mem_cons.mp closed
      have longer := rule.append_lineFeed firstClosed after
      have later := pieces_append_lineFeed laterClosed after
      have within := rule.length_le
      rw [List.cons_append, pieces_cons, pieces_cons, rule.leading_eq,
        longer.leading_eq]
      rw [List.take_append_of_le_length within,
        List.drop_append_of_le_length within, later]
      rfl
termination_by before.length
decreasing_by
  simp only [List.length_drop, List.length_cons]
  omega

/-- The line feeds of two texts add up. -/
theorem lineFeeds_append
    (first second : List Char) :
    Text.lineFeeds (first ++ second) =
      Text.lineFeeds first + Text.lineFeeds second :=
  List.count_append

/-- Pieces are placed behind all the text before them. -/
theorem place_append
    (offset line : Nat)
    (earlier later : List Piece) :
    place offset line (earlier ++ later) =
      place offset line earlier ++
        place (offset + (earlier.flatMap Piece.text).length)
          (line + Text.lineFeeds (earlier.flatMap Piece.text)) later := by
  induction earlier generalizing offset line with
  | nil => rfl
  | cons piece rest inductionHypothesis =>
      simp only [List.cons_append, place, inductionHypothesis, List.flatMap_cons,
        List.length_append, lineFeeds_append, Nat.add_assoc]

/-- From a later place on, all pieces are moved. -/
theorem place_moved
    (lines characters offset line : Nat)
    (pieces : List Piece) :
    place (offset + characters) (line + lines) pieces =
      (place offset line pieces).map (Placed.moved lines characters) := by
  induction pieces generalizing offset line with
  | nil => rfl
  | cons piece rest inductionHypothesis =>
      simp only [place, List.map_cons, Placed.moved, ← inductionHypothesis,
        Nat.add_right_comm _ lines, Nat.add_right_comm _ characters]

theorem piece_of_place
    (offset line : Nat)
    (pieces : List Piece) :
    (place offset line pieces).map Placed.piece = pieces := by
  induction pieces generalizing offset line with
  | nil => rfl
  | cons piece rest inductionHypothesis =>
      simp [place, inductionHypothesis]

/-- The token of a piece moves with the piece. -/
theorem token?_moved
    (lines characters : Nat)
    (placed : Placed) :
    (placed.moved lines characters).token? =
      placed.token?.map (Token.moved lines characters) := by
  obtain ⟨⟨shape, text⟩, offset, line⟩ := placed
  cases shape <;> rfl

/-- The error of a piece moves with the piece. -/
theorem error?_moved
    (lines characters : Nat)
    (placed : Placed) :
    (placed.moved lines characters).error? =
      placed.error?.map (LexicalError.moved lines characters) := by
  obtain ⟨⟨shape, text⟩, offset, line⟩ := placed
  cases shape <;> rfl

/-- Without an error for an unterminated string there is no such piece. -/
theorem closed_of_errors
    {source : String}
    (closed : ∀ error ∈ (scan source).errors, error.cause ≠ .unterminatedString) :
    ∀ piece ∈ pieces source.toList, piece.shape ≠ .unterminatedString := by
  intro piece member unterminated
  rw [← piece_of_place 0 1 (pieces source.toList)] at member
  obtain ⟨placed, isPlaced, rfl⟩ := List.mem_map.mp member
  have blamed :
      placed.error? = some ⟨.unterminatedString, placed.line, placed.offset⟩ := by
    simp only [Placed.error?, unterminated]
  exact closed _ (List.mem_filterMap.mpr ⟨placed, isPlaced, blamed⟩) rfl

/-- Where the line feed stands between two texts. -/
def lineFeedAfter
    (before : List Char) :
    Placed :=
  ⟨lineFeedPiece, before.length, 2 + Text.lineFeeds before⟩

/--
The placed pieces of joined texts are those of
the one and, moved, those of the other.
-/
theorem place_append_lineFeed
    {before : List Char}
    (closed : ∀ piece ∈ pieces before, piece.shape ≠ .unterminatedString)
    (after : List Char) :
    place 0 1 (pieces (before ++ '\n' :: after)) =
      place 0 1 (pieces before) ++
        lineFeedAfter before ::
          (place 0 1 (pieces after)).map
            (Placed.moved (1 + Text.lineFeeds before) (before.length + 1)) := by
  have moved :=
    place_moved (1 + Text.lineFeeds before) (before.length + 1) 0 1 (pieces after)
  have oneMore : Text.lineFeeds lineFeedPiece.text = 1 := rfl
  rw [pieces_append_lineFeed closed, place_append, flatMap_pieces,
    place, oneMore, ← moved]
  simp only [lineFeedAfter, lineFeedPiece, List.length_singleton, Nat.zero_add]
  congr 3 <;> omega

/-- Joined texts end where the second ends, moved. -/
theorem finish_append_lineFeed
    (before after : List Char) :
    (⟨1 + Text.lineFeeds (before ++ '\n' :: after),
      (before ++ '\n' :: after).length⟩ : EndMark) =
      EndMark.moved (1 + Text.lineFeeds before) (before.length + 1)
        ⟨1 + Text.lineFeeds after, after.length⟩ := by
  have count : Text.lineFeeds ('\n' :: after) = Text.lineFeeds after + 1 :=
    List.count_cons_self
  simp only [EndMark.moved, lineFeeds_append, count, List.length_append,
    List.length_cons, EndMark.mk.injEq]
  omega

/--
The scan of two texts joined by a line feed is the one scan and behind it the other,
moved by the first text and the line feed.
-/
theorem scan_append_lineFeed
    {first : String}
    (closed : ∀ error ∈ (scan first).errors, error.cause ≠ .unterminatedString)
    (second : String) :
    scan (first ++ "\n" ++ second) =
      let lines := 1 + Text.lineFeeds first.toList
      let characters := first.length + 1
      { stream :=
          { tokens :=
              (scan first).stream.tokens ++
                (scan second).stream.tokens.map (Token.moved lines characters)
            finish := (scan second).stream.finish.moved lines characters }
        errors :=
          (scan first).errors ++
            (scan second).errors.map (LexicalError.moved lines characters) } := by
  have joined :
      (first ++ "\n" ++ second).toList = first.toList ++ '\n' :: second.toList := by
    simp
  have placed := place_append_lineFeed (closed_of_errors closed) second.toList
  have finish := finish_append_lineFeed first.toList second.toList
  have noToken : (lineFeedAfter first.toList).token? = none := rfl
  have noError : (lineFeedAfter first.toList).error? = none := rfl
  rw [← String.length_toList]
  simp only [scan, joined, placed, finish, List.filterMap_append,
    List.filterMap_cons, noToken, noError, List.filterMap_map, List.map_filterMap,
    Function.comp_def, token?_moved, error?_moved]

end Lexer

end Lox
