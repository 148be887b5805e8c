import Lox.Decimal.Numeral
import Lox.Proofs.Token.Leading
import Lox.Text.Position

namespace Lox.Text

/-!
# What an excerpt shows

An offset stands on one line of its text, behind the lines above it and some of
the characters of its own.  An excerpt quotes that line behind its number, and
sets a caret below.  The field of the number grows with numbers of five digits and
more, the indent of the caret does not.  Main statement: the caret is set under
the character at the offset exactly on the lines below 10000; further down it
falls short by the digits beyond four.
-/

/--
A place in a text: the lines above, its own line up
to it and from it on, and those below.
-/
structure Place (text : List Char) where
  above : List Char
  before : List Char
  after : List Char
  below : List Char
  text_eq : text = above ++ (before ++ (after ++ below))
  above_ends : above = [] ∨ above.getLast? = some '\n'
  below_starts : below = [] ∨ below.head? = some '\n'
  lineFeed_not_mem_before : '\n' ∉ before
  lineFeed_not_mem_after : '\n' ∉ after

namespace Place

variable {text : List Char}

/-- How many characters stand before a place. -/
def offset
    (place : Place text) :
    Nat :=
  place.above.length + place.before.length

/-- The number of the line of a place. -/
def number
    (place : Place text) :
    Nat :=
  1 + lineFeeds place.above

/-- The column of a place in its line. -/
def column
    (place : Place text) :
    Nat :=
  1 + place.before.length

/-- The line of a place. -/
def line
    (place : Place text) :
    List Char :=
  place.before ++ place.after

/-- The line of a place is cut at the line feeds around it. -/
theorem lineFeed_not_mem_line
    (place : Place text) :
    '\n' ∉ place.line := by
  simp [line, place.lineFeed_not_mem_before, place.lineFeed_not_mem_after]

/-- A place splits its text in front of the character that stands there. -/
theorem text_eq_append
    (place : Place text) :
    text = (place.above ++ place.before) ++ (place.after ++ place.below) :=
  place.text_eq.trans (List.append_assoc _ _ _).symm

/-- In front of a place stand the lines above it and the beginning of its own. -/
theorem take_offset
    (place : Place text) :
    text.take place.offset = place.above ++ place.before := by
  rw [offset, ← List.length_append]
  exact (congrArg (List.take _) place.text_eq_append).trans List.take_left

/-- From a place on stand the end of its line and the lines below it. -/
theorem drop_offset
    (place : Place text) :
    text.drop place.offset = place.after ++ place.below := by
  rw [offset, ← List.length_append]
  exact (congrArg (List.drop _) place.text_eq_append).trans List.drop_left

theorem offset_le
    (place : Place text) :
    place.offset ≤ text.length := by
  obtain ⟨above, before, after, below, rfl, -, -, -, -⟩ := place
  simp only [offset, List.length_append]
  omega

/-- A line ends in front of the next line feed. -/
theorem firstLine_append
    {characters below : List Char}
    (noLineFeed : '\n' ∉ characters)
    (starts : below = [] ∨ below.head? = some '\n') :
    firstLine (characters ++ below) = characters := by
  have stops : firstLine below = [] := by
    rcases starts with rfl | starts
    · rfl
    · obtain ⟨rest, rfl⟩ := List.head?_eq_some_iff.mp starts
      rfl
  rw [firstLine, List.takeWhile_append_of_pos
    (Lexer.forall_bne_of_not_mem noLineFeed), ← firstLine, stops, List.append_nil]

/-- A line starts behind the last line feed. -/
theorem lastLine_append
    {above characters : List Char}
    (ends : above = [] ∨ above.getLast? = some '\n')
    (noLineFeed : '\n' ∉ characters) :
    lastLine (above ++ characters) = characters := by
  have turned :=
    @firstLine_append characters.reverse above.reverse (by simpa using noLineFeed)
      (by simpa using ends)
  rw [lastLine, List.reverse_append, ← firstLine, turned, List.reverse_reverse]

/-- The number of a place is the line that its offset lies on. -/
theorem lineAt_offset
    (place : Place text) :
    lineAt text place.offset = place.number := by
  have none : lineFeeds place.before = 0 :=
    List.count_eq_zero.mpr place.lineFeed_not_mem_before
  have sum : lineFeeds (place.above ++ place.before) =
      lineFeeds place.above + lineFeeds place.before := List.count_append
  rw [lineAt, place.take_offset, sum, none, Nat.add_zero, number]

/-- The column of a place is that of its offset. -/
theorem columnAt_offset
    (place : Place text) :
    columnAt text place.offset = place.column := by
  rw [columnAt, place.take_offset,
    lastLine_append place.above_ends place.lineFeed_not_mem_before, column]

/-- From its column on, the line of a place is what stands behind it. -/
theorem drop_column
    (place : Place text) :
    place.line.drop (place.column - 1) = place.after := by
  have behind : place.column - 1 = place.before.length := by
    simp only [column]
    omega
  rw [behind, line, List.drop_left]

theorem firstLine_drop_offset
    (place : Place text) :
    firstLine (text.drop place.offset) = place.after := by
  rw [place.drop_offset,
    firstLine_append place.lineFeed_not_mem_after place.below_starts]

/-- The line of a place is the one quoted for its offset. -/
theorem lineTextAt_offset
    (place : Place text) :
    lineTextAt text place.offset = place.line := by
  rw [lineTextAt, place.firstLine_drop_offset, place.take_offset,
    lastLine_append place.above_ends place.lineFeed_not_mem_before, line]

end Place

/-- A text goes on to the next line feed, or to its end. -/
theorem exists_firstLine
    (characters : List Char) :
    ∃ line below,
      characters = line ++ below ∧
        '\n' ∉ line ∧
        (below = [] ∨ below.head? = some '\n') := by
  obtain ⟨line, below, split, -, inside, stops⟩ :=
    Lexer.exists_run (· != '\n') characters
  refine ⟨line, below, split, ?_, ?_⟩
  · intro member
    simpa using inside '\n' member
  · cases below with
    | nil => exact .inl rfl
    | cons next rest => exact .inr (by simpa using stops next rfl)

/-- The first line of a text goes on with more text behind it, or stays as it is. -/
theorem firstLine_prefix
    (stretch after : List Char) :
    firstLine stretch <+: firstLine (stretch ++ after) := by
  unfold firstLine
  rw [List.takeWhile_append]
  split
  · exact (List.takeWhile_prefix _).trans (List.prefix_append _ _)
  · exact List.prefix_rfl

/-- Every offset of a text is that of a place. -/
theorem exists_place
    {text : List Char}
    {offset : Nat}
    (inside : offset ≤ text.length) :
    ∃ place : Place text, place.offset = offset := by
  obtain ⟨before, above, earlier, noLineFeed, ends⟩ :=
    exists_firstLine (text.take offset).reverse
  obtain ⟨after, below, later, noLineFeedAfter, starts⟩ :=
    exists_firstLine (text.drop offset)
  have taken : text.take offset = above.reverse ++ before.reverse := by
    rw [← List.reverse_append, ← earlier, List.reverse_reverse]
  refine ⟨⟨above.reverse, before.reverse, after, below, ?_, by simpa using ends,
    starts, by simpa using noLineFeed, noLineFeedAfter⟩, ?_⟩
  · rw [← later, ← List.append_assoc, ← taken, List.take_append_drop]
  · have length := congrArg List.length taken
    rw [List.length_take_of_le inside, List.length_append] at length
    exact length.symm

/-- The first line of an excerpt, which quotes a line of the text. -/
def quotedLine
    (excerpt : String) :
    List Char :=
  firstLine excerpt.toList

/-- The line of an excerpt below the quoted one. -/
def pointerLine
    (excerpt : String) :
    List Char :=
  excerpt.toList.drop ((quotedLine excerpt).length + 1)

/-- Where the caret stands in its line. -/
def caret?
    (excerpt : String) :
    Option Nat :=
  (pointerLine excerpt).idxOf? '^'

/-- The number of the quoted line. -/
def shownNumber
    (excerpt : String) :
    Nat :=
  Decimal.wholeNumber
    (((quotedLine excerpt).takeWhile (· != ':')).dropWhile (· == ' '))

/-- What an excerpt puts before a line: its number and a colon. -/
def label
    (number : Nat) :
    List Char :=
  lineNumberField number ++ [':', ' ']

/-- The digits of a line number. -/
theorem lineNumberField_eq
    (number : Nat) :
    lineNumberField number = alignRight 4 (Nat.toDigits 10 number) := by
  rw [lineNumberField, Nat.toString_eq_ofList_toDigits, String.toList_ofList]

/-- A label has the width of the number field, and of the bar behind it. -/
theorem length_label
    (number : Nat) :
    (label number).length = max 4 (Nat.toDigits 10 number).length + 2 := by
  simp only [label, lineNumberField_eq, alignRight, List.length_append,
    List.length_replicate, List.length_cons, List.length_nil]
  omega

/-- A number field is made of digits and of blanks in front of them. -/
theorem mem_lineNumberField
    {number : Nat}
    {character : Char}
    (member : character ∈ lineNumberField number) :
    character = ' ' ∨ character.isDigit = true := by
  rw [lineNumberField_eq, alignRight, List.mem_append] at member
  rcases member with space | digit
  · exact .inl (List.eq_of_mem_replicate space)
  · exact .inr (Nat.isDigit_of_mem_toDigits (by decide) (by decide) digit)

/-- A label stays on its own line. -/
theorem lineFeed_not_mem_label
    (number : Nat) :
    '\n' ∉ label number := by
  intro member
  rcases List.mem_append.mp member with inField | behind
  · rcases mem_lineNumberField inField with space | digit
    · exact absurd space (by decide)
    · exact absurd digit (by decide)
  · exact absurd behind (by decide)

section Places

variable {source : String}

/-- The offset of a place lies inside of the text. -/
theorem isInside_offset
    (place : Place source.toList) :
    isInside source.toList place.offset = true := by
  simpa [isInside] using place.offset_le

/-- The column that is reported for an offset is that of its place. -/
theorem column?_offset
    (place : Place source.toList) :
    column? source place.offset = some place.column := by
  rw [column?, if_pos (isInside_offset place), place.columnAt_offset]

/--
The excerpt at a place quotes its line behind the number of that, over a caret.
-/
theorem toList_excerpt
    (place : Place source.toList) :
    (excerpt source place.offset).toList =
      (label place.number ++ place.line) ++
        '\n' :: (List.replicate (6 + place.before.length) ' ' ++ ['^']) := by
  have indent : 6 + (place.column - 1) = 6 + place.before.length := by
    simp only [Place.column]
    omega
  simp only [excerpt, isInside_offset place, ↓reduceIte, String.toList_ofList,
    place.lineAt_offset, place.columnAt_offset,
    place.lineTextAt_offset, indent, label]
  simp

/-- There is always something to show for a place. -/
theorem excerpt_ne_empty
    (place : Place source.toList) :
    excerpt source place.offset ≠ "" := by
  intro empty
  have characters := toList_excerpt place
  rw [empty] at characters
  simp at characters

/-- The quoted line of an excerpt is the line of the place behind its label. -/
theorem quotedLine_excerpt
    (place : Place source.toList) :
    quotedLine (excerpt source place.offset) =
      label place.number ++ place.line := by
  rw [quotedLine, toList_excerpt]
  refine Place.firstLine_append ?_ (.inr rfl)
  simp [lineFeed_not_mem_label, place.lineFeed_not_mem_line]

/--
The pointer line of an excerpt has its caret behind six blanks and the column.
-/
theorem pointerLine_excerpt
    (place : Place source.toList) :
    pointerLine (excerpt source place.offset) =
      List.replicate (6 + place.before.length) ' ' ++ ['^'] := by
  rw [pointerLine, quotedLine_excerpt, toList_excerpt,
    ← List.drop_drop, List.drop_left]
  rfl

/-- The caret stands where the label would end, were it six characters wide. -/
theorem caret?_excerpt
    (place : Place source.toList) :
    caret? (excerpt source place.offset) = some (6 + place.before.length) := by
  rw [caret?, pointerLine_excerpt, List.idxOf?_eq_some_iff]
  refine ⟨by simp, by simp, fun earlier before => ?_⟩
  rw [List.getElem_append_left (by simpa using before), List.getElem_replicate]
  decide

/-- The number of an excerpt is that of its line. -/
theorem shownNumber_excerpt
    (place : Place source.toList) :
    shownNumber (excerpt source place.offset) = place.number := by
  have noColon :
      ∀ character ∈ lineNumberField place.number, (character != ':') = true := by
    intro character member
    rcases mem_lineNumberField member with rfl | digit
    · decide
    · exact bne_iff_ne.mpr fun same => absurd (same ▸ digit) (by decide)
  have field : (label place.number ++ place.line).takeWhile (· != ':') =
      lineNumberField place.number := by
    rw [label, List.append_assoc, List.takeWhile_append_of_pos noColon]
    simp
  have digits : (lineNumberField place.number).dropWhile (· == ' ') =
      Nat.toDigits 10 place.number := by
    rw [lineNumberField_eq, alignRight, List.dropWhile_append_of_pos]
    · refine List.dropWhile_eq_self_iff.mpr fun nonempty space => ?_
      have isDigit := Nat.isDigit_of_mem_toDigits (by decide) (by decide)
        (List.getElem_mem nonempty)
      rw [beq_iff_eq.mp space] at isDigit
      exact absurd isDigit (by decide)
    · intro character member
      exact beq_iff_eq.mpr (List.eq_of_mem_replicate member)
  rw [shownNumber, quotedLine_excerpt, field, digits]
  exact Nat.ofDigitChars_ten_toDigits

end Places

/--
From the caret of an excerpt on, the quoted line reads as the text does from an
offset to the end of its line.  So the caret is under the character at the offset,
or just behind the line if that ends there.
-/
def CaretUnder
    (source : String)
    (offset : Nat) :
    Prop :=
  ∃ index,
    caret? (excerpt source offset) = some index ∧
      index ≤ (quotedLine (excerpt source offset)).length ∧
      (quotedLine (excerpt source offset)).drop index =
        firstLine (source.toList.drop offset)

/--
The caret is right if it comes behind the label and what is before it in its line.
-/
theorem caretUnder_iff_length_label
    {source : String}
    (place : Place source.toList) :
    CaretUnder source place.offset ↔ (label place.number).length = 6 := by
  have after := place.firstLine_drop_offset
  have quoted : (label place.number ++ place.line).length =
      (label place.number).length + place.before.length + place.after.length := by
    rw [Place.line, List.length_append, List.length_append, Nat.add_assoc]
  constructor
  · rintro ⟨index, caret, inside, same⟩
    rw [caret?_excerpt, Option.some.injEq] at caret
    rw [quotedLine_excerpt] at inside same
    have length := congrArg List.length (same.trans after)
    rw [List.length_drop] at length
    omega
  · intro fits
    refine ⟨_, caret?_excerpt place, ?_, ?_⟩
    · rw [quotedLine_excerpt]
      omega
    · rw [quotedLine_excerpt, after, Place.line, ← List.append_assoc, ← fits,
        ← List.length_append, List.drop_left]

/-- Numbers with more than four digits start at 10000. -/
theorem length_label_eq_six_iff
    (number : Nat) :
    (label number).length = 6 ↔ number < 10000 := by
  have digits : (Nat.toDigits 10 number).length ≤ 4 ↔ number < 10000 :=
    Nat.length_toDigits_le_iff (by decide) (by decide)
  rw [length_label, ← digits]
  omega

/-- An offset beyond a text has no excerpt, and so no caret. -/
theorem caret?_of_outside
    {source : String}
    {offset : Nat}
    (outside : source.toList.length < offset) :
    caret? (excerpt source offset) = none := by
  have noPlace : isInside source.toList offset = false := by
    simpa [isInside] using outside
  simp only [excerpt, noPlace]
  rfl

/--
The caret is under the character at an offset exactly if the offset lies in the
text, on a line below 10000.  At every place the excerpt quotes the whole line, and
the caret falls short of the place by the digits of the line number beyond four.
-/
theorem caretUnder_iff
    (source : String) :
    (∀ offset,
      CaretUnder source offset ↔
        offset ≤ source.length ∧ lineAt source.toList offset < 10000) ∧
      ∀ place : Place source.toList,
        ∃ index,
          caret? (excerpt source place.offset) = some index ∧
            quotedLine (excerpt source place.offset) =
              label place.number ++ place.line ∧
            index + ((Nat.toDigits 10 place.number).length - 4) =
              (label place.number).length + place.before.length := by
  constructor
  · intro offset
    constructor
    · intro caretUnder
      have inside : offset ≤ source.toList.length := by
        by_contra outside
        obtain ⟨index, caret, -⟩ := caretUnder
        rw [caret?_of_outside (Nat.lt_of_not_le outside)] at caret
        cases caret
      obtain ⟨place, rfl⟩ := exists_place inside
      have fits := (caretUnder_iff_length_label place).mp caretUnder
      rw [place.lineAt_offset]
      exact ⟨inside, (length_label_eq_six_iff _).mp fits⟩
    · rintro ⟨inside, below⟩
      obtain ⟨place, rfl⟩ := @exists_place source.toList offset inside
      rw [place.lineAt_offset] at below
      exact (caretUnder_iff_length_label place).mpr
        ((length_label_eq_six_iff _).mpr below)
  · intro place
    refine ⟨_, caret?_excerpt place, quotedLine_excerpt place, ?_⟩
    rw [length_label]
    omega

/-- A text of so many empty lines, and a character on the line below them. -/
def belowLines
    (count : Nat) :
    String :=
  String.ofList (List.replicate count '\n' ++ ['@'])

/-- The place of the character below empty lines. -/
def placeBelowLines
    (count : Nat) :
    Place (belowLines count).toList where
  above := List.replicate count '\n'
  before := []
  after := ['@']
  below := []
  text_eq := by simp [belowLines]
  above_ends := by
    cases count with
    | zero => exact .inl rfl
    | succ count => exact .inr (by simp [List.replicate_succ'])
  below_starts := .inl rfl
  lineFeed_not_mem_before := by simp
  lineFeed_not_mem_after := by simp

/-- A place below some empty lines has the next number. -/
theorem number_placeBelowLines
    (count : Nat) :
    (placeBelowLines count).number = 1 + count := by
  simp [placeBelowLines, Place.number, lineFeeds]

/-- On line 10000 the caret stands to the left of its character. -/
theorem not_forall_caretUnder :
    ¬ ∀ (source : String) (offset : Nat), offset ≤ source.length →
      CaretUnder source offset := by
  intro always
  have caretUnder := always (belowLines 9999) (placeBelowLines 9999).offset
    (placeBelowLines 9999).offset_le
  have fits := (caretUnder_iff_length_label _).mp caretUnder
  rw [length_label_eq_six_iff, number_placeBelowLines] at fits
  exact absurd fits (by decide)

end Lox.Text
