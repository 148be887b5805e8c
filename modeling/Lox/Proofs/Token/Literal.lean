import Lox.Proofs.Token.Seam

namespace Lox

/-!
# What literals denote

Only a lexeme that can be read as a number becomes a number token, and its
literal is that number; the literal of a string token is the text between the
quotes.  All other tokens have no literal.
-/

/-- The literal of a token is what its lexeme denotes. -/
def Token.Denotes
    (token : Token) :
    Prop :=
  match token.kind with
  | .number =>
      ∃ numeral,
        Decimal.numeral? token.lexeme.toList = some numeral ∧
          token.literal = .number numeral.value
  | .string =>
      ∃ text,
        token.lexeme.toList = '"' :: text ++ ['"'] ∧
          token.literal = .string (String.ofList text)
  | _ => token.literal = .nil

namespace Lexer

section Numbers

variable {whole behind : List Char}

/-- Digits, and what may follow them in a number: a point and more digits. -/
structure NumberText (whole behind : List Char) : Prop where
  nonempty : whole ≠ []
  digits : ∀ character ∈ whole, character.isDigit = true
  fraction :
    behind = [] ∨
      ∃ fraction, behind = '.' :: fraction ∧
        ∀ character ∈ fraction, character.isDigit = true

theorem NumberText.split
    (text : NumberText whole behind) :
    (whole ++ behind).takeWhile Char.isDigit = whole ∧
      (whole ++ behind).dropWhile Char.isDigit = behind := by
  have stops :
      behind.takeWhile Char.isDigit = [] ∧
        behind.dropWhile Char.isDigit = behind := by
    rcases text.fraction with rfl | ⟨fraction, rfl, -⟩
    · simp
    · exact ⟨rfl, rfl⟩
  rw [List.takeWhile_append_of_pos text.digits,
    List.dropWhile_append_of_pos text.digits, stops.1, stops.2, List.append_nil]
  exact ⟨rfl, rfl⟩

/--
The reader of numerals reads such a text, and its value is that of the literal.
-/
theorem NumberText.denotes
    (text : NumberText whole behind) :
    ∃ numeral,
      Decimal.numeral? (whole ++ behind) = some numeral ∧
        literalOf .number (whole ++ behind) = .number numeral.value := by
  obtain ⟨taken, dropped⟩ := text.split
  have nonempty : whole.isEmpty = false := by
    simpa using text.nonempty
  refine ⟨⟨whole, behind.drop 1, 0⟩, ?_, ?_⟩
  · simp only [Decimal.numeral?, taken, dropped, nonempty]
    rcases text.fraction with rfl | ⟨fraction, rfl, digits⟩
    · simp
    · have all : fraction.takeWhile Char.isDigit = fraction :=
        List.takeWhile_eq_self_iff.mpr digits
      have none : fraction.dropWhile Char.isDigit = [] :=
        List.dropWhile_eq_nil_iff.mpr digits
      simp [all, none]
  · have behindPoint :
        (whole ++ behind).drop (whole.length + 1) = behind.drop 1 := by
      rw [← List.drop_drop, List.drop_left]
    simp only [literalOf, taken, behindPoint]

/--
A number takes up digits, and a point behind
them only with a digit behind the point.
-/
theorem exists_numberParts
    {first : Char}
    (digit : first.isDigit = true)
    (rest : List Char) :
    ∃ whole behind,
      first :: rest.take (numberLength rest) = whole ++ behind ∧
        whole ≠ [] ∧
        (∀ character ∈ whole, character.isDigit = true) ∧
        (behind = [] ∨
          ∃ fraction, behind = '.' :: fraction ∧ fraction ≠ [] ∧
            ∀ character ∈ fraction, character.isDigit = true) := by
  obtain ⟨body, behind, rfl, run, inside, -⟩ := exists_run Char.isDigit rest
  have digits : ∀ character ∈ first :: body, character.isDigit = true :=
    List.forall_mem_cons.mpr ⟨digit, inside⟩
  have length :
      numberLength (body ++ behind) = body.length + fractionLength behind := by
    simp [numberLength, run]
  refine ⟨first :: body, behind.take (fractionLength behind), ?_,
    by simp, digits, ?_⟩
  · rw [length, List.take_length_add_append, List.cons_append]
  · unfold fractionLength
    split
    · rename_i next after
      split
      · rename_i isDigit
        obtain ⟨more, left, rfl, moreRun, moreDigits, -⟩ :=
          exists_run Char.isDigit after
        refine .inr ⟨next :: more, ?_, by simp,
          List.forall_mem_cons.mpr ⟨isDigit, moreDigits⟩⟩
        rw [moreRun, Nat.add_comm 2]
        simp
      · exact .inl rfl
    · exact .inl rfl

/-- What a number takes up of a text behind its first digit. -/
theorem exists_numberText
    {first : Char}
    (digit : first.isDigit = true)
    (rest : List Char) :
    ∃ whole behind,
      first :: rest.take (numberLength rest) = whole ++ behind ∧
        NumberText whole behind := by
  obtain ⟨whole, behind, split, nonempty, digits, parts⟩ :=
    exists_numberParts digit rest
  refine ⟨whole, behind, split, nonempty, digits, ?_⟩
  rcases parts with nothing | ⟨fraction, point, -, further⟩
  · exact .inl nothing
  · exact .inr ⟨fraction, point, further⟩

end Numbers

section Rules

variable {first : Char} {rest : List Char} {kind : Kind} {length : Nat}

/--
A word is in the table of keywords with its kind, or it is not there and a name.
-/
theorem ofWord_cases
    (word : String) :
    (word, Kind.ofWord word) ∈ Kind.keywords ∨
      (∀ kind, (word, kind) ∉ Kind.keywords) ∧ Kind.ofWord word = .identifier := by
  unfold Kind.ofWord
  rcases found : Kind.keywords.lookup word with _ | kind
  · refine .inr ⟨fun kind member => ?_, rfl⟩
    have missing := List.lookup_eq_none_iff.mp found _ member
    simp at missing
  · obtain ⟨before, after, shape, -⟩ := List.lookup_eq_some_iff.mp found
    exact .inl (by simp [shape])

/-- The word of a keyword or of a name is no literal. -/
theorem ofWord_not_literal
    (word : String) :
    Kind.ofWord word ∉ [.number, .string] := by
  have none : ∀ entry ∈ Kind.keywords, entry.2 ∉ [.number, .string] := by
    decide
  rcases ofWord_cases word with listed | ⟨-, isName⟩
  · exact none _ listed
  · rw [isName]
    decide

theorem not_literal_of_ofPunctuation?
    (punctuation : Kind.ofPunctuation? first = some kind) :
    kind ∉ [.number, .string] := by
  unfold Kind.ofPunctuation? at punctuation
  split at punctuation <;> cases punctuation <;> decide

theorem not_literal_of_ofComparison?
    {alone paired : Kind}
    (comparison : Kind.ofComparison? first = some (alone, paired)) :
    alone ∉ [.number, .string] ∧ paired ∉ [.number, .string] := by
  unfold Kind.ofComparison? at comparison
  split at comparison <;> cases comparison <;> decide

/-- A token of another kind has no literal. -/
theorem denotes_of_not_literal
    (noLiteral : kind ∉ [.number, .string])
    (text : List Char)
    (line offset : Nat) :
    Token.Denotes
      ⟨kind, String.ofList text, literalOf kind text, line, offset⟩ := by
  obtain ⟨noNumber, noString⟩ : kind ≠ .number ∧ kind ≠ .string := by
    simpa using noLiteral
  have nothing : literalOf kind text = .nil := by
    unfold literalOf
    split
    · exact (noNumber rfl).elim
    · exact (noString rfl).elim
    · rfl
  unfold Token.Denotes
  split
  · exact (noNumber ‹_›).elim
  · exact (noString ‹_›).elim
  · exact nothing

/-- The literal of a piece that is a token is what its text denotes. -/
theorem Rule.denotes
    (rule : Rule first rest (.token kind) length)
    (line offset : Nat) :
    Token.Denotes ⟨kind, String.ofList (first :: rest.take length),
      literalOf kind (first :: rest.take length), line, offset⟩ := by
  cases rule with
  | punctuation punctuation =>
      exact denotes_of_not_literal
        (not_literal_of_ofPunctuation? punctuation) _ line offset
  | paired comparison =>
      exact denotes_of_not_literal
        (not_literal_of_ofComparison? comparison).2 _ line offset
  | alone comparison =>
      exact denotes_of_not_literal
        (not_literal_of_ofComparison? comparison).1 _ line offset
  | slash => exact denotes_of_not_literal (by decide) _ line offset
  | word => exact denotes_of_not_literal (ofWord_not_literal _) _ line offset
  | number digit =>
      obtain ⟨whole, behind, text, numberText⟩ := exists_numberText digit rest
      rw [text]
      simpa [Token.Denotes] using numberText.denotes
  | string quote closed =>
      obtain ⟨body, behind, -, taken, -, -⟩ := exists_stringBody closed
      refine ⟨body, ?_, ?_⟩
      · simp [quote, taken]
      · simp [quote, taken, literalOf]

end Rules

/-- Each piece of a text is its first piece at some place. -/
theorem exists_rule_of_mem_pieces
    {characters : List Char}
    {piece : Piece}
    (member : piece ∈ pieces characters) :
    ∃ first rest length,
      Rule first rest piece.shape length ∧
        piece.text = first :: rest.take length := by
  match characters with
  | [] => cases member
  | first :: rest =>
      rw [pieces_cons, List.mem_cons] at member
      rcases member with rfl | later
      · obtain ⟨shape, length, rule⟩ := exists_rule first rest
        rw [rule.leading_eq]
        exact ⟨first, rest, length, rule, rfl⟩
      · exact exists_rule_of_mem_pieces later
termination_by characters.length
decreasing_by
  simp only [List.length_drop, List.length_cons]
  omega

/-- The literal of every token of a text is what its lexeme denotes. -/
theorem denotes_of_mem_scan
    {source : String}
    {token : Token}
    (member : token ∈ (scan source).stream.tokens) :
    token.Denotes := by
  obtain ⟨placed, isPlaced, isToken⟩ := List.mem_filterMap.mp member
  have inPieces : placed.piece ∈ pieces source.toList := by
    rw [← piece_of_place 0 1 (pieces source.toList)]
    exact List.mem_map_of_mem isPlaced
  obtain ⟨⟨shape, text⟩, offset, line⟩ := placed
  obtain ⟨first, rest, length, rule, isText⟩ := exists_rule_of_mem_pieces inPieces
  obtain rfl : text = first :: rest.take length := isText
  cases shape with
  | token kind =>
      cases isToken
      exact rule.denotes line offset
  | _ => cases isToken

end Lexer

end Lox
