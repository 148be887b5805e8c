import Lox.Proofs.Token.Coverage
import Lox.Proofs.Token.Literal

namespace Lox.Lexer

/-!
# The longest lexeme

A lexeme is one of some fixed spellings, or it has the form of a comment, a string,
a number, a word or a blank.  Main statement: a text is cut from the left into the
longest lexemes that it starts with; where it starts with none, there is an error.
-/

/-- The lexemes with a fixed spelling. -/
def fixedLexemes :
    List (List Char × Kind) :=
  [(['('], .leftParen), ([')'], .rightParen), (['{'], .leftBrace),
    (['}'], .rightBrace), ([','], .comma), (['.'], .dot), (['-'], .minus),
    (['+'], .plus), ([';'], .semicolon), (['*'], .star), (['/'], .slash),
    (['!'], .bang), (['='], .equal), (['<'], .less), (['>'], .greater),
    (['!', '='], .bangEqual), (['=', '='], .equalEqual), (['<', '='], .lessEqual),
    (['>', '='], .greaterEqual)]

/-- The digits of numbers. -/
def Digit
    (character : Char) :
    Prop :=
  '0' ≤ character ∧ character ≤ '9'

/-- The letters of words. -/
def Letter
    (character : Char) :
    Prop :=
  'A' ≤ character ∧ character ≤ 'Z' ∨ 'a' ≤ character ∧ character ≤ 'z' ∨
    character = '_'

/-- Words start with a letter and go on with letters and digits. -/
def Word :
    List Char → Prop
  | [] => False
  | first :: rest =>
      Letter first ∧ ∀ character ∈ rest, Letter character ∨ Digit character

/-- The lexemes of each shape; blanks stand one by one. -/
inductive Lexeme : Shape → List Char → Prop where
  | fixed
      {text : List Char}
      {kind : Kind} :
      (text, kind) ∈ fixedLexemes →
      Lexeme (.token kind) text
  | comment
      {body : List Char} :
      '\n' ∉ body →
      Lexeme .comment ('/' :: '/' :: body)
  | string
      {body : List Char} :
      '"' ∉ body →
      Lexeme (.token .string) ('"' :: (body ++ ['"']))
  | whole
      {digits : List Char} :
      digits ≠ [] →
      (∀ character ∈ digits, Digit character) →
      Lexeme (.token .number) digits
  | fraction
      {digits further : List Char} :
      digits ≠ [] →
      (∀ character ∈ digits, Digit character) →
      further ≠ [] →
      (∀ character ∈ further, Digit character) →
      Lexeme (.token .number) (digits ++ '.' :: further)
  | keyword
      {text : List Char}
      {kind : Kind} :
      Word text →
      (String.ofList text, kind) ∈ Kind.keywords →
      Lexeme (.token kind) text
  | name
      {text : List Char} :
      Word text →
      (∀ kind, (String.ofList text, kind) ∉ Kind.keywords) →
      Lexeme (.token .identifier) text
  | blank
      {character : Char} :
      character ∈ [' ', '\t', '\r', '\n'] →
      Lexeme .blank [character]

/-- A text starts with a lexeme of a shape, and with no longer lexeme. -/
structure Longest
    (shape : Shape)
    (lexeme text : List Char) :
    Prop where
  isLexeme : Lexeme shape lexeme
  starts : lexeme <+: text
  longest :
    ∀ {other otherShape},
      Lexeme otherShape other → other <+: text → other.length ≤ lexeme.length

/--
A text that stands at an offset is cut into the longest lexemes: into tokens, and
blanks and comments between them.  Where it starts with no lexeme there is an error,
behind which the text goes on, but for a quote that takes up all that is left.
-/
inductive Munched : Nat → List Char → List Token → List LexicalError → Prop where
  | finished
      {offset : Nat} :
      Munched offset [] [] []
  | passed
      {offset : Nat}
      {shape : Shape}
      {lexeme rest : List Char}
      {tokens : List Token}
      {errors : List LexicalError} :
      shape = .blank ∨ shape = .comment →
      Longest shape lexeme (lexeme ++ rest) →
      Munched (offset + lexeme.length) rest tokens errors →
      Munched offset (lexeme ++ rest) tokens errors
  | token
      {token : Token}
      {rest : List Char}
      {tokens : List Token}
      {errors : List LexicalError} :
      Longest (.token token.kind) token.lexeme.toList
        (token.lexeme.toList ++ rest) →
      token.Denotes →
      Munched (token.offset + token.lexeme.length) rest tokens errors →
      Munched token.offset (token.lexeme.toList ++ rest) (token :: tokens) errors
  | unexpected
      {error : LexicalError}
      {character : Char}
      {rest : List Char}
      {tokens : List Token}
      {errors : List LexicalError} :
      error.cause = .unexpectedCharacter →
      character ≠ '"' →
      (∀ {shape lexeme}, Lexeme shape lexeme → ¬ lexeme <+: character :: rest) →
      Munched (error.offset + 1) rest tokens errors →
      Munched error.offset (character :: rest) tokens (error :: errors)
  | unterminated
      {error : LexicalError}
      {rest : List Char} :
      error.cause = .unterminatedString →
      (∀ {shape lexeme}, Lexeme shape lexeme → ¬ lexeme <+: '"' :: rest) →
      Munched error.offset ('"' :: rest) [] [error]

section Characters

variable {character : Char}

theorem isDigit_iff :
    character.isDigit = true ↔ Digit character := by
  simp only [Char.isDigit, Digit, Bool.and_eq_true, decide_eq_true_eq, Char.le_def]

theorem startsName_iff :
    startsName character = true ↔ Letter character := by
  delta startsName Char.isAlpha Char.isUpper Char.isLower
  simp only [Letter, Bool.or_eq_true, Bool.and_eq_true, decide_eq_true_eq,
    beq_iff_eq, Char.le_def]
  rw [or_assoc]

theorem continuesName_iff :
    continuesName character = true ↔ Letter character ∨ Digit character := by
  rw [← startsName_iff, ← isDigit_iff]
  simp only [continuesName, startsName, Char.isAlphanum, Bool.or_eq_true]
  exact or_right_comm

end Characters

section Rules

variable {first : Char} {rest : List Char} {shape : Shape}
  {length : Nat} {kind : Kind}

/-- The punctuation marks are among the fixed lexemes. -/
theorem mem_fixedLexemes_of_ofPunctuation?
    (punctuation : Kind.ofPunctuation? first = some kind) :
    ([first], kind) ∈ fixedLexemes := by
  unfold Kind.ofPunctuation? at punctuation
  split at punctuation <;> cases punctuation <;> decide

/--
The comparison signs are among the fixed lexemes, alone and with an equals sign.
-/
theorem mem_fixedLexemes_of_ofComparison?
    {alone paired : Kind}
    (comparison : Kind.ofComparison? first = some (alone, paired)) :
    ([first], alone) ∈ fixedLexemes ∧ ([first, '='], paired) ∈ fixedLexemes := by
  unfold Kind.ofComparison? at comparison
  split at comparison <;> cases comparison <;> decide

/-- A whole word is a lexeme of its kind. -/
theorem lexeme_of_word
    {text : List Char}
    (word : Word text) :
    Lexeme (.token (Kind.ofWord (String.ofList text))) text := by
  rcases ofWord_cases (String.ofList text) with listed | ⟨unlisted, isName⟩
  · exact .keyword word listed
  · rw [isName]
    exact .name word unlisted

/-- The shapes of pieces that are lexemes. -/
def Shape.Sound :
    Shape → Prop
  | .unexpectedCharacter | .unterminatedString => False
  | .token _ | .blank | .comment => True

/-- What a number takes up of a text behind its first digit is a number. -/
theorem lexeme_number
    (digit : first.isDigit = true)
    (rest : List Char) :
    Lexeme (.token .number) (first :: rest.take (numberLength rest)) := by
  obtain ⟨whole, behind, split, nonempty, digits, parts⟩ :=
    exists_numberParts digit rest
  have wholeDigits : ∀ character ∈ whole, Digit character := fun character member =>
    isDigit_iff.mp (digits character member)
  rw [split]
  rcases parts with rfl | ⟨fraction, rfl, someFurther, further⟩
  · rw [List.append_nil]
    exact .whole nonempty wholeDigits
  · exact .fraction nonempty wholeDigits someFurther fun character member =>
      isDigit_iff.mp (further character member)

/-- What a rule cuts off is a lexeme, unless the rule finds a fault. -/
theorem Rule.isLexeme
    (rule : Rule first rest shape length)
    (sound : shape.Sound) :
    Lexeme shape (first :: rest.take length) := by
  cases rule with
  | punctuation punctuation =>
      exact .fixed (mem_fixedLexemes_of_ofPunctuation? punctuation)
  | paired comparison equals =>
      obtain ⟨tail, rfl⟩ := List.head?_eq_some_iff.mp equals
      exact .fixed (mem_fixedLexemes_of_ofComparison? comparison).2
  | alone comparison other =>
      exact .fixed (mem_fixedLexemes_of_ofComparison? comparison).1
  | comment slash slashes =>
      obtain ⟨body, behind, -, taken, -, noLineFeed, -⟩ :=
        exists_commentBody slashes
      rw [slash, taken]
      exact .comment noLineFeed
  | slash slash other =>
      rw [slash, List.take_zero]
      exact .fixed (by decide)
  | blank isBlank => exact .blank (isBlank_iff.mp isBlank)
  | string quote closed =>
      obtain ⟨body, behind, -, taken, -, noQuote⟩ := exists_stringBody closed
      rw [quote, taken]
      exact .string noQuote
  | unterminated quote unclosed => exact sound.elim
  | number digit => exact lexeme_number digit rest
  | word letter =>
      refine lexeme_of_word ⟨startsName_iff.mp letter, ?_⟩
      obtain ⟨body, behind, rfl, run, inside, -⟩ := exists_run continuesName rest
      rw [run, List.take_left]
      exact fun character member => continuesName_iff.mp (inside character member)
  | unexpected noLexeme noBlank => exact sound.elim

/-- Characters that pass a test belong to the run at the front. -/
theorem length_le_runLength
    {test : Char → Bool}
    {body : List Char}
    (inside : ∀ character ∈ body, test character = true)
    (behind : List Char) :
    body.length ≤ runLength test (body ++ behind) := by
  rw [runLength, List.takeWhile_append_of_pos inside, List.length_append]
  exact Nat.le_add_right _ _

/-- Where all characters pass a test, the run takes them all up. -/
theorem runLength_of_forall
    {test : Char → Bool}
    {body : List Char}
    (inside : ∀ character ∈ body, test character = true) :
    runLength test body = body.length := by
  rw [runLength, List.takeWhile_eq_self_iff.mpr inside]

/-- A run ends in front of the first character that fails the test. -/
theorem runLength_of_stop
    {test : Char → Bool}
    {body : List Char}
    {stop : Char}
    (inside : ∀ character ∈ body, test character = true)
    (stops : test stop = false)
    (behind : List Char) :
    runLength test (body ++ stop :: behind) = body.length :=
  (runLength_append_cons stops body behind).trans (runLength_of_forall inside)

/-- A number goes on with a point and the digits behind it. -/
theorem length_fraction_le
    {more others : List Char}
    {next : Char}
    (digits : ∀ character ∈ more, Digit character)
    (isDigit : Digit next)
    (otherDigits : ∀ character ∈ others, Digit character)
    (behind : List Char) :
    more.length + (2 + others.length) ≤
      numberLength (more ++ '.' :: next :: (others ++ behind)) := by
  have run : runLength Char.isDigit (more ++ '.' :: next :: (others ++ behind)) =
      more.length :=
    runLength_of_stop
      (fun character member => isDigit_iff.mpr (digits character member)) rfl _
  have further : others.length ≤ runLength Char.isDigit (others ++ behind) :=
    length_le_runLength (fun character member =>
      isDigit_iff.mpr (otherDigits character member)) behind
  rw [numberLength, run, List.drop_left, fractionLength,
    if_pos (isDigit_iff.mpr isDigit)]
  omega

/-- A text that starts with a word is cut behind one that is at least as long. -/
theorem exists_rule_of_word
    {text behind : List Char}
    (word : Word text)
    (split : text ++ behind = first :: rest) :
    ∃ other length,
      Rule first rest other length ∧ other.Sound ∧ text.length ≤ length + 1 := by
  cases text with
  | nil => exact word.elim
  | cons letter more =>
      obtain ⟨rfl, rfl⟩ := List.cons_eq_cons.mp split
      refine ⟨_, _, .word (startsName_iff.mpr word.1), trivial, Nat.succ_le_succ ?_⟩
      exact length_le_runLength (fun character member =>
        continuesName_iff.mpr (word.2 character member)) behind

/--
Whether a spelling is one mark other than the
quote, or a comparison with an equals sign.
-/
def isFixedSpelling :
    List Char → Bool
  | [mark] => marks.contains mark && mark != '"'
  | [mark, second] =>
      marks.contains mark && second == '=' && (Kind.ofComparison? mark).isSome
  | _ => false

/-- A fixed lexeme is a mark, or one with an equals sign behind it. -/
theorem fixedLexemes_cases
    {text : List Char}
    (listed : (text, kind) ∈ fixedLexemes) :
    (∃ mark ∈ marks, mark ≠ '"' ∧ text = [mark]) ∨
      ∃ mark ∈ marks, text = [mark, '='] ∧ (Kind.ofComparison? mark).isSome := by
  have all : fixedLexemes.all (isFixedSpelling ·.1) = true := rfl
  have spelling : isFixedSpelling text = true := List.all_eq_true.mp all _ listed
  unfold isFixedSpelling at spelling
  split at spelling
  case h_1 mark =>
    obtain ⟨marked, noQuote⟩ : mark ∈ marks ∧ mark ≠ '"' := by simpa using spelling
    exact .inl ⟨mark, marked, noQuote, rfl⟩
  case h_2 mark second =>
    obtain ⟨⟨marked, rfl⟩, pairs⟩ :
        (mark ∈ marks ∧ second = '=') ∧ (Kind.ofComparison? mark).isSome := by
      simpa using spelling
    exact .inr ⟨mark, marked, rfl, pairs⟩
  case h_3 => cases spelling

/--
What starts with a mark other than the quote, or with a blank, starts with a lexeme.
-/
theorem exists_sound_rule
    (starts : startsLexeme first = true ∨ isBlank first = true)
    (noQuote : first ≠ '"')
    (rest : List Char) :
    ∃ shape length, Rule first rest shape length ∧ shape.Sound := by
  obtain ⟨shape, length, rule⟩ := exists_rule first rest
  refine ⟨shape, length, rule, ?_⟩
  cases rule with
  | unterminated quote => exact (noQuote quote).elim
  | unexpected noLexeme noBlank => simp [noLexeme, noBlank] at starts
  | _ => trivial

/--
Where a text starts with a lexeme, a rule cuts off one that is at least as long.
-/
theorem Lexeme.exists_rule
    {text : List Char}
    (lexeme : Lexeme shape text)
    (starts : text <+: first :: rest) :
    ∃ other length,
      Rule first rest other length ∧ other.Sound ∧ text.length ≤ length + 1 := by
  obtain ⟨behind, split⟩ := starts
  cases lexeme with
  | fixed listed =>
      rcases fixedLexemes_cases listed with
        ⟨mark, marked, noQuote, rfl⟩ | ⟨mark, -, rfl, pairs⟩
      · obtain ⟨rfl, -⟩ := List.cons_eq_cons.mp split
        obtain ⟨other, length, rule, sound⟩ :=
          exists_sound_rule (.inl (by simp [startsLexeme, marked])) noQuote rest
        exact ⟨other, length, rule, sound, Nat.le_add_left _ _⟩
      · obtain ⟨rfl, rfl⟩ := List.cons_eq_cons.mp split
        obtain ⟨⟨alone, paired⟩, comparison⟩ := Option.isSome_iff_exists.mp pairs
        exact ⟨_, 1, .paired comparison rfl, trivial, Nat.le_refl _⟩
  | @comment body noLineFeed =>
      obtain ⟨rfl, rfl⟩ := List.cons_eq_cons.mp split
      refine ⟨_, _, .comment rfl rfl, trivial, Nat.succ_le_succ ?_⟩
      refine @length_le_runLength (· != '\n') ('/' :: body) ?_ behind
      exact List.forall_mem_cons.mpr ⟨rfl, forall_bne_of_not_mem noLineFeed⟩
  | @string body noQuote =>
      obtain ⟨rfl, same⟩ := List.cons_eq_cons.mp split
      obtain rfl : body ++ '"' :: behind = rest := by simpa using same
      have run : runLength (· != '"') (body ++ '"' :: behind) = body.length :=
        runLength_of_stop (forall_bne_of_not_mem noQuote) rfl behind
      refine ⟨_, _, .string rfl ?_, trivial, ?_⟩
      · simp [run]
      · simp [run]
  | whole nonempty digits =>
      cases text with
      | nil => exact (nonempty rfl).elim
      | cons digit more =>
          obtain ⟨rfl, rfl⟩ := List.cons_eq_cons.mp split
          obtain ⟨isDigit, moreDigits⟩ := List.forall_mem_cons.mp digits
          refine ⟨_, _, .number (isDigit_iff.mpr isDigit), trivial,
            Nat.succ_le_succ ?_⟩
          exact (length_le_runLength (fun character member =>
            isDigit_iff.mpr (moreDigits character member)) behind).trans
                (Nat.le_add_right _ _)
  | @fraction whole further nonempty digits someFurther furtherDigits =>
      obtain ⟨digit, more, rfl⟩ := List.exists_cons_of_ne_nil nonempty
      obtain ⟨next, others, rfl⟩ := List.exists_cons_of_ne_nil someFurther
      obtain ⟨rfl, same⟩ := List.cons_eq_cons.mp split
      obtain rfl : more ++ '.' :: next :: (others ++ behind) = rest := by
        simpa using same
      obtain ⟨isDigit, moreDigits⟩ := List.forall_mem_cons.mp digits
      obtain ⟨nextIsDigit, otherDigits⟩ := List.forall_mem_cons.mp furtherDigits
      have bound := length_fraction_le moreDigits nextIsDigit otherDigits behind
      refine ⟨_, _, .number (isDigit_iff.mpr isDigit), trivial, ?_⟩
      simp only [List.length_append, List.length_cons]
      omega
  | keyword word listed => exact exists_rule_of_word word split
  | name word unlisted => exact exists_rule_of_word word split
  | @blank character isBlank =>
      obtain ⟨rfl, -⟩ := List.cons_eq_cons.mp split
      exact ⟨_, _, .blank (isBlank_iff.mpr isBlank), trivial, Nat.le_refl _⟩

/-- A rule that finds no fault cuts off the longest lexeme. -/
theorem Rule.longest
    (rule : Rule first rest shape length)
    (sound : shape.Sound) :
    Longest shape (first :: rest.take length) (first :: rest) where
  isLexeme := rule.isLexeme sound
  starts := ⟨rest.drop length, by simp⟩
  longest := by
    intro other otherShape lexeme starts
    obtain ⟨_, reach, otherRule, -, bounded⟩ := lexeme.exists_rule starts
    obtain ⟨-, rfl⟩ :=
      Prod.ext_iff.mp (otherRule.leading_eq.symm.trans rule.leading_eq)
    have within := starts.length_le
    simp only [List.length_cons, List.length_take] at within ⊢
    omega

/-- Where a rule finds a fault, the text starts with no lexeme. -/
theorem Rule.not_prefix_of_fault
    (rule : Rule first rest shape length)
    (fault : ¬ shape.Sound)
    {otherShape : Shape}
    {lexeme : List Char}
    (isLexeme : Lexeme otherShape lexeme) :
    ¬ lexeme <+: first :: rest := by
  intro starts
  obtain ⟨_, _, otherRule, sound, -⟩ := isLexeme.exists_rule starts
  obtain ⟨rfl, -⟩ :=
    Prod.ext_iff.mp (otherRule.leading_eq.symm.trans rule.leading_eq)
  exact fault sound

/-- A token at the front is cut off, with its kind and with what it denotes. -/
theorem munched_token
    {lexeme behind : List Char}
    {literal : Value}
    {line offset : Nat}
    {tokens : List Token}
    {errors : List LexicalError}
    (longest : Longest (.token kind) lexeme (lexeme ++ behind))
    (denotes : Token.Denotes ⟨kind, String.ofList lexeme, literal, line, offset⟩)
    (later : Munched (offset + lexeme.length) behind tokens errors) :
    Munched offset (lexeme ++ behind)
      (⟨kind, String.ofList lexeme, literal, line, offset⟩ :: tokens) errors := by
  have munched :=
    @Munched.token ⟨kind, String.ofList lexeme, literal, line, offset⟩
      behind tokens errors
  rw [String.toList_ofList, String.length_ofList] at munched
  exact munched longest denotes later

/--
The pieces of a text, placed from an offset on,
are its longest lexemes and its faults.
-/
theorem munched_pieces
    (offset line : Nat)
    (characters : List Char) :
    Munched offset characters
      ((place offset line (pieces characters)).filterMap Placed.token?)
      ((place offset line (pieces characters)).filterMap Placed.error?) := by
  match characters with
  | [] => exact .finished
  | first :: rest =>
      obtain ⟨shape, length, rule⟩ := Lexer.exists_rule first rest
      have later := fun line =>
        munched_pieces (offset + (first :: rest.take length).length) line
          (rest.drop length)
      have split :
          first :: rest.take length ++ rest.drop length = first :: rest := by
        simp
      rw [pieces_cons, rule.leading_eq]
      simp only [place]
      cases shape with
      | token kind =>
          have longest := rule.longest trivial
          rw [← split] at longest ⊢
          exact munched_token longest (rule.denotes _ offset) (later _)
      | blank =>
          have longest := rule.longest trivial
          rw [← split] at longest ⊢
          exact .passed (.inl rfl) longest (later _)
      | comment =>
          have longest := rule.longest trivial
          rw [← split] at longest ⊢
          exact .passed (.inr rfl) longest (later _)
      | unexpectedCharacter =>
          have none := @Rule.not_prefix_of_fault _ _ _ _ rule id
          cases rule with
          | unexpected noLexeme noBlank =>
              refine @Munched.unexpected ⟨.unexpectedCharacter, _, offset⟩ _ _ _ _
                rfl ?_ none (later _)
              rintro rfl
              exact absurd noLexeme (by decide)
      | unterminatedString =>
          have none := @Rule.not_prefix_of_fault _ _ _ _ rule id
          cases rule with
          | unterminated quote unclosed =>
              obtain ⟨whole, -⟩ := runLength_of_unclosed unclosed
              subst quote
              rw [whole, List.take_length, List.drop_length]
              exact @Munched.unterminated
                ⟨.unterminatedString, _, offset⟩ _ rfl none
termination_by characters.length
decreasing_by
  simp only [List.length_drop, List.length_cons]
  omega

/-- A keyword that is listed is read as its kind. -/
theorem ofWord_of_mem_keywords
    {word : String}
    (listed : (word, kind) ∈ Kind.keywords) :
    Kind.ofWord word = kind :=
  (by decide : ∀ entry ∈ Kind.keywords, Kind.ofWord entry.1 = entry.2) _ listed

/-- No word starts with a digit. -/
theorem not_word_of_digits
    {digits behind : List Char}
    (nonempty : digits ≠ [])
    (inside : ∀ character ∈ digits, Digit character) :
    ¬ Word (digits ++ behind) := by
  intro word
  obtain ⟨digit, more, rfl⟩ := List.exists_cons_of_ne_nil nonempty
  have isDigit := isDigit_iff.mpr (inside digit List.mem_cons_self)
  rw [isDigit_eq_false_of_startsName (startsName_iff.mpr word.1)] at isDigit
  cases isDigit

/-- A lexeme that is a word is a keyword if the table lists it, and else a name. -/
theorem Lexeme.kind_of_word
    {text : List Char}
    (lexeme : Lexeme (.token kind) text)
    (word : Word text) :
    kind = Kind.ofWord (String.ofList text) := by
  have unmarked {first : Char} {more : List Char} (word : Word (first :: more)) :
      first ∉ marks :=
    not_mem_of_test rfl (startsName_iff.mpr word.1)
  cases lexeme with
  | fixed listed =>
      rcases fixedLexemes_cases listed with
        ⟨mark, marked, -, rfl⟩ | ⟨mark, marked, rfl, -⟩
      · exact (unmarked word marked).elim
      · exact (unmarked word marked).elim
  | string noQuote => exact (unmarked word (by decide)).elim
  | whole nonempty digits =>
      rw [← List.append_nil text] at word
      exact (not_word_of_digits nonempty digits word).elim
  | fraction nonempty digits _ _ =>
      exact (not_word_of_digits nonempty digits word).elim
  | keyword _ listed => exact (ofWord_of_mem_keywords listed).symm
  | name _ unlisted =>
      rcases ofWord_cases (String.ofList text) with listed | ⟨-, isName⟩
      · exact (unlisted _ listed).elim
      · exact isName.symm

/-- Each token of a text is a lexeme of its kind. -/
theorem Munched.lexeme_of_mem
    {offset : Nat}
    {text : List Char}
    {tokens : List Token}
    {errors : List LexicalError}
    (munched : Munched offset text tokens errors)
    {token : Token}
    (member : token ∈ tokens) :
    Lexeme (.token token.kind) token.lexeme.toList := by
  induction munched with
  | finished => cases member
  | passed _ _ _ inductionHypothesis => exact inductionHypothesis member
  | token longest _ _ inductionHypothesis =>
      rcases List.mem_cons.mp member with rfl | later
      · exact longest.isLexeme
      · exact inductionHypothesis later
  | unexpected _ _ _ _ inductionHypothesis => exact inductionHypothesis member
  | unterminated _ _ => cases member

/-- What the scan of a text makes of it. -/
structure MunchesLongest
    (source : String) :
    Prop where
  /--
  The text is cut into the longest lexemes, and
  its errors stand where there are none.
  -/
  munched :
    Munched 0 source.toList (scan source).stream.tokens (scan source).errors
  /--
  Of the words those are keywords that the table
  lists as a whole; the others are names.
  -/
  words :
    ∀ token ∈ (scan source).stream.tokens,
      Word token.lexeme.toList →
        ((token.lexeme, token.kind) ∈ Kind.keywords ∨ token.kind = .identifier) ∧
          (token.kind ∈ Kind.keywords.map Prod.snd ↔
            token.lexeme ∈ Kind.keywords.map Prod.fst)

/-- Every text is scanned by its longest lexemes. -/
theorem munchesLongest
    (source : String) :
    MunchesLongest source := by
  have munched :
      Munched 0 source.toList (scan source).stream.tokens (scan source).errors :=
    munched_pieces 0 1 source.toList
  refine ⟨munched, fun token member word => ?_⟩
  have kind := (munched.lexeme_of_mem member).kind_of_word word
  rw [String.ofList_toList] at kind
  rcases ofWord_cases token.lexeme with listed | ⟨unlisted, isName⟩
  · rw [← kind] at listed
    exact ⟨.inl listed,
      iff_of_true (List.mem_map_of_mem listed) (List.mem_map_of_mem listed)⟩
  · rw [← kind] at isName
    refine ⟨.inr isName, iff_of_false ?_ ?_⟩
    · rw [isName]
      decide
    · intro member
      obtain ⟨⟨word, kind⟩, listed, rfl⟩ := List.mem_map.mp member
      exact unlisted kind listed

end Rules

end Lox.Lexer
