import Mathlib.Data.List.TakeWhile
import Lox.Token.Lexer

namespace Lox.Lexer

/-!
# The piece at the front of a text

What a text starts with decides what its first piece is: there is one rule for each
kind of piece, and each text has its first piece by exactly one of them.
-/

/--
The characters other than letters, digits and the underscore that start lexemes.
-/
def marks :
    List Char :=
  ['(', ')', '{', '}', ',', '.', '-', '+', ';', '*', '!', '=', '<', '>', '/', '"']

/-- The characters that a lexeme can start with. -/
def startsLexeme
    (character : Char) :
    Bool :=
  marks.contains character || character.isDigit || startsName character

/--
The rules for the piece that starts with a
character: its shape, and how far it continues.
-/
inductive Rule (first : Char) (rest : List Char) : Shape → Nat → Prop where
  | punctuation
      {kind : Kind} :
      Kind.ofPunctuation? first = some kind →
      Rule first rest (.token kind) 0
  | paired
      {alone paired : Kind} :
      Kind.ofComparison? first = some (alone, paired) →
      rest.head? = some '=' →
      Rule first rest (.token paired) 1
  | alone
      {alone paired : Kind} :
      Kind.ofComparison? first = some (alone, paired) →
      rest.head? ≠ some '=' →
      Rule first rest (.token alone) 0
  | comment :
      first = '/' →
      rest.head? = some '/' →
      Rule first rest .comment (runLength (· != '\n') rest)
  | slash :
      first = '/' →
      rest.head? ≠ some '/' →
      Rule first rest (.token .slash) 0
  | blank :
      isBlank first = true →
      Rule first rest .blank 0
  | string :
      first = '"' →
      runLength (· != '"') rest < rest.length →
      Rule first rest (.token .string) (runLength (· != '"') rest + 1)
  | unterminated :
      first = '"' →
      ¬ runLength (· != '"') rest < rest.length →
      Rule first rest .unterminatedString (runLength (· != '"') rest)
  | number :
      first.isDigit = true →
      Rule first rest (.token .number) (numberLength rest)
  | word :
      startsName first = true →
      Rule first rest
        (.token (Kind.ofWord
            (String.ofList (first :: rest.take (runLength continuesName rest)))))
        (runLength continuesName rest)
  | unexpected :
      startsLexeme first = false →
      isBlank first = false →
      Rule first rest .unexpectedCharacter 0

/--
A run of characters that pass a test ends at one that fails it, or at the end.
-/
theorem exists_run
    (test : Char → Bool)
    (characters : List Char) :
    ∃ body behind,
      characters = body ++ behind ∧
        runLength test characters = body.length ∧
        (∀ character ∈ body, test character = true) ∧
        ∀ next ∈ behind.head?, test next = false := by
  refine ⟨characters.takeWhile test, characters.dropWhile test,
    List.takeWhile_append_dropWhile.symm, rfl, ?_, ?_⟩
  · intro character member
    exact List.mem_takeWhile_imp member
  · intro next isNext
    have stops := List.head?_dropWhile_not test characters
    rw [Option.mem_def.mp isNext] at stops
    exact stops

/-- Where a character is missing, all are other characters. -/
theorem forall_bne_of_not_mem
    {stop : Char}
    {characters : List Char}
    (missing : stop ∉ characters) :
    ∀ character ∈ characters, (character != stop) = true := by
  intro character member
  exact bne_iff_ne.mpr fun same => missing (same ▸ member)

/-- A string that is closed goes on to the next quote. -/
theorem exists_stringBody
    {rest : List Char}
    (closed : runLength (· != '"') rest < rest.length) :
    ∃ body behind,
      rest = body ++ '"' :: behind ∧
        rest.take (runLength (· != '"') rest + 1) = body ++ ['"'] ∧
        runLength (· != '"') rest = body.length ∧
        '"' ∉ body := by
  obtain ⟨body, behind, rfl, run, inside, stops⟩ := exists_run (· != '"') rest
  cases behind with
  | nil =>
      rw [run, List.append_nil] at closed
      exact (Nat.lt_irrefl _ closed).elim
  | cons next after =>
      obtain rfl : next = '"' := by simpa using stops next rfl
      refine ⟨body, after, rfl, ?_, run, ?_⟩
      · simp [run, List.take_length_add_append]
      · intro member
        simpa using inside '"' member

section Disjoint

variable {first : Char}

theorem mem_marks_of_ofPunctuation?
    {kind : Kind}
    (punctuation : Kind.ofPunctuation? first = some kind) :
    first ∈ marks := by
  unfold Kind.ofPunctuation? at punctuation
  split at punctuation <;> simp_all [marks]

theorem mem_marks_of_ofComparison?
    {kinds : Kind × Kind}
    (comparison : Kind.ofComparison? first = some kinds) :
    first ∈ marks ∧ Kind.ofPunctuation? first = none := by
  unfold Kind.ofComparison? at comparison
  split at comparison <;> simp_all [marks, Kind.ofPunctuation?]

/-- A character is no mark exactly if none of the rules for marks is about it. -/
theorem not_mem_marks_iff :
    first ∉ marks ↔
      Kind.ofPunctuation? first = none ∧ Kind.ofComparison? first = none ∧
        first ≠ '/' ∧ first ≠ '"' := by
  constructor
  · intro unmarked
    refine ⟨?_, ?_, ?_, ?_⟩
    · cases punctuation : Kind.ofPunctuation? first with
      | none => rfl
      | some kind => exact (unmarked (mem_marks_of_ofPunctuation? punctuation)).elim
    · cases comparison : Kind.ofComparison? first with
      | none => rfl
      | some kinds =>
          exact (unmarked (mem_marks_of_ofComparison? comparison).1).elim
    · rintro rfl
      exact unmarked (by decide)
    · rintro rfl
      exact unmarked (by decide)
  · intro unruled marked
    have ruled :
        marks.all (fun mark => (Kind.ofPunctuation? mark).isSome ||
          (Kind.ofComparison? mark).isSome || mark == '/' || mark == '"') = true :=
      rfl
    have rule := List.all_eq_true.mp ruled first marked
    simp [unruled] at rule

/-- A test that some characters fail tells the characters that pass it from them. -/
theorem not_mem_of_test
    {characters : List Char}
    {test : Char → Bool}
    (fails : characters.any test = false)
    (passes : test first = true) :
    first ∉ characters := by
  intro member
  exact List.any_eq_false.mp fails first member passes

theorem isBlank_iff :
    isBlank first = true ↔ first ∈ [' ', '\t', '\r', '\n'] := by
  simp only [isBlank, Bool.or_eq_true, beq_iff_eq, List.mem_cons,
    List.not_mem_nil, or_false]
  grind

theorem isDigit_eq_false_of_startsName
    (letter : startsName first = true) :
    first.isDigit = false := by
  rcases Bool.or_eq_true _ _ ▸ letter with alphabetic | underscore
  · delta Char.isAlpha Char.isUpper Char.isLower at alphabetic
    delta Char.isDigit
    grind
  · rw [beq_iff_eq.mp underscore]
    rfl

end Disjoint

section Rules

variable {first : Char} {rest : List Char} {shape : Shape} {length : Nat}

/-- What a rule says of a text is what its first piece is. -/
theorem Rule.leading_eq
    (rule : Rule first rest shape length) :
    leading first rest = (shape, length) := by
  cases rule with
  | punctuation punctuation =>
      simp [leading, punctuation]
  | paired comparison equals =>
      simp [leading, mem_marks_of_ofComparison? comparison, comparison, equals]
  | alone comparison other =>
      simp [leading, mem_marks_of_ofComparison? comparison, comparison, other]
  | comment slash slashes =>
      subst slash
      simp [leading, Kind.ofPunctuation?, Kind.ofComparison?, slashes]
  | slash slash other =>
      subst slash
      simp [leading, Kind.ofPunctuation?, Kind.ofComparison?, other]
  | blank blank =>
      obtain ⟨noPunctuation, noComparison, noSlash, -⟩ :=
        not_mem_marks_iff.mp (not_mem_of_test rfl blank)
      simp [leading, noPunctuation, noComparison, noSlash, blank]
  | string quote closed =>
      subst quote
      simp [leading, Kind.ofPunctuation?, Kind.ofComparison?, isBlank,
        stringShape, closed]
  | unterminated quote unclosed =>
      subst quote
      simp [leading, Kind.ofPunctuation?, Kind.ofComparison?, isBlank,
        stringShape, unclosed]
  | number digit =>
      obtain ⟨noPunctuation, noComparison, noSlash, noQuote⟩ :=
        not_mem_marks_iff.mp (not_mem_of_test rfl digit)
      have noBlank : ¬ isBlank first = true :=
        mt isBlank_iff.mp (not_mem_of_test rfl digit)
      simp [leading, noPunctuation, noComparison, noSlash, noBlank, noQuote, digit]
  | word letter =>
      obtain ⟨noPunctuation, noComparison, noSlash, noQuote⟩ :=
        not_mem_marks_iff.mp (not_mem_of_test rfl letter)
      have noBlank : ¬ isBlank first = true :=
        mt isBlank_iff.mp (not_mem_of_test rfl letter)
      simp [leading, noPunctuation, noComparison, noSlash, noBlank, noQuote,
        isDigit_eq_false_of_startsName letter, letter]
  | unexpected noLexeme noBlank =>
      obtain ⟨⟨unmarked, noDigit⟩, noLetter⟩ :
          (first ∉ marks ∧ first.isDigit = false) ∧ startsName first = false := by
        simpa [startsLexeme] using noLexeme
      obtain ⟨noPunctuation, noComparison, noSlash, noQuote⟩ :=
        not_mem_marks_iff.mp unmarked
      simp [leading, noPunctuation, noComparison, noSlash, noBlank, noQuote,
        noDigit, noLetter]

/-- A piece that is a token starts with a character that starts lexemes. -/
theorem Rule.starts
    {kind : Kind}
    (rule : Rule first rest (.token kind) length) :
    startsLexeme first = true := by
  have ofMark : first ∈ marks → startsLexeme first = true := by
    intro marked
    simp [startsLexeme, marked]
  cases rule with
  | punctuation punctuation =>
      exact ofMark (mem_marks_of_ofPunctuation? punctuation)
  | paired comparison => exact ofMark (mem_marks_of_ofComparison? comparison).1
  | alone comparison => exact ofMark (mem_marks_of_ofComparison? comparison).1
  | slash slash => exact ofMark (slash ▸ by decide)
  | string quote => exact ofMark (quote ▸ by decide)
  | number digit => simp [startsLexeme, digit]
  | word letter => simp [startsLexeme, letter]

/-- Every character starts a piece by one of the rules. -/
theorem exists_rule
    (first : Char)
    (rest : List Char) :
    ∃ shape length, Rule first rest shape length := by
  cases punctuation : Kind.ofPunctuation? first with
  | some kind => exact ⟨_, _, .punctuation punctuation⟩
  | none =>
  cases comparison : Kind.ofComparison? first with
  | some kinds =>
      by_cases equals : rest.head? = some '='
      · exact ⟨_, _, .paired comparison equals⟩
      · exact ⟨_, _, .alone comparison equals⟩
  | none =>
  by_cases slash : first = '/'
  · by_cases slashes : rest.head? = some '/'
    · exact ⟨_, _, .comment slash slashes⟩
    · exact ⟨_, _, .slash slash slashes⟩
  by_cases quote : first = '"'
  · by_cases closed : runLength (· != '"') rest < rest.length
    · exact ⟨_, _, .string quote closed⟩
    · exact ⟨_, _, .unterminated quote closed⟩
  by_cases blank : isBlank first = true
  · exact ⟨_, _, .blank blank⟩
  by_cases digit : first.isDigit = true
  · exact ⟨_, _, .number digit⟩
  by_cases letter : startsName first = true
  · exact ⟨_, _, .word letter⟩
  have unmarked : first ∉ marks :=
    not_mem_marks_iff.mpr ⟨punctuation, comparison, slash, quote⟩
  have noLexeme : startsLexeme first = false := by
    simp [startsLexeme, unmarked, digit, letter]
  exact ⟨_, _, .unexpected noLexeme (by simpa using blank)⟩

end Rules

end Lox.Lexer
