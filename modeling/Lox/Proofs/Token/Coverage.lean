import Lox.Proofs.Token.Leading

namespace Lox.Lexer

/-!
# A scan accounts for every character

Main statement: a text is covered by its tokens, which are stretches of it, one
behind the other, and between them by blanks, comments and the stretches that the
errors name.  Nothing of the text is lost, and no lexeme is made up.
-/

/-- A stretch of text that is not empty and starts the way a lexeme does. -/
def StartsAsLexeme :
    List Char → Prop
  | [] => False
  | first :: _ => startsLexeme first = true

/--
A text that stands at an offset is covered in order: by tokens, by blanks and
comments between them, and by the faulty stretches of the errors.
-/
inductive Covered : Nat → List Char → List Token → List LexicalError → Prop where
  | finished
      {offset : Nat} :
      Covered offset [] [] []
  | token
      {token : Token}
      {rest : List Char}
      {tokens : List Token}
      {errors : List LexicalError} :
      StartsAsLexeme token.lexeme.toList →
      Covered (token.offset + token.lexeme.length) rest tokens errors →
      Covered token.offset (token.lexeme.toList ++ rest) (token :: tokens) errors
  | blank
      {offset : Nat}
      {character : Char}
      {rest : List Char}
      {tokens : List Token}
      {errors : List LexicalError} :
      character ∈ [' ', '\t', '\r', '\n'] →
      Covered (offset + 1) rest tokens errors →
      Covered offset (character :: rest) tokens errors
  | comment
      {offset : Nat}
      {body rest : List Char}
      {tokens : List Token}
      {errors : List LexicalError} :
      '\n' ∉ body →
      (rest = [] ∨ rest.head? = some '\n') →
      Covered (offset + (2 + body.length)) rest tokens errors →
      Covered offset ('/' :: '/' :: (body ++ rest)) tokens errors
  | unexpected
      {error : LexicalError}
      {character : Char}
      {rest : List Char}
      {tokens : List Token}
      {errors : List LexicalError} :
      error.cause.message = "Unexpected character." →
      startsLexeme character = false →
      character ∉ [' ', '\t', '\r', '\n'] →
      Covered (error.offset + 1) rest tokens errors →
      Covered error.offset (character :: rest) tokens (error :: errors)
  | unterminated
      {error : LexicalError}
      {body : List Char} :
      error.cause.message = "Unterminated string." →
      '"' ∉ body →
      Covered error.offset ('"' :: body) [] [error]

/--
What stands in the text from the place of an error on, by the message of the error.
-/
inductive Blames : String → List Char → Prop where
  | unexpected
      {character : Char}
      {after : List Char} :
      startsLexeme character = false →
      character ∉ [' ', '\t', '\r', '\n'] →
      Blames "Unexpected character." (character :: after)
  | unterminated
      {body : List Char} :
      '"' ∉ body →
      Blames "Unterminated string." ('"' :: body)

section Pieces

variable {offset line length : Nat} {first : Char} {rest : List Char}
  {placed : List Placed}

/-- A token at the front covers its lexeme. -/
theorem covered_token
    {kind : Kind}
    (starts : startsLexeme first = true)
    (later :
      Covered (offset + (first :: rest.take length).length) (rest.drop length)
      (placed.filterMap Placed.token?) (placed.filterMap Placed.error?)) :
    Covered offset (first :: rest)
      ((⟨⟨.token kind, first :: rest.take length⟩, offset, line⟩ ::
        placed).filterMap Placed.token?)
      ((⟨⟨.token kind, first :: rest.take length⟩, offset, line⟩ ::
        placed).filterMap Placed.error?) := by
  have whole :
      first :: rest =
        (String.ofList (first :: rest.take length)).toList ++ rest.drop length := by
    simp
  let token : Token :=
    ⟨kind, String.ofList (first :: rest.take length),
      literalOf kind (first :: rest.take length), line, offset⟩
  have startsAs : StartsAsLexeme token.lexeme.toList := by
    simpa [token, StartsAsLexeme] using starts
  rw [← String.length_ofList] at later
  have covered := Covered.token startsAs later
  rw [← whole] at covered
  exact covered

/-- A comment goes on to before the next line feed. -/
theorem exists_commentBody
    (slashes : rest.head? = some '/') :
    ∃ body behind,
      rest = '/' :: (body ++ behind) ∧
        rest.take (runLength (· != '\n') rest) = '/' :: body ∧
        rest.drop (runLength (· != '\n') rest) = behind ∧
        '\n' ∉ body ∧
        (behind = [] ∨ behind.head? = some '\n') := by
  obtain ⟨tail, rfl⟩ := List.head?_eq_some_iff.mp slashes
  obtain ⟨body, behind, rfl, run, inside, stops⟩ := exists_run (· != '\n') tail
  have whole :
      runLength (· != '\n') ('/' :: (body ++ behind)) = body.length + 1 := by
    rw [← run]
    rfl
  refine ⟨body, behind, rfl, by simp [whole], by simp [whole], ?_, ?_⟩
  · intro member
    simpa using inside '\n' member
  · cases behind with
    | nil => exact .inl rfl
    | cons next after => exact .inr (by simpa using stops next rfl)

/-- Behind the quote of an unterminated string there is no other. -/
theorem runLength_of_unclosed
    (unclosed : ¬ runLength (· != '"') rest < rest.length) :
    runLength (· != '"') rest = rest.length ∧ '"' ∉ rest := by
  obtain ⟨body, behind, rfl, run, inside, -⟩ := exists_run (· != '"') rest
  have nothing : behind = [] := by
    simpa [run, List.length_eq_zero_iff] using unclosed
  subst nothing
  rw [List.append_nil] at run ⊢
  refine ⟨run, ?_⟩
  intro member
  simpa using inside '"' member

/-- The pieces of a text, placed from an offset on, cover the text. -/
theorem covered_pieces
    (offset line : Nat)
    (characters : List Char) :
    Covered offset characters
      ((place offset line (pieces characters)).filterMap Placed.token?)
      ((place offset line (pieces characters)).filterMap Placed.error?) := by
  match characters with
  | [] =>
      exact .finished
  | first :: rest =>
      obtain ⟨shape, length, rule⟩ := exists_rule first rest
      have later := fun line =>
        covered_pieces (offset + (first :: rest.take length).length) line
          (rest.drop length)
      rw [pieces_cons, rule.leading_eq]
      simp only [place]
      cases shape with
      | token kind =>
          exact covered_token rule.starts (later _)
      | blank =>
          cases rule with
          | blank isBlank => exact .blank (isBlank_iff.mp isBlank) (later _)
      | comment =>
          cases rule with
          | comment slash slashes =>
              obtain ⟨body, behind, rfl, taken, left, noLineFeed, ends⟩ :=
                exists_commentBody slashes
              have twoMore : ('/' :: '/' :: body).length = 2 + body.length :=
                Nat.add_comm _ 2
              rw [slash, taken, left, twoMore] at later ⊢
              exact .comment noLineFeed ends (later _)
      | unexpectedCharacter =>
          cases rule with
          | unexpected noLexeme noBlank =>
              have notBlank := mt isBlank_iff.mpr (Bool.eq_false_iff.mp noBlank)
              exact @Covered.unexpected ⟨.unexpectedCharacter, _, offset⟩ _ _ _ _
                rfl noLexeme notBlank (later _)
      | unterminatedString =>
          cases rule with
          | unterminated quote unclosed =>
              obtain ⟨whole, noQuote⟩ := runLength_of_unclosed unclosed
              rw [quote, whole, List.take_length, List.drop_length]
              exact @Covered.unterminated
                ⟨.unterminatedString, _, offset⟩ _ rfl noQuote
termination_by characters.length
decreasing_by
  simp only [List.length_drop, List.length_cons]
  omega

end Pieces

/-- In a text that stands at an offset, a stretch is left from a position on. -/
def LeavesAt
    (offset : Nat)
    (text : List Char)
    (position : Nat)
    (stretch : List Char) :
    Prop :=
  ∃ before, text = before ++ stretch ∧ position = offset + before.length

theorem leavesAt_start
    (offset : Nat)
    (text : List Char) :
    LeavesAt offset text offset text :=
  ⟨[], rfl, rfl⟩

/-- What leaves a stretch of the rest leaves it of the whole text. -/
theorem LeavesAt.behind
    {offset position : Nat}
    {text stretch : List Char}
    (skipped : List Char)
    (leaves : LeavesAt (offset + skipped.length) text position stretch) :
    LeavesAt offset (skipped ++ text) position stretch := by
  obtain ⟨before, rfl, rfl⟩ := leaves
  exact ⟨skipped ++ before, by simp, by simp [Nat.add_assoc]⟩

theorem LeavesAt.le
    {offset position : Nat}
    {text stretch : List Char}
    (leaves : LeavesAt offset text position stretch) :
    offset ≤ position := by
  obtain ⟨before, -, rfl⟩ := leaves
  exact Nat.le_add_right offset before.length

/-- A lexeme ends within the text. -/
theorem LeavesAt.add_length_le
    {position : Nat}
    {text after : List Char}
    {lexeme : String}
    (leaves : LeavesAt 0 text position (lexeme.toList ++ after)) :
    position + lexeme.length ≤ text.length := by
  obtain ⟨before, rfl, rfl⟩ := leaves
  simp only [List.length_append, String.length_toList]
  omega

/-- Dropping the characters before a stretch leaves the stretch. -/
theorem LeavesAt.drop_eq
    {position : Nat}
    {text stretch : List Char}
    (leaves : LeavesAt 0 text position stretch) :
    text.drop position = stretch := by
  obtain ⟨before, rfl, rfl⟩ := leaves
  simp

namespace Covered

variable {offset : Nat} {text : List Char} {tokens : List Token}
  {errors : List LexicalError}

/-- Each token stands in the text where it says, and starts as lexemes do. -/
theorem leavesAt_token
    (covered : Covered offset text tokens errors)
    {token : Token}
    (member : token ∈ tokens) :
    StartsAsLexeme token.lexeme.toList ∧
      ∃ after,
        LeavesAt offset text token.offset (token.lexeme.toList ++ after) := by
  induction covered with
  | finished => cases member
  | @token first rest tokens errors starts _ inductionHypothesis =>
      rcases List.mem_cons.mp member with rfl | later
      · exact ⟨starts, rest, leavesAt_start _ _⟩
      · obtain ⟨laterStarts, after, leaves⟩ := inductionHypothesis later
        rw [← String.length_toList] at leaves
        exact ⟨laterStarts, after, leaves.behind first.lexeme.toList⟩
  | @blank _ character _ _ _ _ _ inductionHypothesis =>
      obtain ⟨starts, after, leaves⟩ := inductionHypothesis member
      exact ⟨starts, after, leaves.behind [character]⟩
  | @comment offset body _ _ _ _ _ _ inductionHypothesis =>
      obtain ⟨starts, after, leaves⟩ := inductionHypothesis member
      rw [Nat.add_comm 2] at leaves
      exact ⟨starts, after, leaves.behind ('/' :: '/' :: body)⟩
  | @unexpected _ character _ _ _ _ _ _ _ inductionHypothesis =>
      obtain ⟨starts, after, leaves⟩ := inductionHypothesis member
      exact ⟨starts, after, leaves.behind [character]⟩
  | unterminated => cases member

/-- Each token starts where the one before it ends, or later. -/
theorem pairwise_tokens
    (covered : Covered offset text tokens errors) :
    tokens.Pairwise fun earlier later =>
      earlier.offset + earlier.lexeme.length ≤ later.offset := by
  induction covered with
  | finished => exact .nil
  | token _ behind inductionHypothesis =>
      refine .cons ?_ inductionHypothesis
      intro later member
      obtain ⟨-, after, leaves⟩ := behind.leavesAt_token member
      exact leaves.le
  | blank _ _ inductionHypothesis => exact inductionHypothesis
  | comment _ _ _ inductionHypothesis => exact inductionHypothesis
  | unexpected _ _ _ _ inductionHypothesis => exact inductionHypothesis
  | unterminated => exact .nil

/-- Each error stands in the text at what it blames. -/
theorem leavesAt_error
    (covered : Covered offset text tokens errors)
    {error : LexicalError}
    (member : error ∈ errors) :
    ∃ stretch,
      LeavesAt offset text error.offset stretch ∧
        Blames error.cause.message stretch := by
  induction covered with
  | finished => cases member
  | @token first rest tokens errors _ _ inductionHypothesis =>
      obtain ⟨stretch, leaves, blames⟩ := inductionHypothesis member
      rw [← String.length_toList] at leaves
      exact ⟨stretch, leaves.behind first.lexeme.toList, blames⟩
  | @blank _ character _ _ _ _ _ inductionHypothesis =>
      obtain ⟨stretch, leaves, blames⟩ := inductionHypothesis member
      exact ⟨stretch, leaves.behind [character], blames⟩
  | @comment offset body _ _ _ _ _ _ inductionHypothesis =>
      obtain ⟨stretch, leaves, blames⟩ := inductionHypothesis member
      rw [Nat.add_comm 2] at leaves
      exact ⟨stretch, leaves.behind ('/' :: '/' :: body), blames⟩
  | @unexpected first character rest _ _ message noLexeme noBlank _
      inductionHypothesis =>
      rcases List.mem_cons.mp member with rfl | later
      · exact ⟨_, leavesAt_start _ _, message ▸ .unexpected noLexeme noBlank⟩
      · obtain ⟨stretch, leaves, blames⟩ := inductionHypothesis later
        exact ⟨stretch, leaves.behind [character], blames⟩
  | @unterminated first body message noQuote =>
      obtain rfl := List.mem_singleton.mp member
      exact ⟨_, leavesAt_start _ _, message ▸ .unterminated noQuote⟩

/-- The errors are listed from the front of the text to its end. -/
theorem pairwise_errors
    (covered : Covered offset text tokens errors) :
    errors.Pairwise fun earlier later => earlier.offset < later.offset := by
  induction covered with
  | finished => exact .nil
  | token _ _ inductionHypothesis => exact inductionHypothesis
  | blank _ _ inductionHypothesis => exact inductionHypothesis
  | comment _ _ _ inductionHypothesis => exact inductionHypothesis
  | unexpected _ _ _ behind inductionHypothesis =>
      refine .cons ?_ inductionHypothesis
      intro later member
      obtain ⟨stretch, leaves, -⟩ := behind.leavesAt_error member
      exact leaves.le
  | unterminated => exact List.pairwise_singleton _ _

/--
An unterminated string takes up the rest of the text, so no error stands behind it.
-/
theorem getLast?_errors
    (covered : Covered offset text tokens errors)
    {error : LexicalError}
    (member : error ∈ errors)
    (unterminated : error.cause.message = "Unterminated string.") :
    errors.getLast? = some error := by
  induction covered with
  | finished => cases member
  | token _ _ inductionHypothesis => exact inductionHypothesis member
  | blank _ _ inductionHypothesis => exact inductionHypothesis member
  | comment _ _ _ inductionHypothesis => exact inductionHypothesis member
  | unexpected message _ _ _ inductionHypothesis =>
      rcases List.mem_cons.mp member with rfl | later
      · rw [message] at unterminated
        exact absurd unterminated (by decide)
      · rw [List.getLast?_cons, inductionHypothesis later]
        rfl
  | unterminated => rw [List.mem_singleton.mp member, List.getLast?_singleton]

end Covered

/-- A text with the tokens, the end mark and the errors that a scan finds in it. -/
structure Accounts (source : String) (scan : Scan) : Prop where
  covered : Covered 0 source.toList scan.stream.tokens scan.errors
  finish :
    scan.stream.rows.getLast? =
      some ⟨"EOF", "", .nil, scan.stream.finish.line, source.length⟩
  onlyFinish : ∀ row ∈ scan.stream.rows.dropLast, row.name ≠ "EOF"
  nonempty : ∀ row ∈ scan.stream.rows.dropLast, row.lexeme ≠ ""
  lexemes :
    ∀ row ∈ scan.stream.rows,
      row.lexeme.toList = (source.toList.drop row.offset).take row.lexeme.length
  ordered :
    scan.stream.rows.Pairwise fun earlier later =>
      earlier.offset + earlier.lexeme.length ≤ later.offset
  starts : ∀ token ∈ scan.stream.tokens, StartsAsLexeme token.lexeme.toList
  blamed : ∀ error ∈ scan.errors,
    Blames error.cause.message (source.toList.drop error.offset)
  errorsOrdered : scan.errors.Pairwise fun earlier later =>
    earlier.offset < later.offset
  unterminatedLast :
    ∀ error ∈ scan.errors,
      error.cause.message = "Unterminated string." →
        scan.errors.getLast? = some error

theorem name_ne_eof
    (kind : Kind) :
    kind.name ≠ "EOF" := by
  cases kind <;> decide

/-- The rows before the last are those of the tokens. -/
theorem mem_dropLast_rows
    {stream : Stream}
    {row : Row}
    (member : row ∈ stream.rows.dropLast) :
    ∃ token ∈ stream.tokens, row = Row.ofToken token := by
  simp only [Stream.rows, List.dropLast_concat, List.mem_map] at member
  obtain ⟨token, isToken, rfl⟩ := member
  exact ⟨token, isToken, rfl⟩

/-- The lexeme of a token is cut from the text at its offset. -/
theorem take_lexeme
    {offset : Nat}
    {text after : List Char}
    {lexeme : String}
    (leaves : LeavesAt 0 text offset (lexeme.toList ++ after)) :
    (text.drop offset).take lexeme.length = lexeme.toList := by
  rw [leaves.drop_eq, ← String.length_toList, List.take_left]

/--
A scan accounts for every character of its text.  Its rows end in the one for the
end of the text and are stretches of the text, each behind the one before.  What
they leave over are blanks, comments, and what the errors blame: single characters
that start no lexeme, and at last a string without its closing quote.
-/
theorem accounts_scan
    (source : String) :
    Accounts source (scan source) := by
  have covered :
      Covered 0 source.toList (scan source).stream.tokens (scan source).errors :=
    covered_pieces 0 1 source.toList
  have tokenLexemes : ∀ token ∈ (scan source).stream.tokens,
      (source.toList.drop token.offset).take token.lexeme.length =
        token.lexeme.toList := by
    intro token member
    obtain ⟨-, after, leaves⟩ := covered.leavesAt_token member
    exact take_lexeme leaves
  constructor
  case covered => exact covered
  case finish =>
    simp [Stream.rows, Row.ofEnd, scan, String.length_toList]
  case onlyFinish =>
    intro row member
    obtain ⟨token, -, rfl⟩ := mem_dropLast_rows member
    exact name_ne_eof token.kind
  case nonempty =>
    intro row member
    obtain ⟨token, isToken, rfl⟩ := mem_dropLast_rows member
    intro empty
    have starts : StartsAsLexeme token.lexeme.toList :=
      (covered.leavesAt_token isToken).1
    rw [show token.lexeme = "" from empty] at starts
    exact starts
  case lexemes =>
    intro row member
    rcases List.mem_append.mp member with isToken | isEnd
    · obtain ⟨token, inTokens, rfl⟩ := List.mem_map.mp isToken
      exact (tokenLexemes token inTokens).symm
    · obtain rfl := List.mem_singleton.mp isEnd
      simp [Row.ofEnd]
  case ordered =>
    refine List.pairwise_append.mpr ⟨?_, List.pairwise_singleton _ _, ?_⟩
    · exact List.pairwise_map.mpr covered.pairwise_tokens
    · intro row isToken last isEnd
      obtain ⟨token, inTokens, rfl⟩ := List.mem_map.mp isToken
      obtain rfl := List.mem_singleton.mp isEnd
      obtain ⟨-, after, leaves⟩ := covered.leavesAt_token inTokens
      exact leaves.add_length_le
  case starts =>
    intro token member
    exact (covered.leavesAt_token member).1
  case blamed =>
    intro error member
    obtain ⟨stretch, leaves, blames⟩ := covered.leavesAt_error member
    rw [leaves.drop_eq]
    exact blames
  case errorsOrdered => exact covered.pairwise_errors
  case unterminatedLast =>
    intro error member unterminated
    exact covered.getLast?_errors member unterminated

end Lox.Lexer
