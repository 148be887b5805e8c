import Lox.Proofs.Token.LongestMatch
import Lox.Proofs.Tree.Unplaced

namespace Lox

/-!
# Layouts of tokens

The tokens of a text can be laid out in another text, with other blanks and comments
around them.  A blank behind a lexeme ends it, whatever the lexeme is.  Main
statement: a layout of the tokens of a text has no lexical errors and the same
tokens but for their places, also where the text itself has errors.
-/

namespace Lexer

/-- The characters that separate tokens. -/
def blanks :
    List Char :=
  [' ', '\t', '\r', '\n']

/-- Blanks, and comments that each end with a line feed. -/
inductive Filler : List Char → Prop where
  | nil :
      Filler []
  | blank
      {character : Char}
      {rest : List Char} :
      character ∈ blanks →
      Filler rest →
      Filler (character :: rest)
  | comment
      {body rest : List Char} :
      '\n' ∉ body →
      Filler rest →
      Filler ('/' :: '/' :: (body ++ '\n' :: rest))

/-- Filler that starts with a blank. -/
inductive Gap : List Char → Prop where
  | mk
      {character : Char}
      {rest : List Char} :
      character ∈ blanks →
      Filler rest →
      Gap (character :: rest)

/--
A text that holds the lexemes of tokens, with a
gap in front of each and one at the end.
-/
inductive LaidOut : List Token → List Char → Prop where
  | finish
      {gap : List Char} :
      Gap gap →
      LaidOut [] gap
  | token
      {token : Token}
      {tokens : List Token}
      {gap text : List Char} :
      Gap gap →
      LaidOut tokens text →
      LaidOut (token :: tokens) (gap ++ (token.lexeme.toList ++ text))

theorem Gap.filler
    {gap : List Char}
    (isGap : Gap gap) :
    Filler gap := by
  cases isGap with
  | mk isBlank filler => exact .blank isBlank filler

/-- A layout starts with a blank. -/
theorem LaidOut.starts
    {tokens : List Token}
    {text : List Char}
    (laidOut : LaidOut tokens text) :
    ∃ blank ∈ blanks, ∃ rest, text = blank :: rest := by
  cases laidOut with
  | finish isGap =>
      cases isGap with
      | mk isBlank => exact ⟨_, isBlank, _, rfl⟩
  | token isGap =>
      cases isGap with
      | mk isBlank => exact ⟨_, isBlank, _, rfl⟩

/-- Tokens on lines of their own, each behind an empty comment. -/
def onLines :
    List Token → List Char
  | [] => [' ', '/', '/', '\n']
  | token :: tokens =>
      [' ', '/', '/', '\n'] ++ (token.lexeme.toList ++ onLines tokens)

/-- All tokens can be laid out. -/
theorem laidOut_onLines
    (tokens : List Token) :
    LaidOut tokens (onLines tokens) := by
  have isGap : Gap [' ', '/', '/', '\n'] :=
    .mk (by decide) (@Filler.comment [] [] (by decide) .nil)
  induction tokens with
  | nil => exact .finish isGap
  | cons token rest inductionHypothesis => exact .token isGap inductionHypothesis

section Rules

variable {kind : Kind} {text : List Char} {blank : Char}

/-- The kind of a fixed spelling. -/
def ofSpelling? :
    List Char → Option Kind
  | [mark] =>
      if mark = '/' then
        some .slash
      else
        (Kind.ofPunctuation? mark).or ((Kind.ofComparison? mark).map Prod.fst)
  | [mark, '='] => (Kind.ofComparison? mark).map Prod.snd
  | _ => none

/-- The spelling of a listed lexeme tells its kind. -/
theorem ofSpelling?_of_mem_fixedLexemes
    (listed : (text, kind) ∈ fixedLexemes) :
    ofSpelling? text = some kind :=
  (by decide : ∀ entry ∈ fixedLexemes, ofSpelling? entry.1 = some entry.2) _ listed

/-- What a blank is not. -/
theorem blank_cases
    (isBlank : blank ∈ blanks) :
    blank ≠ '=' ∧ blank ≠ '/' ∧ blank ≠ '.' ∧ blank.isDigit = false ∧
      continuesName blank = false := by
  simp only [blanks, List.mem_cons, List.not_mem_nil, or_false] at isBlank
  rcases isBlank with rfl | rfl | rfl | rfl
  all_goals decide

/--
What a text is cut into, if a rule cuts off a lexeme that something else follows.
-/
theorem pieces_append_of_rule
    {first : Char}
    {rest behind : List Char}
    {shape : Shape}
    (rule : Rule first (rest ++ behind) shape rest.length) :
    pieces (first :: rest ++ behind) = ⟨shape, first :: rest⟩ :: pieces behind := by
  rw [List.cons_append, pieces_cons, rule.leading_eq]
  simp

/-- A rule cuts off a whole text if something follows it. -/
def CutBefore
    (behind : List Char)
    (shape : Shape)
    (text : List Char) :
    Prop :=
  ∃ first rest, text = first :: rest ∧ Rule first (rest ++ behind) shape rest.length

/-- A blank cuts the text behind a spelling. -/
theorem cutBefore_of_spelling
    (spelled : ofSpelling? text = some kind)
    (isBlank : blank ∈ blanks)
    (behind : List Char) :
    CutBefore (blank :: behind) (.token kind) text := by
  obtain ⟨noEquals, noSlash, -⟩ := blank_cases isBlank
  unfold ofSpelling? at spelled
  split at spelled
  case h_1 mark =>
    refine ⟨mark, [], rfl, ?_⟩
    split at spelled
    case isTrue slash =>
      cases spelled
      exact .slash slash (by simpa using noSlash)
    case isFalse =>
      rcases Option.or_eq_some_iff.mp spelled with punctuation | ⟨-, isAlone⟩
      · exact .punctuation punctuation
      · obtain ⟨⟨alone, paired⟩, comparison, rfl⟩ :=
          Option.map_eq_some_iff.mp isAlone
        exact .alone comparison (by simpa using noEquals)
  case h_2 mark =>
    obtain ⟨⟨alone, paired⟩, comparison, rfl⟩ := Option.map_eq_some_iff.mp spelled
    exact ⟨mark, ['='], rfl, .paired comparison rfl⟩
  case h_3 => cases spelled

/-- A blank cuts the text behind a word. -/
theorem cutBefore_of_word
    (word : Word text)
    (isBlank : blank ∈ blanks)
    (behind : List Char) :
    CutBefore (blank :: behind)
      (.token (Kind.ofWord (String.ofList text))) text := by
  obtain ⟨-, -, -, -, stops⟩ := blank_cases isBlank
  cases text with
  | nil => exact word.elim
  | cons letter more =>
      obtain ⟨isLetter, inside⟩ := word
      have run : runLength continuesName (more ++ blank :: behind) = more.length :=
        runLength_of_stop (fun character member =>
          continuesName_iff.mpr (inside character member)) stops behind
      have rule : Rule letter (more ++ blank :: behind) _ _ :=
        .word (startsName_iff.mpr isLetter)
      rw [run, List.take_left] at rule
      exact ⟨letter, more, rfl, rule⟩

/-- A point belongs to a number only if a point is there. -/
theorem fractionLength_cons_of_ne
    {first : Char}
    (noPoint : first ≠ '.')
    (rest : List Char) :
    fractionLength (first :: rest) = 0 := by
  unfold fractionLength
  split
  · rename_i same
    exact (noPoint (List.cons_eq_cons.mp same).1).elim
  · rfl

/-- A blank ends a number without a fraction. -/
theorem numberLength_of_whole
    {digits : List Char}
    (inside : ∀ character ∈ digits, Digit character)
    (isBlank : blank ∈ blanks)
    (behind : List Char) :
    numberLength (digits ++ blank :: behind) = digits.length := by
  obtain ⟨-, -, noPoint, noDigit, -⟩ := blank_cases isBlank
  have run : runLength Char.isDigit (digits ++ blank :: behind) = digits.length :=
    runLength_of_stop (fun character member =>
        isDigit_iff.mpr (inside character member)) noDigit behind
  rw [numberLength, run, List.drop_left,
    fractionLength_cons_of_ne noPoint, Nat.add_zero]

/-- A blank ends the fraction of a number. -/
theorem numberLength_of_fraction
    {digits further : List Char}
    {next : Char}
    (inside : ∀ character ∈ digits, Digit character)
    (isDigit : Digit next)
    (insideFurther : ∀ character ∈ further, Digit character)
    (isBlank : blank ∈ blanks)
    (behind : List Char) :
    numberLength (digits ++ '.' :: next :: (further ++ blank :: behind)) =
      digits.length + (2 + further.length) := by
  obtain ⟨-, -, -, noDigit, -⟩ := blank_cases isBlank
  have run :
      runLength Char.isDigit
        (digits ++ '.' :: next :: (further ++ blank :: behind)) =
      digits.length :=
    runLength_of_stop
      (fun character member => isDigit_iff.mpr (inside character member)) rfl _
  have runFurther :
      runLength Char.isDigit (further ++ blank :: behind) = further.length :=
    runLength_of_stop (fun character member =>
        isDigit_iff.mpr (insideFurther character member)) noDigit behind
  rw [numberLength, run, List.drop_left, fractionLength,
    if_pos (isDigit_iff.mpr isDigit), runFurther]

/-- A lexeme in front of a blank is cut off whole and by its own kind. -/
theorem Lexeme.cutBefore
    (lexeme : Lexeme (.token kind) text)
    (isBlank : blank ∈ blanks)
    (behind : List Char) :
    CutBefore (blank :: behind) (.token kind) text := by
  cases lexeme with
  | fixed listed =>
      exact cutBefore_of_spelling
        (ofSpelling?_of_mem_fixedLexemes listed) isBlank behind
  | @string body noQuote =>
      have run :
          runLength (· != '"') (body ++ '"' :: blank :: behind) = body.length :=
        runLength_of_stop (forall_bne_of_not_mem noQuote) rfl _
      have rule : Rule '"' (body ++ '"' :: blank :: behind) _ _ :=
        .string rfl (by simp [run])
      rw [run] at rule
      exact ⟨'"', body ++ ['"'], rfl, by simpa using rule⟩
  | whole nonempty digits =>
      obtain ⟨digit, more, rfl⟩ := List.exists_cons_of_ne_nil nonempty
      obtain ⟨isDigit, moreDigits⟩ := List.forall_mem_cons.mp digits
      have rule : Rule digit (more ++ blank :: behind) _ _ :=
        .number (isDigit_iff.mpr isDigit)
      rw [numberLength_of_whole moreDigits isBlank] at rule
      exact ⟨digit, more, rfl, rule⟩
  | fraction nonempty digits someFurther furtherDigits =>
      obtain ⟨digit, more, rfl⟩ := List.exists_cons_of_ne_nil nonempty
      obtain ⟨next, others, rfl⟩ := List.exists_cons_of_ne_nil someFurther
      obtain ⟨isDigit, moreDigits⟩ := List.forall_mem_cons.mp digits
      obtain ⟨nextIsDigit, otherDigits⟩ := List.forall_mem_cons.mp furtherDigits
      have rule :
          Rule digit (more ++ '.' :: next :: (others ++ blank :: behind)) _ _ :=
        .number (isDigit_iff.mpr isDigit)
      rw [numberLength_of_fraction moreDigits nextIsDigit otherDigits isBlank]
        at rule
      refine ⟨digit, more ++ '.' :: next :: others, rfl, ?_⟩
      simpa [Nat.add_comm 2] using rule
  | keyword word listed =>
      rw [← ofWord_of_mem_keywords listed]
      exact cutBefore_of_word word isBlank behind
  | name word unlisted =>
      rcases ofWord_cases (String.ofList text) with listed | ⟨-, isName⟩
      · exact (unlisted _ listed).elim
      · rw [← isName]
        exact cutBefore_of_word word isBlank behind

end Rules

/-- Filler is cut into blanks and comments, whatever follows it. -/
theorem Filler.exists_pieces
    {gap : List Char}
    (filler : Filler gap)
    (behind : List Char) :
    ∃ passed,
      pieces (gap ++ behind) = passed ++ pieces behind ∧
        ∀ piece ∈ passed, piece.shape = .blank ∨ piece.shape = .comment := by
  have cutBlank {character : Char} (member : character ∈ blanks)
    (after : List Char) :
      pieces (character :: after) = ⟨.blank, [character]⟩ :: pieces after :=
    @pieces_append_of_rule character [] after .blank
      (.blank (isBlank_iff.mpr member))
  induction filler with
  | nil => exact ⟨[], rfl, nofun⟩
  | @blank character rest member _ inductionHypothesis =>
      obtain ⟨passed, cut, shapes⟩ := inductionHypothesis
      refine ⟨⟨.blank, [character]⟩ :: passed, ?_, ?_⟩
      · rw [List.cons_append, cutBlank member, cut]
        rfl
      · exact List.forall_mem_cons.mpr ⟨.inl rfl, shapes⟩
  | @comment body rest noLineFeed _ inductionHypothesis =>
      obtain ⟨passed, cut, shapes⟩ := inductionHypothesis
      have inside : ∀ character ∈ '/' :: body, (character != '\n') = true :=
        List.forall_mem_cons.mpr ⟨rfl, forall_bne_of_not_mem noLineFeed⟩
      have run : runLength (· != '\n') (('/' :: body) ++ '\n' :: (rest ++ behind)) =
          ('/' :: body).length :=
        runLength_of_stop inside rfl _
      have rule : Rule '/' (('/' :: body) ++ '\n' :: (rest ++ behind)) .comment _ :=
        .comment rfl rfl
      rw [run] at rule
      have cutComment := pieces_append_of_rule rule
      rw [cutBlank (by decide), cut] at cutComment
      refine ⟨⟨.comment, '/' :: '/' :: body⟩ :: ⟨.blank, ['\n']⟩ :: passed, ?_, ?_⟩
      · simpa using cutComment
      · exact List.forall_mem_cons.mpr
          ⟨.inr rfl, List.forall_mem_cons.mpr ⟨.inl rfl, shapes⟩⟩

/-- The token of a piece, without a place. -/
def Piece.token?
    (piece : Piece) :
    Option Token :=
  (Placed.mk piece 0 0).token?

theorem Placed.unplaced_token?
    (placed : Placed) :
    placed.token?.map Token.unplaced = placed.piece.token? := by
  obtain ⟨⟨shape, text⟩, offset, line⟩ := placed
  cases shape <;> rfl

/--
Where tokens stand depends on all pieces, what they are on their own pieces only.
-/
theorem unplaced_tokens_scan
    (source : String) :
    (scan source).stream.tokens.map Token.unplaced =
      (pieces source.toList).filterMap Piece.token? := by
  have placed := piece_of_place 0 1 (pieces source.toList)
  simp only [scan, List.map_filterMap, Placed.unplaced_token?]
  rw [← placed, List.filterMap_map, placed]
  rfl

/-- A scan has no errors if each piece is a token, a blank or a comment. -/
theorem errors_eq_nil_of_sound
    {source : String}
    (sound : ∀ piece ∈ pieces source.toList, piece.shape.Sound) :
    (scan source).errors = [] := by
  refine List.filterMap_eq_nil_iff.mpr fun placed member => ?_
  have inPieces : placed.piece ∈ pieces source.toList := by
    rw [← piece_of_place 0 1 (pieces source.toList)]
    exact List.mem_map_of_mem member
  have isSound := sound placed.piece inPieces
  obtain ⟨⟨shape, text⟩, offset, line⟩ := placed
  cases shape with
  | unexpectedCharacter => exact isSound.elim
  | unterminatedString => exact isSound.elim
  | _ => rfl

/-- A token that scans as itself where its lexeme is cut off. -/
structure Token.Scans (token : Token) : Prop where
  isLexeme : Lexeme (.token token.kind) token.lexeme.toList
  isPiece :
    Piece.token? ⟨.token token.kind, token.lexeme.toList⟩ = some token.unplaced

/-- The tokens of a scan are scanned again from their lexemes. -/
theorem scans_of_mem_scan
    {source : String}
    {token : Token}
    (member : token ∈ (scan source).stream.tokens) :
    Token.Scans token where
  isLexeme := (munched_pieces 0 1 source.toList).lexeme_of_mem member
  isPiece := by
    have unplaced :
        token.unplaced ∈ (scan source).stream.tokens.map Token.unplaced :=
      List.mem_map_of_mem member
    rw [unplaced_tokens_scan] at unplaced
    obtain ⟨⟨shape, text⟩, -, isToken⟩ := List.mem_filterMap.mp unplaced
    cases shape with
    | token kind =>
        obtain ⟨kind', lexeme, literal, line, offset⟩ := token
        obtain ⟨rfl, rfl, rfl⟩ : kind = kind' ∧ String.ofList text = lexeme ∧
            literalOf kind text = literal := by
          simpa [Piece.token?, Placed.token?, Token.unplaced] using isToken
        simpa using isToken
    | _ => cases isToken

/-- Blanks and comments are neither tokens nor faults. -/
theorem tokens_of_passed
    {passed : List Piece}
    (shapes : ∀ piece ∈ passed, piece.shape = .blank ∨ piece.shape = .comment) :
    passed.filterMap Piece.token? = [] ∧ ∀ piece ∈ passed, piece.shape.Sound := by
  constructor
  · refine List.filterMap_eq_nil_iff.mpr ?_
    rintro ⟨shape, text⟩ member
    rcases shapes _ member with blank | comment
    · cases blank
      rfl
    · cases comment
      rfl
  · intro piece member
    rcases shapes _ member with blank | comment
    · simp [blank, Shape.Sound]
    · simp [comment, Shape.Sound]

/--
The pieces of a layout are the tokens, and blanks and comments around them: what
follows a lexeme starts with a blank, which ends it whatever its kind.
-/
theorem LaidOut.pieces
    {tokens : List Token}
    {text : List Char}
    (laidOut : LaidOut tokens text)
    (scans : ∀ token ∈ tokens, Token.Scans token) :
    (Lexer.pieces text).filterMap Piece.token? = tokens.map Token.unplaced ∧
      ∀ piece ∈ Lexer.pieces text, piece.shape.Sound := by
  induction laidOut with
  | @finish gap isGap =>
      obtain ⟨passed, cut, shapes⟩ := isGap.filler.exists_pieces []
      rw [List.append_nil, pieces_nil, List.append_nil] at cut
      rw [cut]
      exact tokens_of_passed shapes
  | @token token tokens gap text isGap laidOut inductionHypothesis =>
      obtain ⟨here, later⟩ := List.forall_mem_cons.mp scans
      obtain ⟨tokensLater, soundLater⟩ := inductionHypothesis later
      obtain ⟨passed, cut, shapes⟩ :=
        isGap.filler.exists_pieces (token.lexeme.toList ++ text)
      obtain ⟨nothing, sound⟩ := tokens_of_passed shapes
      obtain ⟨blank, isBlank, rest, rfl⟩ := laidOut.starts
      obtain ⟨first, more, isText, rule⟩ := here.isLexeme.cutBefore isBlank rest
      have cutToken := pieces_append_of_rule rule
      rw [← isText] at cutToken
      rw [cut, cutToken]
      constructor
      · rw [List.filterMap_append, nothing, List.nil_append,
          List.filterMap_cons_some here.isPiece, tokensLater, List.map_cons]
      · intro piece member
        rcases List.mem_append.mp member with inGap | behind
        · exact sound piece inGap
        · rcases List.mem_cons.mp behind with rfl | further
          · trivial
          · exact soundLater piece further

/--
A layout of the tokens of a text has no errors,
and the same tokens but for their places.
-/
theorem scan_of_laidOut
    {source text : String}
    (laidOut : LaidOut (scan source).stream.tokens text.toList) :
    (scan text).errors = [] ∧
      (scan text).stream.tokens.map Token.unplaced =
        (scan source).stream.tokens.map Token.unplaced := by
  obtain ⟨tokens, sound⟩ := laidOut.pieces fun _ => scans_of_mem_scan
  exact ⟨errors_eq_nil_of_sound sound, (unplaced_tokens_scan text).trans tokens⟩

end Lexer

end Lox
