import Lox.Proofs.Grammar.StatementReading
import Lox.Proofs.Session.FrontEnds
import Lox.Proofs.Token.LongestMatch

namespace Lox

/-!
# Expressions read as statements

An expression is read with no recovery and up to the end of its text, an
expression statement along with all other declarations and up to a semicolon.
Main statement: a text is read as an expression exactly if the text with a
semicolon on a line of its own behind it is read as one expression statement, and
both are then the same tree with the same tokens.
-/

namespace Lexer

/--
A string that a text leaves open stays open if no quote stands behind the text.
-/
theorem Rule.open_append_lineFeed
    {first : Char}
    {rest after : List Char}
    {length : Nat}
    (rule : Rule first rest .unterminatedString length)
    (noQuote : '"' ∉ after) :
    Rule first (rest ++ '\n' :: after) .unterminatedString
      (rest ++ '\n' :: after).length := by
  cases rule with
  | unterminated quote unclosed =>
      have noEnd : '"' ∉ rest ++ '\n' :: after := by
        simp [(runLength_of_unclosed unclosed).2, noQuote]
      have run : runLength (· != '"') (rest ++ '\n' :: after) =
          (rest ++ '\n' :: after).length :=
        runLength_of_forall fun character member =>
          bne_iff_ne.mpr fun same => noEnd (same ▸ member)
      have unclosedStill : ¬ runLength (· != '"') (rest ++ '\n' :: after) <
          (rest ++ '\n' :: after).length :=
        Nat.not_lt_of_ge (Nat.le_of_eq run.symm)
      have longer := Rule.unterminated quote unclosedStill
      rwa [run] at longer

theorem closed_of_append_lineFeed
    {before after : List Char}
    (noQuote : '"' ∉ after)
    (closed :
      ∀ piece ∈ pieces (before ++ '\n' :: after),
        piece.shape ≠ .unterminatedString) :
    ∀ piece ∈ pieces before, piece.shape ≠ .unterminatedString := by
  match before with
  | [] => simp
  | first :: rest =>
      obtain ⟨shape, length, rule⟩ := exists_rule first rest
      have firstClosed : shape ≠ .unterminatedString := by
        rintro rfl
        rw [List.cons_append, pieces_cons,
          (rule.open_append_lineFeed noQuote).leading_eq] at closed
        exact closed _ List.mem_cons_self rfl
      have longer := rule.append_lineFeed firstClosed after
      rw [List.cons_append, pieces_cons, longer.leading_eq,
        List.drop_append_of_le_length rule.length_le] at closed
      rw [pieces_cons, rule.leading_eq]
      obtain ⟨-, laterClosed⟩ := List.forall_mem_cons.mp closed
      exact List.forall_mem_cons.mpr
        ⟨firstClosed, closed_of_append_lineFeed noQuote laterClosed⟩
termination_by before.length
decreasing_by
  simp only [List.length_drop, List.length_cons]
  omega

/-- Without an unterminated string among the pieces there is no error for one. -/
theorem errors_of_closed
    {source : String}
    (closed : ∀ piece ∈ pieces source.toList, piece.shape ≠ .unterminatedString) :
    ∀ error ∈ (scan source).errors, error.cause ≠ .unterminatedString := by
  intro error member unterminated
  obtain ⟨⟨⟨shape, text⟩, offset, line⟩, isPlaced, isError⟩ :=
    List.mem_filterMap.mp member
  have isPiece : ⟨shape, text⟩ ∈ pieces source.toList := by
    rw [← piece_of_place 0 1 (pieces source.toList)]
    exact List.mem_map_of_mem isPlaced
  cases shape with
  | unterminatedString => exact closed _ isPiece rfl
  | unexpectedCharacter =>
      cases isError
      cases unterminated
  | _ => cases isError

theorem scan_semicolon :
    (scan ";").errors = [] ∧
      (scan ";").stream.tokens = [⟨.semicolon, ";", .nil, 1, 0⟩] := by
  decide +kernel

theorem append_lineFeed_semicolon
    (source : String) :
    source ++ "\n;" = source ++ "\n" ++ ";" := by
  rw [String.append_assoc]
  rfl

/--
A semicolon on a line of its own leaves a text with errors and one without as it is.
-/
theorem errors_append_semicolon_eq_nil_iff
    (source : String) :
    (scan (source ++ "\n;")).errors = [] ↔ (scan source).errors = [] := by
  have scansBoth
      (closed : ∀ error ∈ (scan source).errors, error.cause ≠ .unterminatedString) :
      (scan (source ++ "\n;")).errors = (scan source).errors := by
    rw [append_lineFeed_semicolon, scan_append_lineFeed closed]
    simp [scan_semicolon.1]
  constructor
  · intro clean
    have noError : ∀ error ∈ (scan (source ++ "\n;")).errors,
        error.cause ≠ .unterminatedString := by
      simp [clean]
    have joinedClosed := closed_of_errors noError
    rw [String.toList_append] at joinedClosed
    have closed :=
      errors_of_closed (closed_of_append_lineFeed (by decide) joinedClosed)
    rw [← scansBoth closed, clean]
  · intro clean
    rw [scansBoth (by simp [clean]), clean]

/-- The semicolon on a line of its own is the one token more. -/
theorem exists_tokens_append_semicolon
    {source : String}
    (clean : (scan source).errors = []) :
    ∃ semicolon : Token, semicolon.kind = .semicolon ∧
      (scan (source ++ "\n;")).stream.tokens =
        (scan source).stream.tokens ++ [semicolon] := by
  rw [append_lineFeed_semicolon, scan_append_lineFeed (by simp [clean])]
  simp [scan_semicolon.2, Token.moved]

end Lexer

namespace Grammar

variable {rule : ElseRule} {tokens : List Token} {semicolon : Token} {expr : Expr}

/-- Nothing but an expression statement derives as one. -/
theorem Declaration.expressionStatement
    (derives : Declaration rule tokens (.expression expr)) :
    ExpressionStatement tokens (.expression expr) := by
  cases derives with
  | var inner => cases inner
  | statement inner =>
      generalize whole : Stmt.expression expr = stmt at inner
      cases inner with
      | expression derives => exact whole ▸ derives
      | forLoop _ _ initial => cases initial <;> cases whole
      | _ => cases whole

/--
The tokens in front of the semicolon of an
expression statement make up its expression.
-/
theorem declarations_semicolon_iff
    (ends : semicolon.kind = .semicolon) :
    Declarations rule (tokens ++ [semicolon]) [.expression expr] ↔
      Derives .assignment tokens expr := by
  constructor
  · intro derive
    generalize whole : tokens ++ [semicolon] = statement at derive
    cases derive with
    | cons firstDerives laterDerive =>
        cases laterDerive
        obtain ⟨derives, -⟩ := firstDerives.expressionStatement
        rw [List.append_nil] at whole
        rw [List.append_inj_left' whole rfl]
        exact derives
  · intro derives
    have first : Declaration rule (tokens ++ [semicolon]) (.expression expr) :=
      .statement (.expression (.mk derives ends))
    simpa using Declarations.cons first .nil

end Grammar

/--
What reading one expression finds stands if and only if the tokens derive as it.
-/
theorem readExpression_accepted?_iff
    {tokens : List Token}
    {expr : Expr} :
    (readExpression tokens).accepted?.join = some expr ↔
      Grammar.Derives .assignment tokens expr := by
  rcases (readExpression tokens).accepted?_eq with
    ⟨clean, accepted⟩ | ⟨errors, refused⟩
  · obtain ⟨read, found, derives⟩ := readExpression_errors_eq_nil_iff.mp clean
    rw [accepted, found, Option.join_some, Option.some.injEq]
    constructor
    · rintro rfl
      exact derives
    · exact derives.unique
  · rw [refused]
    constructor
    · intro found
      cases found
    · intro derives
      have found := readExpression_found_of_derives derives
      exact (errors
        (readExpression_errors_eq_nil_iff.mpr ⟨expr, found, derives⟩)).elim

namespace TextReader

open Grammar (Declarations Derives)

variable {reader : TextReader} {source : String}

theorem readExpression_of_faulty
    (faulty : (Lexer.scan source).errors ≠ []) :
    (reader.readExpression source).1.value? = none ∧
      (reader.readExpression source).2.faults =
        (Lexer.scan source).errors.map Lexer.LexicalError.fault := by
  simp [readExpression, scan, hadError, faulty]

theorem readExpression_of_clean
    (clean : (Lexer.scan source).errors = []) :
    (reader.readExpression source).1.value? =
        (Lox.readExpression (Lexer.scan source).stream.tokens).accepted?.join ∧
      (reader.readExpression source).2.faults =
        (Lox.readExpression (Lexer.scan source).stream.tokens).errors.map
          (GrammarError.fault (Lexer.scan source).stream.finish) := by
  simp [readExpression, scan, hadError, clean, recordErrors]

/--
A reader hands out the expression that the
tokens of a text without errors derive as.
-/
theorem value?_readExpression_eq_some_iff
    {expr : Expr} :
    (reader.readExpression source).1.value? = some expr ↔
      (Lexer.scan source).errors = [] ∧
        Derives .assignment (Lexer.scan source).stream.tokens expr := by
  by_cases clean : (Lexer.scan source).errors = []
  · rw [(readExpression_of_clean clean).1, readExpression_accepted?_iff]
    exact (and_iff_right clean).symm
  · simp [(readExpression_of_faulty clean).1, clean]

/-- A reader hands out an expression or records an error. -/
theorem faults_readExpression_eq_nil_iff :
    (reader.readExpression source).2.faults = [] ↔
      ∃ expr, (reader.readExpression source).1.value? = some expr := by
  simp only [value?_readExpression_eq_some_iff]
  by_cases clean : (Lexer.scan source).errors = []
  · rw [(readExpression_of_clean clean).2, List.map_eq_nil_iff,
      readExpression_errors_eq_nil_iff]
    constructor
    · rintro ⟨expr, -, derives⟩
      exact ⟨expr, clean, derives⟩
    · rintro ⟨expr, -, derives⟩
      exact ⟨expr, readExpression_found_of_derives derives, derives⟩
  · simp [(readExpression_of_faulty clean).2, clean]

/-- A reader tells its receiver of the errors that it records. -/
theorem faults_answer_readExpression :
    (reader.readExpression source).1.faults =
      (reader.readExpression source).2.faults := by
  by_cases clean : (Lexer.scan source).errors = []
  · rw [(readExpression_of_clean clean).2]
    simp [readExpression, scan, hadError, clean, Answer.faults,
      Lexer.Scan.fault?_events, Reading.fault?_noteEvents]
  · rw [(readExpression_of_faulty clean).2]
    simp [readExpression, scan, hadError, clean, Answer.faults,
      Lexer.Scan.fault?_events]

/--
A reader hands out the program that the tokens of a text without errors derive as.
-/
theorem value?_readProgram_eq_some_iff
    {program : Program} :
    (reader.readProgram source).1.value? = some program ↔
      (Lexer.scan source).errors = [] ∧
        Declarations .nearest (Lexer.scan source).stream.tokens program := by
  rw [value?_readProgram, ← readProgram_found_iff]
  by_cases clean : (Analysis.ofSource source).faults = []
  · obtain ⟨scanned, read⟩ := Analysis.faults_eq_nil_iff.mp clean
    rw [Analysis.program?_of_clean clean, Option.some.injEq]
    exact ⟨fun found => ⟨scanned, read, found⟩, fun holds => holds.2.2⟩
  · rw [Analysis.program?_of_faults clean]
    constructor
    · intro found
      cases found
    · rintro ⟨scanned, read, -⟩
      exact (clean (Analysis.faults_eq_nil_iff.mpr ⟨scanned, read⟩)).elim

/-- Reading a text as an expression agrees with reading it as a statement. -/
structure ReadsAsStatement
    (reader other : TextReader)
    (source : String) :
    Prop where
  value_iff :
    ∀ expr,
      (reader.readExpression source).1.value? = some expr ↔
        (other.readProgram (source ++ "\n;")).1.value? = some [.expression expr]
  refused :
    (¬ ∃ expr, (other.readProgram (source ++ "\n;")).1.value? =
      some [.expression expr]) →
      (reader.readExpression source).1.value? = none ∧
        (reader.readExpression source).2.faults ≠ []
  recorded :
    (reader.readExpression source).2.faults = [] ↔
      ∃ expr, (reader.readExpression source).1.value? = some expr
  /-- Whoever receives the errors is told of all that are recorded. -/
  told : (reader.readExpression source).1.faults =
    (reader.readExpression source).2.faults

theorem value?_readExpression_iff_readProgram
    {other : TextReader}
    {expr : Expr} :
    (reader.readExpression source).1.value? = some expr ↔
      (other.readProgram (source ++ "\n;")).1.value? = some [.expression expr] := by
  rw [value?_readExpression_eq_some_iff, value?_readProgram_eq_some_iff,
    Lexer.errors_append_semicolon_eq_nil_iff]
  refine and_congr_right fun clean => ?_
  obtain ⟨semicolon, ends, tokens⟩ := Lexer.exists_tokens_append_semicolon clean
  rw [tokens, Grammar.declarations_semicolon_iff ends]

/--
Every text is read as an expression exactly if it is read, with a semicolon on a
line of its own behind it, as one expression statement.  If not, no expression
is handed out and an error is recorded.
-/
theorem readsAsStatement
    (reader other : TextReader)
    (source : String) :
    ReadsAsStatement reader other source := by
  constructor
  · exact fun expr => value?_readExpression_iff_readProgram
  · intro noStatement
    have noExpression :
        ¬ ∃ expr, (reader.readExpression source).1.value? = some expr := by
      rintro ⟨expr, handed⟩
      exact noStatement ⟨expr, value?_readExpression_iff_readProgram.mp handed⟩
    exact ⟨Option.eq_none_iff_forall_ne_some.mpr fun expr handed =>
      noExpression ⟨expr, handed⟩,
      mt faults_readExpression_eq_nil_iff.mp noExpression⟩
  · exact faults_readExpression_eq_nil_iff
  · exact faults_answer_readExpression

end TextReader

end Lox
