import Lox.Proofs.Grammar.Course
import Lox.Proofs.Grammar.ExpressionReading

namespace Lox.Parser

/-!
# Print statements without semicolons

Where a semicolon is missing, the first token behind the statement is at fault, and
recovery passes over that token even if it is the keyword of the next statement.
Main statement: of print statements that all lack their semicolons only every second
one is tried, so that errors are reported for half of them.
-/

open Grammar (Derives Phrase firstKinds)

/-- The kinds of the tokens of expressions. -/
def expressionKinds :
    List Kind :=
  firstKinds ++ [.rightParen] ++ continuations .assignment

theorem operators_subset_expressionKinds
    (phrase : Phrase) :
    ∀ kind ∈ phrase.operators, kind ∈ expressionKinds := by
  cases phrase <;> decide

/-- The tokens that derive as an expression have the kinds of such tokens. -/
theorem kind_mem_expressionKinds
    {phrase : Phrase}
    {tokens : List Token}
    {expr : Expr}
    (derives : Derives phrase tokens expr) :
    ∀ token ∈ tokens, token.kind ∈ expressionKinds := by
  induction derives with
  | single _ _ inductionHypothesis => exact inductionHypothesis
  | @chain phrase _ _ operator _ _ _ fits _ beforeKinds afterKinds =>
      refine List.forall_mem_append.mpr
        ⟨beforeKinds, List.forall_mem_cons.mpr ⟨?_, afterKinds⟩⟩
      exact operators_subset_expressionKinds phrase _ fits
  | assign named equal _ inductionHypothesis =>
      refine List.forall_mem_cons.mpr
        ⟨?_, List.forall_mem_cons.mpr ⟨?_, inductionHypothesis⟩⟩
      · rw [named]
        decide
      · rw [equal]
        decide
  | front fits _ inductionHypothesis =>
      refine List.forall_mem_cons.mpr ⟨?_, inductionHypothesis⟩
      have known : ∀ kind ∈ [Kind.bang, .minus], kind ∈ expressionKinds := by
        decide
      exact known _ fits
  | trueLiteral kind => simp [kind, expressionKinds, firstKinds]
  | falseLiteral kind => simp [kind, expressionKinds, firstKinds]
  | nilLiteral kind => simp [kind, expressionKinds, firstKinds]
  | literal fits =>
      refine List.forall_mem_singleton.mpr ?_
      have known : ∀ kind ∈ [Kind.number, .string], kind ∈ expressionKinds := by
        decide
      exact known _ fits
  | reference kind => simp [kind, expressionKinds, firstKinds]
  | group opens _ closes inductionHypothesis =>
      refine List.forall_mem_cons.mpr ⟨?_, List.forall_mem_append.mpr
        ⟨inductionHypothesis, List.forall_mem_singleton.mpr ?_⟩⟩
      · rw [opens]
        decide
      · rw [closes]
        decide

/-- Statements are not parted in the midst of an expression. -/
theorem no_boundary_mem_expressionKinds :
    ∀ kind ∈ expressionKinds, kind ≠ .semicolon ∧ kind ∉ statementKeywords := by
  decide

/-- A print statement that lacks its semicolon. -/
structure OpenPrint where
  keyword : Token
  value : List Token
  isPrint : keyword.kind = .printKeyword
  reads : (readExpression value).errors = []

/-- The tokens of some such statements, one behind the other. -/
def openTokens
    (statements : List OpenPrint) :
    List Token :=
  statements.flatMap fun statement => statement.keyword :: statement.value

/--
What is left at every second statement, and at the end behind an odd number of them.
-/
def openPlaces :
    List OpenPrint → List (List Token)
  | [] => []
  | [_] => [[]]
  | _ :: second :: rest => openTokens (second :: rest) :: openPlaces rest

theorem openTokens_cons
    (statement : OpenPrint)
    (rest : List OpenPrint) :
    openTokens (statement :: rest) =
      statement.keyword :: (statement.value ++ openTokens rest) :=
  rfl

/--
Skipping passes the rest of an open statement and stops at the next or at the end.
-/
theorem skipFrom_openTokens
    {last : Token}
    {passed : List Token}
    (noSemicolon : last.kind ≠ .semicolon)
    (inside : ∀ token ∈ passed, token.kind ∈ expressionKinds)
    (statements : List OpenPrint) :
    skipFrom last (passed ++ openTokens statements) = openTokens statements := by
  induction passed generalizing last with
  | nil =>
      cases statements with
      | nil => rfl
      | cons statement rest =>
          have keyword : statement.keyword.kind ∈ statementKeywords := by
            rw [statement.isPrint]
            decide
          rw [List.nil_append, openTokens_cons, skipFrom,
            if_pos (by simp [keyword])]
  | cons token passed inductionHypothesis =>
      obtain ⟨here, later⟩ := List.forall_mem_cons.mp inside
      obtain ⟨noEnd, noKeyword⟩ := no_boundary_mem_expressionKinds _ here
      rw [List.cons_append, skipFrom, if_neg (by simp [noSemicolon, noKeyword])]
      exact inductionHypothesis noEnd later

/-- Recovery at an open statement passes that whole statement. -/
theorem synchronize_openTokens
    (statement : OpenPrint)
    (rest : List OpenPrint) :
    synchronize (openTokens (statement :: rest)) = openTokens rest := by
  obtain ⟨expr, -, derives⟩ := readExpression_errors_eq_nil_iff.mp statement.reads
  refine skipFrom_openTokens ?_ (kind_mem_expressionKinds derives) rest
  rw [statement.isPrint]
  decide

/-- The tokens behind an open statement neither go on with its value nor end it. -/
theorem not_startsIn_openTokens
    {kinds : List Kind}
    (other : .printKeyword ∉ kinds)
    (statements : List OpenPrint) :
    ¬ StartsIn kinds (openTokens statements) := by
  cases statements with
  | nil => exact not_startsIn_nil
  | cons statement rest =>
      rw [openTokens_cons, startsIn_cons, statement.isPrint]
      exact other

/-- An open statement is given up behind its value. -/
theorem declaration_openTokens
    (statement : OpenPrint)
    (rest : List OpenPrint) :
    ∃ notes,
      declaration (openTokens (statement :: rest)) =
          .rejected ⟨.expectedSemicolonAfterValue, openTokens rest⟩ notes ∧
        Clean notes := by
  obtain ⟨expr, -, derives⟩ := readExpression_errors_eq_nil_iff.mp statement.reads
  obtain ⟨notes, accepted, clean⟩ := reads_expression_of_derives derives
    (not_startsIn_openTokens (by decide) rest)
  have noEnd : expect .semicolon .expectedSemicolonAfterValue (openTokens rest) =
      .rejected ⟨.expectedSemicolonAfterValue, openTokens rest⟩ [] := by
    cases rest with
    | nil => rfl
    | cons next rest => simp [openTokens_cons, expect, next.isPrint]
  have rejected : printStatement (statement.value ++ openTokens rest) =
      .rejected ⟨.expectedSemicolonAfterValue, openTokens rest⟩ notes := by
    rw [printStatement, bind_eq_andThen, andThen_of_accepted accepted,
      bind_eq_andThen, andThen_of_rejected noEnd]
    simp [Outcome.after]
  have noVariable : statement.keyword.kind ≠ .varKeyword := by
    simp [statement.isPrint]
  refine ⟨notes, ?_, clean⟩
  rw [openTokens_cons, declaration, declarationWith,
    if_neg noVariable, statement_eq]
  simp only [statementWith, statement.isPrint, rejected]
  rfl

/--
Behind a declaration that is given up, a program is read like one that starts there.
-/
theorem errors_readProgram_of_rejected
    {token : Token}
    {rest : List Token}
    {error : GrammarError}
    {notes : List Note}
    (rejected : declaration (token :: rest) = .rejected error notes) :
    (readProgram (token :: rest)).errors =
      errorsOf notes ++ error ::
        (readProgram (synchronize error.remaining)).errors := by
  rw [readProgram_cons, rejected]
  simp [Reading.errors, Outcome.recorded, resume, errorsOf, Note.error?]

/--
The errors of open statements stand at every second place, since two statements are
taken at a time: the second is passed with the error of the first.
-/
theorem errors_readProgram_openTokens
    (statements : List OpenPrint) :
    (readProgram (openTokens statements)).errors =
      (openPlaces statements).map fun place =>
        ⟨.expectedSemicolonAfterValue, place⟩ := by
  induction statements using openPlaces.induct with
  | case1 => rfl
  | case2 statement =>
      obtain ⟨notes, rejected, clean⟩ := declaration_openTokens statement []
      rw [openTokens_cons] at rejected ⊢
      rw [errors_readProgram_of_rejected rejected, errorsOf, clean]
      rfl
  | case3 first second rest inductionHypothesis =>
      obtain ⟨notes, rejected, clean⟩ :=
        declaration_openTokens first (second :: rest)
      rw [openTokens_cons] at rejected ⊢
      rw [errors_readProgram_of_rejected rejected, errorsOf, clean,
        synchronize_openTokens, inductionHypothesis]
      rfl

theorem length_openPlaces
    (statements : List OpenPrint) :
    (openPlaces statements).length = (statements.length + 1) / 2 := by
  induction statements using openPlaces.induct with
  | case1 => rfl
  | case2 statement => simp [openPlaces]
  | case3 first second rest inductionHypothesis =>
      simp only [openPlaces, List.length_cons, inductionHypothesis]
      omega

/-- How many of some open statements are blamed, and at which places. -/
structure BlamesEverySecond
    (statements : List OpenPrint) :
    Prop where
  errors :
    (readProgram (openTokens statements)).errors =
      (openPlaces statements).map fun place => ⟨.expectedSemicolonAfterValue, place⟩
  half :
    (readProgram (openTokens statements)).errors.length =
      (statements.length + 1) / 2
  /-- There is an error for each statement only where there is a single one. -/
  all_iff :
    (readProgram (openTokens statements)).errors.length = statements.length ↔
      statements.length ≤ 1

/--
Of statements in a row that all lack their semicolons, every second one is blamed,
where its semicolon is missed: reading goes on behind the statement that follows.
-/
theorem blamesEverySecond
    (statements : List OpenPrint) :
    BlamesEverySecond statements := by
  have errors := errors_readProgram_openTokens statements
  have half : (readProgram (openTokens statements)).errors.length =
      (statements.length + 1) / 2 := by
    rw [errors, List.length_map, length_openPlaces]
  refine ⟨errors, half, ?_⟩
  rw [half]
  omega

/--
Two open statements are not both blamed, though each of them lacks its semicolon.
-/
theorem not_forall_openPrints_blamed :
    ¬ ∀ statements : List OpenPrint,
      1 ≤ statements.length →
        (readProgram (openTokens statements)).errors.length =
          statements.length := by
  intro blamed
  have both := blamed
    [⟨⟨.printKeyword, "print", .nil, 1, 0⟩, [⟨.trueKeyword, "true", .nil, 1, 6⟩],
      rfl, by decide⟩,
      ⟨⟨.printKeyword, "print", .nil, 1, 11⟩,
        [⟨.falseKeyword, "false", .nil, 1, 17⟩],
        rfl, by decide⟩]
    (by decide)
  exact absurd both (by decide)

end Lox.Parser
