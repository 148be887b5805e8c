import Lox.Proofs.Grammar.ExpressionReading
import Lox.Proofs.Grammar.Statement

namespace Lox

namespace Parser

/-!
# Reading statements and programs

Main statement: exactly the tokens that derive from the grammar of declarations
are read as a program without an error, and what is read is the tree in which
each `else` belongs to the nearest open `if`.  Which `if` that is matters to the
tree alone: the tokens are the same that derive with any choice.

Clauses that a fixed token ends are read exactly as they derive.  A statement
whose last `if` lacks its `else` is read only in front of other tokens.
-/

open Grammar

section Parts

variable {tokens rest : List Token} {stmt : Stmt}

/--
In front of a token that ends it, an expression is read exactly as it derives.
-/
theorem reads_expression_before_iff
    {closing : Token}
    {expr : Expr}
    (closes : closing.kind ∉ continuations .assignment) :
    Reads expression tokens expr (closing :: rest) ↔
      ∃ consumed, tokens = consumed ++ closing :: rest ∧
        Derives .assignment consumed expr := by
  constructor
  · intro reads
    exact readsOnly_expression reads
  · rintro ⟨consumed, rfl, derives⟩
    exact reads_expression_of_derives derives closes

theorem semicolon_not_mem_continuations
    {token : Token}
    (kind : token.kind = .semicolon) :
    token.kind ∉ continuations .assignment := by
  rw [kind]
  decide

theorem rightParen_not_mem_continuations
    {token : Token}
    (kind : token.kind = .rightParen) :
    token.kind ∉ continuations .assignment := by
  rw [kind]
  decide

/-- An expression statement is read if its tokens derive one. -/
theorem reads_expressionStatement_iff :
    Reads expressionStatement tokens stmt rest ↔
      ∃ consumed, tokens = consumed ++ rest ∧
        ExpressionStatement consumed stmt := by
  simp only [expressionStatement, reads_bind, reads_expect, reads_accept]
  constructor
  · rintro ⟨inner, between, innerReads, semicolon, behind, ⟨rfl, ends⟩, rfl, rfl⟩
    obtain ⟨consumed, rfl, derives⟩ := readsOnly_expression innerReads
    exact ⟨consumed ++ [semicolon], by simp, .mk derives ends⟩
  · rintro ⟨_, rfl, @⟨consumed, semicolon, inner, derives, ends⟩⟩
    refine ⟨inner, semicolon :: rest, ?_, semicolon, rest, ⟨rfl, ends⟩, rfl, rfl⟩
    rw [List.append_assoc]
    exact reads_expression_of_derives derives (semicolon_not_mem_continuations ends)

/--
A print statement is read if an expression and a semicolon follow its keyword.
-/
theorem reads_printStatement_iff :
    Reads printStatement tokens stmt rest ↔
      ∃ consumed inner semicolon,
        tokens = consumed ++ semicolon :: rest ∧
          Derives .assignment consumed inner ∧
          semicolon.kind = .semicolon ∧ stmt = .print inner := by
  simp only [printStatement, reads_bind, reads_expect, reads_accept]
  constructor
  · rintro ⟨inner, between, innerReads, semicolon, behind, ⟨rfl, ends⟩, rfl, rfl⟩
    obtain ⟨consumed, rfl, derives⟩ := readsOnly_expression innerReads
    exact ⟨consumed, inner, semicolon, rfl, derives, ends, rfl⟩
  · rintro ⟨consumed, inner, semicolon, rfl, derives, ends, rfl⟩
    exact ⟨inner, semicolon :: rest,
      reads_expression_of_derives derives (semicolon_not_mem_continuations ends),
      semicolon, rest, ⟨rfl, ends⟩, rfl, rfl⟩

/-- The initial value of a variable is read behind an equals sign, or is missing. -/
theorem reads_initialValue
    {initial : Option Expr} :
    Reads initialValue tokens initial rest ↔
      (initial = none ∧ tokens = rest ∧ ¬ StartsIn [.equal] tokens) ∨
        ∃ equals behind value, initial = some value ∧ tokens = equals :: behind ∧
          equals.kind = .equal ∧ Reads expression behind value rest := by
  simp only [initialValue, reads_bind]
  constructor
  · rintro ⟨found, between, foundReads, nextReads⟩
    cases found with
    | none =>
        obtain ⟨rfl, other⟩ := reads_acceptAny_none.mp foundReads
        obtain ⟨rfl, rfl⟩ := reads_accept.mp nextReads
        exact Or.inl ⟨rfl, rfl, other⟩
    | some equals =>
        obtain ⟨rfl, fits⟩ := reads_acceptAny_some.mp foundReads
        obtain ⟨value, behind, valueReads, lastReads⟩ := reads_bind.mp nextReads
        obtain ⟨rfl, rfl⟩ := reads_accept.mp lastReads
        exact Or.inr
          ⟨equals, between, value, rfl, rfl, List.mem_singleton.mp fits, valueReads⟩
  · rintro (⟨rfl, rfl, other⟩ | ⟨equals, behind, value, rfl, rfl, fits, valueReads⟩)
    · exact ⟨none, tokens, reads_acceptAny_none.mpr ⟨rfl, other⟩,
        reads_accept.mpr ⟨rfl, rfl⟩⟩
    · exact ⟨some equals, behind,
        reads_acceptAny_some.mpr ⟨rfl, List.mem_singleton.mpr fits⟩,
        reads_bind.mpr ⟨value, rest, valueReads, reads_accept.mpr ⟨rfl, rfl⟩⟩⟩

/-- A variable is read if its tokens derive its declaration. -/
theorem reads_varDeclaration_iff
    {keyword : Token}
    (declares : keyword.kind = .varKeyword) :
    Reads varDeclaration tokens stmt rest ↔
      ∃ consumed, tokens = consumed ++ rest ∧
        VarDeclaration (keyword :: consumed) stmt := by
  simp only [varDeclaration, reads_bind, reads_expect, reads_accept]
  constructor
  · rintro ⟨name, between, ⟨rfl, named⟩, initial, behind, initialReads, semicolon,
      left, ⟨rfl, ends⟩, rfl, rfl⟩
    rcases reads_initialValue.mp initialReads with
      ⟨rfl, rfl, _⟩ | ⟨equals, after, value, rfl, rfl, fits, valueReads⟩
    · exact ⟨[name, semicolon], rfl, .plain declares named ends⟩
    · obtain ⟨consumed, rfl, derives⟩ := readsOnly_expression valueReads
      exact ⟨name :: equals :: (consumed ++ [semicolon]), by simp,
        .initialized declares named fits derives ends⟩
  · rintro ⟨consumed, rfl, derives⟩
    cases derives with
    | @plain keyword name semicolon declares named ends =>
        refine ⟨name, semicolon :: rest, ⟨rfl, named⟩, none, semicolon :: rest, ?_,
          semicolon, rest, ⟨rfl, ends⟩, rfl, rfl⟩
        exact reads_initialValue.mpr (Or.inl ⟨rfl, rfl, by simp [ends]⟩)
    | @initialized keyword name equals semicolon tokens value declares named
        fits derives ends =>
        refine ⟨name, equals :: (tokens ++ semicolon :: rest), ⟨by simp, named⟩,
          some value, semicolon :: rest, ?_, semicolon, rest, ⟨rfl, ends⟩, rfl, rfl⟩
        exact reads_initialValue.mpr
          (Or.inr
            ⟨equals, tokens ++ semicolon :: rest, value, rfl, rfl, fits,
              reads_expression_of_derives derives
                (semicolon_not_mem_continuations ends)⟩)

/-- The last token of a signal is its semicolon. -/
theorem reads_signal_iff
    {cause : GrammarCause}
    {signal : Stmt} :
    Reads (andThen (expect .semicolon cause) fun _ => accept signal)
      tokens stmt rest ↔
      ∃ semicolon, tokens = semicolon :: rest ∧ semicolon.kind = .semicolon ∧
        signal = stmt := by
  simp only [reads_andThen, reads_expect, reads_accept]
  constructor
  · rintro ⟨semicolon, behind, ⟨rfl, ends⟩, rfl, rfl⟩
    exact ⟨semicolon, rfl, ends, rfl⟩
  · rintro ⟨semicolon, rfl, ends, rfl⟩
    exact ⟨semicolon, rest, ⟨rfl, ends⟩, rfl, rfl⟩

/-- The first clause of a loop is read if its tokens derive one. -/
theorem reads_forInitial_iff
    {initial : Option Stmt} :
    Reads forInitial tokens initial rest ↔
      ∃ consumed, tokens = consumed ++ rest ∧ ForInitial consumed initial := by
  simp only [forInitial, reads_bind]
  constructor
  · rintro ⟨found, between, foundReads, nextReads⟩
    cases found with
    | none =>
        obtain ⟨rfl, -⟩ := reads_acceptAny_none.mp foundReads
        obtain ⟨read, behind, statementReads, lastReads⟩ := reads_bind.mp nextReads
        obtain ⟨rfl, rfl⟩ := reads_accept.mp lastReads
        obtain ⟨consumed, rfl, derives⟩ :=
          reads_expressionStatement_iff.mp statementReads
        exact ⟨consumed, rfl, .expression derives⟩
    | some first =>
        obtain ⟨rfl, fits⟩ := reads_acceptAny_some.mp foundReads
        by_cases missing : first.kind = .semicolon
        · simp only [missing, ↓reduceIte] at nextReads
          obtain ⟨rfl, rfl⟩ := reads_accept.mp nextReads
          exact ⟨[first], rfl, .missing missing⟩
        · have declares : first.kind = .varKeyword := by
            simpa [missing] using fits
          simp only [missing, ↓reduceIte] at nextReads
          obtain ⟨read, behind, declarationReads, lastReads⟩ :=
            reads_bind.mp nextReads
          obtain ⟨rfl, rfl⟩ := reads_accept.mp lastReads
          obtain ⟨consumed, rfl, derives⟩ :=
            (reads_varDeclaration_iff declares).mp declarationReads
          exact ⟨first :: consumed, rfl, .declaration derives⟩
  · rintro ⟨consumed, rfl, derives⟩
    cases derives with
    | @missing semicolon missing =>
        refine ⟨some semicolon, rest,
          reads_acceptAny_some.mpr ⟨rfl, by simp [missing]⟩, ?_⟩
        simp [missing]
    | @declaration consumed read derives =>
        obtain ⟨keyword, behind, rfl, declares⟩ := derives.exists_keyword
        refine ⟨some keyword, behind ++ rest,
          reads_acceptAny_some.mpr ⟨rfl, by simp [declares]⟩, ?_⟩
        have other : keyword.kind ≠ .semicolon := by simp [declares]
        simp only [other, ↓reduceIte]
        exact reads_bind.mpr ⟨read, rest,
          (reads_varDeclaration_iff declares).mpr ⟨behind, rfl, derives⟩,
          reads_accept.mpr ⟨rfl, rfl⟩⟩
    | @expression consumed read derives =>
        refine ⟨none, consumed ++ rest,
          reads_acceptAny_none.mpr
            ⟨rfl, not_startsIn_append derives.startsIn (by decide)⟩, ?_⟩
        exact reads_bind.mpr ⟨read, rest,
          reads_expressionStatement_iff.mpr ⟨consumed, rfl, derives⟩,
          reads_accept.mpr ⟨rfl, rfl⟩⟩

/-- A clause is read in front of its end if its tokens derive one. -/
theorem reads_forClause_iff
    {kind : Kind}
    {closing : Token}
    {clause : Option Expr}
    (closes : closing.kind = kind)
    (ends : kind ∉ continuations .assignment)
    (starts : kind ∉ firstKinds) :
    Reads (clauseBefore kind expression) tokens clause (closing :: rest) ↔
      ∃ consumed, tokens = consumed ++ closing :: rest ∧
        ForClause consumed clause := by
  subst kind
  cases clause with
  | none =>
      rw [reads_clauseBefore_none]
      constructor
      · rintro ⟨rfl, -⟩
        exact ⟨[], rfl, .missing⟩
      · rintro ⟨_, rfl, derives⟩
        cases derives
        exact ⟨rfl, by simp⟩
  | some expr =>
      rw [reads_clauseBefore_some, reads_expression_before_iff ends]
      constructor
      · rintro ⟨-, consumed, rfl, derives⟩
        exact ⟨consumed, rfl, .given derives⟩
      · rintro ⟨consumed, rfl, derives⟩
        cases derives with
        | given derives =>
            exact ⟨not_startsIn_append derives.startsIn (by simpa using starts),
              consumed, rfl, derives⟩

end Parts

/-- Attempts that all succeed without an error, and what they read. -/
def ReadsAttempts
    (declaration : Parser Stmt)
    (stops : Token → Bool)
    (count : Nat)
    (tokens : List Token)
    (statements : List Stmt)
    (rest : List Token) :
    Prop :=
  Clean ((attempts declaration stops count tokens).1.flatMap Outcome.recorded) ∧
    (attempts declaration stops count tokens).1.filterMap Outcome.value? =
      statements ∧
      (attempts declaration stops count tokens).2 = rest

section Attempts

variable {declaration : Parser Stmt} {stops : Token → Bool} {count : Nat}
  {tokens rest : List Token} {statements : List Stmt} {token : Token}

/-- At a token that stops them no declarations are read. -/
theorem readsAttempts_nil
    (ends : ∀ token behind, rest = token :: behind → stops token = true) :
    ReadsAttempts declaration stops count rest [] rest := by
  cases count with
  | zero => exact ⟨clean_nil, rfl, rfl⟩
  | succ count =>
      cases rest with
      | nil => exact ⟨clean_nil, rfl, rfl⟩
      | cons token behind => simp [ReadsAttempts, attempts, ends token behind rfl]

/-- Attempts stop in front of a token that stops them. -/
theorem readsAttempts_stop
    (stopped : stops token = true) :
    ReadsAttempts declaration stops (count + 1) (token :: tokens) statements rest ↔
      statements = [] ∧ token :: tokens = rest := by
  simp [ReadsAttempts, attempts, stopped, eq_comm]

/-- Behind one declaration the next ones are read. -/
theorem readsAttempts_succ
    (going : stops token = false) :
    ReadsAttempts declaration stops (count + 1) (token :: tokens) statements rest ↔
      ∃ first between later, statements = first :: later ∧
        Reads declaration (token :: tokens) first between ∧
          ReadsAttempts declaration stops count between later rest := by
  simp only [ReadsAttempts, attempts, going, Bool.false_eq_true, ↓reduceIte,
    List.flatMap_cons, clean_append]
  constructor
  · rintro ⟨⟨clean, laterClean⟩, values, left⟩
    obtain ⟨first, between, notes, accepted, notesClean⟩ :=
      clean_recorded_iff.mp clean
    rw [accepted] at laterClean values left
    exact ⟨first, between, _, values.symm, ⟨notes, accepted, notesClean⟩,
      laterClean, rfl, left⟩
  · rintro ⟨first, between, later, rfl, ⟨notes, accepted, notesClean⟩,
      laterClean, rfl, left⟩
    rw [accepted]
    exact ⟨⟨notesClean, laterClean⟩, rfl, left⟩

/-- Enough attempts that nothing stops reach the end. -/
theorem attempts_unstopped
    (forward : ReadsForward declaration)
    (consumes : Consumes declaration)
    (enough : tokens.length ≤ count) :
    (attempts declaration (fun _ => false) count tokens).2 = [] := by
  induction count generalizing tokens with
  | zero => exact List.length_eq_zero_iff.mp (Nat.le_zero.mp enough)
  | succ count inductionHypothesis =>
      cases tokens with
      | nil => rfl
      | cons token behind =>
          have shorter := length_resume_lt forward consumes token behind
          simp only [attempts, Bool.false_eq_true, ↓reduceIte]
          exact inductionHypothesis (by omega)

/-- At its keyword, a declaration is that of a variable. -/
theorem reads_declarationWith_var
    {statement : Parser Stmt}
    {stmt : Stmt}
    (declares : token.kind = .varKeyword) :
    Reads (declarationWith statement) (token :: tokens) stmt rest ↔
      Reads varDeclaration tokens stmt rest := by
  simp only [Reads, declarationWith, declares, ↓reduceIte]
  exact accepted_noteParsed_iff

/-- At any other token, a declaration is a statement. -/
theorem reads_declarationWith_other
    {statement : Parser Stmt}
    {stmt : Stmt}
    (other : ¬ StartsIn [.varKeyword] tokens) :
    Reads (declarationWith statement) tokens stmt rest ↔
      Reads statement tokens stmt rest := by
  cases tokens with
  | nil => exact accepted_noteParsed_iff
  | cons token behind =>
      have kind : token.kind ≠ .varKeyword :=
        fun declares => other (by simp [declares])
      simp only [Reads, declarationWith, kind, ↓reduceIte]
      exact accepted_noteParsed_iff

/-- A block reads its declarations and the brace behind them. -/
theorem reads_blockWith
    {statement : Parser Stmt}
    {stmt : Stmt} :
    Reads (blockWith statement) tokens stmt rest ↔
      ∃ statements closing,
        ReadsAttempts (declarationWith statement) (·.kind = .rightBrace)
          tokens.length tokens
            statements (closing :: rest) ∧
          closing.kind = .rightBrace ∧ .block statements = stmt := by
  let tried :=
    attempts (declarationWith statement) (·.kind = .rightBrace) tokens.length tokens
  have unfolded :
      Reads (blockWith statement) tokens stmt rest ↔
        Clean (tried.1.flatMap Outcome.recorded) ∧
          Reads (andThen (expect .rightBrace .expectedBraceAfterBlock) fun _ =>
            accept (.block (tried.1.filterMap Outcome.value?))) tried.2 stmt rest :=
    accepted_after_iff
  rw [unfolded]
  simp only [reads_andThen, reads_expect, reads_accept]
  constructor
  · rintro ⟨clean, closing, between, ⟨left, closes⟩, rfl, rfl⟩
    exact ⟨_, closing, ⟨clean, rfl, left⟩, closes, rfl⟩
  · rintro ⟨_, closing, ⟨clean, rfl, left⟩, closes, rfl⟩
    exact ⟨clean, closing, rest, ⟨left, closes⟩, rfl, rfl⟩

end Attempts

section Soundness

variable {statement : Parser Stmt} {tokens rest : List Token} {stmt : Stmt}
  {keyword : Token}

/--
Tokens derive as a statement, and an else behind them belongs to no if inside it.
-/
def DerivesBefore
    (rest tokens : List Token)
    (stmt : Stmt) :
    Prop :=
  ∃ ending, Statement .nearest ending tokens stmt ∧
    (StartsIn [.elseKeyword] rest → ending = .closed)

/-- What a parser reads of statements derives in front of what it leaves. -/
def ReadsStatements
    (parser : Parser Stmt) :
    Prop :=
  ∀ ⦃tokens stmt rest⦄, Reads parser tokens stmt rest →
    ∃ consumed, tokens = consumed ++ rest ∧ DerivesBefore rest consumed stmt

/--
An if statement that is read derives, with no else behind it that it could take.
-/
theorem derives_of_reads_ifWith
    (sound : ReadsStatements statement)
    (starts : keyword.kind = .ifKeyword)
    (reads : Reads (ifWith statement) tokens stmt rest) :
    ∃ consumed, tokens = consumed ++ rest ∧
      DerivesBefore rest (keyword :: consumed) stmt := by
  simp only [ifWith, reads_bind, reads_expect] at reads
  obtain ⟨opening, _, ⟨rfl, opens⟩, condition, _, conditionReads, closing, _,
    ⟨rfl, closes⟩, thenPart, afterThen, thenReads, found, afterElse, foundReads,
    nextReads⟩ := reads
  obtain ⟨conditionTokens, rfl, conditionDerives⟩ :=
    readsOnly_expression conditionReads
  obtain ⟨thenTokens, rfl, thenEnding, thenDerives, thenCloses⟩ := sound thenReads
  cases found with
  | none =>
      obtain ⟨rfl, noElse⟩ := reads_acceptAny_none.mp foundReads
      obtain ⟨rfl, rfl⟩ := reads_accept.mp nextReads
      exact ⟨opening :: (conditionTokens ++ closing :: thenTokens), by simp,
        .dangling, .ifThen starts opens conditionDerives closes thenDerives,
        fun hasElse => (noElse hasElse).elim⟩
  | some otherwise =>
      obtain ⟨rfl, fits⟩ := reads_acceptAny_some.mp foundReads
      obtain ⟨elsePart, _, elseReads, lastReads⟩ := reads_bind.mp nextReads
      obtain ⟨rfl, rfl⟩ := reads_accept.mp lastReads
      obtain ⟨elseTokens, rfl, ending, elseDerives, elseCloses⟩ := sound elseReads
      exact ⟨opening ::
        (conditionTokens ++ closing :: (thenTokens ++ otherwise :: elseTokens)),
        by simp, ending, .ifElse starts opens conditionDerives closes thenDerives
          (thenCloses fits) (List.mem_singleton.mp fits) elseDerives, elseCloses⟩

/-- A while statement that is read derives before what follows it. -/
theorem derives_of_reads_whileWith
    (sound : ReadsStatements statement)
    (starts : keyword.kind = .whileKeyword)
    (reads : Reads (whileWith statement) tokens stmt rest) :
    ∃ consumed, tokens = consumed ++ rest ∧
      DerivesBefore rest (keyword :: consumed) stmt := by
  simp only [whileWith, reads_bind, reads_expect, reads_accept] at reads
  obtain ⟨opening, _, ⟨rfl, opens⟩, condition, _, conditionReads, closing, _,
    ⟨rfl, closes⟩, body, _, bodyReads, rfl, rfl⟩ := reads
  obtain ⟨conditionTokens, rfl, conditionDerives⟩ :=
    readsOnly_expression conditionReads
  obtain ⟨bodyTokens, rfl, ending, bodyDerives, bodyCloses⟩ := sound bodyReads
  exact ⟨opening :: (conditionTokens ++ closing :: bodyTokens), by simp, ending,
    .whileLoop starts opens conditionDerives closes bodyDerives, bodyCloses⟩

/-- The tree of a loop is that of a while statement with its clauses around. -/
theorem forLoop_eq
    (initial : Option Stmt)
    (condition increment : Option Expr)
    (body : Stmt) :
    Stmt.forLoop initial condition increment body =
      loopBehind initial
        (.whileLoop (loopCondition condition) (loopRound increment body)) := by
  cases initial <;> cases condition <;> cases increment <;> rfl

/-- A for statement that is read derives before what follows it. -/
theorem derives_of_reads_forWith
    (sound : ReadsStatements statement)
    (starts : keyword.kind = .forKeyword)
    (reads : Reads (forWith statement) tokens stmt rest) :
    ∃ consumed, tokens = consumed ++ rest ∧
      DerivesBefore rest (keyword :: consumed) stmt := by
  simp only [forWith, reads_bind, reads_expect, reads_accept] at reads
  obtain ⟨opening, _, ⟨rfl, opens⟩, initial, _, initialReads, condition, _,
    conditionReads, semicolon, _, ⟨rfl, ends⟩, increment, _, incrementReads,
    closing, _, ⟨rfl, closes⟩, body, _, bodyReads, rfl, rfl⟩ := reads
  obtain ⟨initialTokens, rfl, initialDerives⟩ :=
    reads_forInitial_iff.mp initialReads
  obtain ⟨conditionTokens, rfl, conditionDerives⟩ :=
    (reads_forClause_iff ends (by decide) (by decide)).mp conditionReads
  obtain ⟨incrementTokens, rfl, incrementDerives⟩ :=
    (reads_forClause_iff closes (by decide) (by decide)).mp incrementReads
  obtain ⟨bodyTokens, rfl, ending, bodyDerives, bodyCloses⟩ := sound bodyReads
  rw [forLoop_eq]
  exact ⟨opening :: (initialTokens ++ (conditionTokens ++ semicolon ::
      (incrementTokens ++ closing :: bodyTokens))), by simp, ending,
    .forLoop starts opens initialDerives conditionDerives ends incrementDerives
      closes bodyDerives,
    bodyCloses⟩

/-- A declaration that is read derives. -/
theorem derives_of_reads_declarationWith
    (sound : ReadsStatements statement)
    (reads : Reads (declarationWith statement) tokens stmt rest) :
    ∃ consumed, tokens = consumed ++ rest ∧ Declaration .nearest consumed stmt := by
  by_cases declares : StartsIn [.varKeyword] tokens
  · cases tokens with
    | nil => exact (not_startsIn_nil declares).elim
    | cons keyword behind =>
        have kind : keyword.kind = .varKeyword := List.mem_singleton.mp declares
        obtain ⟨consumed, rfl, derives⟩ :=
          (reads_varDeclaration_iff kind).mp
            ((reads_declarationWith_var kind).mp reads)
        exact ⟨keyword :: consumed, rfl, .var derives⟩
  · obtain ⟨consumed, shape, ending, derives, -⟩ :=
      sound ((reads_declarationWith_other declares).mp reads)
    exact ⟨consumed, shape, .statement derives⟩

/-- Declarations that are read one after the other derive. -/
theorem derives_of_readsAttempts
    (sound : ReadsStatements statement)
    {stops : Token → Bool}
    {count : Nat}
    {statements : List Stmt}
    (reads :
      ReadsAttempts (declarationWith statement) stops count tokens
        statements rest) :
    ∃ consumed, tokens = consumed ++ rest ∧
      Declarations .nearest consumed statements := by
  induction count generalizing tokens statements with
  | zero =>
      obtain ⟨-, rfl, rfl⟩ := reads
      exact ⟨[], rfl, .nil⟩
  | succ count inductionHypothesis =>
      cases tokens with
      | nil =>
          obtain ⟨-, rfl, rfl⟩ := reads
          exact ⟨[], rfl, .nil⟩
      | cons token behind =>
          cases stopped : stops token with
          | true =>
              obtain ⟨rfl, rfl⟩ := (readsAttempts_stop stopped).mp reads
              exact ⟨[], rfl, .nil⟩
          | false =>
              obtain ⟨first, between, later, rfl, firstReads, laterReads⟩ :=
                (readsAttempts_succ stopped).mp reads
              obtain ⟨consumed, shape, firstDerives⟩ :=
                derives_of_reads_declarationWith sound firstReads
              obtain ⟨more, rfl, laterDerive⟩ := inductionHypothesis laterReads
              exact ⟨consumed ++ more, by simp [shape],
                .cons firstDerives laterDerive⟩

/-- A block that is read derives. -/
theorem derives_of_reads_blockWith
    (sound : ReadsStatements statement)
    (starts : keyword.kind = .leftBrace)
    (reads : Reads (blockWith statement) tokens stmt rest) :
    ∃ consumed, tokens = consumed ++ rest ∧
      DerivesBefore rest (keyword :: consumed) stmt := by
  obtain ⟨statements, closing, attemptsRead, closes, rfl⟩ :=
    reads_blockWith.mp reads
  obtain ⟨consumed, rfl, derive⟩ := derives_of_readsAttempts sound attemptsRead
  exact ⟨consumed ++ [closing], by simp, .closed,
    .block starts derive closes, fun _ => rfl⟩

/-- An expression statement that is read derives. -/
theorem derives_of_reads_expressionStatement
    (reads : Reads expressionStatement tokens stmt rest) :
    ∃ consumed, tokens = consumed ++ rest ∧ DerivesBefore rest consumed stmt := by
  obtain ⟨consumed, shape, derives⟩ := reads_expressionStatement_iff.mp reads
  exact ⟨consumed, shape, .closed, .expression derives, fun _ => rfl⟩

/-- Behind a keyword a statement takes up the keyword too. -/
theorem derivesBefore_cons
    (derives :
      ∃ consumed, tokens = consumed ++ rest ∧
        DerivesBefore rest (keyword :: consumed) stmt) :
    ∃ consumed, keyword :: tokens = consumed ++ rest ∧
      DerivesBefore rest consumed stmt := by
  obtain ⟨consumed, rfl, before⟩ := derives
  exact ⟨keyword :: consumed, rfl, before⟩

/-- A statement that is read derives if those inside it do. -/
theorem readsStatements_statementWith
    (sound : ReadsStatements statement) :
    ReadsStatements (statementWith statement) := by
  intro tokens stmt rest reads
  cases tokens with
  | nil => exact derives_of_reads_expressionStatement reads
  | cons token behind =>
      obtain ⟨notes, accepted, clean⟩ := reads
      simp only [statementWith] at accepted
      split at accepted
      case h_1 kind =>
        exact derivesBefore_cons
          (derives_of_reads_ifWith sound kind ⟨notes, accepted, clean⟩)
      case h_2 kind =>
        exact derivesBefore_cons
          (derives_of_reads_whileWith sound kind ⟨notes, accepted, clean⟩)
      case h_3 kind =>
        exact derivesBefore_cons
          (derives_of_reads_forWith sound kind ⟨notes, accepted, clean⟩)
      case h_4 kind =>
        obtain ⟨consumed, inner, semicolon, rfl, derives, ends, rfl⟩ :=
          reads_printStatement_iff.mp ⟨notes, accepted, clean⟩
        exact ⟨token :: (consumed ++ [semicolon]), by simp, .closed,
          .print kind derives ends, fun _ => rfl⟩
      case h_5 kind =>
        obtain ⟨semicolon, rfl, ends, rfl⟩ :=
          reads_signal_iff.mp ⟨notes, accepted, clean⟩
        exact ⟨[token, semicolon], rfl, .closed, .breakLoop kind ends, fun _ => rfl⟩
      case h_6 kind =>
        obtain ⟨semicolon, rfl, ends, rfl⟩ :=
          reads_signal_iff.mp ⟨notes, accepted, clean⟩
        exact ⟨[token, semicolon], rfl, .closed,
          .continueLoop kind ends, fun _ => rfl⟩
      case h_7 kind =>
        exact derivesBefore_cons
          (derives_of_reads_blockWith sound kind ⟨notes, accepted, clean⟩)
      case h_8 =>
        exact derives_of_reads_expressionStatement ⟨notes, accepted, clean⟩

/-- Every statement that is read derives. -/
theorem readsStatements_statement :
    ReadsStatements Parser.statement := by
  have within : ∀ depth, ReadsStatements (statementWithin depth) := by
    intro depth
    induction depth with
    | zero =>
        intro tokens stmt rest reads
        exact (not_reads_reject reads).elim
    | succ depth inductionHypothesis =>
        exact readsStatements_statementWith inductionHypothesis
  intro tokens stmt rest reads
  exact within (tokens.length + 1) reads

end Soundness

section Completeness

variable {tokens rest : List Token} {stmt : Stmt} {keyword : Token}

/-- A statement with a keyword is read by the parser for that keyword. -/
theorem reads_statement_iff
    {given : List Token}
    {parser : Parser Stmt}
    (same : statementWith statement tokens = parser given) :
    Reads statement tokens stmt rest ↔ Reads parser given stmt rest :=
  reads_congr ((congrFun statement_eq tokens).trans same)

/-- A condition between its parentheses, and what is read behind it. -/
theorem reads_condition
    {cause otherCause : GrammarCause}
    {opening closing : Token}
    {conditionTokens : List Token}
    {condition : Expr}
    {next : Expr → Parser Stmt}
    (opens : opening.kind = .leftParen)
    (conditionDerives : Derives .assignment conditionTokens condition)
    (closes : closing.kind = .rightParen)
    (nextReads : Reads (next condition) tokens stmt rest) :
    Reads (do
        let _ ← expect .leftParen cause
        let condition ← expression
        let _ ← expect .rightParen otherCause
        next condition)
      (opening :: (conditionTokens ++ closing :: tokens)) stmt rest := by
  simp only [reads_bind, reads_expect]
  exact ⟨opening, _, ⟨rfl, opens⟩, condition, _,
    reads_expression_of_derives conditionDerives
      (rightParen_not_mem_continuations closes),
    closing, tokens, ⟨rfl, closes⟩, nextReads⟩

/-- An if statement without an else is read where none follows it. -/
theorem reads_ifWith_then
    {opening closing : Token}
    {conditionTokens : List Token}
    {condition : Expr}
    (opens : opening.kind = .leftParen)
    (conditionDerives : Derives .assignment conditionTokens condition)
    (closes : closing.kind = .rightParen)
    (thenReads : Reads statement tokens stmt rest)
    (noElse : ¬ StartsIn [.elseKeyword] rest) :
    Reads (ifWith statement) (opening :: (conditionTokens ++ closing :: tokens))
      (.ifThen condition stmt) rest := by
  refine reads_condition opens conditionDerives closes ?_
  exact reads_bind.mpr ⟨stmt, rest, thenReads,
    reads_bind.mpr ⟨none, rest, reads_acceptAny_none.mpr ⟨rfl, noElse⟩,
      reads_accept.mpr ⟨rfl, rfl⟩⟩⟩

/-- An if statement takes the else behind its first branch. -/
theorem reads_ifWith_else
    {opening closing otherwise : Token}
    {conditionTokens elseTokens : List Token}
    {condition : Expr}
    {elsePart : Stmt}
    (opens : opening.kind = .leftParen)
    (conditionDerives : Derives .assignment conditionTokens condition)
    (closes : closing.kind = .rightParen)
    (thenReads : Reads statement tokens stmt (otherwise :: elseTokens))
    (alternative : otherwise.kind = .elseKeyword)
    (elseReads : Reads statement elseTokens elsePart rest) :
    Reads (ifWith statement) (opening :: (conditionTokens ++ closing :: tokens))
      (.ifElse condition stmt elsePart) rest := by
  refine reads_condition opens conditionDerives closes ?_
  exact reads_bind.mpr ⟨stmt, otherwise :: elseTokens, thenReads,
    reads_bind.mpr ⟨some otherwise, elseTokens,
      reads_acceptAny_some.mpr ⟨rfl, List.mem_singleton.mpr alternative⟩,
      reads_bind.mpr ⟨elsePart, rest, elseReads, reads_accept.mpr ⟨rfl, rfl⟩⟩⟩⟩

/-- A while statement is read if its body is. -/
theorem reads_whileWith
    {opening closing : Token}
    {conditionTokens : List Token}
    {condition : Expr}
    (opens : opening.kind = .leftParen)
    (conditionDerives : Derives .assignment conditionTokens condition)
    (closes : closing.kind = .rightParen)
    (bodyReads : Reads statement tokens stmt rest) :
    Reads (whileWith statement) (opening :: (conditionTokens ++ closing :: tokens))
      (.whileLoop condition stmt) rest := by
  refine reads_condition opens conditionDerives closes ?_
  exact reads_bind.mpr ⟨stmt, rest, bodyReads, reads_accept.mpr ⟨rfl, rfl⟩⟩

/-- A for statement is read if its clauses derive and its body is read. -/
theorem reads_forWith
    {opening semicolon closing : Token}
    {initialTokens conditionTokens incrementTokens : List Token}
    {initial : Option Stmt}
    {condition increment : Option Expr}
    (opens : opening.kind = .leftParen)
    (initialDerives : ForInitial initialTokens initial)
    (conditionDerives : ForClause conditionTokens condition)
    (ends : semicolon.kind = .semicolon)
    (incrementDerives : ForClause incrementTokens increment)
    (closes : closing.kind = .rightParen)
    (bodyReads : Reads statement tokens stmt rest) :
    Reads (forWith statement)
      (opening :: (initialTokens ++ (conditionTokens ++ semicolon ::
        (incrementTokens ++ closing :: tokens))))
      (loopBehind initial
        (.whileLoop (loopCondition condition) (loopRound increment stmt)))
      rest := by
  rw [← forLoop_eq]
  simp only [forWith, reads_bind, reads_expect, reads_accept]
  exact ⟨opening, _, ⟨rfl, opens⟩, initial, _,
    reads_forInitial_iff.mpr ⟨initialTokens, rfl, initialDerives⟩,
    condition, _,
    (reads_forClause_iff ends (by decide) (by decide)).mpr
      ⟨conditionTokens, rfl, conditionDerives⟩,
    semicolon, _, ⟨rfl, ends⟩, increment, _,
    (reads_forClause_iff closes (by decide) (by decide)).mpr
      ⟨incrementTokens, rfl, incrementDerives⟩,
    closing, _, ⟨rfl, closes⟩,
    stmt, rest, bodyReads, rfl, rfl⟩

/-- No else stands behind a declaration in a list of them. -/
theorem not_startsIn_else_of_declarations
    {statements : List Stmt}
    (derive : Declarations .nearest tokens statements)
    (ends : ¬ StartsIn [.elseKeyword] rest) :
    ¬ StartsIn [.elseKeyword] (tokens ++ rest) := by
  cases derive with
  | nil => exact ends
  | cons first later =>
      rw [List.append_assoc]
      exact not_startsIn_append first.startsIn (by decide)

/-- An expression starts no other statement. -/
theorem statementWith_of_expressionStatement
    (derives : ExpressionStatement tokens stmt) :
    statementWith statement (tokens ++ rest) =
      expressionStatement (tokens ++ rest) := by
  have starts := derives.startsIn
  cases tokens with
  | nil => exact (not_startsIn_nil starts).elim
  | cons token behind =>
      have apart (kind : Kind) (other : kind ∉ firstKinds) : token.kind ≠ kind := by
        rintro rfl
        exact other starts
      simp only [List.cons_append, statementWith]
      split
      case h_1 kind => exact (apart _ (by decide) kind).elim
      case h_2 kind => exact (apart _ (by decide) kind).elim
      case h_3 kind => exact (apart _ (by decide) kind).elim
      case h_4 kind => exact (apart _ (by decide) kind).elim
      case h_5 kind => exact (apart _ (by decide) kind).elim
      case h_6 kind => exact (apart _ (by decide) kind).elim
      case h_7 kind => exact (apart _ (by decide) kind).elim
      case h_8 => rfl

/-- A print statement that derives is read. -/
theorem reads_print_of_derives
    {semicolon : Token}
    {inner : Expr}
    (starts : keyword.kind = .printKeyword)
    (derives : Derives .assignment tokens inner)
    (ends : semicolon.kind = .semicolon) :
    Reads statement (keyword :: (tokens ++ [semicolon]) ++ rest)
      (.print inner) rest := by
  have same :
      statementWith statement (keyword :: (tokens ++ [semicolon]) ++ rest) =
        printStatement (tokens ++ semicolon :: rest) := by
    simp [statementWith, starts]
  exact (reads_statement_iff same).mpr
    (reads_printStatement_iff.mpr
      ⟨tokens, inner, semicolon, rfl, derives, ends, rfl⟩)

/-- A block is read if the attempts inside it reach its closing brace. -/
theorem reads_block_of_attempts
    {closing : Token}
    {statements : List Stmt}
    (starts : keyword.kind = .leftBrace)
    (closes : closing.kind = .rightBrace)
    (reads :
      ReadsAttempts declaration (·.kind = .rightBrace)
        (tokens ++ closing :: rest).length
        (tokens ++ closing :: rest) statements (closing :: rest)) :
    Reads statement (keyword :: (tokens ++ [closing]) ++ rest)
      (.block statements) rest := by
  have same :
      statementWith statement (keyword :: (tokens ++ [closing]) ++ rest) =
        blockWith statement (tokens ++ closing :: rest) := by
    simp [statementWith, starts]
  exact (reads_statement_iff same).mpr
    (reads_blockWith.mpr ⟨statements, closing, reads, closes, rfl⟩)

mutual

/--
A statement that derives is read, if an else behind it does not belong to an if
inside it.
-/
theorem reads_statement_of_derives :
    ∀ {ending : Ending} {tokens : List Token} {stmt : Stmt},
      Statement .nearest ending tokens stmt →
        ∀ {rest : List Token},
          (ending = .dangling → ¬ StartsIn [.elseKeyword] rest) →
            Reads statement (tokens ++ rest) stmt rest
  | _, _, _, .expression derives, rest, _ =>
      (reads_statement_iff (statementWith_of_expressionStatement derives)).mpr
        (reads_expressionStatement_iff.mpr ⟨_, rfl, derives⟩)
  | _, _, _, .print starts derives ends, rest, _ =>
      reads_print_of_derives starts derives ends
  | _, _, _, @Statement.breakLoop _ keyword semicolon starts ends, rest, _ => by
      have same :
          statementWith statement ([keyword, semicolon] ++ rest) =
            andThen (expect .semicolon .expectedSemicolonAfterBreak)
              (fun _ => accept (.breakLoop keyword)) (semicolon :: rest) := by
        simp [statementWith, starts]
      exact (reads_statement_iff same).mpr
        (reads_signal_iff.mpr ⟨semicolon, rfl, ends, rfl⟩)
  | _, _, _, @Statement.continueLoop _ keyword semicolon starts ends, rest, _ => by
      have same :
          statementWith statement ([keyword, semicolon] ++ rest) =
            andThen (expect .semicolon .expectedSemicolonAfterContinue)
              (fun _ => accept (.continueLoop keyword)) (semicolon :: rest) := by
        simp [statementWith, starts]
      exact (reads_statement_iff same).mpr
        (reads_signal_iff.mpr ⟨semicolon, rfl, ends, rfl⟩)
  | _, _, _, .block starts derive closes, rest, _ => by
      refine reads_block_of_attempts starts closes
        (readsAttempts_of_derive derive ?_ ?_ ?_)
      · exact fun token stopped => of_decide_eq_true stopped
      · rintro token behind ⟨⟩
        exact decide_eq_true closes
      · simp
  | _, _, _, @Statement.ifThen _ keyword opening closing conditionTokens
      thenTokens condition thenPart ending starts opens conditionDerives closes
      thenDerives, rest, noElse => by
      have alone := noElse rfl
      have thenReads : Reads statement (thenTokens ++ rest) thenPart rest :=
        reads_statement_of_derives thenDerives fun _ => alone
      have same :
          statementWith statement
              (keyword :: opening ::
                (conditionTokens ++ closing :: thenTokens) ++ rest) =
            ifWith statement
              (opening ::
                (conditionTokens ++ closing :: (thenTokens ++ rest))) := by
        simp [statementWith, starts]
      exact (reads_statement_iff same).mpr
        (reads_ifWith_then opens conditionDerives closes thenReads alone)
  | _, _, _, @Statement.ifElse _ keyword opening closing otherwise
      conditionTokens thenTokens elseTokens condition thenPart elsePart thenEnding
      ending starts opens conditionDerives closes thenDerives closed alternative
      elseDerives, rest, noElse => by
      have elseReads : Reads statement (elseTokens ++ rest) elsePart rest :=
        reads_statement_of_derives elseDerives noElse
      have thenReads :
          Reads statement (thenTokens ++ otherwise :: (elseTokens ++ rest)) thenPart
            (otherwise :: (elseTokens ++ rest)) :=
        reads_statement_of_derives thenDerives fun dangles => by
          rw [closed] at dangles
          cases dangles
      have same :
          statementWith statement
              (keyword :: opening ::
                (conditionTokens ++ closing ::
                  (thenTokens ++ otherwise :: elseTokens)) ++ rest) =
            ifWith statement
              (opening :: (conditionTokens ++ closing ::
                (thenTokens ++ otherwise :: (elseTokens ++ rest)))) := by
        simp [statementWith, starts]
      exact (reads_statement_iff same).mpr
        (reads_ifWith_else opens conditionDerives closes thenReads
          alternative elseReads)
  | _, _, _, @Statement.whileLoop _ keyword opening closing conditionTokens
      bodyTokens condition body ending starts opens conditionDerives closes
      bodyDerives, rest, noElse => by
      have bodyReads : Reads statement (bodyTokens ++ rest) body rest :=
        reads_statement_of_derives bodyDerives noElse
      have same :
          statementWith statement
              (keyword :: opening ::
                (conditionTokens ++ closing :: bodyTokens) ++ rest) =
            whileWith statement
              (opening ::
                (conditionTokens ++ closing :: (bodyTokens ++ rest))) := by
        simp [statementWith, starts]
      exact (reads_statement_iff same).mpr
        (reads_whileWith opens conditionDerives closes bodyReads)
  | _, _, _, @Statement.forLoop _ keyword opening semicolon closing initialTokens
      conditionTokens incrementTokens bodyTokens initial condition increment body
      ending starts opens initialDerives conditionDerives ends incrementDerives
      closes bodyDerives, rest, noElse => by
      have bodyReads : Reads statement (bodyTokens ++ rest) body rest :=
        reads_statement_of_derives bodyDerives noElse
      have same :
          statementWith statement
              (keyword :: opening ::
                (initialTokens ++ (conditionTokens ++ semicolon ::
                  (incrementTokens ++ closing :: bodyTokens))) ++ rest) =
            forWith statement
              (opening :: (initialTokens ++ (conditionTokens ++ semicolon ::
                (incrementTokens ++ closing :: (bodyTokens ++ rest))))) := by
        simp [statementWith, starts]
      exact (reads_statement_iff same).mpr
        (reads_forWith opens initialDerives conditionDerives ends
          incrementDerives closes bodyReads)

/-- A declaration that derives is read, if no else stands behind it. -/
theorem reads_declaration_of_derives :
    ∀ {tokens : List Token} {stmt : Stmt},
      Declaration .nearest tokens stmt →
        ∀ {rest : List Token},
          ¬ StartsIn [.elseKeyword] rest →
            Reads declaration (tokens ++ rest) stmt rest
  | _, _, .var derives, rest, _ => by
      obtain ⟨keyword, behind, rfl, declares⟩ := derives.exists_keyword
      exact (reads_declarationWith_var declares).mpr
        ((reads_varDeclaration_iff declares).mpr ⟨behind, rfl, derives⟩)
  | tokens, _, .statement derives, rest, noElse => by
      have other : ¬ StartsIn [.varKeyword] (tokens ++ rest) :=
        not_startsIn_append derives.startsIn (by decide)
      exact (reads_declarationWith_other other).mpr
        (reads_statement_of_derives derives fun _ => noElse)

/-- Declarations are read up to a token that stops them, if only braces do. -/
theorem readsAttempts_of_derive :
    ∀ {tokens : List Token} {statements : List Stmt},
      Declarations .nearest tokens statements →
        ∀ {stops : Token → Bool} {count : Nat} {rest : List Token},
          (∀ token, stops token = true → token.kind = .rightBrace) →
            (∀ token behind, rest = token :: behind → stops token = true) →
              tokens.length ≤ count →
                ReadsAttempts declaration stops count
                  (tokens ++ rest) statements rest
  | _, _, .nil, stops, count, rest, _, ends, _ => readsAttempts_nil ends
  | _, _, @Declarations.cons _ first later stmt statements firstDerives laterDerive,
  stops, count, rest, going, ends, enough => by
      have noElse : ¬ StartsIn [.elseKeyword] (later ++ rest) := by
        refine not_startsIn_else_of_declarations laterDerive ?_
        cases rest with
        | nil => exact not_startsIn_nil
        | cons token behind => simp [going token (ends token behind rfl)]
      have firstReads :
          Reads declaration (first ++ (later ++ rest)) stmt (later ++ rest) :=
        reads_declaration_of_derives firstDerives noElse
      have starts := firstDerives.startsIn
      cases first with
      | nil => exact (not_startsIn_nil starts).elim
      | cons token behind =>
          cases count with
          | zero => cases enough
          | succ count =>
              have unstopped : stops token = false := by
                cases stopped : stops token with
                | false => rfl
                | true =>
                    rw [startsIn_cons, going token stopped] at starts
                    exact absurd starts (by decide)
              rw [List.append_assoc]
              refine (readsAttempts_succ unstopped).mpr
                ⟨stmt, later ++ rest, statements, rfl, firstReads, ?_⟩
              refine readsAttempts_of_derive laterDerive going ends ?_
              simp only [List.cons_append, List.length_cons,
                List.length_append] at enough
              omega

end

end Completeness

end Parser

open Grammar (Declarations)

/-- A program is found without an error exactly if the tokens derive as it. -/
theorem readProgram_found_iff
    {tokens : List Token}
    {program : Program} :
    (readProgram tokens).errors = [] ∧ (readProgram tokens).found = program ↔
      Declarations .nearest tokens program := by
  constructor
  · rintro ⟨clean, found⟩
    have ended :
        (Parser.attempts Parser.declaration (fun _ => false)
          tokens.length tokens).2 = [] :=
      Parser.attempts_unstopped Parser.readsForward_declaration
        (Parser.consumes_declarationWith Parser.consumes_statement) (Nat.le_refl _)
    have reads :
        Parser.ReadsAttempts Parser.declaration (fun _ => false)
          tokens.length tokens
          program [] :=
      ⟨clean, found, ended⟩
    obtain ⟨consumed, rfl, derive⟩ :=
      Parser.derives_of_readsAttempts Parser.readsStatements_statement reads
    simpa using derive
  · intro derive
    have reads :
        Parser.ReadsAttempts Parser.declaration (fun _ => false)
          tokens.length (tokens ++ [])
          program [] :=
      Parser.readsAttempts_of_derive derive (fun token stopped => by cases stopped)
        (fun token behind shape => by cases shape) (Nat.le_refl _)
    rw [List.append_nil] at reads
    exact ⟨reads.1, reads.2.1⟩

/-- Tokens derive as at most one program. -/
theorem Grammar.Declarations.unique
    {tokens : List Token}
    {program other : Program}
    (derive : Declarations .nearest tokens program)
    (otherwise : Declarations .nearest tokens other) :
    program = other :=
  (readProgram_found_iff.mpr derive).2.symm.trans
    (readProgram_found_iff.mpr otherwise).2

/-- A program is accepted, with its tree, if its tokens derive it. -/
theorem readProgram_accepted?_iff
    {tokens : List Token}
    {program : Program} :
    (readProgram tokens).accepted? = some program ↔
      Declarations .nearest tokens program := by
  rw [← readProgram_found_iff]
  rcases (readProgram tokens).accepted?_eq with
    ⟨clean, accepted⟩ | ⟨errors, refused⟩
  · rw [accepted]
    constructor
    · intro same
      exact ⟨clean, Option.some.inj same⟩
    · rintro ⟨-, found⟩
      exact congrArg some found
  · rw [refused]
    constructor
    · intro same
      cases same
    · rintro ⟨clean, -⟩
      exact (errors clean).elim

/--
Reading a program accepts exactly the tokens that derive from the grammar, each
as the one tree in which every else belongs to the nearest open if.  All other
tokens are refused with an error.
-/
theorem readProgram_iff_derives
    (tokens : List Token) :
    (∀ program,
        (readProgram tokens).accepted? = some program ∧
          (readProgram tokens).errors = [] ↔
          Declarations .nearest tokens program) ∧
      (∀ program other,
        Declarations .nearest tokens program → Declarations .nearest tokens other →
          program = other) ∧
      ((∃ program, Declarations .unrestricted tokens program) ↔
        ∃ program, Declarations .nearest tokens program) ∧
      ((∃ program, Declarations .nearest tokens program) ∨
        (readProgram tokens).accepted? = none ∧
          (readProgram tokens).errors ≠ []) := by
  refine ⟨?_, fun program other => Declarations.unique,
    Grammar.exists_declarations_unrestricted_iff, ?_⟩
  · intro program
    constructor
    · rintro ⟨accepted, -⟩
      exact readProgram_accepted?_iff.mp accepted
    · intro derive
      exact ⟨readProgram_accepted?_iff.mpr derive,
        (readProgram_found_iff.mpr derive).1⟩
  · rcases (readProgram tokens).accepted?_eq with ⟨clean, _⟩ | ⟨errors, refused⟩
    · exact Or.inl ⟨_, readProgram_found_iff.mp ⟨clean, rfl⟩⟩
    · exact Or.inr ⟨refused, errors⟩

end Lox
