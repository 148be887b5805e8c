import Lox.Proofs.Grammar.Pursuit
import Lox.Proofs.Grammar.StatementReading

namespace Lox.Grammar.Relaxed

/-!
# Where programs break off

Statements, declarations and programs are read as the symbols say, too.  A
declaration that is given up has recorded an error, and what is read behind it
comes after the first error.  Main statement: the first error that is not about
the target of an assignment blames the token with which the tokens before it
cease to be the start of a program of the relaxed grammar; where there is no such
error, the tokens are a program of that grammar, and the errors blame its
misplaced equals signs.
-/

open Lox.Parser (ReadsForward StartsIn Consumes)

section Statements

variable {length : Nat} {statement : Parser Stmt}

/-- A part is read in front of what else is expected of the whole. -/
theorem FollowsBelow.inFront
    {before : List Symbol}
    {first : Parser α}
    {next : α → Parser β}
    {between : α → List Symbol}
    {after : β → List Symbol}
    (firstFollows : FollowsBelow length first before between)
    (forward : ReadsForward first)
    (further : List Symbol)
    (nextFollows : ∀ value,
      FollowsBelow length (next value) (between value ++ further) after) :
    FollowsBelow length (Parser.andThen first next) (before ++ further) after :=
  (firstFollows.frame further).andThen forward nextFollows

/-- Nothing is expected behind the last part. -/
theorem followsBelow_done
    (value : α) :
    FollowsBelow length (Parser.accept value) [] fun _ => [] :=
  followsBelow_accept value fun _ => []

/-- The semicolon at the end of a statement is taken, or the expectation breaks. -/
theorem followsBelow_semicolon
    {cause : GrammarCause}
    (value : α)
    (others : cause ≠ .invalidAssignmentTarget) :
    FollowsBelow length
      (Parser.andThen (Parser.expect .semicolon cause) fun _ => Parser.accept value)
      [.close .semicolon] fun _ => [] :=
  (followsBelow_expect_closing .semicolon others).andThen
    (Parser.readsForward_expect _ _) fun _ => followsBelow_done value

/-- The initial value of a variable follows the expectation of one. -/
theorem followsBelow_initialValue :
    FollowsBelow length Parser.initialValue [.value] fun _ =>
      [.close .semicolon] := by
  have equals : FollowsBelow length (Parser.acceptAny [.equal]) [.value]
      fun found => found.elim [.close .semicolon] fun _ =>
        [.operand true .semicolon] := by
    refine followsBelow_acceptAny (fun token rest isEqual => ?_)
      fun tokens notEqual => ?_
    · have isEqual := List.mem_singleton.mp isEqual
      exact leads_of_plain_turn (by simp [Symbol.turn, isEqual]) rfl
    · refine leads_of_same _ (fun token first => ⟨?_, rfl⟩) rfl rfl
      cases tokens with
      | nil => cases first
      | cons head rest =>
          cases first
          simp only [Parser.startsIn_cons, List.mem_singleton] at notEqual
          simp only [Symbol.turn, if_neg notEqual]
          rfl
  refine equals.andThen (Parser.readsForward_acceptAny _) fun found => ?_
  cases found with
  | none => exact followsBelow_accept _ fun _ => [.close .semicolon]
  | some equals =>
      exact (followsExpression_expression length .semicolon).andThen
        Parser.readsForward_expression
        fun value => followsBelow_accept _ fun _ => [.close .semicolon]

/-- A variable follows the expectation of a name and a value. -/
theorem followsBelow_varDeclaration :
    FollowsBelow length Parser.varDeclaration [.name, .value] fun _ => [] := by
  have name :
      FollowsBelow length (Parser.expect .identifier .expectedVariableName) [.name]
      fun _ => [] :=
    followsBelow_expect (fun _ => rfl) rfl rfl (by decide)
  refine name.inFront (Parser.readsForward_expect _ _) [.value] fun named => ?_
  exact followsBelow_initialValue.andThen Parser.readsForward_initialValue
    fun initial => followsBelow_semicolon _ (by decide)

theorem followsBelow_expressionStatement :
    FollowsBelow length Parser.expressionStatement
      [.operand true .semicolon] fun _ => [] :=
  (followsExpression_expression length .semicolon).andThen
    Parser.readsForward_expression fun inner => followsBelow_semicolon _ (by decide)

theorem followsBelow_printStatement :
    FollowsBelow length Parser.printStatement
      [.operand true .semicolon] fun _ => [] :=
  (followsExpression_expression length .semicolon).andThen
    Parser.readsForward_expression fun inner => followsBelow_semicolon _ (by decide)

/-- A condition in parentheses is read in front of what else is expected. -/
theorem followsBelow_condition
    {opened closed : GrammarCause}
    {next : Expr → Parser Stmt}
    {further : List Symbol}
    (openedOthers : opened ≠ .invalidAssignmentTarget)
    (closedOthers : closed ≠ .invalidAssignmentTarget)
    (follows :
      ∀ condition, FollowsBelow length (next condition) further fun _ => []) :
    FollowsBelow length
      (Parser.andThen (Parser.expect .leftParen opened) fun _ =>
        Parser.andThen Parser.expression fun condition =>
          Parser.andThen (Parser.expect .rightParen closed) fun _ => next condition)
      (.opening :: .operand true .rightParen :: further) fun _ => [] := by
  refine (followsBelow_expect_opening openedOthers).inFront
    (Parser.readsForward_expect _ _)
    (.operand true .rightParen :: further) fun _ => ?_
  refine (followsExpression_expression length .rightParen).inFront
    Parser.readsForward_expression further fun condition => ?_
  exact (followsBelow_expect_closing .rightParen closedOthers).inFront
    (Parser.readsForward_expect _ _) further fun _ => follows condition

/-- An if statement follows the expectation of its parts, and of an else. -/
theorem followsBelow_ifWith
    (follows : FollowsBelow length statement [.statement] fun _ => [])
    (forward : ReadsForward statement) :
    FollowsBelow length (Parser.ifWith statement)
      [.opening, .operand true .rightParen, .statement,
        .otherwise] fun _ => [] := by
  refine followsBelow_condition (by decide) (by decide) fun condition => ?_
  refine follows.inFront forward [.otherwise] fun thenPart => ?_
  have alternative :
      FollowsBelow length (Parser.acceptAny [.elseKeyword]) [.otherwise]
      fun found => found.elim [] fun _ => [.statement] := by
    refine followsBelow_acceptAny (fun token rest isElse => ?_)
      fun tokens ends => ?_
    · have isElse := List.mem_singleton.mp isElse
      exact leads_of_plain_turn (by simp [Symbol.turn, isElse]) rfl
    · exact leads_otherwise ends
  refine alternative.andThen (Parser.readsForward_acceptAny _) fun found => ?_
  cases found with
  | none => exact followsBelow_done _
  | some keyword =>
      exact follows.andThen forward fun elsePart => followsBelow_done _

/-- A while statement follows the expectation of its parts. -/
theorem followsBelow_whileWith
    (follows : FollowsBelow length statement [.statement] fun _ => [])
    (forward : ReadsForward statement) :
    FollowsBelow length (Parser.whileWith statement)
      [.opening, .operand true .rightParen, .statement] fun _ => [] :=
  followsBelow_condition (by decide) (by decide)
    fun condition => follows.andThen forward fun body => followsBelow_done _

/-- The first clause of a loop follows the expectation of one. -/
theorem followsBelow_forInitial :
    FollowsBelow length Parser.forInitial [.initial] fun _ => [] := by
  have first :
      FollowsBelow length (Parser.acceptAny [.semicolon, .varKeyword]) [.initial]
      fun found => found.elim [.operand true .semicolon]
        fun first => if first.kind = .semicolon then [] else [.name, .value] := by
    refine followsBelow_acceptAny (fun token rest isFirst => ?_)
      fun tokens others => ?_
    · refine leads_of_plain_turn ?_ rfl
      by_cases isSemicolon : token.kind = .semicolon
      · simp [Symbol.turn, isSemicolon]
      · have isVar : token.kind = .varKeyword := by
          simpa [isSemicolon] using isFirst
        simp [Symbol.turn, isVar]
    · refine leads_of_same _ (fun token first => ⟨?_, rfl⟩) rfl rfl
      cases tokens with
      | nil => cases first
      | cons head rest =>
          cases first
          simp only [Parser.startsIn_cons, List.mem_cons, List.not_mem_nil,
            or_false, not_or] at others
          simp [Symbol.turn, others]
  refine first.andThen (Parser.readsForward_acceptAny _) fun found => ?_
  cases found with
  | none =>
      exact followsBelow_expressionStatement.andThen
        Parser.readsForward_expressionStatement fun initial => followsBelow_done _
  | some first =>
      simp only [Option.elim_some]
      split
      · exact followsBelow_done _
      · exact followsBelow_varDeclaration.andThen Parser.readsForward_varDeclaration
          fun initial => followsBelow_done _

/-- A clause that may be missing is read up to the token that closes it. -/
theorem followsBelow_clauseBefore
    (closing : Closing) :
    FollowsBelow length (Parser.clauseBefore closing.kind Parser.expression)
      [.clause closing] fun _ => [.close closing] := by
  intro tokens short
  rw [Parser.clauseBefore]
  split
  · rename_i starts
    refine .accepted (leads_of_same _ (fun token first => ⟨?_, rfl⟩) rfl rfl)
    have isClosing : token.kind = closing.kind := by
      simpa [Parser.startsWith, Option.mem_def.mp first] using starts
    simp [Symbol.turn, isClosing]
  · rename_i others
    refine .of_leads
      (leads_of_same (.operand true closing)
        (fun token first => ⟨?_, rfl⟩) rfl rfl) ?_
    · have notClosing : token.kind ≠ closing.kind := by
        simpa [Parser.startsWith, Option.mem_def.mp first] using others
      simp [Symbol.turn, notClosing]
    · refine (followsExpression_expression length closing tokens short).andThen
        fun {value rest notes} _ => ?_
      exact .accepted (.refl _ rest)

/-- A for statement follows the expectation of its clauses and its body. -/
theorem followsBelow_forWith
    (follows : FollowsBelow length statement [.statement] fun _ => [])
    (forward : ReadsForward statement) :
    FollowsBelow length (Parser.forWith statement)
      [.opening, .initial, .clause .semicolon, .clause .rightParen, .statement]
      fun _ => [] := by
  refine (followsBelow_expect_opening (by decide)).inFront
    (Parser.readsForward_expect _ _)
    [.initial, .clause .semicolon, .clause .rightParen, .statement] fun _ => ?_
  refine followsBelow_forInitial.inFront Parser.readsForward_forInitial
    [.clause .semicolon, .clause .rightParen, .statement] fun initial => ?_
  refine (followsBelow_clauseBefore .semicolon).inFront
    (Parser.readsForward_clauseBefore _ Parser.readsForward_expression)
    [.clause .rightParen, .statement] fun condition => ?_
  refine (followsBelow_expect_closing .semicolon (by decide)).inFront
    (Parser.readsForward_expect _ _) [.clause .rightParen, .statement] fun _ => ?_
  refine (followsBelow_clauseBefore .rightParen).inFront
    (Parser.readsForward_clauseBefore _ Parser.readsForward_expression) [.statement]
    fun increment => ?_
  refine (followsBelow_expect_closing .rightParen (by decide)).inFront
    (Parser.readsForward_expect _ _) [.statement] fun _ => ?_
  exact follows.andThen forward fun body => followsBelow_done _

end Statements

section Declarations

variable {length : Nat} {statement : Parser Stmt}

/-- The note that a declaration was read tells of no error. -/
theorem Follows.noteParsed
    {before : List Symbol}
    {tokens others : List Token}
    {outcome : Outcome Stmt}
    (follows : Follows before (fun _ => []) tokens outcome) :
    Follows before (fun _ => []) tokens (Parser.noteParsed others outcome) := by
  cases follows with
  | passed clean leads =>
      refine .passed ?_ ?_
      · rw [firstMisfit_append, clean]
        rfl
      · rw [targets_append]
        change Leads _ _ (_ ++ []) _ _
        rwa [List.append_nil]
  | broken misfit breaks =>
      refine .broken ?_ breaks
      cases outcome with
      | rejected error notes => exact misfit
      | accepted value rest notes =>
          rw [Parser.noteParsed, Outcome.recorded, firstMisfit_append,
            show firstMisfit notes = some _ from misfit]
          rfl

/-- A declaration follows the expectation of one if the statements inside it do. -/
theorem followsBelow_declarationWith
    (follows : FollowsBelow length statement [.statement] fun _ => []) :
    FollowsBelow length (Parser.declarationWith statement)
      [.declaration] fun _ => [] := by
  have plain : ∀ {tokens : List Token}, tokens.length < length →
      ¬ StartsIn [.varKeyword] tokens →
        Follows [.declaration] (fun _ => []) tokens (statement tokens) := by
    intro tokens short others
    refine .of_leads
      (leads_of_same .statement (fun token first => ⟨?_, rfl⟩) rfl rfl)
      (follows tokens short)
    cases tokens with
    | nil => cases first
    | cons head rest =>
        cases first
        simp only [Parser.startsIn_cons, List.mem_singleton] at others
        simp [Symbol.turn, Symbol.declarationTurn, others]
  intro tokens short
  cases tokens with
  | nil => exact (plain short Parser.not_startsIn_nil).noteParsed
  | cons token rest =>
      rw [Parser.declarationWith]
      refine .noteParsed ?_
      split
      · rename_i isVar
        have turns :
            (Symbol.declaration).turn token.kind = some [.name, .value] := by
          simp [Symbol.turn, Symbol.declarationTurn, isVar]
        refine .of_leads (leads_of_plain_turn turns rfl) ?_
        exact followsBelow_varDeclaration rest (Nat.lt_succ_self _)
      · rename_i others
        exact plain short (by simpa using others)

/--
What attempts at declarations tell about the
tokens, where some symbols are expected.
-/
structure AttemptsFollow
    (expected : List Symbol)
    (stops : Token → Bool)
    (tokens : List Token)
    (tried : List (Outcome Stmt) × List Token) :
    Prop where
  broken :
    ∀ place ∈ firstMisfit (tried.1.flatMap Outcome.recorded),
      blamed expected tokens = some place
  passed :
    firstMisfit (tried.1.flatMap Outcome.recorded) = none →
      blamed expected tokens = blamed expected tried.2 ∧
        (misplaced expected tokens).Perm
          (targets (tried.1.flatMap Outcome.recorded) ++
            misplaced expected tried.2) ∧
            ∀ token ∈ tried.2.head?, stops token

/--
Where declarations may come, all up to the
first that is given up follow the symbols.
-/
theorem attemptsFollow
    {declaration : Parser Stmt}
    {expected : List Symbol}
    {stops : Token → Bool}
    (follows : FollowsBelow length declaration [.declaration] fun _ => [])
    (consumes : Consumes declaration)
    (forward : ReadsForward declaration)
    (repeated : ∀ token, stops token = false →
      advance token.kind expected = advance token.kind (.declaration :: expected))
    {count : Nat}
    {tokens : List Token}
    (short : tokens.length < length)
    (enough : tokens.length ≤ count) :
    AttemptsFollow expected stops tokens
      (Parser.attempts declaration stops count tokens) := by
  induction count generalizing tokens with
  | zero =>
      obtain rfl : tokens = [] := List.length_eq_zero_iff.mp (by omega)
      exact ⟨fun _ none => (Option.not_mem_none _ none).elim,
        fun _ => ⟨rfl, .refl _, fun _ none => (Option.not_mem_none _ none).elim⟩⟩
  | succ count inductionHypothesis =>
      cases tokens with
      | nil =>
          exact ⟨fun _ none => (Option.not_mem_none _ none).elim,
            fun _ =>
              ⟨rfl, .refl _, fun _ none => (Option.not_mem_none _ none).elim⟩⟩
      | cons token rest =>
          cases stopped : stops token with
          | true =>
              simp only [Parser.attempts, stopped, ↓reduceIte]
              refine ⟨fun _ none => (Option.not_mem_none _ none).elim,
                fun _ => ⟨rfl, .refl _, fun head isHead => ?_⟩⟩
              rwa [← Option.some.inj isHead]
          | false =>
              have shorter := Parser.length_resume_lt forward consumes token rest
              have later :=
                @inductionHypothesis (Parser.resume (declaration (token :: rest)))
                (by simp only [List.length_cons] at *; omega)
                (by simp only [List.length_cons] at *; omega)
              have same := repeated token stopped
              have sameBlame : blamed expected (token :: rest) =
                  blamed (.declaration :: expected) (token :: rest) := by
                simp only [blamed, same]
              have samePlaces : misplaced expected (token :: rest) =
                  misplaced (.declaration :: expected) (token :: rest) := by
                simp only [misplaced, same]
              have first := follows (token :: rest) short
              simp only [Parser.attempts, stopped, Bool.false_eq_true, ↓reduceIte]
              generalize declaration (token :: rest) = outcome at first later ⊢
              cases first with
              | @broken outcome misplace misfit breaks =>
                  have isMisfit : firstMisfit (List.flatMap Outcome.recorded
                      (outcome :: (Parser.attempts declaration stops count
                        (Parser.resume outcome)).1)) = some misplace := by
                    rw [List.flatMap_cons, firstMisfit_append, misfit]
                    rfl
                  refine ⟨fun place isPlace => ?_, fun none => ?_⟩
                  · rw [← Option.some.inj (isMisfit.symm.trans isPlace), sameBlame]
                    exact breaks expected
                  · cases isMisfit.symm.trans none
              | @passed value behind notes clean leads =>
                  have recorded :
                      (Outcome.accepted value behind notes).recorded = notes :=
                    rfl
                  rw [Parser.resume] at later ⊢
                  refine ⟨fun place isPlace => ?_, fun none => ?_⟩
                  · rw [List.flatMap_cons, recorded,
                      firstMisfit_append, clean] at isPlace
                    rw [sameBlame]
                    exact (leads.blamed expected).trans (later.broken place isPlace)
                  · rw [List.flatMap_cons, recorded,
                      firstMisfit_append, clean] at none
                    obtain ⟨blames, places, ends⟩ := later.passed none
                    refine ⟨?_, ?_, ends⟩
                    · rw [sameBlame]
                      exact (leads.blamed expected).trans blames
                    · rw [samePlaces, List.flatMap_cons, recorded, targets_append,
                        List.append_assoc]
                      exact (leads.misplaced expected).trans (places.append_left _)

/-- Where a block goes on with a declaration, that is what comes first. -/
theorem advance_block
    {token : Token}
    {below : List Symbol}
    (others : token.kind ≠ .rightBrace) :
    advance token.kind (.block :: below) =
      advance token.kind (.declaration :: .block :: below) := by
  cases turns : Symbol.declarationTurn token.kind with
  | none =>
      rw [advance_of_required .declaration turns rfl,
        advance_of_required .block (by simp [Symbol.turn, others, turns]) rfl]
  | some inside =>
      rw [advance_of_turn .declaration turns, repeats_block turns]
      rfl

/-- A block follows the expectation of one, through all its attempts. -/
theorem followsBelow_blockWith
    (follows : FollowsBelow length statement [.statement] fun _ => [])
    (consumes : Consumes statement)
    (forward : ReadsForward statement) :
    FollowsBelow length (Parser.blockWith statement) [.block] fun _ => [] := by
  intro tokens short
  have attempted :
      ∀ below, AttemptsFollow (.block :: below) (·.kind = .rightBrace) tokens
      (Parser.attempts (Parser.declarationWith statement)
        (·.kind = .rightBrace) tokens.length
        tokens) :=
    fun below => attemptsFollow (followsBelow_declarationWith follows)
      (Parser.consumes_declarationWith consumes)
        (Parser.readsForward_declarationWith forward)
      (fun token others => advance_block (by simpa using others))
        short (Nat.le_refl _)
  simp only [Parser.blockWith]
  generalize Parser.attempts (Parser.declarationWith statement)
    (·.kind = .rightBrace) tokens.length tokens = tried at attempted ⊢
  cases misfit : firstMisfit (tried.1.flatMap Outcome.recorded) with
  | some place =>
      exact .behindMisfit misfit fun below => (attempted below).broken place misfit
  | none =>
      have leads :
          Leads [.block] tokens
            (targets (tried.1.flatMap Outcome.recorded)) [.block]
          tried.2 :=
        ⟨fun below => ((attempted below).passed misfit).1,
          fun below => ((attempted below).passed misfit).2.1⟩
      refine .behindNotes misfit leads ?_
      have ends := ((attempted []).passed misfit).2.2
      generalize tried.2 = left at ends ⊢
      cases left with
      | nil => exact .rejected (by decide) (breaks_nil rfl)
      | cons token rest =>
          have isBrace : token.kind = .rightBrace := by simpa using ends token rfl
          rw [Parser.andThen_of_accepted
            (show Parser.expect .rightBrace .expectedBraceAfterBlock
              (token :: rest) = _ by
              simp only [Parser.expect, isBrace, ↓reduceIte]; rfl),
                Outcome.after_nil]
          exact .accepted (leads_of_plain_turn (by simp [Symbol.turn, isBrace]) rfl)

/-- A statement is read as its symbol says if the statements inside it are. -/
theorem followsBelow_statementWith
    (follows : FollowsBelow length statement [.statement] fun _ => [])
    (consumes : Consumes statement)
    (forward : ReadsForward statement) :
    FollowsBelow (length + 1) (Parser.statementWith statement)
      [.statement] fun _ => [] := by
  have expression : ∀ {tokens : List Token},
      (∀ token ∈ tokens.head?, (Symbol.statement).turn token.kind =
        Symbol.operandTurn true .semicolon token.kind) →
        Follows [.statement] (fun _ => []) tokens
          (Parser.expressionStatement tokens) := by
    intro tokens same
    refine .of_leads (leads_of_same (.operand true .semicolon)
      (fun token first => ⟨same token first, rfl⟩) rfl rfl) ?_
    exact followsBelow_expressionStatement tokens (Nat.lt_succ_self _)
  intro tokens short
  cases tokens with
  | nil => exact expression fun _ none => (Option.not_mem_none _ none).elim
  | cons token rest =>
      have shorter : rest.length < length := by
        simp only [List.length_cons] at short
        omega
      have behind : ∀ {inside : List Symbol} {parser : Parser Stmt},
          (Symbol.statement).turn token.kind = some inside →
            FollowsBelow length parser inside (fun _ => []) →
              Follows [.statement] (fun _ => []) (token :: rest) (parser rest) :=
        fun turns inner =>
          .of_leads (leads_of_plain_turn turns rfl) (inner rest shorter)
      simp only [Parser.statementWith]
      split
      case h_1 isIf =>
        exact behind (by rw [isIf]; rfl) (followsBelow_ifWith follows forward)
      case h_2 isWhile =>
        exact behind (by rw [isWhile]; rfl) (followsBelow_whileWith follows forward)
      case h_3 isFor =>
        exact behind (by rw [isFor]; rfl) (followsBelow_forWith follows forward)
      case h_4 isPrint =>
        exact behind (by rw [isPrint]; rfl) followsBelow_printStatement
      case h_5 isBreak =>
        exact behind (by rw [isBreak]; rfl) (followsBelow_semicolon _ (by decide))
      case h_6 isContinue =>
        exact behind (by rw [isContinue]; rfl)
          (followsBelow_semicolon _ (by decide))
      case h_7 isBrace =>
        exact behind (by rw [isBrace]; rfl)
          (followsBelow_blockWith follows consumes forward)
      case h_8 notIf notWhile notFor notPrint notBreak notContinue notBrace =>
        refine expression fun head isHead => ?_
        obtain rfl := Option.some.inj isHead
        simp only [Symbol.turn, Symbol.statementTurn]

/-- The parser of statements follows the symbol of statements. -/
theorem followsBelow_statement
    (length : Nat) :
    FollowsBelow length Parser.statement [.statement] fun _ => [] := by
  induction length with
  | zero => exact fun tokens short => (Nat.not_lt_zero _ short).elim
  | succ length inductionHypothesis =>
      rw [Parser.statement_eq]
      exact followsBelow_statementWith inductionHypothesis Parser.consumes_statement
        Parser.readsForward_statement

end Declarations

section Program

variable {tokens : List Token} {notes : List Note}

/--
The first misfit is the place of the first error
of another kind than those of targets.
-/
theorem firstMisfit_eq
    (notes : List Note) :
    firstMisfit notes =
      ((notes.filterMap Note.error?).find? (·.cause ≠ .invalidAssignmentTarget)).map
        GrammarError.remaining := by
  induction notes with
  | nil => rfl
  | cons note notes inductionHypothesis =>
      cases note with
      | parsed nodeClass line => exact inductionHypothesis
      | failed error =>
          by_cases isTarget : error.cause = .invalidAssignmentTarget
          · simpa [firstMisfit, misfit?, Note.error?, isTarget]
              using inductionHypothesis
          · simp [firstMisfit, misfit?, Note.error?, isTarget]

/-- The misplaced signs of notes are those of the errors with that cause. -/
theorem targets_eq
    (notes : List Note) :
    targets notes =
      ((notes.filterMap Note.error?).filter
        (·.cause = .invalidAssignmentTarget)).map GrammarError.remaining := by
  induction notes with
  | nil => rfl
  | cons note notes inductionHypothesis =>
      cases note with
      | parsed nodeClass line => exact inductionHypothesis
      | failed error =>
          by_cases isTarget : error.cause = .invalidAssignmentTarget
          · simpa [targets, target?, Note.error?, isTarget]
              using inductionHypothesis
          · simpa [targets, target?, Note.error?, isTarget]
              using inductionHypothesis

/-- At the start of a program a declaration comes first. -/
theorem advance_nil
    (kind : Kind) :
    advance kind [] = advance kind [.declaration] := by
  cases turns : Symbol.declarationTurn kind with
  | none =>
      rw [advance_of_required .declaration turns rfl]
      simp [advance, turns]
  | some inside =>
      rw [advance_of_turn .declaration turns]
      simp [advance, turns, Symbol.misplaces]

/-- Attempts at the declarations of a program go on to the end of the tokens. -/
theorem attemptsFollow_declarations
    (tokens : List Token) :
    AttemptsFollow [] (fun _ => false) tokens
      (Parser.attempts Parser.declaration (fun _ => false) tokens.length tokens) :=
  attemptsFollow (followsBelow_declarationWith (followsBelow_statement _))
    (Parser.consumes_declarationWith Parser.consumes_statement)
      Parser.readsForward_declaration
    (fun token _ => advance_nil token.kind) (Nat.lt_succ_self _) (Nat.le_refl _)

/-- The first misfit among the notes of a program is the place that is blamed. -/
theorem blamed_of_readProgram
    {place : List Token}
    (misfit : firstMisfit (readProgram tokens).notes = some place) :
    blamed [] tokens = some place :=
  (attemptsFollow_declarations tokens).broken place misfit

/--
Without a misfit no token is blamed, and the targets noted are the misplaced signs.
-/
theorem unblamed_of_readProgram
    (fits : firstMisfit (readProgram tokens).notes = none) :
    blamed [] tokens = none ∧
      (misplaced [] tokens).Perm (targets (readProgram tokens).notes) := by
  obtain ⟨blames, places, -⟩ := (attemptsFollow_declarations tokens).passed fits
  rw [Parser.attempts_unstopped Parser.readsForward_declaration
    (Parser.consumes_declarationWith Parser.consumes_statement) (Nat.le_refl _)]
        at blames places
  rw [misplaced, List.append_nil] at places
  exact ⟨blames, places⟩

/--
Programs are the programs of the relaxed
grammar in which no equals sign is misplaced.
-/
theorem exists_declarations_iff_unmarked :
    (∃ program, Grammar.Declarations .nearest tokens program) ↔
      ∃ marked, Declarations marked ∧ marked.map Marked.token = tokens ∧
        misplacedIn marked = [] := by
  simp only [← readProgram_found_iff, exists_and_left, exists_eq', and_true]
  have misfit := firstMisfit_eq (readProgram tokens).notes
  have noted := targets_eq (readProgram tokens).notes
  rw [show (readProgram tokens).notes.filterMap Note.error? =
    (readProgram tokens).errors from rfl] at misfit noted
  constructor
  · intro clean
    rw [clean] at misfit noted
    obtain ⟨unblamed, places⟩ := unblamed_of_readProgram misfit
    obtain ⟨marked, declarations, rfl⟩ := isProgram_iff.mpr unblamed
    rw [(declarations_iff_accepts.mp declarations).unblamed.2, noted] at places
    exact ⟨marked, declarations, rfl, places.eq_nil⟩
  · rintro ⟨marked, declarations, rfl, unmarked⟩
    obtain ⟨unblamed, places⟩ := (declarations_iff_accepts.mp declarations).unblamed
    have fits :
        firstMisfit (readProgram (marked.map Marked.token)).notes = none := by
      cases isMisfit :
        firstMisfit (readProgram (marked.map Marked.token)).notes with
      | none => rfl
      | some place => cases (blamed_of_readProgram isMisfit).symm.trans unblamed
    have targetsNoted := (unblamed_of_readProgram fits).2
    rw [places, unmarked, noted] at targetsNoted
    rw [fits] at misfit
    have noTarget :=
      List.filter_eq_nil_iff.mp (List.map_eq_nil_iff.mp targetsNoted.symm.eq_nil)
    refine List.eq_nil_iff_forall_not_mem.mpr fun error member =>
      noTarget error member ?_
    simpa using List.find?_eq_none.mp
      (Option.map_eq_none_iff.mp misfit.symm) error member

/--
The first error that is not about the target of an assignment blames the
token with which the tokens before it cease to be the start of a program
of the relaxed grammar. Where there is no such error the tokens are a
program of the relaxed grammar, and the errors blame the equals signs of
the assignments to what is no name alone.
-/
theorem errors_tell_where_programs_break_off
    (tokens : List Token) :
    match (readProgram tokens).errors.find?
      (·.cause ≠ .invalidAssignmentTarget) with
    | some error =>
        ∃ before, tokens = before ++ error.remaining ∧
          BreaksOff before error.remaining
    | none =>
        IsProgram tokens ∧
          ∀ marked, Declarations marked → marked.map Marked.token = tokens →
            ((readProgram tokens).errors.map GrammarError.remaining).Perm
              (misplacedIn marked) := by
  have misfit := firstMisfit_eq (readProgram tokens).notes
  cases first :
    (readProgram tokens).errors.find? (·.cause ≠ .invalidAssignmentTarget) with
  | some error =>
      rw [show (readProgram tokens).notes.filterMap Note.error? =
        (readProgram tokens).errors from rfl, first] at misfit
      exact breaksOff_of_blamed (blamed_of_readProgram misfit)
  | none =>
      have onlyTargets : (readProgram tokens).errors.filter
          (·.cause = .invalidAssignmentTarget) = (readProgram tokens).errors := by
        rw [List.filter_eq_self]
        exact fun error member => by
          simpa using List.find?_eq_none.mp first error member
      rw [show (readProgram tokens).notes.filterMap Note.error? =
        (readProgram tokens).errors from rfl, first] at misfit
      obtain ⟨unblamed, places⟩ := unblamed_of_readProgram misfit
      refine ⟨isProgram_iff.mpr unblamed, ?_⟩
      rintro marked declarations rfl
      rw [targets_eq, show List.filterMap Note.error? _ = (readProgram _).errors
        from rfl, onlyTargets,
        (declarations_iff_accepts.mp declarations).unblamed.2] at places
      exact places.symm

end Program

end Lox.Grammar.Relaxed
