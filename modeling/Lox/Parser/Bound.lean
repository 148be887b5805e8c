import Lox.Parser.Progress

namespace Lox.Parser

/-!
# Bounds of parsers

Nested parts are read within a bound on their depth, and repeated parts within a
bound on their number.  Nested parts start behind a token, so neither bound is
met.  Main statements: an expression is read from its parts without a bound, a
statement is, and all sufficient counts of attempts serve alike, so that a program
is read one declaration after the other.
-/

/-- Two parsers read every list of fewer tokens in the same way. -/
def AgreeBelow
    (length : Nat)
    (left right : Parser α) :
    Prop :=
  ∀ tokens, tokens.length < length → left tokens = right tokens

/-- A parser agrees with itself. -/
theorem agreeBelow_refl
    (length : Nat)
    (parser : Parser α) :
    AgreeBelow length parser parser :=
  fun _ _ => rfl

/-- Sequences of agreeing parts agree. -/
theorem agreeBelow_andThen
    {length : Nat}
    {first second : Parser α}
    {next following : α → Parser β}
    (agree : AgreeBelow length first second)
    (forward : ReadsForward first)
    (nextAgree : ∀ value, AgreeBelow length (next value) (following value)) :
    AgreeBelow length (andThen first next) (andThen second following) := by
  intro tokens short
  have suffix := forward tokens
  simp only [andThen, ← agree tokens short]
  cases outcome : first tokens with
  | accepted value rest notes =>
      rw [outcome] at suffix
      have shorter : rest.length ≤ tokens.length := suffix.length_le
      simp only [nextAgree value rest (by omega)]
  | rejected error notes => rfl

/--
A chain goes on behind an operator of its level and ends before any other token.
-/
theorem chainFrom_succ_cons
    (level : Level)
    (operand : Parser Expr)
    (count : Nat)
    (left : Expr)
    (token : Token)
    (rest : List Token) :
    chainFrom level operand (count + 1) left (token :: rest) =
      if token.kind ∈ level.operators then
        andThen operand
          (fun right =>
            chainFrom level operand count (level.node left token right)) rest
      else
        .accepted left (token :: rest) [] := by
  by_cases fits : token.kind ∈ level.operators
  · rw [chainFrom, bind_eq_andThen,
      andThen_of_accepted (show acceptAny level.operators (token :: rest) = _ by
        simp only [acceptAny, fits, ↓reduceIte]; rfl)]
    simp [fits, bind_eq_andThen]
  · rw [chainFrom, bind_eq_andThen,
      andThen_of_accepted (show acceptAny level.operators (token :: rest) = _ by
        simp only [acceptAny, fits, ↓reduceIte]; rfl)]
    simp [fits, accept]

/-- Any two counts of operands beyond the count of tokens serve alike. -/
theorem agreeBelow_chainFrom
    (level : Level)
    {length : Nat}
    {first second : Parser Expr}
    (agree : AgreeBelow length first second)
    (forward : ReadsForward first)
    (left : Expr)
    (tokens : List Token)
    (short : tokens.length < length)
    {count other : Nat}
    (enough : tokens.length ≤ count)
    (otherEnough : tokens.length ≤ other) :
    chainFrom level first count left tokens =
      chainFrom level second other left tokens := by
  induction count generalizing left tokens other with
  | zero =>
      have empty : tokens = [] := List.length_eq_zero_iff.mp (by omega)
      subst empty
      cases other with
      | zero => rfl
      | succ other => rfl
  | succ count inductionHypothesis =>
      cases tokens with
      | nil =>
          cases other with
          | zero => rfl
          | succ other => rfl
      | cons token rest =>
          cases other with
          | zero => simp at otherEnough
          | succ other =>
              simp only [List.length_cons] at short enough otherEnough
              rw [chainFrom_succ_cons, chainFrom_succ_cons]
              have suffix := forward rest
              have agrees := agree rest (by omega)
              split
              · cases outcome : first rest with
                | rejected error notes =>
                    rw [andThen_of_rejected outcome,
                      andThen_of_rejected (agrees ▸ outcome)]
                | accepted right behind notes =>
                    rw [outcome] at suffix
                    have shorter : behind.length ≤ rest.length := suffix.length_le
                    rw [andThen_of_accepted outcome,
                      andThen_of_accepted (agrees ▸ outcome),
                      inductionHypothesis (level.node left token right) behind
                        (by omega) (by omega) (show behind.length ≤ other by omega)]
              · rfl

/-- Chains of operands that agree below a length agree below it. -/
theorem agreeBelow_chain
    (level : Level)
    {length : Nat}
    {first second : Parser Expr}
    (agree : AgreeBelow length first second)
    (forward : ReadsForward first) :
    AgreeBelow length (chain level first) (chain level second) := by
  intro tokens short
  have suffix := forward tokens
  simp only [chain, andThen, ← agree tokens short]
  cases outcome : first tokens with
  | rejected error notes => rfl
  | accepted left rest notes =>
      rw [outcome] at suffix
      have shorter : rest.length ≤ tokens.length := suffix.length_le
      simp only [agreeBelow_chainFrom level agree forward left rest
        (by omega) shorter shorter]

/-- Signs in front of operands that agree below a length agree below it. -/
theorem agreeBelow_unaryWith
    {length : Nat}
    {first second : Parser Expr}
    (agree : AgreeBelow length first second) :
    AgreeBelow length (unaryWith first) (unaryWith second) := by
  intro tokens short
  induction tokens with
  | nil => simpa [unaryWith] using agree [] short
  | cons token rest inductionHypothesis =>
      simp only [List.length_cons] at short
      simp only [unaryWith, inductionHypothesis (by omega),
        agree (token :: rest) short]

/-- A primary needs its expressions only behind a token. -/
theorem agreeBelow_primaryWith
    {length : Nat}
    {first second : Parser Expr}
    (agree : AgreeBelow length first second)
    (forward : ReadsForward first) :
    AgreeBelow (length + 1) (primaryWith first) (primaryWith second) := by
  intro tokens short
  cases tokens with
  | nil => rfl
  | cons token rest =>
      simp only [List.length_cons] at short
      have grouped : groupWith first rest = groupWith second rest :=
        agreeBelow_andThen agree forward
          (fun _ => agreeBelow_refl length _) rest (by omega)
      simp only [primaryWith, grouped]

/-- Levels of operators agree below one token more than the groupings in them. -/
theorem agreeBelow_operationWith
    {length : Nat}
    {first second : Parser Expr}
    (agree : AgreeBelow length first second)
    (forward : ReadsForward first)
    (levels : List Level) :
    AgreeBelow (length + 1) (operationWith first levels)
      (operationWith second levels) := by
  induction levels with
  | nil => exact agreeBelow_unaryWith (agreeBelow_primaryWith agree forward)
  | cons level rest inductionHypothesis =>
      exact agreeBelow_chain level inductionHypothesis
        (readsForward_operationWith forward rest)

/-- An assignment needs its expressions only behind a token. -/
theorem agreeBelow_assignmentWith
    {length : Nat}
    {first second : Parser Expr}
    (agree : AgreeBelow length first second)
    (forward : ReadsForward first) :
    AgreeBelow (length + 1) (assignmentWith first) (assignmentWith second) := by
  refine agreeBelow_andThen (agreeBelow_operationWith agree forward levels)
    (readsForward_operationWith forward levels) fun target => ?_
  refine agreeBelow_andThen (agreeBelow_refl _ _)
    readsForward_remaining fun place => ?_
  intro tokens short
  cases tokens with
  | nil => rfl
  | cons token rest =>
      simp only [List.length_cons] at short
      by_cases fits : token.kind ∈ [Kind.equal]
      · simp only [bind_eq_andThen, andThen, acceptAny, fits, ↓reduceIte,
          agree rest (by omega)]
      · simp only [bind_eq_andThen, andThen, acceptAny, fits, ↓reduceIte]

/-- Depths beyond the count of tokens serve alike for expressions. -/
theorem agreeBelow_expressionWithin
    (depth further : Nat) :
    AgreeBelow depth (expressionWithin depth)
      (expressionWithin (depth + further)) := by
  induction depth with
  | zero => exact fun tokens short => absurd short (Nat.not_lt_zero _)
  | succ depth inductionHypothesis =>
      rw [Nat.succ_add]
      exact agreeBelow_assignmentWith inductionHypothesis
        (readsForward_expressionWithin depth)

/-- Every depth beyond the count of tokens reads an expression. -/
theorem expressionWithin_eq_expression
    {depth : Nat}
    {tokens : List Token}
    (deep : tokens.length < depth) :
    expressionWithin depth tokens = expression tokens := by
  obtain ⟨further, rfl⟩ := Nat.exists_eq_add_of_le (Nat.succ_le_of_lt deep)
  exact (agreeBelow_expressionWithin _ further tokens (Nat.lt_succ_self _)).symm

/-- An expression is read like its parts. -/
theorem expression_eq :
    expression = assignmentWith expression := by
  funext tokens
  exact agreeBelow_assignmentWith
    (fun shorter short => expressionWithin_eq_expression short)
    (readsForward_expressionWithin tokens.length) tokens (Nat.lt_succ_self _)

/-- If statements agree below a length if the statements in them do. -/
theorem agreeBelow_ifWith
    {length : Nat}
    {first second : Parser Stmt}
    (agree : AgreeBelow length first second)
    (forward : ReadsForward first) :
    AgreeBelow length (ifWith first) (ifWith second) := by
  refine agreeBelow_andThen (agreeBelow_refl _ _)
    (readsForward_expect _ _) fun _ => ?_
  refine agreeBelow_andThen (agreeBelow_refl _ _) readsForward_expression
    fun condition => ?_
  refine agreeBelow_andThen (agreeBelow_refl _ _)
    (readsForward_expect _ _) fun _ => ?_
  refine agreeBelow_andThen agree forward fun thenPart => ?_
  refine agreeBelow_andThen (agreeBelow_refl _ _)
    (readsForward_acceptAny _) fun found => ?_
  cases found with
  | none => exact agreeBelow_refl _ _
  | some keyword =>
      exact agreeBelow_andThen agree forward fun elsePart => agreeBelow_refl _ _

/-- While statements agree below a length if the statements in them do. -/
theorem agreeBelow_whileWith
    {length : Nat}
    {first second : Parser Stmt}
    (agree : AgreeBelow length first second)
    (forward : ReadsForward first) :
    AgreeBelow length (whileWith first) (whileWith second) :=
  agreeBelow_andThen (agreeBelow_refl _ _) (readsForward_expect _ _) fun _ =>
    agreeBelow_andThen (agreeBelow_refl _ _) readsForward_expression fun _ =>
      agreeBelow_andThen (agreeBelow_refl _ _) (readsForward_expect _ _) fun _ =>
        agreeBelow_andThen agree forward fun _ => agreeBelow_refl _ _

/-- For statements agree below a length if the statements in them do. -/
theorem agreeBelow_forWith
    {length : Nat}
    {first second : Parser Stmt}
    (agree : AgreeBelow length first second)
    (forward : ReadsForward first) :
    AgreeBelow length (forWith first) (forWith second) := by
  have clause (kind : Kind) : ReadsForward (clauseBefore kind expression) :=
    readsForward_clauseBefore kind readsForward_expression
  refine agreeBelow_andThen (agreeBelow_refl _ _)
    (readsForward_expect _ _) fun _ => ?_
  refine agreeBelow_andThen (agreeBelow_refl _ _)
    readsForward_forInitial fun initial => ?_
  refine agreeBelow_andThen (agreeBelow_refl _ _) (clause _) fun condition => ?_
  refine agreeBelow_andThen (agreeBelow_refl _ _)
    (readsForward_expect _ _) fun _ => ?_
  refine agreeBelow_andThen (agreeBelow_refl _ _) (clause _) fun increment => ?_
  refine agreeBelow_andThen (agreeBelow_refl _ _)
    (readsForward_expect _ _) fun _ => ?_
  exact agreeBelow_andThen agree forward fun body => agreeBelow_refl _ _

/-- Declarations agree below a length if the statements in them do. -/
theorem agreeBelow_declarationWith
    {length : Nat}
    {first second : Parser Stmt}
    (agree : AgreeBelow length first second) :
    AgreeBelow length (declarationWith first) (declarationWith second) := by
  intro tokens short
  cases tokens with
  | nil => simp only [declarationWith, agree [] short]
  | cons token rest => simp only [declarationWith, agree (token :: rest) short]

/-- Agreeing declarations are attempted alike. -/
theorem attempts_eq_of_agreeBelow
    {length : Nat}
    {first second : Parser Stmt}
    (agree : AgreeBelow length first second)
    (forward : ReadsForward first)
    (stops : Token → Bool)
    (count : Nat)
    (tokens : List Token)
    (short : tokens.length < length) :
    attempts first stops count tokens = attempts second stops count tokens := by
  induction count generalizing tokens with
  | zero => rfl
  | succ count inductionHypothesis =>
      cases tokens with
      | nil => rfl
      | cons token rest =>
          have suffix := (resume_suffix _).trans (forward (token :: rest))
          have shorter := suffix.length_le
          simp only [attempts, ← agree (token :: rest) short,
            inductionHypothesis (resume (first (token :: rest))) (by omega)]

/-- Blocks agree below a length if the statements in them do. -/
theorem agreeBelow_blockWith
    {length : Nat}
    {first second : Parser Stmt}
    (agree : AgreeBelow length first second)
    (forward : ReadsForward first) :
    AgreeBelow length (blockWith first) (blockWith second) := by
  intro tokens short
  simp only [blockWith, attempts_eq_of_agreeBelow (agreeBelow_declarationWith agree)
    (readsForward_declarationWith forward) _ _ tokens short]

/-- A statement needs its parts only behind a token. -/
theorem agreeBelow_statementWith
    {length : Nat}
    {first second : Parser Stmt}
    (agree : AgreeBelow length first second)
    (forward : ReadsForward first) :
    AgreeBelow (length + 1) (statementWith first) (statementWith second) := by
  intro tokens short
  cases tokens with
  | nil => rfl
  | cons token rest =>
      have shorter : rest.length < length := by simpa using short
      simp only [statementWith, agreeBelow_ifWith agree forward rest shorter,
        agreeBelow_whileWith agree forward rest shorter,
        agreeBelow_forWith agree forward rest shorter,
        agreeBelow_blockWith agree forward rest shorter]

/-- Depths beyond the count of tokens serve alike for statements. -/
theorem agreeBelow_statementWithin
    (depth further : Nat) :
    AgreeBelow depth (statementWithin depth)
      (statementWithin (depth + further)) := by
  induction depth with
  | zero => exact fun tokens short => absurd short (Nat.not_lt_zero _)
  | succ depth inductionHypothesis =>
      rw [Nat.succ_add]
      exact agreeBelow_statementWith inductionHypothesis
        (readsForward_statementWithin depth)

/-- Every depth beyond the count of tokens reads a statement. -/
theorem statementWithin_eq_statement
    {depth : Nat}
    {tokens : List Token}
    (deep : tokens.length < depth) :
    statementWithin depth tokens = statement tokens := by
  obtain ⟨further, rfl⟩ := Nat.exists_eq_add_of_le (Nat.succ_le_of_lt deep)
  exact (agreeBelow_statementWithin _ further tokens (Nat.lt_succ_self _)).symm

/-- A statement is read like its parts. -/
theorem statement_eq :
    statement = statementWith statement := by
  funext tokens
  exact agreeBelow_statementWith
    (fun shorter short => statementWithin_eq_statement short)
    (readsForward_statementWithin tokens.length) tokens (Nat.lt_succ_self _)

/-- Any two counts of attempts beyond the count of tokens serve alike. -/
theorem attempts_eq_of_enough
    {declaration : Parser Stmt}
    (forward : ReadsForward declaration)
    (consumes : Consumes declaration)
    (stops : Token → Bool)
    {tokens : List Token}
    {count other : Nat}
    (enough : tokens.length ≤ count)
    (otherEnough : tokens.length ≤ other) :
    attempts declaration stops count tokens =
      attempts declaration stops other tokens := by
  induction count generalizing tokens other with
  | zero =>
      have empty : tokens = [] := List.length_eq_zero_iff.mp (by omega)
      subst empty
      cases other <;> rfl
  | succ count inductionHypothesis =>
      cases tokens with
      | nil => cases other <;> rfl
      | cons token rest =>
          cases other with
          | zero => simp at otherEnough
          | succ other =>
              have shorter := length_resume_lt forward consumes token rest
              simp only [List.length_cons] at shorter enough otherEnough
              simp only [attempts, inductionHypothesis
                (show
                  (resume (declaration (token :: rest))).length ≤ count by omega)
                (show
                  (resume (declaration (token :: rest))).length ≤ other by omega)]

/-- A program is read one declaration after the other. -/
theorem readProgram_cons
    (token : Token)
    (rest : List Token) :
    readProgram (token :: rest) =
      let outcome := declaration (token :: rest)
      let later := readProgram (resume outcome)
      ⟨outcome.value?.toList ++ later.found, outcome.recorded ++ later.notes⟩ := by
  have consumes : Consumes declaration :=
    consumes_declarationWith consumes_statement
  have shorter := length_resume_lt readsForward_declaration consumes token rest
  have later : attempts declaration (fun _ => false) rest.length
      (resume (declaration (token :: rest))) =
        attempts declaration (fun _ => false) _ _ :=
    attempts_eq_of_enough readsForward_declaration consumes _
      (Nat.lt_succ_iff.mp shorter) (Nat.le_refl _)
  have unfolded : declarations (token :: rest) =
      declaration (token :: rest) ::
        declarations (resume (declaration (token :: rest))) := by
    rw [declarations, declarations, ← later]
    simp [attempts]
  cases outcome : declaration (token :: rest) with
  | accepted value between notes =>
      simp [readProgram, unfolded, outcome, Outcome.value?]
  | rejected error notes =>
      simp [readProgram, unfolded, outcome, List.filterMap_cons, Outcome.value?]

end Lox.Parser
