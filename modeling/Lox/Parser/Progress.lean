import Lox.Parser.Program

namespace Lox.Parser

/-!
# Progress of parsers

What a parser leaves is the end of what it was given, also behind an error, and a
parser of statements that accepts has read a token.  Main statement: every attempt
at a declaration, accepted or not, is followed by one on fewer tokens.
-/

/-- What a parser leaves, also behind an error, is the end of what it was given. -/
def ReadsForward
    (parser : Parser α) :
    Prop :=
  ∀ tokens, (parser tokens).remaining <:+ tokens

/-- A parser that accepts has read a token. -/
def Consumes
    (parser : Parser α) :
    Prop :=
  ∀ {tokens value rest notes},
    parser tokens = .accepted value rest notes → rest.length < tokens.length

theorem readsForward_accept
    (value : α) :
    ReadsForward (accept value) :=
  fun tokens => List.suffix_refl tokens

theorem readsForward_reject
    (cause : GrammarCause) :
    ReadsForward (reject cause : Parser α) :=
  fun tokens => List.suffix_refl tokens

theorem readsForward_remaining :
    ReadsForward remaining :=
  fun tokens => List.suffix_refl tokens

theorem readsForward_recordError
    (error : GrammarError) :
    ReadsForward (recordError error) :=
  fun tokens => List.suffix_refl tokens

/-- Sequences of parsers that read forward read forward. -/
theorem readsForward_andThen
    {first : Parser α}
    {next : α → Parser β}
    (forward : ReadsForward first)
    (nextForward : ∀ value, ReadsForward (next value)) :
    ReadsForward (andThen first next) := by
  intro tokens
  have suffix := forward tokens
  unfold andThen
  cases outcome : first tokens with
  | accepted value rest notes =>
      rw [outcome] at suffix
      simpa using (nextForward value rest).trans suffix
  | rejected error notes =>
      rw [outcome] at suffix
      exact suffix

/-- An optional token is taken from the front or left there. -/
theorem readsForward_acceptAny
    (kinds : List Kind) :
    ReadsForward (acceptAny kinds) := by
  intro tokens
  cases tokens with
  | nil => exact List.suffix_refl []
  | cons token rest =>
      by_cases fits : token.kind ∈ kinds
      · simp [acceptAny, fits, Outcome.remaining]
      · simp [acceptAny, fits, Outcome.remaining]

/-- An expected token is taken from the front, and nothing is taken without it. -/
theorem readsForward_expect
    (kind : Kind)
    (cause : GrammarCause) :
    ReadsForward (expect kind cause) := by
  intro tokens
  cases tokens with
  | nil => exact List.suffix_refl []
  | cons token rest =>
      by_cases fits : token.kind = kind
      · simp [expect, fits, Outcome.remaining]
      · simp [expect, fits, Outcome.remaining]

/-- A clause that may be missing is read forward. -/
theorem readsForward_clauseBefore
    (kind : Kind)
    {parser : Parser α}
    (forward : ReadsForward parser) :
    ReadsForward (clauseBefore kind parser) := by
  intro tokens
  unfold clauseBefore
  split
  · exact List.suffix_refl tokens
  · exact readsForward_andThen forward
      (fun value => readsForward_accept (some value)) tokens

/-- The operands of a chain are read one behind the other. -/
theorem readsForward_chainFrom
    (level : Level)
    {operand : Parser Expr}
    (forward : ReadsForward operand)
    (count : Nat)
    (left : Expr) :
    ReadsForward (chainFrom level operand count left) := by
  induction count generalizing left with
  | zero => exact readsForward_accept left
  | succ count inductionHypothesis =>
      refine readsForward_andThen
        (readsForward_acceptAny level.operators) fun found => ?_
      cases found with
      | none => exact readsForward_accept left
      | some operator =>
          exact readsForward_andThen forward fun right => inductionHypothesis _

/-- A chain is read forward if its operands are. -/
theorem readsForward_chain
    (level : Level)
    {operand : Parser Expr}
    (forward : ReadsForward operand) :
    ReadsForward (chain level operand) :=
  fun tokens =>
    readsForward_andThen forward
      (fun left => readsForward_chainFrom level forward tokens.length left) tokens

/-- Signs are taken from the front, and then the operand. -/
theorem readsForward_unaryWith
    {primary : Parser Expr}
    (forward : ReadsForward primary) :
    ReadsForward (unaryWith primary) := by
  intro tokens
  induction tokens with
  | nil => simpa [unaryWith] using forward []
  | cons token rest inductionHypothesis =>
      by_cases front : token.kind ∈ frontOperators
      · simpa [unaryWith, front] using
          inductionHypothesis.trans (List.suffix_cons token rest)
      · simpa [unaryWith, front] using forward (token :: rest)

theorem readsForward_groupWith
    {expression : Parser Expr}
    (forward : ReadsForward expression) :
    ReadsForward (groupWith expression) :=
  readsForward_andThen forward fun inner =>
    readsForward_andThen (readsForward_expect _ _) fun _ =>
      readsForward_accept (Expr.grouping inner)

/-- A primary expression takes one token, or those of a grouping. -/
theorem readsForward_primaryWith
    {expression : Parser Expr}
    (forward : ReadsForward expression) :
    ReadsForward (primaryWith expression) := by
  intro tokens
  cases tokens with
  | nil => exact List.suffix_refl []
  | cons token rest =>
      have behind : rest <:+ token :: rest := List.suffix_cons token rest
      simp only [primaryWith]
      split
      · exact behind
      · exact behind
      · exact behind
      · exact behind
      · exact behind
      · exact behind
      · exact (readsForward_groupWith forward rest).trans behind
      · exact List.suffix_refl _

/-- Expressions of all levels of operators are read forward. -/
theorem readsForward_operationWith
    {expression : Parser Expr}
    (forward : ReadsForward expression)
    (levels : List Level) :
    ReadsForward (operationWith expression levels) := by
  induction levels with
  | nil => exact readsForward_unaryWith (readsForward_primaryWith forward)
  | cons level rest inductionHypothesis =>
      exact readsForward_chain level inductionHypothesis

/-- Behind the target of an assignment, the value is read forward. -/
theorem readsForward_assignmentBehind
    {expression : Parser Expr}
    (forward : ReadsForward expression)
    (target : Expr) :
    ReadsForward (assignmentBehind expression target) := by
  refine readsForward_andThen readsForward_remaining fun place => ?_
  refine readsForward_andThen (readsForward_acceptAny _) fun found => ?_
  cases found with
  | none => exact readsForward_accept target
  | some equals =>
      refine readsForward_andThen forward fun value => ?_
      cases target with
      | reference name => exact readsForward_accept _
      | _ =>
          exact readsForward_andThen (readsForward_recordError _) fun _ =>
            readsForward_accept _

theorem readsForward_assignmentWith
    {expression : Parser Expr}
    (forward : ReadsForward expression) :
    ReadsForward (assignmentWith expression) :=
  readsForward_andThen (readsForward_operationWith forward levels)
    (readsForward_assignmentBehind forward)

/-- Expressions up to any depth of nesting are read forward. -/
theorem readsForward_expressionWithin
    (depth : Nat) :
    ReadsForward (expressionWithin depth) := by
  induction depth with
  | zero => exact readsForward_reject _
  | succ depth inductionHypothesis =>
      exact readsForward_assignmentWith inductionHypothesis

/-- Reading an expression leaves an end of the tokens. -/
theorem readsForward_expression :
    ReadsForward expression :=
  fun tokens => readsForward_expressionWithin (tokens.length + 1) tokens

/-- What an accepting parser leaves is no longer than what it was given. -/
theorem length_le_of_accepted
    {parser : Parser α}
    (forward : ReadsForward parser)
    {tokens rest : List Token}
    {value : α}
    {notes : List Note}
    (accepted : parser tokens = .accepted value rest notes) :
    rest.length ≤ tokens.length := by
  have suffix := forward tokens
  rw [accepted] at suffix
  exact suffix.length_le

/-- A sequence whose first part reads a token reads a token. -/
theorem consumes_andThen_first
    {first : Parser α}
    {next : α → Parser β}
    (consumes : Consumes first)
    (nextForward : ∀ value, ReadsForward (next value)) :
    Consumes (andThen first next) := by
  intro tokens value rest notes accepted
  obtain ⟨earlier, between, _, _, firstAccepted, nextAccepted, _⟩ :=
    accepted_of_andThen accepted
  exact Nat.lt_of_le_of_lt
    (length_le_of_accepted (nextForward earlier) nextAccepted)
    (consumes firstAccepted)

/-- A sign or the operand behind the signs is a token at least. -/
theorem consumes_unaryWith
    {primary : Parser Expr}
    (consumes : Consumes primary) :
    Consumes (unaryWith primary) := by
  intro tokens
  induction tokens with
  | nil =>
      intro value rest notes accepted
      simp only [unaryWith] at accepted
      exact consumes accepted
  | cons token behind inductionHypothesis =>
      intro value rest notes accepted
      by_cases front : token.kind ∈ frontOperators
      · simp only [unaryWith, front, ↓reduceIte] at accepted
        cases inner : unaryWith primary behind with
        | rejected error notes =>
            rw [inner] at accepted
            cases accepted
        | accepted operand left innerNotes =>
            rw [inner] at accepted
            cases accepted
            exact Nat.lt_succ_of_lt (inductionHypothesis inner)
      · simp only [unaryWith, front, ↓reduceIte] at accepted
        exact consumes accepted

/-- Reading on behind a token consumes that token. -/
theorem consumes_of_behind
    {parser : Parser α}
    (forward : ReadsForward parser)
    {token : Token}
    {behind rest : List Token}
    {value : α}
    {notes : List Note}
    (accepted : parser behind = .accepted value rest notes) :
    rest.length < (token :: behind).length :=
  Nat.lt_succ_of_le (length_le_of_accepted forward accepted)

/-- A primary expression that is accepted has taken a token. -/
theorem consumes_primaryWith
    {expression : Parser Expr}
    (forward : ReadsForward expression) :
    Consumes (primaryWith expression) := by
  intro tokens value rest notes accepted
  cases tokens with
  | nil => cases accepted
  | cons token behind =>
      simp only [primaryWith] at accepted
      split at accepted
      case h_7 => exact consumes_of_behind (readsForward_groupWith forward) accepted
      case h_8 => cases accepted
      all_goals
        cases accepted
        exact Nat.lt_succ_self _

/-- Expressions of all levels of operators take a token at least. -/
theorem consumes_operationWith
    {expression : Parser Expr}
    (forward : ReadsForward expression)
    (levels : List Level) :
    Consumes (operationWith expression levels) := by
  induction levels with
  | nil => exact consumes_unaryWith (consumes_primaryWith forward)
  | cons level rest inductionHypothesis =>
      intro tokens
      exact consumes_andThen_first inductionHypothesis
        fun left => readsForward_chainFrom level
          (readsForward_operationWith forward rest) _ left

theorem consumes_assignmentWith
    {expression : Parser Expr}
    (forward : ReadsForward expression) :
    Consumes (assignmentWith expression) :=
  consumes_andThen_first (consumes_operationWith forward levels)
    (readsForward_assignmentBehind forward)

/-- An expression that is accepted has taken a token. -/
theorem consumes_expression :
    Consumes expression := by
  intro tokens
  exact consumes_assignmentWith (readsForward_expressionWithin tokens.length)

/-- Skipping ends at a later place of the same tokens. -/
theorem skipFrom_suffix
    (last : Token)
    (tokens : List Token) :
    skipFrom last tokens <:+ tokens := by
  induction tokens generalizing last with
  | nil => exact List.suffix_refl []
  | cons token rest inductionHypothesis =>
      simp only [skipFrom]
      split
      · exact List.suffix_refl _
      · exact (inductionHypothesis token).trans (List.suffix_cons token rest)

/-- Recovery passes over the token at fault. -/
theorem synchronize_cons_suffix
    (blamed : Token)
    (rest : List Token) :
    synchronize (blamed :: rest) <:+ rest :=
  skipFrom_suffix blamed rest

/-- Recovery ends at a later place of the same tokens. -/
theorem synchronize_suffix
    (tokens : List Token) :
    synchronize tokens <:+ tokens := by
  cases tokens with
  | nil => exact List.suffix_refl []
  | cons blamed rest =>
      exact (synchronize_cons_suffix blamed rest).trans
        (List.suffix_cons blamed rest)

/-- Reading goes on at the place where an outcome was reached, or behind it. -/
theorem resume_suffix
    (outcome : Outcome α) :
    resume outcome <:+ outcome.remaining := by
  cases outcome with
  | accepted value rest notes => exact List.suffix_refl rest
  | rejected error notes => exact synchronize_suffix error.remaining

theorem readsForward_initialValue :
    ReadsForward initialValue := by
  refine readsForward_andThen (readsForward_acceptAny _) fun found => ?_
  cases found with
  | none => exact readsForward_accept _
  | some equals =>
      exact readsForward_andThen readsForward_expression fun value =>
        readsForward_accept _

theorem readsForward_varDeclaration :
    ReadsForward varDeclaration :=
  readsForward_andThen (readsForward_expect _ _) fun _ =>
    readsForward_andThen readsForward_initialValue fun _ =>
      readsForward_andThen (readsForward_expect _ _) fun _ => readsForward_accept _

theorem readsForward_expressionStatement :
    ReadsForward expressionStatement :=
  readsForward_andThen readsForward_expression fun _ =>
    readsForward_andThen (readsForward_expect _ _) fun _ => readsForward_accept _

theorem readsForward_printStatement :
    ReadsForward printStatement :=
  readsForward_andThen readsForward_expression fun _ =>
    readsForward_andThen (readsForward_expect _ _) fun _ => readsForward_accept _

/-- An if statement is read forward if its branches are. -/
theorem readsForward_ifWith
    {statement : Parser Stmt}
    (forward : ReadsForward statement) :
    ReadsForward (ifWith statement) := by
  refine readsForward_andThen (readsForward_expect _ _) fun _ => ?_
  refine readsForward_andThen readsForward_expression fun condition => ?_
  refine readsForward_andThen (readsForward_expect _ _) fun _ => ?_
  refine readsForward_andThen forward fun thenPart => ?_
  refine readsForward_andThen (readsForward_acceptAny _) fun found => ?_
  cases found with
  | none => exact readsForward_accept _
  | some keyword =>
      exact readsForward_andThen forward fun elsePart => readsForward_accept _

/-- A while statement is read forward if its body is. -/
theorem readsForward_whileWith
    {statement : Parser Stmt}
    (forward : ReadsForward statement) :
    ReadsForward (whileWith statement) :=
  readsForward_andThen (readsForward_expect _ _) fun _ =>
    readsForward_andThen readsForward_expression fun _ =>
      readsForward_andThen (readsForward_expect _ _) fun _ =>
        readsForward_andThen forward fun _ => readsForward_accept _

/-- The first clause of a loop is read forward in each of its forms. -/
theorem readsForward_forInitial :
    ReadsForward forInitial := by
  refine readsForward_andThen (readsForward_acceptAny _) fun found => ?_
  cases found with
  | none =>
      exact readsForward_andThen readsForward_expressionStatement fun _ =>
        readsForward_accept _
  | some first =>
      by_cases missing : first.kind = .semicolon
      · simpa [missing] using readsForward_accept (none : Option Stmt)
      · simpa [missing, bind_eq_andThen] using
          readsForward_andThen readsForward_varDeclaration fun initial =>
            readsForward_accept (some initial)

/-- A for statement is read forward if its body is. -/
theorem readsForward_forWith
    {statement : Parser Stmt}
    (forward : ReadsForward statement) :
    ReadsForward (forWith statement) :=
  readsForward_andThen (readsForward_expect _ _) fun _ =>
    readsForward_andThen readsForward_forInitial fun _ =>
      readsForward_andThen
        (readsForward_clauseBefore _ readsForward_expression) fun _ =>
        readsForward_andThen (readsForward_expect _ _) fun _ =>
          readsForward_andThen
            (readsForward_clauseBefore _ readsForward_expression) fun _ =>
            readsForward_andThen (readsForward_expect _ _) fun _ =>
              readsForward_andThen forward fun _ => readsForward_accept _

@[simp] theorem remaining_noteParsed
    (tokens : List Token)
    (outcome : Outcome Stmt) :
    (noteParsed tokens outcome).remaining = outcome.remaining := by
  cases outcome <;> rfl

/-- A declaration is read forward if the statements inside it are. -/
theorem readsForward_declarationWith
    {statement : Parser Stmt}
    (forward : ReadsForward statement) :
    ReadsForward (declarationWith statement) := by
  intro tokens
  cases tokens with
  | nil => simpa [declarationWith] using forward []
  | cons token rest =>
      by_cases isVar : token.kind = .varKeyword
      · simpa [declarationWith, isVar] using
          (readsForward_varDeclaration rest).trans (List.suffix_cons token rest)
      · simpa [declarationWith, isVar] using forward (token :: rest)

/-- What is left behind some declarations is the end of what was given. -/
theorem attempts_suffix
    {declaration : Parser Stmt}
    (forward : ReadsForward declaration)
    (stops : Token → Bool)
    (count : Nat)
    (tokens : List Token) :
    (attempts declaration stops count tokens).2 <:+ tokens := by
  induction count generalizing tokens with
  | zero => exact List.suffix_refl tokens
  | succ count inductionHypothesis =>
      cases tokens with
      | nil => exact List.suffix_refl []
      | cons token rest =>
          simp only [attempts]
          split
          · exact List.suffix_refl _
          · exact (inductionHypothesis _).trans
              ((resume_suffix _).trans (forward (token :: rest)))

/--
A block leaves what is behind its closing brace, or where its statements stop.
-/
theorem readsForward_blockWith
    {statement : Parser Stmt}
    (forward : ReadsForward statement) :
    ReadsForward (blockWith statement) := by
  intro tokens
  simp only [blockWith, Outcome.remaining_after]
  exact (readsForward_andThen (readsForward_expect _ _)
      (fun _ => readsForward_accept _) _).trans
    (attempts_suffix (readsForward_declarationWith forward) _ _ tokens)

/-- A statement is read forward if those inside it are. -/
theorem readsForward_statementWith
    {statement : Parser Stmt}
    (forward : ReadsForward statement) :
    ReadsForward (statementWith statement) := by
  intro tokens
  cases tokens with
  | nil => exact readsForward_expressionStatement []
  | cons token rest =>
      have behind : rest <:+ token :: rest := List.suffix_cons token rest
      have signal (cause : GrammarCause) (read : Stmt) :
          (andThen (expect .semicolon cause) (fun _ => accept read)
            rest).remaining <:+
            token :: rest :=
        (readsForward_andThen (readsForward_expect _ _)
          (fun _ => readsForward_accept read) rest).trans behind
      simp only [statementWith]
      split
      · exact (readsForward_ifWith forward rest).trans behind
      · exact (readsForward_whileWith forward rest).trans behind
      · exact (readsForward_forWith forward rest).trans behind
      · exact (readsForward_printStatement rest).trans behind
      · exact signal _ _
      · exact signal _ _
      · exact (readsForward_blockWith forward rest).trans behind
      · exact readsForward_expressionStatement (token :: rest)

/-- Statements up to any depth of nesting are read forward. -/
theorem readsForward_statementWithin
    (depth : Nat) :
    ReadsForward (statementWithin depth) := by
  induction depth with
  | zero => exact readsForward_reject _
  | succ depth inductionHypothesis =>
      exact readsForward_statementWith inductionHypothesis

/-- Reading a statement leaves an end of the tokens. -/
theorem readsForward_statement :
    ReadsForward statement :=
  fun tokens => readsForward_statementWithin (tokens.length + 1) tokens

theorem readsForward_declaration :
    ReadsForward declaration :=
  readsForward_declarationWith readsForward_statement

theorem consumes_expressionStatement :
    Consumes expressionStatement :=
  consumes_andThen_first consumes_expression fun _ =>
    readsForward_andThen (readsForward_expect _ _) fun _ => readsForward_accept _

/-- A statement starts with a keyword, a brace or an expression, and takes it. -/
theorem consumes_statementWith
    {statement : Parser Stmt}
    (forward : ReadsForward statement) :
    Consumes (statementWith statement) := by
  intro tokens value rest notes accepted
  cases tokens with
  | nil =>
      simp only [statementWith] at accepted
      exact consumes_expressionStatement accepted
  | cons token behind =>
      have signal (cause : GrammarCause) (read : Stmt) :
          ReadsForward (andThen (expect .semicolon cause) fun _ => accept read) :=
        readsForward_andThen (readsForward_expect _ _) fun _ =>
          readsForward_accept read
      simp only [statementWith] at accepted
      split at accepted
      · exact consumes_of_behind (readsForward_ifWith forward) accepted
      · exact consumes_of_behind (readsForward_whileWith forward) accepted
      · exact consumes_of_behind (readsForward_forWith forward) accepted
      · exact consumes_of_behind readsForward_printStatement accepted
      · exact consumes_of_behind (signal _ _) accepted
      · exact consumes_of_behind (signal _ _) accepted
      · exact consumes_of_behind (readsForward_blockWith forward) accepted
      · exact consumes_expressionStatement accepted

/-- A statement that is accepted has taken a token. -/
theorem consumes_statement :
    Consumes statement := by
  intro tokens
  exact consumes_statementWith (readsForward_statementWithin tokens.length)

/-- Adding a note changes nothing else. -/
theorem accepted_of_noteParsed
    {tokens rest : List Token}
    {outcome : Outcome Stmt}
    {value : Stmt}
    {notes : List Note}
    (accepted : noteParsed tokens outcome = .accepted value rest notes) :
    ∃ earlier, outcome = .accepted value rest earlier := by
  cases outcome with
  | rejected error notes => cases accepted
  | accepted found behind earlier =>
      cases accepted
      exact ⟨earlier, rfl⟩

/-- A declaration that is accepted has taken a token. -/
theorem consumes_declarationWith
    {statement : Parser Stmt}
    (consumes : Consumes statement) :
    Consumes (declarationWith statement) := by
  intro tokens value rest notes accepted
  cases tokens with
  | nil =>
      obtain ⟨earlier, outcome⟩ := accepted_of_noteParsed accepted
      exact consumes outcome
  | cons token behind =>
      obtain ⟨earlier, outcome⟩ := accepted_of_noteParsed accepted
      by_cases isVar : token.kind = .varKeyword
      · simp only [isVar, ↓reduceIte] at outcome
        exact consumes_of_behind readsForward_varDeclaration outcome
      · simp only [isVar, ↓reduceIte] at outcome
        exact consumes outcome

/--
Reading goes on behind at least one token,
whether a declaration was accepted or not.
-/
theorem length_resume_lt
    {declaration : Parser Stmt}
    (forward : ReadsForward declaration)
    (consumes : Consumes declaration)
    (token : Token)
    (rest : List Token) :
    (resume (declaration (token :: rest))).length < (token :: rest).length := by
  have suffix := forward (token :: rest)
  cases outcome : declaration (token :: rest) with
  | accepted value behind notes => exact consumes outcome
  | rejected error notes =>
      rw [outcome] at suffix
      obtain ⟨cause, remaining⟩ := error
      cases remaining with
      | nil => simp [resume, synchronize]
      | cons blamed behind =>
          have passed := (synchronize_cons_suffix blamed behind).length_le
          have bounded : (blamed :: behind).length ≤ (token :: rest).length :=
            suffix.length_le
          simp only [resume, List.length_cons] at *
          omega

end Lox.Parser
