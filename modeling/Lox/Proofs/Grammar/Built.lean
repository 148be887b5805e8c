import Lox.Proofs.Grammar.StatementReading
import Lox.Proofs.Tree.Formed

namespace Lox

/-!
# What parsers build

A parser stays within the tokens that it is given: the place that it comes to, the
tokens that it blames and those that it notes are all among them.  Main statement:
so does the parser of programs, and every tree that it builds is well-formed, also
where declarations further up or further down are rejected.
-/

/-- A note about tokens among others. -/
def Note.Within
    (tokens : List Token) :
    Note → Prop
  | .failed error => error.remaining <:+ tokens
  | .parsed _ line => ∃ token ∈ tokens, token.line = line

/-- An outcome within some tokens; something holds of its value if it has one. -/
def Outcome.Builds
    (tokens : List Token)
    (holds : α → Prop) :
    Outcome α → Prop
  | .accepted value rest notes =>
      holds value ∧ rest <:+ tokens ∧ ∀ note ∈ notes, note.Within tokens
  | .rejected error notes =>
      error.remaining <:+ tokens ∧ ∀ note ∈ notes, note.Within tokens

namespace Outcome

variable {tokens : List Token} {holds other : α → Prop} {outcome : Outcome α}

/-- What is built satisfies whatever its property implies. -/
theorem Builds.imp
    (builds : outcome.Builds tokens holds)
    (implies : ∀ value, holds value → other value) :
    outcome.Builds tokens other := by
  cases outcome with
  | accepted value rest notes => exact ⟨implies value builds.1, builds.2⟩
  | rejected error notes => exact builds

/--
Building something of a value is building the value with a property of the result.
-/
theorem Builds.map
    {holds : β → Prop}
    {change : α → β}
    (builds : outcome.Builds tokens fun value => holds (change value)) :
    (outcome.map change).Builds tokens holds := by
  cases outcome with
  | accepted value rest notes => exact builds
  | rejected error notes => exact builds

/-- Notes put in front of an outcome have to lie within the tokens, too. -/
theorem Builds.after
    {earlier : List Note}
    (builds : outcome.Builds tokens holds)
    (within : ∀ note ∈ earlier, note.Within tokens) :
    (outcome.after earlier).Builds tokens holds := by
  cases outcome with
  | accepted value rest notes =>
      obtain ⟨held, suffix, noted⟩ := builds
      exact ⟨held, suffix, List.forall_mem_append.mpr ⟨within, noted⟩⟩
  | rejected error notes =>
      obtain ⟨suffix, noted⟩ := builds
      exact ⟨suffix, List.forall_mem_append.mpr ⟨within, noted⟩⟩

/-- What is left behind an outcome is an end of the tokens. -/
theorem Builds.remaining
    (builds : outcome.Builds tokens holds) :
    outcome.remaining <:+ tokens := by
  cases outcome with
  | accepted value rest notes => exact builds.2.1
  | rejected error notes => exact builds.1

theorem Builds.recorded
    (builds : outcome.Builds tokens holds) :
    ∀ note ∈ outcome.recorded, note.Within tokens := by
  cases outcome with
  | accepted value rest notes => exact builds.2.2
  | rejected error notes =>
      obtain ⟨suffix, noted⟩ := builds
      exact List.forall_mem_append.mpr ⟨noted, by simpa [Note.Within] using suffix⟩

theorem Builds.value?
    (builds : outcome.Builds tokens holds)
    {value : α}
    (found : outcome.value? = some value) :
    holds value := by
  cases outcome with
  | accepted found rest notes =>
      cases found
      exact builds.1
  | rejected error notes => cases found

end Outcome

namespace Parser

/-- A parser that stays within some tokens wherever it starts among them. -/
def Builds
    (tokens : List Token)
    (parser : Parser α)
    (holds : α → Prop) :
    Prop :=
  ∀ ⦃place : List Token⦄, place <:+ tokens → (parser place).Builds tokens holds

variable {tokens : List Token}

section Parts

variable {holds : α → Prop}

/-- A value that is given back at once has the property at hand. -/
theorem builds_accept
    {value : α}
    (held : holds value) :
    Builds tokens (accept value) holds :=
  fun _ suffix => ⟨held, suffix, by simp⟩

theorem builds_reject
    (cause : GrammarCause) :
    Builds tokens (reject cause : Parser α) holds :=
  fun _ suffix => ⟨suffix, by simp⟩

theorem builds_remaining :
    Builds tokens remaining (· <:+ tokens) :=
  fun _ suffix => ⟨suffix, suffix, by simp⟩

theorem builds_recordError
    {error : GrammarError}
    (within : error.remaining <:+ tokens) :
    Builds tokens (recordError error) fun _ => True :=
  fun _ suffix => ⟨trivial, suffix, by simpa [Note.Within] using within⟩

/-- What is read behind a part is read from a place among the same tokens. -/
theorem Builds.andThen
    {between : β → Prop}
    {first : Parser β}
    {next : β → Parser α}
    (builds : Builds tokens first between)
    (nextBuilds : ∀ value, between value → Builds tokens (next value) holds) :
    Builds tokens (Parser.andThen first next) holds := by
  intro place suffix
  have outcome := builds suffix
  unfold Parser.andThen
  cases read : first place with
  | accepted value rest notes =>
      rw [read] at outcome
      obtain ⟨held, behind, noted⟩ := outcome
      exact (nextBuilds value held behind).after noted
  | rejected error notes =>
      rw [read] at outcome
      exact outcome

/-- The first token of an end of a list is in the list. -/
theorem mem_of_cons_suffix
    {token : Token}
    {rest : List Token}
    (suffix : token :: rest <:+ tokens) :
    token ∈ tokens :=
  suffix.subset List.mem_cons_self

theorem suffix_of_cons_suffix
    {token : Token}
    {rest : List Token}
    (suffix : token :: rest <:+ tokens) :
    rest <:+ tokens :=
  (List.suffix_cons token rest).trans suffix

/-- A token that is taken is one of the tokens, of a kind that was asked for. -/
theorem builds_acceptAny
    (kinds : List Kind) :
    Builds tokens (acceptAny kinds) fun found =>
      ∀ token ∈ found, token.Among tokens kinds := by
  intro place suffix
  cases place with
  | nil => exact ⟨by simp, suffix, by simp⟩
  | cons token rest =>
      by_cases fits : token.kind ∈ kinds
      · simp only [acceptAny, fits, ↓reduceIte]
        refine ⟨?_, suffix_of_cons_suffix suffix, by simp⟩
        simpa using ⟨mem_of_cons_suffix suffix, fits⟩
      · simp only [acceptAny, fits, ↓reduceIte]
        exact ⟨by simp, suffix, by simp⟩

/-- An expected token is one of the tokens, of the kind that was expected. -/
theorem builds_expect
    (kind : Kind)
    (cause : GrammarCause) :
    Builds tokens (expect kind cause) fun token => token.Among tokens [kind] := by
  intro place suffix
  cases place with
  | nil => exact ⟨suffix, by simp⟩
  | cons token rest =>
      by_cases fits : token.kind = kind
      · simp only [expect, fits, ↓reduceIte]
        refine ⟨⟨mem_of_cons_suffix suffix, ?_⟩,
          suffix_of_cons_suffix suffix, by simp⟩
        simpa using fits
      · simp only [expect, fits, ↓reduceIte]
        exact ⟨suffix, by simp⟩

/-- An optional clause is built as the clause is, if it is there. -/
theorem builds_clauseBefore
    (kind : Kind)
    {parser : Parser α}
    (builds : Builds tokens parser holds) :
    Builds tokens (clauseBefore kind parser) fun found =>
      ∀ value ∈ found, holds value := by
  intro place suffix
  unfold clauseBefore
  split
  · exact ⟨by simp, suffix, by simp⟩
  · refine builds.andThen (fun value held => builds_accept ?_) suffix
    simpa using held

end Parts

section Expressions

variable {expression operand primary : Parser Expr}

/--
An operator of the level between two well-formed operands makes a well-formed node.
-/
def Level.Forms
    (tokens : List Token)
    (level : Level) :
    Prop :=
  ∀ ⦃left operator right⦄,
    Expr.Formed tokens left →
      Token.Among tokens level.operators operator →
        Expr.Formed tokens right →
          (level.node left operator right).Formed tokens

/--
The operators of every level are among those that expressions are formed with.
-/
theorem forms_levels :
    ∀ level ∈ levels, level.Forms tokens := by
  have logical : ∀ kinds, kinds ⊆ [.orKeyword, .andKeyword] →
      Level.Forms tokens ⟨kinds, .logical⟩ := by
    intro kinds below left operator right leftFormed fits rightFormed
    exact leftFormed.logical ⟨fits.member, below fits.kind⟩ rightFormed
  have binary : ∀ kinds, kinds ⊆ Kind.binaryOperators →
      Level.Forms tokens ⟨kinds, .binary⟩ := by
    intro kinds below left operator right leftFormed fits rightFormed
    exact leftFormed.binary ⟨fits.member, below fits.kind⟩ rightFormed
  intro level member
  simp only [levels, List.mem_cons, List.not_mem_nil, or_false] at member
  rcases member with rfl | rfl | rfl | rfl | rfl | rfl
  · exact logical _ (by decide)
  · exact logical _ (by decide)
  · exact binary _ (by decide)
  · exact binary _ (by decide)
  · exact binary _ (by decide)
  · exact binary _ (by decide)

/-- A chain builds on what stands to its left. -/
theorem builds_chainFrom
    {level : Level}
    (forms : level.Forms tokens)
    (builds : Builds tokens operand (Expr.Formed tokens))
    (count : Nat)
    {left : Expr}
    (leftFormed : left.Formed tokens) :
    Builds tokens (chainFrom level operand count left) (Expr.Formed tokens) := by
  induction count generalizing left with
  | zero => exact builds_accept leftFormed
  | succ count inductionHypothesis =>
      refine (builds_acceptAny level.operators).andThen fun found among => ?_
      cases found with
      | none => exact builds_accept leftFormed
      | some operator =>
          refine builds.andThen fun right rightFormed => ?_
          exact inductionHypothesis
            (forms leftFormed (among operator rfl) rightFormed)

/-- A chain of formed operands is formed. -/
theorem builds_chain
    {level : Level}
    (forms : level.Forms tokens)
    (builds : Builds tokens operand (Expr.Formed tokens)) :
    Builds tokens (chain level operand) (Expr.Formed tokens) := by
  intro place suffix
  refine builds.andThen (fun left leftFormed => ?_) suffix
  exact builds_chainFrom forms builds place.length leftFormed

/-- Signs in front of a formed operand give a formed expression. -/
theorem builds_unaryWith
    (builds : Builds tokens primary (Expr.Formed tokens)) :
    Builds tokens (unaryWith primary) (Expr.Formed tokens) := by
  intro place suffix
  induction place with
  | nil => exact builds suffix
  | cons token rest inductionHypothesis =>
      unfold unaryWith
      split
      · rename_i front
        have operandBuilds := inductionHypothesis (suffix_of_cons_suffix suffix)
        apply Outcome.Builds.map
        exact operandBuilds.imp fun operand formed =>
          formed.unary ⟨mem_of_cons_suffix suffix, front⟩
      · exact builds suffix

theorem builds_groupWith
    (builds : Builds tokens expression (Expr.Formed tokens)) :
    Builds tokens (groupWith expression) (Expr.Formed tokens) :=
  builds.andThen fun _ formed =>
    (builds_expect _ _).andThen fun _ _ => builds_accept formed.grouping

/-- A primary expression is formed of one token, or of a formed grouping. -/
theorem builds_primaryWith
    (builds : Builds tokens expression (Expr.Formed tokens)) :
    Builds tokens (primaryWith expression) (Expr.Formed tokens) := by
  intro place suffix
  cases place with
  | nil => exact ⟨suffix, by simp⟩
  | cons token rest =>
      have behind := suffix_of_cons_suffix suffix
      have member := mem_of_cons_suffix suffix
      have leaf : ∀ {expr : Expr},
          expr.children = [] →
            (Node.expr expr).Marked tokens →
              (Outcome.accepted expr rest []).Builds tokens
                (Expr.Formed tokens) := by
        intro expr noChildren marked
        exact ⟨Expr.formed_of_children marked
          (by simp [noChildren]), behind, by simp⟩
      simp only [primaryWith]
      split
      case h_1 => exact leaf rfl (.inl (by simp))
      case h_2 => exact leaf rfl (.inl (by simp))
      case h_3 => exact leaf rfl (.inl (by simp))
      case h_4 kind => exact leaf rfl (.inr ⟨token, ⟨member, by simp [kind]⟩, rfl⟩)
      case h_5 kind => exact leaf rfl (.inr ⟨token, ⟨member, by simp [kind]⟩, rfl⟩)
      case h_6 kind => exact leaf rfl ⟨member, by simp [kind]⟩
      case h_7 => exact builds_groupWith builds behind
      case h_8 => exact ⟨suffix, by simp⟩

/-- Expressions of all levels of operators are formed. -/
theorem builds_operationWith
    (builds : Builds tokens expression (Expr.Formed tokens))
    {levels : List Level}
    (forms : ∀ level ∈ levels, level.Forms tokens) :
    Builds tokens (operationWith expression levels) (Expr.Formed tokens) := by
  induction levels with
  | nil => exact builds_unaryWith (builds_primaryWith builds)
  | cons level rest inductionHypothesis =>
      exact builds_chain (forms level List.mem_cons_self)
        (inductionHypothesis fun tighter member =>
          forms tighter (List.mem_cons_of_mem _ member))

/--
An assignment behind a formed target is formed, and so is the target without one.
-/
theorem builds_assignmentBehind
    (builds : Builds tokens expression (Expr.Formed tokens))
    {target : Expr}
    (targetFormed : target.Formed tokens) :
    Builds tokens (assignmentBehind expression target) (Expr.Formed tokens) := by
  refine builds_remaining.andThen fun place within => ?_
  refine (builds_acceptAny _).andThen fun found among => ?_
  cases found with
  | none => exact builds_accept targetFormed
  | some equals =>
      refine builds.andThen fun value valueFormed => ?_
      cases target with
      | reference name =>
          exact builds_accept (valueFormed.assign targetFormed.here.marked)
      | _ =>
          exact (builds_recordError within).andThen fun _ _ =>
            builds_accept targetFormed

/-- Expressions up to any depth of nesting are formed of the tokens. -/
theorem builds_expressionWithin
    (depth : Nat) :
    Builds tokens (expressionWithin depth) (Expr.Formed tokens) := by
  induction depth with
  | zero => exact builds_reject _
  | succ depth inductionHypothesis =>
      exact (builds_operationWith inductionHypothesis forms_levels).andThen
        fun target formed =>
        builds_assignmentBehind inductionHypothesis formed

/-- Reading an expression builds one that is formed of the tokens. -/
theorem builds_expression :
    Builds tokens Parser.expression (Expr.Formed tokens) :=
  fun place suffix => builds_expressionWithin (place.length + 1) suffix

end Expressions

section Statements

variable {statement declaration : Parser Stmt}

/-- The initial value of a variable is formed, if there is one. -/
theorem builds_initialValue :
    Builds tokens initialValue fun found =>
      ∀ value ∈ found, value.Formed tokens := by
  refine (builds_acceptAny _).andThen fun found _ => ?_
  cases found with
  | none => exact builds_accept (by simp)
  | some equals =>
      exact builds_expression.andThen fun value formed =>
        builds_accept (by simpa using formed)

theorem builds_varDeclaration :
    Builds tokens varDeclaration (Stmt.Formed tokens) :=
  (builds_expect _ _).andThen fun _ fits =>
    builds_initialValue.andThen fun _ formed =>
      (builds_expect _ _).andThen fun _ _ =>
        builds_accept (Stmt.formed_var fits formed)

theorem builds_expressionStatement :
    Builds tokens expressionStatement (Stmt.Formed tokens) :=
  builds_expression.andThen fun _ formed =>
    (builds_expect _ _).andThen fun _ _ =>
      builds_accept (Stmt.formed_expression formed)

theorem builds_printStatement :
    Builds tokens printStatement (Stmt.Formed tokens) :=
  builds_expression.andThen fun _ formed =>
    (builds_expect _ _).andThen fun _ _ => builds_accept (Stmt.formed_print formed)

/-- An if statement is formed of its condition and its branches. -/
theorem builds_ifWith
    (builds : Builds tokens statement (Stmt.Formed tokens)) :
    Builds tokens (ifWith statement) (Stmt.Formed tokens) := by
  refine (builds_expect _ _).andThen fun _ _ => ?_
  refine builds_expression.andThen fun condition conditionFormed => ?_
  refine (builds_expect _ _).andThen fun _ _ => ?_
  refine builds.andThen fun thenPart thenFormed => ?_
  refine (builds_acceptAny _).andThen fun found _ => ?_
  cases found with
  | none => exact builds_accept (Stmt.formed_ifThen conditionFormed thenFormed)
  | some keyword =>
      exact builds.andThen fun elsePart elseFormed =>
        builds_accept (Stmt.formed_ifElse conditionFormed thenFormed elseFormed)

/-- A while statement is formed of its condition and its body. -/
theorem builds_whileWith
    (builds : Builds tokens statement (Stmt.Formed tokens)) :
    Builds tokens (whileWith statement) (Stmt.Formed tokens) := by
  refine (builds_expect _ _).andThen fun _ _ => ?_
  refine builds_expression.andThen fun condition conditionFormed => ?_
  refine (builds_expect _ _).andThen fun _ _ => ?_
  exact builds.andThen fun body formed =>
    builds_accept (Stmt.formed_whileLoop conditionFormed formed.nodes)

/-- The first clause of a loop is formed, if there is one. -/
theorem builds_forInitial :
    Builds tokens forInitial fun found => ∀ stmt ∈ found, stmt.Formed tokens := by
  refine (builds_acceptAny _).andThen fun found _ => ?_
  cases found with
  | none =>
      exact builds_expressionStatement.andThen fun initial formed =>
        builds_accept (by simpa using formed)
  | some first =>
      dsimp only
      split
      · exact builds_accept (by simp)
      · exact builds_varDeclaration.andThen fun initial formed =>
          builds_accept (by simpa using formed)

/--
The loop that stands for a for loop is well-formed if its clauses and its body are.
-/
theorem formed_forLoop
    {initial : Option Stmt}
    {condition increment : Option Expr}
    {body : Stmt}
    (initialFormed : ∀ stmt ∈ initial, stmt.Formed tokens)
    (conditionFormed : ∀ expr ∈ condition, expr.Formed tokens)
    (incrementFormed : ∀ expr ∈ increment, expr.Formed tokens)
    (bodyFormed : body.Formed tokens) :
    (Stmt.forLoop initial condition increment body).Formed tokens := by
  have tested : (Grammar.loopCondition condition).Formed tokens := by
    cases condition with
    | none => exact Expr.formed_constant (by simp)
    | some condition => exact conditionFormed _ rfl
  have round :
      Node.Everywhere (Node.Formed tokens)
        (.stmt (Grammar.loopRound increment body)) := by
    cases increment with
    | none => exact bodyFormed.nodes
    | some increment =>
        exact Stmt.everywhere_loopBody bodyFormed (incrementFormed _ rfl)
  have loop := Stmt.formed_whileLoop tested round
  rw [forLoop_eq]
  cases initial with
  | none => exact loop
  | some initial =>
      apply Stmt.formed_block
      intro stmt member
      rcases List.mem_pair.mp member with rfl | rfl
      · exact initialFormed _ rfl
      · exact loop

/-- A for statement is formed of its clauses and its body. -/
theorem builds_forWith
    (builds : Builds tokens statement (Stmt.Formed tokens)) :
    Builds tokens (forWith statement) (Stmt.Formed tokens) := by
  refine (builds_expect _ _).andThen fun _ _ => ?_
  refine builds_forInitial.andThen fun initial initialFormed => ?_
  refine (builds_clauseBefore _ builds_expression).andThen
    fun condition conditionFormed => ?_
  refine (builds_expect _ _).andThen fun _ _ => ?_
  refine (builds_clauseBefore _ builds_expression).andThen
    fun increment incrementFormed => ?_
  refine (builds_expect _ _).andThen fun _ _ => ?_
  exact builds.andThen fun body bodyFormed =>
    builds_accept
      (formed_forLoop initialFormed conditionFormed incrementFormed bodyFormed)

/-- The line that is noted for a declaration is the line of the last token read. -/
theorem builds_noteParsed
    {place : List Token}
    {outcome : Outcome Stmt}
    (suffix : place <:+ tokens)
    (consumes : ∀ value rest notes,
      outcome = .accepted value rest notes → rest.length < place.length)
    (builds : outcome.Builds tokens (Stmt.Formed tokens)) :
    (noteParsed place outcome).Builds tokens (Stmt.Formed tokens) := by
  cases outcome with
  | rejected error notes => exact builds
  | accepted value rest notes =>
      obtain ⟨formed, behind, noted⟩ := builds
      have shorter := consumes value rest notes rfl
      refine ⟨formed, behind, List.forall_mem_append.mpr ⟨noted, ?_⟩⟩
      have consumed : place.take (place.length - rest.length) ≠ [] := by
        intro nothing
        have length := congrArg List.length nothing
        simp only [List.length_take, List.length_nil] at length
        omega
      have last := List.getLast_mem consumed
      simp only [List.mem_singleton, forall_eq, Note.Within]
      refine ⟨_, suffix.subset (List.mem_of_mem_take last), ?_⟩
      simp [List.getLast?_eq_getLast_of_ne_nil consumed]

/--
A declaration is formed, and the note on its first token lies within the tokens.
-/
theorem builds_declarationWith
    (consumes : Consumes statement)
    (builds : Builds tokens statement (Stmt.Formed tokens)) :
    Builds tokens (declarationWith statement) (Stmt.Formed tokens) := by
  intro place suffix
  cases place with
  | nil =>
      exact builds_noteParsed suffix
        (fun _ _ _ read => consumes read) (builds suffix)
  | cons token rest =>
      simp only [declarationWith]
      apply builds_noteParsed suffix
      · intro value left notes read
        split at read
        · exact consumes_of_behind readsForward_varDeclaration read
        · exact consumes read
      · split
        · exact builds_varDeclaration (suffix_of_cons_suffix suffix)
        · exact builds suffix

/--
Each attempt starts at a place among the tokens, behind the attempts before it.
-/
theorem builds_attempts
    (builds : Builds tokens declaration (Stmt.Formed tokens))
    (stops : Token → Bool)
    (count : Nat)
    {place : List Token}
    (suffix : place <:+ tokens) :
    (∀ outcome ∈ (attempts declaration stops count place).1,
        outcome.Builds tokens (Stmt.Formed tokens)) ∧
      (attempts declaration stops count place).2 <:+ tokens := by
  induction count generalizing place with
  | zero => exact ⟨by simp [attempts], suffix⟩
  | succ count inductionHypothesis =>
      cases place with
      | nil => exact ⟨by simp [attempts], suffix⟩
      | cons token rest =>
          unfold attempts
          split
          · exact ⟨by simp, suffix⟩
          · have first := builds suffix
            have resumed :=
              (resume_suffix (declaration (token :: rest))).trans first.remaining
            obtain ⟨later, behind⟩ := inductionHypothesis resumed
            exact ⟨List.forall_mem_cons.mpr ⟨first, later⟩, behind⟩

/-- A block is formed of the declarations inside it. -/
theorem builds_blockWith
    (consumes : Consumes statement)
    (builds : Builds tokens statement (Stmt.Formed tokens)) :
    Builds tokens (blockWith statement) (Stmt.Formed tokens) := by
  intro place suffix
  obtain ⟨tried, behind⟩ :=
    builds_attempts (builds_declarationWith consumes builds) (·.kind = .rightBrace)
      place.length suffix
  unfold blockWith
  refine Outcome.Builds.after ?_ ?_
  · refine (builds_expect _ _).andThen (fun _ _ => builds_accept ?_) behind
    apply Stmt.formed_block
    intro stmt member
    obtain ⟨outcome, among, found⟩ := List.mem_filterMap.mp member
    exact (tried outcome among).value? found
  · intro note member
    obtain ⟨outcome, among, noted⟩ := List.mem_flatMap.mp member
    exact (tried outcome among).recorded note noted

/-- A statement is formed if those inside it are. -/
theorem builds_statementWith
    (consumes : Consumes statement)
    (builds : Builds tokens statement (Stmt.Formed tokens)) :
    Builds tokens (statementWith statement) (Stmt.Formed tokens) := by
  intro place suffix
  cases place with
  | nil => exact builds_expressionStatement suffix
  | cons token rest =>
      have behind := suffix_of_cons_suffix suffix
      have member := mem_of_cons_suffix suffix
      simp only [statementWith]
      split
      case h_1 => exact builds_ifWith builds behind
      case h_2 => exact builds_whileWith builds behind
      case h_3 => exact builds_forWith builds behind
      case h_4 => exact builds_printStatement behind
      case h_5 kind =>
        refine (builds_expect _ _).andThen (fun _ _ => builds_accept ?_) behind
        exact Stmt.formed_breakLoop ⟨member, by simp [kind]⟩
      case h_6 kind =>
        refine (builds_expect _ _).andThen (fun _ _ => builds_accept ?_) behind
        exact Stmt.formed_continueLoop ⟨member, by simp [kind]⟩
      case h_7 => exact builds_blockWith consumes builds behind
      case h_8 => exact builds_expressionStatement suffix

/-- Statements up to any depth of nesting take a token at least. -/
theorem consumes_statementWithin
    (depth : Nat) :
    Consumes (statementWithin depth) := by
  cases depth with
  | zero =>
      intro place value rest notes read
      cases read
  | succ depth => exact consumes_statementWith (readsForward_statementWithin depth)

/-- Statements up to any depth of nesting are formed of the tokens. -/
theorem builds_statementWithin
    (depth : Nat) :
    Builds tokens (statementWithin depth) (Stmt.Formed tokens) := by
  induction depth with
  | zero => exact builds_reject _
  | succ depth inductionHypothesis =>
      exact builds_statementWith (consumes_statementWithin depth)
        inductionHypothesis

theorem builds_declaration :
    Builds tokens Parser.declaration (Stmt.Formed tokens) :=
  builds_declarationWith consumes_statement fun place suffix =>
    builds_statementWithin (place.length + 1) suffix

/-- Every attempt at a declaration of a program stays within its tokens. -/
theorem builds_declarations
    (tokens : List Token) :
    ∀ outcome ∈ declarations tokens, outcome.Builds tokens (Stmt.Formed tokens) :=
  (builds_attempts builds_declaration (fun _ => false) tokens.length
    (List.suffix_refl tokens)).1

end Statements

end Parser

/--
What is found in tokens is well-formed, whether or not there are errors around it.
-/
theorem formed_of_mem_found
    {tokens : List Token}
    {stmt : Stmt}
    (member : stmt ∈ (readProgram tokens).found) :
    stmt.Formed tokens := by
  obtain ⟨outcome, tried, found⟩ := List.mem_filterMap.mp member
  exact (Parser.builds_declarations tokens outcome tried).value? found

/-- All notes of a reading are about its tokens, and so are all errors. -/
theorem within_of_mem_notes
    {tokens : List Token}
    {note : Note}
    (member : note ∈ (readProgram tokens).notes) :
    note.Within tokens := by
  obtain ⟨outcome, tried, noted⟩ := List.mem_flatMap.mp member
  exact (Parser.builds_declarations tokens outcome tried).recorded note noted

/--
All statements of a program that was read without errors are formed of its tokens.
-/
theorem formed_of_accepted
    {tokens : List Token}
    {program : Program}
    (accepted : (readProgram tokens).accepted? = some program) :
    ∀ stmt ∈ program, stmt.Formed tokens := by
  unfold Reading.accepted? at accepted
  split at accepted
  · cases accepted
    intro stmt
    exact formed_of_mem_found
  · cases accepted

end Lox
