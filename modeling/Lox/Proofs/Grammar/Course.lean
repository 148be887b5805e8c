import Lox.Parser.Bound

namespace Lox.Parser

/-!
# The course of a reading

Declarations are tried in loops: one loop for the program, and inside of it one
for every block.  The steps of a reading list what these loops do, those of
blocks in the midst of those around them, each step with the tokens that are
left when it is done.  Main statement: whatever is read, its steps and its
notes are put together from a few kinds of stretches, so that what holds of
these stretches holds of every reading.
-/

/-- What a loop over declarations does. -/
inductive Act where
  /-- A declaration is tried here. -/
  | tries
  /-- It is given up here. -/
  | givesUp
  /-- The loop goes on here, behind a declaration. -/
  | goesOn
  /-- A block is opened; its loop starts here. -/
  | opens
  /-- A block is closed, and reading goes on here. -/
  | closes
  deriving Repr, DecidableEq

/-- An act, and the tokens that are left when it is done. -/
structure Step where
  act : Act
  remaining : List Token
  deriving Repr, DecidableEq

/-- The steps behind a part; where the part is rejected there are none. -/
def stepsBehind
    (part : Parser α)
    (next : α → List Token → List Step)
    (tokens : List Token) :
    List Step :=
  match part tokens with
  | .accepted value rest _ => next value rest
  | .rejected .. => []

/-- The steps of an if statement, behind its keyword, by those of its branches. -/
def ifSteps
    (inside : List Token → List Step) :
    List Token → List Step :=
  stepsBehind (expect .leftParen .expectedParenAfterIf) fun _ =>
    stepsBehind expression fun _ =>
      stepsBehind
        (expect .rightParen .expectedParenAfterIfCondition) fun _ tokens =>
        inside tokens ++
          stepsBehind statement
            (fun _ => stepsBehind (acceptAny [.elseKeyword]) fun found =>
              found.elim (fun _ => []) fun _ => inside)
            tokens

/-- The steps of a while statement, behind its keyword, by those of its body. -/
def whileSteps
    (inside : List Token → List Step) :
    List Token → List Step :=
  stepsBehind (expect .leftParen .expectedParenAfterWhile) fun _ =>
    stepsBehind expression fun _ =>
      stepsBehind
        (expect .rightParen .expectedParenAfterWhileCondition) fun _ => inside

/-- The steps of a for statement, behind its keyword, by those of its body. -/
def forSteps
    (inside : List Token → List Step) :
    List Token → List Step :=
  stepsBehind (expect .leftParen .expectedParenAfterFor) fun _ =>
    stepsBehind forInitial fun _ =>
      stepsBehind (clauseBefore .semicolon expression) fun _ =>
        stepsBehind
          (expect .semicolon .expectedSemicolonAfterLoopCondition) fun _ =>
          stepsBehind (clauseBefore .rightParen expression) fun _ =>
            stepsBehind
              (expect .rightParen .expectedParenAfterForClauses) fun _ => inside

/--
The steps of a declaration by those of
statements; variables are declared without any.
-/
def declarationSteps
    (inside : List Token → List Step) :
    List Token → List Step
  | [] => inside []
  | token :: rest => if token.kind = .varKeyword then [] else inside (token :: rest)

/-- The last steps of a declaration that was tried. -/
def endSteps :
    Outcome Stmt → List Step
  | .accepted _ rest _ => [⟨.goesOn, rest⟩]
  | .rejected error _ =>
      [⟨.givesUp, error.remaining⟩, ⟨.goesOn, synchronize error.remaining⟩]

/-- The steps of at most so many declarations up to a token that stops them. -/
def loopSteps
    (inside : List Token → List Step)
    (stops : Token → Bool) :
    Nat → List Token → List Step
  | 0, _ => []
  | _ + 1, [] => []
  | count + 1, token :: rest =>
      if stops token then
        []
      else
        let outcome := declaration (token :: rest)
        ⟨.tries, token :: rest⟩ ::
          (declarationSteps inside (token :: rest) ++
            (endSteps outcome ++ loopSteps inside stops count (resume outcome)))

/-- The steps of a block, behind its first brace. -/
def blockSteps
    (inside : List Token → List Step)
    (tokens : List Token) :
    List Step :=
  ⟨.opens, tokens⟩ ::
    (loopSteps inside (·.kind = .rightBrace) tokens.length tokens ++
      stepsBehind (expect .rightBrace .expectedBraceAfterBlock)
        (fun _ rest => [⟨.closes, rest⟩])
        (attempts declaration (·.kind = .rightBrace) tokens.length tokens).2)

/-- The steps of a statement by those of the statements inside of it. -/
def stepsWith
    (inside : List Token → List Step) :
    List Token → List Step
  | [] => []
  | token :: rest =>
      match token.kind with
      | .ifKeyword => ifSteps inside rest
      | .whileKeyword => whileSteps inside rest
      | .forKeyword => forSteps inside rest
      | .leftBrace => blockSteps inside rest
      | _ => []

/-- The steps of a statement that nests less deep than a bound. -/
def stepsWithin :
    Nat → List Token → List Step
  | 0 => fun _ => []
  | depth + 1 => stepsWith (stepsWithin depth)

/-- All steps of reading a program. -/
def programSteps
    (tokens : List Token) :
    List Step :=
  loopSteps (stepsWithin (tokens.length + 1)) (fun _ => false) tokens.length tokens

/-- The braces around blocks. -/
def braces :
    List Kind :=
  [.leftBrace, .rightBrace]

/-- How a stretch of a reading ends. -/
inductive Exit where
  /-- Reading goes on with the rest. -/
  | passes (rest : List Token)
  /-- A part is rejected with an error. -/
  | breaks (error : GrammarError)
  /--
  A loop comes to the end of the text with a declaration that is given up there.
  -/
  | exhausts

/-- The tokens that are left at an exit. -/
def Exit.remaining :
    Exit → List Token
  | .passes rest => rest
  | .breaks error => error.remaining
  | .exhausts => []

/-- What a stretch of a reading belongs to. -/
inductive Extent where
  /-- It is a part of one declaration. -/
  | part
  /-- It is some rounds of one loop over declarations. -/
  | rounds

/--
The stretches that readings are put together from, each from some tokens to an exit,
with the notes that are made on it and the steps of the loops.  The error of a part
that is rejected is noted by the loop that gives it up.
-/
inductive Course : Extent → List Token → Exit → List Note → List Step → Prop where
  | nothing
      {extent : Extent}
      {tokens : List Token} :
      Course extent tokens (.passes tokens) [] []
  | append
      {extent : Extent}
      {tokens between : List Token}
      {exit : Exit}
      {notes later : List Note}
      {steps laterSteps : List Step} :
      Course extent tokens (.passes between) notes steps →
      Course extent between exit later laterSteps →
      Course extent tokens exit (notes ++ later) (steps ++ laterSteps)
  /-- A token that is passed for itself is no brace; those stand around blocks. -/
  | token
      {token : Token}
      {rest : List Token} :
      token.kind ∉ braces →
      Course .part (token :: rest) (.passes rest) [] []
  | misfit
      {tokens : List Token}
      {cause : GrammarCause} :
      cause ≠ .invalidAssignmentTarget →
      cause ≠ .expectedBraceAfterBlock →
      Course .part tokens (.breaks ⟨cause, tokens⟩) [] []
  /--
  A wrong target is noted behind the value, and blames the equals sign before it.
  -/
  | target
      {equals : Token}
      {value rest : List Token}
      {notes : List Note} :
      equals.kind = .equal →
      Course .part value (.passes rest) notes [] →
      Course .part (equals :: value) (.passes rest)
        (notes ++ [.failed ⟨.invalidAssignmentTarget, equals :: value⟩]) []
  | parsed
      {tokens rest : List Token}
      {notes : List Note}
      {steps : List Step}
      {nodeClass : NodeClass}
      {line : Nat} :
      Course .part tokens (.passes rest) notes steps →
      Course .part tokens (.passes rest) (notes ++ [.parsed nodeClass line]) steps
  /-- A declaration that is accepted has read a token. -/
  | accepted
      {tokens rest : List Token}
      {notes : List Note}
      {steps : List Step} :
      rest.length < tokens.length →
      Course .part tokens (.passes rest) notes steps →
      Course .rounds tokens (.passes rest) notes
        (⟨.tries, tokens⟩ :: (steps ++ [⟨.goesOn, rest⟩]))
  | givenUp
      {tokens behind : List Token}
      {cause : GrammarCause}
      {blamed : Token}
      {notes : List Note}
      {steps : List Step} :
      Course .part tokens (.breaks ⟨cause, blamed :: behind⟩) notes steps →
      Course .rounds tokens (.passes (skipFrom blamed behind))
        (notes ++ [.failed ⟨cause, blamed :: behind⟩])
        (⟨.tries, tokens⟩ ::
          (steps ++
            [⟨.givesUp, blamed :: behind⟩, ⟨.goesOn, skipFrom blamed behind⟩]))
  | exhausted
      {token : Token}
      {rest : List Token}
      {cause : GrammarCause}
      {notes : List Note}
      {steps : List Step} :
      Course .part (token :: rest) (.breaks ⟨cause, []⟩) notes steps →
      Course .rounds (token :: rest) .exhausts (notes ++ [.failed ⟨cause, []⟩])
        (⟨.tries, token :: rest⟩ :: (steps ++ [⟨.givesUp, []⟩, ⟨.goesOn, []⟩]))
  | closed
      {opening closing : Token}
      {inside rest : List Token}
      {notes : List Note}
      {steps : List Step} :
      opening.kind = .leftBrace →
      closing.kind = .rightBrace →
      Course .rounds inside (.passes (closing :: rest)) notes steps →
      Course .part (opening :: inside) (.passes rest) notes
        (⟨.opens, inside⟩ :: (steps ++ [⟨.closes, rest⟩]))
  /--
  A block is not closed before the end, to which its
  loop comes without an error or with one.
  -/
  | unclosed
      {opening : Token}
      {inside : List Token}
      {exit : Exit}
      {notes : List Note}
      {steps : List Step} :
      opening.kind = .leftBrace →
      exit = .passes [] ∨ exit = .exhausts →
      Course .rounds inside exit notes steps →
      Course .part (opening :: inside) (.breaks ⟨.expectedBraceAfterBlock, []⟩)
        notes (⟨.opens, inside⟩ :: steps)

/--
How an outcome ends, and the notes that were made before its error if it has one.
-/
def Retold
    (tokens : List Token)
    (steps : List Step) :
    Outcome α → Prop
  | .accepted _ rest notes => Course .part tokens (.passes rest) notes steps
  | .rejected error notes => Course .part tokens (.breaks error) notes steps

/-- A parser without loops over declarations, whose outcomes have courses. -/
def Quiet
    (parser : Parser α) :
    Prop :=
  ∀ tokens, Retold tokens [] (parser tokens)

/-- What is read of fewer tokens has a course with the steps that are said. -/
def RunsBelow
    (length : Nat)
    (parser : Parser α)
    (steps : List Token → List Step) :
    Prop :=
  ∀ tokens, tokens.length < length → Retold tokens (steps tokens) (parser tokens)

/-- A parser that is quiet runs below any length without steps. -/
theorem Quiet.runsBelow
    {parser : Parser α}
    (quiet : Quiet parser)
    (length : Nat) :
    RunsBelow length parser fun _ => [] :=
  fun tokens _ => quiet tokens

section Sequences

variable {length : Nat} {tokens between : List Token} {notes : List Note}
  {steps later : List Step}

/-- Changing the value of an outcome keeps the steps that retell it. -/
theorem Retold.map
    {outcome : Outcome α}
    (retold : Retold tokens steps outcome)
    (change : α → β) :
    Retold tokens steps (outcome.map change) := by
  cases outcome with
  | accepted value rest notes => exact retold
  | rejected error notes => exact retold

/-- What is read behind a stretch is retold with the stretch before it. -/
theorem Retold.behind
    {outcome : Outcome α}
    (retold : Retold between later outcome)
    (course : Course .part tokens (.passes between) notes steps) :
    Retold tokens (steps ++ later) (outcome.after notes) := by
  cases outcome with
  | accepted value rest laterNotes => exact course.append retold
  | rejected error laterNotes => exact course.append retold

/-- Behind a token, what is read is retold with that token. -/
theorem Retold.cons
    {outcome : Outcome α}
    (retold : Retold tokens steps outcome)
    {token : Token}
    (noBrace : token.kind ∉ braces) :
    Retold (token :: tokens) steps outcome := by
  cases outcome with
  | accepted value rest notes => exact (Course.token noBrace).append retold
  | rejected error notes => exact (Course.token noBrace).append retold

/-- The steps of a sequence are those of its parts. -/
theorem RunsBelow.andThen
    {first : Parser α}
    {next : α → Parser β}
    {firstSteps : List Token → List Step}
    {nextSteps : α → List Token → List Step}
    (runs : RunsBelow length first firstSteps)
    (forward : ReadsForward first)
    (nextRuns : ∀ value, RunsBelow length (next value) (nextSteps value)) :
    RunsBelow length (Parser.andThen first next)
      fun tokens => firstSteps tokens ++ stepsBehind first nextSteps tokens := by
  intro tokens short
  have retold := runs tokens short
  have suffix := forward tokens
  simp only [Parser.andThen, stepsBehind]
  cases outcome : first tokens with
  | rejected error notes =>
      rw [outcome] at retold
      rw [List.append_nil]
      exact retold
  | accepted value rest notes =>
      rw [outcome] at retold suffix
      have shorter : rest.length ≤ tokens.length := suffix.length_le
      exact (nextRuns value rest (by omega)).behind retold

/-- Behind a part without steps come those of what follows. -/
theorem Quiet.runsBelow_andThen
    {first : Parser α}
    {next : α → Parser β}
    {nextSteps : α → List Token → List Step}
    (quiet : Quiet first)
    (forward : ReadsForward first)
    (nextRuns : ∀ value, RunsBelow length (next value) (nextSteps value)) :
    RunsBelow length (Parser.andThen first next) (stepsBehind first nextSteps) :=
  (quiet.runsBelow length).andThen forward nextRuns

/-- One quiet parser after the other is quiet. -/
theorem Quiet.andThen
    {first : Parser α}
    {next : α → Parser β}
    (quiet : Quiet first)
    (nextQuiet : ∀ value, Quiet (next value)) :
    Quiet (Parser.andThen first next) := by
  intro tokens
  have retold := quiet tokens
  simp only [Parser.andThen]
  cases outcome : first tokens with
  | rejected error notes =>
      rw [outcome] at retold
      exact retold
  | accepted value rest notes =>
      rw [outcome] at retold
      exact (nextQuiet value rest).behind retold

theorem quiet_accept
    (value : α) :
    Quiet (accept value) :=
  fun _ => .nothing

/-- A token that is no brace is taken quietly. -/
theorem quiet_acceptAny
    {kinds : List Kind}
    (noBraces : ∀ kind ∈ kinds, kind ∉ braces) :
    Quiet (acceptAny kinds) := by
  intro tokens
  cases tokens with
  | nil => exact Course.nothing
  | cons token rest =>
      by_cases fits : token.kind ∈ kinds
      · simp only [acceptAny, fits, ↓reduceIte]
        exact Course.token (noBraces _ fits)
      · simp only [acceptAny, fits, ↓reduceIte]
        exact Course.nothing

/-- A token of a kind is expected in the midst of a declaration. -/
theorem quiet_expect
    {kind : Kind}
    {cause : GrammarCause}
    (noBrace : kind ∉ braces)
    (noTarget : cause ≠ .invalidAssignmentTarget)
    (noBlock : cause ≠ .expectedBraceAfterBlock) :
    Quiet (expect kind cause) := by
  intro tokens
  cases tokens with
  | nil => exact Course.misfit noTarget noBlock
  | cons token rest =>
      by_cases fits : token.kind = kind
      · simp only [expect, fits, ↓reduceIte]
        exact Course.token (fits ▸ noBrace)
      · simp only [expect, fits, ↓reduceIte]
        exact Course.misfit noTarget noBlock

/-- An optional clause is as quiet as the clause. -/
theorem quiet_clauseBefore
    (kind : Kind)
    {parser : Parser α}
    (quiet : Quiet parser) :
    Quiet (clauseBefore kind parser) := by
  intro tokens
  unfold clauseBefore
  split
  · exact Course.nothing
  · exact quiet.andThen (fun value => quiet_accept (some value)) tokens

end Sequences

section Expressions

variable {expression operand primary : Parser Expr}

/-- The operands of a chain are collected quietly. -/
theorem quiet_chainFrom
    {level : Level}
    (noBraces : ∀ kind ∈ level.operators, kind ∉ braces)
    (quiet : Quiet operand)
    (count : Nat)
    (left : Expr) :
    Quiet (chainFrom level operand count left) := by
  induction count generalizing left with
  | zero => exact quiet_accept left
  | succ count inductionHypothesis =>
      refine (quiet_acceptAny noBraces).andThen fun found => ?_
      cases found with
      | none => exact quiet_accept left
      | some operator => exact quiet.andThen fun right => inductionHypothesis _

/-- A chain of operators that are no braces is quiet if its operands are. -/
theorem quiet_chain
    {level : Level}
    (noBraces : ∀ kind ∈ level.operators, kind ∉ braces)
    (quiet : Quiet operand) :
    Quiet (chain level operand) :=
  fun tokens =>
    quiet.andThen (fun left =>
        quiet_chainFrom noBraces quiet tokens.length left) tokens

/-- Signs are taken quietly, and then the operand. -/
theorem quiet_unaryWith
    (quiet : Quiet primary) :
    Quiet (unaryWith primary) := by
  intro tokens
  induction tokens with
  | nil => exact quiet []
  | cons token rest inductionHypothesis =>
      by_cases front : token.kind ∈ frontOperators
      · have noBrace : token.kind ∉ braces :=
          (by decide : ∀ kind ∈ frontOperators, kind ∉ braces) _ front
        simpa [unaryWith, front]
          using (inductionHypothesis.map (Expr.unary token)).cons noBrace
      · simpa [unaryWith, front] using quiet (token :: rest)

theorem quiet_groupWith
    (quiet : Quiet expression) :
    Quiet (groupWith expression) :=
  quiet.andThen fun inner =>
    (quiet_expect (by decide) (by decide) (by decide)).andThen fun _ =>
      quiet_accept (Expr.grouping inner)

/-- A primary expression is quiet, and a misfit where none starts. -/
theorem quiet_primaryWith
    (quiet : Quiet expression) :
    Quiet (primaryWith expression) := by
  intro tokens
  cases tokens with
  | nil => exact Course.misfit (by decide) (by decide)
  | cons token rest =>
      have passes {kind : Kind} (isKind : token.kind = kind)
        (noBrace : kind ∉ braces) :
          token.kind ∉ braces :=
        isKind ▸ noBrace
      simp only [primaryWith]
      split
      case h_7 opens =>
        exact (quiet_groupWith quiet rest).cons (passes opens (by decide))
      case h_8 => exact Course.misfit (by decide) (by decide)
      all_goals
        rename_i isKind
        exact Course.token (passes isKind (by decide))

/-- Expressions of all levels of operators are quiet. -/
theorem quiet_operationWith
    (quiet : Quiet expression)
    {levels : List Level}
    (noBraces : ∀ level ∈ levels, ∀ kind ∈ level.operators, kind ∉ braces) :
    Quiet (operationWith expression levels) := by
  induction levels with
  | nil => exact quiet_unaryWith (quiet_primaryWith quiet)
  | cons level rest inductionHypothesis =>
      obtain ⟨here, tighter⟩ := List.forall_mem_cons.mp noBraces
      exact quiet_chain here (inductionHypothesis tighter)

/-- Behind a target, an equals sign and its value are taken quietly or noted. -/
theorem quiet_assignmentBehind
    (quiet : Quiet expression)
    (target : Expr) :
    Quiet (assignmentBehind expression target) := by
  intro tokens
  cases tokens with
  | nil => exact Course.nothing
  | cons equals rest =>
      rw [assignmentBehind, bind_eq_andThen,
        andThen_of_accepted (show remaining (equals :: rest) = _ from rfl),
        Outcome.after_nil, bind_eq_andThen, andThen, acceptAny]
      simp only [List.mem_singleton, bind_eq_andThen]
      by_cases isEqual : equals.kind = .equal
      · have noBrace : equals.kind ∉ braces := by
          rw [isEqual]
          decide
        have retold := quiet rest
        simp only [isEqual, ↓reduceIte, Outcome.after_nil]
        cases target with
        | reference name =>
            exact ((quiet.andThen fun value =>
              quiet_accept (Expr.assign name value)) rest).cons noBrace
        | _ =>
            cases outcome : expression rest with
            | rejected error notes =>
                rw [outcome] at retold
                rw [andThen_of_rejected outcome]
                exact (Course.token noBrace).append retold
            | accepted value behind notes =>
                rw [outcome] at retold
                rw [andThen_of_accepted outcome]
                exact Course.target isEqual retold
      · simp only [isEqual, ↓reduceIte]
        exact Course.nothing

/-- Expressions up to any depth of nesting are quiet. -/
theorem quiet_expressionWithin
    (depth : Nat) :
    Quiet (expressionWithin depth) := by
  induction depth with
  | zero => exact fun _ => Course.misfit (by decide) (by decide)
  | succ depth inductionHypothesis =>
      exact (quiet_operationWith inductionHypothesis (by decide)).andThen
        (quiet_assignmentBehind inductionHypothesis)

/-- Reading an expression is quiet. -/
theorem quiet_expression :
    Quiet Parser.expression :=
  fun tokens => quiet_expressionWithin (tokens.length + 1) tokens

end Expressions

section Statements

variable {length : Nat} {inside : List Token → List Step} {tokens : List Token}
  {steps : List Step}

/-- What is made of a value in the end adds no step. -/
theorem RunsBelow.accepting
    {parser : Parser α}
    {parserSteps : List Token → List Step}
    (runs : RunsBelow length parser parserSteps)
    (change : α → β) :
    RunsBelow length (Parser.andThen parser fun value => accept (change value))
      parserSteps := by
  intro tokens short
  have retold := runs tokens short
  cases outcome : parser tokens with
  | rejected error notes =>
      rw [outcome] at retold
      rw [andThen_of_rejected outcome]
      exact retold
  | accepted value rest notes =>
      rw [outcome] at retold
      rw [andThen_of_accepted outcome]
      simp only [accept, Outcome.after, List.append_nil]
      exact retold

/-- The initial value of a variable is read quietly. -/
theorem quiet_initialValue :
    Quiet initialValue := by
  refine (quiet_acceptAny (by decide)).andThen fun found => ?_
  cases found with
  | none => exact quiet_accept _
  | some equals => exact quiet_expression.andThen fun value => quiet_accept _

theorem quiet_varDeclaration :
    Quiet varDeclaration :=
  (quiet_expect (by decide) (by decide) (by decide)).andThen fun _ =>
    quiet_initialValue.andThen fun _ =>
      (quiet_expect (by decide) (by decide) (by decide)).andThen fun _ =>
        quiet_accept _

theorem quiet_expressionStatement :
    Quiet expressionStatement :=
  quiet_expression.andThen fun _ =>
    (quiet_expect (by decide) (by decide) (by decide)).andThen fun _ =>
      quiet_accept _

theorem quiet_printStatement :
    Quiet printStatement :=
  quiet_expression.andThen fun _ =>
    (quiet_expect (by decide) (by decide) (by decide)).andThen fun _ =>
      quiet_accept _

/-- The first clause of a loop is read quietly in each of its forms. -/
theorem quiet_forInitial :
    Quiet forInitial := by
  refine (quiet_acceptAny (by decide)).andThen fun found => ?_
  cases found with
  | none => exact quiet_expressionStatement.andThen fun _ => quiet_accept _
  | some first =>
      by_cases missing : first.kind = .semicolon
      · simpa [missing] using quiet_accept (none : Option Stmt)
      · simpa [missing, bind_eq_andThen] using
          quiet_varDeclaration.andThen fun initial => quiet_accept (some initial)

/-- An if statement runs through the steps of its branches. -/
theorem runsBelow_ifWith
    (runs : RunsBelow length statement inside) :
    RunsBelow length (ifWith statement) (ifSteps inside) := by
  refine (quiet_expect (by decide) (by decide) (by decide)).runsBelow_andThen
    (readsForward_expect _ _) fun _ => ?_
  refine quiet_expression.runsBelow_andThen readsForward_expression
    fun condition => ?_
  refine (quiet_expect (by decide) (by decide) (by decide)).runsBelow_andThen
    (readsForward_expect _ _) fun _ => ?_
  refine runs.andThen readsForward_statement fun thenPart => ?_
  refine (quiet_acceptAny (by decide)).runsBelow_andThen
    (readsForward_acceptAny _) fun found => ?_
  cases found with
  | none => exact (quiet_accept _).runsBelow length
  | some keyword => exact runs.accepting (Stmt.ifElse condition thenPart)

/-- A while statement runs through the steps of its body. -/
theorem runsBelow_whileWith
    (runs : RunsBelow length statement inside) :
    RunsBelow length (whileWith statement) (whileSteps inside) := by
  refine (quiet_expect (by decide) (by decide) (by decide)).runsBelow_andThen
    (readsForward_expect _ _) fun _ => ?_
  refine quiet_expression.runsBelow_andThen readsForward_expression
    fun condition => ?_
  refine (quiet_expect (by decide) (by decide) (by decide)).runsBelow_andThen
    (readsForward_expect _ _) fun _ => ?_
  exact runs.accepting (Stmt.whileLoop condition)

/-- A for statement runs through the steps of its body. -/
theorem runsBelow_forWith
    (runs : RunsBelow length statement inside) :
    RunsBelow length (forWith statement) (forSteps inside) := by
  have clause (kind : Kind) : ReadsForward (clauseBefore kind expression) :=
    readsForward_clauseBefore kind readsForward_expression
  refine (quiet_expect (by decide) (by decide) (by decide)).runsBelow_andThen
    (readsForward_expect _ _) fun _ => ?_
  refine quiet_forInitial.runsBelow_andThen
    readsForward_forInitial fun initial => ?_
  refine (quiet_clauseBefore _ quiet_expression).runsBelow_andThen (clause _)
    fun condition => ?_
  refine (quiet_expect (by decide) (by decide) (by decide)).runsBelow_andThen
    (readsForward_expect _ _) fun _ => ?_
  refine (quiet_clauseBefore _ quiet_expression).runsBelow_andThen (clause _)
    fun increment => ?_
  refine (quiet_expect (by decide) (by decide) (by decide)).runsBelow_andThen
    (readsForward_expect _ _) fun _ => ?_
  exact runs.accepting (Stmt.forLoop initial condition increment)

/-- Noting what was parsed is a step behind those of the statement. -/
theorem Retold.noteParsed
    {outcome : Outcome Stmt}
    (retold : Retold tokens steps outcome)
    (others : List Token) :
    Retold tokens steps (noteParsed others outcome) := by
  cases outcome with
  | accepted value rest notes => exact Course.parsed retold
  | rejected error notes => exact retold

/-- A declaration runs through the steps of its statement. -/
theorem runsBelow_declaration
    (runs : RunsBelow length statement inside) :
    RunsBelow length declaration (declarationSteps inside) := by
  intro tokens short
  cases tokens with
  | nil => exact (runs [] short).noteParsed []
  | cons token rest =>
      simp only [declaration, declarationWith, declarationSteps]
      refine Retold.noteParsed ?_ _
      split
      case isTrue declares =>
        have noBrace : token.kind ∉ braces := by
          rw [declares]
          decide
        exact (quiet_varDeclaration rest).cons noBrace
      case isFalse => exact runs (token :: rest) short

/-- How a loop over declarations ends that leaves some tokens. -/
inductive LoopEnds : Exit → List Token → Prop where
  | passes
      {rest : List Token} :
      LoopEnds (.passes rest) rest
  | exhausts :
      LoopEnds .exhausts []

/--
A loop over declarations has a course, and comes to the end, where there is nothing
left to go on with, or to what stops it.
-/
theorem exists_course_attempts
    (runs : RunsBelow length statement inside)
    (stops : Token → Bool)
    {count : Nat}
    (short : tokens.length < length)
    (enough : tokens.length ≤ count) :
    ∃ exit,
      LoopEnds exit (attempts declaration stops count tokens).2 ∧
        (∀ token ∈ (attempts declaration stops count tokens).2.head?, stops token) ∧
        Course .rounds tokens exit
          ((attempts declaration stops count tokens).1.flatMap Outcome.recorded)
          (loopSteps inside stops count tokens) := by
  induction count generalizing tokens with
  | zero =>
      obtain rfl : tokens = [] := List.length_eq_zero_iff.mp (by omega)
      exact ⟨_, .passes, by simp [attempts], .nothing⟩
  | succ count inductionHypothesis =>
      cases tokens with
      | nil => exact ⟨_, .passes, by simp [attempts], .nothing⟩
      | cons token rest =>
          cases stopped : stops token with
          | true =>
              simp only [attempts, loopSteps, stopped, ↓reduceIte]
              exact ⟨_, .passes, by simpa using stopped, .nothing⟩
          | false =>
              have shorter := length_resume_lt readsForward_declaration
                (consumes_declarationWith consumes_statement) token rest
              have retold := runsBelow_declaration runs (token :: rest) short
              obtain ⟨exit, ends, reaches, later⟩ :=
                @inductionHypothesis (resume (declaration (token :: rest)))
                  (by simp only [List.length_cons] at *; omega)
                  (by simp only [List.length_cons] at *; omega)
              simp only [attempts, loopSteps, stopped, Bool.false_eq_true,
                ↓reduceIte, List.flatMap_cons]
              cases outcome : declaration (token :: rest) with
              | accepted value behind notes =>
                  rw [outcome] at retold ends reaches later shorter
                  refine ⟨exit, ends, reaches, ?_⟩
                  simpa [endSteps, Outcome.recorded, resume] using
                    (Course.accepted shorter retold).append later
              | rejected error notes =>
                  rw [outcome] at retold ends reaches later
                  obtain ⟨cause, remaining⟩ := error
                  cases remaining with
                  | nil =>
                      have nothingLeft :
                          attempts declaration stops count [] = ([], []) := by
                        cases count <;> rfl
                      have noSteps : loopSteps inside stops count [] = [] := by
                        cases count <;> rfl
                      refine ⟨.exhausts, ?_, ?_, ?_⟩
                      · simpa [resume, synchronize, nothingLeft]
                          using LoopEnds.exhausts
                      · simp [resume, synchronize, nothingLeft]
                      · simpa [endSteps, resume, synchronize, nothingLeft, noSteps,
                          Outcome.recorded] using Course.exhausted retold
                  | cons blamed behind =>
                      refine ⟨exit, ends, reaches, ?_⟩
                      simpa [endSteps, Outcome.recorded, synchronize] using
                        (Course.givenUp retold).append later

/-- A block runs through its loop, and is closed unless that has come to the end. -/
theorem retold_blockWith
    (runs : RunsBelow length statement inside)
    (short : tokens.length < length)
    {opening : Token}
    (opens : opening.kind = .leftBrace) :
    Retold (opening :: tokens) (blockSteps inside tokens)
      (blockWith statement tokens) := by
  obtain ⟨exit, ends, stopped, course⟩ :=
    exists_course_attempts runs (·.kind = .rightBrace) short (Nat.le_refl _)
  rw [blockSteps]
  change Retold _ _ (Outcome.after
    ((attempts declaration (·.kind = .rightBrace) tokens.length tokens).1.flatMap
      Outcome.recorded)
    (andThen (expect .rightBrace .expectedBraceAfterBlock)
      (fun _ =>
        accept
          (Stmt.block
            ((attempts declaration (·.kind = .rightBrace) tokens.length
              tokens).1.filterMap Outcome.value?)))
      (attempts declaration (·.kind = .rightBrace) tokens.length tokens).2))
  generalize attempts declaration (·.kind = .rightBrace) tokens.length tokens =
    tried at ends stopped course ⊢
  obtain ⟨outcomes, left⟩ := tried
  cases left with
  | nil =>
      have comesToEnd : exit = .passes [] ∨ exit = .exhausts := by
        cases ends with
        | passes => exact .inl rfl
        | exhausts => exact .inr rfl
      simp only [andThen, expect, stepsBehind, Outcome.after, List.append_nil]
      exact Course.unclosed opens comesToEnd course
  | cons closing rest =>
      have isBrace : closing.kind = .rightBrace := by simpa using stopped
      cases ends with
      | passes =>
          simp only [andThen, expect, stepsBehind, isBrace, ↓reduceIte, accept,
            Outcome.after, List.append_nil]
          exact Course.closed opens isBrace course

/-- A statement runs as its steps say if the statements inside of it do. -/
theorem runsBelow_statement_succ
    (runs : RunsBelow length statement inside) :
    RunsBelow (length + 1) statement (stepsWith inside) := by
  intro tokens short
  rw [statement_eq]
  cases tokens with
  | nil => exact quiet_expressionStatement []
  | cons token rest =>
      have shorter : rest.length < length := by
        simp only [List.length_cons] at short
        omega
      have signal (cause : GrammarCause) (read : Stmt)
          (noTarget : cause ≠ .invalidAssignmentTarget)
          (noBlock : cause ≠ .expectedBraceAfterBlock) :
          Quiet (andThen (expect .semicolon cause) fun _ => accept read) :=
        (quiet_expect (by decide) noTarget noBlock).andThen fun _ =>
          quiet_accept read
      have passes {kind : Kind} (isKind : token.kind = kind)
        (noBrace : kind ∉ braces) :
          token.kind ∉ braces :=
        isKind ▸ noBrace
      simp only [statementWith]
      split
      case h_1 isIf =>
        simpa only [stepsWith, isIf] using
          (runsBelow_ifWith runs rest shorter).cons (passes isIf (by decide))
      case h_2 isWhile =>
        simpa only [stepsWith, isWhile] using
          (runsBelow_whileWith runs rest shorter).cons (passes isWhile (by decide))
      case h_3 isFor =>
        simpa only [stepsWith, isFor] using
          (runsBelow_forWith runs rest shorter).cons (passes isFor (by decide))
      case h_4 isPrint =>
        simpa only [stepsWith, isPrint] using
          (quiet_printStatement rest).cons (passes isPrint (by decide))
      case h_5 isBreak =>
        simpa only [stepsWith, isBreak] using
          (signal _ _ (by decide) (by decide) rest).cons
            (passes isBreak (by decide))
      case h_6 isContinue =>
        simpa only [stepsWith, isContinue] using
          (signal _ _ (by decide) (by decide) rest).cons
            (passes isContinue (by decide))
      case h_7 isBrace =>
        simpa only [stepsWith, isBrace] using retold_blockWith runs shorter isBrace
      case h_8 notIf notWhile notFor _ _ _ notBrace =>
        simpa only [stepsWith] using quiet_expressionStatement (token :: rest)

/-- The steps up to a depth retell every list of tokens that is shorter. -/
theorem runsBelow_stepsWithin
    (depth : Nat) :
    RunsBelow depth statement (stepsWithin depth) := by
  induction depth with
  | zero => exact fun tokens short => absurd short (Nat.not_lt_zero _)
  | succ depth inductionHypothesis =>
      exact runsBelow_statement_succ inductionHypothesis

/--
The steps of a program and its notes are those of a course through all its tokens.
-/
theorem exists_course_readProgram
    (tokens : List Token) :
    ∃ exit,
      LoopEnds exit [] ∧
        Course .rounds tokens exit (readProgram tokens).notes
          (programSteps tokens) := by
  obtain ⟨exit, ends, stopped, course⟩ :=
    exists_course_attempts (runsBelow_stepsWithin (tokens.length + 1))
      (fun _ => false) (Nat.lt_succ_self tokens.length) (Nat.le_refl _)
  refine ⟨exit, ?_, course⟩
  cases left : (attempts declaration (fun _ => false) tokens.length tokens).2 with
  | nil => rwa [left] at ends
  | cons token rest =>
      rw [left] at stopped
      exact absurd (stopped token rfl) Bool.false_ne_true

end Statements

/-- What rejects a part is no wrong target; one that is met is noted and passed. -/
theorem Course.cause_ne_invalidAssignmentTarget
    {extent : Extent}
    {tokens : List Token}
    {error : GrammarError}
    {notes : List Note}
    {steps : List Step}
    (course : Course extent tokens (.breaks error) notes steps) :
    error.cause ≠ .invalidAssignmentTarget := by
  generalize reached : Exit.breaks error = exit at course
  induction course with
  | append _ _ _ inductionHypothesis => exact inductionHypothesis reached
  | misfit noTarget _ =>
      cases reached
      exact noTarget
  | unclosed _ _ _ _ =>
      cases reached
      exact nofun
  | _ => cases reached

/-- The errors that notes record. -/
def errorsOf
    (notes : List Note) :
    List GrammarError :=
  notes.filterMap Note.error?

@[simp] theorem errorsOf_nil :
    errorsOf [] = [] :=
  rfl

/-- The errors of notes one behind the other are the errors of each. -/
@[simp] theorem errorsOf_append
    (notes later : List Note) :
    errorsOf (notes ++ later) = errorsOf notes ++ errorsOf later :=
  List.filterMap_append

@[simp] theorem errorsOf_failed
    (error : GrammarError) :
    errorsOf [.failed error] = [error] :=
  rfl

@[simp] theorem errorsOf_parsed
    (nodeClass : NodeClass)
    (line : Nat) :
    errorsOf [.parsed nodeClass line] = [] :=
  rfl

/-- The places at which declarations are given up. -/
def failures
    (steps : List Step) :
    List (List Token) :=
  (steps.filter (·.act = .givesUp)).map Step.remaining

/-- The failures of steps one behind the other are the failures of each. -/
@[simp] theorem failures_append
    (steps later : List Step) :
    failures (steps ++ later) = failures steps ++ failures later := by
  simp [failures]

/--
The errors that are no wrong targets are those at which declarations are given up.
-/
theorem Course.map_errorsOf_eq_failures
    {extent : Extent}
    {tokens : List Token}
    {exit : Exit}
    {notes : List Note}
    {steps : List Step}
    (course : Course extent tokens exit notes steps) :
    ((errorsOf notes).filter (·.cause ≠ .invalidAssignmentTarget)).map
      GrammarError.remaining = failures steps := by
  induction course with
  | nothing => rfl
  | append _ _ same laterSame =>
      rw [errorsOf_append, List.filter_append, List.map_append,
        failures_append, same, laterSame]
  | token _ => rfl
  | misfit _ _ => rfl
  | target _ _ same => simpa using same
  | parsed _ same => simpa using same
  | accepted _ _ same => simpa [failures] using same
  | givenUp broken same =>
      have noTarget := broken.cause_ne_invalidAssignmentTarget
      simpa [failures, noTarget] using same
  | exhausted broken same =>
      have noTarget := broken.cause_ne_invalidAssignmentTarget
      simpa [failures, noTarget] using same
  | closed _ _ _ same => simpa [failures] using same
  | unclosed _ _ _ same => simpa [failures] using same

end Lox.Parser
