import Lox.Parser.Program
import Lox.Proofs.Token.Layout

namespace Lox

/-!
# Reading layouts

No parser looks at where a token stands: without places, tokens are read as they are
with them, as the same trees but for their places, with errors of the same causes at
the same tokens.  Main statement: the layout of a text, its blanks and comments,
does not matter to what its tokens are, nor to what they are read as.
-/

/-- An error of grammar without the places of the tokens. -/
def GrammarError.unplaced
    (error : GrammarError) :
    GrammarError :=
  ⟨error.cause, error.remaining.map Token.unplaced⟩

/-- A note without places; the line of a declaration is one. -/
def Note.unplaced :
    Note → Note
  | .failed error => .failed error.unplaced
  | .parsed nodeClass _ => .parsed nodeClass 0

/-- A fault without its place. -/
def Fault.unplaced
    (fault : Fault) :
    Fault :=
  { fault with line := 0, offset := none }

/-- The error that a note carries is the same but for its places. -/
theorem Note.error?_unplaced
    (note : Note) :
    note.unplaced.error? = note.error?.map GrammarError.unplaced := by
  cases note <;> rfl

/--
Of the place of an error, its fault keeps whether it is a token, and which lexeme.
-/
theorem GrammarError.unplaced_fault
    (finish : EndMark)
    (error : GrammarError) :
    (error.fault finish).unplaced = (error.unplaced.fault ⟨0, 0⟩).unplaced := by
  obtain ⟨cause, remaining⟩ := error
  cases remaining <;> rfl

namespace Outcome

/-- An outcome without places, of which the value has its own. -/
def unplaced
    (change : α → α) :
    Outcome α → Outcome α
  | .accepted value rest notes =>
      .accepted (change value) (rest.map Token.unplaced) (notes.map Note.unplaced)
  | .rejected error notes => .rejected error.unplaced (notes.map Note.unplaced)

variable {change : α → α}

/-- Notes put in front of an outcome lose their places with the outcome. -/
theorem unplaced_after
    (earlier : List Note)
    (outcome : Outcome α) :
    (outcome.after earlier).unplaced change =
      (outcome.unplaced change).after (earlier.map Note.unplaced) := by
  cases outcome <;> simp [after, unplaced]

/-- Building a value and forgetting its places commute where they do on values. -/
theorem unplaced_map
    {change' : β → β}
    {build build' : α → β}
    (same : ∀ value, change' (build value) = build' (change value))
    (outcome : Outcome α) :
    (outcome.map build).unplaced change' =
      (outcome.unplaced change).map build' := by
  cases outcome <;> simp [map, unplaced, same]

/-- An outcome without places has its value without places. -/
theorem value?_unplaced
    (outcome : Outcome α) :
    (outcome.unplaced change).value? = outcome.value?.map change := by
  cases outcome <;> rfl

/-- An outcome without places has its notes without places. -/
theorem recorded_unplaced
    (outcome : Outcome α) :
    (outcome.unplaced change).recorded = outcome.recorded.map Note.unplaced := by
  cases outcome <;> simp [recorded, unplaced, Note.unplaced]

end Outcome

namespace Parser

/-- One parser reads tokens without places as another reads them with places. -/
def Unplaces
    (change : α → α)
    (parser other : Parser α) :
    Prop :=
  ∀ tokens, other (tokens.map Token.unplaced) = (parser tokens).unplaced change

/-- A parser that does not look at places. -/
def IgnoresPlaces
    (change : α → α)
    (parser : Parser α) :
    Prop :=
  Unplaces change parser parser

section Parts

variable {change : α → α} {change' : β → β}

/-- A value that is given back at once is changed as the parser says. -/
theorem unplaces_accept
    (value : α) :
    Unplaces change (accept value) (accept (change value)) :=
  fun _ => rfl

/-- A rejection blames the tokens that are left, and these lose their places. -/
theorem ignoresPlaces_reject
    (cause : GrammarCause) :
    IgnoresPlaces change (reject cause) :=
  fun _ => rfl

theorem ignoresPlaces_remaining :
    IgnoresPlaces (List.map Token.unplaced) remaining :=
  fun _ => rfl

/-- An error that is recorded without places is the error without its places. -/
theorem unplaces_recordError
    (error : GrammarError) :
    Unplaces id (recordError error) (recordError error.unplaced) :=
  fun _ => rfl

/-- Kinds decide whether a token is taken, and places do not. -/
theorem ignoresPlaces_acceptAny
    (kinds : List Kind) :
    IgnoresPlaces (Option.map Token.unplaced) (acceptAny kinds) := by
  intro tokens
  cases tokens with
  | nil => rfl
  | cons token rest =>
      by_cases fits : token.kind ∈ kinds
      · simp only [List.map_cons, acceptAny, Token.kind_unplaced, fits, ↓reduceIte]
        rfl
      · simp only [List.map_cons, acceptAny, Token.kind_unplaced, fits, ↓reduceIte]
        rfl

/-- An expected token is found, or missed, whatever the places. -/
theorem ignoresPlaces_expect
    (kind : Kind)
    (cause : GrammarCause) :
    IgnoresPlaces Token.unplaced (expect kind cause) := by
  intro tokens
  cases tokens with
  | nil => rfl
  | cons token rest =>
      by_cases fits : token.kind = kind
      · simp only [List.map_cons, expect, Token.kind_unplaced, fits, ↓reduceIte]
        rfl
      · simp only [List.map_cons, expect, Token.kind_unplaced, fits, ↓reduceIte]
        rfl

/-- One parser after the other ignores places if both do. -/
theorem Unplaces.andThen
    {first first' : Parser α}
    {next next' : α → Parser β}
    (unplaces : Unplaces change first first')
    (nextUnplaces : ∀ value, Unplaces change' (next value) (next' (change value))) :
    Unplaces change' (andThen first next) (andThen first' next') := by
  intro tokens
  simp only [Parser.andThen, unplaces tokens]
  cases first tokens with
  | accepted value rest notes =>
      simp only [Outcome.unplaced, nextUnplaces value rest]
      exact (Outcome.unplaced_after notes _).symm
  | rejected error notes => rfl

/-- An optional clause ignores places if the clause does. -/
theorem IgnoresPlaces.clauseBefore
    {parser : Parser α}
    (ignores : IgnoresPlaces change parser)
    (kind : Kind) :
    IgnoresPlaces (Option.map change) (clauseBefore kind parser) := by
  intro tokens
  have starts :
      startsWith kind (tokens.map Token.unplaced) = startsWith kind tokens := by
    cases tokens <;> rfl
  simp only [Parser.clauseBefore, starts]
  split
  · rfl
  · exact ignores.andThen (fun value => unplaces_accept (some value)) tokens

end Parts

/-- The nodes of a level are built in the same way without places. -/
def Level.BuildsUnplaced
    (level : Level) :
    Prop :=
  ∀ left operator right,
    (level.node left operator right).unplaced =
      level.node left.unplaced operator.unplaced right.unplaced

/-- Every level of operators builds its trees without regard to places. -/
theorem buildsUnplaced_of_mem_levels
    {level : Level}
    (member : level ∈ levels) :
    level.BuildsUnplaced := by
  simp only [levels, List.mem_cons, List.not_mem_nil, or_false] at member
  rcases member with rfl | rfl | rfl | rfl | rfl | rfl
  all_goals exact fun _ _ _ => rfl

section Expressions

variable {operand primary expression : Parser Expr}

/-- The operands of a chain are collected into the same tree but for places. -/
theorem unplaces_chainFrom
    {level : Level}
    (builds : level.BuildsUnplaced)
    (ignores : IgnoresPlaces Expr.unplaced operand)
    (count : Nat)
    (left : Expr) :
    Unplaces Expr.unplaced (chainFrom level operand count left)
      (chainFrom level operand count left.unplaced) := by
  induction count generalizing left with
  | zero => exact unplaces_accept left
  | succ count inductionHypothesis =>
      refine (ignoresPlaces_acceptAny level.operators).andThen fun found => ?_
      cases found with
      | none => exact unplaces_accept left
      | some operator =>
          refine ignores.andThen fun right => ?_
          have unplaces := inductionHypothesis (level.node left operator right)
          rwa [builds] at unplaces

/-- A chain of operators ignores places if its operands do. -/
theorem IgnoresPlaces.chain
    {level : Level}
    (ignores : IgnoresPlaces Expr.unplaced operand)
    (builds : level.BuildsUnplaced) :
    IgnoresPlaces Expr.unplaced (chain level operand) := by
  intro tokens
  simp only [Parser.chain, List.length_map]
  exact Unplaces.andThen ignores
    (unplaces_chainFrom builds ignores tokens.length) tokens

/-- Signs in front of an operand are read whatever their places. -/
theorem IgnoresPlaces.unaryWith
    (ignores : IgnoresPlaces Expr.unplaced primary) :
    IgnoresPlaces Expr.unplaced (unaryWith primary) := by
  intro tokens
  induction tokens with
  | nil => exact ignores []
  | cons token rest inductionHypothesis =>
      have build (operand : Expr) : (Expr.unary token operand).unplaced =
          Expr.unary token.unplaced operand.unplaced := rfl
      by_cases front : token.kind ∈ frontOperators
      · simp only [List.map_cons, Parser.unaryWith, Token.kind_unplaced, front,
          ↓reduceIte, inductionHypothesis]
        exact (Outcome.unplaced_map build _).symm
      · simp only [List.map_cons, Parser.unaryWith, Token.kind_unplaced,
          front, ↓reduceIte]
        exact ignores (token :: rest)

/-- A grouping ignores places if the expression inside it does. -/
theorem IgnoresPlaces.groupWith
    (ignores : IgnoresPlaces Expr.unplaced expression) :
    IgnoresPlaces Expr.unplaced (groupWith expression) :=
  ignores.andThen fun inner =>
    (ignoresPlaces_expect _ _).andThen fun _ =>
      unplaces_accept (Expr.grouping inner)

/--
A primary expression ignores places if the groupings inside it do. Only a
parenthesis is read on behind; all other kinds decide by themselves.
-/
theorem IgnoresPlaces.primaryWith
    (ignores : IgnoresPlaces Expr.unplaced expression) :
    IgnoresPlaces Expr.unplaced (primaryWith expression) := by
  intro tokens
  cases tokens with
  | nil => rfl
  | cons token rest =>
      have group := ignores.groupWith rest
      obtain ⟨kind, lexeme, literal, line, offset⟩ := token
      cases kind
      case leftParen => exact group
      all_goals rfl

/-- All levels of operators together ignore places. -/
theorem IgnoresPlaces.operationWith
    (ignores : IgnoresPlaces Expr.unplaced expression) :
    IgnoresPlaces Expr.unplaced (operationWith expression levels) := by
  unfold Parser.operationWith
  have builds : ∀ level ∈ levels, level.BuildsUnplaced :=
    fun _ => buildsUnplaced_of_mem_levels
  generalize levels = chosen at builds
  induction chosen with
  | nil => exact ignores.primaryWith.unaryWith
  | cons level tighter inductionHypothesis =>
      obtain ⟨here, later⟩ := List.forall_mem_cons.mp builds
      exact (inductionHypothesis later).chain here

/--
An assignment is read behind its target, and a misplaced sign is noted without
place.
-/
theorem unplaces_assignmentBehind
    (ignores : IgnoresPlaces Expr.unplaced expression)
    (target : Expr) :
    Unplaces Expr.unplaced (assignmentBehind expression target)
      (assignmentBehind expression target.unplaced) := by
  refine ignoresPlaces_remaining.andThen fun place => ?_
  refine (ignoresPlaces_acceptAny _).andThen fun found => ?_
  cases found with
  | none => exact unplaces_accept target
  | some equals =>
      refine ignores.andThen fun value => ?_
      cases target with
      | reference name => exact unplaces_accept (Expr.assign name value)
      | _ => exact (unplaces_recordError _).andThen fun _ => unplaces_accept _

/-- Expressions up to any depth of nesting ignore places. -/
theorem ignoresPlaces_expressionWithin
    (depth : Nat) :
    IgnoresPlaces Expr.unplaced (expressionWithin depth) := by
  induction depth with
  | zero => exact ignoresPlaces_reject _
  | succ depth inductionHypothesis =>
      exact inductionHypothesis.operationWith.andThen
        (unplaces_assignmentBehind inductionHypothesis)

/-- Reading an expression ignores places. -/
theorem ignoresPlaces_expression :
    IgnoresPlaces Expr.unplaced Parser.expression := by
  intro tokens
  simp only [Parser.expression, List.length_map]
  exact ignoresPlaces_expressionWithin _ tokens

/-- Reading an expression up to the end of the tokens ignores places. -/
theorem ignoresPlaces_wholeExpression :
    IgnoresPlaces Expr.unplaced wholeExpression := by
  refine ignoresPlaces_expression.andThen fun whole => ?_
  refine ignoresPlaces_remaining.andThen fun rest => ?_
  cases rest with
  | nil => exact unplaces_accept whole
  | cons token later => exact ignoresPlaces_reject _

end Expressions

/-- A loop without places is built of its clauses without places. -/
theorem unplaced_forLoop
    (initial : Option Stmt)
    (condition increment : Option Expr)
    (body : Stmt) :
    (Stmt.forLoop initial condition increment body).unplaced =
      Stmt.forLoop (initial.map Stmt.unplaced) (condition.map Expr.unplaced)
        (increment.map Expr.unplaced) body.unplaced := by
  cases initial <;> cases condition <;> cases increment <;> rfl

/-- Skipping goes as far without places. -/
theorem skipFrom_unplaced
    (last : Token)
    (tokens : List Token) :
    skipFrom last.unplaced (tokens.map Token.unplaced) =
      (skipFrom last tokens).map Token.unplaced := by
  induction tokens generalizing last with
  | nil => rfl
  | cons token rest inductionHypothesis =>
      simp only [List.map_cons, skipFrom, Token.kind_unplaced, inductionHypothesis,
        apply_ite (List.map Token.unplaced)]
      rfl

/-- Reading goes on behind a failure at the same token, but for its place. -/
theorem resume_unplaced
    {change : α → α}
    (outcome : Outcome α) :
    resume (outcome.unplaced change) = (resume outcome).map Token.unplaced := by
  cases outcome with
  | accepted value rest notes => rfl
  | rejected error notes =>
      obtain ⟨cause, remaining⟩ := error
      cases remaining with
      | nil => rfl
      | cons blamed rest => exact skipFrom_unplaced blamed rest

/-- The initial value of a variable ignores places, whether there is one or not. -/
theorem ignoresPlaces_initialValue :
    IgnoresPlaces (Option.map Expr.unplaced) initialValue := by
  refine (ignoresPlaces_acceptAny _).andThen fun found => ?_
  cases found with
  | none => exact unplaces_accept none
  | some equals =>
      exact ignoresPlaces_expression.andThen fun value =>
        unplaces_accept (some value)

theorem ignoresPlaces_varDeclaration :
    IgnoresPlaces Stmt.unplaced varDeclaration :=
  (ignoresPlaces_expect _ _).andThen fun name =>
    ignoresPlaces_initialValue.andThen fun initial =>
      (ignoresPlaces_expect _ _).andThen fun _ =>
        unplaces_accept (Stmt.var name initial)

theorem ignoresPlaces_expressionStatement :
    IgnoresPlaces Stmt.unplaced expressionStatement :=
  ignoresPlaces_expression.andThen fun inner =>
    (ignoresPlaces_expect _ _).andThen fun _ =>
      unplaces_accept (Stmt.expression inner)

theorem ignoresPlaces_printStatement :
    IgnoresPlaces Stmt.unplaced printStatement :=
  ignoresPlaces_expression.andThen fun inner =>
    (ignoresPlaces_expect _ _).andThen fun _ => unplaces_accept (Stmt.print inner)

/-- The first clause of a loop ignores places in each of its three forms. -/
theorem ignoresPlaces_forInitial :
    IgnoresPlaces (Option.map Stmt.unplaced) forInitial := by
  refine (ignoresPlaces_acceptAny _).andThen fun found => ?_
  cases found with
  | none =>
      exact ignoresPlaces_expressionStatement.andThen fun initial =>
        unplaces_accept (some initial)
  | some first =>
      by_cases missing : first.kind = .semicolon
      · simp only [Option.map_some, Token.kind_unplaced, missing, ↓reduceIte]
        exact unplaces_accept none
      · simp only [Option.map_some, Token.kind_unplaced, missing, ↓reduceIte]
        exact ignoresPlaces_varDeclaration.andThen fun initial =>
          unplaces_accept (some initial)

/-- The note that a declaration was read is the same but for its line. -/
theorem noteParsed_unplaced
    (tokens : List Token)
    (outcome : Outcome Stmt) :
    noteParsed (tokens.map Token.unplaced) (outcome.unplaced Stmt.unplaced) =
      (noteParsed tokens outcome).unplaced Stmt.unplaced := by
  cases outcome with
  | rejected error notes => rfl
  | accepted stmt rest notes =>
      have noLine (consumed : List Token) :
          ((consumed.map Token.unplaced).getLast?.map Token.line).getD 0 = 0 := by
        rw [List.getLast?_map]
        cases consumed.getLast? <;> rfl
      simp only [noteParsed, Outcome.unplaced, ← List.map_take, noLine,
        Stmt.nodeClass_unplaced, List.map_append]
      rfl

section Statements

variable {statement declaration : Parser Stmt}

/-- An if statement ignores places if its branches do. -/
theorem IgnoresPlaces.ifWith
    (ignores : IgnoresPlaces Stmt.unplaced statement) :
    IgnoresPlaces Stmt.unplaced (ifWith statement) := by
  refine (ignoresPlaces_expect _ _).andThen fun _ => ?_
  refine ignoresPlaces_expression.andThen fun condition => ?_
  refine (ignoresPlaces_expect _ _).andThen fun _ => ?_
  refine ignores.andThen fun thenPart => ?_
  refine (ignoresPlaces_acceptAny _).andThen fun found => ?_
  cases found with
  | none => exact unplaces_accept (Stmt.ifThen condition thenPart)
  | some keyword =>
      exact ignores.andThen fun elsePart =>
        unplaces_accept (Stmt.ifElse condition thenPart elsePart)

/-- A while statement ignores places if its body does. -/
theorem IgnoresPlaces.whileWith
    (ignores : IgnoresPlaces Stmt.unplaced statement) :
    IgnoresPlaces Stmt.unplaced (whileWith statement) :=
  (ignoresPlaces_expect _ _).andThen fun _ =>
    ignoresPlaces_expression.andThen fun condition =>
      (ignoresPlaces_expect _ _).andThen fun _ =>
        ignores.andThen fun body => unplaces_accept (Stmt.whileLoop condition body)

/-- A for statement ignores places if its body does. -/
theorem IgnoresPlaces.forWith
    (ignores : IgnoresPlaces Stmt.unplaced statement) :
    IgnoresPlaces Stmt.unplaced (forWith statement) := by
  refine (ignoresPlaces_expect _ _).andThen fun _ => ?_
  refine ignoresPlaces_forInitial.andThen fun initial => ?_
  refine (ignoresPlaces_expression.clauseBefore _).andThen fun condition => ?_
  refine (ignoresPlaces_expect _ _).andThen fun _ => ?_
  refine (ignoresPlaces_expression.clauseBefore _).andThen fun increment => ?_
  refine (ignoresPlaces_expect _ _).andThen fun _ => ?_
  refine ignores.andThen fun body => ?_
  rw [← unplaced_forLoop]
  exact unplaces_accept _

/-- A declaration ignores places if the statements inside it do. -/
theorem IgnoresPlaces.declarationWith
    (ignores : IgnoresPlaces Stmt.unplaced statement) :
    IgnoresPlaces Stmt.unplaced (declarationWith statement) := by
  intro tokens
  cases tokens with
  | nil =>
      simp only [List.map_nil, Parser.declarationWith, ← noteParsed_unplaced]
      exact congrArg (noteParsed []) (ignores [])
  | cons token rest =>
      by_cases isVar : token.kind = .varKeyword
      · simp only [List.map_cons, Parser.declarationWith, ← noteParsed_unplaced,
          Token.kind_unplaced, isVar, ↓reduceIte]
        exact congrArg (noteParsed _) (ignoresPlaces_varDeclaration rest)
      · simp only [List.map_cons, Parser.declarationWith, ← noteParsed_unplaced,
          Token.kind_unplaced, isVar, ↓reduceIte]
        exact congrArg (noteParsed _) (ignores (token :: rest))

/-- The same declarations are tried without places, and the same tokens are left. -/
theorem attempts_unplaced
    (ignores : IgnoresPlaces Stmt.unplaced declaration)
    (stops : Token → Bool)
    (stopsAlike : ∀ token : Token, stops token.unplaced = stops token)
    (count : Nat)
    (tokens : List Token) :
    attempts declaration stops count (tokens.map Token.unplaced) =
      ((attempts declaration stops count tokens).1.map
        (Outcome.unplaced Stmt.unplaced),
        (attempts declaration stops count tokens).2.map Token.unplaced) := by
  induction count generalizing tokens with
  | zero => rfl
  | succ count inductionHypothesis =>
      cases tokens with
      | nil => rfl
      | cons token rest =>
          have here : declaration (token.unplaced :: rest.map Token.unplaced) =
              (declaration (token :: rest)).unplaced Stmt.unplaced :=
            ignores (token :: rest)
          simp only [List.map_cons, attempts, stopsAlike, here, resume_unplaced,
            inductionHypothesis]
          split <;> rfl

/--
The statements of outcomes without places are those of the outcomes, without places.
-/
theorem values_unplaced
    (tried : List (Outcome Stmt)) :
    (tried.map (Outcome.unplaced Stmt.unplaced)).filterMap Outcome.value? =
      (tried.filterMap Outcome.value?).map Stmt.unplaced := by
  simp only [List.filterMap_map, List.map_filterMap, Function.comp_def,
    Outcome.value?_unplaced]

/--
The notes of outcomes without places are those of the outcomes, without places.
-/
theorem notes_unplaced
    (tried : List (Outcome Stmt)) :
    (tried.map (Outcome.unplaced Stmt.unplaced)).flatMap Outcome.recorded =
      (tried.flatMap Outcome.recorded).map Note.unplaced := by
  simp only [List.flatMap_map, List.map_flatMap, Outcome.recorded_unplaced]

/--
A block ignores places, in its statements and where it goes on behind failures.
-/
theorem IgnoresPlaces.blockWith
    (ignores : IgnoresPlaces Stmt.unplaced statement) :
    IgnoresPlaces Stmt.unplaced (blockWith statement) := by
  intro tokens
  have tried :=
    attempts_unplaced ignores.declarationWith (·.kind = .rightBrace) (fun _ => rfl)
      tokens.length tokens
  simp only [Parser.blockWith, List.length_map, tried, values_unplaced,
    notes_unplaced, Outcome.unplaced_after]
  refine congrArg (Outcome.after _)
    ((ignoresPlaces_expect _ _).andThen (fun _ => ?_) _)
  rw [← Stmt.unplacedAll_eq_map]
  exact unplaces_accept (Stmt.block _)

/-- A statement ignores places if those inside it do. -/
theorem IgnoresPlaces.statementWith
    (ignores : IgnoresPlaces Stmt.unplaced statement) :
    IgnoresPlaces Stmt.unplaced (statementWith statement) := by
  intro tokens
  cases tokens with
  | nil => exact ignoresPlaces_expressionStatement []
  | cons token rest =>
      have signal (cause : GrammarCause) (read : Stmt) :
          Unplaces Stmt.unplaced
            (Parser.andThen (expect .semicolon cause) fun _ => accept read)
            (Parser.andThen (expect .semicolon cause) fun _ =>
              accept read.unplaced) :=
        (ignoresPlaces_expect _ _).andThen fun _ => unplaces_accept read
      have other := ignoresPlaces_expressionStatement (token :: rest)
      obtain ⟨kind, lexeme, literal, line, offset⟩ := token
      cases kind
      case ifKeyword => exact ignores.ifWith rest
      case whileKeyword => exact ignores.whileWith rest
      case forKeyword => exact ignores.forWith rest
      case printKeyword => exact ignoresPlaces_printStatement rest
      case breakKeyword => exact signal _ (.breakLoop _) rest
      case continueKeyword => exact signal _ (.continueLoop _) rest
      case leftBrace => exact ignores.blockWith rest
      all_goals exact other

end Statements

/-- Statements up to any depth of nesting ignore places. -/
theorem ignoresPlaces_statementWithin
    (depth : Nat) :
    IgnoresPlaces Stmt.unplaced (statementWithin depth) := by
  induction depth with
  | zero => exact ignoresPlaces_reject _
  | succ depth inductionHypothesis => exact inductionHypothesis.statementWith

/-- Reading a statement ignores places. -/
theorem ignoresPlaces_statement :
    IgnoresPlaces Stmt.unplaced statement := by
  intro tokens
  simp only [statement, List.length_map]
  exact ignoresPlaces_statementWithin _ tokens

/-- Reading the declarations of a program ignores places. -/
theorem declarations_unplaced
    (tokens : List Token) :
    declarations (tokens.map Token.unplaced) =
      (declarations tokens).map (Outcome.unplaced Stmt.unplaced) := by
  have ignores : IgnoresPlaces Stmt.unplaced declaration :=
    ignoresPlaces_statement.declarationWith
  simp only [declarations, List.length_map,
    attempts_unplaced ignores (fun _ => false) fun _ => rfl]

end Parser

namespace Reading

/-- A reading without places, of which the found value has its own. -/
def unplaced
    (change : α → α)
    (reading : Reading α) :
    Reading α :=
  ⟨change reading.found, reading.notes.map Note.unplaced⟩

variable {change : α → α}

/-- The errors of a reading without places are its errors without places. -/
theorem errors_unplaced
    (reading : Reading α) :
    (reading.unplaced change).errors =
      reading.errors.map GrammarError.unplaced := by
  simp only [errors, unplaced, List.filterMap_map, List.map_filterMap,
    Function.comp_def, Note.error?_unplaced]

/-- A reading is accepted with or without places, and then gives the same tree. -/
theorem accepted?_unplaced
    (reading : Reading α) :
    (reading.unplaced change).accepted? = reading.accepted?.map change := by
  simp only [accepted?, errors_unplaced, List.isEmpty_map,
    apply_ite (Option.map change)]
  rfl

/-- Two readings, of texts with their own ends, that differ in places only. -/
structure SameButPlaces
    (change : α → α)
    (finish otherFinish : EndMark)
    (reading other : Reading α) :
    Prop where
  accepted : reading.accepted?.map change = other.accepted?.map change
  found : change reading.found = change other.found
  faults :
    (reading.errors.map (GrammarError.fault finish)).map Fault.unplaced =
      (other.errors.map (GrammarError.fault otherFinish)).map Fault.unplaced

/-- Readings that agree without places differ in nothing but places. -/
theorem sameButPlaces_of_unplaced
    {reading other : Reading α}
    (same : reading.unplaced change = other.unplaced change)
    (finish otherFinish : EndMark) :
    reading.SameButPlaces change finish otherFinish other := by
  have errors := congrArg Reading.errors same
  have accepted := congrArg Reading.accepted? same
  have faults (finish : EndMark) (errors : List GrammarError) :
      (errors.map (GrammarError.fault finish)).map Fault.unplaced =
        (errors.map GrammarError.unplaced).map fun error =>
          (error.fault ⟨0, 0⟩).unplaced := by
    simp only [List.map_map, Function.comp_def, GrammarError.unplaced_fault finish]
  rw [errors_unplaced, errors_unplaced] at errors
  rw [accepted?_unplaced, accepted?_unplaced] at accepted
  refine ⟨accepted, congrArg Reading.found same, ?_⟩
  rw [faults, faults, errors]

end Reading

/-- A program read from tokens without places is the program without places. -/
theorem readProgram_unplaced
    (tokens : List Token) :
    readProgram (tokens.map Token.unplaced) =
      (readProgram tokens).unplaced (List.map Stmt.unplaced) := by
  simp only [readProgram, Parser.declarations_unplaced, Parser.values_unplaced,
    Parser.notes_unplaced, Reading.unplaced]

/--
An expression read from tokens without places is the expression without places.
-/
theorem readExpression_unplaced
    (tokens : List Token) :
    readExpression (tokens.map Token.unplaced) =
      (readExpression tokens).unplaced (Option.map Expr.unplaced) := by
  simp only [readExpression, Parser.ignoresPlaces_wholeExpression tokens,
    Outcome.value?_unplaced, Outcome.recorded_unplaced, Reading.unplaced]

/--
Two texts of which the second has no lexical errors, and that differ in places only.
-/
structure SameUpToLayout (source text : String) : Prop where
  noErrors : (Lexer.scan text).errors = []
  /-- The rows have the same kinds, lexemes and literals. -/
  rows :
    (Lexer.scan text).stream.rows.map Row.unplaced =
      (Lexer.scan source).stream.rows.map Row.unplaced
  /-- The same program is found, and the same errors at the same lexemes. -/
  program :
    (readProgram (Lexer.scan text).stream.tokens).SameButPlaces
      (List.map Stmt.unplaced)
      (Lexer.scan text).stream.finish (Lexer.scan source).stream.finish
      (readProgram (Lexer.scan source).stream.tokens)
  /-- As a single expression, the tokens are read alike as well. -/
  expression :
    (readExpression (Lexer.scan text).stream.tokens).SameButPlaces
      (Option.map Expr.unplaced)
      (Lexer.scan text).stream.finish (Lexer.scan source).stream.finish
      (readExpression (Lexer.scan source).stream.tokens)

/--
Every layout of the tokens of a text is scanned without errors, as the same tokens
but for their places.  It is read as the same tree, if it is accepted, and else
with the same errors at the same lexemes.
-/
theorem sameUpToLayout_of_laidOut
    {source text : String}
    (laidOut : Lexer.LaidOut (Lexer.scan source).stream.tokens text.toList) :
    SameUpToLayout source text := by
  obtain ⟨noErrors, tokens⟩ := Lexer.scan_of_laidOut laidOut
  constructor
  case noErrors => exact noErrors
  case rows => exact Stream.unplaced_rows tokens
  case program =>
    apply Reading.sameButPlaces_of_unplaced
    rw [← readProgram_unplaced, ← readProgram_unplaced, tokens]
  case expression =>
    apply Reading.sameButPlaces_of_unplaced
    rw [← readExpression_unplaced, ← readExpression_unplaced, tokens]

/--
A text with a faulty character, whose lexemes are
laid out on lines that end in comments.
-/
theorem sameUpToLayout_lines :
    let source := "print\"//\n\"!=1@;"
    let text := " //\nprint //\n\"//\n\" //\n!= //\n1 //\n; //\n"
    (Lexer.scan source).errors ≠ [] ∧
      Lexer.LaidOut (Lexer.scan source).stream.tokens text.toList ∧
      SameUpToLayout source text := by
  intro source text
  have errors : (Lexer.scan source).errors ≠ [] := by decide +kernel
  have isText : text.toList = Lexer.onLines (Lexer.scan source).stream.tokens := by
    decide +kernel
  have laidOut : Lexer.LaidOut (Lexer.scan source).stream.tokens text.toList := by
    rw [isText]
    exact Lexer.laidOut_onLines _
  exact ⟨errors, laidOut, sameUpToLayout_of_laidOut laidOut⟩

end Lox
