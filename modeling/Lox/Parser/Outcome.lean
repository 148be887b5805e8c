import Lox.Tree.Node
import Lox.Diagnostic

namespace Lox

/-!
# Reading tokens

A parser reads a list of tokens from the front.  It accepts a value and leaves
the tokens behind it, or it rejects the list at the token that does not fit.  The
end of the list is the end of the text.
-/

/-- What is wrong with a list of tokens. -/
inductive GrammarCause where
  | expectedExpression
  | expectedEndOfExpression
  | expectedVariableName
  | expectedSemicolonAfterDeclaration
  | expectedSemicolonAfterExpression
  | expectedSemicolonAfterValue
  | expectedSemicolonAfterBreak
  | expectedSemicolonAfterContinue
  | expectedSemicolonAfterLoopCondition
  | expectedParenAfterIf
  | expectedParenAfterWhile
  | expectedParenAfterFor
  | expectedParenAfterExpression
  | expectedParenAfterIfCondition
  | expectedParenAfterWhileCondition
  | expectedParenAfterForClauses
  | expectedBraceAfterBlock
  | invalidAssignmentTarget
  deriving Repr, DecidableEq

namespace GrammarCause

/-- The message of a cause. -/
def message :
    GrammarCause → String
  | .expectedExpression => "Expect expression."
  | .expectedEndOfExpression => "Expect end of expression."
  | .expectedVariableName => "Expect variable name."
  | .expectedSemicolonAfterDeclaration => "Expect ';' after variable declaration."
  | .expectedSemicolonAfterExpression => "Expect ';' after expression."
  | .expectedSemicolonAfterValue => "Expect ';' after value."
  | .expectedSemicolonAfterBreak => "Expect ';' after 'break'."
  | .expectedSemicolonAfterContinue => "Expect ';' after 'continue'."
  | .expectedSemicolonAfterLoopCondition => "Expect ';' after loop condition."
  | .expectedParenAfterIf => "Expect '(' after 'if'."
  | .expectedParenAfterWhile => "Expect '(' after 'while'."
  | .expectedParenAfterFor => "Expect '(' after 'for'."
  | .expectedParenAfterExpression => "Expect ')' after expression."
  | .expectedParenAfterIfCondition => "Expect ')' after if condition."
  | .expectedParenAfterWhileCondition => "Expect ')' after condition."
  | .expectedParenAfterForClauses => "Expect ')' after for clauses."
  | .expectedBraceAfterBlock => "Expect '\x7d' after block."
  | .invalidAssignmentTarget => "Invalid assignment target."

end GrammarCause

/-- An error of the grammar, with the tokens from the blamed one on. -/
structure GrammarError where
  cause : GrammarCause
  remaining : List Token
  deriving Repr, DecidableEq

namespace GrammarError

/-- The fault that an error is in a text with the given end. -/
def fault
    (finish : EndMark)
    (error : GrammarError) :
    Fault :=
  match error.remaining with
  | [] =>
      ⟨.grammar, finish.line, locationAtEnd, error.cause.message,
        some finish.offset⟩
  | blamed :: _ =>
      ⟨.grammar, blamed.line, locationAt blamed.lexeme, error.cause.message,
        some blamed.offset⟩

end GrammarError

/-- What is recorded while tokens are read. -/
inductive Note where
  | failed (error : GrammarError)
  /-- A declaration was read; it ends on the line. -/
  | parsed (nodeClass : NodeClass) (line : Nat)
  deriving Repr, DecidableEq

namespace Note

/-- The error that a note records. -/
def error? :
    Note → Option GrammarError
  | .failed error => some error
  | .parsed .. => none

/-- The event that a note is; declarations are events of a trace. -/
def event?
    (finish : EndMark)
    (tracing : Bool) :
    Note → Option Event
  | .failed error => some (.faulted (error.fault finish))
  | .parsed nodeClass line =>
      if tracing then
        some (.traced s!"Parsed {nodeClass.name} at line {line}")
      else
        none

end Note

/-- The result of reading tokens. -/
inductive Outcome (α : Type) where
  | accepted (value : α) (rest : List Token) (notes : List Note)
  /-- The notes are those made before the error. -/
  | rejected (error : GrammarError) (notes : List Note)
  deriving Repr

namespace Outcome

/-- The value that was read. -/
def value? :
    Outcome α → Option α
  | .accepted value _ _ => some value
  | .rejected .. => none

/-- All notes, that of the error last. -/
def recorded :
    Outcome α → List Note
  | .accepted _ _ notes => notes
  | .rejected error notes => notes ++ [.failed error]

/-- The tokens that were not read. -/
def remaining :
    Outcome α → List Token
  | .accepted _ rest _ => rest
  | .rejected error _ => error.remaining

/-- Change the value of an outcome. -/
def map
    (change : α → β) :
    Outcome α → Outcome β
  | .accepted value rest notes => .accepted (change value) rest notes
  | .rejected error notes => .rejected error notes

/-- Put notes in front of those of an outcome. -/
def after
    (earlier : List Note) :
    Outcome α → Outcome α
  | .accepted value rest notes => .accepted value rest (earlier ++ notes)
  | .rejected error notes => .rejected error (earlier ++ notes)

@[simp] theorem after_nil
    (outcome : Outcome α) :
    outcome.after [] = outcome := by
  cases outcome <;> rfl

@[simp] theorem remaining_map
    (change : α → β)
    (outcome : Outcome α) :
    (outcome.map change).remaining = outcome.remaining := by
  cases outcome <;> rfl

@[simp] theorem value?_after
    (earlier : List Note)
    (outcome : Outcome α) :
    (outcome.after earlier).value? = outcome.value? := by
  cases outcome <;> rfl

@[simp] theorem remaining_after
    (earlier : List Note)
    (outcome : Outcome α) :
    (outcome.after earlier).remaining = outcome.remaining := by
  cases outcome <;> rfl

@[simp] theorem recorded_after
    (earlier : List Note)
    (outcome : Outcome α) :
    (outcome.after earlier).recorded = earlier ++ outcome.recorded := by
  cases outcome <;> simp [after, recorded]

end Outcome

/-- A parser of values. -/
abbrev Parser (α : Type) :=
  List Token → Outcome α

namespace Parser

/-- Accept a value and read nothing. -/
def accept
    (value : α) :
    Parser α :=
  fun tokens => .accepted value tokens []

/-- Read with one parser and go on with the next. -/
def andThen
    (first : Parser α)
    (next : α → Parser β) :
    Parser β :=
  fun tokens =>
    match first tokens with
    | .accepted value rest notes => (next value rest).after notes
    | .rejected error notes => .rejected error notes

instance : Monad Parser where
  pure := accept
  bind := andThen

/-- Reject the tokens for a cause. -/
def reject
    (cause : GrammarCause) :
    Parser α :=
  fun tokens => .rejected ⟨cause, tokens⟩ []

/-- The tokens that are still to be read. -/
def remaining :
    Parser (List Token) :=
  fun tokens => .accepted tokens tokens []

/-- Record an error and go on. -/
def recordError
    (error : GrammarError) :
    Parser Unit :=
  fun tokens => .accepted () tokens [.failed error]

/-- Whether the next token has a kind. -/
def startsWith
    (kind : Kind)
    (tokens : List Token) :
    Bool :=
  tokens.head?.map Token.kind == some kind

/-- Read the next token if it has one of the kinds. -/
def acceptAny
    (kinds : List Kind) :
    Parser (Option Token)
  | [] => .accepted none [] []
  | token :: rest =>
      if token.kind ∈ kinds then
        .accepted (some token) rest []
      else
        .accepted none (token :: rest) []

/-- Read a token of a kind; any other is an error. -/
def expect
    (kind : Kind)
    (cause : GrammarCause) :
    Parser Token
  | [] => .rejected ⟨cause, []⟩ []
  | token :: rest =>
      if token.kind = kind then
        .accepted token rest []
      else
        .rejected ⟨cause, token :: rest⟩ []

/-- Read a clause that may be missing before a token of a kind. -/
def clauseBefore
    (kind : Kind)
    (parser : Parser α) :
    Parser (Option α) :=
  fun tokens =>
    if startsWith kind tokens then
      .accepted none tokens []
    else
      andThen parser (fun value => accept (some value)) tokens

/-- Sequences are read one part after the other. -/
theorem bind_eq_andThen
    (first : Parser α)
    (next : α → Parser β) :
    (first >>= next) = andThen first next :=
  rfl

/-- Behind an accepted part the next part is read. -/
theorem andThen_of_accepted
    {first : Parser α}
    {next : α → Parser β}
    {tokens rest : List Token}
    {value : α}
    {notes : List Note}
    (accepted : first tokens = .accepted value rest notes) :
    andThen first next tokens = (next value rest).after notes := by
  simp [andThen, accepted]

/-- Behind a rejected part nothing is read. -/
theorem andThen_of_rejected
    {first : Parser α}
    {next : α → Parser β}
    {tokens : List Token}
    {error : GrammarError}
    {notes : List Note}
    (rejected : first tokens = .rejected error notes) :
    andThen first next tokens = .rejected error notes := by
  simp [andThen, rejected]

/-- A sequence is accepted only if both its parts are. -/
theorem accepted_of_andThen
    {first : Parser α}
    {next : α → Parser β}
    {tokens rest : List Token}
    {value : β}
    {notes : List Note}
    (accepted : andThen first next tokens = .accepted value rest notes) :
    ∃ earlier between firstNotes nextNotes,
      first tokens = .accepted earlier between firstNotes ∧
        next earlier between = .accepted value rest nextNotes ∧
          notes = firstNotes ++ nextNotes := by
  cases outcome : first tokens with
  | rejected error notes =>
      rw [andThen_of_rejected outcome] at accepted
      cases accepted
  | accepted earlier between firstNotes =>
      rw [andThen_of_accepted outcome] at accepted
      cases outcome' : next earlier between with
      | rejected error notes =>
          rw [outcome'] at accepted
          cases accepted
      | accepted value' rest' nextNotes =>
          rw [outcome'] at accepted
          cases accepted
          exact ⟨earlier, between, firstNotes, nextNotes, rfl, outcome', rfl⟩

end Parser

end Lox
