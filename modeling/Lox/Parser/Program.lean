import Lox.Parser.Statement

namespace Lox

/-!
# Programs

A program is a list of declarations.  It counts as read only if no error was
recorded, in any declaration.
-/

/-- All declarations of a list of tokens, each as it was tried. -/
def Parser.declarations
    (tokens : List Token) :
    List (Outcome Stmt) :=
  (Parser.attempts Parser.declaration (fun _ => false) tokens.length tokens).1

/-- The result of reading a whole list of tokens. -/
structure Reading (α : Type) where
  found : α
  notes : List Note
  deriving Repr

namespace Reading

/-- The errors recorded, in order. -/
def errors
    (reading : Reading α) :
    List GrammarError :=
  reading.notes.filterMap Note.error?

/-- What was found stands only without errors. -/
def accepted?
    (reading : Reading α) :
    Option α :=
  if reading.errors.isEmpty then some reading.found else none

end Reading

/-- Read a program. -/
def readProgram
    (tokens : List Token) :
    Reading Program :=
  let tried := Parser.declarations tokens
  ⟨tried.filterMap Outcome.value?, tried.flatMap Outcome.recorded⟩

/-- Read a single expression, without recovery. -/
def readExpression
    (tokens : List Token) :
    Reading (Option Expr) :=
  let outcome := Parser.wholeExpression tokens
  ⟨outcome.value?, outcome.recorded⟩

end Lox
