import Lox.Scope
import Lox.Evaluation.RuntimeError

namespace Lox

/-!
# Environments

An environment is the chain of scopes that a statement runs in: the local
scopes, the innermost first, then the global scope, then scopes around it.
-/

/--
What reading a name yields where it has a value: nil is an error and no value.
-/
def reading
    (name : Token)
    (value : Value) :
    Except RuntimeError Value :=
  if value = .nil then .error ⟨.nilVariable, name⟩ else .ok value

/-- A name is read without an error exactly if its value is not nil. -/
theorem reading_eq_ok_iff
    {name : Token}
    {held value : Value} :
    reading name held = .ok value ↔ value ≠ .nil ∧ held = value := by
  unfold reading
  split
  · rename_i isNil
    simpa [isNil] using fun different => Ne.symm different
  · rename_i notNil
    simp only [Except.ok.injEq]
    exact ⟨fun same => ⟨same ▸ notNil, same⟩, And.right⟩

/-- Reading a name that has a value fails at nil only, and blames the name. -/
theorem reading_eq_error_iff
    {name : Token}
    {held : Value}
    {error : RuntimeError} :
    reading name held = .error error ↔
      held = .nil ∧ error = ⟨.nilVariable, name⟩ := by
  unfold reading
  split <;> simp_all [eq_comm]

/-- The scopes in force, with the global one told apart. -/
structure Environment where
  locals : List Scope
  globals : Scope
  /-- Scopes around the global one. -/
  outer : List Scope
  deriving Repr, DecidableEq, Inhabited

namespace Environment

/-- An environment without local scopes. -/
def ofGlobals
    (globals : Scope)
    (outer : List Scope) :
    Environment :=
  ⟨[], globals, outer⟩

/-- All scopes from the innermost to the outermost. -/
def chain
    (environment : Environment) :
    Chain :=
  environment.locals ++ environment.globals :: environment.outer

/-- The scope that definitions go to. -/
def active
    (environment : Environment) :
    Scope :=
  environment.locals.headD environment.globals

/-- How many scopes enclose the active one. -/
def depth
    (environment : Environment) :
    Nat :=
  environment.locals.length + environment.outer.length

/-- Bind a name in the active scope. -/
def define
    (environment : Environment)
    (name : String)
    (value : Value) :
    Environment :=
  match environment.locals with
  | [] => { environment with globals := environment.globals.define name value }
  | scope :: enclosing =>
      { environment with locals := scope.define name value :: enclosing }

/-- Open a scope inside the active one. -/
def enter
    (environment : Environment) :
    Environment :=
  { environment with locals := Scope.empty :: environment.locals }

/-- Close the innermost local scope. -/
def leave
    (environment : Environment) :
    Environment :=
  { environment with locals := environment.locals.tail }

/-- Rebind a name where it is bound nearest. -/
def assign?
    (environment : Environment)
    (name : String)
    (value : Value) :
    Option Environment :=
  match Chain.assign? environment.locals name value with
  | some locals => some { environment with locals := locals }
  | none =>
      if environment.globals.binds name then
        some { environment with globals := environment.globals.define name value }
      else
        (Chain.assign? environment.outer name value).map fun outer =>
          { environment with outer := outer }

/-- The value of a name: a binding to nil is an error and no value. -/
def valueOf
    (environment : Environment)
    (name : Token) :
    Except RuntimeError Value :=
  match Chain.get? environment.chain name.lexeme with
  | none => .error ⟨.undefinedVariable, name⟩
  | some value => reading name value

/-- Rebind a name, which must be bound already. -/
def assign
    (environment : Environment)
    (name : Token)
    (value : Value) :
    Except RuntimeError Environment :=
  match environment.assign? name.lexeme value with
  | none => .error ⟨.undefinedVariable, name⟩
  | some changed => .ok changed

@[simp] theorem leave_enter
    (environment : Environment) :
    environment.enter.leave = environment :=
  rfl

@[simp] theorem length_locals_define
    (environment : Environment)
    (name : String)
    (value : Value) :
    (environment.define name value).locals.length = environment.locals.length := by
  unfold define
  split <;> simp_all

end Environment

end Lox
