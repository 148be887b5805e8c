import Lox.Environment

namespace Lox

/-!
# Forests of scopes

Scopes may share the scopes around them.  A forest holds scopes by index; each
has been opened inside a scope that stood in the forest before, or inside none.
-/

/-- A scope of a forest. -/
structure Branch where
  scope : Scope
  /-- The scopes around this one, the nearest first. -/
  ancestors : List Nat
  deriving Repr, DecidableEq

/-- Scopes by index. -/
abbrev Forest :=
  List Branch

namespace Forest

/-- A forest with one empty scope. -/
def single :
    Forest :=
  [⟨Scope.empty, []⟩]

/-- The indices of a scope and of those around it. -/
def path
    (forest : Forest)
    (index : Nat) :
    List Nat :=
  match forest[index]? with
  | none => []
  | some branch => index :: branch.ancestors

/-- The scope at an index. -/
def scopeAt
    (forest : Forest)
    (index : Nat) :
    Scope :=
  (forest[index]?.map Branch.scope).getD Scope.empty

/-- Add a scope inside another, or inside none. -/
def extend
    (forest : Forest)
    (parent : Option Nat) :
    Forest :=
  let ancestors :=
    match parent with
    | none => []
    | some index => forest.path index
  forest ++ [⟨Scope.empty, ancestors⟩]

/-- The nearest scope that binds a name. -/
def resolve?
    (forest : Forest)
    (index : Nat)
    (name : String) :
    Option Nat :=
  (forest.path index).find? fun candidate => (forest.scopeAt candidate).binds name

/-- Bind a name in a scope. -/
def define
    (forest : Forest)
    (index : Nat)
    (name : String)
    (value : Value) :
    Forest :=
  forest.modify index fun branch =>
    { branch with scope := branch.scope.define name value }

/-- The value of a name seen from a scope; a binding to nil is an error. -/
def valueOf
    (forest : Forest)
    (index : Nat)
    (name : Token) :
    Except RuntimeError Value :=
  match forest.resolve? index name.lexeme with
  | none => .error ⟨.undefinedVariable, name⟩
  | some holder =>
      match (forest.scopeAt holder).get? name.lexeme with
      | none => .error ⟨.undefinedVariable, name⟩
      | some value => reading name value

/-- Rebind a name in the nearest scope that binds it. -/
def assign
    (forest : Forest)
    (index : Nat)
    (name : Token)
    (value : Value) :
    Except RuntimeError Forest :=
  match forest.resolve? index name.lexeme with
  | none => .error ⟨.undefinedVariable, name⟩
  | some holder => .ok (forest.define holder name.lexeme value)

/-- Whether a name is bound in a scope or around it. -/
def isDefined
    (forest : Forest)
    (index : Nat)
    (name : String) :
    Bool :=
  (forest.resolve? index name).isSome

/-- How many scopes lie around a scope. -/
def depth
    (forest : Forest)
    (index : Nat) :
    Nat :=
  (forest.path index).length - 1

/-- A scope by its depth and its names, which are sorted. -/
def describe
    (forest : Forest)
    (index : Nat) :
    String :=
  let names :=
    (forest.scopeAt index).names.mergeSort (fun left right => left ≤ right)
  s!"Environment(depth={forest.depth index}, names={Text.quotedList names})"

@[simp] theorem length_define
    (forest : Forest)
    (index : Nat)
    (name : String)
    (value : Value) :
    (forest.define index name value).length = forest.length := by
  simp [define]

end Forest

end Lox
