import Mathlib.Logic.Function.Basic
import Lox.Environment

namespace Lox

/-!
# Scopes under other names

Scopes with every name changed into another, in the same places and with the same
values. If no two names become one, then what was found under a name is found under
the name that it became, and assignments and definitions go to the same places.
-/

/-- The scope with its names changed. -/
def Scope.rename
    (change : String → String)
    (scope : Scope) :
    Scope :=
  ⟨scope.bindings.map fun binding => (change binding.1, binding.2)⟩

/-- The environment with the names of all its scopes changed. -/
def Environment.rename
    (change : String → String)
    (environment : Environment) :
    Environment where
  locals := environment.locals.map (Scope.rename change)
  globals := environment.globals.rename change
  outer := environment.outer.map (Scope.rename change)

variable {change : String → String}

namespace Scope

/-- Names that stay apart are found where they were. -/
theorem get?_rename
    (apart : Function.Injective change)
    (scope : Scope)
    (name : String) :
    (scope.rename change).get? (change name) = scope.get? name := by
  obtain ⟨bindings⟩ := scope
  unfold get? rename
  induction bindings with
  | nil => rfl
  | cons binding rest inductionHypothesis =>
      obtain ⟨bound, held⟩ := binding
      simp only [List.map_cons, List.lookup_cons]
      by_cases same : name = bound
      · simp [same]
      · have unlike : (change name == change bound) = false := by
          simpa using fun equal => same (apart equal)
        have different : (name == bound) = false := by
          simpa using same
        simpa only [unlike, different] using inductionHypothesis

theorem binds_rename
    (apart : Function.Injective change)
    (scope : Scope)
    (name : String) :
    (scope.rename change).binds (change name) = scope.binds name := by
  rw [binds_eq_isSome_get?, binds_eq_isSome_get?, get?_rename apart]

/-- Defining commutes with a renaming that keeps names apart. -/
theorem define_rename
    (apart : Function.Injective change)
    (scope : Scope)
    (name : String)
    (value : Value) :
    (scope.rename change).define (change name) value =
      (scope.define name value).rename change := by
  obtain ⟨bindings⟩ := scope
  unfold define rename
  refine congrArg Scope.mk ?_
  induction bindings with
  | nil => rfl
  | cons binding rest inductionHypothesis =>
      obtain ⟨bound, held⟩ := binding
      by_cases same : bound = name
      · simp [bindName, same]
      · have unlike : change bound ≠ change name := fun equal => same (apart equal)
        simp only [List.map_cons, bindName, unlike, same, ↓reduceIte]
        rw [inductionHypothesis]

end Scope

namespace Chain

/-- A chain has the value of a name under its new name. -/
theorem get?_rename
    (apart : Function.Injective change)
    (chain : Chain)
    (name : String) :
    get? (chain.map (Scope.rename change)) (change name) = get? chain name := by
  induction chain with
  | nil => rfl
  | cons scope enclosing inductionHypothesis =>
      simp only [List.map_cons, get?_cons, scope.get?_rename apart,
        inductionHypothesis]

/-- Assignment along a chain commutes with a renaming that keeps names apart. -/
theorem assign?_rename
    (apart : Function.Injective change)
    (chain : Chain)
    (name : String)
    (value : Value) :
    assign? (chain.map (Scope.rename change)) (change name) value =
      (assign? chain name value).map (List.map (Scope.rename change)) := by
  induction chain with
  | nil => rfl
  | cons scope enclosing inductionHypothesis =>
      simp only [List.map_cons, assign?_cons, scope.binds_rename apart,
        scope.define_rename apart, inductionHypothesis]
      split
      · rfl
      · rw [Option.map_map, Option.map_map]
        rfl

end Chain

namespace Environment

theorem chain_rename
    (change : String → String)
    (environment : Environment) :
    (environment.rename change).chain =
      environment.chain.map (Scope.rename change) := by
  simp [chain, rename]

theorem define_rename
    (apart : Function.Injective change)
    (environment : Environment)
    (name : String)
    (value : Value) :
    (environment.rename change).define (change name) value =
      (environment.define name value).rename change := by
  obtain ⟨_ | ⟨scope, enclosing⟩, globals, outer⟩ := environment
  · simp [define, rename, globals.define_rename apart]
  · simp [define, rename, scope.define_rename apart]

/-- Assignment commutes with a renaming that keeps names apart. -/
theorem assign?_rename
    (apart : Function.Injective change)
    (environment : Environment)
    (name : String)
    (value : Value) :
    (environment.rename change).assign? (change name) value =
      (environment.assign? name value).map (rename change) := by
  obtain ⟨locals, globals, outer⟩ := environment
  simp only [assign?, rename, Chain.assign?_rename apart,
    globals.binds_rename apart, globals.define_rename apart]
  rcases Chain.assign? locals name value with _ | locals'
  · by_cases bound : globals.binds name = true
    · simp [bound, rename]
    · rcases Chain.assign? outer name value with _ | outer'
      · simp [bound]
      · simp [bound, rename]
  · simp [rename]

end Environment

end Lox
