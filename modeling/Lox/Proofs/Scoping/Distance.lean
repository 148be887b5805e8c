import Lox.Proofs.Scoping.SameScopes

namespace Lox

/-!
# Names at a distance

The distance of a name tells the one scope that a look-up or an assignment goes to.
A look-up takes the value that this scope binds the name to.  An assignment changes
that value and nothing else, in this scope or in any other.
-/

/--
One scope of a chain has another value for one
of its names, and all else is as before.
-/
structure Chain.ReboundAt
    (distance : Nat)
    (name : String)
    (value : Value)
    (before after : Chain) :
    Prop where
  length : after.length = before.length
  elsewhere : ∀ other, other ≠ distance → after[other]? = before[other]?
  here :
    ∃ scope changed,
      before[distance]? = some scope ∧
        after[distance]? = some changed ∧
        scope.binds name = true ∧
        changed.names = scope.names ∧
        changed.get? name = some value ∧
        ∀ other, other ≠ name → changed.get? other = scope.get? other

/-- A look-up takes the value of a name from the scope at a distance. -/
def Environment.ReadsAt
    (environment : Environment)
    (name : Token)
    (distance : Nat) :
    Prop :=
  ∃ scope value,
    environment.chain[distance]? = some scope ∧
      scope.get? name.lexeme = some value ∧
      environment.valueOf name = reading name value

namespace Chain

/-- A name is resolved to the first scope that binds it. -/
theorem resolve?_eq_some_iff
    {chain : Chain}
    {name : String}
    {distance : Nat} :
    resolve? chain name = some distance ↔
      ∃ scope,
        chain[distance]? = some scope ∧
          scope.binds name = true ∧
          ∀ nearer ∈ chain.take distance, nearer.binds name = false := by
  induction chain generalizing distance with
  | nil =>
      simp
  | cons scope enclosing inductionHypothesis =>
      rw [resolve?_cons]
      cases distance with
      | zero =>
          by_cases bound : scope.binds name = true <;> simp [bound]
      | succ distance =>
          by_cases bound : scope.binds name = true <;>
            simp [bound, inductionHypothesis]

/-- Where names are bound depends on the names of the scopes alone. -/
theorem resolve?_eq_findIdx?_names
    (chain : Chain)
    (name : String) :
    resolve? chain name = (chain.map Scope.names).findIdx? (·.contains name) := by
  rw [List.findIdx?_map]
  rfl

/-- A name that is resolved has the value that the scope there binds it to. -/
theorem exists_get?_of_resolved
    {chain : Chain}
    {name : String}
    {distance : Nat}
    (resolved : resolve? chain name = some distance) :
    ∃ scope value,
      chain[distance]? = some scope ∧
        scope.get? name = some value ∧
        get? chain name = some value := by
  obtain ⟨scope, found, bound, -⟩ := resolve?_eq_some_iff.mp resolved
  rw [scope.binds_eq_isSome_get?] at bound
  obtain ⟨value, held⟩ := Option.isSome_iff_exists.mp bound
  exact ⟨scope, value, found, held, by simp [get?, resolved, valueAt?, found, held]⟩

/--
Defining a name in the scope it is resolved to rebinds it there and nowhere else.
-/
theorem reboundAt_modify
    {chain : Chain}
    {name : String}
    {distance : Nat}
    (resolved : resolve? chain name = some distance)
    (value : Value) :
    ReboundAt distance name value chain
      (chain.modify distance (·.define name value)) := by
  obtain ⟨scope, found, bound, -⟩ := resolve?_eq_some_iff.mp resolved
  have member : name ∈ scope.names := by
    simpa [Scope.binds] using bound
  refine ⟨List.length_modify .., ?_, scope, scope.define name value, found, ?_,
    bound, ?_, scope.get?_define_same name value, ?_⟩
  · intro other different
    exact List.getElem?_modify_ne _ chain (Ne.symm different)
  · simp [found]
  · rw [scope.names_define, if_pos member]
  · intro other different
    exact scope.get?_define_other different value

/--
A value that an assignment changes is that of
its name, in the scope that it goes to.
-/
theorem ReboundAt.eq_of_valueAt?_ne
    {before after : Chain}
    {distance other : Nat}
    {name query : String}
    {value : Value}
    (rebound : ReboundAt distance name value before after)
    (changed : valueAt? after other query ≠ valueAt? before other query) :
    other = distance ∧ query = name := by
  by_contra apart
  apply changed
  unfold valueAt?
  by_cases same : other = distance
  · subst same
    obtain ⟨scope, scope', found, found', -, -, -, others⟩ := rebound.here
    have different : query ≠ name := fun equal => apart ⟨rfl, equal⟩
    simp [found, found', others query different]
  · rw [rebound.elsewhere other same]

end Chain

namespace Environment

/-- A look-up takes the value from the scope at the distance of the name. -/
theorem readsAt_of_resolved
    {environment : Environment}
    {name : Token}
    {distance : Nat}
    (resolved : Chain.resolve? environment.chain name.lexeme = some distance) :
    environment.ReadsAt name distance := by
  obtain ⟨scope, value, found, held, got⟩ := Chain.exists_get?_of_resolved resolved
  exact ⟨scope, value, found, held, by simp [valueOf, got]⟩

/-- A look-up of a name that is bound nowhere fails, and blames the name. -/
theorem valueOf_of_unresolved
    {environment : Environment}
    {name : Token}
    (unresolved : Chain.resolve? environment.chain name.lexeme = none) :
    environment.valueOf name = .error ⟨.undefinedVariable, name⟩ := by
  simp [valueOf, Chain.get?_eq_none_iff.mpr unresolved]

/-- An assignment along the scopes in force rebinds the name at its distance. -/
theorem reboundAt_of_assign?
    {environment changed : Environment}
    {name : String}
    {value : Value}
    (assigned : environment.assign? name value = some changed) :
    ∃ distance,
      Chain.resolve? environment.chain name = some distance ∧
        Chain.ReboundAt distance name value environment.chain changed.chain := by
  have alongChain :
      Chain.assign? environment.chain name value = some changed.chain := by
    rw [← map_chain_assign?, assigned]
    rfl
  obtain ⟨distance, resolved, same⟩ := Option.map_eq_some_iff.mp alongChain
  exact ⟨distance, resolved, same ▸ Chain.reboundAt_modify resolved value⟩

end Environment

end Lox
