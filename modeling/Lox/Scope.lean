import Lox.Value
import Lox.Text.Quoted

namespace Lox

/-!
# Scopes

A scope binds names to values and remembers the order in which the names were
first defined.
-/

/-- Bindings in the order of their first definition. -/
structure Scope where
  bindings : List (String × Value)
  deriving Repr, DecidableEq, Inhabited

/-- Rebind a name in place, or bind it behind all others. -/
def bindName
    (name : String)
    (value : Value) :
    List (String × Value) → List (String × Value)
  | [] => [(name, value)]
  | binding :: rest =>
      if binding.1 = name then
        (name, value) :: rest
      else
        binding :: bindName name value rest

namespace Scope

/-- A scope that binds nothing. -/
def empty :
    Scope :=
  ⟨[]⟩

/-- The names that a scope binds. -/
def names
    (scope : Scope) :
    List String :=
  scope.bindings.map Prod.fst

/-- Whether a scope binds a name. -/
def binds
    (scope : Scope)
    (name : String) :
    Bool :=
  scope.names.contains name

/-- The value that a scope binds a name to. -/
def get?
    (scope : Scope)
    (name : String) :
    Option Value :=
  scope.bindings.lookup name

/-- Bind a name; a name that is bound already keeps its place. -/
def define
    (scope : Scope)
    (name : String)
    (value : Value) :
    Scope :=
  ⟨bindName name value scope.bindings⟩

/-- The scope that a list of definitions makes. -/
def ofList
    (definitions : List (String × Value)) :
    Scope :=
  definitions.foldl (fun scope binding => scope.define binding.1 binding.2) empty

@[simp] theorem names_empty :
    empty.names = [] :=
  rfl

@[simp] theorem get?_empty
    (name : String) :
    empty.get? name = none :=
  rfl

/-- A name that was defined has the value it was defined with. -/
@[simp] theorem get?_define_same
    (scope : Scope)
    (name : String)
    (value : Value) :
    (scope.define name value).get? name = some value := by
  obtain ⟨bindings⟩ := scope
  simp only [get?, define]
  induction bindings with
  | nil =>
      simp [bindName]
  | cons binding rest inductionHypothesis =>
      obtain ⟨bound, held⟩ := binding
      by_cases same : bound = name
      · simp [bindName, same]
      · have different : (name == bound) = false := by
          simpa using fun equal => same (Eq.symm equal)
        simp [bindName, same, List.lookup_cons, different, inductionHypothesis]

/-- Other names keep their values. -/
theorem get?_define_other
    (scope : Scope)
    {name other : String}
    (different : other ≠ name)
    (value : Value) :
    (scope.define name value).get? other = scope.get? other := by
  obtain ⟨bindings⟩ := scope
  simp only [get?, define]
  induction bindings with
  | nil =>
      simp [bindName, different]
  | cons binding rest inductionHypothesis =>
      obtain ⟨bound, held⟩ := binding
      by_cases same : bound = name
      · subst same
        have unlike : (other == bound) = false := by
          simpa using different
        simp [bindName, List.lookup_cons, unlike]
      · simp only [bindName, same, ↓reduceIte, List.lookup_cons]
        split
        · rfl
        · exact inductionHypothesis

/-- Defining a bound name moves nothing, and a new name goes behind all others. -/
theorem names_define
    (scope : Scope)
    (name : String)
    (value : Value) :
    (scope.define name value).names =
      if name ∈ scope.names then scope.names else scope.names ++ [name] := by
  obtain ⟨bindings⟩ := scope
  simp only [names, define]
  induction bindings with
  | nil =>
      simp [bindName]
  | cons binding rest inductionHypothesis =>
      obtain ⟨bound, held⟩ := binding
      by_cases same : bound = name
      · subst same
        simp [bindName]
      · have apart : ¬ name = bound := fun equal => same equal.symm
        simp only [bindName, same, ↓reduceIte, List.map_cons, List.mem_cons, apart,
          false_or, inductionHypothesis]
        by_cases member : name ∈ rest.map Prod.fst
        · simp only [member, ↓reduceIte]
        · simp only [member, ↓reduceIte, List.cons_append]

/-- A scope binds the names that have a value in it. -/
theorem binds_eq_isSome_get?
    (scope : Scope)
    (name : String) :
    scope.binds name = (scope.get? name).isSome := by
  obtain ⟨bindings⟩ := scope
  simp only [binds, get?, names]
  induction bindings with
  | nil =>
      rfl
  | cons binding rest inductionHypothesis =>
      obtain ⟨bound, held⟩ := binding
      simp only [List.map_cons, List.contains_cons, List.lookup_cons]
      split
      · rename_i same
        simp [same]
      · rename_i different
        simpa [different] using inductionHypothesis

end Scope

/-- A list of scopes, each enclosed by the next. -/
abbrev Chain :=
  List Scope

namespace Chain

/-- How many scopes lie between the first and the nearest that binds a name. -/
def resolve?
    (chain : Chain)
    (name : String) :
    Option Nat :=
  chain.findIdx? (·.binds name)

/-- The value that the scope at a distance binds a name to. -/
def valueAt?
    (chain : Chain)
    (distance : Nat)
    (name : String) :
    Option Value :=
  chain[distance]?.bind (·.get? name)

/-- The value of the nearest binding of a name. -/
def get?
    (chain : Chain)
    (name : String) :
    Option Value :=
  (resolve? chain name).bind fun distance => valueAt? chain distance name

/--
Rebind a name where it is bound nearest; a name bound nowhere is not declared.
-/
def assign?
    (chain : Chain)
    (name : String)
    (value : Value) :
    Option Chain :=
  (resolve? chain name).map fun distance =>
    chain.modify distance (·.define name value)

@[simp] theorem resolve?_nil
    (name : String) :
    resolve? [] name = none :=
  rfl

/-- A name is found in the first scope or else further out. -/
theorem resolve?_cons
    (scope : Scope)
    (enclosing : Chain)
    (name : String) :
    resolve? (scope :: enclosing) name =
      if scope.binds name then
        some 0
      else
        (resolve? enclosing name).map (· + 1) :=
  List.findIdx?_cons

@[simp] theorem valueAt?_cons_zero
    (scope : Scope)
    (enclosing : Chain)
    (name : String) :
    valueAt? (scope :: enclosing) 0 name = scope.get? name :=
  rfl

@[simp] theorem valueAt?_cons_succ
    (scope : Scope)
    (enclosing : Chain)
    (distance : Nat)
    (name : String) :
    valueAt? (scope :: enclosing) (distance + 1) name =
      valueAt? enclosing distance name :=
  rfl

@[simp] theorem get?_nil
    (name : String) :
    get? [] name = none :=
  rfl

/-- A look-up takes the value of the first scope, or else one further out. -/
theorem get?_cons
    (scope : Scope)
    (enclosing : Chain)
    (name : String) :
    get? (scope :: enclosing) name =
      (scope.get? name).or (get? enclosing name) := by
  rw [get?, resolve?_cons, scope.binds_eq_isSome_get?]
  rcases bound : scope.get? name with _ | value
  · simp [get?, Option.bind_map, Function.comp_def]
  · simp [bound]

@[simp] theorem assign?_nil
    (name : String)
    (value : Value) :
    assign? [] name value = none :=
  rfl

/--
An assignment goes to the first scope if it binds the name, or else further out.
-/
theorem assign?_cons
    (scope : Scope)
    (enclosing : Chain)
    (name : String)
    (value : Value) :
    assign? (scope :: enclosing) name value =
      if scope.binds name then
        some (scope.define name value :: enclosing)
      else
        (assign? enclosing name value).map (scope :: ·) := by
  rw [assign?, resolve?_cons]
  split
  · rfl
  · rw [assign?, Option.map_map, Option.map_map]
    rfl

/-- Assignment changes no number of scopes. -/
theorem length_of_assign?
    {chain changed : Chain}
    {name : String}
    {value : Value}
    (assigned : assign? chain name value = some changed) :
    changed.length = chain.length := by
  obtain ⟨distance, -, rfl⟩ := Option.map_eq_some_iff.mp assigned
  exact List.length_modify ..

end Chain

end Lox
