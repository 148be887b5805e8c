import Mathlib.Data.List.Forall2
import Lox.Environment

namespace Lox

/-!
# Environments with the same scopes

Two environments have the same scopes if one arises from the other by rebinding
names and by defining names in the active scope.  Position by position each scope
then still holds the names it held, in their order, and only the active scope may
hold more of them.  A name that nobody wrote keeps its value in every scope, so
that a scope can be told by a name that it alone binds.
-/

/-- A scope after some of its names were bound again. -/
structure Scope.Rebound
    (written : String → Prop)
    (before after : Scope) :
    Prop where
  names : after.names = before.names
  unwritten : ∀ ⦃name⦄, ¬ written name → after.get? name = before.get? name

/--
A scope after some of its names were bound again and others for the first time.
-/
structure Scope.Extended
    (written : String → Prop)
    (before after : Scope) :
    Prop where
  names : before.names <+: after.names
  unwritten : ∀ ⦃name⦄, ¬ written name → after.get? name = before.get? name

/-- The scopes around the active one. -/
def Environment.enclosing
    (environment : Environment) :
    Chain :=
  environment.chain.tail

/--
An environment with the same scopes, of which the active one may bind more names.
-/
structure Environment.SameScopes
    (written : String → Prop)
    (before after : Environment) :
    Prop where
  nesting : after.locals.length = before.locals.length
  active : Scope.Extended written before.active after.active
  enclosing : List.Forall₂ (Scope.Rebound written) before.enclosing after.enclosing

variable {written : String → Prop}

namespace Scope

theorem Rebound.refl
    (scope : Scope) :
    Rebound written scope scope :=
  ⟨rfl, fun _ _ => rfl⟩

/-- Scopes that are rebound again are rebound from the beginning. -/
theorem Rebound.trans
    {first second third : Scope}
    (earlier : Rebound written first second)
    (later : Rebound written second third) :
    Rebound written first third := by
  constructor
  · exact later.names.trans earlier.names
  · intro name unwritten
    exact (later.unwritten unwritten).trans (earlier.unwritten unwritten)

/-- A scope that is rebound is extended, by no name. -/
theorem Rebound.extended
    {before after : Scope}
    (rebound : Rebound written before after) :
    Extended written before after :=
  ⟨rebound.names ▸ List.prefix_rfl, rebound.unwritten⟩

/-- Scopes that are extended again are extended from the beginning. -/
theorem Extended.trans
    {first second third : Scope}
    (earlier : Extended written first second)
    (later : Extended written second third) :
    Extended written first third := by
  constructor
  · exact earlier.names.trans later.names
  · intro name unwritten
    exact (later.unwritten unwritten).trans (earlier.unwritten unwritten)

/--
A definition of a written name keeps the values of names that are not written.
-/
theorem get?_define_unwritten
    (scope : Scope)
    {name other : String}
    (value : Value)
    (writes : written name)
    (unwritten : ¬ written other) :
    (scope.define name value).get? other = scope.get? other := by
  have different : other ≠ name := by
    rintro rfl
    exact unwritten writes
  exact scope.get?_define_other different value

/-- Defining a name that is bound already binds it again. -/
theorem rebound_define
    {scope : Scope}
    {name : String}
    (value : Value)
    (bound : scope.binds name = true)
    (writes : written name) :
    Rebound written scope (scope.define name value) := by
  have member : name ∈ scope.names := by
    simpa [binds] using bound
  constructor
  · rw [names_define, if_pos member]
  · intro other
    exact scope.get?_define_unwritten value writes

/-- A definition of a written name extends the scope. -/
theorem extended_define
    (scope : Scope)
    {name : String}
    (value : Value)
    (writes : written name) :
    Extended written scope (scope.define name value) := by
  constructor
  · rw [names_define]
    split
    · exact List.prefix_rfl
    · exact List.prefix_append _ _
  · intro other
    exact scope.get?_define_unwritten value writes

end Scope

namespace Chain

theorem rebound_refl
    (chain : Chain) :
    List.Forall₂ (Scope.Rebound written) chain chain :=
  List.forall₂_same.mpr fun scope _ => Scope.Rebound.refl scope

/-- Chains that are rebound again are rebound from the beginning. -/
theorem rebound_trans
    {first second third : Chain}
    (earlier : List.Forall₂ (Scope.Rebound written) first second)
    (later : List.Forall₂ (Scope.Rebound written) second third) :
    List.Forall₂ (Scope.Rebound written) first third := by
  induction earlier generalizing third with
  | nil =>
      exact later
  | cons head _ inductionHypothesis =>
      rcases later with _ | ⟨laterHead, laterTail⟩
      exact .cons (head.trans laterHead) (inductionHypothesis laterTail)

/-- Assignment binds a name again in one scope and leaves the others alone. -/
theorem rebound_of_assign?
    {chain changed : Chain}
    {name : String}
    {value : Value}
    (writes : written name)
    (assigned : assign? chain name value = some changed) :
    List.Forall₂ (Scope.Rebound written) chain changed := by
  induction chain generalizing changed with
  | nil =>
      cases assigned
  | cons scope enclosing inductionHypothesis =>
      by_cases bound : scope.binds name = true
      · simp only [assign?_cons, bound, ↓reduceIte, Option.some.injEq] at assigned
        subst assigned
        exact .cons (Scope.rebound_define value bound writes)
          (rebound_refl enclosing)
      · simp only [assign?_cons, bound, Bool.false_eq_true, ↓reduceIte,
          Option.map_eq_some_iff] at assigned
        obtain ⟨rest, restAssigned, rfl⟩ := assigned
        exact .cons (Scope.Rebound.refl scope) (inductionHypothesis restAssigned)

/-- Assignment finds a binding wherever a look-up does. -/
theorem isSome_assign?
    (chain : Chain)
    (name : String)
    (value : Value) :
    (assign? chain name value).isSome = (resolve? chain name).isSome :=
  Option.isSome_map

/-- A name has a value along a chain wherever a look-up finds it. -/
theorem get?_eq_none_iff
    {chain : Chain}
    {name : String} :
    get? chain name = none ↔ resolve? chain name = none := by
  induction chain with
  | nil =>
      simp
  | cons scope enclosing inductionHypothesis =>
      rw [get?_cons, resolve?_cons, scope.binds_eq_isSome_get?]
      rcases scope.get? name with _ | value
      · simpa using inductionHypothesis
      · simp

/--
A look-up along two chains goes on to the second if the first binds no such name.
-/
theorem get?_append
    (inner outer : Chain)
    (name : String) :
    get? (inner ++ outer) name = (get? inner name).or (get? outer name) := by
  induction inner with
  | nil =>
      simp
  | cons scope enclosing inductionHypothesis =>
      rw [List.cons_append, get?_cons, get?_cons,
        inductionHypothesis, Option.or_assoc]

/-- So does an assignment. -/
theorem assign?_append
    (inner outer : Chain)
    (name : String)
    (value : Value) :
    assign? (inner ++ outer) name value =
      match assign? inner name value with
      | some changed => some (changed ++ outer)
      | none => (assign? outer name value).map (inner ++ ·) := by
  induction inner with
  | nil =>
      simp
  | cons scope enclosing inductionHypothesis =>
      by_cases bound : scope.binds name = true
      · simp [assign?_cons, bound]
      · simp only [List.cons_append, assign?_cons, bound, Bool.false_eq_true,
          ↓reduceIte, inductionHypothesis]
        rcases assign? enclosing name value with _ | changed
        · simp [Function.comp_def]
        · rfl

end Chain

namespace Environment

/-- Of the scopes in force, a definition changes the active one. -/
@[simp] theorem active_define
    (environment : Environment)
    (name : String)
    (value : Value) :
    (environment.define name value).active =
      environment.active.define name value := by
  unfold define active
  split <;> simp_all

/-- A definition does not change the scopes around the active one. -/
@[simp] theorem enclosing_define
    (environment : Environment)
    (name : String)
    (value : Value) :
    (environment.define name value).enclosing = environment.enclosing := by
  unfold define enclosing chain
  split <;> simp_all

/-- The chain of an environment starts with the active scope. -/
theorem chain_eq_active_cons
    (environment : Environment) :
    environment.chain = environment.active :: environment.enclosing := by
  obtain ⟨_ | ⟨scope, rest⟩, globals, outer⟩ := environment <;> rfl

/-- Assignment in an environment is assignment along its chain of scopes. -/
theorem map_chain_assign?
    (environment : Environment)
    (name : String)
    (value : Value) :
    (environment.assign? name value).map chain =
      Chain.assign? environment.chain name value := by
  unfold assign? chain
  rw [Chain.assign?_append]
  rcases Chain.assign? environment.locals name value with _ | locals
  · by_cases bound : environment.globals.binds name = true
    · simp [Chain.assign?_cons, bound]
    · simp only [Chain.assign?_cons, bound, Bool.false_eq_true, ↓reduceIte,
        Option.map_map]
      rfl
  · rfl

/-- An assignment keeps the number of local scopes. -/
theorem length_locals_of_assign?
    {environment changed : Environment}
    {name : String}
    {value : Value}
    (assigned : environment.assign? name value = some changed) :
    changed.locals.length = environment.locals.length := by
  unfold assign? at assigned
  rcases inLocals : Chain.assign? environment.locals name value with _ | locals
  · simp only [inLocals] at assigned
    split at assigned
    · cases assigned
      rfl
    · obtain ⟨outer, -, rfl⟩ := Option.map_eq_some_iff.mp assigned
      rfl
  · simp only [inLocals, Option.some.injEq] at assigned
    subst assigned
    exact Chain.length_of_assign? inLocals

/--
Environments with chains that were rebound scope by scope have the same scopes.
-/
theorem SameScopes.of_rebound
    {before after : Environment}
    (nesting : after.locals.length = before.locals.length)
    (rebound : List.Forall₂ (Scope.Rebound written) before.chain after.chain) :
    SameScopes written before after := by
  rw [chain_eq_active_cons, chain_eq_active_cons] at rebound
  obtain ⟨active, enclosing⟩ := List.forall₂_cons.mp rebound
  exact ⟨nesting, active.extended, enclosing⟩

theorem SameScopes.refl
    (environment : Environment) :
    SameScopes written environment environment :=
  .of_rebound rfl (Chain.rebound_refl _)

/-- Scopes that stay the same in two steps do so in one. -/
theorem SameScopes.trans
    {first second third : Environment}
    (earlier : SameScopes written first second)
    (later : SameScopes written second third) :
    SameScopes written first third := by
  constructor
  · exact later.nesting.trans earlier.nesting
  · exact earlier.active.trans later.active
  · exact Chain.rebound_trans earlier.enclosing later.enclosing

/-- A definition of a written name extends the active scope and no other. -/
theorem SameScopes.define
    (environment : Environment)
    {name : String}
    (value : Value)
    (writes : written name) :
    SameScopes written environment (environment.define name value) := by
  constructor
  · exact length_locals_define environment name value
  · rw [active_define]
    exact environment.active.extended_define value writes
  · rw [enclosing_define]
    exact Chain.rebound_refl _

/-- An assignment of a written name rebinds it and keeps the scopes. -/
theorem SameScopes.assign
    {environment changed : Environment}
    {name : String}
    {value : Value}
    (writes : written name)
    (assigned : environment.assign? name value = some changed) :
    SameScopes written environment changed := by
  have alongChain :
      Chain.assign? environment.chain name value = some changed.chain := by
    rw [← map_chain_assign?, assigned]
    rfl
  exact .of_rebound (length_locals_of_assign? assigned)
    (Chain.rebound_of_assign? writes alongChain)

/--
Once a scope opened in an environment is
closed, no scope has more names than before.
-/
theorem SameScopes.rebound_leave
    {before after : Environment}
    (inside : SameScopes written before.enter after) :
    after.leave.locals.length = before.locals.length ∧
      List.Forall₂ (Scope.Rebound written) before.chain after.leave.chain := by
  obtain ⟨_ | ⟨scope, rest⟩, globals, outer⟩ := after
  · have nesting := inside.nesting
    simp [enter] at nesting
  · constructor
    · simpa [enter, Environment.leave] using inside.nesting
    · exact inside.enclosing

/-- A scope that was entered can be left as if nothing had been declared in it. -/
theorem SameScopes.leave
    {before after : Environment}
    (inside : SameScopes written before.enter after) :
    SameScopes written before after.leave := by
  obtain ⟨nesting, rebound⟩ := inside.rebound_leave
  exact .of_rebound nesting rebound

end Environment

end Lox
