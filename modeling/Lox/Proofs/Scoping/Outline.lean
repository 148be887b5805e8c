import Lox.Proofs.Scoping.Distance
import Lox.Proofs.Scoping.Restoration
import Lox.Proofs.Tree.Trail

namespace Lox

/-!
# The outline of an environment

The outline of an environment has the names that each of its scopes binds and
leaves their values out.  Expressions keep the outline.  So do statements that
are no declarations, however they end, provided that declarations stand in lists
only; a declaration adds its name to the active scope.
-/

/-- The names bound in each scope of an environment. -/
structure Outline where
  locals : List (List String)
  globals : List String
  outer : List (List String)
  deriving Repr, DecidableEq

namespace Outline

/-- An outline with a scope opened inside the active one. -/
def enter
    (outline : Outline) :
    Outline :=
  { outline with locals := [] :: outline.locals }

/-- An outline with one more name in the active scope. -/
def declare
    (outline : Outline)
    (name : String) :
    Outline :=
  match outline.locals with
  | [] => { outline with globals := Lox.declare outline.globals name }
  | names :: enclosing =>
      { outline with locals := Lox.declare names name :: enclosing }

/-- An outline behind a statement. -/
def behind
    (outline : Outline)
    (stmt : Stmt) :
    Outline :=
  match stmt.declares? with
  | none => outline
  | some name => outline.declare name

/-- A statement that is no declaration leaves the outline. -/
theorem behind_of_not_declares
    {stmt : Stmt}
    (declares : stmt.declares? = none)
    (outline : Outline) :
    outline.behind stmt = outline := by
  simp [behind, declares]

/-- A declaration in a scope adds to the names of the scope. -/
theorem behind_cons
    (names : List String)
    (enclosing : List (List String))
    (globals : List String)
    (outer : List (List String))
    (stmt : Stmt) :
    behind ⟨names :: enclosing, globals, outer⟩ stmt =
      ⟨declareAll names [.stmt stmt] :: enclosing, globals, outer⟩ := by
  rw [declareAll_singleton, Node.declares?_stmt]
  unfold behind
  rcases stmt.declares? with _ | name
  · rfl
  · rfl

/-- A declaration outside of all local scopes adds to the global names. -/
theorem behind_nil
    (globals : List String)
    (outer : List (List String))
    (stmt : Stmt) :
    behind ⟨[], globals, outer⟩ stmt =
      ⟨[], declareAll globals [.stmt stmt], outer⟩ := by
  rw [declareAll_singleton, Node.declares?_stmt]
  unfold behind
  rcases stmt.declares? with _ | name
  · rfl
  · rfl

end Outline

/-- A scope without names is empty. -/
theorem Scope.eq_empty_of_names
    {scope : Scope}
    (names : scope.names = []) :
    scope = Scope.empty := by
  obtain ⟨bindings⟩ := scope
  exact congrArg Scope.mk (List.map_eq_nil_iff.mp names)

namespace Environment

/-- The outline of an environment. -/
def outline
    (environment : Environment) :
    Outline where
  locals := environment.locals.map Scope.names
  globals := environment.globals.names
  outer := environment.outer.map Scope.names

@[simp] theorem outline_enter
    (environment : Environment) :
    environment.enter.outline = environment.outline.enter :=
  rfl

/-- A definition declares its name in the outline. -/
@[simp] theorem outline_define
    (environment : Environment)
    (name : String)
    (value : Value) :
    (environment.define name value).outline = environment.outline.declare name := by
  obtain ⟨_ | ⟨scope, enclosing⟩, globals, outer⟩ := environment
  · simp [define, outline, Outline.declare, Scope.names_define, declare]
  · simp [define, outline, Outline.declare, Scope.names_define, declare]

/-- Scopes that are rebound have the names that they had. -/
theorem names_of_rebound
    {written : String → Prop}
    {before after : Chain}
    (rebound : List.Forall₂ (Scope.Rebound written) before after) :
    after.map Scope.names = before.map Scope.names := by
  induction rebound with
  | nil =>
      rfl
  | cons head _ inductionHypothesis =>
      simp [head.names, inductionHypothesis]

/-- Binding names again along the chain of scopes keeps the outline. -/
theorem outline_eq_of_rebound
    {written : String → Prop}
    {before after : Environment}
    (nesting : after.locals.length = before.locals.length)
    (rebound : List.Forall₂ (Scope.Rebound written) before.chain after.chain) :
    after.outline = before.outline := by
  have names := names_of_rebound rebound
  simp only [chain, List.map_append, List.map_cons] at names
  obtain ⟨locals, others⟩ := List.append_inj names (by simpa using nesting)
  obtain ⟨globals, outer⟩ := List.cons.inj others
  simp [outline, locals, globals, outer]

/-- An assignment declares nothing. -/
theorem outline_of_assign?
    {environment changed : Environment}
    {name : String}
    {value : Value}
    (assigned : environment.assign? name value = some changed) :
    changed.outline = environment.outline := by
  have alongChain :
      Chain.assign? environment.chain name value = some changed.chain := by
    rw [← map_chain_assign?, assigned]
    rfl
  have writes : (fun other => other = name) name := rfl
  exact outline_eq_of_rebound (length_locals_of_assign? assigned)
    (Chain.rebound_of_assign? writes alongChain)

end Environment

namespace Evaluation

/-- Evaluating an expression declares nothing. -/
theorem outline_eval
    (expr : Expr)
    (environment : Environment) :
    (eval expr environment).2.outline = environment.outline := by
  have kept : KeptByAssignment (fun _ => True)
      fun before after : Environment => after.outline = before.outline :=
    { refl := fun _ => rfl
      trans := fun _ _ _ earlier later => later.trans earlier
      assign := fun _ _ _ _ _ assigned => Environment.outline_of_assign? assigned }
  exact kept.eval (fun _ _ => trivial) environment

/-- An assignment succeeds where its name is resolved. -/
theorem isSome_assign?
    (environment : Environment)
    (name : String)
    (value : Value) :
    (environment.assign? name value).isSome =
      (Chain.resolve? environment.chain name).isSome := by
  rw [← Chain.isSome_assign? environment.chain name value,
    ← environment.map_chain_assign?, Option.isSome_map]

/-- A name that is bound nowhere is not declared by an assignment. -/
theorem store_of_unresolved
    {environment : Environment}
    {name : Token}
    (unresolved : Chain.resolve? environment.chain name.lexeme = none)
    (value : Value) :
    store name value environment =
      (.error ⟨.undefinedVariable, name⟩, environment) := by
  have found := isSome_assign? environment name.lexeme value
  unfold store Environment.assign
  rcases assigned : environment.assign? name.lexeme value with _ | changed
  · rfl
  · simp [assigned, unresolved] at found

/--
An assignment to a bound name rebinds it at its distance and declares nothing.
-/
theorem exists_store_of_resolved
    {environment : Environment}
    {name : Token}
    {distance : Nat}
    (resolved : Chain.resolve? environment.chain name.lexeme = some distance)
    (value : Value) :
    ∃ changed,
      store name value environment = (.ok value, changed) ∧
        Chain.ReboundAt distance name.lexeme value environment.chain changed.chain ∧
        changed.outline = environment.outline := by
  have found := isSome_assign? environment name.lexeme value
  unfold store Environment.assign
  rcases assigned : environment.assign? name.lexeme value with _ | changed
  · simp [assigned, resolved] at found
  · obtain ⟨other, resolvedTo, rebound⟩ := Environment.reboundAt_of_assign? assigned
    obtain rfl := Option.some.inj (resolvedTo.symm.trans resolved)
    exact ⟨changed, rfl, rebound, Environment.outline_of_assign? assigned⟩

namespace State

/-- The names bound in each scope of a state. -/
def outline
    (state : State) :
    Outline :=
  state.environment.outline

@[simp] theorem outline_begin
    (state : State)
    (settings : Settings)
    (nodeClass : NodeClass) :
    (state.begin settings nodeClass).outline = state.outline := by
  simp [outline]

@[simp] theorem outline_openScope
    (state : State) :
    state.openScope.outline = state.outline.enter :=
  rfl

@[simp] theorem outline_enterLoop
    (state : State) :
    state.enterLoop.outline = state.outline :=
  rfl

@[simp] theorem outline_evaluate
    (state : State)
    (expr : Expr) :
    (state.evaluate expr).2.outline = state.outline :=
  outline_eval expr state.environment

/-- An evaluation keeps the outline of the state, whatever comes of it. -/
theorem outline_of_evaluate
    {state afterwards : State}
    {expr : Expr}
    {result : Except RuntimeError Value}
    (outcome : state.evaluate expr = (result, afterwards)) :
    afterwards.outline = state.outline := by
  have same := state.outline_evaluate expr
  rw [outcome] at same
  exact same

end State

end Evaluation

end Lox
