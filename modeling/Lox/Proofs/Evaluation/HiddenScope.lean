import Lox.Proofs.Evaluation.Simulation
import Lox.Proofs.Scoping.SameScopes

namespace Lox

/-!
# A scope that holds nothing

An empty scope among the local scopes hides no name and takes no
assignment.  So a statement that declares nothing in it runs as if the
scope were not there, and leaves it empty.
-/

/-- An environment that has an empty scope more, behind so many local scopes. -/
inductive Environment.Padded : Nat → Environment → Environment → Prop where
  | mk
      {inner enclosing outer : List Scope}
      {globals : Scope} :
      Padded inner.length ⟨inner ++ enclosing, globals, outer⟩
        ⟨inner ++ Scope.empty :: enclosing, globals, outer⟩

namespace Chain

@[simp] theorem get?_empty_cons
    (enclosing : Chain)
    (name : String) :
    get? (Scope.empty :: enclosing) name = get? enclosing name := by
  simp [get?_cons]

@[simp] theorem assign?_empty_cons
    (enclosing : Chain)
    (name : String)
    (value : Value) :
    assign? (Scope.empty :: enclosing) name value =
      (assign? enclosing name value).map (Scope.empty :: ·) := by
  simp [assign?_cons, Scope.binds]

end Chain

namespace Environment

variable {level : Nat} {environment padded : Environment}

/-- A scope that was just entered is padding. -/
theorem padded_enter
    (environment : Environment) :
    Padded 0 environment environment.enter := by
  obtain ⟨locals, globals, outer⟩ := environment
  exact @Padded.mk [] locals outer globals

/-- Leaving the padding leaves the environment without it. -/
theorem Padded.leave_eq
    (pads : Padded 0 environment padded) :
    padded.leave = environment := by
  generalize noInner : 0 = level at pads
  obtain @⟨inner, enclosing, outer, globals⟩ := pads
  rw [List.eq_nil_of_length_eq_zero noInner.symm]
  rfl

/-- Padding stays at its place when a scope is entered inside it. -/
theorem Padded.enter
    (pads : Padded level environment padded) :
    Padded (level + 1) environment.enter padded.enter := by
  obtain @⟨inner, enclosing, outer, globals⟩ := pads
  exact @Padded.mk (Scope.empty :: inner) enclosing outer globals

/-- Padding stays at its place when a scope inside it is left. -/
theorem Padded.leave
    (pads : Padded (level + 1) environment padded) :
    Padded level environment.leave padded.leave := by
  generalize more : level + 1 = deeper at pads
  obtain @⟨inner, enclosing, outer, globals⟩ := pads
  cases inner with
  | nil => cases more
  | cons scope inner =>
      obtain rfl : level = inner.length := Nat.succ.inj more
      exact .mk

/-- A name is not defined in the empty scope where a deeper one is active. -/
theorem Padded.define
    (pads : Padded level environment padded)
    (deep : 0 < level)
    (name : String)
    (value : Value) :
    Padded level (environment.define name value) (padded.define name value) := by
  obtain @⟨inner, enclosing, outer, globals⟩ := pads
  cases inner with
  | nil => cases deep
  | cons scope inner =>
      exact @Padded.mk (scope.define name value :: inner) enclosing outer globals

/-- No look-up finds anything in the padding. -/
theorem Padded.get?_chain
    (pads : Padded level environment padded)
    (name : String) :
    Chain.get? padded.chain name = Chain.get? environment.chain name := by
  obtain @⟨inner, enclosing, outer, globals⟩ := pads
  simp [chain, Chain.get?_append]

/-- An assignment goes to the same binding, which is not in the empty scope. -/
theorem Padded.assign?
    (pads : Padded level environment padded)
    (name : String)
    (value : Value) :
    Option.Rel (Padded level) (environment.assign? name value)
      (padded.assign? name value) := by
  obtain @⟨inner, enclosing, outer, globals⟩ := pads
  unfold Environment.assign?
  simp only [Chain.assign?_append, Chain.assign?_empty_cons]
  rcases inInner : Chain.assign? inner name value with _ | inner'
  · rcases Chain.assign? enclosing name value with _ | enclosing'
    · by_cases bound : globals.binds name = true
      · simp only [bound, Option.map_none, ↓reduceIte]
        exact .some .mk
      · simp only [bound, Option.map_none]
        rcases Chain.assign? outer name value with _ | outer'
        · exact .none
        · exact .some .mk
    · exact .some .mk
  · rw [← Chain.length_of_assign? inInner]
    exact .some .mk

end Environment

namespace Evaluation

/--
Statements that declare only in blocks of
their own do not come upon the empty scope.
-/
theorem simulation_padded
    {logs : List Event → List Event → Prop}
    (recorded :
      ∀ ⦃log other⦄ event, logs log other → logs (event :: log) (event :: other)) :
    Simulation .same (0 < ·) Environment.Padded logs where
  kinds := Correspondence.faithful_same.kind
  sameValues level := by
    apply SameValues.of_faithful Correspondence.faithful_same
    · intro environment padded pads name
      exact pads.get?_chain name
    · intro environment padded pads name value
      exact pads.assign? name value
  defined := by
    intro level environment padded name name' deep pads named value
    rw [Correspondence.faithful_same.lexeme named]
    exact pads.define deep name.lexeme value
  entered := by
    intro level environment padded pads
    exact pads.enter
  left := by
    intro level environment padded pads
    exact pads.leave
  recorded := recorded

end Evaluation

end Lox
