import Mathlib.Data.List.Nodup
import Lox.Scope.Forest
import Lox.Proofs.Scoping.SameScopes

namespace Lox

/-!
# What definitions, assignments and look-ups do in a forest

Scopes share the scopes around them, so that one binding is seen along many chains
and hidden on others by a nearer binding of the same name.  Main statement: in every
forest that requests have built, a definition or an assignment changes one entry of
one scope, and it is seen by exactly the look-ups that reach that scope first.
-/

/-- One name of a scope has another value and the place it had. -/
def Scope.ReplacedIn
    (name : String)
    (value : Value)
    (before after : Scope) :
    Prop :=
  ∃ earlier old later,
    before.bindings = earlier ++ (name, old) :: later ∧
      after.bindings = earlier ++ (name, value) :: later ∧
      ∀ binding ∈ earlier ++ later, binding.1 ≠ name

/-- A scope has one name more, behind all others. -/
def Scope.AddedTo
    (name : String)
    (value : Value)
    (before after : Scope) :
    Prop :=
  before.binds name = false ∧ after.bindings = before.bindings ++ [(name, value)]

namespace Scope

theorem mem_names_of_mem
    {scope : Scope}
    {binding : String × Value}
    (member : binding ∈ scope.bindings) :
    binding.1 ∈ scope.names :=
  List.mem_map_of_mem member

/-- Where no earlier binding has the name, it is bound behind them. -/
theorem bindName_append
    {name : String}
    {earlier : List (String × Value)}
    (unbound : ∀ binding ∈ earlier, binding.1 ≠ name)
    (value : Value)
    (later : List (String × Value)) :
    bindName name value (earlier ++ later) =
      earlier ++ bindName name value later := by
  induction earlier with
  | nil => rfl
  | cons binding rest inductionHypothesis =>
      obtain ⟨different, restUnbound⟩ := List.forall_mem_cons.mp unbound
      simp [bindName, different, inductionHypothesis restUnbound]

/-- Defining a name that a scope does not bind adds a binding at the end. -/
theorem addedTo_define
    {scope : Scope}
    {name : String}
    (unbound : scope.binds name = false)
    (value : Value) :
    AddedTo name value scope (scope.define name value) := by
  have others : ∀ binding ∈ scope.bindings, binding.1 ≠ name := by
    rintro binding member rfl
    simp [binds, mem_names_of_mem member] at unbound
  have atEnd := bindName_append others value []
  rw [List.append_nil] at atEnd
  exact ⟨unbound, atEnd⟩

/-- Defining a name that a scope binds replaces its value where it stands. -/
theorem replacedIn_define
    {scope : Scope}
    {name : String}
    (distinct : scope.names.Nodup)
    (bound : scope.binds name = true)
    (value : Value) :
    ReplacedIn name value scope (scope.define name value) := by
  have member : name ∈ scope.names := by
    simpa [binds] using bound
  obtain ⟨⟨key, old⟩, inBindings, rfl⟩ := List.mem_map.mp member
  obtain ⟨earlier, later, shape⟩ := List.append_of_mem inBindings
  have absent : key ∉ (earlier ++ later).map Prod.fst := by
    simp only [names, shape, List.map_append, List.map_cons] at distinct
    rw [List.map_append]
    exact (List.nodup_middle.mp distinct).notMem
  have others : ∀ binding ∈ earlier ++ later, binding.1 ≠ key := by
    rintro binding inRest rfl
    exact absent (List.mem_map_of_mem inRest)
  refine ⟨earlier, old, later, shape, ?_, others⟩
  have unbound := fun binding inEarlier =>
    others binding (List.mem_append_left later inEarlier)
  simp [define, shape, bindName_append unbound, bindName]

/-- The names of a scope stay distinct when one is defined. -/
theorem nodup_names_define
    {scope : Scope}
    (distinct : scope.names.Nodup)
    (name : String)
    (value : Value) :
    (scope.define name value).names.Nodup := by
  rw [names_define]
  split
  · exact distinct
  · rename_i unbound
    exact List.nodup_middle.mpr (by simpa using ⟨unbound, distinct⟩)

end Scope

namespace Chain

/-- Along a list of scopes the first that binds a name gives the name its value. -/
theorem get?_map
    (scopes : Nat → Scope)
    (path : List Nat)
    (name : String) :
    get? (path.map scopes) name =
      (path.find? fun index => (scopes index).binds name).bind fun holder =>
        (scopes holder).get? name := by
  induction path with
  | nil => rfl
  | cons index rest inductionHypothesis =>
      have isBound := (scopes index).binds_eq_isSome_get? name
      rcases bound : (scopes index).get? name with _ | value <;>
        simp_all [get?_cons]

/--
A look-up along a path sees no more of the scopes than their values for the name.
-/
theorem get?_map_congr
    {scopes changed : Nat → Scope}
    {path : List Nat}
    {name : String}
    (same : ∀ index ∈ path, (changed index).get? name = (scopes index).get? name) :
    get? (path.map changed) name = get? (path.map scopes) name := by
  induction path with
  | nil => rfl
  | cons index rest inductionHypothesis =>
      obtain ⟨here, further⟩ := List.forall_mem_cons.mp same
      simp only [List.map_cons, get?_cons, here, inductionHypothesis further]

/-- A look-up along a path fails where no scope on the path binds the name. -/
theorem get?_map_eq_none_iff
    {scopes : Nat → Scope}
    {path : List Nat}
    {name : String} :
    get? (path.map scopes) name = none ↔
      ∀ index ∈ path, (scopes index).binds name = false := by
  simp [get?_eq_none_iff, resolve?, List.findIdx?_eq_none_iff]

end Chain

namespace Forest

/-- The scopes that a look-up goes along. -/
def chain
    (forest : Forest)
    (index : Nat) :
    Chain :=
  (forest.path index).map forest.scopeAt

/-- The chain from a scope comes to another one before any that binds the name. -/
def ReachesFirst
    (forest : Forest)
    (index : Nat)
    (name : String)
    (holder : Nat) :
    Prop :=
  ∃ nearer farther,
    forest.path index = nearer ++ holder :: farther ∧
      ∀ between ∈ nearer, (forest.scopeAt between).binds name = false

/-- The nearest scope on a chain that binds a name. -/
def ResolvesTo
    (forest : Forest)
    (index : Nat)
    (name : String)
    (holder : Nat) :
    Prop :=
  (forest.scopeAt holder).binds name = true ∧ forest.ReachesFirst index name holder

/-- What may be asked of a forest. -/
inductive Request where
  /-- A new scope inside another, or inside none. -/
  | extend (parent : Option Nat)
  | define (index : Nat) (name : String) (value : Value)
  | assign (index : Nat) (name : Token) (value : Value)
  | read (index : Nat) (name : Token)

/-- The forest behind a request; one that fails leaves the forest as it is. -/
def perform
    (forest : Forest) :
    Request → Forest
  | .extend parent => forest.extend parent
  | .define index name value => forest.define index name value
  | .assign index name value =>
      match forest.assign index name value with
      | .ok changed => changed
      | .error _ => forest
  | .read _ _ => forest

/-- The forest that requests build, one after the other. -/
def build
    (requests : List Request) :
    Forest :=
  requests.foldl perform single

/-- A scope has another value for a name, and some look-ups of the name reach it. -/
structure Writes
    (index : Nat)
    (name : String)
    (value : Value)
    (seenFrom : Nat → Prop)
    (before after : Forest) :
    Prop where
  size : after.length = before.length
  /-- No scope is inside another one than before. -/
  path : ∀ other, after.path other = before.path other
  elsewhere : ∀ other, other ≠ index → after.scopeAt other = before.scopeAt other
  seen :
    ∀ other (query : Token), query.lexeme = name → seenFrom other →
      after.valueOf other query = reading query value
  unseen :
    ∀ other (query : Token), ¬ (query.lexeme = name ∧ seenFrom other) →
      after.valueOf other query = before.valueOf other query

/-- A forest as requests build it. -/
structure Grown
    (forest : Forest) :
    Prop where
  /-- Each scope stands alone or right inside a scope that is older. -/
  enclosed :
    ∀ index < forest.length,
      forest.path index = [index] ∨
        ∃ parent < index, forest.path index = index :: forest.path parent
  /-- No scope binds a name twice. -/
  distinct : ∀ index, (forest.scopeAt index).names.Nodup

/-- What assignments and definitions do in a forest. -/
structure WriteLaws
    (forest : Forest) :
    Prop where
  assigns_iff :
    ∀ index (name : Token) value,
      (∃ changed, forest.assign index name value = .ok changed) ↔
        forest.isDefined index name.lexeme = true
  /-- An assignment is seen from the scopes that find the name in the same scope. -/
  assigned :
    ∀ index (name : Token) value changed,
      forest.assign index name value = .ok changed →
        ∃ holder, forest.ResolvesTo index name.lexeme holder ∧
          Scope.ReplacedIn name.lexeme value
            (forest.scopeAt holder) (changed.scopeAt holder) ∧
          Writes holder name.lexeme value
            (forest.ResolvesTo · name.lexeme holder) forest changed
  refused :
    ∀ index (name : Token) value error,
      forest.assign index name value = .error error →
        error.kind = .undefinedVariable ∧ error.token = name ∧
          error.line = name.line ∧
          forest.perform (.assign index name value) = forest
  /--
  A definition is seen from the scopes that
  come to its scope before another binding.
  -/
  defined :
    ∀ index < forest.length, ∀ name value,
      (Scope.ReplacedIn name value
          (forest.scopeAt index) ((forest.define index name value).scopeAt index) ∨
        Scope.AddedTo name value
          (forest.scopeAt index) ((forest.define index name value).scopeAt index)) ∧
      Writes index name value
        (forest.ReachesFirst · name index) forest (forest.define index name value)

/-- What look-ups do in a forest. -/
structure ReadLaws
    (forest : Forest) :
    Prop where
  isDefined_iff :
    ∀ index name,
      forest.isDefined index name = true ↔
        ∃ holder, forest.ResolvesTo index name holder
  value_iff :
    ∀ index (name : Token) value,
      forest.valueOf index name = .ok value ↔
        value ≠ .nil ∧ ∃ holder, forest.ResolvesTo index name.lexeme holder ∧
          (forest.scopeAt holder).get? name.lexeme = some value
  undefined_iff :
    ∀ index (name : Token),
      (∃ error, forest.valueOf index name = .error error ∧
        error.kind = .undefinedVariable) ↔
        forest.isDefined index name.lexeme = false
  nilAccess_iff :
    ∀ index (name : Token),
      (∃ error, forest.valueOf index name = .error error ∧
        error.kind = .nilAccess) ↔
        ∃ holder, forest.ResolvesTo index name.lexeme holder ∧
          (forest.scopeAt holder).get? name.lexeme = some .nil
  blamed :
    ∀ index (name : Token) error,
      forest.valueOf index name = .error error → error.token = name
  unchanged :
    ∀ index (name : Token), forest.perform (.read index name) = forest

/-- An environment along the chain of a scope does what the forest does. -/
structure Mirrors
    (forest : Forest)
    (index : Nat)
    (environment : Environment) :
    Prop where
  valueOf : ∀ name, environment.valueOf name = forest.valueOf index name
  define :
    ∀ name value,
      (environment.define name value).chain =
        (forest.define index name value).chain index
  assign :
    ∀ name value,
      (environment.assign name value).map Environment.chain =
        (forest.assign index name value).map (·.chain index)
  enter :
    environment.enter.chain = (forest.extend (some index)).chain forest.length
  leave :
    environment.locals ≠ [] →
      ∃ parent < index,
        forest.path index = index :: forest.path parent ∧
          environment.leave.chain = forest.chain parent

/-- The laws of a forest. -/
structure Laws
    (forest : Forest) :
    Prop where
  grown : Grown forest
  writes : WriteLaws forest
  reads : ReadLaws forest
  /-- So do the environments that statements run in: one stands along each chain. -/
  environments :
    ∀ index < forest.length,
      (∃ environment : Environment, environment.chain = forest.chain index) ∧
        ∀ environment : Environment,
          environment.chain = forest.chain index → Mirrors forest index environment

/-- There is no path from outside of the forest. -/
theorem path_of_length_le
    {forest : Forest}
    {index : Nat}
    (outside : forest.length ≤ index) :
    forest.path index = [] := by
  simp [path, List.getElem?_eq_none outside]

/-- A definition changes no path. -/
@[simp] theorem path_define
    (forest : Forest)
    (index : Nat)
    (name : String)
    (value : Value)
    (other : Nat) :
    (forest.define index name value).path other = forest.path other := by
  simp only [path, define, List.getElem?_modify]
  rcases forest[other]? with _ | branch
  · rfl
  · by_cases same : index = other <;> simp [same]

/-- A definition is made in the scope that it is asked for. -/
@[simp] theorem scopeAt_define_same
    {forest : Forest}
    {index : Nat}
    (inside : index < forest.length)
    (name : String)
    (value : Value) :
    (forest.define index name value).scopeAt index =
      (forest.scopeAt index).define name value := by
  simp [scopeAt, define, inside]

/-- A definition leaves all other scopes alone. -/
theorem scopeAt_define_other
    (forest : Forest)
    {index other : Nat}
    (different : other ≠ index)
    (name : String)
    (value : Value) :
    (forest.define index name value).scopeAt other = forest.scopeAt other := by
  simp [scopeAt, define, different.symm]

/-- The paths of a forest stay as they are when a scope is added. -/
theorem path_extend_of_lt
    {forest : Forest}
    {index : Nat}
    (inside : index < forest.length)
    (parent : Option Nat) :
    (forest.extend parent).path index = forest.path index := by
  simp [path, extend, List.getElem?_append_left inside]

/-- The path of a scope that is added goes on with that of its parent. -/
theorem path_extend_length
    (forest : Forest)
    (parent : Option Nat) :
    (forest.extend parent).path forest.length =
      forest.length :: (parent.map forest.path).getD [] := by
  cases parent <;> simp [path, extend]

/-- A scope that is added is empty, and the others stay as they are. -/
theorem scopeAt_extend
    (forest : Forest)
    (parent : Option Nat)
    (index : Nat) :
    (forest.extend parent).scopeAt index = forest.scopeAt index := by
  unfold scopeAt extend
  rcases Nat.lt_trichotomy index forest.length with inside | rfl | outside
  · rw [List.getElem?_append_left inside]
  · simp
  · have behind : forest.length + 1 ≤ index := outside
    rw [List.getElem?_eq_none (by simpa using behind),
      List.getElem?_eq_none (Nat.le_of_lt outside)]

/-- The forest of one empty scope is grown. -/
theorem grown_single :
    Grown single := by
  constructor
  · intro index inside
    have first : index = 0 := Nat.lt_one_iff.mp inside
    subst first
    exact .inl rfl
  · intro index
    cases index <;> simp [scopeAt, single]

/-- A forest stays grown when a scope is added. -/
theorem Grown.extend
    {forest : Forest}
    (grown : Grown forest)
    (parent : Option Nat) :
    Grown (forest.extend parent) := by
  constructor
  · intro index inside
    have atMost : index ≤ forest.length := by
      simpa [Forest.extend, Nat.lt_succ_iff] using inside
    rcases Nat.lt_or_eq_of_le atMost with older | rfl
    · rw [path_extend_of_lt older]
      rcases grown.enclosed index older with alone | ⟨around, before, shape⟩
      · exact .inl alone
      · rw [← path_extend_of_lt (Nat.lt_trans before older) parent] at shape
        exact .inr ⟨around, before, shape⟩
    · rw [path_extend_length]
      rcases parent with _ | around
      · exact .inl rfl
      · rcases Nat.lt_or_ge around forest.length with older | outside
        · exact .inr ⟨around, older, by rw [path_extend_of_lt older]; rfl⟩
        · simp [path_of_length_le outside]
  · intro index
    rw [scopeAt_extend]
    exact grown.distinct index

/-- Outside of the forest nothing is defined. -/
theorem define_of_length_le
    {forest : Forest}
    {index : Nat}
    (outside : forest.length ≤ index)
    (name : String)
    (value : Value) :
    forest.define index name value = forest :=
  List.modify_eq_self outside

/-- A forest stays grown when a name is defined. -/
theorem Grown.define
    {forest : Forest}
    (grown : Grown forest)
    (index : Nat)
    (name : String)
    (value : Value) :
    Grown (forest.define index name value) := by
  rcases Nat.lt_or_ge index forest.length with inside | outside
  · constructor
    · intro other older
      rw [length_define] at older
      simp only [path_define]
      exact grown.enclosed other older
    · intro other
      by_cases same : other = index
      · subst same
        rw [scopeAt_define_same inside]
        exact Scope.nodup_names_define (grown.distinct other) name value
      · rw [scopeAt_define_other forest same]
        exact grown.distinct other
  · rw [define_of_length_le outside]
    exact grown

/-- A forest stays grown with every request. -/
theorem Grown.perform
    {forest : Forest}
    (grown : Grown forest)
    (request : Request) :
    Grown (forest.perform request) := by
  cases request with
  | extend parent =>
      exact grown.extend parent
  | define index name value =>
      exact grown.define index name value
  | assign index name value =>
      simp only [Forest.perform, assign]
      rcases forest.resolve? index name.lexeme with _ | holder
      · exact grown
      · exact grown.define holder name.lexeme value
  | read index name =>
      exact grown

/-- Whatever is asked of it, a forest grows as forests do. -/
theorem grown_build
    (requests : List Request) :
    Grown (build requests) := by
  have fromGrown :
      ∀ forest, Grown forest → Grown (requests.foldl Forest.perform forest) := by
    induction requests with
    | nil => exact fun forest grown => grown
    | cons request later inductionHypothesis =>
        exact fun forest grown => inductionHypothesis _ (grown.perform request)
  exact fromGrown single grown_single

/-- Along a path each scope is older than the ones before it. -/
theorem Grown.pairwise_path
    {forest : Forest}
    (grown : Grown forest)
    (index : Nat) :
    (forest.path index).Pairwise (· > ·) ∧
      ∀ other ∈ forest.path index, other ≤ index := by
  induction index using Nat.strongRecOn with
  | ind index inductionHypothesis =>
      rcases Nat.lt_or_ge index forest.length with inside | outside
      · rcases grown.enclosed index inside with alone | ⟨parent, older, shape⟩
        · simp [alone]
        · obtain ⟨ordered, bounded⟩ := inductionHypothesis parent older
          have below : ∀ other ∈ forest.path parent, other < index :=
            fun other member =>
            Nat.lt_of_le_of_lt (bounded other member) older
          rw [shape]
          refine ⟨List.pairwise_cons.mpr ⟨below, ordered⟩, ?_⟩
          rintro other (_ | ⟨_, member⟩)
          · exact Nat.le_refl index
          · exact Nat.le_of_lt (below other member)
      · simp [path_of_length_le outside]

/-- A path meets no scope twice. -/
theorem Grown.nodup_path
    {forest : Forest}
    (grown : Grown forest)
    (index : Nat) :
    (forest.path index).Nodup :=
  (grown.pairwise_path index).1.imp Nat.ne_of_gt

theorem lt_length_of_binds
    {forest : Forest}
    {index : Nat}
    {name : String}
    (bound : (forest.scopeAt index).binds name = true) :
    index < forest.length := by
  by_contra outside
  simp [scopeAt, List.getElem?_eq_none (Nat.le_of_not_lt outside),
    Scope.binds] at bound

/-- A name is resolved to the first scope on the path that binds it. -/
theorem resolve?_eq_some_iff
    {forest : Forest}
    {index holder : Nat}
    {name : String} :
    forest.resolve? index name = some holder ↔
      forest.ResolvesTo index name holder := by
  simp [resolve?, ResolvesTo, ReachesFirst, List.find?_eq_some_iff_append]

/-- A name is defined where it is resolved to some scope. -/
theorem isDefined_iff
    {forest : Forest}
    {index : Nat}
    {name : String} :
    forest.isDefined index name = true ↔
      ∃ holder, forest.ResolvesTo index name holder := by
  simp only [isDefined, Option.isSome_iff_exists, resolve?_eq_some_iff]

/-- A look-up goes along the chain and takes the value of the first binding. -/
theorem valueOf_eq
    (forest : Forest)
    (index : Nat)
    (name : Token) :
    forest.valueOf index name =
      (Chain.get? (forest.chain index) name.lexeme).elim
        (.error ⟨.undefinedVariable, name⟩) (reading name) := by
  rw [chain, Chain.get?_map]
  unfold valueOf resolve?
  rcases (forest.path index).find? _ with _ | holder
  · rfl
  · rcases held : (forest.scopeAt holder).get? name.lexeme with _ | value
    · simp [held]
    · simp [held]

/-- A look-up gives the value that the name has in the scope it is resolved to. -/
theorem get?_chain_eq_some_iff
    {forest : Forest}
    {index : Nat}
    {name : String}
    {value : Value} :
    Chain.get? (forest.chain index) name = some value ↔
      ∃ holder, forest.ResolvesTo index name holder ∧
        (forest.scopeAt holder).get? name = some value := by
  rw [chain, Chain.get?_map, Option.bind_eq_some_iff]
  exact exists_congr fun holder => and_congr_left' resolve?_eq_some_iff

/-- A look-up fails exactly where the name is not defined. -/
theorem get?_chain_eq_none_iff
    {forest : Forest}
    {index : Nat}
    {name : String} :
    Chain.get? (forest.chain index) name = none ↔
      forest.isDefined index name = false := by
  simp [chain, isDefined, resolve?, Chain.get?_map_eq_none_iff]

/-- A definition in a scope apart from a path is not seen along the path. -/
theorem map_scopeAt_define_of_notMem
    (forest : Forest)
    {index : Nat}
    {path : List Nat}
    (apart : index ∉ path)
    (name : String)
    (value : Value) :
    path.map (forest.define index name value).scopeAt =
      path.map forest.scopeAt := by
  refine List.map_congr_left fun other member => ?_
  have different : other ≠ index := fun same => apart (same ▸ member)
  exact scopeAt_define_other forest different name value

/--
A definition is seen by the look-ups that reach its scope before another binding.
-/
theorem get?_chain_define_of_reachesFirst
    {forest : Forest}
    (grown : Grown forest)
    {index other : Nat}
    (inside : index < forest.length)
    {name : String}
    (value : Value)
    (reaches : forest.ReachesFirst other name index) :
    Chain.get? ((forest.define index name value).chain other) name =
      some value := by
  obtain ⟨nearer, farther, shape, unbound⟩ := reaches
  have distinct := grown.nodup_path other
  rw [shape] at distinct
  have apart : index ∉ nearer := fun member =>
    (List.nodup_middle.mp distinct).notMem (List.mem_append_left farther member)
  rw [chain, path_define, shape, List.map_append, map_scopeAt_define_of_notMem
    forest apart, Chain.get?_append, Chain.get?_map_eq_none_iff.mpr unbound]
  simp [Chain.get?_cons, inside]

/-- A definition is not seen by look-ups of other names. -/
theorem get?_chain_define_of_ne
    {forest : Forest}
    {index : Nat}
    (inside : index < forest.length)
    {name query : String}
    (different : query ≠ name)
    (value : Value)
    (other : Nat) :
    Chain.get? ((forest.define index name value).chain other) query =
      Chain.get? (forest.chain other) query := by
  unfold chain
  rw [path_define]
  refine Chain.get?_map_congr fun candidate _ => ?_
  by_cases same : candidate = index
  · subst same
    rw [scopeAt_define_same inside, Scope.get?_define_other _ different]
  · rw [scopeAt_define_other forest same]

/--
Elsewhere a nearer binding hides the definition, or the chain does not come by it.
-/
theorem get?_chain_define_of_not_reachesFirst
    {forest : Forest}
    {index other : Nat}
    {name : String}
    (value : Value)
    (unreached : ¬ forest.ReachesFirst other name index) :
    Chain.get? ((forest.define index name value).chain other) name =
      Chain.get? (forest.chain other) name := by
  unfold chain
  rw [path_define]
  by_cases member : index ∈ forest.path other
  · obtain ⟨nearer, farther, shape, apart⟩ := List.eq_append_cons_of_mem member
    have hidden : Chain.get? (nearer.map forest.scopeAt) name ≠ none := by
      intro unbound
      exact unreached
        ⟨nearer, farther, shape, Chain.get?_map_eq_none_iff.mp unbound⟩
    obtain ⟨held, found⟩ := Option.ne_none_iff_exists'.mp hidden
    rw [shape, List.map_append, List.map_append, Chain.get?_append,
      Chain.get?_append, map_scopeAt_define_of_notMem forest apart, found]
    rfl
  · rw [map_scopeAt_define_of_notMem forest member]

/--
A definition writes to its scope, and is seen where its scope is reached first.
-/
theorem writes_define
    {forest : Forest}
    (grown : Grown forest)
    {index : Nat}
    (inside : index < forest.length)
    (name : String)
    (value : Value) :
    Writes index name value (forest.ReachesFirst · name index) forest
      (forest.define index name value) := by
  constructor
  · exact length_define forest index name value
  · exact path_define forest index name value
  · intro other different
    exact scopeAt_define_other forest different name value
  · rintro other query rfl reaches
    rw [valueOf_eq, get?_chain_define_of_reachesFirst grown inside value reaches]
    rfl
  · intro other query unseen
    rw [valueOf_eq, valueOf_eq]
    by_cases same : query.lexeme = name
    · subst same
      rw [get?_chain_define_of_not_reachesFirst value fun reaches =>
        unseen ⟨rfl, reaches⟩]
    · rw [get?_chain_define_of_ne inside same]

/-- An assignment goes to the scope that the name resolves to, or it is refused. -/
theorem assign_cases
    (forest : Forest)
    (index : Nat)
    (name : Token)
    (value : Value) :
    (∃ holder, forest.ResolvesTo index name.lexeme holder ∧
        forest.assign index name value =
          .ok (forest.define holder name.lexeme value)) ∨
      forest.isDefined index name.lexeme = false ∧
        forest.assign index name value = .error ⟨.undefinedVariable, name⟩ := by
  unfold assign isDefined
  rcases resolved : forest.resolve? index name.lexeme with _ | holder
  · exact .inr ⟨rfl, rfl⟩
  · exact .inl ⟨holder, resolve?_eq_some_iff.mp resolved, rfl⟩

/--
A scope that a name resolves to is seen by whom the name resolves to it as well.
-/
theorem writes_of_resolvesTo
    {forest : Forest}
    (grown : Grown forest)
    {index holder : Nat}
    {name : String}
    (resolves : forest.ResolvesTo index name holder)
    (value : Value) :
    Writes holder name value (forest.ResolvesTo · name holder) forest
      (forest.define holder name value) := by
  have sameObservers :
      (forest.ResolvesTo · name holder) = (forest.ReachesFirst · name holder) :=
    funext fun _ => propext (and_iff_right resolves.1)
  rw [sameObservers]
  exact writes_define grown (lt_length_of_binds resolves.1) name value

/-- The laws of writing hold for every forest that is grown. -/
theorem Grown.writeLaws
    {forest : Forest}
    (grown : Grown forest) :
    WriteLaws forest := by
  constructor
  · intro index name value
    rcases forest.assign_cases index name value with
      ⟨holder, resolves, assigned⟩ | ⟨undefined, refused⟩
    · simp [assigned, isDefined_iff.mpr ⟨holder, resolves⟩]
    · simp [refused, undefined]
  · intro index name value changed done
    rcases forest.assign_cases index name value with
      ⟨holder, resolves, assigned⟩ | ⟨_, refused⟩
    · obtain rfl := Except.ok.inj (assigned.symm.trans done)
      refine ⟨holder, resolves, ?_, writes_of_resolvesTo grown resolves value⟩
      rw [scopeAt_define_same (lt_length_of_binds resolves.1)]
      exact Scope.replacedIn_define (grown.distinct holder) resolves.1 value
    · cases refused.symm.trans done
  · intro index name value error failed
    rcases forest.assign_cases index name value with
      ⟨_, _, assigned⟩ | ⟨_, refused⟩
    · cases assigned.symm.trans failed
    · obtain rfl := Except.error.inj (refused.symm.trans failed)
      exact ⟨rfl, rfl, rfl, by simp [Forest.perform, refused]⟩
  · intro index inside name value
    refine ⟨?_, writes_define grown inside name value⟩
    rw [scopeAt_define_same inside]
    rcases bound : (forest.scopeAt index).binds name with _ | _
    · exact .inr (Scope.addedTo_define bound value)
    · exact .inl (Scope.replacedIn_define (grown.distinct index) bound value)

/-- The laws of reading hold for every forest. -/
theorem readLaws
    (forest : Forest) :
    ReadLaws forest := by
  constructor
  · exact fun index name => isDefined_iff
  · intro index name value
    rw [← get?_chain_eq_some_iff, valueOf_eq]
    rcases Chain.get? (forest.chain index) name.lexeme with _ | held
    · simp
    · simp [reading_eq_ok_iff]
  · intro index name
    rw [← get?_chain_eq_none_iff, valueOf_eq]
    rcases Chain.get? (forest.chain index) name.lexeme with _ | held
    · simp [RuntimeError.kind]
    · simp [reading_eq_error_iff, RuntimeError.kind]
  · intro index name
    rw [← get?_chain_eq_some_iff, valueOf_eq]
    rcases Chain.get? (forest.chain index) name.lexeme with _ | held
    · simp [RuntimeError.kind]
    · simp [reading_eq_error_iff, RuntimeError.kind]
  · intro index name error failed
    rw [valueOf_eq] at failed
    rcases found : Chain.get? (forest.chain index) name.lexeme with _ | held
    · rw [found] at failed
      obtain rfl := Except.error.inj failed
      rfl
    · rw [found] at failed
      rw [(reading_eq_error_iff.mp failed).2]
  · exact fun index name => rfl

/-- The path of a scope starts with the scope. -/
theorem exists_path_eq_cons
    {forest : Forest}
    {index : Nat}
    (inside : index < forest.length) :
    ∃ ancestors, forest.path index = index :: ancestors := by
  simp [path, inside]

/--
Assignment along a chain is a definition in the scope that the name is found in.
-/
theorem assign?_map_scopeAt
    (forest : Forest)
    {path : List Nat}
    (distinct : path.Nodup)
    (name : String)
    (value : Value) :
    Chain.assign? (path.map forest.scopeAt) name value =
      (path.find? fun index => (forest.scopeAt index).binds name).map fun holder =>
        path.map (forest.define holder name value).scopeAt := by
  induction path with
  | nil => rfl
  | cons index rest inductionHypothesis =>
      obtain ⟨apart, restDistinct⟩ := List.nodup_cons.mp distinct
      rcases bound : (forest.scopeAt index).binds name with _ | _
      · simp only [List.map_cons, Chain.assign?_cons, bound, List.find?_cons,
          inductionHypothesis restDistinct, Bool.false_eq_true, ↓reduceIte]
        rcases found : rest.find? fun index =>
          (forest.scopeAt index).binds name with _ | holder
        · rfl
        · have different : index ≠ holder := fun same =>
            apart (same ▸ List.mem_of_find?_eq_some found)
          simp [scopeAt_define_other forest different]
      · simp [Chain.assign?_cons, bound, lt_length_of_binds bound,
          map_scopeAt_define_of_notMem forest apart]

/--
A scope that is opened inside another stands in front of the chain from there.
-/
theorem chain_extend_length
    (forest : Forest)
    (index : Nat) :
    (forest.extend (some index)).chain forest.length =
      Scope.empty :: forest.chain index := by
  have opened : forest.scopeAt forest.length = Scope.empty := by
    simp [scopeAt]
  have same : (forest.extend (some index)).scopeAt = forest.scopeAt :=
    funext (scopeAt_extend forest (some index))
  simp only [chain, path_extend_length, Option.map_some, Option.getD_some,
    List.map_cons, same, opened]

/--
An environment with local scopes stands in a scope that has another around it.
-/
theorem Grown.exists_parent
    {forest : Forest}
    (grown : Grown forest)
    {index : Nat}
    (inside : index < forest.length)
    (nested : 1 < (forest.chain index).length) :
    ∃ parent < index,
      forest.path index = index :: forest.path parent ∧
        (forest.chain index).tail = forest.chain parent := by
  rcases grown.enclosed index inside with alone | ⟨parent, older, shape⟩
  · simp [chain, alone] at nested
  · exact ⟨parent, older, shape, by simp [chain, shape]⟩

/--
Along the chain of each scope stands an environment, with that scope as global.
-/
theorem exists_environment
    {forest : Forest}
    {index : Nat}
    (inside : index < forest.length) :
    ∃ environment : Environment, environment.chain = forest.chain index := by
  obtain ⟨ancestors, shape⟩ := exists_path_eq_cons inside
  refine ⟨.ofGlobals (forest.scopeAt index) (ancestors.map forest.scopeAt), ?_⟩
  simp [Environment.chain, Environment.ofGlobals, chain, shape]

/-- So the laws of a forest hold of the environments that statements run in. -/
theorem Grown.mirrors
    {forest : Forest}
    (grown : Grown forest)
    {index : Nat}
    (inside : index < forest.length)
    {environment : Environment}
    (same : environment.chain = forest.chain index) :
    Mirrors forest index environment := by
  have distinct := grown.nodup_path index
  constructor
  case valueOf =>
    intro name
    rw [valueOf_eq, ← same]
    unfold Environment.valueOf
    rcases Chain.get? environment.chain name.lexeme with _ | value <;> rfl
  case define =>
    intro name value
    obtain ⟨ancestors, shape⟩ := exists_path_eq_cons inside
    have apart : index ∉ ancestors := (List.nodup_cons.mp (shape ▸ distinct)).1
    rw [environment.chain_eq_active_cons, chain, shape, List.map_cons] at same
    obtain ⟨active, enclosing⟩ := List.cons.inj same
    rw [Environment.chain_eq_active_cons, Environment.active_define,
      Environment.enclosing_define, active, enclosing]
    simp [chain, shape, inside, map_scopeAt_define_of_notMem forest apart]
  case assign =>
    intro name value
    have alongChain :
        (environment.assign? name.lexeme value).map Environment.chain =
          (forest.resolve? index name.lexeme).map fun holder =>
            (forest.define holder name.lexeme value).chain index := by
      rw [environment.map_chain_assign?, same, chain,
        assign?_map_scopeAt forest distinct]
      simp [resolve?, chain]
    unfold Environment.assign assign
    rcases found : forest.resolve? index name.lexeme with _ | holder
    · rw [found, Option.map_none, Option.map_eq_none_iff] at alongChain
      rw [alongChain]
      rfl
    · rw [found, Option.map_some, Option.map_eq_some_iff] at alongChain
      obtain ⟨changed, assigned, scopes⟩ := alongChain
      rw [assigned]
      exact congrArg Except.ok scopes
  case enter =>
    rw [chain_extend_length, ← same]
    rfl
  case leave =>
    intro isNested
    obtain ⟨_ | ⟨scope, enclosing⟩, globals, outer⟩ := environment
    · exact (isNested rfl).elim
    · have nested : 1 < (forest.chain index).length := by
        simp only [← same, Environment.chain, List.length_append, List.length_cons]
        omega
      obtain ⟨parent, older, shape, around⟩ := grown.exists_parent inside nested
      refine ⟨parent, older, shape, ?_⟩
      rw [← around, ← same]
      rfl

/-- Every forest that requests build, one after the other, has the laws. -/
theorem laws_build
    (requests : List Request) :
    Laws (build requests) where
  grown := grown_build requests
  writes := (grown_build requests).writeLaws
  reads := readLaws _
  environments _ inside :=
    ⟨exists_environment inside,
      fun _ same => (grown_build requests).mirrors inside same⟩

/--
What one scope assigns reaches the scope around it, and a nearer binding hides it.
-/
example :
    (build
      [.define 0 "x" .nil, .extend (some 0), .extend (some 0),
        .define 2 "x" (.boolean false),
        .assign 1 ⟨.identifier, "x", .nil, 1, 0⟩ (.boolean true)]).map
          (·.scope.bindings) =
      [[("x", .boolean true)], [], [("x", .boolean false)]] := by
  decide

end Forest

end Lox
