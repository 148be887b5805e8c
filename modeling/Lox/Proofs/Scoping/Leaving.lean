import Lox.Proofs.Scoping.Outline

namespace Lox

/-!
# What a statement leaves behind

An assignment changes the nearest binding of its name, and a declaration adds its
name to the active scope.  A name that a block declares hides the bindings around
the block, so that assignments further down in the block do not reach them.  Main
statement: behind a statement, however it ends, all scopes bind the names they bound
and the one it declares, and a value differs only where the statement assigns a name
that it does not hide, in the nearest scope that binds the name.
-/

/-- A node assigns a name where no declaration below the node hides the name. -/
def Node.Assigns
    (root : Node)
    (name : String) :
    Prop :=
  ∃ trail target value,
    root.Leads trail (.expr (.assign target value)) ∧
      target.lexeme = name ∧
      ∀ names ∈ trail.scopes, name ∉ names

namespace Node

/-- A way down from a child is a way down from its parent. -/
theorem Leads.fromParent
    {parent child node : Node}
    {index : Nat}
    {trail : Trail}
    (leads : child.Leads trail node)
    (found : parent.children[index]? = some child) :
    parent.Leads (trail ++ [⟨parent, index⟩]) node := by
  induction leads with
  | root => exact .child .root found
  | child _ further inductionHypothesis => exact .child inductionHypothesis further

/-- An assignment assigns its own name. -/
theorem assigns_assign
    (name : Token)
    (value : Expr) :
    (Node.expr (.assign name value)).Assigns name.lexeme :=
  ⟨[], name, value, .root, rfl, by simp [Trail.scopes]⟩

/--
A node assigns what a child assigns and what it does not declare before the child.
-/
theorem Assigns.inside
    {parent child : Node}
    {index : Nat}
    {name : String}
    (assigns : child.Assigns name)
    (found : parent.children[index]? = some child)
    (visible :
      parent.isA .block = true →
        name ∉ declareAll [] (parent.children.take index)) :
    parent.Assigns name := by
  obtain ⟨trail, target, value, leads, named, unhidden⟩ := assigns
  refine ⟨trail ++ [⟨parent, index⟩], target, value,
    leads.fromParent found, named, ?_⟩
  intro names member
  simp only [Trail.scopes, List.filter_append, List.map_append,
    List.mem_append] at member
  rcases member with further | around
  · exact unhidden names further
  · by_cases opens : parent.isA .block = true
    · simp only [Passed.opensScope, opens, List.filter_cons_of_pos, List.filter_nil,
        List.map_cons, List.map_nil, List.mem_singleton] at around
      subst around
      exact visible opens
    · simp [Passed.opensScope, opens] at around

/-- A node that opens no scope assigns what its children assign. -/
theorem Assigns.child
    {parent child : Node}
    {name : String}
    (assigns : child.Assigns name)
    (member : child ∈ parent.children)
    (opensNone : parent.isA .block = false) :
    parent.Assigns name := by
  obtain ⟨index, found⟩ := List.getElem?_of_mem member
  exact assigns.inside found (by simp [opensNone])

/-- A block assigns what a statement in it assigns that no earlier one declares. -/
theorem Assigns.inBlock
    {earlier later : List Stmt}
    {stmt : Stmt}
    {name : String}
    (assigns : (Node.stmt stmt).Assigns name)
    (unhidden : name ∉ declareAll [] (earlier.map .stmt)) :
    (Node.stmt (.block (earlier ++ stmt :: later))).Assigns name := by
  have found :
      (Node.stmt (.block (earlier ++ stmt :: later))).children[earlier.length]? =
        some (.stmt stmt) := by
    simp [Node.children, Stmt.children]
  refine assigns.inside found fun _ => ?_
  simpa [Node.children, Stmt.children] using unhidden

/-- A loop body hides nothing: it assigns what its body and its increment assign. -/
theorem assigns_loopBody
    {body : Stmt}
    {increment : Expr}
    {name : String}
    (declares : body.declares? = none)
    (assigns : (Node.stmt body).Assigns name ∨ (Node.expr increment).Assigns name) :
    (Node.stmt (.loopBody body increment)).Assigns name := by
  rcases assigns with inBody | inIncrement
  · have first :
        (Node.stmt (.loopBody body increment)).children[0]? =
          some (.stmt body) := rfl
    exact inBody.inside first (by simp)
  · have second :
        (Node.stmt (.loopBody body increment)).children[1]? =
          some (.stmt (.expression increment)) := rfl
    have alone : (Node.stmt (.expression increment)).Assigns name :=
      inIncrement.child (List.mem_singleton_self _) rfl
    refine alone.inside second fun _ => ?_
    simp [Node.children, Stmt.children, declareAll_singleton, declares]

/-- An expression assigns all names that it writes. -/
theorem assigns_of_writes
    {expr : Expr}
    {name : String}
    (writes : (Node.expr expr).Writes name) :
    (Node.expr expr).Assigns name := by
  generalize same : Node.expr expr = node at writes ⊢
  induction writes generalizing expr with
  | assign => exact assigns_assign ..
  | var => cases same
  | inside member _ inductionHypothesis =>
      subst same
      obtain ⟨inner, -, rfl⟩ := List.mem_map.mp member
      have opensNone : (Node.expr expr).isA .block = false := by cases expr <;> rfl
      exact (inductionHypothesis rfl).child member opensNone

end Node

/-- Names are resolved in an outline as they are along the chain of scopes. -/
def Outline.resolve?
    (outline : Outline)
    (name : String) :
    Option Nat :=
  (outline.locals ++ outline.globals :: outline.outer).findIdx? (·.contains name)

namespace Environment

variable {assigned deeper : String → Prop} {before between after : Environment}

/-- Where a name is bound can be told from the outline. -/
theorem resolve?_outline
    (environment : Environment)
    (name : String) :
    environment.outline.resolve? name = Chain.resolve? environment.chain name := by
  rw [Chain.resolve?_eq_findIdx?_names]
  simp [Outline.resolve?, outline, chain]

/-- An environment in which values differ only where a name is bound nearest. -/
structure ChangedBy
    (assigned : String → Prop)
    (before after : Environment) :
    Prop where
  outline : after.outline = before.outline
  values :
    ∀ distance name,
      Chain.valueAt? after.chain distance name ≠
          Chain.valueAt? before.chain distance name →
        assigned name ∧ Chain.resolve? before.chain name = some distance

theorem ChangedBy.refl
    (environment : Environment) :
    ChangedBy assigned environment environment :=
  ⟨rfl, fun _ _ changed => (changed rfl).elim⟩

/-- Changes one after the other: names are bound where they were bound. -/
theorem ChangedBy.trans
    (earlier : ChangedBy assigned before between)
    (later : ChangedBy assigned between after) :
    ChangedBy assigned before after where
  outline := later.outline.trans earlier.outline
  values := by
    intro distance name changed
    by_cases same :
        Chain.valueAt? between.chain distance name =
          Chain.valueAt? before.chain distance name
    · rw [← same] at changed
      obtain ⟨assigns, resolved⟩ := later.values distance name changed
      rw [← resolve?_outline, earlier.outline, resolve?_outline] at resolved
      exact ⟨assigns, resolved⟩
    · exact earlier.values distance name same

/-- Changes of fewer names are changes of more. -/
theorem ChangedBy.imp
    (changed : ChangedBy deeper before after)
    (implies : ∀ name, deeper name → assigned name) :
    ChangedBy assigned before after where
  outline := changed.outline
  values distance name differs :=
    (changed.values distance name differs).imp_left (implies name)

/-- An assignment changes the value of its name where the name is bound nearest. -/
theorem ChangedBy.of_assign?
    {environment changed : Environment}
    {name : String}
    {value : Value}
    (assigns : assigned name)
    (done : environment.assign? name value = some changed) :
    ChangedBy assigned environment changed where
  outline := outline_of_assign? done
  values := by
    intro distance query differs
    obtain ⟨nearest, resolved, rebound⟩ := reboundAt_of_assign? done
    obtain ⟨rfl, rfl⟩ := rebound.eq_of_valueAt?_ne differs
    exact ⟨assigns, resolved⟩

/-- A scope inside an environment, and what changed around the scope since. -/
structure Within
    (assigned : String → Prop)
    (names : List String)
    (around inner : Environment) :
    Prop where
  outline :
    inner.outline = { around.outline with locals := names :: around.outline.locals }
  values :
    ∀ distance name,
      Chain.valueAt? inner.chain (distance + 1) name ≠
          Chain.valueAt? around.chain distance name →
        assigned name ∧ Chain.resolve? around.chain name = some distance

variable {names further : List String} {around inner : Environment}

/-- Inside a scope that was just entered, nothing has changed. -/
theorem within_enter
    (environment : Environment) :
    Within assigned [] environment environment.enter :=
  ⟨rfl, fun _ _ changed => (changed rfl).elim⟩

/--
A name found around the scope is none of the scope, and is found from outside.
-/
theorem Within.resolved
    (within : Within assigned names around inner)
    {name : String}
    {distance : Nat}
    (found : Chain.resolve? inner.chain name = some (distance + 1)) :
    name ∉ names ∧ Chain.resolve? around.chain name = some distance := by
  rw [← resolve?_outline, within.outline, Outline.resolve?, List.cons_append,
    List.findIdx?_cons] at found
  split at found
  · cases found
  · rename_i unbound
    rw [← resolve?_outline, Outline.resolve?]
    exact ⟨by simpa using unbound, by simpa using found⟩

/--
Changes in the scope are seen around it for names that the scope does not hide.
-/
theorem Within.step
    (within : Within assigned names around inner)
    (outline :
      after.outline =
        { around.outline with locals := further :: around.outline.locals })
    (values :
      ∀ distance name,
        Chain.valueAt? after.chain (distance + 1) name ≠
            Chain.valueAt? inner.chain (distance + 1) name →
          deeper name ∧ Chain.resolve? inner.chain name = some (distance + 1))
    (visible : ∀ name, deeper name → name ∉ names → assigned name) :
    Within assigned further around after where
  outline := outline
  values := by
    intro distance name changed
    by_cases same :
        Chain.valueAt? inner.chain (distance + 1) name =
          Chain.valueAt? around.chain distance name
    · rw [← same] at changed
      obtain ⟨assigns, found⟩ := values distance name changed
      obtain ⟨unhidden, resolved⟩ := within.resolved found
      exact ⟨visible name assigns unhidden, resolved⟩
    · exact within.values distance name same

/-- What changes values in the scope, and declares nothing, keeps its names. -/
theorem Within.changedBy
    (within : Within assigned names around inner)
    (changed : ChangedBy deeper inner after)
    (visible : ∀ name, deeper name → name ∉ names → assigned name) :
    Within assigned names around after :=
  within.step (changed.outline.trans within.outline)
    (fun distance name => changed.values (distance + 1) name) visible

/-- Once the scope is closed, the changes around it are left. -/
theorem Within.leave
    (within : Within assigned names around inner) :
    ChangedBy assigned around inner.leave := by
  obtain ⟨_ | ⟨scope, enclosing⟩, globals, outer⟩ := inner
  · have nested := congrArg Outline.locals within.outline
    simp [Environment.outline] at nested
  · refine ⟨?_, within.values⟩
    have same := within.outline
    simp only [Environment.outline, List.map_cons, Outline.mk.injEq,
      List.cons.injEq] at same
    simp [Environment.outline, Environment.leave, same]

end Environment

namespace Evaluation

open Environment (ChangedBy Within)

variable {assigned : String → Prop}

/-- Evaluating an expression changes the values of names that it assigns. -/
theorem changedBy_eval
    (expr : Expr)
    (environment : Environment) :
    environment.ChangedBy (Node.expr expr).Assigns (eval expr environment).2 := by
  have kept :
      KeptByAssignment (Node.expr expr).Assigns
        (ChangedBy (Node.expr expr).Assigns) :=
    { refl := .refl
      trans := fun _ _ _ earlier later => earlier.trans later
      assign := fun _ _ _ _ assigns done => .of_assign? assigns done }
  exact kept.eval (fun _ writes => Node.assigns_of_writes writes) environment

/-- An evaluation in a state changes the values of names that it assigns. -/
theorem changedBy_of_evaluate
    {state afterwards : State}
    {expr : Expr}
    {result : Except RuntimeError Value}
    (outcome : state.evaluate expr = (result, afterwards)) :
    state.environment.ChangedBy (Node.expr expr).Assigns
      afterwards.environment := by
  have changed := changedBy_eval expr state.environment
  have same : (eval expr state.environment).2 = afterwards.environment :=
    congrArg (fun evaluated => evaluated.2.environment) outcome
  rwa [same] at changed

/-- A run that declares nothing and assigns some names alone, however it ends. -/
def ChangesOnly
    (assigned : String → Prop)
    (run : Run)
    (before : State) :
    Prop :=
  run.Ends fun _ after => before.environment.ChangedBy assigned after.environment

/-- What ends in the environment it began in changes nothing. -/
theorem changesOnly_some
    {result : Except RuntimeError Completion}
    {before after : State}
    (same : after.environment = before.environment) :
    ChangesOnly assigned (some (result, after)) before := by
  refine Run.ends_some.mpr ?_
  rw [same]
  exact .refl _

/--
A run that starts later changes from the beginning what was changed before, too.
-/
theorem ChangesOnly.behind
    {run : Run}
    {before between : State}
    (changes : ChangesOnly assigned run between)
    (changed : before.environment.ChangedBy assigned between.environment) :
    ChangesOnly assigned run before :=
  changes.imp fun _ _ later => changed.trans later

theorem changesOnly_begin
    {run : Run}
    {state : State}
    {settings : Settings}
    {nodeClass : NodeClass}
    (changes : ChangesOnly assigned run (state.begin settings nodeClass)) :
    ChangesOnly assigned run state := by
  unfold ChangesOnly at changes
  rwa [State.environment_begin] at changes

/-- Going on with a value changes what the expression changes, and what follows. -/
theorem changesOnly_withValue
    {state : State}
    {expr : Expr}
    {next : Value → State → Run}
    (assigns : ∀ name, (Node.expr expr).Assigns name → assigned name)
    (onward :
      ∀ value afterwards, ChangesOnly assigned (next value afterwards) afterwards) :
    ChangesOnly assigned (withValue state expr next) state := by
  unfold ChangesOnly
  rw [Run.ends_withValue]
  rcases outcome : state.evaluate expr with ⟨error | value, afterwards⟩
  · exact (changedBy_of_evaluate outcome).imp assigns
  · exact (onward value afterwards).behind
      ((changedBy_of_evaluate outcome).imp assigns)

/-- An expression statement changes what its expression assigns. -/
theorem changesOnly_runExpression
    (settings : Settings)
    {inner : Expr}
    (assigns : ∀ name, (Node.expr inner).Assigns name → assigned name)
    (state : State) :
    ChangesOnly assigned (runExpression settings inner state) state := by
  apply changesOnly_withValue assigns
  intro value afterwards
  apply changesOnly_some
  split <;> rfl

theorem changesOnly_runSignal
    (keyword : Token)
    (signal : Completion)
    (state : State) :
    ChangesOnly assigned (runSignal keyword signal state) state := by
  unfold runSignal
  split <;> exact changesOnly_some rfl

/-- Rounds of a loop change what its condition and its body change. -/
theorem changesOnly_iterate
    {condition : Expr}
    {body : State → Run}
    (assigns : ∀ name, (Node.expr condition).Assigns name → assigned name)
    (changes : ∀ state, ChangesOnly assigned (body state) state)
    (budget : Nat)
    (state : State) :
    ChangesOnly assigned (iterate condition body budget state) state := by
  have tested :
      ∀ ⦃between : State⦄,
        state.environment.ChangedBy assigned between.environment →
          state.environment.ChangedBy assigned
            (between.evaluate condition).2.environment := by
    intro between changed
    exact changed.trans ((changedBy_of_evaluate rfl).imp assigns)
  have repeated :
      ∀ ⦃between : State⦄,
        state.environment.ChangedBy assigned between.environment →
          (body between).Ends fun _ after =>
            state.environment.ChangedBy assigned after.environment := by
    intro between changed
    exact (changes between).behind changed
  exact Run.ends_iterate tested repeated budget (.refl _)

/--
The environment behind a statement, by what the statement declares and assigns.
-/
structure LeftBy
    (stmt : Stmt)
    (before : Environment)
    (result : Except RuntimeError Completion)
    (after : Environment) :
    Prop where
  outline :
    after.outline =
      match result with
      | .ok _ => before.outline.behind stmt
      | .error _ => before.outline
  values :
    ∀ distance name,
      Chain.valueAt? after.chain distance name ≠
          Chain.valueAt? before.chain distance name →
        ((Node.stmt stmt).Assigns name ∧
            Chain.resolve? before.chain name = some distance) ∨
          (stmt.declares? = some name ∧ distance = 0)

/-- Around the active scope, a statement changes the names that it assigns. -/
theorem LeftBy.around
    {stmt : Stmt}
    {before after : Environment}
    {result : Except RuntimeError Completion}
    (left : LeftBy stmt before result after)
    (distance : Nat)
    (name : String)
    (changed :
      Chain.valueAt? after.chain (distance + 1) name ≠
        Chain.valueAt? before.chain (distance + 1) name) :
    (Node.stmt stmt).Assigns name ∧
      Chain.resolve? before.chain name = some (distance + 1) := by
  simpa using left.values (distance + 1) name changed

/-- Behind a statement that is no declaration, values alone may have changed. -/
theorem leftBy_iff_changedBy
    {stmt : Stmt}
    (declares : stmt.declares? = none)
    {before after : Environment}
    {result : Except RuntimeError Completion} :
    LeftBy stmt before result after ↔
      before.ChangedBy (Node.stmt stmt).Assigns after := by
  have unchanged :
      (match result with
        | .ok _ => before.outline.behind stmt
        | .error _ => before.outline) = before.outline := by
    rcases result with error | completion
    · rfl
    · exact Outline.behind_of_not_declares declares before.outline
  constructor
  · intro left
    refine ⟨left.outline.trans unchanged, ?_⟩
    intro distance name changed
    simpa [declares] using left.values distance name changed
  · intro changed
    exact ⟨changed.outline.trans unchanged.symm,
      fun distance name differs => .inl (changed.values distance name differs)⟩

/-- A statement that is no declaration leaves what it changes. -/
theorem ChangesOnly.leftBy
    {stmt : Stmt}
    {run : Run}
    {state : State}
    (changes : ChangesOnly (Node.stmt stmt).Assigns run state)
    (declares : stmt.declares? = none) :
    run.Ends fun result after =>
      LeftBy stmt state.environment result after.environment :=
  changes.imp fun _ _ => (leftBy_iff_changedBy declares).mpr

/--
A declaration binds its name in the active scope, once its value was evaluated.
-/
theorem leftBy_define
    {name : Token}
    {initial : Option Expr}
    {before between : Environment}
    (changed : before.ChangedBy (Node.stmt (.var name initial)).Assigns between)
    (value : Value)
    (completion : Completion) :
    LeftBy (.var name initial) before (.ok completion)
      (between.define name.lexeme value) where
  outline := by
    rw [Environment.outline_define, changed.outline]
    rfl
  values := by
    intro distance query differs
    by_cases same :
        Chain.valueAt? between.chain distance query =
          Chain.valueAt? before.chain distance query
    · right
      rw [← same, Environment.chain_eq_active_cons, between.chain_eq_active_cons,
        Environment.active_define, Environment.enclosing_define] at differs
      cases distance with
      | zero =>
          by_cases own : query = name.lexeme
          · exact ⟨congrArg some own.symm, rfl⟩
          · simp [Scope.get?_define_other _ own] at differs
      | succ distance =>
          exact (differs rfl).elim
    · exact .inl (changed.values distance query same)

/-- A declaration leaves its name bound, or nothing if its value fails. -/
theorem leftBy_exec_var
    (settings : Settings)
    (budget : Nat)
    (name : Token)
    (initial : Option Expr)
    (state : State) :
    (exec settings budget (.var name initial) state).Ends fun result after =>
      LeftBy (.var name initial) state.environment result after.environment := by
  rw [exec]
  cases initial with
  | none =>
      refine Run.ends_some.mpr ?_
      simp only [State.environment_begin]
      exact leftBy_define (.refl _) .nil .normal
  | some initial =>
      refine Run.ends_withValue.mpr ?_
      have changed :
          ∀ {result afterwards},
            (state.begin settings .var).evaluate initial = (result, afterwards) →
              state.environment.ChangedBy
                (Node.stmt (.var name (some initial))).Assigns
                afterwards.environment := by
        intro result afterwards outcome
        have evaluated := changedBy_of_evaluate outcome
        rw [State.environment_begin] at evaluated
        exact evaluated.imp fun _ assigns =>
          assigns.child (List.mem_singleton_self _) rfl
      rcases outcome : (state.begin settings .var).evaluate initial with
        ⟨error | value, afterwards⟩
      · exact ⟨(changed outcome).outline,
          fun distance query differs =>
            .inl ((changed outcome).values distance query differs)⟩
      · refine Run.ends_some.mpr ?_
        exact leftBy_define (changed outcome) value .normal

/-- A part of a statement that opens no scope changes what the statement assigns. -/
theorem branch_changesOnly
    {settings : Settings}
    {budget : Nat}
    {stmt part : Stmt}
    (declares : part.declares? = none)
    (left :
      ∀ state,
        (exec settings budget part state).Ends fun result after =>
          LeftBy part state.environment result after.environment)
    (member : .stmt part ∈ (Node.stmt stmt).children)
    (opensNone : (Node.stmt stmt).isA .block = false)
    (state : State) :
    ChangesOnly (Node.stmt stmt).Assigns
      (exec settings budget part state) state := by
  refine (left state).imp fun _ _ partLeft => ?_
  refine ((leftBy_iff_changedBy declares).mp partLeft).imp ?_
  intro name assigns
  exact assigns.child member opensNone

/--
Statements of a block change, around the block,
what they assign and it does not hide.
-/
theorem within_execAll
    {settings : Settings}
    {budget : Nat}
    {statements : List Stmt}
    (each :
      ∀ stmt ∈ statements, ∀ state,
        (exec settings budget stmt state).Ends fun result after =>
          LeftBy stmt state.environment result after.environment)
    {earlier later : List Stmt}
    (split : statements = earlier ++ later)
    {around : Environment}
    {between : State}
    (within :
      Within (Node.stmt (.block statements)).Assigns
        (declareAll [] (earlier.map .stmt)) around between.environment) :
    (execAll settings budget later between).Ends fun _ after =>
      ∃ names,
        Within (Node.stmt (.block statements)).Assigns names around
          after.environment := by
  induction later generalizing earlier between with
  | nil =>
      exact Run.ends_some.mpr ⟨_, within⟩
  | cons first rest inductionHypothesis =>
      have member : first ∈ statements := by simp [split]
      have visible :
          ∀ name,
            (Node.stmt first).Assigns name →
              name ∉ declareAll [] (earlier.map .stmt) →
                (Node.stmt (.block statements)).Assigns name := by
        intro name assigns unhidden
        rw [split]
        exact assigns.inBlock unhidden
      rw [execAll, Run.ends_proceed]
      refine (each first member between).imp ?_
      intro result after left
      rcases result with error | completion
      · exact ⟨_,
          within.step (left.outline.trans within.outline) left.around visible⟩
      · have further :
            Within (Node.stmt (.block statements)).Assigns
              (declareAll [] ((earlier ++ [first]).map .stmt)) around
              after.environment := by
          refine within.step ?_ left.around visible
          rw [left.outline, within.outline, List.map_append, declareAll_append]
          exact Outline.behind_cons ..
        rcases completion with _ | _ | _
        · exact inductionHypothesis (by simp [split]) further
        · exact Run.ends_some.mpr ⟨_, further⟩
        · exact Run.ends_some.mpr ⟨_, further⟩

/-- A scope is opened and closed around a run: what changed around it is left. -/
theorem changesOnly_inScope
    {run : Run}
    {state : State}
    (within :
      run.Ends fun _ after =>
        ∃ names, Within assigned names state.environment after.environment) :
    ChangesOnly assigned (restoring State.closeScope run) state := by
  refine Run.ends_restoring.mpr ?_
  intro result after ended
  obtain ⟨names, inside⟩ := within ended
  exact inside.leave

/--
The body of a loop and its increment run in a scope in which nothing is declared.
-/
theorem changesOnly_loopBody
    {settings : Settings}
    {budget : Nat}
    {body : Stmt}
    {increment : Expr}
    (declares : body.declares? = none)
    (bodyLeft :
      ∀ state,
        (exec settings budget body state).Ends fun result after =>
          LeftBy body state.environment result after.environment)
    (state : State) :
    ChangesOnly (Node.stmt (.loopBody body increment)).Assigns
      (exec settings budget (.loopBody body increment) state) state := by
  rw [exec_loopBody]
  apply changesOnly_begin
  apply changesOnly_inScope
  rw [Run.ends_proceed]
  refine (bodyLeft _).imp ?_
  intro result between left
  have changed := (leftBy_iff_changedBy declares).mp left
  have inside :
      Within (Node.stmt (.loopBody body increment)).Assigns []
        (state.begin settings .loopBody).environment between.environment :=
    (Environment.within_enter _).changedBy changed fun _ assigns _ =>
      Node.assigns_loopBody declares (.inl assigns)
  have behind :
      (exec settings budget (.expression increment) between).Ends fun _ after =>
        ∃ names,
          Within (Node.stmt (.loopBody body increment)).Assigns names
            (state.begin settings .loopBody).environment after.environment := by
    have changes :
        ChangesOnly (Node.stmt (.loopBody body increment)).Assigns
          (exec settings budget (.expression increment) between) between := by
      rw [exec]
      apply changesOnly_begin
      apply changesOnly_runExpression
      intro name assigns
      exact Node.assigns_loopBody declares (.inr assigns)
    exact changes.imp fun _ after later =>
      ⟨[], inside.changedBy later fun _ assigns _ => assigns⟩
  rcases result with error | _ | _ | _
  · exact ⟨[], inside⟩
  · exact behind
  · exact Run.ends_some.mpr ⟨[], inside⟩
  · exact behind

/--
However a statement ends, it has bound in the active scope what it declares, and
changed the nearest bindings of names that it assigns and does not hide.
-/
theorem leftBy_exec
    (settings : Settings)
    (budget : Nat)
    {stmt : Stmt}
    (placed : stmt.Placed)
    (state : State) :
    (exec settings budget stmt state).Ends fun result after =>
      LeftBy stmt state.environment result after.environment := by
  induction placed generalizing state with
  | @expression inner =>
      apply ChangesOnly.leftBy _ rfl
      rw [exec]
      apply changesOnly_begin
      apply changesOnly_runExpression
      intro name assigns
      exact assigns.child (List.mem_singleton_self _) rfl
  | @print inner =>
      apply ChangesOnly.leftBy _ rfl
      rw [exec]
      apply changesOnly_begin
      refine changesOnly_withValue ?_ fun value afterwards => changesOnly_some rfl
      intro name assigns
      exact assigns.child (List.mem_singleton_self _) rfl
  | @var name initial =>
      exact leftBy_exec_var settings budget name initial state
  | @block statements _ each =>
      apply ChangesOnly.leftBy _ rfl
      rw [exec]
      apply changesOnly_begin
      apply changesOnly_inScope
      have whole : statements = [] ++ statements := rfl
      exact within_execAll each whole (Environment.within_enter _)
  | loopBody _ declares bodyHypothesis =>
      exact (changesOnly_loopBody declares bodyHypothesis state).leftBy rfl
  | @ifThen condition thenPart _ declares thenHypothesis =>
      apply ChangesOnly.leftBy _ rfl
      rw [exec]
      apply changesOnly_begin
      apply changesOnly_withValue
      · intro name assigns
        exact assigns.child (by simp [Node.children, Stmt.children]) rfl
      · intro value tested
        split
        · exact branch_changesOnly declares thenHypothesis
            (by simp [Node.children, Stmt.children]) rfl tested
        · exact changesOnly_some rfl
  | @ifElse condition thenPart elsePart _ thenDeclares _ elseDeclares thenHypothesis
      elseHypothesis =>
      apply ChangesOnly.leftBy _ rfl
      rw [exec]
      apply changesOnly_begin
      apply changesOnly_withValue
      · intro name assigns
        exact assigns.child (by simp [Node.children, Stmt.children]) rfl
      · intro value tested
        split
        · exact branch_changesOnly thenDeclares thenHypothesis
            (by simp [Node.children, Stmt.children]) rfl tested
        · exact branch_changesOnly elseDeclares elseHypothesis
            (by simp [Node.children, Stmt.children]) rfl tested
  | @whileLoop condition body _ declares bodyHypothesis =>
      apply ChangesOnly.leftBy _ rfl
      rw [exec]
      apply changesOnly_begin
      refine Run.ends_restoring.mpr ?_
      apply changesOnly_iterate
      · intro name assigns
        exact assigns.child (by simp [Node.children, Stmt.children]) rfl
      · exact branch_changesOnly declares bodyHypothesis
          (by simp [Node.children, Stmt.children]) rfl
  | breakLoop =>
      apply ChangesOnly.leftBy _ rfl
      rw [exec]
      exact changesOnly_begin (changesOnly_runSignal _ _ _)
  | continueLoop =>
      apply ChangesOnly.leftBy _ rfl
      rw [exec]
      exact changesOnly_begin (changesOnly_runSignal _ _ _)

/--
A statement that completes declares what its text says in the active scope, and
one that fails declares nothing.
-/
theorem outline_exec
    (settings : Settings)
    (budget : Nat)
    {stmt : Stmt}
    (placed : stmt.Placed)
    (state : State) :
    (exec settings budget stmt state).Ends fun
      | .ok _, after => after.outline = state.outline.behind stmt
      | .error _, after => after.outline = state.outline := by
  refine (leftBy_exec settings budget placed state).imp ?_
  intro result after left
  rcases result with error | completion
  · exact left.outline
  · exact left.outline

/--
A statement that is no declaration declares nothing outside of its own blocks.
-/
theorem keepsOutline_exec
    (settings : Settings)
    (budget : Nat)
    {stmt : Stmt}
    (placed : stmt.Placed)
    (declares : stmt.declares? = none)
    (state : State) :
    (exec settings budget stmt state).Ends fun _ after =>
      after.outline = state.outline :=
  (leftBy_exec settings budget placed state).imp fun _ _ left =>
    ((leftBy_iff_changedBy declares).mp left).outline

end Evaluation

end Lox
