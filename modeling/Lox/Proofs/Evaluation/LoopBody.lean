import Lox.Proofs.Evaluation.HiddenScope
import Lox.Proofs.Grammar.Placement

namespace Lox.Evaluation

/-!
# Loop bodies without their scope

A for loop repeats its body and its increment in a scope that the text does not
have.  Nothing is ever bound in that scope.  So the two run as if one stood behind
the other in the scope around them; only a trace tells the difference.
-/

/-- Logs that print the same texts. -/
def SamePrinted
    (log other : List Event) :
    Prop :=
  other.filterMap Event.printedText? = log.filterMap Event.printedText?

/-- States that only traces tell apart. -/
def State.Agrees
    (state other : State) :
    Prop :=
  State.Paired Eq SamePrinted state other

/-- Both runs end in the same way and in related states, or neither of them ends. -/
inductive Run.Coincide (related : State → State → Prop) : Run → Run → Prop where
  | unfinished :
      Coincide related none none
  | ended
      {result : Except RuntimeError Completion}
      {after after' : State} :
      related after after' →
      Coincide related (some (result, after)) (some (result, after'))

/-- Runs that only traces tell apart. -/
def Run.Agrees
    (run other : Run) :
    Prop :=
  Run.Coincide State.Agrees run other

/-- The same event in front of both keeps the same prints. -/
theorem samePrinted_cons
    {log other : List Event}
    (event : Event)
    (same : SamePrinted log other) :
    SamePrinted (event :: log) (event :: other) := by
  unfold SamePrinted at same ⊢
  rw [List.filterMap_cons, List.filterMap_cons, same]

theorem SamePrinted.symm
    {log other : List Event}
    (same : SamePrinted log other) :
    SamePrinted other log :=
  Eq.symm same

namespace State

/-- Every state agrees with itself. -/
theorem Agrees.refl
    (state : State) :
    state.Agrees state :=
  ⟨rfl, rfl, rfl⟩

/-- States agree either way round. -/
theorem Agrees.symm
    {state other : State}
    (agrees : state.Agrees other) :
    other.Agrees state :=
  ⟨agrees.environment.symm, agrees.loopDepth.symm, agrees.log.symm⟩

/-- States that agree with the same state agree with each other. -/
theorem Agrees.trans
    {first second third : State}
    (earlier : first.Agrees second)
    (later : second.Agrees third) :
    first.Agrees third :=
  ⟨earlier.environment.trans later.environment,
    later.loopDepth.trans earlier.loopDepth, Eq.trans later.log earlier.log⟩

/-- States that agree do so with a scope opened in both. -/
theorem Agrees.openScope
    {state other : State}
    (agrees : state.Agrees other) :
    state.openScope.Agrees other.openScope :=
  ⟨congrArg Environment.enter agrees.environment, agrees.loopDepth, agrees.log⟩

/-- States that agree do so with a scope closed in both. -/
theorem Agrees.closeScope
    {state other : State}
    (agrees : state.Agrees other) :
    state.closeScope.Agrees other.closeScope :=
  ⟨congrArg Environment.leave agrees.environment, agrees.loopDepth, agrees.log⟩

theorem Agrees.enterLoop
    {state other : State}
    (agrees : state.Agrees other) :
    state.enterLoop.Agrees other.enterLoop :=
  ⟨agrees.environment, congrArg (· + 1) agrees.loopDepth, agrees.log⟩

theorem Agrees.leaveLoop
    {state other : State}
    (agrees : state.Agrees other) :
    state.leaveLoop.Agrees other.leaveLoop :=
  ⟨agrees.environment, congrArg (· - 1) agrees.loopDepth, agrees.log⟩

/-- A line that only one run traces makes no difference. -/
theorem Paired.beginLeft
    {scopes : Environment → Environment → Prop}
    {state other : State}
    (paired : State.Paired scopes SamePrinted state other)
    (settings : Settings)
    (nodeClass : NodeClass) :
    State.Paired scopes SamePrinted (state.begin settings nodeClass) other := by
  unfold State.begin State.trace
  split
  · exact ⟨paired.environment, paired.loopDepth, paired.log⟩
  · exact paired

/-- A line that only the other run traces makes no difference, either. -/
theorem Paired.beginRight
    {scopes : Environment → Environment → Prop}
    {state other : State}
    (paired : State.Paired scopes SamePrinted state other)
    (settings : Settings)
    (nodeClass : NodeClass) :
    State.Paired scopes SamePrinted state (other.begin settings nodeClass) := by
  unfold State.begin State.trace
  split
  · exact ⟨paired.environment, paired.loopDepth, paired.log⟩
  · exact paired

end State

namespace Run

variable {related inside : State → State → Prop} {run other : Run}

/-- A run that coincides with one that ends has the same result. -/
theorem Coincide.exists_other
    (coincide : Coincide related run other)
    {result : Except RuntimeError Completion}
    {after : State}
    (ended : run = some (result, after)) :
    ∃ after', other = some (result, after') ∧ related after after' := by
  cases coincide with
  | unfinished => cases ended
  | ended between =>
      cases ended
      exact ⟨_, rfl, between⟩

/-- Runs agree either way round. -/
theorem Agrees.symm
    (agrees : Run.Agrees run other) :
    Run.Agrees other run := by
  cases agrees with
  | unfinished => exact .unfinished
  | ended between => exact .ended between.symm

/-- Runs coincide when scopes or loops are left behind both. -/
theorem Coincide.restoring
    {restore restore' : State → State}
    (coincide : Coincide inside run other)
    (restored : ∀ state state', inside state state' →
      related (restore state) (restore' state')) :
    Coincide related (restoring restore run)
      (Evaluation.restoring restore' other) := by
  cases coincide with
  | unfinished => exact .unfinished
  | ended between => exact .ended (restored _ _ between)

/-- Runs coincide in sequence if their parts do. -/
theorem Coincide.proceed
    {next next' : Completion → State → Run}
    (coincide : Coincide related run other)
    (later : ∀ completion after after',
      run = some (.ok completion, after) →
        related after after' →
          Coincide related (next completion after) (next' completion after')) :
    Coincide related (proceed run next) (Evaluation.proceed other next') := by
  cases coincide with
  | unfinished => exact .unfinished
  | @ended result after after' between =>
      cases result with
      | error => exact .ended between
      | ok completion => exact later completion after after' rfl between

/-- Runs that follow each other coincide. -/
theorem coincide_of_follows
    {scopes : Environment → Environment → Prop}
    {logs : List Event → List Event → Prop}
    (follows : Follows .same (State.Paired scopes logs) run other)
    (leads :
      Follows .same
        (State.Paired (fun environment other => scopes other environment)
          fun log other => logs other log)
        other run) :
    Coincide (State.Paired scopes logs) run other := by
  rcases run with _ | ⟨result, after⟩
  · rcases other with _ | ⟨result', after'⟩
    · exact .unfinished
    · obtain ⟨_, _, ended, -⟩ := ends_some.mp leads
      cases ended
  · obtain ⟨result', after', ended, alike, between⟩ := ends_some.mp follows
    rw [ended, alike.eq]
    exact .ended between

end Run

namespace Simulation

variable
  {declares : Nat → Prop}
  {scopes : Nat → Environment → Environment → Prop}
  {logs : List Event → List Event → Prop}
  {level : Nat}
  {state other : State}

/-- By a simulation, every statement coincides with itself. -/
theorem coincide_exec
    (simulation : Simulation .same declares scopes logs)
    (settings : Settings)
    (budget : Nat)
    {stmt : Stmt}
    (corresponds : Stmt.Corresponds .same declares level stmt stmt)
    (paired : State.Paired (scopes level) logs state other) :
    Run.Coincide (State.Paired (scopes level) logs)
      (exec settings budget stmt state) (exec settings budget stmt other) := by
  have flipped := simulation.flip
  rw [Correspondence.flip_same] at flipped
  exact Run.coincide_of_follows
    (simulation.follows_exec settings (Nat.le_refl budget) corresponds paired)
    (flipped.follows_exec settings (Nat.le_refl budget) corresponds paired.flip)

/-- By a simulation, every expression statement coincides with itself. -/
theorem coincide_runExpression
    (simulation : Simulation .same declares scopes logs)
    (settings : Settings)
    (expr : Expr)
    (paired : State.Paired (scopes level) logs state other) :
    Run.Coincide (State.Paired (scopes level) logs)
      (runExpression settings expr state) (runExpression settings expr other) := by
  have flipped := simulation.flip
  rw [Correspondence.flip_same] at flipped
  have corresponds := Expr.corresponds_same expr
  exact Run.coincide_of_follows
    (simulation.follows_runExpression settings corresponds paired)
    (flipped.follows_runExpression settings corresponds paired.flip)

end Simulation

/-- Agreement of prints, with equal environments, is a simulation. -/
theorem simulation_agrees :
    Simulation .same (fun _ => True) (fun _ => Eq) SamePrinted :=
  simulation_eq Correspondence.faithful_same fun _ _ event same =>
    samePrinted_cons event same

/-- Statements run alike from states that agree. -/
theorem State.Agrees.exec
    {state other : State}
    (agrees : state.Agrees other)
    (settings : Settings)
    (budget : Nat)
    (stmt : Stmt) :
    Run.Agrees (exec settings budget stmt state)
      (Evaluation.exec settings budget stmt other) :=
  simulation_agrees.coincide_exec settings budget
    (Stmt.corresponds_same 0 stmt fun _ _ => trivial) agrees

/-- The second run has an empty scope more. -/
theorem simulation_hidden :
    Simulation .same (0 < ·) Environment.Padded SamePrinted :=
  simulation_padded fun _ _ event same => samePrinted_cons event same

/-- A body and its increment one after the other, in no scope of their own. -/
def inTurn
    (settings : Settings)
    (budget : Nat)
    (body : Stmt)
    (increment : Expr)
    (state : State) :
    Run :=
  proceed (exec settings budget body state) fun
    | .broke, after => some (.ok .broke, after)
    | _, after => runExpression settings increment after

/-- Restoring nothing keeps a run. -/
theorem restoring_id
    (run : Run) :
    restoring id run = run := by
  rcases run with _ | ⟨result, state⟩
  · rfl
  · rfl

/-- One statement in a list runs as it does alone. -/
theorem execAll_singleton
    (settings : Settings)
    (budget : Nat)
    (stmt : Stmt)
    (state : State) :
    execAll settings budget [stmt] state = exec settings budget stmt state := by
  rw [execAll]
  rcases exec settings budget stmt state with _ | ⟨error | (_ | _ | _), after⟩
  · rfl
  · rfl
  · rfl
  · rfl
  · rfl

/-- Of two statements in a list, the second runs if the first completes normally. -/
theorem execAll_pair
    (settings : Settings)
    (budget : Nat)
    (first second : Stmt)
    (state : State) :
    execAll settings budget [first, second] state =
      proceed (exec settings budget first state) fun
        | .normal, after => exec settings budget second after
        | signal, after => some (.ok signal, after) := by
  rw [execAll]
  refine congrArg (proceed (exec settings budget first state)) ?_
  funext completion after
  cases completion with
  | normal => exact execAll_singleton settings budget second after
  | broke => rfl
  | continued => rfl

section LoopBody

variable {settings : Settings} {budget : Nat} {body : Stmt} {increment : Expr}
  {state other : State}

/-- The scope that is opened around a body and its increment makes no difference. -/
theorem inTurn_agrees_loopBody
    (placed : Grammar.PlacedStatement body)
    (agrees : state.Agrees other) :
    Run.Agrees (inTurn settings budget body increment state)
      (exec settings budget (.loopBody body increment) other) := by
  have opened : State.Paired (Environment.Padded 0) SamePrinted state
      (other.begin settings .loopBody).openScope := by
    have begun := State.Paired.beginRight agrees settings .loopBody
    refine ⟨?_, begun.loopDepth, begun.log⟩
    rw [State.openScope, ← begun.environment]
    exact state.environment.padded_enter
  have bodies := simulation_hidden.coincide_exec settings budget
    (placed.1.corresponds_same placed.2) opened
  rw [exec, ← restoring_id (inTurn settings budget body increment state)]
  refine Run.Coincide.restoring (bodies.proceed ?_) ?_
  · intro completion after after' _ paired
    have increments := simulation_hidden.coincide_runExpression settings increment
      (paired.beginRight settings .expression)
    cases completion with
    | normal => exact increments
    | broke => exact .ended paired
    | continued => exact increments
  · intro after after' paired
    exact ⟨paired.environment.leave_eq.symm, paired.loopDepth, paired.log⟩

/--
A block of a body and its increment runs as the
loop body, unless the body is continued.
-/
theorem loopBody_agrees_block
    (uncontinued :
      ∀ after, exec settings budget body state.openScope ≠
        some (.ok .continued, after)) :
    Run.Agrees (exec settings budget (.loopBody body increment) state)
      (exec settings budget (.block [body, .expression increment]) state) := by
  have opened : (state.begin settings .loopBody).openScope.Agrees state.openScope :=
    State.Agrees.openScope
      (State.Paired.beginLeft (State.Agrees.refl state) settings .loopBody)
  have blockOpened :
      state.openScope.Agrees (state.begin settings .block).openScope :=
    State.Agrees.openScope
      (State.Paired.beginRight (State.Agrees.refl state) settings .block)
  have bodies := (opened.trans blockOpened).exec settings budget body
  rw [exec, exec, execAll_pair]
  refine Run.Coincide.restoring (bodies.proceed ?_) fun _ _ agrees =>
    State.Agrees.closeScope agrees
  intro completion after after' reached agrees
  have increments :=
    State.Agrees.exec agrees settings budget (.expression increment)
  rw [exec] at increments
  cases completion with
  | normal => exact increments
  | broke => exact .ended agrees
  | continued =>
      obtain ⟨between, ended, -⟩ :=
        (opened.exec settings budget body).exists_other reached
      exact (uncontinued between ended).elim

end LoopBody

end Lox.Evaluation
