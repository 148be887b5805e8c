import Lox.Proofs.Evaluation.Likeness
import Lox.Proofs.Evaluation.Run

namespace Lox.Evaluation

/-!
# Runs that go alike

Two runs go side by side if they start in states that are related and each of their
steps keeps the states related.  Then the one follows the other: where the one ends,
so does the other, if it may iterate its loops as often.

The scopes may be related differently at each level of blocks inside the statements
compared, and a relation need not outlast a declaration at every level.  The logs
may be related in any way that outlasts the record of one more event on both sides.
-/

/-- A relation between the states of two runs that all steps keep. -/
structure Simulation
    (tokens : Correspondence)
    (declares : Nat → Prop)
    (scopes : Nat → Environment → Environment → Prop)
    (logs : List Event → List Event → Prop) :
    Prop where
  kinds : tokens.KeepsKinds
  sameValues : ∀ level, SameValues tokens (scopes level)
  defined :
    ∀ ⦃level : Nat⦄ ⦃environment other : Environment⦄ ⦃name name' : Token⦄,
      declares level →
        scopes level environment other →
          tokens.names name name' →
            ∀ value,
              scopes level (environment.define name.lexeme value)
                (other.define name'.lexeme value)
  entered :
    ∀ ⦃level : Nat⦄ ⦃environment other : Environment⦄,
      scopes level environment other →
        scopes (level + 1) environment.enter other.enter
  left :
    ∀ ⦃level : Nat⦄ ⦃environment other : Environment⦄,
      scopes (level + 1) environment other →
        scopes level environment.leave other.leave
  recorded :
    ∀ ⦃log other : List Event⦄ event,
      logs log other → logs (event :: log) (event :: other)

/-- States at the same step of two runs. -/
structure State.Paired
    (scopes : Environment → Environment → Prop)
    (logs : List Event → List Event → Prop)
    (state other : State) :
    Prop where
  environment : scopes state.environment other.environment
  loopDepth : other.loopDepth = state.loopDepth
  log : logs state.log other.log

/-- Two states are paired either way round. -/
theorem State.Paired.flip
    {scopes : Environment → Environment → Prop}
    {logs : List Event → List Event → Prop}
    {state other : State}
    (paired : State.Paired scopes logs state other) :
    State.Paired (fun environment other => scopes other environment)
      (fun log other => logs other log) other state :=
  ⟨paired.environment, paired.loopDepth.symm, paired.log⟩

/-- Where a run ends, the other does, alike and in a related state. -/
def Run.Follows
    (tokens : Correspondence)
    (related : State → State → Prop)
    (run other : Run) :
    Prop :=
  run.Ends fun result after =>
    ∃ result' after',
      other = some (result', after') ∧ Alike tokens result result' ∧
        related after after'

variable
  {tokens : Correspondence}
  {declares : Nat → Prop}
  {scopes : Nat → Environment → Environment → Prop}
  {logs : List Event → List Event → Prop}

namespace Run

variable {related inside : State → State → Prop}

/-- Two runs that end alike follow each other. -/
theorem follows_some
    {result result' : Except RuntimeError Completion}
    {after after' : State}
    (alike : Alike tokens result result')
    (paired : related after after') :
    Follows tokens related (some (result, after)) (some (result', after')) :=
  ends_some.mpr ⟨result', after', rfl, alike, paired⟩

/-- A run that follows does so when scopes or loops are left behind both. -/
theorem Follows.restoring
    {restore restore' : State → State}
    {run other : Run}
    (follows : Follows tokens inside run other)
    (restored : ∀ state state', inside state state' →
      related (restore state) (restore' state')) :
    Follows tokens related (restoring restore run)
      (Evaluation.restoring restore' other) := by
  unfold Follows
  rw [ends_restoring]
  refine Ends.imp follows ?_
  intro result after ended
  obtain ⟨result', after', otherEnded, alike, paired⟩ := ended
  exact ⟨result', restore' after', by rw [otherEnded]; rfl, alike,
    restored _ _ paired⟩

/-- Runs go on alike from where the one that ends comes to. -/
theorem Follows.proceed_reached
    {first first' : Run}
    {next next' : Completion → State → Run}
    (earlier : Follows tokens related first first')
    (later : ∀ completion state state',
      first = some (.ok completion, state) →
        related state state' →
          Follows tokens related (next completion state)
            (next' completion state')) :
    Follows tokens related (proceed first next)
      (Evaluation.proceed first' next') := by
  rcases first with _ | ⟨error | completion, state⟩
  · exact ends_none
  · obtain ⟨result', after', otherEnded, alike, paired⟩ := ends_some.mp earlier
    rw [otherEnded]
    cases alike with
    | error matched => exact follows_some (.error matched) paired
  · obtain ⟨result', after', otherEnded, alike, paired⟩ := ends_some.mp earlier
    rw [otherEnded]
    cases alike with
    | ok => exact later completion state after' rfl paired

/--
Where two runs follow each other and so does what comes after, both do in sequence.
-/
theorem Follows.proceed
    {first first' : Run}
    {next next' : Completion → State → Run}
    (earlier : Follows tokens related first first')
    (later : ∀ completion state state',
      related state state' →
        Follows tokens related (next completion state) (next' completion state')) :
    Follows tokens related (proceed first next) (Evaluation.proceed first' next') :=
  earlier.proceed_reached fun completion state state' _ paired =>
    later completion state state' paired

end Run

namespace Simulation

/-- The same simulation with the runs exchanged. -/
theorem flip
    (simulation : Simulation tokens declares scopes logs) :
    Simulation tokens.flip declares
      (fun level environment other => scopes level other environment)
      (fun log other => logs other log) where
  kinds := simulation.kinds.flip
  sameValues level :=
    { found := by
        intro environment other name name' between named
        exact ((simulation.sameValues level).found between named).symm
      assigned := by
        intro environment other name name' between named value
        have assigned := (simulation.sameValues level).assigned between named value
        generalize environment.assign? name.lexeme value = changed at assigned ⊢
        generalize other.assign? name'.lexeme value = changed' at assigned ⊢
        cases assigned with
        | some after => exact .some after
        | none => exact .none }
  defined := by
    intro level environment other name name' allowed between named
    exact simulation.defined allowed between named
  entered := by
    intro level environment other between
    exact simulation.entered between
  left := by
    intro level environment other between
    exact simulation.left between
  recorded := by
    intro log other event between
    exact simulation.recorded event between

section Steps

variable {level : Nat} {state other : State}

/-- An event that both states record keeps them paired. -/
theorem paired_record
    (simulation : Simulation tokens declares scopes logs)
    (paired : State.Paired (scopes level) logs state other)
    (event : Event) :
    State.Paired (scopes level) logs (state.record event) (other.record event) :=
  ⟨paired.environment, paired.loopDepth, simulation.recorded event paired.log⟩

/-- Two states stay paired when both begin a statement of the same class. -/
theorem paired_begin
    (simulation : Simulation tokens declares scopes logs)
    (paired : State.Paired (scopes level) logs state other)
    (settings : Settings)
    (nodeClass : NodeClass) :
    State.Paired (scopes level) logs (state.begin settings nodeClass)
      (other.begin settings nodeClass) := by
  unfold State.begin State.trace
  split
  · exact simulation.paired_record paired _
  · exact paired

/-- A scope that both open takes them one level down. -/
theorem paired_openScope
    (simulation : Simulation tokens declares scopes logs)
    (paired : State.Paired (scopes level) logs state other) :
    State.Paired (scopes (level + 1)) logs state.openScope other.openScope :=
  ⟨simulation.entered paired.environment, paired.loopDepth, paired.log⟩

/-- A scope that both close takes them one level up. -/
theorem paired_closeScope
    (simulation : Simulation tokens declares scopes logs)
    (paired : State.Paired (scopes (level + 1)) logs state other) :
    State.Paired (scopes level) logs state.closeScope other.closeScope :=
  ⟨simulation.left paired.environment, paired.loopDepth, paired.log⟩

theorem paired_enterLoop
    (paired : State.Paired (scopes level) logs state other) :
    State.Paired (scopes level) logs state.enterLoop other.enterLoop :=
  ⟨paired.environment, congrArg (· + 1) paired.loopDepth, paired.log⟩

theorem paired_leaveLoop
    (paired : State.Paired (scopes level) logs state other) :
    State.Paired (scopes level) logs state.leaveLoop other.leaveLoop :=
  ⟨paired.environment, congrArg (· - 1) paired.loopDepth, paired.log⟩

/-- Both runs evaluate corresponding expressions, and go on with the same value. -/
theorem follows_withValue
    (simulation : Simulation tokens declares scopes logs)
    {expr expr' : Expr}
    (corresponds : Expr.Corresponds tokens expr expr')
    (paired : State.Paired (scopes level) logs state other)
    {next next' : Value → State → Run}
    (later : ∀ value after after',
      State.Paired (scopes level) logs after after' →
        Run.Follows tokens (State.Paired (scopes level) logs) (next value after)
          (next' value after')) :
    Run.Follows tokens (State.Paired (scopes level) logs)
      (withValue state expr next) (withValue other expr' next') := by
  obtain ⟨result, environment⟩ :=
    endAlike_eval simulation.kinds (simulation.sameValues level) corresponds
      paired.environment
  unfold withValue State.evaluate
  generalize eval expr state.environment = evaluated at result environment ⊢
  generalize eval expr' other.environment = evaluated' at result environment ⊢
  obtain ⟨value, between⟩ := evaluated
  obtain ⟨value', between'⟩ := evaluated'
  have after :
      State.Paired (scopes level) logs { state with environment := between }
      { other with environment := between' } :=
    ⟨environment, paired.loopDepth, paired.log⟩
  cases result with
  | ok => exact later _ _ _ after
  | error matched => exact Run.follows_some (.error matched) after

/-- Expression statements that correspond follow each other. -/
theorem follows_runExpression
    (simulation : Simulation tokens declares scopes logs)
    (settings : Settings)
    {inner inner' : Expr}
    (corresponds : Expr.Corresponds tokens inner inner')
    (paired : State.Paired (scopes level) logs state other) :
    Run.Follows tokens (State.Paired (scopes level) logs)
      (runExpression settings inner state)
        (runExpression settings inner' other) := by
  apply simulation.follows_withValue corresponds paired
  intro value after after' paired
  apply Run.follows_some .ok
  split
  · exact simulation.paired_record paired _
  · exact paired

/--
Definitions of corresponding names follow each other, where declarations are
allowed.
-/
theorem follows_runDefinition
    (simulation : Simulation tokens declares scopes logs)
    {name name' : Token}
    (allowed : declares level)
    (named : tokens.names name name')
    (value : Value)
    (paired : State.Paired (scopes level) logs state other) :
    Run.Follows tokens (State.Paired (scopes level) logs)
      (runDefinition name value state) (runDefinition name' value other) := by
  unfold runDefinition
  apply Run.follows_some .ok
  exact ⟨simulation.defined allowed paired.environment named value,
    paired.loopDepth, paired.log⟩

/-- Signals in states with the same number of loops follow each other. -/
theorem follows_runSignal
    {keyword keyword' : Token}
    (marked : tokens.marks keyword keyword')
    (signal : Completion)
    (paired : State.Paired (scopes level) logs state other) :
    Run.Follows tokens (State.Paired (scopes level) logs)
      (runSignal keyword signal state) (runSignal keyword' signal other) := by
  unfold runSignal
  rw [paired.loopDepth]
  split
  · exact Run.follows_some (.blamed marked rfl) paired
  · exact Run.follows_some .ok paired

/-- The runs of a loop go alike round by round, and the second has rounds enough. -/
theorem follows_iterate
    (simulation : Simulation tokens declares scopes logs)
    {condition condition' : Expr}
    (corresponds : Expr.Corresponds tokens condition condition')
    {body body' : State → Run}
    (repeated : ∀ state other,
      State.Paired (scopes level) logs state other →
        Run.Follows tokens (State.Paired (scopes level) logs)
          (body state) (body' other))
    {budget budget' : Nat}
    (enough : budget ≤ budget')
    (paired : State.Paired (scopes level) logs state other) :
    Run.Follows tokens (State.Paired (scopes level) logs)
      (iterate condition body budget state)
        (iterate condition' body' budget' other) := by
  induction budget generalizing budget' state other with
  | zero =>
      exact Run.ends_none
  | succ budget inductionHypothesis =>
      obtain ⟨more, rfl⟩ : ∃ more, budget' = more + 1 := ⟨budget' - 1, by omega⟩
      rw [iterate_succ, iterate_succ]
      apply simulation.follows_withValue corresponds paired
      intro value tested tested' paired
      split
      · apply (repeated tested tested' paired).proceed
        intro completion after after' paired
        cases completion with
        | normal => exact inductionHypothesis (by omega) paired
        | broke => exact Run.follows_some .ok paired
        | continued => exact inductionHypothesis (by omega) paired
      · exact Run.follows_some .ok paired

end Steps

variable {budget budget' : Nat}

mutual

/-- Corresponding statements run alike from states that are related. -/
theorem follows_exec
    (simulation : Simulation tokens declares scopes logs)
    (settings : Settings)
    (enough : budget ≤ budget') :
    ∀ {level : Nat} {stmt stmt' : Stmt},
      Stmt.Corresponds tokens declares level stmt stmt' →
        ∀ {state other : State},
          State.Paired (scopes level) logs state other →
            Run.Follows tokens (State.Paired (scopes level) logs)
              (exec settings budget stmt state) (exec settings budget' stmt' other)
  | _, _, _, .expression inner, _, _, paired => by
      rw [exec, exec]
      exact simulation.follows_runExpression settings inner
        (simulation.paired_begin paired _ _)
  | _, _, _, .print inner, _, _, paired => by
      rw [exec, exec]
      apply simulation.follows_withValue inner (simulation.paired_begin paired _ _)
      intro value after after' paired
      exact Run.follows_some .ok (simulation.paired_record paired _)
  | _, _, _, .var allowed named, _, _, paired => by
      rw [exec, exec]
      exact simulation.follows_runDefinition allowed named .nil
        (simulation.paired_begin paired _ _)
  | _, _, _, .initialized allowed named initial, _, _, paired => by
      rw [exec, exec]
      apply simulation.follows_withValue initial
        (simulation.paired_begin paired _ _)
      intro value after after' paired
      exact simulation.follows_runDefinition allowed named value paired
  | _, _, _, .block elements, _, _, paired => by
      rw [exec, exec]
      have opened :=
        simulation.paired_openScope (simulation.paired_begin paired settings .block)
      have elementsFollow :=
        simulation.follows_execAll settings enough elements opened
      exact elementsFollow.restoring fun _ _ paired =>
        simulation.paired_closeScope paired
  | level, _, _, .loopBody body increment, _, _, paired => by
      rw [exec, exec]
      have opened :=
        simulation.paired_openScope
          (simulation.paired_begin paired settings .loopBody)
      have bodyFollows := simulation.follows_exec settings enough body opened
      refine Run.Follows.restoring (bodyFollows.proceed ?_)
        fun _ _ paired => simulation.paired_closeScope paired
      intro completion after after' paired
      have incremented := simulation.follows_runExpression settings increment
        (simulation.paired_begin paired settings .expression)
      cases completion with
      | normal => exact incremented
      | broke => exact Run.follows_some .ok paired
      | continued => exact incremented
  | _, _, _, .ifThen condition thenPart, _, _, paired => by
      rw [exec, exec]
      apply simulation.follows_withValue condition
        (simulation.paired_begin paired _ _)
      intro value tested tested' paired
      split
      · exact simulation.follows_exec settings enough thenPart paired
      · exact Run.follows_some .ok paired
  | _, _, _, .ifElse condition thenPart elsePart, _, _, paired => by
      rw [exec, exec]
      apply simulation.follows_withValue condition
        (simulation.paired_begin paired _ _)
      intro value tested tested' paired
      split
      · exact simulation.follows_exec settings enough thenPart paired
      · exact simulation.follows_exec settings enough elsePart paired
  | level, _, _, .whileLoop condition body, _, _, paired => by
      rw [exec, exec]
      have entered :=
        paired_enterLoop (simulation.paired_begin paired settings .whileLoop)
      have repeats := simulation.follows_iterate condition
        (fun _ _ paired =>
          simulation.follows_exec settings enough body paired) enough entered
      exact repeats.restoring fun _ _ paired => paired_leaveLoop paired
  | _, _, _, .breakLoop marked, _, _, paired => by
      rw [exec, exec]
      exact follows_runSignal marked .broke (simulation.paired_begin paired _ _)
  | _, _, _, .continueLoop marked, _, _, paired => by
      rw [exec, exec]
      exact follows_runSignal marked .continued (simulation.paired_begin paired _ _)

/-- Statements in order that correspond one by one follow each other. -/
theorem follows_execAll
    (simulation : Simulation tokens declares scopes logs)
    (settings : Settings)
    (enough : budget ≤ budget') :
    ∀ {level : Nat} {statements statements' : List Stmt},
      Stmt.Correspond tokens declares level statements statements' →
        ∀ {state other : State},
          State.Paired (scopes level) logs state other →
            Run.Follows tokens (State.Paired (scopes level) logs)
              (execAll settings budget statements state)
              (execAll settings budget' statements' other)
  | _, _, _, .nil, _, _, paired => by
      rw [execAll, execAll]
      exact Run.follows_some .ok paired
  | _, _, _, .cons first rest, _, _, paired => by
      rw [execAll, execAll]
      apply (simulation.follows_exec settings enough first paired).proceed
      intro completion after after' paired
      cases completion with
      | normal => exact simulation.follows_execAll settings enough rest paired
      | broke => exact Run.follows_some .ok paired
      | continued => exact Run.follows_some .ok paired

end

end Simulation

/-- Programs that came equally far, in states that are related. -/
structure Progress.Paired
    (tokens : Correspondence)
    (related : State → State → Prop)
    (progress other : Progress) :
    Prop where
  completions : other.completions = progress.completions
  error? : Option.Rel (Matches tokens) progress.error? other.error?
  state : related progress.state other.state

/-- Programs of corresponding statements run alike. -/
theorem Simulation.exists_execProgram
    (simulation : Simulation tokens declares scopes logs)
    {settings : Settings}
    {budget budget' : Nat}
    (enough : budget ≤ budget')
    {level : Nat}
    {program program' : Program}
    (correspond : Stmt.Correspond tokens declares level program program')
    {state other : State}
    (paired : State.Paired (scopes level) logs state other)
    {progress : Progress}
    (ended : execProgram settings budget program state = some progress) :
    ∃ progress',
      execProgram settings budget' program' other = some progress' ∧
        Progress.Paired tokens (State.Paired (scopes level) logs)
          progress progress' := by
  induction program generalizing program' state other progress with
  | nil =>
      cases correspond
      cases ended
      exact ⟨⟨[], none, other⟩, rfl, rfl, .none, paired⟩
  | cons first rest inductionHypothesis =>
      cases correspond with
      | cons firstCorresponds restCorrespond =>
          have follows :=
            simulation.follows_exec settings enough firstCorresponds paired
          rw [execProgram] at ended ⊢
          rcases run : exec settings budget first state with
            _ | ⟨error | completion, after⟩
          · rw [run] at ended
            cases ended
          · obtain ⟨result', after', otherEnded, alike, between⟩ := follows run
            rw [run] at ended
            cases ended
            rw [otherEnded]
            cases alike with
            | error matched => exact ⟨_, rfl, rfl, .some matched, between⟩
          · obtain ⟨result', after', otherEnded, alike, between⟩ := follows run
            simp only [run, Option.map_eq_some_iff] at ended
            obtain ⟨later, laterEnded, rfl⟩ := ended
            obtain ⟨later', laterEnded', completions, error?, last⟩ :=
              inductionHypothesis restCorrespond between laterEnded
            rw [otherEnded]
            cases alike with
            | ok =>
                refine ⟨_, Option.map_eq_some_iff.mpr
                  ⟨later', laterEnded', rfl⟩, ?_, error?, last⟩
                exact congrArg (completion :: ·) completions

/-- Interpretations that ended alike, each with its own error if there is one. -/
inductive Interpreted
    (settings : Settings)
    (tokens : Correspondence)
    (related : State → State → Prop) :
    Bool → State → State → Prop where
  | finished
      {after after' : State} :
      related after after' →
      Interpreted settings tokens related true after after'
  | stopped
      {before before' : State}
      {error error' : RuntimeError} :
      related before before' →
      Matches tokens error error' →
      Interpreted settings tokens related false (before.recordError settings error)
        (before'.recordError settings error')

/-- Programs of corresponding statements are interpreted alike. -/
theorem Simulation.exists_interpret
    (simulation : Simulation tokens declares scopes logs)
    {settings : Settings}
    {budget budget' : Nat}
    (enough : budget ≤ budget')
    {level : Nat}
    {program program' : Program}
    (correspond : Stmt.Correspond tokens declares level program program')
    {state other after : State}
    (paired : State.Paired (scopes level) logs state.atGlobals other.atGlobals)
    {finished : Bool}
    (ended : interpret settings budget program state = some (finished, after)) :
    ∃ after',
      interpret settings budget' program' other = some (finished, after') ∧
        Interpreted settings tokens (State.Paired (scopes level) logs) finished
          after after' := by
  obtain ⟨progress, run, outcome⟩ := Option.map_eq_some_iff.mp ended
  obtain ⟨progress', run', -, errors, last⟩ :=
    simulation.exists_execProgram enough correspond paired run
  unfold interpret
  rw [run', Option.map_some]
  rcases progress with ⟨completions, error?, last⟩
  rcases progress' with ⟨completions', error?', last'⟩
  dsimp only at errors outcome last
  cases errors with
  | none =>
      cases outcome
      exact ⟨last', rfl, .finished last⟩
  | some matched =>
      cases outcome
      exact ⟨_, rfl, .stopped last matched⟩

/--
Interpretations that ended alike if they ended, and either both did or neither.
-/
def InterpretedAlike
    (settings : Settings)
    (tokens : Correspondence)
    (related : State → State → Prop) :
    Option (Bool × State) → Option (Bool × State) → Prop :=
  Option.Rel fun ending other =>
    other.1 = ending.1 ∧
      Interpreted settings tokens related ending.1 ending.2 other.2

namespace InterpretedAlike

variable
  {settings : Settings}
  {related : State → State → Prop}
  {ended ended' : Option (Bool × State)}

/-- Neither of two runs that end alike exceeds its budget alone. -/
theorem eq_none_iff
    (alike : InterpretedAlike settings tokens related ended ended') :
    ended' = none ↔ ended = none := by
  cases alike with
  | none => exact Iff.rfl
  | some => exact ⟨nofun, nofun⟩

/--
Where one of two such runs ends, so does the other, with a corresponding result.
-/
theorem exists_interpreted
    (alike : InterpretedAlike settings tokens related ended ended')
    {finished : Bool}
    {after : State}
    (ends : ended = some (finished, after)) :
    ∃ after',
      ended' = some (finished, after') ∧
        Interpreted settings tokens related finished after after' := by
  cases alike with
  | none => cases ends
  | @some ending other both =>
      obtain ⟨sameEnd, interpreted⟩ := both
      cases ends
      exact ⟨other.2, congrArg some (Prod.ext sameEnd rfl), interpreted⟩

end InterpretedAlike

/-- Within the same budget corresponding programs end alike, or neither ends. -/
theorem Simulation.interpretedAlike
    (simulation : Simulation tokens declares scopes logs)
    (settings : Settings)
    (budget : Nat)
    {level : Nat}
    {program program' : Program}
    (correspond : Stmt.Correspond tokens declares level program program')
    {state other : State}
    (paired : State.Paired (scopes level) logs state.atGlobals other.atGlobals) :
    InterpretedAlike settings tokens (State.Paired (scopes level) logs)
      (interpret settings budget program state)
        (interpret settings budget program' other) := by
  rcases run : interpret settings budget program state with _ | ⟨finished, after⟩
  · rcases run' : interpret settings budget program' other with
      _ | ⟨finished', after'⟩
    · exact .none
    · obtain ⟨after, ended, -⟩ :=
        simulation.flip.exists_interpret (Nat.le_refl budget)
          correspond.flip paired.flip run'
      rw [run] at ended
      cases ended
  · obtain ⟨after', ended, interpreted⟩ :=
      simulation.exists_interpret (Nat.le_refl budget) correspond paired run
    rw [ended]
    exact .some ⟨rfl, interpreted⟩

/-- Names have the same values in the same scopes. -/
theorem sameValues_eq
    (faithful : tokens.Faithful) :
    SameValues tokens Eq := by
  apply SameValues.of_faithful faithful
  · intro environment other same name
    rw [same]
  · intro environment other same name value
    rw [same]
    rcases other.assign? name value with _ | changed
    · exact .none
    · exact .some rfl

/-- In the same scopes declarations may stand anywhere. -/
theorem simulation_eq
    (faithful : tokens.Faithful)
    (recorded :
      ∀ ⦃log other⦄ event, logs log other → logs (event :: log) (event :: other)) :
    Simulation tokens (fun _ => True) (fun _ => Eq) logs where
  kinds := faithful.kind
  sameValues _ := sameValues_eq faithful
  defined := by
    intro _ environment other name name' _ same named value
    rw [same, faithful.lexeme named]
  entered := by
    intro _ environment other same
    rw [same]
  left := by
    intro _ environment other same
    rw [same]
  recorded := recorded

/-- Equality of states is a simulation of every statement by itself. -/
theorem simulation_same :
    Simulation .same (fun _ => True) (fun _ => Eq) Eq := by
  apply simulation_eq Correspondence.faithful_same
  intro log other event same
  rw [same]

theorem State.paired_same
    (state : State) :
    State.Paired Eq Eq state state :=
  ⟨rfl, rfl, rfl⟩

/-- States that are paired by equality are equal. -/
theorem State.Paired.eq
    {state other : State}
    (paired : State.Paired Eq Eq state other) :
    other = state := by
  obtain ⟨environment, loopDepth, log⟩ := state
  obtain ⟨environment', loopDepth', log'⟩ := other
  obtain ⟨sameEnvironment, sameDepth, sameLog⟩ := paired
  simp_all

/-- Progress that is paired by equality is equal. -/
theorem Progress.Paired.eq
    {progress other : Progress}
    (paired : Progress.Paired .same (State.Paired Eq Eq) progress other) :
    other = progress := by
  obtain ⟨completions, error?, state⟩ := progress
  obtain ⟨completions', error?', state'⟩ := other
  obtain ⟨sameCompletions, sameError, sameState⟩ := paired
  obtain rfl : state' = state := sameState.eq
  obtain rfl : completions' = completions := sameCompletions
  dsimp only at sameError
  cases sameError with
  | none => rfl
  | some matched => rw [matched.eq]

/-- A run that follows by equality ends as the first one does. -/
theorem Run.Follows.eq
    {run other : Run}
    (follows : Run.Follows .same (State.Paired Eq Eq) run other)
    {ending : Except RuntimeError Completion × State}
    (ended : run = some ending) :
    other = some ending := by
  obtain ⟨result', after', otherEnded, alike, paired⟩ := follows ended
  rw [otherEnded, alike.eq, paired.eq]

section Budget

variable {settings : Settings} {budget budget' : Nat}

/-- A run with more budget follows one that ends with less. -/
theorem follows_exec_same
    (enough : budget ≤ budget')
    (stmt : Stmt)
    {state other : State}
    (paired : State.Paired Eq Eq state other) :
    Run.Follows .same (State.Paired Eq Eq) (exec settings budget stmt state)
      (exec settings budget' stmt other) :=
  simulation_same.follows_exec settings enough
    (Stmt.corresponds_same 0 stmt fun _ _ => trivial) paired

/-- A run that ends within a budget ends in the same way within any larger one. -/
theorem exec_mono
    (enough : budget ≤ budget')
    {stmt : Stmt}
    {state : State}
    {ending : Except RuntimeError Completion × State}
    (ended : exec settings budget stmt state = some ending) :
    exec settings budget' stmt state = some ending :=
  (follows_exec_same enough stmt (State.paired_same state)).eq ended

/-- A loop that ends within some rounds ends in the same way within more of them. -/
theorem iterate_mono
    (enough : budget ≤ budget')
    {rounds rounds' : Nat}
    (more : rounds ≤ rounds')
    {condition : Expr}
    {stmt : Stmt}
    {state : State}
    {ending : Except RuntimeError Completion × State}
    (ended :
      iterate condition (exec settings budget stmt) rounds state = some ending) :
    iterate condition (exec settings budget' stmt) rounds' state = some ending := by
  have repeated : ∀ before before' : State,
      State.Paired Eq Eq before before' →
        Run.Follows .same (State.Paired Eq Eq) (exec settings budget stmt before)
          (exec settings budget' stmt before') := by
    intro before before' paired
    exact follows_exec_same enough stmt paired
  have follows :=
    @Simulation.follows_iterate .same (fun _ => True) (fun _ => Eq) Eq 0 state state
    simulation_same condition condition (Expr.corresponds_same condition) _
      _ repeated _ _ more
    (State.paired_same state)
  exact follows.eq ended

end Budget

/--
A program that ends within a budget ends in the same way within any larger one.
-/
theorem execProgram_mono
    {settings : Settings}
    {budget budget' : Nat}
    (enough : budget ≤ budget')
    {program : Program}
    {state : State}
    {progress : Progress}
    (ended : execProgram settings budget program state = some progress) :
    execProgram settings budget' program state = some progress := by
  obtain ⟨progress', otherEnded, paired⟩ :=
    simulation_same.exists_execProgram enough
      (Stmt.correspond_same 0 program fun _ _ => trivial)
        (State.paired_same state) ended
  rw [otherEnded, paired.eq]

/--
An interpretation that ends within a budget ends
in the same way within any larger one.
-/
theorem interpret_mono
    {settings : Settings}
    {budget budget' : Nat}
    (enough : budget ≤ budget')
    {program : Program}
    {state : State}
    {ending : Bool × State}
    (ended : interpret settings budget program state = some ending) :
    interpret settings budget' program state = some ending := by
  obtain ⟨progress, run, outcome⟩ := Option.map_eq_some_iff.mp ended
  exact Option.map_eq_some_iff.mpr ⟨progress, execProgram_mono enough run, outcome⟩

end Lox.Evaluation
