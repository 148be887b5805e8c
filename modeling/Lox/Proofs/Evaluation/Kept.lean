import Lox.Proofs.Evaluation.Run

namespace Lox

/-!
# What every run keeps

A run changes its state in few ways: it records events, rebinds names, defines
names in the active scope, opens scopes that it closes again, and enters loops
that it leaves again.  A relation between states that all of these keep holds
between the first and the last state of every run.
-/

/-- The names that a node writes: those of assignments and declarations in it. -/
inductive Node.Writes : Node → String → Prop where
  | assign
      {name : Token}
      {value : Expr} :
      Writes (.expr (.assign name value)) name.lexeme
  | var
      {name : Token}
      {initial : Option Expr} :
      Writes (.stmt (.var name initial)) name.lexeme
  | inside
      {parent child : Node}
      {name : String} :
      child ∈ parent.children →
      Writes child name →
      Writes parent name

/-- The names that the statements of a program write. -/
def Program.Writes
    (program : Program)
    (name : String) :
    Prop :=
  ∃ stmt ∈ program, Node.Writes (.stmt stmt) name

namespace Evaluation

/-- A relation between environments that rebinding names keeps. -/
structure KeptByAssignment
    (written : String → Prop)
    (relation : Environment → Environment → Prop) :
    Prop where
  refl : ∀ environment, relation environment environment
  trans :
    ∀ ⦃first second third⦄,
      relation first second → relation second third → relation first third
  assign :
    ∀ ⦃environment changed : Environment⦄ ⦃name : String⦄ ⦃value : Value⦄,
      written name →
      environment.assign? name value = some changed →
      relation environment changed

/-- A relation between states that every step of a run keeps. -/
structure Kept
    (written : String → Prop)
    (relation : State → State → Prop) :
    Prop where
  refl : ∀ state, relation state state
  trans :
    ∀ ⦃first second third⦄,
      relation first second → relation second third → relation first third
  record : ∀ state event, relation state (state.record event)
  assign :
    ∀ ⦃state : State⦄ ⦃name : String⦄ ⦃value : Value⦄ ⦃changed : Environment⦄,
      written name →
      state.environment.assign? name value = some changed →
      relation state { state with environment := changed }
  define :
    ∀ (state : State) ⦃name : String⦄ (value : Value),
      written name →
      relation state
        { state with environment := state.environment.define name value }
  scope :
    ∀ ⦃before after : State⦄,
      relation before.openScope after → relation before after.closeScope
  loop :
    ∀ ⦃before after : State⦄,
      relation before.enterLoop after → relation before after.leaveLoop

/-- All names that a node writes are among some names. -/
def WritesOnly
    (written : String → Prop)
    (node : Node) :
    Prop :=
  ∀ ⦃name : String⦄, node.Writes name → written name

/-- A child writes no more names than its parent. -/
theorem WritesOnly.child
    {written : String → Prop}
    {parent child : Node}
    (only : WritesOnly written parent)
    (member : child ∈ parent.children := by
      simp [Node.children, Stmt.children, Expr.children]) :
    WritesOnly written child := by
  intro name writes
  exact only (.inside member writes)

/-- Evaluating an expression only rebinds names. -/
theorem KeptByAssignment.eval
    {written : String → Prop}
    {relation : Environment → Environment → Prop}
    (kept : KeptByAssignment written relation)
    {expr : Expr}
    (only : WritesOnly written (.expr expr))
    (environment : Environment) :
    relation environment (Evaluation.eval expr environment).2 := by
  induction expr generalizing environment with
  | literal value =>
      exact kept.refl environment
  | grouping inner inductionHypothesis =>
      exact inductionHypothesis only.child environment
  | unary operator operand inductionHypothesis =>
      have operandKept := inductionHypothesis only.child environment
      unfold Evaluation.eval
      rcases outcome : Evaluation.eval operand environment with
        ⟨error | value, between⟩
      · simpa [outcome] using operandKept
      · simpa [outcome] using operandKept
  | binary left operator right leftHypothesis rightHypothesis =>
      have leftKept := leftHypothesis only.child environment
      unfold Evaluation.eval
      rcases outcome : Evaluation.eval left environment with
        ⟨error | value, between⟩
      · simpa [outcome] using leftKept
      · rw [outcome] at leftKept
        have bothKept := kept.trans leftKept (rightHypothesis only.child between)
        rcases second : Evaluation.eval right between with
          ⟨error | value, afterwards⟩
        · simpa [second] using bothKept
        · simpa [second] using bothKept
  | logical left operator right leftHypothesis rightHypothesis =>
      have leftKept := leftHypothesis only.child environment
      unfold Evaluation.eval
      rcases outcome : Evaluation.eval left environment with
        ⟨error | value, between⟩
      · simpa [outcome] using leftKept
      · rw [outcome] at leftKept
        simp only [andThen_ok]
        split
        · exact leftKept
        · exact kept.trans leftKept (rightHypothesis only.child between)
  | reference name =>
      exact kept.refl environment
  | assign name value inductionHypothesis =>
      have valueKept := inductionHypothesis only.child environment
      unfold Evaluation.eval
      rcases outcome : Evaluation.eval value environment with
        ⟨error | stored, between⟩
      · simpa [outcome] using valueKept
      · rw [outcome] at valueKept
        simp only [andThen_ok, store, Environment.assign]
        rcases assigned : between.assign? name.lexeme stored with _ | changed
        · exact valueKept
        · exact kept.trans valueKept (kept.assign (only .assign) assigned)

namespace Kept

variable {written : String → Prop} {relation : State → State → Prop}

/-- What is kept by records is kept when a statement begins. -/
theorem begin
    (kept : Kept written relation)
    (state : State)
    (settings : Settings)
    (nodeClass : NodeClass) :
    relation state (state.begin settings nodeClass) := by
  unfold State.begin State.trace
  split
  · exact kept.record _ _
  · exact kept.refl state

/-- The environments of otherwise equal states are related by assignments. -/
theorem byAssignment
    (kept : Kept written relation)
    (state : State) :
    KeptByAssignment written fun before after =>
      relation { state with environment := before }
        { state with environment := after } where
  refl _ := kept.refl _
  trans _ _ _ earlier later := kept.trans earlier later
  assign _ _ _ _ writes assigned := kept.assign writes assigned

/--
What is kept by assignments to some names is kept by an expression that writes
those.
-/
theorem evaluate
    (kept : Kept written relation)
    (state : State)
    {expr : Expr}
    (only : WritesOnly written (.expr expr)) :
    relation state (state.evaluate expr).2 :=
  (kept.byAssignment state).eval only state.environment

/-- A run that starts later is related to the beginning, too. -/
theorem ends_after
    (kept : Kept written relation)
    {first second : State}
    {run : Run}
    (before : relation first second)
    (ends : run.Ends fun _ after => relation second after) :
    run.Ends fun _ after => relation first after :=
  ends.imp fun _ _ later => kept.trans before later

/-- What is kept by an expression and behind it is kept by a run on its value. -/
theorem withValue
    (kept : Kept written relation)
    {state : State}
    {expr : Expr}
    {next : Value → State → Run}
    (only : WritesOnly written (.expr expr))
    (goesOn : ∀ value afterwards,
      (next value afterwards).Ends fun _ after => relation afterwards after) :
    (Evaluation.withValue state expr next).Ends fun _ after =>
      relation state after := by
  have evaluated := kept.evaluate state only
  rw [Run.ends_withValue]
  rcases outcome : state.evaluate expr with ⟨error | value, afterwards⟩
  · rw [outcome] at evaluated
    exact evaluated
  · rw [outcome] at evaluated
    exact kept.ends_after evaluated (goesOn value afterwards)

theorem runExpression
    (kept : Kept written relation)
    (settings : Settings)
    {inner : Expr}
    (only : WritesOnly written (.expr inner))
    (state : State) :
    (Evaluation.runExpression settings inner state).Ends fun _ after =>
      relation state after := by
  apply kept.withValue only
  intro value afterwards
  rw [Run.ends_some]
  split
  · exact kept.record _ _
  · exact kept.refl _

/--
What is kept by definitions of some names is kept by a variable of such a name.
-/
theorem runVar
    (kept : Kept written relation)
    {name : Token}
    {initial : Option Expr}
    (only : WritesOnly written (.stmt (.var name initial)))
    (state : State) :
    (Evaluation.runVar name initial state).Ends fun _ after =>
      relation state after := by
  have defines : ∀ value afterwards,
      (runDefinition name value afterwards).Ends fun _ after =>
        relation afterwards after := by
    intro value afterwards
    exact Run.ends_some.mpr (kept.define afterwards value (only .var))
  cases initial with
  | none =>
      exact defines .nil state
  | some initial =>
      exact kept.withValue only.child defines

theorem runSignal
    (kept : Kept written relation)
    (keyword : Token)
    (signal : Completion)
    (state : State) :
    (Evaluation.runSignal keyword signal state).Ends fun _ after =>
      relation state after := by
  unfold Evaluation.runSignal
  split
  · exact Run.ends_some.mpr (kept.refl state)
  · exact Run.ends_some.mpr (kept.refl state)

/-- What is done in a scope of its own is kept once the scope is closed. -/
theorem inScope
    (kept : Kept written relation)
    {state : State}
    {run : Run}
    (ends : run.Ends fun _ after => relation state.openScope after) :
    (restoring State.closeScope run).Ends fun _ after => relation state after := by
  rw [Run.ends_restoring]
  exact ends.imp fun _ _ inside => kept.scope inside

/-- Repeating a body keeps what the test of the condition and the body keep. -/
theorem inLoop
    (kept : Kept written relation)
    {condition : Expr}
    {body : State → Run}
    (only : WritesOnly written (.expr condition))
    (repeated : ∀ state, (body state).Ends fun _ after => relation state after)
    (budget : Nat)
    (state : State) :
    (restoring State.leaveLoop (iterate condition body budget state.enterLoop)).Ends
      fun _ after => relation state after := by
  have tested : ∀ ⦃between : State⦄,
      relation state.enterLoop between →
        relation state.enterLoop (between.evaluate condition).2 := by
    intro between before
    exact kept.trans before (kept.evaluate between only)
  have round : ∀ ⦃between : State⦄,
      relation state.enterLoop between →
        (body between).Ends fun _ after => relation state.enterLoop after := by
    intro between before
    exact kept.ends_after before (repeated between)
  have ends := Run.ends_iterate tested round budget (kept.refl state.enterLoop)
  rw [Run.ends_restoring]
  exact ends.imp fun _ _ inside => kept.loop inside

mutual

/-- However a statement ends, the state then is related to the state before. -/
theorem exec
    (kept : Kept written relation)
    (settings : Settings)
    (budget : Nat) :
    ∀ (stmt : Stmt) (_ : WritesOnly written (.stmt stmt)) (state : State),
      (Evaluation.exec settings budget stmt state).Ends fun _ after =>
        relation state after
  | .expression inner, only, state => by
      rw [Evaluation.exec]
      exact kept.ends_after (kept.begin state settings .expression)
        (kept.runExpression settings only.child _)
  | .print inner, only, state => by
      rw [Evaluation.exec]
      apply kept.ends_after (kept.begin state settings .print)
      apply kept.withValue only.child
      intro value afterwards
      exact Run.ends_some.mpr (kept.record _ _)
  | .var name initial, only, state => by
      rw [Evaluation.exec]
      exact kept.ends_after (kept.begin state settings .var) (kept.runVar only _)
  | .block statements, only, state => by
      rw [Evaluation.exec]
      apply kept.ends_after (kept.begin state settings .block)
      apply kept.inScope
      apply kept.execAll settings budget statements
      intro stmt member
      exact only.child (by simpa [Node.children, Stmt.children] using member)
  | .loopBody body increment, only, state => by
      rw [Evaluation.exec]
      apply kept.ends_after (kept.begin state settings .loopBody)
      apply kept.inScope
      rw [Run.ends_proceed]
      have bodyKept :=
        kept.exec settings budget body only.child
          (state.begin settings .loopBody).openScope
      have increments : ∀ afterwards : State,
          (Evaluation.runExpression settings increment
            (afterwards.begin settings .expression)).Ends
              fun _ after => relation afterwards after := by
        intro afterwards
        have stmtOnly : WritesOnly written (.stmt (.expression increment)) :=
          only.child
        exact kept.ends_after (kept.begin afterwards settings .expression)
          (kept.runExpression settings
            stmtOnly.child _)
      refine bodyKept.imp ?_
      intro result afterwards inside
      rcases result with error | _ | _ | _
      · exact inside
      · exact kept.ends_after inside (increments afterwards)
      · exact Run.ends_some.mpr inside
      · exact kept.ends_after inside (increments afterwards)
  | .ifThen condition thenPart, only, state => by
      rw [Evaluation.exec]
      apply kept.ends_after (kept.begin state settings .branch)
      apply kept.withValue only.child
      intro value tested
      split
      · exact kept.exec settings budget thenPart
          only.child tested
      · exact Run.ends_some.mpr (kept.refl tested)
  | .ifElse condition thenPart elsePart, only, state => by
      rw [Evaluation.exec]
      apply kept.ends_after (kept.begin state settings .branch)
      apply kept.withValue only.child
      intro value tested
      split
      · exact kept.exec settings budget thenPart
          only.child tested
      · exact kept.exec settings budget elsePart
          only.child tested
  | .whileLoop condition body, only, state => by
      rw [Evaluation.exec]
      apply kept.ends_after (kept.begin state settings .whileLoop)
      exact kept.inLoop only.child
        (kept.exec settings budget body only.child)
        budget _
  | .breakLoop keyword, _, state => by
      rw [Evaluation.exec]
      exact kept.ends_after (kept.begin state settings .breakLoop)
        (kept.runSignal keyword .broke _)
  | .continueLoop keyword, _, state => by
      rw [Evaluation.exec]
      exact kept.ends_after (kept.begin state settings .continueLoop)
        (kept.runSignal keyword .continued _)

/-- What is kept by each statement is kept by all in order. -/
theorem execAll
    (kept : Kept written relation)
    (settings : Settings)
    (budget : Nat) :
    ∀ (statements : List Stmt)
      (_ : ∀ stmt ∈ statements, WritesOnly written (.stmt stmt))
      (state : State),
      (Evaluation.execAll settings budget statements state).Ends
        fun _ after => relation state after
  | [], _, state => by
      rw [Evaluation.execAll]
      exact Run.ends_some.mpr (kept.refl state)
  | first :: rest, only, state => by
      rw [Evaluation.execAll]
      rw [Run.ends_proceed]
      have firstKept :=
        kept.exec settings budget first (only first List.mem_cons_self) state
      refine firstKept.imp ?_
      intro result between before
      rcases result with error | _ | _ | _
      · exact before
      · exact kept.ends_after before
          (kept.execAll settings budget rest
            (fun stmt member =>
              only stmt (List.mem_cons_of_mem first member)) between)
      · exact Run.ends_some.mpr before
      · exact Run.ends_some.mpr before

end

/-- Every run of a program, whole or stopped by an error, keeps the relation. -/
theorem execProgram
    (kept : Kept written relation)
    (settings : Settings)
    (budget : Nat)
    {program : Program}
    (only : ∀ stmt ∈ program, WritesOnly written (.stmt stmt))
    {state : State}
    {progress : Progress}
    (ended : Evaluation.execProgram settings budget program state = some progress) :
    relation state progress.state := by
  induction program generalizing state progress with
  | nil =>
      simp only [Evaluation.execProgram, Option.some.injEq] at ended
      subst ended
      exact kept.refl state
  | cons first rest inductionHypothesis =>
      have firstKept :=
        kept.exec settings budget first (only first List.mem_cons_self) state
      rcases execProgram_cons ended with
        ⟨error, run, _⟩ |
        ⟨completion, between, later, run, laterEnded, _, sameState⟩
      · exact firstKept run
      · rw [sameState]
        exact kept.trans (firstKept run)
          (inductionHypothesis
            (fun stmt member =>
              only stmt (List.mem_cons_of_mem first member)) laterEnded)

/--
Interpreting a program keeps the relation from the state at the global scope on.
-/
theorem interpret
    (kept : Kept written relation)
    (settings : Settings)
    (budget : Nat)
    {program : Program}
    (only : ∀ stmt ∈ program, WritesOnly written (.stmt stmt))
    {state after : State}
    {finished : Bool}
    (ended :
      Evaluation.interpret settings budget program state = some (finished, after)) :
    relation state.atGlobals after := by
  obtain ⟨progress, run, outcome⟩ := interpret_cases ended
  have programKept := kept.execProgram settings budget only run
  rcases outcome with ⟨-, -, rfl⟩ | ⟨error, -, -, rfl⟩
  · exact programKept
  · apply kept.trans programKept
    unfold State.recordError State.trace
    split
    · exact kept.trans (kept.record _ _) (kept.record _ _)
    · exact kept.record _ _

end Kept

end Evaluation

end Lox
