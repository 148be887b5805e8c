import Lox.Proofs.Evaluation.Moment
import Lox.Proofs.Scoping.Leaving

namespace Lox

/-!
# Moments with the outline of their text

The invariant of a run says where a moment stands in the program, and that its
outline is the one that the text has there: one scope for each block and loop body
around it, with the names declared further up.  It goes from a node to each node
below, since statements keep the outline but for what they declare.
-/

/-- The outline that the text has at a place, around an outline at the top level. -/
def Outline.within
    (ground : Outline)
    (trail : Trail) :
    Outline :=
  { ground with locals := trail.scopes }

namespace Evaluation

/-- A moment stands below a root and has the outline that the text has there. -/
structure Located
    (root : Node)
    (position : Nat)
    (ground : Outline)
    (moment : Moment) :
    Prop where
  position : moment.place.position = position
  leads : root.Leads moment.place.trail moment.node
  outline : moment.state.outline = ground.within moment.place.trail

/-- All of some moments stand below a root with the outlines that the text has. -/
def AllLocated
    (root : Node)
    (position : Nat)
    (ground : Outline)
    (moments : List Moment) :
    Prop :=
  ∀ moment ∈ moments, Located root position ground moment

section Locating

variable {root : Node} {position : Nat} {ground : Outline}

theorem allLocated_nil :
    AllLocated root position ground [] := by
  intro moment member
  cases member

theorem AllLocated.cons
    {first : Moment}
    {rest : List Moment}
    (firstLocated : Located root position ground first)
    (restLocated : AllLocated root position ground rest) :
    AllLocated root position ground (first :: rest) := by
  intro moment member
  rcases List.mem_cons.mp member with rfl | inRest
  · exact firstLocated
  · exact restLocated moment inRest

theorem AllLocated.append
    {first second : List Moment}
    (firstLocated : AllLocated root position ground first)
    (secondLocated : AllLocated root position ground second) :
    AllLocated root position ground (first ++ second) := by
  intro moment member
  rcases List.mem_append.mp member with inFirst | inSecond
  · exact firstLocated moment inFirst
  · exact secondLocated moment inSecond

/--
What comes after a value is located if it is in every state with the same outline.
-/
theorem allLocated_whenValue
    {state : State}
    {expr : Expr}
    {next : Value → State → List Moment}
    (located : ∀ value afterwards, afterwards.outline = state.outline →
      AllLocated root position ground (next value afterwards)) :
    AllLocated root position ground (whenValue state expr next) := by
  unfold whenValue
  rcases outcome : state.evaluate expr with ⟨error | value, afterwards⟩
  · exact allLocated_nil
  · exact located value afterwards (State.outline_of_evaluate outcome)

/-- What comes after a statement that completes is located if it is in that run. -/
theorem allLocated_whenCompleted
    {run : Run}
    {next : Completion → State → List Moment}
    (located : ∀ completion afterwards, run = some (.ok completion, afterwards) →
      AllLocated root position ground (next completion afterwards)) :
    AllLocated root position ground (whenCompleted run next) := by
  unfold whenCompleted
  rcases run with _ | ⟨error | completion, afterwards⟩
  · exact allLocated_nil
  · exact allLocated_nil
  · exact located completion afterwards rfl

/-- Going down to a child of a node that opens no scope keeps the outline. -/
theorem Located.inside
    {place : Place}
    {parent child : Node}
    {state later : State}
    (located : Located root position ground ⟨place, parent, state⟩)
    {index : Nat}
    (found : parent.children[index]? = some child)
    (opensNone : parent.isA .block = false)
    (same : later.outline = state.outline) :
    Located root position ground ⟨place.inside parent index, child, later⟩ where
  position := located.position
  leads := .child located.leads found
  outline := by
    have outline := located.outline
    simp only at outline
    simp [same, outline, Outline.within, Place.inside, Passed.opensScope, opensNone]

/--
Going down into a block adds a scope with the names that it declares further up.
-/
theorem Located.inBlock
    {place : Place}
    {parent child : Node}
    {state later : State}
    (located : Located root position ground ⟨place, parent, state⟩)
    {index : Nat}
    (found : parent.children[index]? = some child)
    (opens : parent.isA .block = true)
    (opened : later.outline =
      { state.outline with
        locals :=
          declareAll [] (parent.children.take index) :: state.outline.locals }) :
    Located root position ground ⟨place.inside parent index, child, later⟩ where
  position := located.position
  leads := .child located.leads found
  outline := by
    have outline := located.outline
    simp only at outline
    simp [opened, outline, Outline.within, Place.inside, Passed.opensScope, opens,
      Passed.declared]

/--
The look-ups of an expression have the outline of its place. The name of an
assignment is looked up behind its value, and evaluating that kept the outline.
-/
theorem allLocated_lookups
    {place : Place}
    {expr : Expr}
    {state : State}
    (located : Located root position ground ⟨place, .expr expr, state⟩) :
    AllLocated root position ground (lookups place expr state) := by
  induction expr generalizing place state with
  | literal value =>
      exact allLocated_nil
  | grouping inner inductionHypothesis =>
      exact inductionHypothesis (located.inside rfl rfl rfl)
  | unary operator operand inductionHypothesis =>
      exact inductionHypothesis (located.inside rfl rfl rfl)
  | binary left operator right leftHypothesis rightHypothesis =>
      apply (leftHypothesis (located.inside rfl rfl rfl)).append
      apply allLocated_whenValue
      intro value between same
      exact rightHypothesis (located.inside rfl rfl same)
  | logical left operator right leftHypothesis rightHypothesis =>
      apply (leftHypothesis (located.inside rfl rfl rfl)).append
      apply allLocated_whenValue
      intro value between same
      split
      · exact allLocated_nil
      · exact rightHypothesis (located.inside rfl rfl same)
  | reference name =>
      exact allLocated_nil.cons located
  | assign name value inductionHypothesis =>
      apply (inductionHypothesis (located.inside rfl rfl rfl)).append
      apply allLocated_whenValue
      intro stored afterwards same
      have here : Located root position ground
          ⟨place, .expr (.assign name value), afterwards⟩ :=
        { position := located.position
          leads := located.leads
          outline := same.trans located.outline }
      exact .cons here allLocated_nil

/-- An expression statement is located with the names that it looks up. -/
theorem Located.expressionMoments
    {place : Place}
    {inner : Expr}
    {state : State}
    (located :
      Located root position ground ⟨place, .stmt (.expression inner), state⟩)
    (settings : Settings) :
    AllLocated root position ground
      (⟨place, .stmt (.expression inner), state⟩ ::
        lookups (place.inside (.stmt (.expression inner)) 0) inner
          (state.begin settings .expression)) :=
  .cons located (allLocated_lookups (located.inside rfl rfl (by simp)))

/--
The body of a loop and its increment have a scope of their own, which stays empty in
front of the increment since the body is no declaration.
-/
theorem Located.loopBodyMoments
    {settings : Settings}
    {budget : Nat}
    {place : Place}
    {body : Stmt}
    {increment : Expr}
    {state : State}
    (located :
      Located root position ground ⟨place, .stmt (.loopBody body increment), state⟩)
    (placed : body.Placed)
    (declares : body.declares? = none)
    (bodyLocated : ∀ place state,
      Located root position ground ⟨place, .stmt body, state⟩ →
        AllLocated root position ground
          (moments settings budget place body state)) :
    AllLocated root position ground
      (moments settings budget place (.loopBody body increment) state) := by
  have opened : (state.begin settings .loopBody).openScope.outline =
      { state.outline with locals := [] :: state.outline.locals } := by
    simp [Outline.enter]
  have inside : Located root position ground
      ⟨place.inside (.stmt (.loopBody body increment)) 0, .stmt body,
        (state.begin settings .loopBody).openScope⟩ :=
    located.inBlock rfl rfl opened
  apply AllLocated.cons located
  apply (bodyLocated _ _ inside).append
  apply allLocated_whenCompleted
  intro completion afterwards ended
  have same : afterwards.outline =
      { state.outline with
        locals := declareAll [] [.stmt body] :: state.outline.locals } := by
    rw [keepsOutline_exec settings budget placed declares _ ended, opened,
      declareAll_singleton, Node.declares?_stmt, declares]
  have behind : Located root position ground
      ⟨place.inside (.stmt (.loopBody body increment)) 1,
        .stmt (.expression increment),
        afterwards⟩ :=
    located.inBlock rfl rfl same
  rcases completion with _ | _ | _
  · exact behind.expressionMoments settings
  · exact allLocated_nil
  · exact behind.expressionMoments settings

/-- The body and the tests of a loop keep the outline from one round to the next. -/
theorem allLocated_loopMoments
    {condition : Expr}
    {test round : State → List Moment}
    {body : State → Run}
    {outline : Outline}
    (testLocated : ∀ state, state.outline = outline →
      AllLocated root position ground (test state))
    (roundLocated : ∀ state, state.outline = outline →
      AllLocated root position ground (round state))
    (keeps :
      ∀ state, (body state).Ends fun _ after => after.outline = state.outline)
    (budget : Nat)
    {state : State}
    (same : state.outline = outline) :
    AllLocated root position ground
      (loopMoments condition test round body budget state) := by
  induction budget generalizing state with
  | zero =>
      exact allLocated_nil
  | succ budget inductionHypothesis =>
      unfold loopMoments
      apply (testLocated state same).append
      apply allLocated_whenValue
      intro value tested afterTest
      have testedOutline := afterTest.trans same
      split
      · apply (roundLocated tested testedOutline).append
        apply allLocated_whenCompleted
        intro completion afterwards ended
        have next := inductionHypothesis ((keeps tested ended).trans testedOutline)
        rcases completion with _ | _ | _
        · exact next
        · exact allLocated_nil
        · exact next
      · exact allLocated_nil

/--
Each statement of a block finds the names declared by those before it. The induction
is on the statements that are left, and generalizes those that were run.
-/
theorem allLocated_momentsAll
    {settings : Settings}
    {budget : Nat}
    {place : Place}
    {statements : List Stmt}
    {state : State}
    (located :
      Located root position ground ⟨place, .stmt (.block statements), state⟩)
    (placed : ∀ stmt ∈ statements, stmt.Placed)
    (each : ∀ stmt ∈ statements, ∀ place state,
      Located root position ground ⟨place, .stmt stmt, state⟩ →
        AllLocated root position ground (moments settings budget place stmt state))
    {earlier later : List Stmt}
    (split : statements = earlier ++ later)
    {between : State}
    (reached : between.outline =
      { state.outline with
        locals := declareAll [] (earlier.map .stmt) :: state.outline.locals }) :
    AllLocated root position ground
      (momentsAll settings budget (place.inside (.stmt (.block statements)))
        earlier.length later between) := by
  induction later generalizing earlier between with
  | nil =>
      exact allLocated_nil
  | cons first rest inductionHypothesis =>
      have member : first ∈ statements := by simp [split]
      have found : (Node.stmt (.block statements)).children[earlier.length]? =
          some (.stmt first) := by
        simp [Node.children, Stmt.children, split]
      have before : (Node.stmt (.block statements)).children.take earlier.length =
          earlier.map .stmt := by
        simp [Node.children, Stmt.children, split]
      have here := located.inBlock found rfl (by rw [before]; exact reached)
      unfold momentsAll
      apply (each first member _ between here).append
      apply allLocated_whenCompleted
      intro completion afterwards ended
      have declared : afterwards.outline = between.outline.behind first :=
        outline_exec settings budget (placed first member) between ended
      rcases completion with _ | _ | _
      · have further : afterwards.outline =
            { state.outline with
              locals :=
                declareAll [] ((earlier ++ [first]).map .stmt) ::
                  state.outline.locals } := by
          rw [declared, reached, Outline.behind_cons, List.map_append,
            declareAll_append]
          rfl
        have next :
            AllLocated root position ground
              (momentsAll settings budget (place.inside (.stmt (.block statements)))
                (earlier ++ [first]).length rest afterwards) :=
          inductionHypothesis (by simp [split]) further
        simpa using next
      · exact allLocated_nil
      · exact allLocated_nil

/--
Wherever a run comes to from a statement, it
has the outline that the text has there.
-/
theorem allLocated_moments
    {settings : Settings}
    {budget : Nat}
    {stmt : Stmt}
    (placed : stmt.Placed)
    {place : Place}
    {state : State}
    (located : Located root position ground ⟨place, .stmt stmt, state⟩) :
    AllLocated root position ground (moments settings budget place stmt state) := by
  induction placed generalizing place state with
  | expression =>
      exact located.expressionMoments settings
  | print =>
      exact .cons located (allLocated_lookups (located.inside rfl rfl (by simp)))
  | @var name initial =>
      cases initial with
      | none =>
          exact .cons located allLocated_nil
      | some initial =>
          exact .cons located
            (allLocated_lookups (located.inside rfl rfl (by simp)))
  | @block statements placed each =>
      have elements :=
        allLocated_momentsAll located placed
          (fun stmt member _ _ => each stmt member)
          (show statements = [] ++ statements from rfl)
          (show (state.begin settings .block).openScope.outline =
            _ by simp [Outline.enter])
      exact .cons located elements
  | loopBody bodyPlaced bodyDeclares bodyHypothesis =>
      exact located.loopBodyMoments bodyPlaced bodyDeclares
        (fun place state inside => bodyHypothesis inside)
  | ifThen _ _ thenHypothesis =>
      apply AllLocated.cons located
      apply (allLocated_lookups (located.inside rfl rfl (by simp))).append
      apply allLocated_whenValue
      intro value tested same
      split
      · exact thenHypothesis (located.inside rfl rfl (by simpa using same))
      · exact allLocated_nil
  | ifElse _ _ _ _ thenHypothesis elseHypothesis =>
      apply AllLocated.cons located
      apply (allLocated_lookups (located.inside rfl rfl (by simp))).append
      apply allLocated_whenValue
      intro value tested same
      split
      · exact thenHypothesis (located.inside rfl rfl (by simpa using same))
      · exact elseHypothesis (located.inside rfl rfl (by simpa using same))
  | whileLoop bodyPlaced bodyDeclares bodyHypothesis =>
      apply AllLocated.cons located
      apply allLocated_loopMoments
      · intro tested same
        exact allLocated_lookups (located.inside rfl rfl same)
      · intro tested same
        exact bodyHypothesis (located.inside rfl rfl same)
      · exact keepsOutline_exec settings budget bodyPlaced bodyDeclares
      · simp
  | breakLoop =>
      exact .cons located allLocated_nil
  | continueLoop =>
      exact .cons located allLocated_nil

end Locating

/-- The outline at the top level of a program behind some of its statements. -/
def topLevel
    (program : Program)
    (start : Environment)
    (position : Nat) :
    Outline where
  locals := []
  globals := declareAll start.globals.names ((program.take position).map .stmt)
  outer := start.outer.map Scope.names

section Programs

variable {settings : Settings} {budget : Nat} {program : Program}
  {start : Environment}

/-- At the top level, a statement that completes goes on to the next position. -/
theorem topLevel_behind
    {earlier later : List Stmt}
    {first : Stmt}
    (split : program = earlier ++ first :: later) :
    (topLevel program start earlier.length).behind first =
      topLevel program start (earlier.length + 1) := by
  have further : program.take (earlier.length + 1) = earlier ++ [first] := by
    simp [split, List.take_length_add_append]
  unfold topLevel
  rw [Outline.behind_nil, further, List.map_append, declareAll_append]
  simp [split]

/-- Every moment of a program stands below its own top-level statement. -/
theorem located_of_mem_programMoments
    (placed : ∀ stmt ∈ program, stmt.Placed)
    {earlier later : List Stmt}
    (split : program = earlier ++ later)
    {state : State}
    (reached : state.outline = topLevel program start earlier.length)
    {moment : Moment}
    (member : moment ∈ programMoments settings budget earlier.length later state) :
    ∃ root,
      program[moment.place.position]? = some root ∧
        Located (.stmt root) moment.place.position
          (topLevel program start moment.place.position) moment := by
  induction later generalizing earlier state with
  | nil =>
      cases member
  | cons first rest inductionHypothesis =>
      have firstPlaced := placed first (by simp [split])
      rcases List.mem_append.mp member with inFirst | inRest
      · have here :
            Located (.stmt first) earlier.length
              (topLevel program start earlier.length)
            ⟨⟨earlier.length, []⟩, .stmt first, state⟩ :=
          { position := rfl
            leads := .root
            outline := reached }
        have located := allLocated_moments firstPlaced here moment inFirst
        rw [located.position]
        exact ⟨first, by simp [split], located⟩
      · unfold whenCompleted at inRest
        rcases run : exec settings budget first state with
          _ | ⟨error | completion, between⟩
        · simp [run] at inRest
        · simp [run] at inRest
        · simp only [run] at inRest
          have declared : between.outline = state.outline.behind first :=
            outline_exec settings budget firstPlaced state run
          have further : between.outline =
              topLevel program start (earlier ++ [first]).length := by
            rw [declared, reached, topLevel_behind split]
            simp
          apply inductionHypothesis (by simp [split]) further
          simpa using inRest

/--
Behind a program, the global scope has the declarations of what was completed.
-/
theorem outline_execProgram
    (placed : ∀ stmt ∈ program, stmt.Placed)
    {earlier later : List Stmt}
    (split : program = earlier ++ later)
    {state : State}
    (reached : state.outline = topLevel program start earlier.length)
    {progress : Progress}
    (ended : execProgram settings budget later state = some progress) :
    ∃ completed,
      completed ≤ program.length ∧
        (progress.error? = none → completed = program.length) ∧
        progress.state.outline = topLevel program start completed := by
  induction later generalizing earlier state progress with
  | nil =>
      simp only [execProgram, Option.some.injEq] at ended
      subst ended
      refine ⟨earlier.length, ?_, ?_, reached⟩
      · simp [split]
      · simp [split]
  | cons first rest inductionHypothesis =>
      have firstPlaced := placed first (by simp [split])
      have firstOutline := outline_exec settings budget firstPlaced state
      rcases execProgram_cons ended with
        ⟨error, run, stopped⟩ |
        ⟨completion, between, last, run, restEnded, sameError, sameState⟩
      · have same : progress.state.outline = state.outline := firstOutline run
        exact ⟨earlier.length, by simp [split], by simp [stopped],
          same.trans reached⟩
      · have declared : between.outline = state.outline.behind first :=
          firstOutline run
        have further : between.outline =
            topLevel program start (earlier ++ [first]).length := by
          rw [declared, reached, topLevel_behind split]
          simp
        rw [sameError, sameState]
        exact inductionHypothesis (by simp [split]) further restEnded

/--
A program changes the values of names that one
of its statements assigns or declares.
-/
theorem values_execProgram
    (placed : ∀ stmt ∈ program, stmt.Placed)
    {state : State}
    {progress : Progress}
    (ended : execProgram settings budget program state = some progress)
    {distance : Nat}
    {name : String}
    (changed :
      Chain.valueAt? progress.state.environment.chain distance name ≠
        Chain.valueAt? state.environment.chain distance name) :
    ∃ stmt ∈ program,
      (Node.stmt stmt).Assigns name ∨ stmt.declares? = some name := by
  induction program generalizing state progress with
  | nil =>
      cases ended
      exact (changed rfl).elim
  | cons first rest inductionHypothesis =>
      have left :=
        leftBy_exec settings budget (placed first List.mem_cons_self) state
      have byFirst :
          ∀ {result after},
            exec settings budget first state = some (result, after) →
              Chain.valueAt? after.environment.chain distance name ≠
                  Chain.valueAt? state.environment.chain distance name →
                (Node.stmt first).Assigns name ∨ first.declares? = some name :=
        fun run differs =>
          ((left run).values distance name differs).imp And.left And.left
      rcases execProgram_cons ended with
        ⟨error, run, _⟩ |
        ⟨completion, between, later, run, laterEnded, _, sameState⟩
      · exact ⟨first, List.mem_cons_self, byFirst run changed⟩
      · rw [sameState] at changed
        by_cases same :
            Chain.valueAt? between.environment.chain distance name =
              Chain.valueAt? state.environment.chain distance name
        · rw [← same] at changed
          obtain ⟨stmt, member, touches⟩ :=
            inductionHypothesis
              (fun stmt member => placed stmt (List.mem_cons_of_mem first member))
              laterEnded changed
          exact ⟨stmt, List.mem_cons_of_mem first member, touches⟩
        · exact ⟨first, List.mem_cons_self, byFirst run same⟩

end Programs

end Evaluation

end Lox
