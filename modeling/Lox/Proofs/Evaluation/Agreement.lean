import Lox.Proofs.Evaluation.Blame
import Lox.Proofs.Evaluation.Simulation
import Lox.Proofs.Scoping.Restoration
import Lox.Proofs.Tree.Mention

namespace Lox

/-!
# Globals that agree on the names of a program

Main statement: a program depends on no global name but those that it mentions,
and touches none but those that it writes.  Started in globals that agree on the
names that it mentions, it prints the same and ends in the same way, and the
globals agree on these names again.  Whichever way it ends, a name that it does
not assign or declare has the value that it had, and names that were bound
before stand in the order that they had.
-/

/-- Scopes in which some names have the same values, if they have any. -/
def Scope.AgreeOn
    (mentioned : String → Prop)
    (scope other : Scope) :
    Prop :=
  ∀ ⦃name⦄, mentioned name → other.get? name = scope.get? name

/-- Environments that differ in their globals only, and there not in some names. -/
structure Environment.AgreeOn
    (mentioned : String → Prop)
    (environment other : Environment) :
    Prop where
  locals : other.locals = environment.locals
  globals : Scope.AgreeOn mentioned environment.globals other.globals
  outer : other.outer = environment.outer

/-- What a program leaves of an environment if it writes only some names. -/
structure Environment.TouchedOnly
    (written : String → Prop)
    (before after : Environment) :
    Prop where
  locals : after.locals = []
  globals : Scope.Extended written before.globals after.globals
  outer : List.Forall₂ (Scope.Rebound written) before.outer after.outer

/-- What a node writes it mentions. -/
theorem Node.Writes.mentions
    {node : Node}
    {name : String}
    (writes : node.Writes name) :
    node.Mentions name := by
  induction writes with
  | assign => exact .assign
  | var => exact .var
  | inside member _ inductionHypothesis => exact .inside member inductionHypothesis

/-- What a program writes it mentions. -/
theorem Program.Writes.mentions
    {program : Program}
    {name : String}
    (writes : program.Writes name) :
    program.Mentions name := by
  obtain ⟨stmt, member, inside⟩ := writes
  exact ⟨stmt, member, inside.mentions⟩

variable {mentioned : String → Prop}

/-- Scopes agree on some names when the same definition is made in both. -/
theorem Scope.AgreeOn.define
    {scope other : Scope}
    (agree : AgreeOn mentioned scope other)
    (name : String)
    (value : Value) :
    AgreeOn mentioned (scope.define name value) (other.define name value) := by
  intro found mentions
  by_cases same : found = name
  · subst same
    simp
  · simp only [get?_define_other _ same]
    exact agree mentions

namespace Environment

variable {environment other : Environment} {name : String}

/-- Environments that agree on a name look it up alike. -/
theorem AgreeOn.get?_chain
    (agree : AgreeOn mentioned environment other)
    (mentions : mentioned name) :
    Chain.get? other.chain name = Chain.get? environment.chain name := by
  simp only [chain, Chain.get?_append, Chain.get?_cons, agree.locals, agree.outer,
    agree.globals mentions]

/-- Environments agree on some names when the same definition is made in both. -/
theorem AgreeOn.define
    (agree : AgreeOn mentioned environment other)
    (value : Value) :
    AgreeOn mentioned (environment.define name value)
      (other.define name value) := by
  obtain ⟨locals', globals, outer'⟩ := environment
  obtain ⟨locals, globals', outer⟩ := other
  obtain ⟨rfl, globalsAgree, rfl⟩ := agree
  cases locals with
  | nil => exact ⟨rfl, globalsAgree.define name value, rfl⟩
  | cons scope enclosing => exact ⟨rfl, globalsAgree, rfl⟩

/-- An assignment to one of the names goes to the same scope on both sides. -/
theorem AgreeOn.assign?
    (agree : AgreeOn mentioned environment other)
    (mentions : mentioned name)
    (value : Value) :
    Option.Rel (AgreeOn mentioned) (environment.assign? name value)
      (other.assign? name value) := by
  obtain ⟨locals', globals, outer'⟩ := environment
  obtain ⟨locals, globals', outer⟩ := other
  obtain ⟨rfl, globalsAgree, rfl⟩ := agree
  have sameBound : globals'.binds name = globals.binds name := by
    rw [Scope.binds_eq_isSome_get?, Scope.binds_eq_isSome_get?,
      globalsAgree mentions]
  simp only [Environment.assign?, sameBound]
  rcases Chain.assign? _ name value with _ | locals
  · by_cases bound : globals.binds name = true
    · simp only [bound, ↓reduceIte]
      exact .some ⟨rfl, globalsAgree.define name value, rfl⟩
    · simp only [bound, Bool.false_eq_true, ↓reduceIte]
      rcases Chain.assign? _ name value with _ | outer
      · exact .none
      · exact .some ⟨rfl, globalsAgree, rfl⟩
  · exact .some ⟨rfl, globalsAgree, rfl⟩

theorem AgreeOn.enter
    (agree : AgreeOn mentioned environment other) :
    AgreeOn mentioned environment.enter other.enter :=
  ⟨congrArg (Scope.empty :: ·) agree.locals, agree.globals, agree.outer⟩

theorem AgreeOn.leave
    (agree : AgreeOn mentioned environment other) :
    AgreeOn mentioned environment.leave other.leave :=
  ⟨congrArg List.tail agree.locals, agree.globals, agree.outer⟩

end Environment

namespace Evaluation

/-- The state with other globals. -/
def State.withGlobals
    (state : State)
    (globals : Scope) :
    State :=
  { state with environment := { state.environment with globals := globals } }

/--
Environments that agree on the names of a tree are not told apart by its steps.
-/
theorem simulation_agreeOn
    (mentioned : String → Prop) :
    Simulation (.only mentioned) (fun _ => True)
      (fun _ => Environment.AgreeOn mentioned) Eq where
  kinds := by
    intro mark other same
    exact congrArg Token.kind same
  sameValues _ :=
    { found := by
        rintro environment other name _ agree ⟨rfl, mentions⟩
        exact agree.get?_chain mentions
      assigned := by
        rintro environment other name _ agree ⟨rfl, mentions⟩ value
        exact agree.assign? mentions value }
  defined := by
    rintro _ environment other name _ _ agree ⟨rfl, -⟩ value
    exact agree.define value
  entered := by
    intro _ environment other agree
    exact agree.enter
  left := by
    intro _ environment other agree
    exact agree.leave
  recorded := by
    rintro log _ event rfl
    rfl

/-- Errors that match on the names mentioned are equal. -/
theorem Matches.eq_of_only
    {error other : RuntimeError}
    (matched : Matches (.only mentioned) error other) :
    other = error := by
  obtain ⟨cause, token⟩ := error
  obtain ⟨cause', token'⟩ := other
  obtain ⟨sameCause, sameToken⟩ := matched
  cases sameCause
  have same : token' = token := by
    split at sameToken
    · exact sameToken.1
    · exact sameToken
  rw [same]

/-- States that agree still do so when the same error is recorded in both. -/
theorem State.Paired.recordError
    {state other : State}
    (paired : State.Paired (Environment.AgreeOn mentioned) Eq state other)
    (settings : Settings)
    (error : RuntimeError) :
    State.Paired (Environment.AgreeOn mentioned) Eq
      (state.recordError settings error) (other.recordError settings error) := by
  have record : ∀ {state other : State} (event : Event),
      State.Paired (Environment.AgreeOn mentioned) Eq state other →
        State.Paired (Environment.AgreeOn mentioned) Eq (state.record event)
          (other.record event) := by
    intro state other event paired
    exact ⟨paired.environment, paired.loopDepth,
      (simulation_agreeOn mentioned).recorded event paired.log⟩
  unfold State.recordError State.trace
  split
  · exact record _ (record _ paired)
  · exact record _ paired

/--
Interpretations that ended alike left the same behind, but for names not mentioned.
-/
theorem Interpreted.paired
    {settings : Settings}
    {finished : Bool}
    {after other : State}
    (interpreted :
      Interpreted settings (.only mentioned)
        (State.Paired (Environment.AgreeOn mentioned) Eq) finished after other) :
    State.Paired (Environment.AgreeOn mentioned) Eq after other := by
  cases interpreted with
  | finished paired => exact paired
  | stopped paired matched =>
      rw [matched.eq_of_only]
      exact paired.recordError settings _

/-- A program leaves the names that it does not write, whichever way it ends. -/
theorem touchedOnly_of_interpret
    {settings : Settings}
    {budget : Nat}
    {program : Program}
    {state after : State}
    {finished : Bool}
    (ended : interpret settings budget program state = some (finished, after)) :
    Environment.TouchedOnly program.Writes state.environment after.environment := by
  have noLocals := locals_of_interpret ended
  have scopes := (interpret_restored ended).scopes
  obtain ⟨⟨locals, globals, outer⟩, loopDepth, log⟩ := after
  cases noLocals
  exact ⟨rfl, scopes.active, scopes.enclosing⟩

/--
Two interpretations of a program, in globals that agree on the names
that it mentions, either both do not end or end with the same events,
error and result, in globals that agree on these names.  Each leaves the
names that it does not write as they were.
-/
theorem interpret_withGlobals
    (settings : Settings)
    (program : Program)
    (state : State)
    (globals : Scope)
    (agree : Scope.AgreeOn program.Mentions state.environment.globals globals) :
    (∀ budget,
        interpret settings budget program (state.withGlobals globals) = none ↔
          interpret settings budget program state = none) ∧
      ∀ budget finished after,
        interpret settings budget program state = some (finished, after) →
          ∃ after',
            interpret settings budget program (state.withGlobals globals) =
                some (finished, after') ∧
              after'.log = after.log ∧
              after'.loopDepth = after.loopDepth ∧
              Environment.AgreeOn program.Mentions after.environment
                after'.environment ∧
              Environment.TouchedOnly program.Writes state.environment
                after.environment ∧
              Environment.TouchedOnly program.Writes
                { state.environment with globals := globals }
                  after'.environment := by
  have agreeAtStart :
      State.Paired (Environment.AgreeOn program.Mentions) Eq state.atGlobals
        (state.withGlobals globals).atGlobals :=
    ⟨⟨rfl, agree, rfl⟩, rfl, rfl⟩
  have alike := fun budget =>
    (simulation_agreeOn program.Mentions).interpretedAlike settings budget
      program.correspond_mentions agreeAtStart
  constructor
  · intro budget
    exact (alike budget).eq_none_iff
  · intro budget finished after ended
    obtain ⟨after', ended', interpreted⟩ := (alike budget).exists_interpreted ended
    have paired := interpreted.paired
    exact ⟨after', ended', paired.log.symm, paired.loopDepth, paired.environment,
      touchedOnly_of_interpret ended, touchedOnly_of_interpret ended'⟩

/-- It rebinds one name, reads another and fails on a third. -/
def reboundAndRead :
    Program :=
  let rebound : Token := ⟨.identifier, "a", .nil, 1, 0⟩
  let read : Token := ⟨.identifier, "b", .nil, 2, 17⟩
  let missing : Token := ⟨.identifier, "c", .nil, 3, 26⟩
  [.expression (.assign rebound (.literal (.string "new"))),
    .print (.reference read),
    .print (.reference missing)]

theorem mentions_reboundAndRead
    {name : String}
    (mentions : reboundAndRead.Mentions name) :
    name ∈ ["a", "b", "c"] := by
  obtain ⟨stmt, member, mentions⟩ := mentions
  simp only [reboundAndRead, List.mem_cons, List.not_mem_nil, or_false] at member
  rcases member with rfl | rfl | rfl
  · rcases mentions with _ | _ | _ | ⟨below, inExpression⟩
    cases List.mem_singleton.mp below
    rcases inExpression with _ | _ | _ | ⟨below, inLiteral⟩
    · simp
    · cases List.mem_singleton.mp below
      rcases inLiteral with _ | _ | _ | ⟨below, -⟩
      cases below
  · rcases mentions with _ | _ | _ | ⟨below, inExpression⟩
    cases List.mem_singleton.mp below
    rcases inExpression with _ | _ | _ | ⟨below, -⟩
    · simp
    · cases below
  · rcases mentions with _ | _ | _ | ⟨below, inExpression⟩
    cases List.mem_singleton.mp below
    rcases inExpression with _ | _ | _ | ⟨below, -⟩
    · simp
    · cases below

/--
Another name in front of the three, with any
value, stays in front and keeps that value.
-/
theorem reboundAndRead_withGlobals :
    let state := State.start ⟨[], ⟨[("a", .nil), ("b", .string "old")]⟩, []⟩ 0
    let globals : Scope :=
      ⟨[("z", .boolean true), ("b", .string "old"), ("a", .nil)]⟩
    ∃ after after',
      interpret ⟨true, false⟩ 1 reboundAndRead state = some (false, after) ∧
        interpret ⟨true, false⟩ 1 reboundAndRead (state.withGlobals globals) =
          some (false, after') ∧
        after'.log = after.log ∧
        after'.environment.globals.get? "a" = some (.string "new") ∧
        after'.environment.globals.get? "z" = some (.boolean true) ∧
        ["z", "b", "a"] <+: after'.environment.globals.names := by
  intro state globals
  have agree :
      Scope.AgreeOn reboundAndRead.Mentions state.environment.globals globals := by
    intro name mentions
    have named := mentions_reboundAndRead mentions
    simp only [List.mem_cons, List.not_mem_nil, or_false] at named
    rcases named with rfl | rfl | rfl <;> rfl
  have unwritten : ¬ reboundAndRead.Writes "z" := by
    intro writes
    simpa using mentions_reboundAndRead writes.mentions
  have mentionsRebound : reboundAndRead.Mentions "a" :=
    ⟨_, List.mem_cons_self, .inside List.mem_cons_self .assign⟩
  obtain ⟨after', ended, log, -, agreeAfter, -, touched⟩ :=
    (interpret_withGlobals ⟨true, false⟩ reboundAndRead state globals
      agree).2 1 false _ rfl
  exact ⟨_, after', rfl, ended, log, agreeAfter.globals mentionsRebound,
    touched.globals.unwritten unwritten, touched.globals.names⟩

end Evaluation

end Lox
