import Lox.Proofs.Evaluation.Recording
import Lox.Proofs.Evaluation.Trace
import Lox.Proofs.Grammar.Placement
import Lox.Proofs.Scoping.Located
import Lox.Proofs.Scoping.Undefined

namespace Lox.Evaluation

/-!
# Scopes follow the text

Main statement: at every moment of a run, the scopes inside the global one are
those of the blocks and loop bodies around the node that the run has come to, and
each binds the names declared further up in its block.  So how many scopes lie
between a name and its binding can be read off the text.  A look-up reads the scope
at this distance, an assignment changes it and no other scope, and a block that is
left has changed the values of names around it only where it assigns them.
-/

/-- A moment of a program that was started in an environment, as its text has it. -/
structure LexicallyScoped
    (settings : Settings)
    (budget : Nat)
    (program : Program)
    (start : Environment)
    (moment : Moment) :
    Prop where
  stands :
    ∃ root,
      program[moment.place.position]? = some root ∧
        (Node.stmt root).Leads moment.place.trail moment.node
  nesting : moment.state.environment.locals.length = moment.place.trail.nesting
  locals :
    moment.state.environment.locals.map Scope.names = moment.place.trail.scopes
  binds :
    ∀ entry ∈ moment.state.environment.locals.zip
        (moment.place.trail.filter Passed.opensScope),
      ∀ name,
        entry.1.binds name = true ↔
          ∃ earlier ∈ entry.2.node.children.take entry.2.index,
            earlier.declares? = some name
  loopBodies :
    ∀ entry ∈ moment.state.environment.locals.zip
        (moment.place.trail.filter Passed.opensScope),
      entry.2.node.isA .loopBody = true → entry.1 = Scope.empty
  globals :
    moment.state.environment.globals.names =
      declareAll start.globals.names
        ((program.take moment.place.position).map .stmt)
  globalBinds :
    ∀ name,
      moment.state.environment.globals.binds name = true ↔
        start.globals.binds name = true ∨
          ∃ earlier ∈ program.take moment.place.position,
            earlier.declares? = some name
  outer :
    moment.state.environment.outer.map Scope.names = start.outer.map Scope.names
  localNames :
    ∀ name distance,
      moment.place.trail.scopes.findIdx? (·.contains name) = some distance →
        Chain.resolve? moment.state.environment.chain name = some distance
  globalNames :
    ∀ name,
      moment.place.trail.scopes.findIdx? (·.contains name) = none →
        Chain.resolve? moment.state.environment.chain name =
          (Chain.resolve?
              (moment.state.environment.globals ::
                moment.state.environment.outer) name).map
            (· + moment.place.trail.nesting)
  references :
    ∀ name,
      moment.node = .expr (.reference name) →
        match Chain.resolve? moment.state.environment.chain name.lexeme with
        | none =>
            moment.state.environment.valueOf name =
              .error ⟨.undefinedVariable, name⟩
        | some distance => moment.state.environment.ReadsAt name distance
  assignments :
    ∀ name value stored,
      moment.node = .expr (.assign name value) →
        match Chain.resolve? moment.state.environment.chain name.lexeme with
        | none =>
            store name stored moment.state.environment =
              (.error ⟨.undefinedVariable, name⟩, moment.state.environment)
        | some distance =>
            ∃ changed,
              store name stored moment.state.environment = (.ok stored, changed) ∧
                Chain.ReboundAt distance name.lexeme stored
                  moment.state.environment.chain changed.chain ∧
                changed.outline = moment.state.environment.outline
  leaving :
    ∀ stmt,
      moment.node = .stmt stmt →
        (exec settings budget stmt moment.state).Ends fun result after =>
          LeftBy stmt moment.state.environment result after.environment

/--
Scopes and entries of a way down that are listed together have the same names.
-/
theorem names_of_mem_zip
    {scopes : List Scope}
    {passed : List Passed}
    (same : scopes.map Scope.names = passed.map Passed.declared)
    {entry : Scope × Passed}
    (member : entry ∈ scopes.zip passed) :
    entry.1.names = entry.2.declared := by
  induction scopes generalizing passed with
  | nil =>
      cases member
  | cons scope rest inductionHypothesis =>
      cases passed with
      | nil =>
          cases member
      | cons first later =>
          obtain ⟨headSame, restSame⟩ := List.cons.inj same
          rcases List.mem_cons.mp member with rfl | inRest
          · exact headSame
          · exact inductionHypothesis restSame inRest

/--
A moment that stands where its outline is that of the text is lexically scoped.
-/
theorem lexicallyScoped_of_located
    (settings : Settings)
    (budget : Nat)
    {program : Program}
    {start : Environment}
    {moment : Moment}
    {root : Stmt}
    (placed : root.Placed)
    (stands : program[moment.place.position]? = some root)
    (located : Located (.stmt root) moment.place.position
      (topLevel program start moment.place.position) moment) :
    LexicallyScoped settings budget program start moment := by
  obtain ⟨⟨position, trail⟩, node, state⟩ := moment
  have leads := located.leads
  have outline := located.outline
  obtain ⟨nodePlaced, trailPlaced⟩ := leads.placed placed
  have locals : state.environment.locals.map Scope.names = trail.scopes :=
    congrArg Outline.locals outline
  have globals : state.environment.globals.names =
      declareAll start.globals.names ((program.take position).map .stmt) :=
    congrArg Outline.globals outline
  have nesting : state.environment.locals.length = trail.nesting := by
    rw [← trail.length_scopes, ← locals, List.length_map]
  have resolution : ∀ name,
      Chain.resolve? state.environment.chain name =
        (trail.scopes.findIdx? (·.contains name)).or
          ((Chain.resolve? (state.environment.globals :: state.environment.outer)
              name).map (· + trail.nesting)) := by
    intro name
    unfold Environment.chain Chain.resolve?
    rw [List.findIdx?_append, ← locals, List.findIdx?_map, nesting]
    rfl
  constructor
  case stands => exact ⟨root, stands, leads⟩
  case nesting => exact nesting
  case locals => exact locals
  case binds =>
    intro entry member name
    have names := names_of_mem_zip locals member
    simp [Scope.binds, names, Passed.declared, mem_declareAll]
  case loopBodies =>
    intro entry member isLoopBody
    have names := names_of_mem_zip locals member
    have inTrail := (List.mem_filter.mp (List.of_mem_zip member).2).1
    rw [Passed.declared_loopBody (trailPlaced entry.2 inTrail) isLoopBody] at names
    exact Scope.eq_empty_of_names names
  case globals => exact globals
  case globalBinds =>
    intro name
    simp [Scope.binds, globals, mem_declareAll, -List.map_take]
  case outer => exact congrArg Outline.outer outline
  case localNames =>
    intro name distance found
    simp only at found ⊢
    rw [resolution, found]
    rfl
  case globalNames =>
    intro name missing
    simp only at missing ⊢
    rw [resolution, missing]
    rfl
  case references =>
    intro name isReference
    rcases resolved :
      Chain.resolve? state.environment.chain name.lexeme with _ | distance
    · exact Environment.valueOf_of_unresolved resolved
    · exact Environment.readsAt_of_resolved resolved
  case assignments =>
    intro name value stored isAssignment
    rcases resolved :
      Chain.resolve? state.environment.chain name.lexeme with _ | distance
    · exact store_of_unresolved resolved stored
    · exact exists_store_of_resolved resolved stored
  case leaving =>
    rintro stmt rfl
    exact leftBy_exec settings budget nodePlaced state

/--
A program starts at the top level, with the names that the environment has there.
-/
theorem outline_atGlobals
    (program : Program)
    (state : State) :
    state.atGlobals.outline = topLevel program state.environment 0 := by
  simp [State.outline, State.atGlobals, Environment.outline, topLevel]

/--
Every moment of a program whose declarations stand in lists is lexically scoped.
-/
theorem lexicallyScoped_of_mem
    {settings : Settings}
    {budget : Nat}
    {program : Program}
    (placed : ∀ stmt ∈ program, stmt.Placed)
    {state : State}
    {moment : Moment}
    (member : moment ∈ interpretMoments settings budget program state) :
    LexicallyScoped settings budget program state.environment moment := by
  obtain ⟨root, stands, located⟩ :=
    located_of_mem_programMoments placed (List.nil_append program).symm
      (outline_atGlobals program state) member
  exact lexicallyScoped_of_located settings budget
    (placed root (List.mem_of_getElem? stands)) stands located

/--
A program that was read without errors fails with an undefined variable only at a
name that its text declares nowhere around and further up, and that was bound
nowhere at the start.
-/
theorem undeclared_of_undefined
    {settings : Settings}
    {budget : Nat}
    {program : Program}
    (placed : ∀ stmt ∈ program, stmt.Placed)
    {state : State}
    {progress : Progress}
    {name : Token}
    (ended : execProgram settings budget program state.atGlobals = some progress)
    (failed : progress.error? = some ⟨.undefinedVariable, name⟩) :
    ∃ moment ∈ interpretMoments settings budget program state,
      (moment.node = .expr (.reference name) ∨
          ∃ value, moment.node = .expr (.assign name value)) ∧
        name.lexeme ∉ moment.place.trail.scopes.flatten ∧
        name.lexeme ∉
          declareAll state.environment.globals.names
            ((program.take moment.place.position).map .stmt) ∧
        name.lexeme ∉ (state.environment.outer.map Scope.names).flatten := by
  obtain ⟨moment, member, names, unresolved⟩ :=
    exists_unresolved_of_execProgram 0 ended failed
  have lexical : LexicallyScoped settings budget program state.environment moment :=
    lexicallyScoped_of_mem placed member
  have unbound :
      ∀ scope ∈ moment.state.environment.chain, name.lexeme ∉ scope.names := by
    intro scope inChain bound
    have missing := List.findIdx?_eq_none_iff.mp unresolved scope inChain
    simp [Scope.binds, bound] at missing
  have inLocals :
      ∀ scope ∈ moment.state.environment.locals, name.lexeme ∉ scope.names := by
    intro scope member
    exact unbound scope (List.mem_append_left _ member)
  have inGlobals : name.lexeme ∉ moment.state.environment.globals.names :=
    unbound _ (List.mem_append_right _ List.mem_cons_self)
  have inOuter :
      ∀ scope ∈ moment.state.environment.outer, name.lexeme ∉ scope.names := by
    intro scope member
    exact unbound scope (List.mem_append_right _ (List.mem_cons_of_mem _ member))
  refine ⟨moment, member, names, ?_, ?_, ?_⟩
  · rw [← lexical.locals]
    simpa using inLocals
  · rw [← lexical.globals]
    exact inGlobals
  · rw [← lexical.outer]
    simpa using inOuter

/--
A run of a program keeps to the scopes of its text, from the beginning to the end.
-/
structure RunsInScope
    (settings : Settings)
    (budget : Nat)
    (program : Program)
    (start : State) :
    Prop where
  lexical :
    ∀ moment ∈ interpretMoments settings budget program start,
      LexicallyScoped settings budget program start.environment moment
  recorded :
    recordProgram settings budget 0 program start.atGlobals =
      ⟨interpretMoments settings budget program start,
        execProgram settings budget program start.atGlobals⟩
  traced :
    settings.tracing = true →
      ∀ progress,
        execProgram settings budget program start.atGlobals = some progress →
          progress.state.traced =
            start.traced ++
              traceLines (interpretMoments settings budget program start)
  ended :
    ∀ finished after,
      interpret settings budget program start = some (finished, after) →
        ∃ completed,
          completed ≤ program.length ∧
            (finished = true → completed = program.length) ∧
            after.environment.outline = topLevel program start.environment completed
  values :
    ∀ finished after,
      interpret settings budget program start = some (finished, after) →
        ∀ distance name,
          Chain.valueAt? after.environment.chain distance name ≠
              Chain.valueAt? start.atGlobals.environment.chain distance name →
            ∃ stmt ∈ program,
              (Node.stmt stmt).Assigns name ∨ stmt.declares? = some name
  undefined :
    ∀ progress name,
      execProgram settings budget program start.atGlobals = some progress →
        progress.error? = some ⟨.undefinedVariable, name⟩ →
          ∃ moment ∈ interpretMoments settings budget program start,
            (moment.node = .expr (.reference name) ∨
                ∃ value, moment.node = .expr (.assign name value)) ∧
              name.lexeme ∉ moment.place.trail.scopes.flatten ∧
              name.lexeme ∉
                declareAll start.environment.globals.names
                  ((program.take moment.place.position).map .stmt) ∧
              name.lexeme ∉ (start.environment.outer.map Scope.names).flatten

/--
In a run of a program that was read without errors, from any state, each moment
finds the scopes that the text has around its node: as many as there are blocks
and loop bodies, with the names declared further up.  Names are read and assigned
in the scope at the distance that the text gives, assignment declares nothing, and
nothing that was declared in a block is left behind it or behind the program, where
only assigned and declared names have changed.  The moments are what a run comes to
that records its steps.
-/
theorem interpret_lexicallyScoped
    (settings : Settings)
    (budget : Nat)
    {tokens : List Token}
    {program : Program}
    (accepted : (readProgram tokens).accepted? = some program)
    (state : State) :
    RunsInScope settings budget program state := by
  have placed := placed_of_accepted accepted
  constructor
  case lexical =>
    intro moment member
    exact lexicallyScoped_of_mem placed member
  case recorded =>
    exact recordProgram_eq settings budget 0 program state.atGlobals
  case traced =>
    intro tracing progress run
    exact traced_execProgram tracing budget 0 run
  case ended =>
    intro finished after ended
    obtain ⟨progress, run, succeeded, environment⟩ :=
      exists_progress_of_interpret ended
    obtain ⟨completed, within, whole, outline⟩ :=
      outline_execProgram placed (List.nil_append program).symm
        (outline_atGlobals program state) run
    refine ⟨completed, within, ?_, ?_⟩
    · intro toTheEnd
      apply whole
      simpa [succeeded] using toTheEnd
    · rw [environment]
      exact outline
  case values =>
    intro finished after ended distance name changed
    obtain ⟨progress, run, -, environment⟩ := exists_progress_of_interpret ended
    rw [environment] at changed
    exact values_execProgram placed run changed
  case undefined =>
    intro progress name run failed
    exact undeclared_of_undefined placed run failed

/-- The tokens of `{ var a; a = true; print a; }`. -/
def shadowingTokens :
    List Token :=
  [⟨.leftBrace, "\x7b", .nil, 1, 0⟩, ⟨.varKeyword, "var", .nil, 1, 2⟩,
    ⟨.identifier, "a", .nil, 1, 6⟩, ⟨.semicolon, ";", .nil, 1, 7⟩,
    ⟨.identifier, "a", .nil, 1, 9⟩, ⟨.equal, "=", .nil, 1, 11⟩,
    ⟨.trueKeyword, "true", .nil, 1, 13⟩, ⟨.semicolon, ";", .nil, 1, 17⟩,
    ⟨.printKeyword, "print", .nil, 1, 19⟩, ⟨.identifier, "a", .nil, 1, 25⟩,
    ⟨.semicolon, ";", .nil, 1, 26⟩, ⟨.rightBrace, "\x7d", .nil, 1, 28⟩]

/-- A block that declares a name, assigns it and prints it. -/
def shadowing :
    Program :=
  [.block
    [.var ⟨.identifier, "a", .nil, 1, 6⟩ none,
      .expression
        (.assign ⟨.identifier, "a", .nil, 1, 9⟩ (.literal (.boolean true))),
      .print (.reference ⟨.identifier, "a", .nil, 1, 25⟩)]]

/--
The name of the block hides a global one, which has its old value behind the block.
-/
theorem shadowing_lexicallyScoped :
    let state := State.start ⟨[], ⟨[("a", .boolean false)]⟩, []⟩ 0
    let found := interpretMoments ⟨false, true⟩ 0 shadowing state
    (∀ moment ∈ found,
        LexicallyScoped ⟨false, true⟩ 0 shadowing state.environment moment) ∧
      found.map (fun moment => Chain.resolve? moment.state.environment.chain "a") =
        [some 0, some 1, some 0, some 0, some 0, some 0] ∧
      (∃ last,
        found.getLast? = some last ∧
          last.state.environment.ReadsAt ⟨.identifier, "a", .nil, 1, 25⟩ 0 ∧
          Chain.valueAt? last.state.environment.chain 0 "a" = some (.boolean true) ∧
          Chain.valueAt? last.state.environment.chain 1 "a" =
            some (.boolean false)) ∧
      (∃ progress,
        execProgram ⟨false, true⟩ 0 shadowing state.atGlobals = some progress ∧
          progress.state.traced = state.traced ++ traceLines found) ∧
      ∃ after completed,
        interpret ⟨false, true⟩ 0 shadowing state = some (true, after) ∧
          completed = shadowing.length ∧
          after.environment.outline =
            topLevel shadowing state.environment completed ∧
          Chain.valueAt? after.environment.chain 0 "a" = some (.boolean false) := by
  intro state found
  have accepted : (readProgram shadowingTokens).accepted? = some shadowing := rfl
  have inScope := interpret_lexicallyScoped ⟨false, true⟩ 0 accepted state
  obtain ⟨completed, -, whole, outline⟩ := inScope.ended true _ rfl
  have atLast := inScope.lexical _ (List.mem_of_getLast? rfl)
  exact ⟨inScope.lexical, rfl, ⟨_, rfl, atLast.references _ rfl, rfl, rfl⟩,
    ⟨_, rfl, inScope.traced rfl _ rfl⟩, _, completed, rfl, whole rfl, outline, rfl⟩

end Lox.Evaluation
