import Lox.Proofs.Evaluation.LoopBody

namespace Lox.Evaluation

/-!
# For loops

A for loop is read as a while loop with more scopes and statements around its
clauses. This is what it means when it is run clause by clause, and the tree that is
run instead does the same: it ends in the same way, with the same scopes and the
same printed texts. Only a trace shows the statements that the text does not have.
-/

/-- A for loop by its clauses, of which all but the body may be missing. -/
structure ForLoop where
  initial : Option Stmt
  condition : Option Expr
  increment : Option Expr
  body : Stmt

/-- A statement ends in some way, if its loops may be repeated often enough. -/
def Executes
    (settings : Settings)
    (stmt : Stmt)
    (state : State)
    (result : Except RuntimeError Completion)
    (after : State) :
    Prop :=
  ∃ budget, exec settings budget stmt state = some (result, after)

namespace ForLoop

/-- The tree that a for loop is read as. -/
def tree
    (loop : ForLoop) :
    Stmt :=
  Stmt.forLoop loop.initial loop.condition loop.increment loop.body

/-- Test the condition; a missing one holds. -/
def test
    (loop : ForLoop)
    (state : State) :
    Except RuntimeError Bool × State :=
  match loop.condition with
  | none => (.ok true, state)
  | some condition =>
      ((state.evaluate condition).1.map Value.isTruthy,
        (state.evaluate condition).2)

/--
Evaluate the increment once, as an expression statement is, whose value is echoed.
-/
def step
    (settings : Settings)
    (loop : ForLoop)
    (state : State) :
    Except RuntimeError Completion × State :=
  match loop.increment with
  | none => (.ok .normal, state)
  | some increment =>
      match state.evaluate increment with
      | (.error error, after) => (.error error, after)
      | (.ok value, after) =>
          (.ok .normal,
            if settings.echo then after.record (.printed value.display) else after)

/--
A round behind the test: the body, and behind
it the increment unless the body broke.
-/
inductive Round (settings : Settings) (loop : ForLoop) (state : State) :
    Except RuntimeError Completion → State → Prop where
  | failed
      {error : RuntimeError}
      {after : State} :
      Executes settings loop.body state (.error error) after →
      Round settings loop state (.error error) after
  | broke
      {after : State} :
      Executes settings loop.body state (.ok .broke) after →
      Round settings loop state (.ok .broke) after
  | stepped
      {completion : Completion}
      {between after : State}
      {result : Except RuntimeError Completion} :
      Executes settings loop.body state (.ok completion) between →
      completion ≠ .broke →
      loop.step settings between = (result, after) →
      Round settings loop state result after

/--
Rounds, up to the test that does not hold, the first break or the first error.
-/
inductive Rounds (settings : Settings) (loop : ForLoop) :
    State → Except RuntimeError Completion → State → Prop where
  | testFailed
      {state tested : State}
      {error : RuntimeError} :
      loop.test state = (.error error, tested) →
      Rounds settings loop state (.error error) tested
  | finished
      {state tested : State} :
      loop.test state = (.ok false, tested) →
      Rounds settings loop state (.ok .normal) tested
  | failed
      {state tested after : State}
      {error : RuntimeError} :
      loop.test state = (.ok true, tested) →
      Round settings loop tested (.error error) after →
      Rounds settings loop state (.error error) after
  | broke
      {state tested after : State} :
      loop.test state = (.ok true, tested) →
      Round settings loop tested (.ok .broke) after →
      Rounds settings loop state (.ok .normal) after
  | again
      {state tested next after : State}
      {result : Except RuntimeError Completion} :
      loop.test state = (.ok true, tested) →
      Round settings loop tested (.ok .normal) next →
      Rounds settings loop next result after →
      Rounds settings loop state result after

/--
A for loop: an initial clause is run once in a scope of its own, around the rounds.
-/
inductive Runs (settings : Settings) (loop : ForLoop) (state : State) :
    Except RuntimeError Completion → State → Prop where
  | plain
      {result : Except RuntimeError Completion}
      {after : State} :
      loop.initial = none →
      Rounds settings loop state.enterLoop result after →
      Runs settings loop state result after.leaveLoop
  | initialFailed
      {initial : Stmt}
      {error : RuntimeError}
      {after : State} :
      loop.initial = some initial →
      Executes settings initial state.openScope (.error error) after →
      Runs settings loop state (.error error) after.closeScope
  | behindInitial
      {initial : Stmt}
      {between after : State}
      {result : Except RuntimeError Completion} :
      loop.initial = some initial →
      Executes settings initial state.openScope (.ok .normal) between →
      Rounds settings loop between.enterLoop result after →
      Runs settings loop state result after.leaveLoop.closeScope

end ForLoop

/-- A body that was continued went on to its end, for the loop around it. -/
def Completion.settled :
    Completion → Completion
  | .broke => .broke
  | _ => .normal

namespace ForLoop

variable
  {settings : Settings}
  {loop : ForLoop}
  {budget : Nat}
  {state other after : State}
  {result : Except RuntimeError Completion}

theorem runExpression_eq_step
    {increment : Expr}
    (given : loop.increment = some increment)
    (settings : Settings)
    (state : State) :
    runExpression settings increment state = some (loop.step settings state) := by
  unfold runExpression withValue step
  rw [given]
  dsimp only
  rcases state.evaluate increment with ⟨error | value, between⟩
  · rfl
  · rfl

/-- The increment ends normally or with an error. -/
theorem settled_step
    (loop : ForLoop)
    (settings : Settings)
    (state : State) :
    (loop.step settings state).1.map Completion.settled =
      (loop.step settings state).1 := by
  unfold step
  split
  · rfl
  · split
    · rfl
    · rfl

/-- What is run in turn is a round. -/
theorem round_of_inTurn
    {increment : Expr}
    (given : loop.increment = some increment)
    (ended :
      inTurn settings budget loop.body increment state = some (result, after)) :
    loop.Round settings state (result.map Completion.settled) after := by
  unfold inTurn at ended
  rcases run : exec settings budget loop.body state with
    _ | ⟨error | completion, between⟩
  · rw [run] at ended
    cases ended
  · rw [run] at ended
    cases ended
    exact .failed ⟨budget, run⟩
  · rw [run] at ended
    have incremented := runExpression_eq_step given settings between
    have stepped : completion ≠ .broke →
        some (loop.step settings between) = some (result, after) →
          loop.Round settings state (result.map Completion.settled) after := by
      intro unbroken stepEnded
      have same := Option.some.inj stepEnded
      have settled := loop.settled_step settings between
      rw [same] at settled
      rw [settled]
      exact .stepped ⟨budget, run⟩ unbroken same
    cases completion with
    | normal => exact stepped (by decide) (incremented.symm.trans ended)
    | broke =>
        cases ended
        exact .broke ⟨budget, run⟩
    | continued => exact stepped (by decide) (incremented.symm.trans ended)

theorem exists_inTurn
    {increment : Expr}
    (given : loop.increment = some increment)
    (round : loop.Round settings state result after) :
    ∃ budget, inTurn settings budget loop.body increment state =
      some (result, after) := by
  cases round with
  | failed executes =>
      obtain ⟨budget, ended⟩ := executes
      exact ⟨budget, by rw [inTurn, ended]; rfl⟩
  | broke executes =>
      obtain ⟨budget, ended⟩ := executes
      exact ⟨budget, by rw [inTurn, ended]; rfl⟩
  | @stepped completion between _ _ executes unbroken stepped =>
      obtain ⟨budget, ended⟩ := executes
      have incremented := runExpression_eq_step given settings between
      rw [stepped] at incremented
      refine ⟨budget, ?_⟩
      rw [inTurn, ended]
      cases completion with
      | normal => exact incremented
      | broke => exact (unbroken rfl).elim
      | continued => exact incremented

/-- What the tree repeats is a round. -/
theorem round_of_exec
    (placed : Grammar.PlacedStatement loop.body)
    (agrees : state.Agrees other)
    (ended :
      exec settings budget (Grammar.loopRound loop.increment loop.body) state =
        some (result, after)) :
    ∃ after',
      loop.Round settings other (result.map Completion.settled) after' ∧
        after.Agrees after' := by
  rcases given : loop.increment with _ | increment
  · rw [given] at ended
    obtain ⟨after', otherEnded, paired⟩ :=
      (agrees.exec settings budget loop.body).exists_other ended
    refine ⟨after', ?_, paired⟩
    have noStep : loop.step settings after' = (.ok .normal, after') := by
      rw [step, given]
    rcases result with error | _ | _ | _
    · exact .failed ⟨budget, otherEnded⟩
    · exact .stepped ⟨budget, otherEnded⟩ (by decide) noStep
    · exact .broke ⟨budget, otherEnded⟩
    · exact .stepped ⟨budget, otherEnded⟩ (by decide) noStep
  · rw [given] at ended
    obtain ⟨after', otherEnded, paired⟩ :=
      (inTurn_agrees_loopBody placed agrees.symm).symm.exists_other ended
    exact ⟨after', round_of_inTurn given otherEnded, paired⟩

/-- Every round is one that the tree repeats. -/
theorem exists_exec_of_round
    (placed : Grammar.PlacedStatement loop.body)
    (agrees : state.Agrees other)
    (round : loop.Round settings state result after) :
    ∃ budget result' after',
      exec settings budget (Grammar.loopRound loop.increment loop.body) other =
          some (result', after') ∧
        result'.map Completion.settled = result.map Completion.settled ∧
        after.Agrees after' := by
  rcases given : loop.increment with _ | increment
  · have bodyEnds : ∀ {outcome : Except RuntimeError Completion} {between : State},
        Executes settings loop.body state outcome between →
          ∃ budget between',
            exec settings budget loop.body other = some (outcome, between') ∧
              between.Agrees between' := by
      intro outcome between executes
      obtain ⟨budget, ended⟩ := executes
      obtain ⟨between', otherEnded, paired⟩ :=
        (agrees.exec settings budget loop.body).exists_other ended
      exact ⟨budget, between', otherEnded, paired⟩
    cases round with
    | failed executes =>
        obtain ⟨budget, after', ended, paired⟩ := bodyEnds executes
        exact ⟨budget, _, after', ended, rfl, paired⟩
    | broke executes =>
        obtain ⟨budget, after', ended, paired⟩ := bodyEnds executes
        exact ⟨budget, _, after', ended, rfl, paired⟩
    | @stepped completion between _ _ executes unbroken stepped =>
        obtain ⟨budget, after', ended, paired⟩ := bodyEnds executes
        rw [step, given] at stepped
        cases stepped
        refine ⟨budget, _, after', ended, ?_, paired⟩
        cases completion with
        | normal => rfl
        | broke => exact (unbroken rfl).elim
        | continued => rfl
  · obtain ⟨budget, ended⟩ := exists_inTurn given round
    obtain ⟨after', otherEnded, paired⟩ :=
      (inTurn_agrees_loopBody placed agrees).exists_other ended
    exact ⟨budget, result, after', otherEnded, rfl, paired⟩

/-- A missing condition is tested as one that holds. -/
theorem test_eq
    (loop : ForLoop)
    (state : State) :
    loop.test state =
      ((state.evaluate (Grammar.loopCondition loop.condition)).1.map Value.isTruthy,
        (state.evaluate (Grammar.loopCondition loop.condition)).2) := by
  unfold test
  cases loop.condition with
  | none => rfl
  | some condition => rfl

theorem test_agrees
    (agrees : state.Agrees other)
    {outcome : Except RuntimeError Bool}
    {tested : State}
    (test : loop.test state = (outcome, tested)) :
    ∃ tested', loop.test other = (outcome, tested') ∧ tested.Agrees tested' := by
  rw [test_eq] at test ⊢
  unfold State.evaluate at test ⊢
  cases test
  rw [agrees.environment]
  exact ⟨_, rfl, rfl, agrees.loopDepth, agrees.log⟩

/-- The tree tests and repeats. -/
theorem iterate_succ
    (loop : ForLoop)
    (body : State → Run)
    (rounds : Nat)
    (state : State) :
    iterate (Grammar.loopCondition loop.condition) body (rounds + 1) state =
      match loop.test state with
      | (.error error, tested) => some (.error error, tested)
      | (.ok false, tested) => some (.ok .normal, tested)
      | (.ok true, tested) =>
          proceed (body tested) fun
            | .broke, after => some (.ok .normal, after)
            | _, after =>
                iterate (Grammar.loopCondition loop.condition) body
                  rounds after := by
  rw [iterate, test_eq]
  rcases state.evaluate (Grammar.loopCondition loop.condition) with
    ⟨error | value, tested⟩
  · rfl
  · cases truthy : value.isTruthy with
    | false => simp [Except.map, truthy]
    | true =>
        simp only [Except.map, truthy, if_true]
        rcases body tested with _ | ⟨error | _ | _ | _, after⟩
        · rfl
        · rfl
        · rfl
        · rfl
        · rfl

/-- The tree repeats rounds. -/
theorem rounds_of_iterate
    (placed : Grammar.PlacedStatement loop.body)
    (agrees : state.Agrees other)
    {rounds : Nat}
    (ended :
      iterate (Grammar.loopCondition loop.condition)
        (exec settings budget
          (Grammar.loopRound loop.increment loop.body)) rounds state =
          some (result, after)) :
    ∃ after', loop.Rounds settings other result after' ∧ after.Agrees after' := by
  induction rounds generalizing state other with
  | zero => cases ended
  | succ rounds inductionHypothesis =>
      rcases test : loop.test state with ⟨outcome, tested⟩
      obtain ⟨tested', otherTest, agreesTested⟩ := test_agrees agrees test
      rw [iterate_succ, test] at ended
      rcases outcome with error | _ | _
      · cases ended
        exact ⟨tested', .testFailed otherTest, agreesTested⟩
      · cases ended
        exact ⟨tested', .finished otherTest, agreesTested⟩
      · rcases run :
          exec settings budget (Grammar.loopRound loop.increment loop.body)
            tested with _ | ⟨ending, between⟩
        · simp only [run] at ended
          cases ended
        · obtain ⟨between', round, agreesBetween⟩ :=
            round_of_exec placed agreesTested run
          have goesOn := @inductionHypothesis between between' agreesBetween
          simp only [run] at ended
          rcases ending with error | _ | _ | _
          · cases ended
            exact ⟨between', .failed otherTest round, agreesBetween⟩
          · obtain ⟨after', later, agreesAfter⟩ := goesOn ended
            exact ⟨after', .again otherTest round later, agreesAfter⟩
          · cases ended
            exact ⟨between', .broke otherTest round, agreesBetween⟩
          · obtain ⟨after', later, agreesAfter⟩ := goesOn ended
            exact ⟨after', .again otherTest round later, agreesAfter⟩

/-- All rounds are repeated by the tree. -/
theorem exists_iterate
    (placed : Grammar.PlacedStatement loop.body)
    (repeats : loop.Rounds settings state result after)
    (agrees : state.Agrees other) :
    ∃ budget rounds after',
      iterate (Grammar.loopCondition loop.condition)
          (exec settings budget
            (Grammar.loopRound loop.increment loop.body)) rounds other =
        some (result, after') ∧
      after.Agrees after' := by
  induction repeats generalizing other with
  | testFailed test =>
      obtain ⟨tested', otherTest, agreesTested⟩ := test_agrees agrees test
      exact ⟨0, 1, tested', by rw [iterate_succ, otherTest], agreesTested⟩
  | finished test =>
      obtain ⟨tested', otherTest, agreesTested⟩ := test_agrees agrees test
      exact ⟨0, 1, tested', by rw [iterate_succ, otherTest], agreesTested⟩
  | failed test round =>
      obtain ⟨tested', otherTest, agreesTested⟩ := test_agrees agrees test
      obtain ⟨budget, result', after', run, settled, agreesAfter⟩ :=
        exists_exec_of_round placed agreesTested round
      rcases result' with error | completion
      · cases settled
        refine ⟨budget, 1, after', ?_, agreesAfter⟩
        rw [iterate_succ, otherTest]
        simp only [run, proceed]
      · cases settled
  | broke test round =>
      obtain ⟨tested', otherTest, agreesTested⟩ := test_agrees agrees test
      obtain ⟨budget, result', after', run, settled, agreesAfter⟩ :=
        exists_exec_of_round placed agreesTested round
      rcases result' with error | _ | _ | _
      · cases settled
      · cases settled
      · refine ⟨budget, 1, after', ?_, agreesAfter⟩
        rw [iterate_succ, otherTest]
        simp only [run, proceed]
      · cases settled
  | again test round later inductionHypothesis =>
      obtain ⟨tested', otherTest, agreesTested⟩ := test_agrees agrees test
      obtain ⟨budget, result', next', run, settled, agreesNext⟩ :=
        exists_exec_of_round placed agreesTested round
      obtain ⟨laterBudget, rounds, after', laterRun, agreesAfter⟩ :=
        inductionHypothesis agreesNext
      have first := exec_mono (Nat.le_max_left budget laterBudget) run
      have repeated :=
        iterate_mono (Nat.le_max_right budget laterBudget)
          (Nat.le_refl rounds) laterRun
      refine ⟨max budget laterBudget, rounds + 1, after', ?_, agreesAfter⟩
      rw [iterate_succ, otherTest]
      rcases result' with error | _ | _ | _
      · cases settled
      · simp only [first, proceed, repeated]
      · cases settled
      · simp only [first, proceed, repeated]

/-- The while loop of the tree repeats rounds. -/
theorem rounds_of_exec
    (placed : Grammar.PlacedStatement loop.body)
    (agrees : state.Agrees other)
    (ended :
      exec settings budget
          (.whileLoop (Grammar.loopCondition loop.condition)
            (Grammar.loopRound loop.increment loop.body)) state =
        some (result, after)) :
    ∃ after', loop.Rounds settings other.enterLoop result after' ∧
      after.Agrees after'.leaveLoop := by
  rw [exec] at ended
  obtain ⟨⟨result', inner⟩, repeated, same⟩ := Option.map_eq_some_iff.mp ended
  cases same
  have entered :=
    State.Agrees.enterLoop (State.Paired.beginLeft agrees settings .whileLoop)
  obtain ⟨after', repeats, agreesAfter⟩ := rounds_of_iterate placed entered repeated
  exact ⟨after', repeats, agreesAfter.leaveLoop⟩

theorem exists_exec_of_rounds
    (placed : Grammar.PlacedStatement loop.body)
    (agrees : state.Agrees other)
    (repeats : loop.Rounds settings state.enterLoop result after) :
    ∃ budget after',
      exec settings budget
          (.whileLoop (Grammar.loopCondition loop.condition)
            (Grammar.loopRound loop.increment loop.body)) other =
        some (result, after') ∧
      after.leaveLoop.Agrees after' := by
  have entered :=
    State.Agrees.enterLoop (State.Paired.beginRight agrees settings .whileLoop)
  obtain ⟨budget, rounds, after', repeated, agreesAfter⟩ :=
    exists_iterate placed repeats entered
  have ended :=
    iterate_mono (Nat.le_max_left budget rounds)
      (Nat.le_max_right budget rounds) repeated
  refine ⟨max budget rounds, after'.leaveLoop, ?_, agreesAfter.leaveLoop⟩
  rw [exec, ended]
  rfl

/-- An initial clause signals no loop. -/
theorem normal_of_initial
    {tokens : List Token}
    {initial : Stmt}
    (derives : Grammar.ForInitial tokens (some initial))
    {completion : Completion}
    (ended : exec settings budget initial state = some (.ok completion, after)) :
    completion = .normal := by
  have valued : ∀ {before : State} {expr : Expr} {next : Value → State → State},
      withValue before expr
        (fun value tested => some (.ok .normal, next value tested)) =
          some (.ok completion, after) →
        completion = .normal := by
    intro before expr next run
    unfold withValue at run
    rcases evaluated : before.evaluate expr with ⟨error | value, tested⟩
    · rw [evaluated] at run
      cases run
    · rw [evaluated] at run
      cases run
      rfl
  cases derives with
  | declaration declares =>
      cases declares with
      | plain =>
          rw [exec] at ended
          cases ended
          rfl
      | initialized =>
          rw [exec] at ended
          exact valued ended
  | expression evaluates =>
      cases evaluates
      rw [exec] at ended
      exact valued ended

/-- The tree runs as the loop does. -/
theorem runs_of_exec
    {tokens : List Token}
    (derives : Grammar.ForInitial tokens loop.initial)
    (placed : Grammar.PlacedStatement loop.body)
    (ended : exec settings budget loop.tree state = some (result, after)) :
    ∃ after', loop.Runs settings state result after' ∧ after.Agrees after' := by
  rw [tree, Parser.forLoop_eq] at ended
  rcases given : loop.initial with _ | initial
  · rw [given] at ended
    obtain ⟨after', repeats, agrees⟩ := rounds_of_exec placed (.refl state) ended
    exact ⟨after'.leaveLoop, .plain given repeats, agrees⟩
  · rw [given] at ended derives
    have opened : (state.begin settings .block).openScope.Agrees state.openScope :=
      State.Agrees.openScope
        (State.Paired.beginLeft (State.Agrees.refl state) settings .block)
    simp only [Grammar.loopBehind, exec, execAll_pair] at ended
    obtain ⟨⟨result', inner⟩, pair, same⟩ := Option.map_eq_some_iff.mp ended
    cases same
    rcases run :
      exec settings budget initial (state.begin settings .block).openScope with
        _ | ⟨error | completion, between⟩
    · rw [run] at pair
      cases pair
    · obtain ⟨between', otherRun, agrees⟩ :=
        (opened.exec settings budget initial).exists_other run
      rw [run] at pair
      cases pair
      exact ⟨between'.closeScope, .initialFailed given ⟨budget, otherRun⟩,
        agrees.closeScope⟩
    · cases normal_of_initial derives run
      obtain ⟨between', otherRun, agreesBetween⟩ :=
        (opened.exec settings budget initial).exists_other run
      rw [run] at pair
      obtain ⟨after', repeats, agrees⟩ := rounds_of_exec placed agreesBetween pair
      exact ⟨after'.leaveLoop.closeScope,
        .behindInitial given ⟨budget, otherRun⟩ repeats, agrees.closeScope⟩

/-- The loop runs as the tree does. -/
theorem exists_exec_of_runs
    (placed : Grammar.PlacedStatement loop.body)
    (runs : loop.Runs settings state result after) :
    ∃ after', Executes settings loop.tree state result after' ∧
      after.Agrees after' := by
  have opened : state.openScope.Agrees (state.begin settings .block).openScope :=
    State.Agrees.openScope
      (State.Paired.beginRight (State.Agrees.refl state) settings .block)
  cases runs with
  | plain given repeats =>
      obtain ⟨budget, after', ended, agrees⟩ :=
        exists_exec_of_rounds placed (.refl state) repeats
      refine ⟨after', ⟨budget, ?_⟩, agrees⟩
      rw [tree, Parser.forLoop_eq, given]
      exact ended
  | initialFailed given executes =>
      obtain ⟨budget, ended⟩ := executes
      obtain ⟨after', otherEnded, agrees⟩ :=
        (opened.exec settings budget _).exists_other ended
      refine ⟨after'.closeScope, ⟨budget, ?_⟩, agrees.closeScope⟩
      rw [tree, Parser.forLoop_eq, given]
      simp only [Grammar.loopBehind, exec, execAll_pair, otherEnded, proceed]
      rfl
  | behindInitial given executes repeats =>
      obtain ⟨budget, ended⟩ := executes
      obtain ⟨between', otherEnded, agreesBetween⟩ :=
        (opened.exec settings budget _).exists_other ended
      obtain ⟨loopBudget, after', loopEnded, agrees⟩ :=
        exists_exec_of_rounds placed agreesBetween repeats
      refine ⟨after'.closeScope, ⟨max budget loopBudget, ?_⟩, agrees.closeScope⟩
      have first := exec_mono (Nat.le_max_left budget loopBudget) otherEnded
      have later := exec_mono (Nat.le_max_right budget loopBudget) loopEnded
      rw [tree, Parser.forLoop_eq, given, Grammar.loopBehind, exec,
        execAll_pair, first]
      simp only [proceed, later]
      rfl

/-- A loop ends normally or with an error. -/
theorem Rounds.normal
    (repeats : loop.Rounds settings state result after)
    {completion : Completion}
    (completes : result = .ok completion) :
    completion = .normal := by
  induction repeats with
  | testFailed => cases completes
  | finished =>
      cases completes
      rfl
  | failed => cases completes
  | broke =>
      cases completes
      rfl
  | again _ _ _ inductionHypothesis => exact inductionHypothesis completes

theorem Runs.normal
    (runs : loop.Runs settings state result after)
    {completion : Completion}
    (completes : result = .ok completion) :
    completion = .normal := by
  cases runs with
  | plain _ repeats => exact repeats.normal completes
  | initialFailed => cases completes
  | behindInitial _ _ repeats => exact repeats.normal completes

/-- Tokens are a for statement with the clauses and the body of a loop. -/
inductive WrittenAs (loop : ForLoop) : List Token → Prop where
  | mk
      {keyword opening semicolon closing : Token}
      {initialTokens conditionTokens incrementTokens bodyTokens : List Token}
      {ending : Grammar.Ending} :
      keyword.kind = .forKeyword →
      opening.kind = .leftParen →
      Grammar.ForInitial initialTokens loop.initial →
      Grammar.ForClause conditionTokens loop.condition →
      semicolon.kind = .semicolon →
      Grammar.ForClause incrementTokens loop.increment →
      closing.kind = .rightParen →
      Grammar.Statement .nearest ending bodyTokens loop.body →
      WrittenAs loop
        (keyword :: opening ::
          (initialTokens ++ (conditionTokens ++ semicolon ::
            (incrementTokens ++ closing :: bodyTokens))))

/-- A for statement is read as the tree of its loop. -/
theorem exists_writtenAs
    {keyword : Token}
    {tokens rest : List Token}
    {stmt : Stmt}
    (starts : keyword.kind = .forKeyword)
    (reads : Parser.Reads Parser.statement (keyword :: tokens) stmt rest) :
    ∃ loop : ForLoop, ∃ written,
      loop.WrittenAs written ∧ keyword :: tokens = written ++ rest ∧
        loop.tree = stmt := by
  have same :
      Parser.statementWith Parser.statement (keyword :: tokens) =
        Parser.forWith Parser.statement tokens := by
    simp only [Parser.statementWith, starts]
  have behind := (Parser.reads_statement_iff same).mp reads
  simp only [Parser.forWith, Parser.reads_bind, Parser.reads_expect,
    Parser.reads_accept] at behind
  obtain ⟨opening, _, ⟨rfl, opens⟩, initial, _, initialReads, condition, _,
    conditionReads, semicolon, _, ⟨rfl, ends⟩, increment, _, incrementReads,
    closing, _, ⟨rfl, closes⟩, body, _, bodyReads, rfl, rfl⟩ := behind
  obtain ⟨initialTokens, rfl, initialDerives⟩ :=
    Parser.reads_forInitial_iff.mp initialReads
  obtain ⟨conditionTokens, rfl, conditionDerives⟩ :=
    (Parser.reads_forClause_iff ends (by decide) (by decide)).mp conditionReads
  obtain ⟨incrementTokens, rfl, incrementDerives⟩ :=
    (Parser.reads_forClause_iff closes (by decide) (by decide)).mp incrementReads
  obtain ⟨bodyTokens, rfl, ending, bodyDerives, -⟩ :=
    Parser.readsStatements_statement bodyReads
  exact ⟨⟨initial, condition, increment, body⟩, _,
    .mk starts opens initialDerives conditionDerives ends incrementDerives
      closes bodyDerives,
    by simp, rfl⟩

/--
A statement does what the clauses of a loop say, from any state and for any rounds.
-/
structure Describes
    (loop : ForLoop)
    (stmt : Stmt) :
    Prop where
  /-- The statement ends only as the loop does. -/
  runs : ∀ {settings state result after},
    Executes settings stmt state result after →
      ∃ after', loop.Runs settings state result after' ∧ after.Agrees after'
  /-- Whenever the loop ends, the statement does. -/
  executes : ∀ {settings state result after},
    loop.Runs settings state result after →
      ∃ after', Executes settings stmt state result after' ∧ after.Agrees after'
  /-- The statement signals no loop. -/
  normal : ∀ {settings state completion after},
    Executes settings stmt state (.ok completion) after → completion = .normal
  /-- The scope around the body and the increment is not seen. -/
  hidden : ∀ settings budget increment state,
    Run.Agrees (exec settings budget (.loopBody loop.body increment) state)
      (inTurn settings budget loop.body increment state)

theorem describes_tree
    {tokens : List Token}
    (derives : Grammar.ForInitial tokens loop.initial)
    (placed : Grammar.PlacedStatement loop.body) :
    loop.Describes loop.tree where
  runs := by
    intro settings state result after executes
    obtain ⟨budget, ended⟩ := executes
    exact runs_of_exec derives placed ended
  executes := by
    intro settings state result after runs
    exact exists_exec_of_runs placed runs
  normal := by
    intro settings state completion after executes
    obtain ⟨budget, ended⟩ := executes
    obtain ⟨after', runs, -⟩ := runs_of_exec derives placed ended
    exact runs.normal rfl
  hidden := by
    intro settings budget increment state
    exact (inTurn_agrees_loopBody placed (.refl state)).symm

end ForLoop

/--
A for statement that is read runs as the clauses say that it is
written with.  A block of a body and an increment runs as the two do
in the loop, unless the body is continued.
-/
theorem forLoop_runs_by_clauses
    {keyword : Token}
    {tokens rest : List Token}
    {stmt : Stmt}
    (starts : keyword.kind = .forKeyword)
    (reads : Parser.Reads Parser.statement (keyword :: tokens) stmt rest) :
    (∃ loop : ForLoop, ∃ written,
      loop.WrittenAs written ∧ keyword :: tokens = written ++ rest ∧
        loop.tree = stmt ∧ loop.Describes stmt) ∧
      ∀ settings budget body increment state,
        (∀ after, exec settings budget body state.openScope ≠
          some (.ok .continued, after)) →
          Run.Agrees (exec settings budget (.loopBody body increment) state)
            (exec settings budget
              (.block [body, .expression increment]) state) := by
  constructor
  · obtain ⟨loop, written, writtenAs, shape, rfl⟩ :=
      ForLoop.exists_writtenAs starts reads
    refine ⟨loop, written, writtenAs, shape, rfl, ?_⟩
    cases writtenAs with
    | mk _ _ initialDerives _ _ _ _ bodyDerives =>
        exact ForLoop.describes_tree initialDerives bodyDerives.placedStatement
  · intro settings budget body increment state uncontinued
    exact loopBody_agrees_block uncontinued

/-- The tokens of `for (var on = true; on; on = false) continue;`. -/
def continuedTokens :
    List Token :=
  [⟨.forKeyword, "for", .nil, 1, 0⟩, ⟨.leftParen, "(", .nil, 1, 4⟩,
    ⟨.varKeyword, "var", .nil, 1, 5⟩, ⟨.identifier, "on", .nil, 1, 9⟩,
    ⟨.equal, "=", .nil, 1, 12⟩, ⟨.trueKeyword, "true", .nil, 1, 14⟩,
    ⟨.semicolon, ";", .nil, 1, 18⟩, ⟨.identifier, "on", .nil, 1, 20⟩,
    ⟨.semicolon, ";", .nil, 1, 22⟩, ⟨.identifier, "on", .nil, 1, 24⟩,
    ⟨.equal, "=", .nil, 1, 27⟩, ⟨.falseKeyword, "false", .nil, 1, 29⟩,
    ⟨.rightParen, ")", .nil, 1, 34⟩, ⟨.continueKeyword, "continue", .nil, 1, 36⟩,
    ⟨.semicolon, ";", .nil, 1, 44⟩]

/-- The loop of these tokens, by its clauses. -/
def continuedLoop :
    ForLoop where
  initial :=
    some (.var ⟨.identifier, "on", .nil, 1, 9⟩ (some (.literal (.boolean true))))
  condition := some (.reference ⟨.identifier, "on", .nil, 1, 20⟩)
  increment :=
    some (.assign ⟨.identifier, "on", .nil, 1, 24⟩ (.literal (.boolean false)))
  body := .continueLoop ⟨.continueKeyword, "continue", .nil, 1, 36⟩

/-- A continued body is followed by the increment, which ends the loop here. -/
theorem continuedLoop_runs :
    let state := State.start default 0
    Parser.Reads Parser.statement continuedTokens continuedLoop.tree [] ∧
      ∃ loop : ForLoop,
        loop.WrittenAs continuedTokens ∧ loop.Describes continuedLoop.tree ∧
          ∃ after, loop.Runs ⟨true, false⟩ state (.ok .normal) after ∧
            after.environment = state.environment ∧
            after.log.filterMap Event.printedText? = ["false"] := by
  intro state
  have reads :
      Parser.Reads Parser.statement continuedTokens continuedLoop.tree [] :=
    ⟨_, rfl, rfl⟩
  obtain ⟨⟨loop, written, writtenAs, shape, -, describes⟩, -⟩ :=
    forLoop_runs_by_clauses rfl reads
  rw [List.append_nil] at shape
  subst shape
  have executes : Executes ⟨true, false⟩ continuedLoop.tree state (.ok .normal)
      { state with log := [.printed "false"] } := ⟨2, rfl⟩
  obtain ⟨after, runs, agrees⟩ := describes.runs executes
  exact ⟨reads, loop, writtenAs, describes, after, runs,
    agrees.environment.symm, agrees.log⟩

end Lox.Evaluation
