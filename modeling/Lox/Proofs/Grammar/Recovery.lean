import Lox.Proofs.Grammar.Course
import Mathlib.Logic.Function.Iterate
import Mathlib.Order.Bounds.Basic

namespace Lox.Parser

/-!
# Recovery from errors

The place of a reading is an index into its tokens, and the index behind the
last token is that of the end.  Main statement: reading never goes back, each
round of a loop over declarations goes on behind the place where it started, and
behind a declaration that is given up reading goes on at the first boundary
between statements.  So every reading ends by itself, and no bound on its depth
or on the number of its rounds is ever met.
-/

/-- Whether statements may be parted in front of the token at an index. -/
def IsBoundary
    (tokens : List Token)
    (index : Nat) :
    Prop :=
  index = tokens.length ∨
    (∃ before, index = before + 1 ∧
      tokens[before]?.map Token.kind = some .semicolon) ∨
      ∃ kind ∈ statementKeywords, tokens[index]?.map Token.kind = some kind

/--
Where reading goes on behind a failure: at the
end it stays, and else it passes a token.
-/
def GoesOnAt
    (tokens : List Token)
    (failing next : Nat) :
    Prop :=
  failing = tokens.length ∧ next = failing ∨
    failing < tokens.length ∧
      IsLeast {index | failing < index ∧ IsBoundary tokens index} next

/-- The index of a place by the tokens that are left there. -/
def placeIn
    (tokens left : List Token) :
    Nat :=
  tokens.length - left.length

section Places

variable {tokens left earlier later : List Token}

/-- Places in a list of tokens do not lie behind its end. -/
theorem placeIn_le
    (tokens left : List Token) :
    placeIn tokens left ≤ tokens.length :=
  Nat.sub_le _ _

/-- The end of a list is what is left at its place. -/
theorem drop_placeIn
    (suffix : left <:+ tokens) :
    tokens.drop (placeIn tokens left) = left :=
  (List.suffix_iff_eq_drop.mp suffix).symm

/-- What leaves fewer tokens lies further behind. -/
theorem placeIn_le_placeIn
    (shorter : later.length ≤ earlier.length) :
    placeIn tokens earlier ≤ placeIn tokens later :=
  Nat.sub_le_sub_left shorter _

theorem placeIn_lt_placeIn
    (suffix : earlier <:+ tokens)
    (shorter : later.length < earlier.length) :
    placeIn tokens earlier < placeIn tokens later := by
  have bounded := suffix.length_le
  unfold placeIn
  omega

end Places

/--
Skipping behind a token ends at the first boundary behind it; between two tokens
that are skipped there is none.
-/
theorem exists_skipFrom_eq_drop
    (passed : List Token)
    (last : Token)
    (rest : List Token) :
    ∃ next,
      skipFrom last rest = (passed ++ last :: rest).drop next ∧
        IsLeast
          {index | passed.length < index ∧
            IsBoundary (passed ++ last :: rest) index} next := by
  induction rest generalizing passed last with
  | nil =>
      refine ⟨passed.length + 1, by simp [skipFrom], ⟨by simp, .inl (by simp)⟩, ?_⟩
      rintro index ⟨behind, -⟩
      exact behind
  | cons token rest inductionHypothesis =>
      have here :
          (passed ++ last :: token :: rest)[passed.length]? = some last := by
        simp
      have following :
          (passed ++ last :: token :: rest)[passed.length + 1]? = some token := by
        simp
      by_cases stops : last.kind = .semicolon ∨ token.kind ∈ statementKeywords
      · have stays : skipFrom last (token :: rest) = token :: rest := by
          rw [skipFrom, if_pos (by simpa using stops)]
        refine ⟨passed.length + 1, by simp [stays], ⟨by simp, ?_⟩, ?_⟩
        · rcases stops with semicolon | keyword
          · exact .inr
              (.inl ⟨passed.length, rfl, by rw [here, Option.map_some, semicolon]⟩)
          · exact .inr
              (.inr ⟨token.kind, keyword, by rw [following, Option.map_some]⟩)
        · rintro index ⟨behind, -⟩
          exact behind
      · obtain ⟨next, skips, ⟨beyond, boundary⟩, first⟩ :=
          inductionHypothesis (passed ++ [last]) token
        simp only [List.append_assoc, List.singleton_append, List.length_append,
          List.length_singleton] at skips beyond boundary first
        have goesOn : skipFrom last (token :: rest) = skipFrom token rest := by
          rw [skipFrom, if_neg (by simpa using stops)]
        refine ⟨next, goesOn.trans skips, ⟨by omega, boundary⟩, ?_⟩
        rintro index ⟨behind, candidate⟩
        refine first ⟨Nat.lt_of_le_of_ne behind ?_, candidate⟩
        rintro rfl
        rcases candidate with
          atEnd | ⟨before, same, semicolon⟩ | ⟨kind, keyword, starts⟩
        · simp at atEnd
        · obtain rfl : passed.length = before := by omega
          rw [here, Option.map_some, Option.some_inj] at semicolon
          exact stops (.inl semicolon)
        · rw [following, Option.map_some, Option.some_inj] at starts
          exact stops (.inr (starts ▸ keyword))

/-- Reading goes on at the first boundary behind the token that does not fit. -/
theorem goesOnAt_synchronize
    {tokens failing : List Token}
    (suffix : failing <:+ tokens) :
    GoesOnAt tokens (placeIn tokens failing)
      (placeIn tokens (synchronize failing)) := by
  obtain ⟨passed, rfl⟩ := suffix
  cases failing with
  | nil => exact .inl (by simp [placeIn, synchronize])
  | cons blamed rest =>
      obtain ⟨next, skips, least⟩ := exists_skipFrom_eq_drop passed blamed rest
      have bounded : next ≤ (passed ++ blamed :: rest).length :=
        least.2 ⟨by simp, .inl rfl⟩
      have start :
          placeIn (passed ++ blamed :: rest) (blamed :: rest) = passed.length := by
        simp [placeIn]
      have finish :
          placeIn (passed ++ blamed :: rest) (synchronize (blamed :: rest)) =
            next := by
        rw [placeIn, synchronize, skips, List.length_drop]
        omega
      rw [start, finish]
      exact .inr ⟨by simp, least⟩

/--
How a later step stands to an earlier one.  Reading does not go back, and it goes on
where a declaration was tried only to give it up there.
-/
def Step.Onward
    (earlier later : Step) :
    Prop :=
  later.remaining.length ≤ earlier.remaining.length ∧
    (earlier.act = .tries →
      later.act ≠ .givesUp → later.remaining.length < earlier.remaining.length)

/-- Steps in which each failure is followed by the boundary behind it. -/
inductive Recovered : List Step → Prop where
  | nothing :
      Recovered []
  | step
      {step : Step}
      {steps : List Step} :
      step.act ≠ .givesUp →
      Recovered steps →
      Recovered (step :: steps)
  | failure
      {failing : List Token}
      {steps : List Step} :
      Recovered steps →
      Recovered (⟨.givesUp, failing⟩ :: ⟨.goesOn, synchronize failing⟩ :: steps)

/-- Steps that are recovered stay so one after the other. -/
theorem Recovered.append
    {steps later : List Step}
    (recovered : Recovered steps)
    (laterRecovered : Recovered later) :
    Recovered (steps ++ later) := by
  induction recovered with
  | nothing => exact laterRecovered
  | step noFailure _ inductionHypothesis =>
      exact .step noFailure inductionHypothesis
  | failure _ inductionHypothesis => exact .failure inductionHypothesis

/-- Any failure among recovered steps has its boundary behind it. -/
theorem Recovered.exists_eq_cons
    {steps earlier later : List Step}
    {failing : List Token}
    (recovered : Recovered steps)
    (split : steps = earlier ++ ⟨.givesUp, failing⟩ :: later) :
    ∃ others, later = ⟨.goesOn, synchronize failing⟩ :: others := by
  induction recovered generalizing earlier with
  | nothing => simp at split
  | step noFailure _ inductionHypothesis =>
      cases earlier with
      | nil =>
          cases split
          exact absurd rfl noFailure
      | cons first earlier =>
          exact inductionHypothesis (List.cons_eq_cons.mp split).2
  | failure _ inductionHypothesis =>
      match earlier with
      | [] =>
          cases split
          exact ⟨_, rfl⟩
      | [first] => simp at split
      | first :: second :: earlier =>
          exact inductionHypothesis
            (List.cons_eq_cons.mp (List.cons_eq_cons.mp split).2).2

/-- How the steps of a stretch go on from its tokens to those that it leaves. -/
structure Advances
    (extent : Extent)
    (tokens left : List Token)
    (steps : List Step) :
    Prop where
  suffix :
    left <:+ tokens
  within :
    ∀ step ∈ steps, step.remaining <:+ tokens
  /-- The loops inside of a declaration start behind its first token. -/
  behind :
    extent = .part → ∀ step ∈ steps, step.remaining.length < tokens.length
  before :
    ∀ step ∈ steps, left.length ≤ step.remaining.length
  passed :
    ∀ step ∈ steps, step.act = .tries → left.length < step.remaining.length
  onward :
    steps.Pairwise Step.Onward
  recovered :
    Recovered steps

section Advances

variable {extent : Extent} {tokens between left failing rest : List Token}
  {steps later : List Step}

/-- A stretch without steps advances if it leaves the end of its tokens. -/
theorem advances_nil
    (suffix : left <:+ tokens) :
    Advances extent tokens left [] where
  suffix := suffix
  within := by simp
  behind := by simp
  before := by simp
  passed := by simp
  onward := .nil
  recovered := .nothing

/-- Stretches of a reading that advance do so one after the other. -/
theorem Advances.append
    (advances : Advances extent tokens between steps)
    (laterAdvances : Advances extent between left later) :
    Advances extent tokens left (steps ++ later) where
  suffix := laterAdvances.suffix.trans advances.suffix
  within := List.forall_mem_append.mpr ⟨advances.within,
    fun step member => (laterAdvances.within step member).trans advances.suffix⟩
  behind := fun part => List.forall_mem_append.mpr ⟨advances.behind part,
    fun step member => Nat.lt_of_lt_of_le (laterAdvances.behind part step member)
      advances.suffix.length_le⟩
  before := List.forall_mem_append.mpr ⟨fun step member =>
    laterAdvances.suffix.length_le.trans (advances.before step member),
    laterAdvances.before⟩
  passed := List.forall_mem_append.mpr ⟨fun step member tries =>
    Nat.lt_of_le_of_lt laterAdvances.suffix.length_le
      (advances.passed step member tries),
    laterAdvances.passed⟩
  onward := List.pairwise_append.mpr ⟨advances.onward, laterAdvances.onward,
    fun step member next nextMember => by
      have bounded := (laterAdvances.within next nextMember).length_le
      refine ⟨bounded.trans (advances.before step member), fun tries _ => ?_⟩
      exact Nat.lt_of_le_of_lt bounded (advances.passed step member tries)⟩
  recovered := advances.recovered.append laterAdvances.recovered

/-- A part of a declaration advances also as a part of a round. -/
theorem Advances.ofPart
    (advances : Advances .part tokens left steps) :
    Advances .rounds tokens left steps :=
  { advances with behind := nofun }

/-- Behind a declaration that is accepted its loop goes on. -/
theorem advances_goesOn
    (rest : List Token) :
    Advances .rounds rest rest [⟨.goesOn, rest⟩] where
  suffix := List.suffix_refl rest
  within := List.forall_mem_singleton.mpr (List.suffix_refl rest)
  behind := nofun
  before := List.forall_mem_singleton.mpr (Nat.le_refl _)
  passed := List.forall_mem_singleton.mpr nofun
  onward := List.pairwise_singleton _ _
  recovered := .step nofun .nothing

/-- Behind a declaration that is given up its loop goes on at the next boundary. -/
theorem advances_failure
    (failing : List Token) :
    Advances .rounds failing (synchronize failing)
      [⟨.givesUp, failing⟩, ⟨.goesOn, synchronize failing⟩] where
  suffix := synchronize_suffix failing
  within := List.forall_mem_cons.mpr ⟨List.suffix_refl failing,
    List.forall_mem_singleton.mpr (synchronize_suffix failing)⟩
  behind := nofun
  before := List.forall_mem_cons.mpr ⟨(synchronize_suffix failing).length_le,
    List.forall_mem_singleton.mpr (Nat.le_refl _)⟩
  passed := List.forall_mem_cons.mpr ⟨nofun, List.forall_mem_singleton.mpr nofun⟩
  onward := List.pairwise_pair.mpr ⟨(synchronize_suffix failing).length_le, nofun⟩
  recovered := .failure .nothing

/--
A round advances if its declaration does, and what follows that is behind its start.
-/
theorem Advances.round
    (advances : Advances .part tokens between steps)
    (laterAdvances : Advances .rounds between left later)
    (shorter : left.length < tokens.length)
    (further : ∀ step ∈ later,
      step.act ≠ .givesUp → step.remaining.length < tokens.length) :
    Advances .rounds tokens left (⟨.tries, tokens⟩ :: (steps ++ later)) := by
  have whole := advances.ofPart.append laterAdvances
  constructor
  case suffix => exact whole.suffix
  case within =>
    exact List.forall_mem_cons.mpr ⟨List.suffix_refl tokens, whole.within⟩
  case behind => exact nofun
  case before => exact List.forall_mem_cons.mpr ⟨shorter.le, whole.before⟩
  case passed => exact List.forall_mem_cons.mpr ⟨fun _ => shorter, whole.passed⟩
  case onward =>
    refine List.pairwise_cons.mpr ⟨fun step member => ?_, whole.onward⟩
    refine ⟨(whole.within step member).length_le, fun _ stays => ?_⟩
    rcases List.mem_append.mp member with inside | following
    · exact advances.behind rfl step inside
    · exact further step following stays
  case recovered => exact .step nofun whole.recovered

/-- Behind its first brace a block advances as its loop does. -/
theorem Advances.opened
    (advances : Advances .rounds rest left steps)
    (opening : Token) :
    Advances .part (opening :: rest) left (⟨.opens, rest⟩ :: steps) where
  suffix := advances.suffix.trans (List.suffix_cons opening rest)
  within := List.forall_mem_cons.mpr ⟨List.suffix_cons opening rest,
    fun step member =>
      (advances.within step member).trans (List.suffix_cons opening rest)⟩
  behind := fun _ => List.forall_mem_cons.mpr ⟨Nat.lt_succ_self _,
    fun step member => Nat.lt_succ_of_le (advances.within step member).length_le⟩
  before := List.forall_mem_cons.mpr ⟨advances.suffix.length_le, advances.before⟩
  passed := List.forall_mem_cons.mpr ⟨nofun, advances.passed⟩
  onward := List.pairwise_cons.mpr ⟨fun step member =>
    ⟨(advances.within step member).length_le, nofun⟩, advances.onward⟩
  recovered := .step nofun advances.recovered

/-- The brace that closes a block is passed. -/
theorem advances_closing
    (closing : Token)
    (rest : List Token) :
    Advances .part (closing :: rest) rest [⟨.closes, rest⟩] where
  suffix := List.suffix_cons closing rest
  within := List.forall_mem_singleton.mpr (List.suffix_cons closing rest)
  behind := fun _ => List.forall_mem_singleton.mpr (Nat.lt_succ_self _)
  before := List.forall_mem_singleton.mpr (Nat.le_refl _)
  passed := List.forall_mem_singleton.mpr nofun
  onward := List.pairwise_singleton _ _
  recovered := .step nofun .nothing

/--
Recovery ends nearer to the end than any token that is not behind the failure.
-/
theorem length_synchronize_lt
    (shorter : failing.length ≤ tokens.length)
    (some : 0 < tokens.length) :
    (synchronize failing).length < tokens.length := by
  cases failing with
  | nil => exact some
  | cons blamed rest =>
      exact Nat.lt_of_le_of_lt
        (synchronize_cons_suffix blamed rest).length_le shorter

/-- A round whose declaration is given up advances. -/
theorem Advances.failed
    (advances : Advances .part tokens failing steps)
    (some : 0 < tokens.length) :
    Advances .rounds tokens (synchronize failing)
      (⟨.tries, tokens⟩ ::
        (steps ++ [⟨.givesUp, failing⟩, ⟨.goesOn, synchronize failing⟩])) := by
  have shorter := length_synchronize_lt advances.suffix.length_le some
  refine advances.round (advances_failure failing) shorter ?_
  exact List.forall_mem_cons.mpr ⟨fun stays => absurd rfl stays,
    List.forall_mem_singleton.mpr fun _ => shorter⟩

end Advances

/-- Every course advances. -/
theorem Course.advances
    {extent : Extent}
    {tokens : List Token}
    {exit : Exit}
    {notes : List Note}
    {steps : List Step}
    (course : Course extent tokens exit notes steps) :
    Advances extent tokens exit.remaining steps := by
  induction course with
  | nothing => exact advances_nil (List.suffix_refl _)
  | append _ _ advances laterAdvances => exact advances.append laterAdvances
  | token _ => exact advances_nil (List.suffix_cons _ _)
  | misfit _ _ => exact advances_nil (List.suffix_refl _)
  | target _ _ advances =>
      exact advances_nil (advances.suffix.trans (List.suffix_cons _ _))
  | parsed _ advances => exact advances
  | accepted shorter _ advances =>
      exact advances.round (advances_goesOn _) shorter
        (List.forall_mem_singleton.mpr fun _ => shorter)
  | givenUp _ advances =>
      exact advances.failed
        (Nat.lt_of_lt_of_le (Nat.succ_pos _) advances.suffix.length_le)
  | exhausted _ advances => exact advances.failed (by simp)
  | closed _ _ _ advances => exact (advances.opened _).append (advances_closing _ _)
  | unclosed _ comesToEnd _ advances =>
      rcases comesToEnd with rfl | rfl
      · exact advances.opened _
      · exact advances.opened _

/-- One round of a loop over declarations, behind which the loop goes on. -/
def declarationRound
    (stops : Token → Bool)
    (again : List Token → List (Outcome Stmt) × List Token) :
    List Token → List (Outcome Stmt) × List Token
  | [] => ([], [])
  | token :: rest =>
      if stops token then
        ([], token :: rest)
      else
        let outcome := declaration (token :: rest)
        let later := again (resume outcome)
        (outcome :: later.1, later.2)

/--
One round of a chain of operators behind an operand, behind which the chain goes on.
-/
def operatorRound
    (level : Level)
    (operand : Parser Expr)
    (again : Expr → Parser Expr)
    (left : Expr) :
    Parser Expr := do
  match ← acceptAny level.operators with
  | none => accept left
  | some operator =>
      let right ← operand
      again (level.node left operator right)

/--
Whatever is done where a bound is met, the same is read of the tokens if the bound
is beyond their number: reading ends before.
-/
structure EndsWithinBounds
    (tokens : List Token) :
    Prop where
  expressions :
    ∀ {depth innermost},
      tokens.length < depth →
        assignmentWith^[depth] innermost tokens = expression tokens
  statements :
    ∀ {depth innermost},
      tokens.length < depth →
        statementWith^[depth] innermost tokens = statement tokens
  operators :
    ∀ {level tighter count last left},
      tokens.length < count →
      (operatorRound level (operationWith expression tighter))^[count]
        last left tokens =
        chainFrom level (operationWith expression tighter) tokens.length left tokens
  declarations :
    ∀ {stops count last},
      tokens.length < count →
      (declarationRound stops)^[count] last tokens =
        attempts declaration stops tokens.length tokens

/-- Parsers that are built up from any parser agree on what is not too deep. -/
theorem agreeBelow_iterate
    {build : Parser α → Parser α}
    {whole : Parser α}
    (deeper : ∀ {length other}, AgreeBelow length whole other →
      AgreeBelow (length + 1) (build whole) (build other))
    (same : whole = build whole)
    (depth : Nat)
    (innermost : Parser α) :
    AgreeBelow depth whole (build^[depth] innermost) := by
  induction depth with
  | zero => exact fun tokens short => absurd short (Nat.not_lt_zero _)
  | succ depth inductionHypothesis =>
      have agree := deeper inductionHypothesis
      rwa [← same, ← Function.iterate_succ_apply' build] at agree

/-- A round needs what follows only behind its operator. -/
theorem agreeBelow_operatorRound
    (level : Level)
    {operand : Parser Expr}
    (forward : ReadsForward operand)
    {length : Nat}
    {again other : Expr → Parser Expr}
    (agree : ∀ left, AgreeBelow length (again left) (other left))
    (left : Expr) :
    AgreeBelow (length + 1) (operatorRound level operand again left)
      (operatorRound level operand other left) := by
  intro tokens short
  cases tokens with
  | nil => rfl
  | cons token rest =>
      have shorter : rest.length < length := by simpa using short
      have behind := agreeBelow_andThen (agreeBelow_refl length operand) forward
        (fun right => agree (level.node left token right)) rest shorter
      by_cases fits : token.kind ∈ level.operators
      · simpa only [operatorRound, bind_eq_andThen, andThen, acceptAny, fits,
          ↓reduceIte, Outcome.after_nil] using behind
      · simp only [operatorRound, bind_eq_andThen, andThen,
          acceptAny, fits, ↓reduceIte]

/-- Rounds of a chain agree with the chain on fewer tokens than rounds. -/
theorem agreeBelow_iterate_operatorRound
    (level : Level)
    {operand : Parser Expr}
    (forward : ReadsForward operand)
    (count : Nat)
    (last : Expr → Parser Expr)
    (left : Expr) :
    AgreeBelow count ((operatorRound level operand)^[count] last left)
      (chainFrom level operand count left) := by
  induction count generalizing left with
  | zero => exact fun tokens short => absurd short (Nat.not_lt_zero _)
  | succ count inductionHypothesis =>
      rw [Function.iterate_succ_apply']
      exact agreeBelow_operatorRound level forward inductionHypothesis left

/--
Rounds of declarations are the attempts, if there are more rounds than tokens.
-/
theorem iterate_declarationRound
    {stops : Token → Bool}
    {count : Nat}
    {tokens : List Token}
    (enough : tokens.length < count)
    (last : List Token → List (Outcome Stmt) × List Token) :
    (declarationRound stops)^[count] last tokens =
      attempts declaration stops tokens.length tokens := by
  rw [attempts_eq_of_enough readsForward_declaration
    (consumes_declarationWith consumes_statement) stops (Nat.le_refl _) enough.le]
  induction count generalizing tokens with
  | zero => exact absurd enough (Nat.not_lt_zero _)
  | succ count inductionHypothesis =>
      rw [Function.iterate_succ_apply']
      cases tokens with
      | nil => rfl
      | cons token rest =>
          have shorter := length_resume_lt readsForward_declaration
            (consumes_declarationWith consumes_statement) token rest
          have later := @inductionHypothesis (resume (declaration (token :: rest)))
            (by omega)
          simp only [declarationRound, attempts, later]

/-- Every loop of the parser ends within its bounds. -/
theorem endsWithinBounds
    (tokens : List Token) :
    EndsWithinBounds tokens where
  expressions := fun {depth innermost} deep =>
    (agreeBelow_iterate
      (fun agree => agreeBelow_assignmentWith agree readsForward_expression)
      expression_eq depth innermost tokens deep).symm
  statements := fun {depth innermost} deep =>
    (agreeBelow_iterate
      (fun agree => agreeBelow_statementWith agree readsForward_statement)
      statement_eq depth innermost tokens deep).symm
  operators := fun {level tighter count last left} enough => by
    have forward := readsForward_operationWith readsForward_expression tighter
    rw [agreeBelow_iterate_operatorRound level forward count last
      left tokens enough]
    exact agreeBelow_chainFrom level (agreeBelow_refl count _) forward left tokens
      enough enough.le (Nat.le_refl _)
  declarations := fun enough => iterate_declarationRound enough _

/--
From every place of some tokens a parser comes to that place or to a later one.
-/
def MovesOnIn
    (tokens : List Token)
    (parser : Parser α) :
    Prop :=
  ∀ start ≤ tokens.length,
    ∃ next,
      start ≤ next ∧
        next ≤ tokens.length ∧
          (parser (tokens.drop start)).remaining = tokens.drop next

/-- A later place of some tokens is one of those behind it. -/
theorem exists_drop_of_suffix_drop
    {tokens left : List Token}
    {start : Nat}
    (within : start ≤ tokens.length)
    (suffix : left <:+ tokens.drop start) :
    start ≤ placeIn tokens left ∧ tokens.drop (placeIn tokens left) = left := by
  have shorter := suffix.length_le
  rw [List.length_drop] at shorter
  refine ⟨?_, drop_placeIn (suffix.trans (List.drop_suffix start tokens))⟩
  unfold placeIn
  omega

/-- A parser that reads forward moves on in any tokens. -/
theorem ReadsForward.movesOnIn
    {parser : Parser α}
    (forward : ReadsForward parser)
    (tokens : List Token) :
    MovesOnIn tokens parser := by
  intro start within
  obtain ⟨later, here⟩ :=
    exists_drop_of_suffix_drop within (forward (tokens.drop start))
  exact ⟨_, later, placeIn_le _ _, here.symm⟩

/--
How reading goes through some tokens, from every place and in a whole program.
-/
structure ReadsOnward
    (tokens : List Token) :
    Prop where
  expressions :
    MovesOnIn tokens expression
  statements :
    MovesOnIn tokens statement
  declarations :
    MovesOnIn tokens declaration
  /--
  A declaration is given up where it fails, and
  reading goes on at the first boundary.
  -/
  recovers :
    ∀ {start error notes},
      start ≤ tokens.length →
      declaration (tokens.drop start) = .rejected error notes →
      ∃ failing next,
        start ≤ failing ∧
          error.remaining = tokens.drop failing ∧
            resume (declaration (tokens.drop start)) = tokens.drop next ∧
              GoesOnAt tokens failing next
  /--
  A round of a loop passes a token, whether its declaration is accepted or not.
  -/
  progresses :
    ∀ start < tokens.length,
      ∃ next,
        start < next ∧
          next ≤ tokens.length ∧
            resume (declaration (tokens.drop start)) = tokens.drop next
  /-- The steps of all loops are taken at places of the tokens. -/
  placed :
    ∀ step ∈ programSteps tokens,
      tokens.drop (placeIn tokens step.remaining) = step.remaining
  /-- No declaration is tried at the end. -/
  tried :
    ∀ step ∈ programSteps tokens,
      step.act = .tries → placeIn tokens step.remaining < tokens.length
  /--
  No step goes back, and a try is followed by
  later places, but where it is given up.
  -/
  onward :
    (programSteps tokens).Pairwise fun earlier later =>
      placeIn tokens earlier.remaining ≤ placeIn tokens later.remaining ∧
        (earlier.act = .tries →
          later.act ≠ .givesUp →
          placeIn tokens earlier.remaining < placeIn tokens later.remaining)
  /--
  Declarations are given up where the errors of
  the reading are, but for wrong targets.
  -/
  failures :
    ((readProgram tokens).errors.filter (·.cause ≠ .invalidAssignmentTarget)).map
      GrammarError.remaining = failures (programSteps tokens)
  /-- In all loops the step behind a failure is to the first boundary. -/
  recovered :
    ∀ {earlier failing later},
      programSteps tokens = earlier ++ ⟨.givesUp, failing⟩ :: later →
      ∃ next others,
        later = ⟨.goesOn, next⟩ :: others ∧
          GoesOnAt tokens (placeIn tokens failing) (placeIn tokens next)
  ends :
    ∀ start, EndsWithinBounds (tokens.drop start)

/-- Every reading goes onward, recovers at first boundaries and ends. -/
theorem readsOnward
    (tokens : List Token) :
    ReadsOnward tokens := by
  obtain ⟨exit, _, course⟩ := exists_course_readProgram tokens
  have advances := course.advances
  refine
    { expressions := readsForward_expression.movesOnIn tokens
      statements := readsForward_statement.movesOnIn tokens
      declarations := readsForward_declaration.movesOnIn tokens
      recovers := ?recovers
      progresses := ?progresses
      placed := ?placed
      tried := ?tried
      onward := ?onward
      failures := course.map_errorsOf_eq_failures
      recovered := ?recovered
      ends := fun start => endsWithinBounds (tokens.drop start) }
  case recovers =>
    intro start error notes within rejected
    have suffix := readsForward_declaration (tokens.drop start)
    rw [rejected] at suffix
    obtain ⟨later, here⟩ := exists_drop_of_suffix_drop within suffix
    have whole : error.remaining <:+ tokens :=
      suffix.trans (List.drop_suffix start tokens)
    refine ⟨_, placeIn tokens (synchronize error.remaining), later, here.symm, ?_,
      goesOnAt_synchronize whole⟩
    rw [rejected]
    exact (drop_placeIn ((synchronize_suffix _).trans whole)).symm
  case progresses =>
    intro start before
    have suffix :=
      (resume_suffix _).trans (readsForward_declaration (tokens.drop start))
    obtain ⟨_, here⟩ := exists_drop_of_suffix_drop before.le suffix
    refine ⟨_, ?_, placeIn_le _ _, here.symm⟩
    have shorter : (resume (declaration (tokens.drop start))).length <
        (tokens.drop start).length := by
      rw [List.drop_eq_getElem_cons before]
      exact length_resume_lt readsForward_declaration
        (consumes_declarationWith consumes_statement) _ _
    rw [List.length_drop] at shorter
    unfold placeIn
    omega
  case placed => exact fun step member => drop_placeIn (advances.within step member)
  case tried =>
    intro step member tries
    have before := advances.passed step member tries
    have bounded := (advances.within step member).length_le
    unfold placeIn
    omega
  case onward =>
    refine advances.onward.imp_of_mem fun {earlier later} member _ ahead => ?_
    exact ⟨placeIn_le_placeIn ahead.1, fun tries stays =>
      placeIn_lt_placeIn (advances.within earlier member) (ahead.2 tries stays)⟩
  case recovered =>
    intro earlier failing later split
    obtain ⟨others, rfl⟩ := advances.recovered.exists_eq_cons split
    have member : ⟨.givesUp, failing⟩ ∈ programSteps tokens := by simp [split]
    exact ⟨_, others, rfl, goesOnAt_synchronize (advances.within _ member)⟩

end Lox.Parser
