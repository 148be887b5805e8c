import Lox.Proofs.Evaluation.Signal
import Lox.Proofs.Grammar.Blame

namespace Lox.Parser

/-!
# Braces and blocks

A brace that is read opens a block or closes one, but recovery passes over braces
like over any other token.  Main statement: at every step of a reading as many
blocks are open as braces are in front of it, not counting those that recoveries
have passed over.  So a missing brace is reported of a text with balanced braces,
exactly if recoveries pass over more closing braces than opening ones.
-/

/-- How many braces are opened by some tokens, less those that they close. -/
def height
    (tokens : List Token) :
    Int :=
  tokens.countP (·.kind = .leftBrace) - tokens.countP (·.kind = .rightBrace)

/-- How many blocks are opened by some steps, less those that they close. -/
def blockHeight
    (steps : List Step) :
    Int :=
  steps.countP (·.act = .opens) - steps.countP (·.act = .closes)

/-- The tokens that recovery passes over where a declaration is given up. -/
def passedOver
    (failing : List Token) :
    List Token :=
  failing.take (failing.length - (synchronize failing).length)

/-- The tokens that recoveries pass over at some places. -/
def skipped
    (places : List (List Token)) :
    List Token :=
  places.flatMap passedOver

/-- The tokens that recoveries pass over while a program is read. -/
def skippedTokens
    (tokens : List Token) :
    List Token :=
  skipped
    (((readProgram tokens).errors.filter (·.cause ≠ .invalidAssignmentTarget)).map
      GrammarError.remaining)

/-- No brace is closed that was not opened before, and all are closed in the end. -/
structure Balanced
    (tokens : List Token) :
    Prop where
  opened : ∀ count ≤ tokens.length, 0 ≤ height (tokens.take count)
  closed : height tokens = 0

section Heights

variable {tokens rest : List Token} {token : Token}

@[simp] theorem height_nil :
    height [] = 0 :=
  rfl

/-- The heights of token lists add up. -/
@[simp] theorem height_append
    (earlier later : List Token) :
    height (earlier ++ later) = height earlier + height later := by
  simp only [height, List.countP_append]
  omega

@[simp] theorem blockHeight_nil :
    blockHeight [] = 0 :=
  rfl

/-- The heights of steps add up. -/
@[simp] theorem blockHeight_append
    (earlier later : List Step) :
    blockHeight (earlier ++ later) = blockHeight earlier + blockHeight later := by
  simp only [blockHeight, List.countP_append]
  omega

/-- A token that is no brace leaves the height. -/
theorem height_cons_of_not_brace
    (noBrace : token.kind ∉ braces) :
    height (token :: rest) = height rest := by
  simp only [braces, List.mem_cons, List.not_mem_nil, or_false, not_or] at noBrace
  simp [height, noBrace]

/-- An opening brace is one step up. -/
theorem height_cons_of_opening
    (opens : token.kind = .leftBrace) :
    height (token :: rest) = height rest + 1 := by
  simp [height, opens]
  omega

/-- A closing brace is one step down. -/
theorem height_cons_of_closing
    (closes : token.kind = .rightBrace) :
    height (token :: rest) = height rest - 1 := by
  simp [height, closes]
  omega

/-- Tokens without braces have no height. -/
theorem height_eq_zero_of_no_brace
    (noBrace : ∀ token ∈ tokens, token.kind ∉ braces) :
    height tokens = 0 := by
  induction tokens with
  | nil => rfl
  | cons token rest inductionHypothesis =>
      obtain ⟨here, later⟩ := List.forall_mem_cons.mp noBrace
      rw [height_cons_of_not_brace here, inductionHypothesis later]

/-- Recovery ends behind the tokens that it passes over. -/
theorem passedOver_append_synchronize
    (failing : List Token) :
    passedOver failing ++ synchronize failing = failing := by
  obtain ⟨passed, shape⟩ := synchronize_suffix failing
  have length : failing.length - (synchronize failing).length = passed.length := by
    have total := congrArg List.length shape
    rw [List.length_append] at total
    omega
  rw [passedOver, length]
  conv => lhs; arg 1; rw [← shape, List.take_left]
  exact shape

/-- Going on behind a failure loses the height of what is passed over. -/
theorem height_synchronize
    (failing : List Token) :
    height (synchronize failing) =
      height failing - height (passedOver failing) := by
  have both := congrArg height (passedOver_append_synchronize failing)
  rw [height_append] at both
  omega

/-- What is skipped in steps is skipped in each of them. -/
@[simp] theorem skipped_append
    (earlier later : List (List Token)) :
    skipped (earlier ++ later) = skipped earlier ++ skipped later :=
  List.flatMap_append

end Heights

/-- From some tokens to others, blocks are opened and closed as the braces are. -/
structure KeepsHeight
    (tokens left : List Token)
    (steps : List Step) :
    Prop where
  /-- A step counts itself, but a recovery behind it is not yet made. -/
  each :
    ∀ {earlier step later},
      steps = earlier ++ step :: later →
        height tokens - height step.remaining =
          blockHeight (earlier ++ [step]) + height (skipped (failures earlier))
  whole :
    height tokens - height left =
      blockHeight steps + height (skipped (failures steps))

section Courses

variable {tokens between left rest : List Token} {steps later : List Step}

/-- Where no step is taken, the heights of the tokens are the same. -/
theorem keepsHeight_nil
    (same : height tokens = height left) :
    KeepsHeight tokens left [] where
  each := fun split => by simp at split
  whole := by simp [same, failures, skipped]

/-- One step keeps the height if its own change accounts for that of the tokens. -/
theorem keepsHeight_singleton
    {step : Step}
    (here : height tokens - height step.remaining = blockHeight [step])
    (behind :
      height step.remaining - height left = height (skipped (failures [step]))) :
    KeepsHeight tokens left [step] where
  each := by
    intro earlier other later split
    cases earlier with
    | nil =>
        obtain ⟨rfl, -⟩ := List.cons.inj split
        simpa [failures, skipped] using here
    | cons first more => simp at split
  whole := by omega

/-- Steps that keep the height do so one after the other. -/
theorem KeepsHeight.append
    (keeps : KeepsHeight tokens between steps)
    (laterKeeps : KeepsHeight between left later) :
    KeepsHeight tokens left (steps ++ later) where
  each := by
    intro earlier step behind split
    rcases Evaluation.split_append split with ⟨rest, shape, -⟩ | ⟨front, rfl, shape⟩
    · exact keeps.each shape
    · have here := laterKeeps.each shape
      have before := keeps.whole
      simp only [failures_append, skipped_append, height_append, List.append_assoc,
        blockHeight_append] at here ⊢
      omega
  whole := by
    have first := keeps.whole
    have second := laterKeeps.whole
    simp only [failures_append, skipped_append, height_append, blockHeight_append]
    omega

/-- A declaration is tried, and reading goes on, without a brace. -/
theorem keepsHeight_round
    {act : Act}
    (inLoop : act = .tries ∨ act = .goesOn)
    (tokens : List Token) :
    KeepsHeight tokens tokens [⟨act, tokens⟩] := by
  rcases inLoop with rfl | rfl
  · exact keepsHeight_singleton (by simp [blockHeight])
      (by simp [failures, skipped])
  · exact keepsHeight_singleton (by simp [blockHeight])
      (by simp [failures, skipped])

/-- What recovery passes over is neither opened nor closed. -/
theorem keepsHeight_recovery
    (failing : List Token) :
    KeepsHeight failing (synchronize failing)
      [⟨.givesUp, failing⟩, ⟨.goesOn, synchronize failing⟩] := by
  have recovery :
      KeepsHeight failing (synchronize failing) [⟨.givesUp, failing⟩] := by
    refine keepsHeight_singleton (by simp [blockHeight]) ?_
    have passes :
        skipped (failures [⟨.givesUp, failing⟩]) = passedOver failing := by
      simp [failures, skipped]
    rw [passes, height_synchronize]
    exact Int.sub_sub_self _ _
  exact recovery.append (keepsHeight_round (.inr rfl) _)

/-- A brace that opens a block is passed into it. -/
theorem keepsHeight_opening
    {opening : Token}
    (opens : opening.kind = .leftBrace)
    (inside : List Token) :
    KeepsHeight (opening :: inside) inside [⟨.opens, inside⟩] := by
  refine keepsHeight_singleton ?_ (by simp [failures, skipped])
  have opened : blockHeight [⟨.opens, inside⟩] = 1 := rfl
  rw [opened, height_cons_of_opening opens]
  change height inside + 1 - height inside = 1
  omega

/-- A brace that closes a block is passed out of it. -/
theorem keepsHeight_closing
    {closing : Token}
    (closes : closing.kind = .rightBrace)
    (rest : List Token) :
    KeepsHeight (closing :: rest) rest [⟨.closes, rest⟩] := by
  refine keepsHeight_singleton ?_ (by simp [failures, skipped])
  have closed : blockHeight [⟨.closes, rest⟩] = -1 := rfl
  rw [closed, height_cons_of_closing closes]
  change height rest - 1 - height rest = -1
  omega

end Courses

/-- On every course, blocks are opened and closed as the braces are. -/
theorem Course.keepsHeight
    {extent : Extent}
    {tokens : List Token}
    {exit : Exit}
    {notes : List Note}
    {steps : List Step}
    (course : Course extent tokens exit notes steps) :
    KeepsHeight tokens exit.remaining steps := by
  induction course with
  | nothing => exact keepsHeight_nil rfl
  | append _ _ keeps laterKeeps => exact keeps.append laterKeeps
  | token noBrace => exact keepsHeight_nil (height_cons_of_not_brace noBrace)
  | misfit _ _ => exact keepsHeight_nil rfl
  | target isEqual _ keeps =>
      refine (keepsHeight_nil (height_cons_of_not_brace ?_)).append keeps
      rw [isEqual]
      decide
  | parsed _ keeps => exact keeps
  | accepted _ _ keeps =>
      exact (keepsHeight_round (.inl rfl) _).append
        (keeps.append (keepsHeight_round (.inr rfl) _))
  | givenUp _ keeps =>
      exact (keepsHeight_round (.inl rfl) _).append
        (keeps.append (keepsHeight_recovery _))
  | exhausted _ keeps =>
      exact (keepsHeight_round (.inl rfl) _).append
        (keeps.append (keepsHeight_recovery []))
  | closed opens closes _ keeps =>
      exact (keepsHeight_opening opens _).append
        (keeps.append (keepsHeight_closing closes _))
  | unclosed opens comesToEnd _ keeps =>
      rcases comesToEnd with rfl | rfl
      · exact (keepsHeight_opening opens _).append keeps
      · exact (keepsHeight_opening opens _).append keeps

/-- How the blocks of a reading go with the braces of its tokens. -/
structure NestsByBraces
    (tokens : List Token) :
    Prop where
  /--
  At every step, the blocks that are open are those of the braces in front of it.
  -/
  nested :
    ∀ {earlier step later},
      programSteps tokens = earlier ++ step :: later →
        blockHeight (earlier ++ [step]) =
          height (tokens.take (placeIn tokens step.remaining)) -
            height (skipped (failures earlier))
  /-- A missing brace is reported for each block that is open in the end. -/
  unclosed :
    ((readProgram tokens).errors.countP Unclosed : Int) =
      height tokens - height (skippedTokens tokens)
  /--
  Where the braces are balanced, one is missing only if recovery passed it over.
  -/
  missing_iff :
    Balanced tokens →
      ((∃ error ∈ (readProgram tokens).errors, error.cause =
          .expectedBraceAfterBlock) ↔
        height (skippedTokens tokens) < 0)
  /--
  Where recovery passes over no brace, none of some balanced braces is missing.
  -/
  kept :
    Balanced tokens →
      (∀ token ∈ skippedTokens tokens, token.kind ∉ braces) →
        ∀ error ∈ (readProgram tokens).errors,
          error.cause ≠ .expectedBraceAfterBlock

/-- Blocks go with the braces that recovery does not pass over. -/
theorem nestsByBraces
    (tokens : List Token) :
    NestsByBraces tokens := by
  obtain ⟨exit, ends, course⟩ := exists_course_readProgram tokens
  have keeps := course.keepsHeight
  have counted := course.countP_opens
  have failuresSame :
      skippedTokens tokens = skipped (failures (programSteps tokens)) :=
    congrArg skipped course.map_errorsOf_eq_failures
  have nothingLeft : exit.remaining = [] ∧ exit.pending = [] := by
    cases ends with
    | passes => exact ⟨rfl, rfl⟩
    | exhausts => exact ⟨rfl, rfl⟩
  have unclosed : ((readProgram tokens).errors.countP Unclosed : Int) =
      height tokens - height (skippedTokens tokens) := by
    have whole := keeps.whole
    rw [nothingLeft.1, height_nil, ← failuresSame, blockHeight] at whole
    rw [nothingLeft.2, List.append_nil] at counted
    have same : errorsOf (readProgram tokens).notes = (readProgram tokens).errors :=
      rfl
    rw [same] at counted
    omega
  have missing_iff (balanced : Balanced tokens) :
      (∃ error ∈ (readProgram tokens).errors, error.cause =
        .expectedBraceAfterBlock) ↔
        height (skippedTokens tokens) < 0 := by
    have some_iff : 0 < (readProgram tokens).errors.countP Unclosed ↔
        ∃ error ∈ (readProgram tokens).errors,
          error.cause = .expectedBraceAfterBlock := by
      simp [List.countP_pos_iff, Unclosed]
    have closed := balanced.closed
    rw [← some_iff]
    omega
  refine ⟨?nested, unclosed, missing_iff, ?kept⟩
  case nested =>
    intro earlier step later split
    have member : step ∈ programSteps tokens := by simp [split]
    have here := congrArg height
      (List.take_append_drop (placeIn tokens step.remaining) tokens)
    rw [height_append, drop_placeIn (course.advances.within step member)] at here
    have each := keeps.each split
    omega
  case kept =>
    intro balanced noBrace error member missing
    have passed := (missing_iff balanced).mp ⟨error, member, missing⟩
    rw [height_eq_zero_of_no_brace noBrace] at passed
    exact absurd passed (by decide)

/--
A missing semicolon in a block makes recovery pass over the brace that closes it.
-/
theorem not_forall_balanced_closed :
    ¬ ∀ tokens,
      Balanced tokens →
        ∀ error ∈ (readProgram tokens).errors,
          error.cause ≠ .expectedBraceAfterBlock := by
  intro closed
  have none := closed
    [⟨.leftBrace, "\x7b", .nil, 1, 0⟩, ⟨.printKeyword, "print", .nil, 1, 2⟩,
      ⟨.trueKeyword, "true", .nil, 1, 8⟩, ⟨.rightBrace, "\x7d", .nil, 1, 13⟩]
    ⟨by decide, by decide⟩
  exact absurd none (by decide)

end Lox.Parser
