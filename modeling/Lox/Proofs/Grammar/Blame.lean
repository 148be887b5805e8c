import Lox.Proofs.Grammar.Recovery
import Lox.Proofs.Session.FrontEnds

namespace Lox.Parser

/-!
# The tokens that errors blame

An error blames the first of the tokens that are left where it is found, or the
end.  Main statement: no token is blamed twice, the errors blame tokens in
their order, but for wrong targets of assignments, and the end is blamed once
and once more for each block that is still open there.  So there are no more
errors than tokens, the end being one of them.
-/

/-- Whether an error blames the end. -/
def AtEnd
    (error : GrammarError) :
    Bool :=
  error.remaining.isEmpty

/-- Whether an error is that of a block that is not closed. -/
def Unclosed
    (error : GrammarError) :
    Bool :=
  error.cause = .expectedBraceAfterBlock

/-- The blocks that some steps open and do not close. -/
def openBlocks
    (steps : List Step) :
    Nat :=
  steps.countP (·.act = .opens) - steps.countP (·.act = .closes)

/-- The error that an exit hands on, which is not yet noted. -/
def Exit.pending :
    Exit → List GrammarError
  | .passes _ => []
  | .breaks error => [error]
  | .exhausts => []

/-- How many errors there may be beyond the tokens that a stretch passes. -/
def Exit.excess :
    Exit → Nat
  | .passes _ => 0
  | .breaks _ => 1
  | .exhausts => 1

/-- Two errors blame different tokens, or both the end. -/
def Apart
    (earlier later : GrammarError) :
    Prop :=
  earlier.remaining.length = later.remaining.length → earlier.remaining.length = 0

/-- A later error blames a later token, or both blame the end. -/
def Ordered
    (earlier later : GrammarError) :
    Prop :=
  later.remaining.length < earlier.remaining.length ∨
    earlier.remaining.length = 0 ∧ later.remaining.length = 0

/-- What the errors of a stretch blame, that of its exit the last. -/
structure Blames
    (tokens : List Token)
    (exit : Exit)
    (errors : List GrammarError) :
    Prop where
  within :
    ∀ error ∈ errors, error.remaining <:+ tokens
  before :
    ∀ error ∈ errors, exit.remaining.length ≤ error.remaining.length
  passed :
    ∀ {rest}, exit = .passes rest →
      ∀ error ∈ errors, rest.length < error.remaining.length
  apart :
    errors.Pairwise Apart
  ordered :
    (errors.filter (·.cause ≠ .invalidAssignmentTarget)).Pairwise Ordered
  few :
    errors.length + exit.remaining.length ≤ tokens.length + exit.excess
  /--
  The end is blamed once by a declaration, and
  further for blocks that are not closed.
  -/
  atEnd :
    errors.countP AtEnd ≤ errors.countP Unclosed + exit.excess

/-- Errors before the end do not blame it. -/
theorem countP_atEnd_eq_zero
    {errors : List GrammarError}
    (before : ∀ error ∈ errors, 0 < error.remaining.length) :
    errors.countP AtEnd = 0 := by
  refine List.countP_eq_zero.mpr fun error member atEnd => ?_
  have positive := before error member
  rw [AtEnd, List.isEmpty_iff] at atEnd
  simp [atEnd] at positive

/-- Nothing is blamed on a stretch without errors. -/
theorem blames_nil
    {tokens rest : List Token}
    (suffix : rest <:+ tokens) :
    Blames tokens (.passes rest) [] where
  within := by simp
  before := by simp
  passed := by simp
  apart := .nil
  ordered := .nil
  few := by simpa [Exit.remaining, Exit.excess] using suffix.length_le
  atEnd := by simp

/-- A part that does not fit is blamed at its first token. -/
theorem blames_misfit
    (error : GrammarError) :
    Blames error.remaining (.breaks error) [error] where
  within := by simp
  before := by simp [Exit.remaining]
  passed := nofun
  apart := List.pairwise_singleton _ _
  ordered := (List.pairwise_singleton Ordered error).sublist List.filter_sublist
  few := by simp [Exit.remaining, Exit.excess, Nat.add_comm]
  atEnd := by
    have bounded := @List.countP_le_length _ AtEnd [error]
    simpa [Exit.excess] using bounded.trans (Nat.le_add_left _ _)

theorem Blames.append
    {tokens between : List Token}
    {exit : Exit}
    {errors later : List GrammarError}
    (blames : Blames tokens (.passes between) errors)
    (suffix : between <:+ tokens)
    (further : exit.remaining.length ≤ between.length)
    (laterBlames : Blames between exit later) :
    Blames tokens exit (errors ++ later) := by
  have passed := blames.passed rfl
  have parted : ∀ error ∈ errors, ∀ next ∈ later,
      next.remaining.length < error.remaining.length :=
        fun error member next nextMember =>
    Nat.lt_of_le_of_lt (laterBlames.within next nextMember).length_le
      (passed error member)
  constructor
  case within =>
    exact List.forall_mem_append.mpr ⟨blames.within, fun error member =>
      (laterBlames.within error member).trans suffix⟩
  case before =>
    exact List.forall_mem_append.mpr ⟨fun error member =>
      further.trans (passed error member).le, laterBlames.before⟩
  case passed =>
    rintro rest rfl
    exact List.forall_mem_append.mpr ⟨fun error member =>
      Nat.lt_of_le_of_lt further (passed error member), laterBlames.passed rfl⟩
  case apart =>
    refine List.pairwise_append.mpr ⟨blames.apart, laterBlames.apart, ?_⟩
    intro error member next nextMember same
    exact absurd same (parted error member next nextMember).ne'
  case ordered =>
    rw [List.filter_append]
    refine List.pairwise_append.mpr ⟨blames.ordered, laterBlames.ordered, ?_⟩
    intro error member next nextMember
    exact .inl (parted error (List.mem_of_mem_filter member) next
      (List.mem_of_mem_filter nextMember))
  case few =>
    have first := blames.few
    have second := laterBlames.few
    simp only [Exit.remaining, Exit.excess, List.length_append] at first second ⊢
    omega
  case atEnd =>
    have none := countP_atEnd_eq_zero fun error member =>
      Nat.zero_lt_of_lt (passed error member)
    have bounded := laterBlames.atEnd
    rw [List.countP_append, List.countP_append, none]
    omega

/-- Behind a value the equals sign before it is blamed for a wrong target. -/
theorem Blames.target
    {equals : Token}
    {value rest : List Token}
    {errors : List GrammarError}
    (blames : Blames value (.passes rest) errors)
    (suffix : rest <:+ value) :
    Blames (equals :: value) (.passes rest)
      (errors ++ [⟨.invalidAssignmentTarget, equals :: value⟩]) := by
  have within := fun error member => (blames.within error member).length_le
  constructor
  case within =>
    exact List.forall_mem_append.mpr ⟨fun error member =>
      (blames.within error member).trans (List.suffix_cons equals value),
      List.forall_mem_singleton.mpr (List.suffix_refl _)⟩
  case before =>
    exact List.forall_mem_append.mpr ⟨blames.before,
      List.forall_mem_singleton.mpr (suffix.length_le.trans (Nat.le_succ _))⟩
  case passed =>
    rintro _ ⟨⟩
    exact List.forall_mem_append.mpr ⟨blames.passed rfl,
      List.forall_mem_singleton.mpr (Nat.lt_succ_of_le suffix.length_le)⟩
  case apart =>
    refine List.pairwise_append.mpr ⟨blames.apart, List.pairwise_singleton _ _, ?_⟩
    intro error member next nextMember same
    cases List.mem_singleton.mp nextMember
    have bounded := within error member
    simp only [List.length_cons] at same
    omega
  case ordered => simpa using blames.ordered
  case few =>
    have few := blames.few
    simp only [Exit.remaining, Exit.excess, List.length_append, List.length_cons,
      List.length_nil] at few ⊢
    omega
  case atEnd => simpa [AtEnd, Unclosed] using blames.atEnd

/-- A block that is not closed is blamed at the end. -/
theorem Blames.unclosed
    {inside : List Token}
    {exit : Exit}
    {errors : List GrammarError}
    (blames : Blames inside exit errors)
    (comesToEnd : exit = .passes [] ∨ exit = .exhausts)
    (opening : Token) :
    Blames (opening :: inside) (.breaks ⟨.expectedBraceAfterBlock, []⟩)
      (errors ++ [⟨.expectedBraceAfterBlock, []⟩]) := by
  have excess : exit.remaining.length = 0 ∧ exit.excess ≤ 1 := by
    rcases comesToEnd with rfl | rfl
    · exact ⟨rfl, Nat.zero_le _⟩
    · exact ⟨rfl, Nat.le_refl _⟩
  constructor
  case within =>
    exact List.forall_mem_append.mpr ⟨fun error member =>
      (blames.within error member).trans (List.suffix_cons opening inside),
      List.forall_mem_singleton.mpr List.nil_suffix⟩
  case before => simp [Exit.remaining]
  case passed => exact nofun
  case apart =>
    refine List.pairwise_append.mpr ⟨blames.apart, List.pairwise_singleton _ _, ?_⟩
    intro error member next nextMember same
    cases List.mem_singleton.mp nextMember
    exact same
  case ordered =>
    rw [List.filter_append]
    refine List.pairwise_append.mpr ⟨blames.ordered, by simp, ?_⟩
    intro error member next nextMember
    cases List.mem_singleton.mp (List.mem_of_mem_filter nextMember)
    rcases Nat.eq_zero_or_pos error.remaining.length with atEnd | before
    · exact .inr ⟨atEnd, rfl⟩
    · exact .inl before
  case few =>
    have few := blames.few
    simp only [Exit.remaining, Exit.excess, List.length_append, List.length_cons,
      List.length_nil]
    omega
  case atEnd =>
    have bounded := blames.atEnd
    simp only [Exit.excess, List.countP_append, List.countP_singleton, AtEnd,
      Unclosed, List.isEmpty_nil, decide_true, ↓reduceIte]
    omega

/--
The error of a declaration that is given up is blamed before the place behind it.
-/
theorem Blames.givenUp
    {tokens behind : List Token}
    {cause : GrammarCause}
    {blamed : Token}
    {errors : List GrammarError}
    (blames : Blames tokens (.breaks ⟨cause, blamed :: behind⟩) errors) :
    Blames tokens (.passes (skipFrom blamed behind)) errors := by
  have nearer : (skipFrom blamed behind).length < (blamed :: behind).length :=
    Nat.lt_succ_of_le (skipFrom_suffix blamed behind).length_le
  have passed : ∀ error ∈ errors,
      (skipFrom blamed behind).length < error.remaining.length :=
        fun error member =>
    Nat.lt_of_lt_of_le nearer (blames.before error member)
  constructor
  case within => exact blames.within
  case before => exact fun error member => (passed error member).le
  case passed =>
    rintro _ ⟨⟩
    exact passed
  case apart => exact blames.apart
  case ordered => exact blames.ordered
  case few =>
    have few := blames.few
    simp only [Exit.remaining, Exit.excess] at few ⊢
    omega
  case atEnd =>
    rw [countP_atEnd_eq_zero fun error member =>
      Nat.zero_lt_of_lt (passed error member)]
    exact Nat.zero_le _

/-- The error of a declaration that is given up at the end stays the last. -/
theorem Blames.exhausted
    {tokens : List Token}
    {cause : GrammarCause}
    {errors : List GrammarError}
    (blames : Blames tokens (.breaks ⟨cause, []⟩) errors) :
    Blames tokens .exhausts errors where
  within := blames.within
  before := blames.before
  passed := nofun
  apart := blames.apart
  ordered := blames.ordered
  few := blames.few
  atEnd := blames.atEnd

/-- What a course notes, and the error that it may end with, blames as said. -/
theorem Course.blames
    {extent : Extent}
    {tokens : List Token}
    {exit : Exit}
    {notes : List Note}
    {steps : List Step}
    (course : Course extent tokens exit notes steps) :
    Blames tokens exit (errorsOf notes ++ exit.pending) := by
  have token (first : Token) (rest : List Token) :
      Blames (first :: rest) (.passes rest) [] :=
    blames_nil (List.suffix_cons first rest)
  induction course with
  | nothing => exact blames_nil (List.suffix_refl _)
  | append first second blames laterBlames =>
      rw [Exit.pending, List.append_nil] at blames
      rw [errorsOf_append, List.append_assoc]
      exact blames.append first.advances.suffix second.advances.suffix.length_le
        laterBlames
  | token _ => exact token _ _
  | misfit _ _ => exact blames_misfit ⟨_, _⟩
  | target _ value blames =>
      rw [Exit.pending, List.append_nil] at blames
      simpa [Exit.pending] using blames.target value.advances.suffix
  | parsed _ blames => simpa using blames
  | accepted _ _ blames => exact blames
  | givenUp _ blames => simpa [Exit.pending] using blames.givenUp
  | exhausted _ blames => simpa [Exit.pending] using blames.exhausted
  | @closed opening closing behind rest notes steps _ _ inside blames =>
      rw [Exit.pending, List.append_nil] at blames
      have suffix := inside.advances.suffix
      have opened :=
        (token opening behind).append (List.suffix_cons _ _) suffix.length_le blames
      have closed :=
        opened.append (suffix.trans (List.suffix_cons _ _)) (Nat.le_succ _)
          (token closing rest)
      simpa [Exit.pending] using closed
  | unclosed _ comesToEnd _ blames =>
      refine Blames.unclosed ?_ comesToEnd _
      rcases comesToEnd with rfl | rfl
      · simpa [Exit.pending] using blames
      · simpa [Exit.pending] using blames

/-- A block is closed, or it is blamed that it is not. -/
theorem Course.countP_opens
    {extent : Extent}
    {tokens : List Token}
    {exit : Exit}
    {notes : List Note}
    {steps : List Step}
    (course : Course extent tokens exit notes steps) :
    steps.countP (·.act = .opens) =
      steps.countP (·.act = .closes) +
        (errorsOf notes ++ exit.pending).countP Unclosed := by
  induction course with
  | nothing => rfl
  | append _ _ counted laterCounted =>
      simp only [errorsOf_append, List.countP_append, Exit.pending, List.append_nil]
        at counted laterCounted ⊢
      omega
  | token _ => rfl
  | misfit _ noBrace => simp [Exit.pending, Unclosed, noBrace]
  | target _ _ counted => simpa [Exit.pending, Unclosed] using counted
  | parsed _ counted => simpa using counted
  | accepted _ _ counted => simpa using counted
  | givenUp _ counted => simpa [Exit.pending] using counted
  | exhausted _ counted => simpa [Exit.pending] using counted
  | closed _ _ _ counted =>
      simp [Exit.pending] at counted ⊢
      omega
  | unclosed _ comesToEnd _ counted =>
      rcases comesToEnd with rfl | rfl
      · simp [Exit.pending, Unclosed] at counted ⊢
        omega
      · simp [Exit.pending, Unclosed] at counted ⊢
        omega

/-- What the errors of a reading blame, and how a receiver is told of them. -/
structure BlamesInOrder
    (tokens : List Token) :
    Prop where
  /-- An error blames one of the tokens, or the end. -/
  placed :
    ∀ error ∈ (readProgram tokens).errors,
      tokens.drop (placeIn tokens error.remaining) = error.remaining
  once :
    ∀ index < tokens.length,
      (readProgram tokens).errors.countP (placeIn tokens ·.remaining = index) ≤ 1
  /--
  Wrong targets apart, errors blame later and later tokens until they blame the end.
  -/
  ordered :
    ((readProgram tokens).errors.filter
      (·.cause ≠ .invalidAssignmentTarget)).Pairwise
      fun earlier later =>
        placeIn tokens earlier.remaining ≤ placeIn tokens later.remaining ∧
          (placeIn tokens later.remaining < tokens.length →
            placeIn tokens earlier.remaining < placeIn tokens later.remaining)
  atEnd :
    (readProgram tokens).errors.countP
      (placeIn tokens ·.remaining = tokens.length) ≤
      1 + openBlocks (programSteps tokens)
  /--
  A block is closed or it is still open at the end, and each open one is an error.
  -/
  balanced :
    (programSteps tokens).countP (·.act = .opens) =
        (programSteps tokens).countP (·.act = .closes) +
          openBlocks (programSteps tokens) ∧
      (readProgram tokens).errors.countP Unclosed = openBlocks (programSteps tokens)
  /-- The end counts as a token. -/
  few :
    (readProgram tokens).errors.length ≤ tokens.length + 1
  /--
  Any receiver is told of each error once, in the order in which they are recorded.
  -/
  told :
    ∀ finish tracing sink,
      Sink.receiveAll sink ((readProgram tokens).programEvents finish tracing) =
        ((readProgram tokens).errors.map
          (GrammarError.fault finish)).foldl Sink.receive sink
  called :
    ∀ finish tracing calls,
      (Sink.plain calls).receiveAll
        ((readProgram tokens).programEvents finish tracing) =
        .plain (calls ++ (readProgram tokens).errors.map fun error =>
          (error.fault finish).call)

section Indices

variable {tokens : List Token} {error earlier later : GrammarError}

/-- The end is the place where nothing is left. -/
theorem placeIn_eq_length_iff
    (suffix : error.remaining <:+ tokens) :
    placeIn tokens error.remaining = tokens.length ↔
      error.remaining.length = 0 := by
  have bounded := suffix.length_le
  unfold placeIn
  omega

/--
At most one of some errors that are apart blames a token at an index, since any
other one at the index would blame the end.
-/
theorem countP_placeIn_le_one
    {errors : List GrammarError}
    (within : ∀ error ∈ errors, error.remaining <:+ tokens)
    (apart : errors.Pairwise Apart)
    {index : Nat}
    (before : index < tokens.length) :
    errors.countP (placeIn tokens ·.remaining = index) ≤ 1 := by
  induction errors with
  | nil => exact Nat.zero_le _
  | cons error errors inductionHypothesis =>
      obtain ⟨apartHere, apartLater⟩ := List.pairwise_cons.mp apart
      obtain ⟨withinHere, withinLater⟩ := List.forall_mem_cons.mp within
      rw [List.countP_cons]
      split
      case isFalse => exact inductionHypothesis withinLater apartLater
      case isTrue here =>
        have none : errors.countP (placeIn tokens ·.remaining = index) = 0 := by
          refine List.countP_eq_zero.mpr fun other member same => ?_
          have bounded := withinHere.length_le
          have otherBounded := (withinLater other member).length_le
          have apart : error.remaining.length = other.remaining.length →
              error.remaining.length = 0 := apartHere other member
          have sameIndex :
              placeIn tokens error.remaining = placeIn tokens other.remaining :=
            (of_decide_eq_true here).trans (of_decide_eq_true same).symm
          have notEnd := of_decide_eq_true here
          unfold placeIn at sameIndex notEnd
          omega
        omega

end Indices

/-- The reading of any tokens blames in order. -/
theorem blamesInOrder
    (tokens : List Token) :
    BlamesInOrder tokens := by
  obtain ⟨exit, ends, course⟩ := exists_course_readProgram tokens
  have nothingPending : errorsOf (readProgram tokens).notes ++ exit.pending =
      (readProgram tokens).errors := by
    cases ends with
    | passes => exact List.append_nil _
    | exhausts => exact List.append_nil _
  have excess : exit.remaining.length = 0 ∧ exit.excess ≤ 1 := by
    cases ends with
    | passes => exact ⟨rfl, Nat.zero_le _⟩
    | exhausts => exact ⟨rfl, Nat.le_refl _⟩
  have blames := course.blames
  have counted := course.countP_opens
  rw [nothingPending] at blames counted
  have openEqual : (readProgram tokens).errors.countP Unclosed =
      openBlocks (programSteps tokens) := by
    unfold openBlocks
    omega
  have faults (finish : EndMark) (tracing : Bool) :
      ((readProgram tokens).programEvents finish tracing).filterMap Event.fault? =
        (readProgram tokens).errors.map (GrammarError.fault finish) := by
    have untraced := filterMap_traced Event.fault? (fun _ => rfl) tracing
    simp [Reading.programEvents, Reading.fault?_noteEvents, untraced]
  constructor
  case placed => exact fun error member => drop_placeIn (blames.within error member)
  case once =>
    exact fun index before =>
      countP_placeIn_le_one blames.within blames.apart before
  case ordered =>
    refine blames.ordered.imp_of_mem
      fun {earlier later} member laterMember ordered => ?_
    have bounded :=
      (blames.within earlier (List.mem_of_mem_filter member)).length_le
    have laterBounded :=
      (blames.within later (List.mem_of_mem_filter laterMember)).length_le
    unfold placeIn
    rcases ordered with further | ⟨atEnd, laterAtEnd⟩
    · omega
    · omega
  case atEnd =>
    have same :
        (readProgram tokens).errors.countP
          (placeIn tokens ·.remaining = tokens.length) =
        (readProgram tokens).errors.countP AtEnd := by
      refine List.countP_congr fun error member => ?_
      simp [placeIn_eq_length_iff (blames.within error member), AtEnd]
    have bounded := blames.atEnd
    omega
  case balanced => exact ⟨by omega, openEqual⟩
  case few =>
    have few := blames.few
    omega
  case told =>
    intro finish tracing sink
    rw [Sink.receiveAll, faults]
  case called =>
    intro finish tracing calls
    rw [Sink.receiveAll_plain, faults, List.map_map, Function.comp_def]

end Lox.Parser
