import Lox.Parser.Bound

namespace Lox.Parser

/-!
# Reading without an error

A parser reads a value if it accepts the value and records no error on the way.
For each way to build a parser, one equivalence says what the whole reads in
terms of what its parts read, so that no proof opens a parser built from others.
-/

/-- Notes among which there is no error. -/
def Clean
    (notes : List Note) :
    Prop :=
  notes.filterMap Note.error? = []

/-- A parser accepts a value in front of the rest and records no error. -/
def Reads
    (parser : Parser α)
    (tokens : List Token)
    (value : α)
    (rest : List Token) :
    Prop :=
  ∃ notes, parser tokens = .accepted value rest notes ∧ Clean notes

/-- The next token has one of the kinds. -/
def StartsIn
    (kinds : List Kind) :
    List Token → Prop
  | [] => False
  | token :: _ => token.kind ∈ kinds

section Clean

variable {earlier later : List Note} {error : GrammarError}

@[simp] theorem clean_nil :
    Clean [] :=
  rfl

/-- Notes are clean if those before and behind each split are. -/
@[simp] theorem clean_append :
    Clean (earlier ++ later) ↔ Clean earlier ∧ Clean later := by
  simp [Clean]

@[simp] theorem not_clean_failed :
    ¬ Clean (.failed error :: later) := by
  simp [Clean, Note.error?]

@[simp] theorem clean_parsed
    {nodeClass : NodeClass}
    {line : Nat} :
    Clean (.parsed nodeClass line :: later) ↔ Clean later := by
  simp [Clean, Note.error?]

end Clean

section Reads

variable {tokens rest : List Token} {kinds : List Kind} {kind : Kind}
  {cause : GrammarCause}

@[simp] theorem not_startsIn_nil :
    ¬ StartsIn kinds [] :=
  id

@[simp] theorem startsIn_cons
    {token : Token} :
    StartsIn kinds (token :: rest) ↔ token.kind ∈ kinds :=
  Iff.rfl

/-- What does not start in some kinds does not start in fewer of them. -/
theorem not_startsIn_of_subset
    {others : List Kind}
    (subset : ∀ kind ∈ kinds, kind ∈ others)
    (ends : ¬ StartsIn others rest) :
    ¬ StartsIn kinds rest := by
  cases rest with
  | nil => exact not_startsIn_nil
  | cons token behind => exact fun starts => ends (subset token.kind starts)

/-- Tokens that start in one way do not start in another. -/
theorem not_startsIn_append
    {others : List Kind}
    (starts : StartsIn kinds tokens)
    (apart : ∀ kind ∈ others, kind ∉ kinds) :
    ¬ StartsIn others (tokens ++ rest) := by
  cases tokens with
  | nil => exact (not_startsIn_nil starts).elim
  | cons token behind => exact fun other => apart token.kind other starts

/-- A value that is given back at once is read of no tokens. -/
@[simp] theorem reads_accept
    {found value : α} :
    Reads (accept found) tokens value rest ↔ found = value ∧ tokens = rest := by
  constructor
  · rintro ⟨notes, accepted, -⟩
    cases accepted
    exact ⟨rfl, rfl⟩
  · rintro ⟨rfl, rfl⟩
    exact ⟨[], rfl, clean_nil⟩

@[simp] theorem not_reads_reject
    {value : α} :
    ¬ Reads (reject cause) tokens value rest := by
  rintro ⟨notes, accepted, -⟩
  cases accepted

/-- To ask for what remains reads nothing. -/
@[simp] theorem reads_remaining
    {value : List Token} :
    Reads remaining tokens value rest ↔ tokens = value ∧ tokens = rest := by
  constructor
  · rintro ⟨notes, accepted, -⟩
    cases accepted
    exact ⟨rfl, rfl⟩
  · rintro ⟨rfl, rfl⟩
    exact ⟨[], rfl, clean_nil⟩

/-- Where an error is recorded, nothing is read without one. -/
@[simp] theorem not_reads_recordError
    {error : GrammarError}
    {value : Unit} :
    ¬ Reads (recordError error) tokens value rest := by
  rintro ⟨notes, accepted, clean⟩
  cases accepted
  exact not_clean_failed clean

/-- A sequence reads what its parts read one after the other. -/
@[simp] theorem reads_andThen
    {first : Parser α}
    {next : α → Parser β}
    {value : β} :
    Reads (andThen first next) tokens value rest ↔
      ∃ earlier between,
        Reads first tokens earlier between ∧
          Reads (next earlier) between value rest := by
  constructor
  · rintro ⟨notes, accepted, clean⟩
    obtain ⟨earlier, between, firstNotes, nextNotes, firstAccepted,
      nextAccepted, rfl⟩ :=
      accepted_of_andThen accepted
    obtain ⟨firstClean, nextClean⟩ := clean_append.mp clean
    exact ⟨earlier, between, ⟨firstNotes, firstAccepted, firstClean⟩,
      ⟨nextNotes, nextAccepted, nextClean⟩⟩
  · rintro ⟨earlier, between, ⟨firstNotes, firstAccepted, firstClean⟩,
      ⟨nextNotes, nextAccepted, nextClean⟩⟩
    refine ⟨firstNotes ++ nextNotes, ?_, clean_append.mpr ⟨firstClean, nextClean⟩⟩
    rw [andThen_of_accepted firstAccepted, nextAccepted]
    rfl

/-- One parser after the other reads what both read between them. -/
@[simp] theorem reads_bind
    {first : Parser α}
    {next : α → Parser β}
    {value : β} :
    Reads (first >>= next) tokens value rest ↔
      ∃ earlier between,
        Reads first tokens earlier between ∧
          Reads (next earlier) between value rest :=
  reads_andThen

/-- An expected token is read if it stands in front. -/
@[simp] theorem reads_expect
    {token : Token} :
    Reads (expect kind cause) tokens token rest ↔
      tokens = token :: rest ∧ token.kind = kind := by
  constructor
  · rintro ⟨notes, accepted, -⟩
    cases tokens with
    | nil => cases accepted
    | cons first behind =>
        by_cases fits : first.kind = kind
        · simp only [expect, fits, ↓reduceIte] at accepted
          cases accepted
          exact ⟨rfl, fits⟩
        · simp only [expect, fits, ↓reduceIte] at accepted
          cases accepted
  · rintro ⟨rfl, fits⟩
    exact ⟨[], by simp [expect, fits], clean_nil⟩

/-- A token is taken if it has one of the kinds. -/
@[simp] theorem reads_acceptAny_some
    {token : Token} :
    Reads (acceptAny kinds) tokens (some token) rest ↔
      tokens = token :: rest ∧ token.kind ∈ kinds := by
  constructor
  · rintro ⟨notes, accepted, -⟩
    cases tokens with
    | nil => cases accepted
    | cons first behind =>
        by_cases fits : first.kind ∈ kinds
        · simp only [acceptAny, fits, ↓reduceIte] at accepted
          cases accepted
          exact ⟨rfl, fits⟩
        · simp only [acceptAny, fits, ↓reduceIte] at accepted
          cases accepted
  · rintro ⟨rfl, fits⟩
    exact ⟨[], by simp [acceptAny, fits], clean_nil⟩

/-- No token is taken if none of the kinds stands in front. -/
@[simp] theorem reads_acceptAny_none :
    Reads (acceptAny kinds) tokens none rest ↔
      tokens = rest ∧ ¬ StartsIn kinds tokens := by
  constructor
  · rintro ⟨notes, accepted, -⟩
    cases tokens with
    | nil =>
        cases accepted
        exact ⟨rfl, not_startsIn_nil⟩
    | cons first behind =>
        by_cases fits : first.kind ∈ kinds
        · simp only [acceptAny, fits, ↓reduceIte] at accepted
          cases accepted
        · simp only [acceptAny, fits, ↓reduceIte] at accepted
          cases accepted
          exact ⟨rfl, fits⟩
  · rintro ⟨rfl, other⟩
    cases tokens with
    | nil => exact ⟨[], rfl, clean_nil⟩
    | cons first behind =>
        have fits : first.kind ∉ kinds := other
        exact ⟨[], by simp [acceptAny, fits], clean_nil⟩

/-- The test for the next token tells in which kind the tokens start. -/
theorem startsWith_eq_true_iff :
    startsWith kind tokens = true ↔ StartsIn [kind] tokens := by
  cases tokens with
  | nil => simp [startsWith]
  | cons first behind => simp [startsWith]

/-- A clause is left out where its end stands in front. -/
@[simp] theorem reads_clauseBefore_none
    {parser : Parser α} :
    Reads (clauseBefore kind parser) tokens none rest ↔
      tokens = rest ∧ StartsIn [kind] tokens := by
  by_cases missing : startsWith kind tokens = true
  · have starts := startsWith_eq_true_iff.mp missing
    have same : Reads (clauseBefore kind parser) tokens none rest ↔
        Reads (accept none) tokens (none : Option α) rest := by
      simp only [Reads, clauseBefore, missing, ↓reduceIte, accept]
    simp [same, starts]
  · have other : ¬ StartsIn [kind] tokens :=
      fun starts => missing (startsWith_eq_true_iff.mpr starts)
    have same : Reads (clauseBefore kind parser) tokens none rest ↔
        Reads (andThen parser fun value => accept (some value))
          tokens none rest := by
      simp only [Reads, clauseBefore, missing, Bool.false_eq_true, ↓reduceIte]
    simp [same, other]

/-- A clause is read where its end does not stand in front. -/
@[simp] theorem reads_clauseBefore_some
    {parser : Parser α}
    {value : α} :
    Reads (clauseBefore kind parser) tokens (some value) rest ↔
      ¬ StartsIn [kind] tokens ∧ Reads parser tokens value rest := by
  by_cases missing : startsWith kind tokens = true
  · have starts := startsWith_eq_true_iff.mp missing
    have same : Reads (clauseBefore kind parser) tokens (some value) rest ↔
        Reads (accept none) tokens (some value) rest := by
      simp only [Reads, clauseBefore, missing, ↓reduceIte, accept]
    simp [same, starts]
  · have other : ¬ StartsIn [kind] tokens :=
      fun starts => missing (startsWith_eq_true_iff.mpr starts)
    have same : Reads (clauseBefore kind parser) tokens (some value) rest ↔
        Reads (andThen parser fun value => accept (some value)) tokens
          (some value) rest := by
      simp only [Reads, clauseBefore, missing, Bool.false_eq_true, ↓reduceIte]
    simp [same, other]

/-- What was recorded holds no error exactly if a value was read. -/
theorem clean_recorded_iff
    {outcome : Outcome α} :
    Clean outcome.recorded ↔
      ∃ value rest notes, outcome = .accepted value rest notes ∧ Clean notes := by
  cases outcome with
  | accepted value rest notes =>
      constructor
      · intro clean
        exact ⟨value, rest, notes, rfl, clean⟩
      · rintro ⟨_, _, _, same, clean⟩
        cases same
        exact clean
  | rejected error notes =>
      simp [Outcome.recorded]

/-- The note on a declaration is no error. -/
theorem accepted_noteParsed_iff
    {outcome : Outcome Stmt}
    {stmt : Stmt} :
    (∃ notes, noteParsed tokens outcome = .accepted stmt rest notes ∧ Clean notes) ↔
      ∃ notes, outcome = .accepted stmt rest notes ∧ Clean notes := by
  cases outcome with
  | accepted value behind earlier => simp [noteParsed, and_assoc]
  | rejected error earlier => simp [noteParsed]

/-- Notes that stand in front have to be clean, too. -/
theorem accepted_after_iff
    {outcome : Outcome α}
    {value : α}
    {earlier : List Note} :
    (∃ notes, outcome.after earlier = .accepted value rest notes ∧ Clean notes) ↔
      Clean earlier ∧ ∃ notes, outcome = .accepted value rest notes ∧
        Clean notes := by
  cases outcome with
  | accepted found behind later =>
      constructor
      · rintro ⟨_, same, clean⟩
        cases same
        obtain ⟨earlierClean, laterClean⟩ := clean_append.mp clean
        exact ⟨earlierClean, later, rfl, laterClean⟩
      · rintro ⟨earlierClean, _, same, laterClean⟩
        cases same
        exact ⟨earlier ++ later, rfl, clean_append.mpr ⟨earlierClean, laterClean⟩⟩
  | rejected error later => simp [Outcome.after]

/-- Lists that a parser treats alike are read alike. -/
theorem reads_congr
    {parser other : Parser α}
    {given : List Token}
    {value : α}
    (same : parser tokens = other given) :
    Reads parser tokens value rest ↔ Reads other given value rest := by
  simp only [Reads, same]

/-- A parser that reads forward leaves an end of what it was given. -/
theorem Reads.suffix
    {parser : Parser α}
    {value : α}
    (reads : Reads parser tokens value rest)
    (forward : ReadsForward parser) :
    rest <:+ tokens := by
  obtain ⟨notes, accepted, -⟩ := reads
  have suffix := forward tokens
  rw [accepted] at suffix
  exact suffix

end Reads

end Lox.Parser
