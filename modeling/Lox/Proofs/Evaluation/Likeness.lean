import Lox.Evaluation.Expression
import Lox.Proofs.Tree.Correspondence

namespace Lox

/-!
# Evaluations that go alike

Two expressions that correspond are evaluated alike, in two environments
in which names have the values of the names that stand for them: to the
same value, or to errors of the same cause, each blamed on the token
that stands for the token of the other.
-/

/-- Whether a name is blamed, and not an operator or a keyword. -/
def RuntimeCause.blamesName :
    RuntimeCause → Bool
  | .undefinedVariable => true
  | .nilVariable => true
  | _ => false

namespace Evaluation

/-- Errors of one cause, the token of one standing for the token of the other. -/
structure Matches
    (tokens : Correspondence)
    (error other : RuntimeError) :
    Prop where
  cause : other.cause = error.cause
  token :
    if error.cause.blamesName then
      tokens.names error.token other.token
    else
      tokens.marks error.token other.token

/-- The same value on both sides, or errors that match. -/
inductive Alike (tokens : Correspondence) :
    Except RuntimeError α → Except RuntimeError α → Prop where
  | ok
      {value : α} :
      Alike tokens (.ok value) (.ok value)
  | error
      {error other : RuntimeError} :
      Matches tokens error other →
      Alike tokens (.error error) (.error other)

variable {tokens : Correspondence}

/-- Where each token stands for itself, errors match only if they are the same. -/
theorem Matches.eq
    {error other : RuntimeError}
    (matched : Matches .same error other) :
    other = error := by
  obtain ⟨cause, token⟩ := error
  obtain ⟨cause', token'⟩ := other
  obtain ⟨sameCause, sameToken⟩ := matched
  cases sameCause
  have same : token = token' := by
    split at sameToken
    · exact sameToken
    · exact sameToken
  rw [same]

/-- Results that are alike by equality are equal. -/
theorem Alike.eq
    {result other : Except RuntimeError α}
    (alike : Alike .same result other) :
    other = result := by
  cases alike with
  | ok => rfl
  | error matched => rw [matched.eq]

section Operators

variable {operator operator' : Token}

/-- An operator that stands for another is blamed for the same. -/
theorem Alike.blamed
    (marked : tokens.marks operator operator')
    {cause : RuntimeCause}
    (noName : cause.blamesName = false) :
    Alike tokens (.error ⟨cause, operator⟩ : Except RuntimeError α)
      (.error ⟨cause, operator'⟩) :=
  .error ⟨rfl, by simpa [noName] using marked⟩

/-- Results that are alike stay so when their values are changed in one way. -/
theorem Alike.map
    {change : α → β}
    {result other : Except RuntimeError α}
    (alike : Alike tokens result other) :
    Alike tokens (result.map change) (other.map change) := by
  cases alike with
  | ok => exact .ok
  | error matched => exact .error matched

/-- Operands that are no numbers blame the operator of each. -/
theorem alike_numbers
    (marked : tokens.marks operator operator')
    (left right : Value) :
    Alike tokens (numbers operator left right) (numbers operator' left right) := by
  unfold numbers
  split
  · exact .ok
  · exact .blamed marked rfl

/-- A quotient of the same operands is the same, or blames the operator of each. -/
theorem alike_quotient
    (marked : tokens.marks operator operator')
    (left right : Value) :
    Alike tokens (quotient operator left right)
      (quotient operator' left right) := by
  have operands := alike_numbers marked left right
  unfold quotient
  generalize numbers operator left right = result at operands ⊢
  generalize numbers operator' left right = other at operands ⊢
  cases operands with
  | ok =>
      dsimp only
      split
      · exact .blamed marked rfl
      · exact .ok
  | error matched => exact .error matched

/-- A sum of the same operands is the same, or blames the operator of each. -/
theorem alike_sum
    (marked : tokens.marks operator operator')
    (left right : Value) :
    Alike tokens (sum operator left right) (sum operator' left right) := by
  unfold sum
  split
  · exact .ok
  · exact .ok
  · exact .ok
  · exact .blamed marked rfl

/--
Operators of the same kind give the same for the same operands, up to the blame.
-/
theorem alike_applyBinary
    (kinds : tokens.KeepsKinds)
    (marked : tokens.marks operator operator')
    (left right : Value) :
    Alike tokens (applyBinary operator left right)
      (applyBinary operator' left right) := by
  unfold applyBinary
  rw [kinds marked]
  have operands := alike_numbers marked left right
  split
  · exact operands.map
  · exact operands.map
  · exact alike_quotient marked left right
  · exact alike_sum marked left right
  · exact operands.map
  · exact operands.map
  · exact operands.map
  · exact operands.map
  · exact .ok
  · exact .ok
  · exact .blamed marked rfl

/-- Signs of the same kind give the same for the same operand, up to the blame. -/
theorem alike_applyUnary
    (kinds : tokens.KeepsKinds)
    (marked : tokens.marks operator operator')
    (operand : Value) :
    Alike tokens (applyUnary operator operand) (applyUnary operator' operand) := by
  unfold applyUnary
  rw [kinds marked]
  split
  · exact .ok
  · unfold negation
    split
    · exact .ok
    · exact .blamed marked rfl

/-- Whether the left value decides depends on the kind of the operator alone. -/
theorem decides_eq
    (kinds : tokens.KeepsKinds)
    (marked : tokens.marks operator operator') :
    decides operator' = decides operator := by
  unfold decides
  rw [kinds marked]

end Operators

/--
Environments in which names have the values of the names that stand
for them, also after assignments to both.
-/
structure SameValues
    (tokens : Correspondence)
    (related : Environment → Environment → Prop) :
    Prop where
  found :
    ∀ ⦃environment other : Environment⦄ ⦃name name' : Token⦄,
      related environment other →
        tokens.names name name' →
          Chain.get? other.chain name'.lexeme =
            Chain.get? environment.chain name.lexeme
  assigned :
    ∀ ⦃environment other : Environment⦄ ⦃name name' : Token⦄,
      related environment other →
        tokens.names name name' →
          ∀ value,
            Option.Rel related (environment.assign? name.lexeme value)
              (other.assign? name'.lexeme value)

/-- Evaluations that end alike, in environments that are related. -/
structure EndAlike
    (tokens : Correspondence)
    (related : Environment → Environment → Prop)
    (evaluated other : Evaluated α) :
    Prop where
  result : Alike tokens evaluated.1 other.1
  environment : related evaluated.2 other.2

variable {related : Environment → Environment → Prop}

/-- Where names keep their lexemes, each name has the same value on both sides. -/
theorem SameValues.of_faithful
    (faithful : tokens.Faithful)
    (found :
      ∀ ⦃environment other : Environment⦄,
        related environment other →
          ∀ name, Chain.get? other.chain name = Chain.get? environment.chain name)
    (assigned :
      ∀ ⦃environment other : Environment⦄,
        related environment other →
          ∀ name value,
            Option.Rel related (environment.assign? name value)
              (other.assign? name value)) :
    SameValues tokens related where
  found := by
    intro environment other name name' between named
    rw [faithful.lexeme named]
    exact found between name.lexeme
  assigned := by
    intro environment other name name' between named value
    rw [faithful.lexeme named]
    exact assigned between name.lexeme value

/-- Evaluations in sequence end alike if their parts do. -/
theorem EndAlike.andThen
    {first first' : Evaluated α}
    {next next' : α → Environment → Evaluated β}
    (earlier : EndAlike tokens related first first')
    (later : ∀ value environment other,
      related environment other →
        EndAlike tokens related (next value environment) (next' value other)) :
    EndAlike tokens related (andThen first next)
      (Evaluation.andThen first' next') := by
  obtain ⟨result, environment⟩ := first
  obtain ⟨result', environment'⟩ := first'
  obtain ⟨alike, between⟩ := earlier
  cases alike with
  | ok => exact later _ _ _ between
  | error matched => exact ⟨.error matched, between⟩

section Names

variable {environment other : Environment} {name name' : Token}

/-- Look-ups of names with the same values are alike. -/
theorem alike_valueOf
    (sameValues : SameValues tokens related)
    (between : related environment other)
    (named : tokens.names name name') :
    Alike tokens (environment.valueOf name) (other.valueOf name') := by
  unfold Environment.valueOf
  rw [sameValues.found between named]
  split
  · exact .error ⟨rfl, named⟩
  · unfold reading
    split
    · exact .error ⟨rfl, named⟩
    · exact .ok

/-- Assignments to names with the same values end alike. -/
theorem endAlike_store
    (sameValues : SameValues tokens related)
    (between : related environment other)
    (named : tokens.names name name')
    (value : Value) :
    EndAlike tokens related (store name value environment)
      (store name' value other) := by
  have assigned := sameValues.assigned between named value
  unfold store Environment.assign
  generalize environment.assign? name.lexeme value = changed at assigned ⊢
  generalize other.assign? name'.lexeme value = changed' at assigned ⊢
  cases assigned with
  | some after => exact ⟨.ok, after⟩
  | none => exact ⟨.error ⟨rfl, named⟩, between⟩

end Names

/-- Corresponding expressions are evaluated alike. -/
theorem endAlike_eval
    (kinds : tokens.KeepsKinds)
    (sameValues : SameValues tokens related)
    {expr expr' : Expr}
    (corresponds : Expr.Corresponds tokens expr expr')
    {environment other : Environment}
    (between : related environment other) :
    EndAlike tokens related (eval expr environment) (eval expr' other) := by
  induction corresponds generalizing environment other with
  | literal => exact ⟨.ok, between⟩
  | grouping _ inner => exact inner between
  | unary marked _ operand =>
      apply (operand between).andThen
      intro value environment other after
      exact ⟨alike_applyUnary kinds marked value, after⟩
  | binary _ marked _ left right =>
      apply (left between).andThen
      intro leftValue environment other between
      apply (right between).andThen
      intro rightValue environment other after
      exact ⟨alike_applyBinary kinds marked leftValue rightValue, after⟩
  | logical _ marked _ left right =>
      apply (left between).andThen
      intro value environment other after
      rw [decides_eq kinds marked]
      split
      · exact ⟨.ok, after⟩
      · exact right after
  | reference named => exact ⟨alike_valueOf sameValues between named, between⟩
  | assign named _ value =>
      apply (value between).andThen
      intro value environment other after
      exact endAlike_store sameValues after named value

end Evaluation

end Lox
