import Lox.Evaluation.Operator
import Lox.Proofs.Tree.Formed

namespace Lox.Evaluation

/-!
# Operands that fit their operators

An operator has a value for the operands that fit it, and is blamed for all others.
For what it is blamed depends on its kind: so a division by zero is found before it
is done, and only what no tree from a text has is blamed as unknown.
-/

/-- Operands between which an operator of a kind has a value. -/
inductive OperandsFit : Kind → Value → Value → Prop where
  | numbers
      {kind : Kind}
      {left right : Float} :
      kind ∈ [.minus, .star, .plus, .greater, .greaterEqual, .less, .lessEqual] →
      OperandsFit kind (.number left) (.number right)
  | division
      {dividend divisor : Float} :
      (divisor == 0.0) = false →
      OperandsFit .slash (.number dividend) (.number divisor)
  | textBefore
      {text : String}
      {right : Value} :
      OperandsFit .plus (.string text) right
  | textBehind
      {left : Value}
      {text : String} :
      OperandsFit .plus left (.string text)
  | equality
      {kind : Kind}
      {left right : Value} :
      kind ∈ [.equalEqual, .bangEqual] →
      OperandsFit kind left right

/-- What an operator of a kind is blamed for between its operands. -/
inductive BinaryCause : Kind → RuntimeCause → Prop where
  | operands
      {kind : Kind} :
      kind ∈ [.minus, .star, .slash, .greater, .greaterEqual, .less, .lessEqual] →
      BinaryCause kind .operandsAreNoNumbers
  | addition
      {left right : Value} :
      BinaryCause .plus (.operandsCannotBeAdded left right)
  | division :
      BinaryCause .slash .divisionByZero
  | unknown
      {kind : Kind} :
      kind ∉ Kind.binaryOperators →
      BinaryCause kind .unknownOperator

/-- No binary operator blames a variable. -/
theorem BinaryCause.blamesNoVariable
    {kind : Kind}
    {cause : RuntimeCause}
    (blamed : BinaryCause kind cause) :
    cause ≠ .undefinedVariable := by
  cases blamed <;> simp

variable {operator : Token} {left right operand value : Value}
  {error : RuntimeError}

/-- Operands that give numbers are those numbers. -/
theorem eq_numbers_of_ok
    {pair : Float × Float}
    (paired : numbers operator left right = .ok pair) :
    left = .number pair.1 ∧ right = .number pair.2 := by
  unfold numbers at paired
  split at paired
  · cases paired
    exact ⟨rfl, rfl⟩
  · cases paired

/-- Operands fail to give numbers for one cause, and blame the operator. -/
theorem eq_of_numbers
    (failed : numbers operator left right = .error error) :
    error = ⟨.operandsAreNoNumbers, operator⟩ := by
  unfold numbers at failed
  split at failed
  · cases failed
  · cases failed
    rfl

section Mapped

variable {operation : Float × Float → Value}

/-- Operators on numbers give a value for operands that fit. -/
theorem fit_of_map_numbers
    (numeric :
      operator.kind ∈
        [.minus, .star, .plus, .greater, .greaterEqual, .less, .lessEqual])
    (applied : (numbers operator left right).map operation = .ok value) :
    OperandsFit operator.kind left right := by
  rcases paired : numbers operator left right with cause | pair
  · rw [paired] at applied
    cases applied
  · obtain ⟨rfl, rfl⟩ := eq_numbers_of_ok paired
    exact .numbers numeric

/-- Operators on numbers blame themselves, for a cause of theirs. -/
theorem blamed_of_map_numbers
    (numeric :
      operator.kind ∈
        [.minus, .star, .slash, .greater, .greaterEqual, .less, .lessEqual])
    (failed : (numbers operator left right).map operation = .error error) :
    error.token = operator ∧ BinaryCause operator.kind error.cause := by
  rcases paired : numbers operator left right with cause | pair
  · rw [paired] at failed
    cases failed
    cases eq_of_numbers paired
    exact ⟨rfl, .operands numeric⟩
  · rw [paired] at failed
    cases failed

end Mapped

/-- A quotient has operands that fit. -/
theorem fit_of_quotient
    (kind : operator.kind = .slash)
    (applied : quotient operator left right = .ok value) :
    OperandsFit operator.kind left right := by
  unfold quotient at applied
  rcases paired : numbers operator left right with cause | ⟨dividend, divisor⟩
  · simp only [paired] at applied
    cases applied
  · obtain ⟨rfl, rfl⟩ := eq_numbers_of_ok paired
    simp only [paired] at applied
    split at applied
    · cases applied
    · rename_i nonzero
      rw [kind]
      exact .division (by simpa using nonzero)

/-- A quotient that fails blames its operator, for a cause of its own. -/
theorem blamed_of_quotient
    (kind : operator.kind = .slash)
    (failed : quotient operator left right = .error error) :
    error.token = operator ∧ BinaryCause operator.kind error.cause := by
  unfold quotient at failed
  rw [kind]
  rcases paired : numbers operator left right with cause | ⟨dividend, divisor⟩
  · simp only [paired] at failed
    cases failed
    cases eq_of_numbers paired
    exact ⟨rfl, .operands (by simp)⟩
  · simp only [paired] at failed
    split at failed
    · cases failed
      exact ⟨rfl, .division⟩
    · cases failed

/-- A sum has operands that fit. -/
theorem fit_of_sum
    (kind : operator.kind = .plus)
    (applied : sum operator left right = .ok value) :
    OperandsFit operator.kind left right := by
  rw [kind]
  unfold sum at applied
  split at applied
  · exact .numbers (by simp)
  · exact .textBefore
  · exact .textBehind
  · cases applied

/-- A sum that fails blames its operator, for a cause of its own. -/
theorem blamed_of_sum
    (kind : operator.kind = .plus)
    (failed : sum operator left right = .error error) :
    error.token = operator ∧ BinaryCause operator.kind error.cause := by
  rw [kind]
  unfold sum at failed
  split at failed
  · cases failed
  · cases failed
  · cases failed
  · cases failed
    exact ⟨rfl, .addition⟩

/-- An operator has a value between operands only if they fit it. -/
theorem fit_of_applyBinary
    (applied : applyBinary operator left right = .ok value) :
    OperandsFit operator.kind left right := by
  unfold applyBinary at applied
  split at applied
  case h_1 kind => exact fit_of_map_numbers (by simp [kind]) applied
  case h_2 kind => exact fit_of_map_numbers (by simp [kind]) applied
  case h_3 kind => exact fit_of_quotient kind applied
  case h_4 kind => exact fit_of_sum kind applied
  case h_5 kind => exact fit_of_map_numbers (by simp [kind]) applied
  case h_6 kind => exact fit_of_map_numbers (by simp [kind]) applied
  case h_7 kind => exact fit_of_map_numbers (by simp [kind]) applied
  case h_8 kind => exact fit_of_map_numbers (by simp [kind]) applied
  case h_9 kind => exact .equality (by simp [kind])
  case h_10 kind => exact .equality (by simp [kind])
  case h_11 => cases applied

/--
An operator that fails is blamed itself, and for what its kind can be blamed for.
-/
theorem blamed_of_applyBinary
    (failed : applyBinary operator left right = .error error) :
    error.token = operator ∧ BinaryCause operator.kind error.cause := by
  unfold applyBinary at failed
  split at failed
  case h_1 kind => exact blamed_of_map_numbers (by simp [kind]) failed
  case h_2 kind => exact blamed_of_map_numbers (by simp [kind]) failed
  case h_3 kind => exact blamed_of_quotient kind failed
  case h_4 kind => exact blamed_of_sum kind failed
  case h_5 kind => exact blamed_of_map_numbers (by simp [kind]) failed
  case h_6 kind => exact blamed_of_map_numbers (by simp [kind]) failed
  case h_7 kind => exact blamed_of_map_numbers (by simp [kind]) failed
  case h_8 kind => exact blamed_of_map_numbers (by simp [kind]) failed
  case h_9 => cases failed
  case h_10 => cases failed
  case h_11 =>
    cases failed
    exact ⟨rfl, .unknown (by simp_all [Kind.binaryOperators])⟩

/-- Operands that fit have a value. -/
theorem exists_applyBinary
    (fit : OperandsFit operator.kind left right) :
    ∃ value, applyBinary operator left right = .ok value := by
  unfold applyBinary
  generalize operator.kind = kind at fit
  cases fit with
  | numbers numeric =>
      simp only [List.mem_cons, List.not_mem_nil, or_false] at numeric
      rcases numeric with rfl | rfl | rfl | rfl | rfl | rfl | rfl <;> exact ⟨_, rfl⟩
  | division nonzero => simp [quotient, numbers, nonzero]
  | textBefore => exact ⟨_, rfl⟩
  | @textBehind left text => cases left <;> exact ⟨_, rfl⟩
  | equality kinds =>
      simp only [List.mem_cons, List.not_mem_nil, or_false] at kinds
      rcases kinds with rfl | rfl <;> exact ⟨_, rfl⟩

/-- An operator has a value exactly between operands that fit it. -/
theorem exists_applyBinary_iff :
    (∃ value, applyBinary operator left right = .ok value) ↔
      OperandsFit operator.kind left right := by
  constructor
  · rintro ⟨value, applied⟩
    exact fit_of_applyBinary applied
  · exact exists_applyBinary

/-- An operator in front that fails is no bang, and its operand is no number. -/
theorem blamed_of_applyUnary
    (failed : applyUnary operator operand = .error error) :
    error = ⟨.operandIsNoNumber, operator⟩ ∧
      operator.kind ≠ .bang ∧ operand.isNumber = false := by
  unfold applyUnary at failed
  split at failed
  · cases failed
  · rename_i noBang
    unfold negation at failed
    split at failed
    · cases failed
    · rename_i noNumber
      cases failed
      refine ⟨rfl, noBang, ?_⟩
      cases operand with
      | number quantity => exact (noNumber quantity rfl).elim
      | _ => rfl

/--
An operator in front has a value exactly for a number, and the bang for any operand.
-/
theorem exists_applyUnary_iff :
    (∃ value, applyUnary operator operand = .ok value) ↔
      operator.kind = .bang ∨ operand.isNumber = true := by
  rcases outcome : applyUnary operator operand with error | value
  · obtain ⟨-, noBang, noNumber⟩ := blamed_of_applyUnary outcome
    simp [noBang, noNumber]
  · refine iff_of_true ⟨value, rfl⟩ ?_
    by_cases bang : operator.kind = .bang
    · exact .inl bang
    · right
      unfold applyUnary at outcome
      split at outcome
      · exact (bang ‹_›).elim
      · cases operand with
        | number quantity => rfl
        | _ => cases outcome

end Lox.Evaluation
