import Lox.Proofs.Decimal.Scientific

namespace Lox.Decimal

/-!
# The shortest decimal reads back

Whatever grid the search stops at, what it finds lies in the interval of the number.
Main statement: the decimal that is written for a number reads back to that number.
-/

namespace Binary

variable {number : Binary}

/-- What is found on a grid reads back to the number. -/
theorem readsBack_onGrid
    {unit : Int}
    {multiple : Multiple}
    (found : number.onGrid? unit = some multiple) :
    number.readsBack multiple.value = true := by
  unfold onGrid? at found
  dsimp only at found
  split at found
  · next both =>
      rw [Bool.and_eq_true] at both
      cases found
      split
      · exact both.2
      · exact both.1
  · split at found
    · next lower =>
        cases found
        exact lower
    · split at found
      · next upper =>
          cases found
          exact upper
      · cases found

/-- A number is a multiple of a power of ten. -/
theorem value_exactMultiple
    (number : Binary) :
    number.exactMultiple.value = number.value := by
  unfold exactMultiple
  split
  · next nonnegative =>
      rw [Multiple.value, value, zpow_zero, mul_one, Nat.pow_eq, Nat.cast_mul,
        Nat.cast_pow, ← zpow_natCast, Int.toNat_of_nonneg nonnegative]
      rfl
  · next negative =>
      have tens :
          (10 : Rat) ^ number.exponent =
            2 ^ number.exponent * 5 ^ number.exponent := by
        rw [← mul_zpow]
        norm_num
      have cancel :
          (5 : Rat) ^ (-number.exponent).toNat * 5 ^ number.exponent = 1 := by
        rw [← zpow_natCast, Int.toNat_of_nonneg (by omega),
          ← zpow_add₀ (by norm_num), neg_add_cancel, zpow_zero]
      rw [Multiple.value, value, Nat.pow_eq, Nat.cast_mul, Nat.cast_pow, tens]
      push_cast
      calc
        (number.significand * 5 ^ (-number.exponent).toNat *
            (2 ^ number.exponent * 5 ^ number.exponent) : Rat) =
          number.significand * 2 ^ number.exponent *
            (5 ^ (-number.exponent).toNat * 5 ^ number.exponent) := by ring
        _ = number.significand * 2 ^ number.exponent := by rw [cancel, mul_one]

/-- The decimal that is written for a number reads back to it. -/
theorem readsBack_shortest
    (number : Binary) :
    number.readsBack number.shortest.value = true := by
  unfold shortest
  dsimp only
  cases found : (List.range 17).findSome? fun (digits : Nat) =>
      number.onGrid? (magnitude number.value - 1 - digits) with
  | none =>
      rw [Option.getD_none, value_exactMultiple]
      exact number.readsBack_value
  | some multiple =>
      obtain ⟨digits, _, onGrid⟩ := List.exists_of_findSome?_eq_some found
      exact readsBack_onGrid onGrid

/-- What reads back to a positive number is positive. -/
theorem pos_of_readsBack
    {candidate : Rat}
    (positive : 0 < number.significand)
    (reads : number.readsBack candidate = true) :
    0 < candidate := by
  have scale : (0 : Rat) < 2 ^ number.exponent := by positivity
  have first : (1 : Rat) ≤ number.significand := by exact_mod_cast positive
  have low := (le_div_iff₀ scale).mp (roundsTo_of_readsBack reads).bounds.1
  nlinarith

end Binary

end Lox.Decimal
