import Lox.Decimal.Shortest
import Mathlib

namespace Lox.Decimal

/-!
# Rounding to a binary number

A mantissa with two more bits tells where a quantity lies between two whole numbers,
and keeps telling it when it is shifted.  A mantissa is cut to its bits and rounded,
and is cut again if rounding made it too long.  Main statement: every quantity in
the interval of a binary number is rounded to that number.
-/

open Float.Model (Format totalExponent)
open Float.Model.UnpackedFloat

/-- An extended mantissa tells where a quantity lies between two whole numbers. -/
inductive Locates : ExtendedMantissa → Rat → Prop where
  | whole
      {mantissa : Nat} :
      Locates ⟨mantissa, false, false⟩ mantissa
  | below
      {mantissa : Nat}
      {quantity : Rat} :
      mantissa < quantity →
      quantity < mantissa + 1 / 2 →
      Locates ⟨mantissa, false, true⟩ quantity
  | half
      {mantissa : Nat} :
      Locates ⟨mantissa, true, false⟩ (mantissa + 1 / 2)
  | above
      {mantissa : Nat}
      {quantity : Rat} :
      mantissa + 1 / 2 < quantity →
      quantity < mantissa + 1 →
      Locates ⟨mantissa, true, true⟩ quantity

namespace Locates

variable {extended : ExtendedMantissa} {quantity : Rat}

/-- The mantissa is the whole part of the quantity. -/
theorem bounds
    (locates : Locates extended quantity) :
    extended.mantissa ≤ quantity ∧ quantity < extended.mantissa + 1 := by
  cases locates with
  | whole => constructor <;> simp
  | below low high => constructor <;> linarith
  | half => constructor <;> linarith
  | above low high => constructor <;> linarith

/--
Shifted by a bit, an extended mantissa tells where half the quantity lies: its last
bit becomes the round bit, and what was behind it stays sticky.
-/
theorem shiftRightOne
    (locates : Locates extended quantity) :
    Locates extended.shiftRightOne (quantity / 2) := by
  have even (half : Nat) (roundBit stickyBit : Bool) :
      ExtendedMantissa.shiftRightOne ⟨2 * half, roundBit, stickyBit⟩ =
        ⟨half, false, roundBit || stickyBit⟩ := by
    simp [ExtendedMantissa.shiftRightOne]
  have odd (half : Nat) (roundBit stickyBit : Bool) :
      ExtendedMantissa.shiftRightOne ⟨2 * half + 1, roundBit, stickyBit⟩ =
        ⟨half, true, roundBit || stickyBit⟩ := by
    simp [ExtendedMantissa.shiftRightOne]
    omega
  cases locates with
  | @whole mantissa =>
      obtain ⟨half, rfl | rfl⟩ := Nat.even_or_odd' mantissa
      · rw [even]
        have same : ((2 * half : Nat) : Rat) / 2 = half := by push_cast; ring
        exact same ▸ .whole
      · rw [odd]
        have same : ((2 * half + 1 : Nat) : Rat) / 2 = half + 1 / 2 := by
          push_cast; ring
        exact same ▸ .half
  | @below mantissa _ low high =>
      obtain ⟨half, rfl | rfl⟩ := Nat.even_or_odd' mantissa
      · rw [even]
        push_cast at low high
        exact .below (by linarith) (by linarith)
      · rw [odd]
        push_cast at low high
        exact .above (by linarith) (by linarith)
  | @half mantissa =>
      obtain ⟨half, rfl | rfl⟩ := Nat.even_or_odd' mantissa
      · rw [even]
        exact .below (by push_cast; linarith) (by push_cast; linarith)
      · rw [odd]
        exact .above (by push_cast; linarith) (by push_cast; linarith)
  | @above mantissa _ low high =>
      obtain ⟨half, rfl | rfl⟩ := Nat.even_or_odd' mantissa
      · rw [even]
        push_cast at low high
        exact .below (by linarith) (by linarith)
      · rw [odd]
        push_cast at low high
        exact .above (by linarith) (by linarith)

theorem shiftRight
    (locates : Locates extended quantity)
    (count : Nat) :
    Locates (extended >>> count) (quantity / 2 ^ count) := by
  change Locates (count.repeat ExtendedMantissa.shiftRightOne extended) _
  induction count with
  | zero => simpa [Nat.repeat] using locates
  | succ count inductionHypothesis =>
      rw [pow_succ, ← div_div]
      exact inductionHypothesis.shiftRightOne

end Locates

/--
A quantity is rounded to a whole number; of two equally near the even one is taken.
-/
def RoundsTo
    (whole : Nat)
    (quantity : Rat) :
    Prop :=
  if whole % 2 = 0 then
    whole - 1 / 2 ≤ quantity ∧ quantity ≤ whole + 1 / 2
  else
    whole - 1 / 2 < quantity ∧ quantity < whole + 1 / 2

theorem RoundsTo.bounds
    {whole : Nat}
    {quantity : Rat}
    (rounds : RoundsTo whole quantity) :
    whole - 1 / 2 ≤ quantity ∧ quantity ≤ whole + 1 / 2 := by
  unfold RoundsTo at rounds
  split at rounds
  · exact rounds
  · exact ⟨rounds.1.le, rounds.2.le⟩

/-- Whole numbers less than one apart are the same. -/
theorem eq_of_lt_add_one
    {first second : Nat}
    (less : (first : Rat) < second + 1)
    (more : (second : Rat) < first + 1) :
    first = second := by
  have less : first < second + 1 := by exact_mod_cast less
  have more : second < first + 1 := by exact_mod_cast more
  omega

/--
The rounded mantissa is what the quantity is rounded to. Where both neighbours are
equally near, it is the even one.
-/
theorem Locates.roundedMantissa_eq
    {extended : ExtendedMantissa}
    {quantity : Rat}
    {whole : Nat}
    (locates : Locates extended quantity)
    (rounds : RoundsTo whole quantity) :
    extended.roundedMantissa = whole := by
  obtain ⟨low, high⟩ := rounds.bounds
  cases locates with
  | @whole mantissa =>
      change mantissa = whole
      exact eq_of_lt_add_one (by linarith) (by linarith)
  | @below mantissa _ above below =>
      change mantissa = whole
      exact eq_of_lt_add_one (by linarith) (by linarith)
  | @half mantissa =>
      have less : mantissa ≤ whole := by
        have : (mantissa : Rat) ≤ whole := by linarith
        exact_mod_cast this
      have more : whole ≤ mantissa + 1 := by
        have : (whole : Rat) ≤ (mantissa + 1 : Nat) := by push_cast; linarith
        exact_mod_cast this
      have even : whole % 2 = 0 := by
        by_contra odd
        rw [RoundsTo, if_neg odd] at rounds
        have same : mantissa = whole :=
          eq_of_lt_add_one (by linarith [rounds.2]) (by linarith [rounds.1])
        rw [same] at rounds
        exact rounds.2.false
      change mantissa + mantissa % 2 = whole
      omega
  | @above mantissa _ above below =>
      change mantissa + 1 = whole
      exact eq_of_lt_add_one (by push_cast; linarith) (by push_cast; linarith)

namespace Binary

/--
A positive number as it is stored: with all its bits, unless it is among the least.
-/
structure Stored
    (number : Binary) :
    Prop where
  positive : 0 < number.significand
  bounded : number.significand < 2 ^ 53
  least : -1074 ≤ number.exponent
  greatest : number.exponent ≤ 971
  full : 2 ^ 52 ≤ number.significand ∨ number.exponent = -1074
  narrow :
    number.narrowBelow = true ↔
      number.significand = 2 ^ 52 ∧ -1074 < number.exponent

variable {number : Binary} {candidate : Rat}

/-- A quarter of the last place of a number. -/
theorem quarter_eq
    (exponent : Int) :
    (2 : Rat) ^ (exponent - 2) = 2 ^ exponent / 4 := by
  rw [zpow_sub₀ two_ne_zero]
  norm_num

/-- What reads back to a number is rounded to it on its own scale. -/
theorem roundsTo_of_readsBack
    (reads : number.readsBack candidate = true) :
    RoundsTo number.significand (candidate / 2 ^ number.exponent) := by
  have scale : (0 : Rat) < 2 ^ number.exponent := by positivity
  have gap : (if number.narrowBelow then 1 else 2 : Rat) ≤ 2 := by
    split <;> norm_num
  have low :
      (number.significand - 1 / 2 : Rat) * 2 ^ number.exponent ≤ number.lower := by
    rw [lower, quarter_eq]
    nlinarith
  have high :
      number.upper = (number.significand + 1 / 2 : Rat) * 2 ^ number.exponent := by
    rw [upper, quarter_eq]
    ring
  unfold RoundsTo
  unfold readsBack at reads
  split at reads
  · next even =>
      simp only [Bool.and_eq_true, decide_eq_true_eq] at reads
      rw [if_pos even, le_div_iff₀ scale, div_le_iff₀ scale]
      exact ⟨low.trans reads.1, reads.2.trans_eq high⟩
  · next odd =>
      simp only [Bool.and_eq_true, decide_eq_true_eq] at reads
      rw [if_neg odd, lt_div_iff₀ scale, div_lt_iff₀ scale]
      exact ⟨low.trans_lt reads.1, reads.2.trans_eq high⟩

/-- What reads back to a number of the narrow kind is at most a quarter below it. -/
theorem low_of_readsBack
    (narrow : number.narrowBelow = true)
    (reads : number.readsBack candidate = true) :
    number.significand - 1 / 4 ≤ candidate / 2 ^ number.exponent := by
  have scale : (0 : Rat) < 2 ^ number.exponent := by positivity
  have low :
      number.lower = (number.significand - 1 / 4 : Rat) * 2 ^ number.exponent := by
    rw [lower, quarter_eq, if_pos narrow]
    ring
  have least : number.lower ≤ candidate := by
    unfold readsBack at reads
    split at reads <;> simp only [Bool.and_eq_true, decide_eq_true_eq] at reads
    · exact reads.1
    · exact reads.1.le
  rw [le_div_iff₀ scale]
  exact low.symm.trans_le least

end Binary

theorem targetExponent_binary64
    (total : Int) :
    Format.binary64.targetExponent total = max (total - 53) (-1074) :=
  rfl

/-- Rounding to a mantissa that may be cut again. -/
theorem roundWithAccuracy_eq
    {mantissa rounded final : Nat}
    {exponent first second : Int}
    {accuracy : Accuracy}
    (firstTarget :
      Format.binary64.targetExponent (totalExponent mantissa exponent) = first)
    (shifts : exponent ≤ first)
    (rounds :
      (ExtendedMantissa.ofMantissaAndAccuracy mantissa accuracy >>>
        (first - exponent).toNat).roundedMantissa = rounded)
    (secondTarget :
      Format.binary64.targetExponent (totalExponent rounded first) = second)
    (shiftsAgain : first ≤ second)
    (cuts :
      ((⟨rounded, false, false⟩ : ExtendedMantissa) >>>
        (second - first).toNat).mantissa = final)
    (positive : 0 < final) :
    roundWithAccuracy .binary64 .positive mantissa exponent accuracy =
      .finite .positive final second positive := by
  have start :
      shiftToTargetExponent .binary64 mantissa exponent accuracy =
        (ExtendedMantissa.ofMantissaAndAccuracy mantissa accuracy >>>
          (first - exponent).toNat, first) := by
    simp only [shiftToTargetExponent, firstTarget, shiftToExponent,
      Prod.mk.injEq, true_and]
    omega
  have next :
      shiftToTargetExponent .binary64 rounded first .exact =
        ((⟨rounded, false, false⟩ : ExtendedMantissa) >>>
          (second - first).toNat, second) := by
    simp only [shiftToTargetExponent, secondTarget, shiftToExponent, Prod.mk.injEq]
    exact ⟨rfl, by omega⟩
  simp only [roundWithAccuracy, start, rounds, next, cuts]
  rw [dif_neg positive.ne']

@[simp] theorem mantissa_ofMantissaAndAccuracy
    (mantissa : Nat)
    (accuracy : Accuracy) :
    (ExtendedMantissa.ofMantissaAndAccuracy mantissa accuracy).mantissa =
      mantissa := by
  unfold ExtendedMantissa.ofMantissaAndAccuracy
  split <;> rfl

namespace Locates

variable {mantissa : Nat} {exponent : Int} {accuracy : Accuracy} {quantity : Rat}

/-- The total exponent bounds a located quantity from above. -/
theorem lt_totalExponent
    (locates :
      Locates (.ofMantissaAndAccuracy mantissa accuracy)
        (quantity / 2 ^ exponent)) :
    quantity < 2 ^ totalExponent mantissa exponent := by
  have scale : (0 : Rat) < 2 ^ exponent := by positivity
  have below := locates.bounds.2
  rw [mantissa_ofMantissaAndAccuracy, div_lt_iff₀ scale] at below
  have bits : (mantissa + 1 : Rat) ≤ 2 ^ (mantissa.log2 + 1) := by
    exact_mod_cast Nat.lt_log2_self
  calc
    quantity < (mantissa + 1) * 2 ^ exponent := below
    _ ≤ 2 ^ (mantissa.log2 + 1) * 2 ^ exponent := by gcongr
    _ = 2 ^ totalExponent mantissa exponent := by
        rw [totalExponent, zpow_add₀ two_ne_zero]
        norm_cast

/--
The total exponent bounds a located quantity
from below, unless the mantissa is zero.
-/
theorem le_of_totalExponent
    (locates :
      Locates (.ofMantissaAndAccuracy mantissa accuracy) (quantity / 2 ^ exponent))
    (positive : mantissa ≠ 0) :
    2 ^ (totalExponent mantissa exponent - 1) ≤ quantity := by
  have scale : (0 : Rat) < 2 ^ exponent := by positivity
  have above := locates.bounds.1
  rw [mantissa_ofMantissaAndAccuracy, le_div_iff₀ scale] at above
  have bits : (2 ^ mantissa.log2 : Rat) ≤ mantissa := by
    exact_mod_cast Nat.log2_self_le positive
  calc
    (2 : Rat) ^ (totalExponent mantissa exponent - 1) =
      2 ^ mantissa.log2 * 2 ^ exponent := by
        rw [show totalExponent mantissa exponent - 1 = mantissa.log2 + exponent by
          simp only [totalExponent]; omega, zpow_add₀ two_ne_zero]
        norm_cast
    _ ≤ mantissa * 2 ^ exponent := by gcongr
    _ ≤ quantity := above

/-- On the scale it is cut to, the quantity is located by the cut mantissa. -/
theorem shiftTo
    (locates :
      Locates (.ofMantissaAndAccuracy mantissa accuracy) (quantity / 2 ^ exponent))
    {target : Int}
    (shifts : exponent ≤ target) :
    Locates
      (ExtendedMantissa.ofMantissaAndAccuracy mantissa accuracy >>>
        (target - exponent).toNat)
      (quantity / 2 ^ target) := by
  have shifted := locates.shiftRight (target - exponent).toNat
  have same :
      (2 : Rat) ^ exponent * 2 ^ (target - exponent).toNat = 2 ^ target := by
    rw [← zpow_natCast, ← zpow_add₀ two_ne_zero]
    congr 1
    omega
  rwa [div_div, same] at shifted

end Locates

namespace Binary.Stored

variable {number : Binary} {mantissa : Nat} {exponent : Int} {accuracy : Accuracy}
  {candidate : Rat}

/-- What reads back to a number has no more bits than the number can have. -/
theorem lt_of_readsBack
    (stored : number.Stored)
    (reads : number.readsBack candidate = true) :
    candidate < 2 ^ (53 + number.exponent) := by
  have scaled : (0 : Rat) < 2 ^ number.exponent := by positivity
  have high := (roundsTo_of_readsBack reads).bounds.2
  have last : (number.significand : Rat) + 1 ≤ 2 ^ 53 := by
    exact_mod_cast stored.bounded
  calc
    candidate ≤ (number.significand + 1 / 2) * 2 ^ number.exponent :=
        (div_le_iff₀ scaled).mp high
    _ < 2 ^ 53 * 2 ^ number.exponent := by gcongr; linarith
    _ = 2 ^ (53 + number.exponent) := by
        rw [zpow_add₀ two_ne_zero]
        rfl

/-- What reads back to a number with all its bits has all but one of them. -/
theorem lt_of_full
    (full : 2 ^ 52 ≤ number.significand)
    (reads : number.readsBack candidate = true) :
    2 ^ (51 + number.exponent) < candidate := by
  have scaled : (0 : Rat) < 2 ^ number.exponent := by positivity
  have low := (roundsTo_of_readsBack reads).bounds.1
  have first : (2 : Rat) ^ 52 ≤ number.significand := by exact_mod_cast full
  calc
    (2 : Rat) ^ (51 + number.exponent) = 2 ^ 51 * 2 ^ number.exponent :=
        zpow_add₀ two_ne_zero _ _
    _ < (number.significand - 1 / 2) * 2 ^ number.exponent := by gcongr; linarith
    _ ≤ candidate := (le_div_iff₀ scaled).mp low

theorem log2_significand
    (stored : number.Stored)
    (full : 2 ^ 52 ≤ number.significand) :
    number.significand.log2 = 52 := by
  have short := (Nat.log2_lt stored.positive.ne').mpr stored.bounded
  have long := (Nat.le_log2 stored.positive.ne').mpr full
  omega

/-- A stored number is cut to its own scale, where nothing is cut off. -/
theorem targetExponent_eq
    (stored : number.Stored) :
    Format.binary64.targetExponent
      (totalExponent number.significand number.exponent) =
      number.exponent := by
  have least := stored.least
  rw [targetExponent_binary64, totalExponent]
  obtain full | scale := stored.full
  · have bits := stored.log2_significand full
    omega
  · have short := (Nat.log2_lt stored.positive.ne').mpr stored.bounded
    omega

/--
A number of the least scale is rounded to on that scale: a quantity below `2 ^ 53`
last places has a total exponent that is low enough.
-/
theorem roundWithAccuracy_of_least
    (stored : number.Stored)
    (scale : number.exponent = -1074)
    (locates :
      Locates (.ofMantissaAndAccuracy mantissa accuracy) (candidate / 2 ^ exponent))
    (fine :
      exponent ≤ Format.binary64.targetExponent (totalExponent mantissa exponent))
    (reads : number.readsBack candidate = true) :
    roundWithAccuracy .binary64 .positive mantissa exponent accuracy =
      .finite .positive number.significand number.exponent stored.positive := by
  have rounds := roundsTo_of_readsBack reads
  have target :
      Format.binary64.targetExponent (totalExponent mantissa exponent) =
        number.exponent := by
    rw [targetExponent_binary64] at fine ⊢
    by_cases zero : mantissa = 0
    · subst zero
      simp only [totalExponent, Nat.log2_zero] at fine ⊢
      omega
    · have small := (locates.le_of_totalExponent zero).trans_lt
        (stored.lt_of_readsBack reads)
      rw [zpow_lt_zpow_iff_right₀ one_lt_two] at small
      omega
  rw [target] at fine
  refine roundWithAccuracy_eq target fine
    ((locates.shiftTo fine).roundedMantissa_eq rounds)
      stored.targetExponent_eq le_rfl ?_
    stored.positive
  simp [HShiftRight.hShiftRight, Nat.repeat]

/--
A number with all its bits is rounded to on its own scale, or on the one below where
the quantity is just below a power of two and is rounded up to it.
-/
theorem roundWithAccuracy_of_full
    (stored : number.Stored)
    (scale : -1074 < number.exponent)
    (locates :
      Locates (.ofMantissaAndAccuracy mantissa accuracy) (candidate / 2 ^ exponent))
    (fine :
      exponent ≤ Format.binary64.targetExponent (totalExponent mantissa exponent))
    (reads : number.readsBack candidate = true) :
    roundWithAccuracy .binary64 .positive mantissa exponent accuracy =
      .finite .positive number.significand number.exponent stored.positive := by
  have rounds := roundsTo_of_readsBack reads
  have full : 2 ^ 52 ≤ number.significand := stored.full.resolve_right (by omega)
  have upper := (lt_of_full full reads).trans locates.lt_totalExponent
  rw [zpow_lt_zpow_iff_right₀ one_lt_two] at upper
  have lower :
      totalExponent mantissa exponent - 1 < 53 + number.exponent := by
    by_cases zero : mantissa = 0
    · subst zero
      rw [targetExponent_binary64] at fine
      simp only [totalExponent, Nat.log2_zero] at fine upper ⊢
      omega
    · have small := (locates.le_of_totalExponent zero).trans_lt
        (stored.lt_of_readsBack reads)
      rwa [zpow_lt_zpow_iff_right₀ one_lt_two] at small
  obtain total | total :
      totalExponent mantissa exponent = 53 + number.exponent ∨
        totalExponent mantissa exponent = 52 + number.exponent := by
    omega
  · have target :
        Format.binary64.targetExponent (totalExponent mantissa exponent) =
          number.exponent := by
      rw [targetExponent_binary64]
      omega
    rw [target] at fine
    refine roundWithAccuracy_eq target fine
      ((locates.shiftTo fine).roundedMantissa_eq rounds)
        stored.targetExponent_eq le_rfl ?_
      stored.positive
    simp [HShiftRight.hShiftRight, Nat.repeat]
  · have target :
        Format.binary64.targetExponent (totalExponent mantissa exponent) =
          number.exponent - 1 := by
      rw [targetExponent_binary64]
      omega
    have again :
        Format.binary64.targetExponent
          (totalExponent (2 ^ 53) (number.exponent - 1)) =
          number.exponent := by
      rw [targetExponent_binary64, totalExponent, Nat.log2_two_pow]
      omega
    have short : candidate / 2 ^ number.exponent < 2 ^ 52 := by
      have scaled : (0 : Rat) < 2 ^ number.exponent := by positivity
      have below := locates.lt_totalExponent
      rw [total, zpow_add₀ two_ne_zero] at below
      rw [div_lt_iff₀ scaled]
      exact_mod_cast below
    have power : number.significand = 2 ^ 52 := by
      have low := rounds.bounds.1
      have : (number.significand : Rat) < (2 ^ 52 + 1 : Nat) := by
        push_cast; linarith
      have : number.significand < 2 ^ 52 + 1 := by exact_mod_cast this
      omega
    have near := low_of_readsBack (stored.narrow.mpr ⟨power, scale⟩) reads
    have doubled :
        candidate / 2 ^ (number.exponent - 1) =
          2 * (candidate / 2 ^ number.exponent) := by
      rw [zpow_sub_one₀ two_ne_zero, div_mul_eq_div_div, div_inv_eq_mul, mul_comm]
    have up : RoundsTo (2 ^ 53) (candidate / 2 ^ (number.exponent - 1)) := by
      rw [power] at near
      rw [RoundsTo, if_pos (by norm_num), doubled]
      push_cast at near ⊢
      constructor <;> linarith
    rw [target] at fine
    refine roundWithAccuracy_eq target fine
      ((locates.shiftTo fine).roundedMantissa_eq up) again (by omega)
        ?_ stored.positive
    rw [power, show (number.exponent - (number.exponent - 1)).toNat = 1 by omega]
    rfl

/-- Every quantity in the interval of a number is rounded to that number. -/
theorem roundWithAccuracy_of_readsBack
    (stored : number.Stored)
    (locates :
      Locates (.ofMantissaAndAccuracy mantissa accuracy) (candidate / 2 ^ exponent))
    (fine :
      exponent ≤ Format.binary64.targetExponent (totalExponent mantissa exponent))
    (reads : number.readsBack candidate = true) :
    roundWithAccuracy .binary64 .positive mantissa exponent accuracy =
      .finite .positive number.significand number.exponent stored.positive := by
  obtain scale | scale := stored.least.eq_or_lt
  · exact stored.roundWithAccuracy_of_least scale.symm locates fine reads
  · exact stored.roundWithAccuracy_of_full scale locates fine reads

end Binary.Stored

end Lox.Decimal
