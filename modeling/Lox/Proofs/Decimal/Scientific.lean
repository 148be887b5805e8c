import Lox.Proofs.Decimal.Stored

namespace Lox.Decimal

/-!
# A decimal as a number

A whole number times a power of ten is rounded once, however it is computed: exactly
from small factors, or by a product or quotient of long ones.  Main statement: a
decimal in the interval of a number is read as that number.
-/

open Float.Model (Format UnpackedFloat totalExponent)
open Float.Model.UnpackedFloat

theorem locates_exact
    (mantissa : Nat) :
    Locates (.ofMantissaAndAccuracy mantissa .exact) mantissa :=
  .whole

/-- A whole quotient with what the remainder says locates the quotient. -/
theorem locates_div
    (dividend : Nat)
    {divisor : Nat}
    (positive : 0 < divisor) :
    Locates
      (.ofMantissaAndAccuracy (dividend / divisor)
        (accuracyOfFraction (dividend % divisor) divisor))
      (dividend / divisor) := by
  have scale : (0 : Rat) < divisor := by exact_mod_cast positive
  have parts :
      (dividend : Rat) =
        divisor * (dividend / divisor : Nat) + (dividend % divisor : Nat) := by
    exact_mod_cast (Nat.div_add_mod dividend divisor).symm
  have quotient :
      (dividend : Rat) / divisor =
        (dividend / divisor : Nat) + (dividend % divisor : Nat) / divisor := by
    rw [parts, add_div, mul_div_cancel_left₀ _ scale.ne']
  have less : ((dividend % divisor : Nat) : Rat) / divisor < 1 := by
    rw [div_lt_one scale]
    exact_mod_cast Nat.mod_lt dividend positive
  rw [quotient]
  by_cases exact : dividend % divisor = 0
  · rw [accuracyOfFraction, if_pos exact, exact, Nat.cast_zero, zero_div, add_zero]
    exact locates_exact _
  · have more : (0 : Rat) < ((dividend % divisor : Nat) : Rat) / divisor := by
      have : 0 < dividend % divisor := Nat.pos_of_ne_zero exact
      positivity
    rw [accuracyOfFraction, if_neg exact]
    cases order : compare (2 * (dividend % divisor)) divisor with
    | lt =>
        rw [compare_lt_iff_lt] at order
        have : ((dividend % divisor : Nat) : Rat) / divisor < 1 / 2 := by
          rw [div_lt_div_iff₀ scale two_pos, one_mul, mul_comm]
          exact_mod_cast order
        exact .below (by linarith) (by linarith)
    | eq =>
        rw [compare_eq_iff_eq] at order
        have : ((dividend % divisor : Nat) : Rat) / divisor = 1 / 2 := by
          rw [div_eq_div_iff scale.ne' two_ne_zero, one_mul, mul_comm]
          exact_mod_cast order
        rw [this]
        exact .half
    | gt =>
        rw [compare_gt_iff_gt] at order
        have : 1 / 2 < ((dividend % divisor : Nat) : Rat) / divisor := by
          rw [div_lt_div_iff₀ two_pos scale, one_mul, mul_comm _ (2 : Rat)]
          exact_mod_cast order
        exact .above (by linarith) (by linarith)

/-- A quotient of a dividend that was made long enough has all its bits. -/
theorem le_log2_shiftLeft_div
    {left right shift : Nat}
    (leftPositive : 0 < left)
    (rightPositive : 0 < right)
    (long : right.log2 + 53 ≤ left.log2 + shift) :
    52 ≤ ((left <<< shift) / right).log2 := by
  have enough : 2 ^ 52 ≤ (left <<< shift) / right := by
    rw [Nat.le_div_iff_mul_le rightPositive, Nat.shiftLeft_eq]
    calc
      2 ^ 52 * right ≤ 2 ^ 52 * 2 ^ (right.log2 + 1) :=
          Nat.mul_le_mul_left _ Nat.lt_log2_self.le
      _ = 2 ^ (right.log2 + 53) := by rw [← pow_add]; congr 1; omega
      _ ≤ 2 ^ (left.log2 + shift) := Nat.pow_le_pow_right two_pos long
      _ = 2 ^ left.log2 * 2 ^ shift := pow_add 2 _ _
      _ ≤ left * 2 ^ shift :=
          Nat.mul_le_mul_right _ (Nat.log2_self_le leftPositive.ne')
  exact (Nat.le_log2 (by omega)).mpr enough

namespace Binary.Stored

variable {number : Binary}

/-- A product of numbers with all their bits is rounded to what it reads back to. -/
theorem mul_eq
    (stored : number.Stored)
    {left right : Nat}
    {leftScale rightScale : Int}
    (leftPositive : 0 < left)
    (rightPositive : 0 < right)
    (bits : 52 ≤ (left * right).log2)
    (reads :
      number.readsBack (left * 2 ^ leftScale * (right * 2 ^ rightScale)) = true) :
    mul .binary64 (.finite .positive left leftScale leftPositive)
        (.finite .positive right rightScale rightPositive) =
      .finite .positive number.significand number.exponent stored.positive := by
  have product :
      (left * 2 ^ leftScale * (right * 2 ^ rightScale) : Rat) /
        2 ^ (leftScale + rightScale) = (left * right : Nat) := by
    rw [zpow_add₀ two_ne_zero, Nat.cast_mul]
    field_simp
  have locates := locates_exact (left * right)
  rw [← product] at locates
  refine stored.roundWithAccuracy_of_readsBack locates ?_ reads
  rw [targetExponent_binary64, totalExponent]
  omega

/--
A quotient is cut to enough bits to be rounded: on the least scale there is nothing
finer, and on any other the quotient is long enough.
-/
theorem div_eq
    (stored : number.Stored)
    {left right : Nat}
    {leftScale rightScale : Int}
    (leftPositive : 0 < left)
    (rightPositive : 0 < right)
    (reads :
      number.readsBack (left * 2 ^ leftScale / (right * 2 ^ rightScale)) = true) :
    div .binary64 (.finite .positive left leftScale leftPositive)
        (.finite .positive right rightScale rightPositive) =
      .finite .positive number.significand number.exponent stored.positive := by
  obtain ⟨target, chosen⟩ : ∃ target, target =
      min (leftScale - rightScale) (Format.binary64.targetExponent
        (totalExponent left leftScale - totalExponent right rightScale)) :=
    ⟨_, rfl⟩
  obtain ⟨shift, shifted⟩ :
      ∃ shift, shift = (leftScale - rightScale - target).toNat :=
    ⟨_, rfl⟩
  have core :
      divCore .binary64 left leftScale right rightScale =
        ((left <<< shift) / right, target,
          accuracyOfFraction ((left <<< shift) % right) right) := by
    rw [divCore, ← chosen, ← shifted]
  have scale : (2 : Rat) ^ leftScale = 2 ^ shift * 2 ^ target * 2 ^ rightScale := by
    rw [← zpow_natCast, ← zpow_add₀ two_ne_zero, ← zpow_add₀ two_ne_zero]
    congr 1
    omega
  have nonzero : (right : Rat) ≠ 0 := by exact_mod_cast rightPositive.ne'
  have quotient :
      (left * 2 ^ leftScale / (right * 2 ^ rightScale) : Rat) / 2 ^ target =
        (left <<< shift : Nat) / right := by
    rw [scale, Nat.shiftLeft_eq, Nat.cast_mul, Nat.cast_pow, Nat.cast_ofNat]
    field_simp
  have locates := locates_div (left <<< shift) rightPositive
  rw [← quotient] at locates
  rw [div, core]
  refine stored.roundWithAccuracy_of_readsBack locates ?_ reads
  rw [targetExponent_binary64] at chosen ⊢
  by_cases least : target ≤ -1074
  · omega
  · have bits := le_log2_shiftLeft_div leftPositive rightPositive
      (show right.log2 + 53 ≤ left.log2 + shift by
        simp only [totalExponent] at chosen
        omega)
    rw [totalExponent]
    omega

end Binary.Stored

/-- Every number reads back to itself. -/
theorem Binary.readsBack_value
    (number : Binary) :
    number.readsBack number.value = true := by
  have scale : (0 : Rat) < 2 ^ number.exponent := by positivity
  have low : number.lower < number.value := by
    rw [lower, value, quarter_eq]
    split <;> nlinarith
  have high : number.value < number.upper := by
    rw [upper, value, quarter_eq]
    nlinarith
  unfold readsBack
  split <;> simp only [Bool.and_eq_true, decide_eq_true_eq]
  · exact ⟨low.le, high.le⟩
  · exact ⟨low, high⟩

/-- A positive number of few bits, with all its bits. -/
def Binary.ofWhole
    (whole : Nat) :
    Binary where
  significand := whole <<< (52 - whole.log2)
  exponent := (whole.log2 : Int) - 52
  narrowBelow := whole <<< (52 - whole.log2) = 2 ^ 52

namespace Binary

variable {whole : Nat}

theorem value_ofWhole
    (short : whole < 2 ^ 53)
    (positive : 0 < whole) :
    (ofWhole whole).value = whole := by
  have bits := (Nat.log2_lt positive.ne').mpr short
  rw [value, ofWhole, Nat.shiftLeft_eq, Nat.cast_mul, Nat.cast_pow, Nat.cast_ofNat,
    ← zpow_natCast, mul_assoc, ← zpow_add₀ two_ne_zero]
  rw [show ((52 - whole.log2 : Nat) : Int) + (whole.log2 - 52) =
    0 by omega, zpow_zero, mul_one]

theorem stored_ofWhole
    (short : whole < 2 ^ 53)
    (positive : 0 < whole) :
    (ofWhole whole).Stored := by
  have bits := (Nat.log2_lt positive.ne').mpr short
  have low : 2 ^ 52 ≤ whole <<< (52 - whole.log2) := by
    rw [Nat.shiftLeft_eq]
    calc
      2 ^ 52 = 2 ^ whole.log2 * 2 ^ (52 - whole.log2) := by
        rw [← pow_add]; congr 1; omega
      _ ≤ whole * 2 ^ (52 - whole.log2) :=
          Nat.mul_le_mul_right _ (Nat.log2_self_le positive.ne')
  have high : whole <<< (52 - whole.log2) < 2 ^ 53 := by
    rw [Nat.shiftLeft_eq]
    calc
      whole * 2 ^ (52 - whole.log2) <
        2 ^ (whole.log2 + 1) * 2 ^ (52 - whole.log2) :=
          Nat.mul_lt_mul_of_pos_right Nat.lt_log2_self (by positivity)
      _ = 2 ^ 53 := by rw [← pow_add]; congr 1; omega
  exact
    { positive := by dsimp only [ofWhole]; omega
      bounded := high
      least := by dsimp only [ofWhole]; omega
      greatest := by dsimp only [ofWhole]; omega
      full := .inl low
      narrow := by
        dsimp only [ofWhole]
        rw [decide_eq_true_eq]
        omega }

end Binary

/--
A whole number of few bits is rounded to itself: it is made longer before it is
rounded, so that nothing is cut off.
-/
theorem ofNat_eq
    {whole : Nat}
    (short : whole < 2 ^ 53)
    (positive : 0 < whole) :
    UnpackedFloat.ofNat .binary64 whole =
      .finite .positive (Binary.ofWhole whole).significand
        (Binary.ofWhole whole).exponent
        (Binary.stored_ofWhole short positive).positive := by
  have stored := Binary.stored_ofWhole short positive
  have bits := (Nat.log2_lt positive.ne').mpr short
  have order : compare (whole : Int) 0 = .gt := by
    rw [compare_gt_iff_gt]
    exact_mod_cast positive
  have target :
      Format.binary64.targetExponent (totalExponent whole 0) =
        (whole.log2 : Int) - 52 := by
    rw [targetExponent_binary64, totalExponent]
    omega
  have longer :
      decreaseExponent whole 0 ((whole.log2 : Int) - 52) =
        ((Binary.ofWhole whole).significand, (Binary.ofWhole whole).exponent) := by
    rw [decreaseExponent, show (0 - ((whole.log2 : Int) - 52)).toNat =
      52 - whole.log2 by omega]
    simp only [Binary.ofWhole, Prod.mk.injEq, true_and]
    omega
  have locates := locates_exact (Binary.ofWhole whole).significand
  have scaled :
      ((Binary.ofWhole whole).significand : Rat) =
        (Binary.ofWhole whole).value / 2 ^ (Binary.ofWhole whole).exponent := by
    rw [Binary.value]
    field_simp
  rw [scaled] at locates
  rw [UnpackedFloat.ofNat, UnpackedFloat.ofInt, UnpackedFloat.normalize, order]
  dsimp only
  rw [Int.toNat_natCast, UnpackedFloat.round, target, longer]
  exact stored.roundWithAccuracy_of_readsBack locates stored.targetExponent_eq.ge
    (Binary.readsBack_value _)

/-- A whole number of few bits is a number exactly. -/
theorem unpack_toFloat
    {whole : Nat}
    (short : whole < 2 ^ 53)
    (positive : 0 < whole) :
    whole.toUInt64.toFloat.toModel.unpack =
      .finite .positive (Binary.ofWhole whole).significand
        (Binary.ofWhole whole).exponent
        (Binary.stored_ofWhole short positive).positive := by
  have same : whole.toUInt64.toNat = whole := by
    rw [Nat.toUInt64_eq, UInt64.toNat_ofNat']
    omega
  change (Float.Model.pack
    (UnpackedFloat.ofNat .binary64 whole.toUInt64.toNat)).unpack = _
  rw [same, ofNat_eq short positive]
  exact (Canonical.stored .positive
    (Binary.stored_ofWhole short positive)).unpack_pack

/-- A power of ten is given by the bits of a table, or is not. -/
def isExactPower
    (power : Nat)
    (entry : UnpackedFloat) :
    Bool :=
  match entry with
  | .finite .positive significand exponent _ =>
      2 ^ 52 ≤ significand && -52 ≤ exponent &&
        significand * 2 ^ (exponent + 52).toNat = 10 ^ power * 2 ^ 52
  | _ =>
      false

theorem isExactPower_table :
    ∀ power : Fin 23,
      isExactPower power
        Float.exactlyRepresentablePowersOfTen[power].toModel.unpack = true := by
  decide +kernel

/-- The powers of ten that are numbers exactly are given by their bits. -/
theorem unpack_powerOfTen
    {power : Nat}
    (small : power < Float.exactlyRepresentablePowersOfTen.size) :
    ∃ significand exponent, ∃ positive : 0 < significand,
      Float.exactlyRepresentablePowersOfTen[power].toModel.unpack =
        .finite .positive significand exponent positive ∧
      2 ^ 52 ≤ significand ∧
      (significand * 2 ^ exponent : Rat) = 10 ^ power := by
  have exact := isExactPower_table ⟨power, small⟩
  dsimp only [Fin.getElem_fin] at exact
  unfold isExactPower at exact
  split at exact
  · next significand exponent positive entry =>
      simp only [Bool.and_eq_true, decide_eq_true_eq] at exact
      obtain ⟨⟨full, least⟩, whole⟩ := exact
      refine ⟨significand, exponent, positive, entry, full, ?_⟩
      have scaled :
          (significand * 2 ^ (exponent + 52).toNat : Rat) =
            10 ^ power * 2 ^ 52 := by
        exact_mod_cast whole
      rw [← zpow_natCast, Int.toNat_of_nonneg (by omega),
        zpow_add₀ two_ne_zero] at scaled
      have nonzero : (2 : Rat) ^ (52 : Int) ≠ 0 := by positivity
      exact mul_right_cancel₀ nonzero ((mul_assoc _ _ _).trans scaled)
  · exact absurd exact (by decide)

namespace Binary.Stored

variable {number : Binary} {whole : Nat}

/-- Few digits and a small power of ten are multiplied or divided as numbers. -/
theorem ofScientific_of_exact
    (stored : number.Stored)
    (positive : 0 < whole)
    {power : Int}
    (short : whole < 2 ^ 53)
    (small : power.natAbs ≤ 22)
    (reads : number.readsBack (whole * 10 ^ power) = true) :
    Float.ofScientific whole (power < 0) power.natAbs =
      .ofModel (.pack
        (.finite .positive number.significand number.exponent
          stored.positive)) := by
  have listed : power.natAbs < Float.exactlyRepresentablePowersOfTen.size :=
    Nat.lt_succ_of_le small
  obtain ⟨significand, exponent, nonzero, entry, full, exact⟩ :=
    unpack_powerOfTen listed
  have factor := unpack_toFloat short positive
  have value := value_ofWhole short positive
  rw [Binary.value] at value
  rw [Float.ofScientific, dif_pos ⟨short, small⟩]
  split
  · next negative =>
      rw [decide_eq_true_eq] at negative
      change Float.ofModel
        (.pack (div .binary64 whole.toUInt64.toFloat.toModel.unpack
          Float.exactlyRepresentablePowersOfTen[power.natAbs].toModel.unpack)) = _
      rw [factor, entry, stored.div_eq]
      rw [value, exact, div_eq_mul_inv, ← zpow_natCast, ← zpow_neg,
        show -(power.natAbs : Int) = power by omega]
      exact reads
  · next notNegative =>
      rw [decide_eq_true_eq] at notNegative
      change Float.ofModel
        (.pack (mul .binary64 whole.toUInt64.toFloat.toModel.unpack
          Float.exactlyRepresentablePowersOfTen[power.natAbs].toModel.unpack)) = _
      rw [factor, entry, stored.mul_eq]
      · have factorFull : 2 ^ 52 ≤ (ofWhole whole).significand :=
          (stored_ofWhole short positive).full.resolve_right
            (by dsimp only [ofWhole]; omega)
        rw [Nat.le_log2 (by positivity)]
        exact factorFull.trans (Nat.le_mul_of_pos_right _ nonzero)
      · rw [value, exact, ← zpow_natCast, show (power.natAbs : Int) =
          power by omega]
        exact reads

/-- The powers of ten that are too large to be tried read back to no number. -/
theorem le_of_readsBack
    (stored : number.Stored)
    (positive : 0 < whole)
    {power : Int}
    (reads : number.readsBack (whole * 10 ^ power) = true) :
    power ≤ 2 ^ Format.binary64.exponentBits := by
  change power ≤ 2 ^ 11
  by_contra large
  have greatest := stored.greatest
  have below : (2 : Rat) ^ (1024 : Int) < 2 ^ (1024 : Int) := by
    calc
      (2 : Rat) ^ (1024 : Int) ≤ 2 ^ power :=
        zpow_le_zpow_right₀ one_le_two (by omega)
      _ ≤ 10 ^ power := zpow_le_zpow_left₀ (by omega) zero_le_two (by norm_num)
      _ ≤ whole * 10 ^ power :=
          le_mul_of_one_le_left (by positivity) (by exact_mod_cast positive)
      _ < 2 ^ (53 + number.exponent) := stored.lt_of_readsBack reads
      _ ≤ 2 ^ (1024 : Int) := zpow_le_zpow_right₀ one_le_two (by omega)
  exact below.false

/-- The powers of ten that are too small to be tried read back to no number. -/
theorem ge_of_readsBack
    (stored : number.Stored)
    {power : Int}
    (reads : number.readsBack (whole * 10 ^ power) = true) :
    -((2 ^ Format.binary64.exponentBits : Int) + whole.log2) ≤ power := by
  change -(2 ^ 11 + _) ≤ power
  by_contra small
  have scale : (0 : Rat) < 2 ^ number.exponent := by positivity
  have low := (le_div_iff₀ scale).mp (roundsTo_of_readsBack reads).bounds.1
  have first : (1 : Rat) ≤ number.significand := by exact_mod_cast stored.positive
  have bits : (whole : Rat) < 2 ^ (whole.log2 + 1) := by
    exact_mod_cast Nat.lt_log2_self
  have least := stored.least
  have tens : (10 : Rat) ^ power ≤ 2 ^ power := by
    rw [← neg_neg power, zpow_neg, zpow_neg 2]
    exact inv_anti₀ (by positivity)
      (zpow_le_zpow_left₀ (by omega) zero_le_two (by norm_num))
  have above : (2 : Rat) ^ (-1075 : Int) < 2 ^ (-1075 : Int) := by
    calc
      (2 : Rat) ^ (-1075 : Int) ≤ 2 ^ (number.exponent - 1) :=
          zpow_le_zpow_right₀ one_le_two (by omega)
      _ = 1 / 2 * 2 ^ number.exponent := by rw [zpow_sub_one₀ two_ne_zero]; ring
      _ ≤ (number.significand - 1 / 2) * 2 ^ number.exponent := by gcongr; linarith
      _ ≤ whole * 10 ^ power := low
      _ ≤ 2 ^ (whole.log2 + 1) * 2 ^ power := by gcongr
      _ = 2 ^ (((whole.log2 + 1 : Nat) : Int) + power) := by
          rw [zpow_add₀ two_ne_zero, zpow_natCast]
      _ < 2 ^ (-1075 : Int) := zpow_lt_zpow_right₀ one_lt_two (by omega)
  exact above.false

/-- A whole number, made longer, times a power of ten. -/
theorem mul_of_readsBack
    (stored : number.Stored)
    (positive : 0 < whole)
    {power : Int}
    (nonnegative : 0 ≤ power)
    (reads : number.readsBack (whole * 10 ^ power) = true)
    (longerPositive : 0 < whole <<< 53)
    (tensPositive : 0 < 10 ^ power.toNat) :
    mul .binary64 (.finite .positive (whole <<< 53) (-53) longerPositive)
        (.finite .positive (10 ^ power.toNat) 0 tensPositive) =
      .finite .positive number.significand number.exponent stored.positive := by
  have bits : 52 ≤ ((whole <<< 53) * 10 ^ power.toNat).log2 := by
    rw [Nat.le_log2 (Nat.mul_pos longerPositive tensPositive).ne', Nat.shiftLeft_eq]
    calc
      2 ^ 52 ≤ whole * 2 ^ 53 := by omega
      _ ≤ whole * 2 ^ 53 * 10 ^ power.toNat :=
        Nat.le_mul_of_pos_right _ tensPositive
  have product :
      ((whole <<< 53 : Nat) * 2 ^ (-53 : Int) *
        ((10 ^ power.toNat : Nat) * 2 ^ (0 : Int)) : Rat) =
        whole * 10 ^ power := by
    have cancel : (2 : Rat) ^ 53 * 2 ^ (-53 : Int) = 1 := by norm_num
    rw [Nat.shiftLeft_eq, Nat.cast_mul, Nat.cast_pow, Nat.cast_pow, zpow_zero,
      mul_one, ← zpow_natCast _ power.toNat, Int.toNat_of_nonneg nonnegative,
      Nat.cast_ofNat, Nat.cast_ofNat, mul_assoc (whole : Rat), cancel, mul_one]
  rw [← product] at reads
  exact stored.mul_eq longerPositive tensPositive bits reads

/-- A whole number divided by a power of ten. -/
theorem div_of_readsBack
    (stored : number.Stored)
    (positive : 0 < whole)
    {power : Int}
    (negative : power < 0)
    (reads : number.readsBack (whole * 10 ^ power) = true)
    (tensPositive : 0 < 10 ^ (-power).toNat) :
    div .binary64 (.finite .positive whole 0 positive)
        (.finite .positive (10 ^ (-power).toNat) 0 tensPositive) =
      .finite .positive number.significand number.exponent stored.positive := by
  have quotient :
      (whole * 2 ^ (0 : Int) /
        ((10 ^ (-power).toNat : Nat) * 2 ^ (0 : Int)) : Rat) =
        whole * 10 ^ power := by
    rw [zpow_zero, mul_one, mul_one, Nat.cast_pow, div_eq_mul_inv, ← zpow_natCast,
      ← zpow_neg, Int.toNat_of_nonneg (by omega), neg_neg]
    norm_num
  rw [← quotient] at reads
  exact stored.div_eq positive tensPositive reads

/--
Many digits or a large power of ten are rounded from the exact product or quotient.
-/
theorem ofScientific_of_long
    (stored : number.Stored)
    (positive : 0 < whole)
    {power : Int}
    (reads : number.readsBack (whole * 10 ^ power) = true) :
    UnpackedFloat.ofScientific .binary64 whole power =
      .finite .positive number.significand number.exponent stored.positive := by
  have notLarge : ¬ power > 2 ^ Format.binary64.exponentBits :=
    (stored.le_of_readsBack positive reads).not_gt
  have notSmall :
      ¬ power < -((2 ^ Format.binary64.exponentBits : Int) + whole.log2) :=
    (stored.ge_of_readsBack reads).not_gt
  rw [UnpackedFloat.ofScientific, dif_neg positive.ne',
    if_neg notLarge, if_neg notSmall]
  split
  · next nonnegative => exact stored.mul_of_readsBack positive nonnegative reads _ _
  · next negative =>
      exact stored.div_of_readsBack positive (not_le.mp negative) reads _

/-- A decimal in the interval of a number is read as that number. -/
theorem ofScientific_eq
    (stored : number.Stored)
    (positive : 0 < whole)
    {power : Int}
    (reads : number.readsBack (whole * 10 ^ power) = true) :
    Float.ofScientific whole (power < 0) power.natAbs =
      .ofModel (.pack
        (.finite .positive number.significand number.exponent
          stored.positive)) := by
  by_cases exact : whole < 2 ^ 53 ∧ power.natAbs ≤ 22
  · exact stored.ofScientific_of_exact positive exact.1 exact.2 reads
  · rw [Float.ofScientific, dif_neg exact]
    have signed :
        (if decide (power < 0) = true then Int.negOfNat power.natAbs
          else Int.ofNat power.natAbs) = power := by
      split
      · next negative =>
          rw [decide_eq_true_eq] at negative
          rw [Int.negOfNat_eq]
          change -(power.natAbs : Int) = power
          omega
      · next notNegative =>
          rw [decide_eq_true_eq] at notNegative
          change (power.natAbs : Int) = power
          omega
    dsimp only
    rw [signed]
    exact congrArg (fun unpacked => Float.ofModel (.pack unpacked))
      (stored.ofScientific_of_long positive reads)

end Binary.Stored

end Lox.Decimal
