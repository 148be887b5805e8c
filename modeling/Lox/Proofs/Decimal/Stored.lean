import Lox.Decimal.Notation
import Lox.Proofs.Decimal.Rounding

namespace Lox.Decimal

/-!
# The bits of a number

A number of 64 bits is undefined, infinite, zero or a stored magnitude with a sign,
and what it is can be read off its bits again.
-/

open Float.Model (Format UnpackedFloat)
open Float.Model.UnpackedFloat

/-- Packed components stand one beside the other. -/
theorem toNat_packComponents
    (sign : Sign)
    (exponent : BitVec 11)
    (mantissa : BitVec 52) :
    (packComponents .binary64 sign exponent mantissa).toNat =
      2 ^ 63 * sign.toBitVec.toNat + 2 ^ 52 * exponent.toNat + mantissa.toNat := by
  have mantissaBits := mantissa.isLt
  have exponentBits := exponent.isLt
  simp only [packComponents, BitVec.toNat_append]
  rw [← Nat.shiftLeft_add_eq_or_of_lt mantissaBits, ← Nat.shiftLeft_add_eq_or_of_lt
    exponentBits, Nat.shiftLeft_eq, Nat.shiftLeft_eq]
  ring

theorem toNat_unpackMantissa
    (bits : BitVec 64) :
    (@unpackMantissa .binary64 bits).toNat = bits.toNat % 2 ^ 52 := by
  simp [unpackMantissa, BitVec.extractLsb]

theorem toNat_unpackExponent
    (bits : BitVec 64) :
    (@unpackExponent .binary64 bits).toNat = bits.toNat / 2 ^ 52 % 2 ^ 11 := by
  simp [unpackExponent, BitVec.extractLsb, Nat.shiftRight_eq_div_pow]

theorem toNat_field
    (bits : UInt64) :
    ((bits >>> 52) &&& 0x7FF).toNat = bits.toNat / 2 ^ 52 % 2 ^ 11 := by
  rw [UInt64.toNat_and, UInt64.toNat_shiftRight, Nat.shiftRight_eq_div_pow]
  exact Nat.and_two_pow_sub_one_eq_mod _ 11

theorem toNat_fraction
    (bits : UInt64) :
    (bits &&& 0xFFFFFFFFFFFFF).toNat = bits.toNat % 2 ^ 52 := by
  rw [UInt64.toNat_and]
  exact Nat.and_two_pow_sub_one_eq_mod _ 52

theorem isNegative_iff
    (bits : UInt64) :
    Notation.isNegative bits = true ↔ 2 ^ 63 ≤ bits.toNat := by
  have bound := bits.toNat_lt
  rw [Notation.isNegative, decide_eq_true_iff, ← UInt64.toNat_inj,
    UInt64.toNat_shiftRight, Nat.shiftRight_eq_div_pow]
  simp
  omega

/-- What a number of 64 bits can be. -/
inductive Canonical : UnpackedFloat → Prop where
  | undefined :
      Canonical .notANumber
  | infinite
      (sign : Sign) :
      Canonical (.infinity sign)
  | zero
      (sign : Sign) :
      Canonical (.zero sign)
  | stored
      (sign : Sign)
      {number : Binary}
      (stored : number.Stored) :
      Canonical (.finite sign number.significand number.exponent stored.positive)

namespace Binary.Stored

variable {number : Binary}

/-- The bits of a stored number with all its bits. -/
theorem pack_full
    (stored : number.Stored)
    (sign : Sign)
    (full : 2 ^ 52 ≤ number.significand) :
    pack .binary64
      (.finite sign number.significand number.exponent stored.positive) =
      packComponents .binary64 sign (.ofNat 11 (number.exponent + 1075).toNat)
        (.ofNat 52 number.significand) := by
  have least := stored.least
  have greatest := stored.greatest
  have bits := stored.log2_significand full
  have place :
      number.exponent + (Format.binary64.exponentBias : Int) +
        (Format.binary64.mantissaBitsWithoutImplicit : Int) =
          number.exponent + 1075 := by
    change number.exponent + 1023 + 52 = _
    omega
  rw [pack, place, if_neg (by change ¬ (2 ^ 11 ≤ _); omega),
    if_pos (by rw [bits]; rfl)]

/-- The bits of a stored number of the least scale that has no leading bit. -/
theorem pack_short
    (stored : number.Stored)
    (sign : Sign)
    (short : number.significand < 2 ^ 52) :
    pack .binary64
      (.finite sign number.significand number.exponent stored.positive) =
      packComponents .binary64 sign 0 (.ofNat 52 number.significand) := by
  have least := stored.full.resolve_left (by omega)
  have bits := (Nat.log2_lt stored.positive.ne').mpr short
  have place :
      number.exponent + (Format.binary64.exponentBias : Int) +
        (Format.binary64.mantissaBitsWithoutImplicit : Int) = 1 := by
    rw [least]
    rfl
  rw [pack, place, if_neg (by decide), if_neg (by change ¬ (_ = 1 + 52); omega)]
  rfl

/--
A full significand is stored without its leading bit, which is put in front of the
mantissa again when it is unpacked.
-/
theorem unpack_pack_full
    (stored : number.Stored)
    (sign : Sign)
    (full : 2 ^ 52 ≤ number.significand) :
    unpack .binary64
        (pack .binary64
          (.finite sign number.significand number.exponent stored.positive)) =
      .finite sign number.significand number.exponent stored.positive := by
  have least := stored.least
  have greatest := stored.greatest
  have bounded := stored.bounded
  have field : (BitVec.ofNat 11 (number.exponent + 1075).toNat).toNat =
      (number.exponent + 1075).toNat := by
    rw [BitVec.toNat_ofNat]
    omega
  have finite : BitVec.ofNat 11 (number.exponent + 1075).toNat ≠ -1#11 := by
    intro same
    have isGreatest : _ = 2047 := field.symm.trans (congrArg BitVec.toNat same)
    omega
  have normal : BitVec.ofNat 11 (number.exponent + 1075).toNat ≠ 0#11 := by
    intro same
    have isLeast : _ = 0 := field.symm.trans (congrArg BitVec.toNat same)
    omega
  have whole :
      (1#1 ++ BitVec.ofNat 52 number.significand).toNat = number.significand := by
    rw [BitVec.toNat_append,
      ← Nat.shiftLeft_add_eq_or_of_lt (BitVec.ofNat 52 number.significand).isLt]
    change 2 ^ 52 + number.significand % 2 ^ 52 = _
    omega
  rw [stored.pack_full sign full, unpack]
  simp only [unpackExponent_packComponents, unpackMantissa_packComponents,
    unpackSign_packComponents, Sign.ofBitVec_toBitVec]
  rw [if_neg finite, if_neg normal]
  congr 1
  rw [field]
  change _ - (1023 + 52) = _
  omega

/-- A short significand is stored as it is, and found again. -/
theorem unpack_pack_short
    (stored : number.Stored)
    (sign : Sign)
    (short : number.significand < 2 ^ 52) :
    unpack .binary64
        (pack .binary64
          (.finite sign number.significand number.exponent stored.positive)) =
      .finite sign number.significand number.exponent stored.positive := by
  have exponent := stored.full.resolve_left (by omega)
  have significand :
      (BitVec.ofNat 52 number.significand).toNat = number.significand := by
    rw [BitVec.toNat_ofNat]
    omega
  have nonzero : BitVec.ofNat 52 number.significand ≠ 0#52 := by
    intro same
    have isZero : _ = 0 := significand.symm.trans (congrArg BitVec.toNat same)
    exact stored.positive.ne' isZero
  rw [stored.pack_short sign short, unpack]
  simp only [unpackExponent_packComponents, unpackMantissa_packComponents,
    unpackSign_packComponents, Sign.ofBitVec_toBitVec]
  rw [if_neg (by decide), if_pos (by rfl), dif_neg nonzero]
  congr 1
  rw [exponent]
  rfl

/-- A stored number is found again in its bits. -/
theorem unpack_pack
    (stored : number.Stored)
    (sign : Sign) :
    unpack .binary64
        (pack .binary64
          (.finite sign number.significand number.exponent stored.positive)) =
      .finite sign number.significand number.exponent stored.positive := by
  obtain full | short := le_or_gt (2 ^ 52) number.significand
  · exact stored.unpack_pack_full sign full
  · exact stored.unpack_pack_short sign short

end Binary.Stored

/-- What a number is can be read off its bits. -/
theorem Canonical.unpack_pack
    {unpacked : UnpackedFloat}
    (canonical : Canonical unpacked) :
    (Float.Model.pack unpacked).unpack = unpacked := by
  change unpack .binary64 (pack .binary64 unpacked) = unpacked
  cases canonical with
  | undefined => rfl
  | infinite sign => cases sign <;> rfl
  | zero sign => cases sign <;> rfl
  | stored sign stored => exact stored.unpack_pack sign

/-- Turning the sign of a number turns the sign of what it is. -/
theorem Canonical.neg_pack
    {unpacked : UnpackedFloat}
    (canonical : Canonical unpacked) :
    -(Float.ofModel (.pack unpacked)) = .ofModel (.pack unpacked.neg) := by
  change Float.ofModel (.pack (Float.Model.pack unpacked).unpack.neg) = _
  rw [canonical.unpack_pack]

/-- Numbers with one bit pattern are one number. -/
theorem eq_of_toNat_toBits
    {quantity other : Float}
    (same : quantity.toBits.toNat = other.toBits.toNat) :
    quantity = other := by
  obtain ⟨⟨bits, _⟩⟩ := quantity
  obtain ⟨⟨otherBits, _⟩⟩ := other
  have same : bits = otherBits := UInt64.toNat_inj.mp same
  subst same
  rfl

/-- The magnitude that the bits of a number stand for, by their parts. -/
theorem ofBits_eq
    (bits : UInt64) :
    Binary.ofBits bits =
      if bits.toNat / 2 ^ 52 % 2 ^ 11 = 0 then
        ⟨bits.toNat % 2 ^ 52, -1074, false⟩
      else
        ⟨2 ^ 52 + bits.toNat % 2 ^ 52, (bits.toNat / 2 ^ 52 % 2 ^ 11 : Nat) - 1075,
          bits.toNat % 2 ^ 52 = 0 && bits.toNat / 2 ^ 52 % 2 ^ 11 > 1⟩ := by
  simp only [Binary.ofBits, toNat_field, toNat_fraction]
  rfl

/--
Bits that stand for a finite magnitude other than zero stand for a stored one.
-/
theorem stored_ofBits
    {bits : UInt64}
    (finite : bits.toNat / 2 ^ 52 % 2 ^ 11 ≠ 2047)
    (nonzero : (Binary.ofBits bits).significand ≠ 0) :
    (Binary.ofBits bits).Stored := by
  rw [ofBits_eq] at nonzero ⊢
  split at nonzero
  · next least =>
      rw [if_pos least]
      exact
        { positive := by omega
          bounded := by dsimp only; omega
          least := by dsimp only; omega
          greatest := by dsimp only; omega
          full := .inr rfl
          narrow := by simp }
  · next normal =>
      rw [if_neg normal]
      exact
        { positive := by omega
          bounded := by dsimp only; omega
          least := by dsimp only; omega
          greatest := by dsimp only; omega
          full := .inl (by dsimp only; omega)
          narrow := by
            simp only [Bool.and_eq_true, decide_eq_true_eq]
            omega }

namespace Binary

/-- The bits of a number without its sign, as a whole number. -/
def code
    (number : Binary) :
    Nat :=
  if 2 ^ 52 ≤ number.significand then
    2 ^ 52 * (number.exponent + 1075).toNat + (number.significand - 2 ^ 52)
  else
    number.significand

theorem code_ofBits
    (bits : UInt64) :
    (ofBits bits).code = bits.toNat % 2 ^ 63 := by
  rw [ofBits_eq, code]
  split <;> split <;> dsimp only at * <;> omega

namespace Stored

variable {number : Binary}

/-- The code of a number leaves the sign alone. -/
theorem code_lt
    (stored : number.Stored) :
    number.code < 2 ^ 63 := by
  have greatest := stored.greatest
  have bounded := stored.bounded
  unfold code
  split <;> omega

/-- The bits of a number are its sign and its code. -/
theorem toNat_pack
    (stored : number.Stored)
    (sign : Sign) :
    (pack .binary64
        (.finite sign number.significand number.exponent stored.positive)).toNat =
      2 ^ 63 * sign.toBitVec.toNat + number.code := by
  have least := stored.least
  have greatest := stored.greatest
  have bounded := stored.bounded
  unfold code
  split
  · next full =>
      rw [stored.pack_full sign full, toNat_packComponents, BitVec.toNat_ofNat,
        BitVec.toNat_ofNat]
      omega
  · next short =>
      rw [stored.pack_short sign (not_le.mp short), toNat_packComponents,
        BitVec.toNat_ofNat]
      change _ + 2 ^ 52 * 0 + _ = _
      omega

/-- A stored number is what its code stands for. -/
theorem ofBits_of_code
    (stored : number.Stored)
    {bits : UInt64}
    (same : bits.toNat % 2 ^ 63 = number.code) :
    ofBits bits = number := by
  have least := stored.least
  have greatest := stored.greatest
  have bounded := stored.bounded
  have narrow := stored.narrow
  have scale := stored.full
  obtain ⟨significand, exponent, narrowBelow⟩ := number
  dsimp only [code] at *
  rw [ofBits_eq]
  split at same
  · next full =>
      rw [if_neg (by omega), mk.injEq]
      refine ⟨by omega, by omega, ?_⟩
      rw [Bool.eq_iff_iff, narrow, Bool.and_eq_true, decide_eq_true_eq,
        decide_eq_true_eq]
      omega
  · next short =>
      rw [if_pos (by omega), mk.injEq]
      refine ⟨by omega, by omega, ?_⟩
      rw [eq_comm, Bool.eq_false_iff, ne_eq, narrow]
      omega

end Stored

end Binary

/--
Every number is of one of the shapes. There are many undefined bit patterns, but a
number has only one of them.
-/
theorem exists_canonical
    (quantity : Float) :
    ∃ unpacked, Canonical unpacked ∧ quantity = .ofModel (.pack unpacked) := by
  obtain ⟨⟨bits, valid⟩⟩ := quantity
  have bound := bits.toNat_lt
  obtain ⟨sign, signed⟩ :
      ∃ sign : Sign, sign.toBitVec.toNat = bits.toNat / 2 ^ 63 := by
    obtain zero | one : bits.toNat / 2 ^ 63 = 0 ∨ bits.toNat / 2 ^ 63 = 1 := by
      omega
    · exact ⟨.positive, zero.symm⟩
    · exact ⟨.negative, one.symm⟩
  by_cases finite : bits.toNat / 2 ^ 52 % 2 ^ 11 = 2047
  · by_cases infinite : bits.toNat % 2 ^ 52 = 0
    · refine ⟨_, .infinite sign, eq_of_toNat_toBits ?_⟩
      change bits.toNat = (packComponents .binary64 sign (-1#11) 0).toNat
      rw [toNat_packComponents, signed]
      change _ = _ + 2 ^ 52 * 2047 + 0
      omega
    · refine ⟨_, .undefined, eq_of_toNat_toBits ?_⟩
      refine congrArg BitVec.toNat (valid.eq_packedNaN ?_ ?_)
      · apply BitVec.eq_of_toNat_eq
        rw [toNat_unpackExponent]
        exact finite
      · intro none
        have := congrArg BitVec.toNat none
        rw [toNat_unpackMantissa] at this
        exact infinite this
  · by_cases zero : (Binary.ofBits bits).significand = 0
    · refine ⟨_, .zero sign, eq_of_toNat_toBits ?_⟩
      change bits.toNat = (packComponents .binary64 sign 0 0).toNat
      rw [toNat_packComponents, signed]
      rw [ofBits_eq] at zero
      change _ = _ + 0 + 0
      split at zero <;> dsimp only at zero <;> omega
    · have stored := stored_ofBits finite zero
      refine ⟨_, .stored sign stored, eq_of_toNat_toBits ?_⟩
      change bits.toNat = (pack .binary64 _).toNat
      rw [stored.toNat_pack sign, signed, Binary.code_ofBits]
      omega

namespace Binary.Stored

variable {number : Binary}

/-- The magnitude of a stored number is found again in its bits. -/
theorem ofBits_pack
    (stored : number.Stored)
    (sign : Sign) :
    ofBits (Float.ofModel (.pack
      (.finite sign number.significand number.exponent stored.positive))).toBits =
          number := by
  have whole := stored.toNat_pack sign
  have less := stored.code_lt
  exact stored.ofBits_of_code (by
    change (pack .binary64 _).toNat % _ = _
    omega)

/-- And so is its sign. -/
theorem isNegative_pack
    (stored : number.Stored)
    (sign : Sign) :
    Notation.isNegative (Float.ofModel (.pack
      (.finite sign number.significand number.exponent stored.positive))).toBits =
          true ↔
      sign = .negative := by
  have whole := stored.toNat_pack sign
  have less := stored.code_lt
  rw [isNegative_iff]
  change _ ≤ (pack .binary64 _).toNat ↔ _
  cases sign with
  | negative =>
      have one : Sign.negative.toBitVec.toNat = 1 := rfl
      simp only [iff_true]
      omega
  | positive =>
      have none : Sign.positive.toBitVec.toNat = 0 := rfl
      simp only [reduceCtorEq, iff_false]
      omega

end Binary.Stored

end Lox.Decimal
