namespace Lox.Decimal

/-!
# The shortest decimal of a binary number

A finite binary number stands for every real that rounds to it.  This module
selects, among the decimals inside that interval, one with the fewest digits,
and of those the nearest to the number itself.  All arithmetic is exact.
-/

/-- The magnitude `significand * 2 ^ exponent` of a finite binary number. -/
structure Binary where
  significand : Nat
  exponent : Int
  /-- The neighbour below is half as far away as the neighbour above. -/
  narrowBelow : Bool
  deriving Repr, DecidableEq

namespace Binary

/-- Read the magnitude of a finite number from its 64 bits. -/
def ofBits
    (bits : UInt64) :
    Binary :=
  let field := ((bits >>> 52) &&& 0x7FF).toNat
  let fraction := (bits &&& 0xFFFFFFFFFFFFF).toNat
  if field = 0 then
    ⟨fraction, -1074, false⟩
  else
    ⟨Nat.pow 2 52 + fraction, (field : Int) - 1075, fraction = 0 && field > 1⟩

/-- The exact value of the magnitude. -/
def value
    (number : Binary) :
    Rat :=
  number.significand * (2 : Rat) ^ number.exponent

/-- The lower end of the reals that round to the number. -/
def lower
    (number : Binary) :
    Rat :=
  let gap := if number.narrowBelow then 1 else 2
  (4 * number.significand - gap : Rat) * (2 : Rat) ^ (number.exponent - 2)

/-- The upper end of the reals that round to the number. -/
def upper
    (number : Binary) :
    Rat :=
  (4 * number.significand + 2 : Rat) * (2 : Rat) ^ (number.exponent - 2)

/-- Ties round to even, so both ends belong to a number of even significand. -/
def readsBack
    (number : Binary)
    (candidate : Rat) :
    Bool :=
  if number.significand % 2 = 0 then
    number.lower ≤ candidate && candidate ≤ number.upper
  else
    number.lower < candidate && candidate < number.upper

end Binary

/-- Count the decimal digits of a natural number. -/
def digitCount
    (number : Nat) :
    Nat :=
  (Nat.toDigits 10 number).length

/-- The least power of ten above a positive value, given by its exponent. -/
def magnitude
    (value : Rat) :
    Int :=
  if 1 ≤ value then
    digitCount value.floor.toNat
  else
    1 - digitCount value⁻¹.floor.toNat

/-- The whole number `count` stands for `count * 10 ^ unit`. -/
structure Multiple where
  count : Nat
  unit : Int
  deriving Repr, DecidableEq

namespace Multiple

/-- The exact value of a multiple. -/
def value
    (multiple : Multiple) :
    Rat :=
  multiple.count * (10 : Rat) ^ multiple.unit

end Multiple

namespace Binary

/--
The multiple of `10 ^ unit` that reads back to the number, if there is one.
Of the two around the number the nearer is taken, and of two equally near the
even one.
-/
def onGrid?
    (number : Binary)
    (unit : Int) :
    Option Multiple :=
  let scaled := number.value / (10 : Rat) ^ unit
  let below := scaled.floor.toNat
  let lowerFits := number.readsBack (Multiple.mk below unit).value
  let upperFits := number.readsBack (Multiple.mk (below + 1) unit).value
  let remainder := scaled - below
  let preferUpper := 1 / 2 < remainder || (remainder = 1 / 2 && below % 2 = 1)
  if lowerFits && upperFits then
    some ⟨if preferUpper then below + 1 else below, unit⟩
  else if lowerFits then
    some ⟨below, unit⟩
  else if upperFits then
    some ⟨below + 1, unit⟩
  else
    none

/-- The number itself, which is a multiple of a power of ten. -/
def exactMultiple
    (number : Binary) :
    Multiple :=
  if 0 ≤ number.exponent then
    ⟨number.significand * Nat.pow 2 number.exponent.toNat, 0⟩
  else
    ⟨number.significand * Nat.pow 5 (-number.exponent).toNat, number.exponent⟩

/-- The coarsest decimal grid with a hit, tried from one digit to seventeen. -/
def shortest
    (number : Binary) :
    Multiple :=
  let top := magnitude number.value
  ((List.range 17).findSome? fun (digits : Nat) =>
    number.onGrid? (top - 1 - digits)).getD number.exactMultiple

end Binary

end Lox.Decimal
