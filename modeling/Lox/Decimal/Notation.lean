import Lox.Decimal.Shortest

namespace Lox.Decimal

/-!
# Decimal notation

Numbers are written with the fewest digits that identify them: positionally
from 10^-4 up to below 10^16 and with a signed exponent elsewhere.
-/

/-- Significant digits, and the power of ten of the first of them. -/
structure Digits where
  first : Char
  others : List Char
  leading : Int
  deriving Repr, DecidableEq

/-- The decisions of one way of writing numbers. -/
structure Notation where
  /-- The least leading exponent that is written positionally. -/
  plainFrom : Int
  /-- The leading exponent from which an exponent is written. -/
  plainBelow : Int
  /-- The least count of digits of a written exponent. -/
  exponentWidth : Nat
  infinity : String
  undefined : String
  deriving Repr, DecidableEq

/-- Numbers of the language, whole ones written with a zero after the point. -/
def standard : Notation where
  plainFrom :=
    -4
  plainBelow :=
    16
  exponentWidth :=
    2
  infinity :=
    "inf"
  undefined :=
    "nan"

namespace Digits

/-- Write a count of unit multiples without its trailing zeros. -/
def ofMultiple
    (multiple : Multiple) :
    Digits :=
  match Nat.toDigits 10 multiple.count with
  | [] =>
      ⟨'0', [], 0⟩
  | first :: others =>
      ⟨first,
        (others.reverse.dropWhile (· == '0')).reverse,
        multiple.unit + others.length⟩

/--
The digits before the point and after it, for a leading exponent of at least zero.
-/
def splitWhole
    (digits : Digits)
    (count : Nat) :
    List Char × List Char :=
  (digits.first :: digits.others.take count ++
      List.replicate (count - digits.others.length) '0',
    digits.others.drop count)

/-- At least one digit stands after the point. -/
def fractionText
    (fraction : List Char) :
    List Char :=
  if fraction.isEmpty then ['0'] else fraction

/-- Positional notation. -/
def positional
    (digits : Digits) :
    List Char :=
  if 0 ≤ digits.leading then
    let parts := digits.splitWhole digits.leading.toNat
    parts.1 ++ '.' :: fractionText parts.2
  else
    '0' :: '.' :: (List.replicate (-digits.leading - 1).toNat '0' ++
      digits.first :: digits.others)

/-- Exponents are padded on the left to their least width. -/
def exponentText
    (width : Nat)
    (exponent : Nat) :
    List Char :=
  let written := Nat.toDigits 10 exponent
  List.replicate (width - written.length) '0' ++ written

/-- One digit before the point, which is written only if digits follow it. -/
def scientific
    (digits : Digits)
    (width : Nat) :
    List Char :=
  let sign := if digits.leading < 0 then '-' else '+'
  let fraction := if digits.others.isEmpty then [] else '.' :: digits.others
  digits.first :: (fraction ++ 'e' :: sign ::
    exponentText width digits.leading.natAbs)

end Digits

namespace Notation

/-- Lay out significant digits. -/
def layOut
    (style : Notation)
    (digits : Digits) :
    List Char :=
  if style.plainFrom ≤ digits.leading && digits.leading < style.plainBelow then
    digits.positional
  else
    digits.scientific style.exponentWidth

/-- Write a magnitude; zero has no leading exponent and is written as one digit. -/
def magnitudeText
    (style : Notation)
    (bits : UInt64) :
    List Char :=
  let number := Binary.ofBits bits
  if number.significand = 0 then
    style.layOut ⟨'0', [], 0⟩
  else
    style.layOut (Digits.ofMultiple number.shortest)

/-- The sign bit, which zero has too. -/
def isNegative
    (bits : UInt64) :
    Bool :=
  bits >>> 63 = 1

/-- Write a number; what is no number has no sign. -/
def characters
    (style : Notation)
    (number : Float) :
    List Char :=
  if number.isNaN then
    style.undefined.toList
  else
    let bits := number.toBits
    let magnitude :=
      if number.isInf then style.infinity.toList else style.magnitudeText bits
    if isNegative bits then '-' :: magnitude else magnitude

end Notation

/-- The text of a number. -/
def render
    (number : Float) :
    String :=
  String.ofList (standard.characters number)

end Lox.Decimal
