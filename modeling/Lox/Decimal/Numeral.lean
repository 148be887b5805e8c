import Lox.Decimal.Notation

namespace Lox.Decimal

/-!
# Reading decimal numbers

A numeral is rounded once, from its exact decimal value.  The reader accepts
what `render` writes: a sign, digits, a fraction, an exponent and the words for
infinity and for the undefined number.
-/

/-- The number that a run of digits denotes. -/
def wholeNumber
    (digits : List Char) :
    Nat :=
  digits.foldl (fun total digit => 10 * total + (digit.toNat - '0'.toNat)) 0

/-- An unsigned numeral, taken apart. -/
structure Numeral where
  whole : List Char
  fraction : List Char
  exponent : Int
  deriving Repr, DecidableEq

namespace Numeral

/-- The nearest number to the exact value of the numeral. -/
def value
    (numeral : Numeral) :
    Float :=
  let places := numeral.exponent - numeral.fraction.length
  Float.ofScientific
    (wholeNumber (numeral.whole ++ numeral.fraction)) (places < 0) places.natAbs

end Numeral

/-- A run of digits with an optional sign in front. -/
def signedWhole?
    (characters : List Char) :
    Option Int :=
  let digits? (digits : List Char) : Option Nat :=
    if !digits.isEmpty && digits.all Char.isDigit then
      some (wholeNumber digits)
    else
      none
  match characters with
  | '-' :: digits => (digits? digits).map fun number => -(number : Int)
  | '+' :: digits => (digits? digits).map fun number => (number : Int)
  | digits => (digits? digits).map fun number => (number : Int)

/-- Read an unsigned numeral with an optional fraction and an optional exponent. -/
def numeral?
    (characters : List Char) :
    Option Numeral :=
  let whole := characters.takeWhile Char.isDigit
  let afterWhole := characters.dropWhile Char.isDigit
  let (fraction, afterFraction) :=
    match afterWhole with
    | '.' :: rest =>
        (rest.takeWhile Char.isDigit, rest.dropWhile Char.isDigit)
    | rest =>
        ([], rest)
  if whole.isEmpty then
    none
  else
    match afterFraction with
    | [] =>
        some ⟨whole, fraction, 0⟩
    | 'e' :: exponent =>
        (signedWhole? exponent).map fun power => ⟨whole, fraction, power⟩
    | _ =>
        none

/-- Read a magnitude. -/
def magnitude?
    (characters : List Char) :
    Option Float :=
  if characters = standard.infinity.toList then
    some (1.0 / 0.0)
  else if characters = standard.undefined.toList then
    some (0.0 / 0.0)
  else
    (numeral? characters).map Numeral.value

/-- Read a number. -/
def read?
    (text : String) :
    Option Float :=
  match text.toList with
  | '-' :: rest => (magnitude? rest).map fun number => -number
  | rest => magnitude? rest

end Lox.Decimal
