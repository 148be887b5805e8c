import Lox.Text.Blank

namespace Lox.Text

/-!
# Quoted names

A name stands between single quotes, or between double quotes if it holds a
single quote and no double one.  The backslash, the quote itself and what has no
visible form are escaped.
-/

/--
Code points without a visible form: controls, formats, separators, private use
and the planes without characters.
-/
def invisibleRanges :
    List (Nat × Nat) :=
  [(0x00, 0x1F), (0x7F, 0xA0), (0xAD, 0xAD), (0x600, 0x605), (0x61C, 0x61C),
    (0x6DD, 0x6DD), (0x70F, 0x70F), (0x890, 0x891), (0x8E2, 0x8E2),
    (0x1680, 0x1680), (0x180E, 0x180E), (0x2000, 0x200F), (0x2028, 0x202F),
    (0x205F, 0x206F), (0x3000, 0x3000), (0xE000, 0xF8FF), (0xFEFF, 0xFEFF),
    (0xFFF0, 0xFFFB), (0xFFFE, 0xFFFF), (0x110BD, 0x110BD), (0x110CD, 0x110CD),
    (0x13430, 0x13438), (0x1BCA0, 0x1BCA3), (0x1D173, 0x1D17A),
    (0x3134B, 0xE00FF), (0xE01F0, 0x10FFFF)]

/-- A number in lower-case hexadecimal, padded with zeros to a width. -/
def hexadecimal
    (width : Nat)
    (number : Nat) :
    List Char :=
  let written := Nat.toDigits 16 number
  List.replicate (width - written.length) '0' ++ written

/-- The shortest escape that holds a code point. -/
def escapedPoint
    (point : Nat) :
    List Char :=
  if point < 0x100 then
    '\\' :: 'x' :: hexadecimal 2 point
  else if point < 0x10000 then
    '\\' :: 'u' :: hexadecimal 4 point
  else
    '\\' :: 'U' :: hexadecimal 8 point

/-- The written form of one character between the given quotes. -/
def quotedCharacter
    (quote : Char)
    (character : Char) :
    List Char :=
  if character = quote || character = '\\' then
    ['\\', character]
  else if character = '\n' then
    ['\\', 'n']
  else if character = '\r' then
    ['\\', 'r']
  else if character = '\t' then
    ['\\', 't']
  else if isInRanges invisibleRanges character.toNat then
    escapedPoint character.toNat
  else
    [character]

/-- Single quotes are preferred. -/
def quoteFor
    (characters : List Char) :
    Char :=
  if characters.contains '\'' && !characters.contains '"' then '"' else '\''

/-- A name between quotes. -/
def quoted
    (name : String) :
    String :=
  let characters := name.toList
  let quote := quoteFor characters
  String.ofList
    (quote :: characters.flatMap (quotedCharacter quote) ++ [quote])

/-- Names between brackets, with commas between them. -/
def quotedList
    (names : List String) :
    String :=
  "[" ++ ", ".intercalate (names.map quoted) ++ "]"

end Lox.Text
