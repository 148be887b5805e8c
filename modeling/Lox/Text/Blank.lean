namespace Lox.Text

/-!
# Blank characters

The characters of the property White_Space, and with them the four information
separators from U+001C to U+001F.
-/

/-- Closed ranges of code points, ascending and apart. -/
def blankRanges :
    List (Nat × Nat) :=
  [(0x09, 0x0D), (0x1C, 0x20), (0x85, 0x85), (0xA0, 0xA0), (0x1680, 0x1680),
    (0x2000, 0x200A), (0x2028, 0x2029), (0x202F, 0x202F), (0x205F, 0x205F),
    (0x3000, 0x3000)]

/-- Look a code point up in a list of closed ranges. -/
def isInRanges
    (ranges : List (Nat × Nat))
    (point : Nat) :
    Bool :=
  ranges.any fun range => range.1 ≤ point && point ≤ range.2

/-- A character that trimming removes. -/
def isBlank
    (character : Char) :
    Bool :=
  isInRanges blankRanges character.toNat

/-- Remove the blanks at the front of a list. -/
def trimFront
    (characters : List Char) :
    List Char :=
  characters.dropWhile isBlank

/-- Remove the blanks at both ends of a text. -/
def trim
    (text : String) :
    String :=
  String.ofList (trimFront (trimFront text.toList).reverse).reverse

end Lox.Text
