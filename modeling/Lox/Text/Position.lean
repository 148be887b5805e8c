namespace Lox.Text

/-!
# Positions in a text

An offset counts characters.  Lines end at line feeds only, and both lines and
columns count from one.

Reports take the line, the column and the text of the line at an offset from the
helpers `lineno`, `col` and `line` of the parsing library.  `lineAt`, `columnAt` and
`lineTextAt` stand for these helpers under the equations that the library documents
for text whose lines end at line feeds.
-/

/-- Count the line feeds of a text. -/
def lineFeeds
    (characters : List Char) :
    Nat :=
  characters.count '\n'

/-- The characters between the last line feed and the end. -/
def lastLine
    (characters : List Char) :
    List Char :=
  (characters.reverse.takeWhile (· != '\n')).reverse

/-- The characters before the first line feed. -/
def firstLine
    (characters : List Char) :
    List Char :=
  characters.takeWhile (· != '\n')

/--
The line that holds an offset: one more than the line feeds in front of it, as the
library's `lineno` counts it.
-/
def lineAt
    (characters : List Char)
    (offset : Nat) :
    Nat :=
  1 + lineFeeds (characters.take offset)

/--
The column of an offset in its line: one more than the characters behind the last
line feed in front of it, as the library's `col` counts it at the offsets of a text.
-/
def columnAt
    (characters : List Char)
    (offset : Nat) :
    Nat :=
  1 + (lastLine (characters.take offset)).length

/--
The whole line around an offset, without its line feed: the text between the last
line feed in front of the offset and the next one from there on, as the library's
`line` cuts it.
-/
def lineTextAt
    (characters : List Char)
    (offset : Nat) :
    List Char :=
  lastLine (characters.take offset) ++ firstLine (characters.drop offset)

/-- Set text to the right of a field of the given width. -/
def alignRight
    (width : Nat)
    (characters : List Char) :
    List Char :=
  List.replicate (width - characters.length) ' ' ++ characters

/-- A line number in a field of four. -/
def lineNumberField
    (line : Nat) :
    List Char :=
  alignRight 4 (toString line).toList

/-- An offset lies in a text from its first character to just past its last. -/
def isInside
    (characters : List Char)
    (offset : Nat) :
    Bool :=
  offset ≤ characters.length

/--
The line that holds an offset, under it a caret in the column of the offset.
The caret is set for line numbers that fit their field.
-/
def excerpt
    (source : String)
    (offset : Nat) :
    String :=
  let characters := source.toList
  if isInside characters offset then
    let number := lineNumberField (lineAt characters offset)
    let quoted := number ++ ':' :: ' ' :: lineTextAt characters offset
    let pointer :=
      List.replicate (6 + (columnAt characters offset - 1)) ' ' ++ ['^']
    String.ofList (quoted ++ '\n' :: pointer)
  else
    ""

/-- The column of an offset that lies in the text. -/
def column?
    (source : String)
    (offset : Nat) :
    Option Nat :=
  let characters := source.toList
  if isInside characters offset then
    some (columnAt characters offset)
  else
    none

end Lox.Text
