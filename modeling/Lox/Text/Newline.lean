import Lox.Text.Utf8

namespace Lox.Text

/-!
# Line ends of files

Files end their lines in several ways; their text has line feeds only.
-/

/-- A carriage return ends a line, alone or with the line feed after it. -/
def unifyLineEnds :
    List Char → List Char
  | [] => []
  | '\r' :: '\n' :: rest => '\n' :: unifyLineEnds rest
  | '\r' :: rest => '\n' :: unifyLineEnds rest
  | character :: rest => character :: unifyLineEnds rest

/-- The text of a file with the given bytes. -/
def ofFile
    (bytes : List UInt8) :
    Except Utf8.Fault String :=
  (Utf8.decode bytes).map fun text => String.ofList (unifyLineEnds text.toList)

end Lox.Text
