namespace Lox.Text.Utf8

/-!
# Text from bytes

Bytes are read as UTF-8.  A fault names the bytes that are wrong: a byte that
starts no character, the part of a character before a byte that does not
continue it, or a character that the data ends inside of.
-/

/-- Why bytes are no text. -/
inductive Reason where
  | invalidStart
  | invalidContinuation
  | unexpectedEnd
  deriving Repr, DecidableEq

namespace Reason

/-- The reason in words. -/
def text :
    Reason → String
  | .invalidStart => "invalid start byte"
  | .invalidContinuation => "invalid continuation byte"
  | .unexpectedEnd => "unexpected end of data"

end Reason

/-- The first faulty bytes of some data. -/
structure Fault where
  position : Nat
  /-- The first faulty byte. -/
  byte : UInt8
  /-- How many bytes are at fault, at least one. -/
  extent : Nat
  reason : Reason
  deriving Repr, DecidableEq

namespace Fault

/-- Two digits of lower-case hexadecimal. -/
def byteText
    (byte : UInt8) :
    String :=
  let digits := Nat.toDigits 16 byte.toNat
  String.ofList (List.replicate (2 - digits.length) '0' ++ digits)

/-- The fault in words, with the positions of the faulty bytes. -/
def message
    (fault : Fault) :
    String :=
  let place :=
    if fault.extent = 1 then
      s!"byte 0x{byteText fault.byte} in position {fault.position}"
    else
      s!"bytes in position {fault.position}-{fault.position + fault.extent - 1}"
  s!"'utf-8' codec can't decode {place}: {fault.reason.text}"

end Fault

/-- Every byte of a character after the first has the form 10xxxxxx. -/
def continues
    (byte : UInt8) :
    Bool :=
  0x80 ≤ byte && byte < 0xC0

/-- The form that the first byte of a character announces. -/
structure Lead where
  /-- The bits of the first byte that belong to the character. -/
  bits : Nat
  /-- The bytes that have to follow. -/
  following : Nat
  /-- The least second byte; what lies below has a shorter form. -/
  secondFrom : UInt8
  /-- The end of the second bytes; what lies above is no character. -/
  secondBelow : UInt8
  deriving Repr, DecidableEq

/-- Whether a byte starts a character, and of which form. -/
def lead?
    (byte : UInt8) :
    Option Lead :=
  if byte < 0x80 then
    some ⟨byte.toNat, 0, 0x80, 0xC0⟩
  else if byte < 0xC2 then
    none
  else if byte < 0xE0 then
    some ⟨byte.toNat - 0xC0, 1, 0x80, 0xC0⟩
  else if byte < 0xF0 then
    some ⟨byte.toNat - 0xE0, 2,
      if byte = 0xE0 then 0xA0 else 0x80,
      if byte = 0xED then 0xA0 else 0xC0⟩
  else if byte < 0xF5 then
    some ⟨byte.toNat - 0xF0, 3,
      if byte = 0xF0 then 0x90 else 0x80,
      if byte = 0xF4 then 0x90 else 0xC0⟩
  else
    none

/-- What the first bytes of some data hold. -/
inductive Step where
  | character (character : Char) (length : Nat)
  | fault (extent : Nat) (reason : Reason)
  deriving Repr, DecidableEq

/-- The following bytes of a character, checked from the front and collected. -/
def collect :
    (read : Nat) → (needed : Nat) → (bits : Nat) →
      (isExpected : UInt8 → Bool) → List UInt8 → Step
  | read, 0, bits, _, _ => .character (Char.ofNat bits) read
  | read, _ + 1, _, _, [] => .fault read .unexpectedEnd
  | read, needed + 1, bits, isExpected, byte :: rest =>
      if isExpected byte then
        collect (read + 1) needed (64 * bits + (byte.toNat - 0x80)) continues rest
      else
        .fault read .invalidContinuation

/-- Read one character from data that starts with the given byte. -/
def step
    (byte : UInt8)
    (rest : List UInt8) :
    Step :=
  match lead? byte with
  | none => .fault 1 .invalidStart
  | some lead =>
      collect 1 lead.following lead.bits
        (fun second => lead.secondFrom ≤ second && second < lead.secondBelow) rest

/-- Read data from a position on; `pending` bytes belong to the character before. -/
def decodeFrom :
    (position : Nat) → (pending : Nat) → List UInt8 → Except Fault (List Char)
  | _, _, [] => .ok []
  | position, pending + 1, _ :: rest => decodeFrom (position + 1) pending rest
  | position, 0, byte :: rest =>
      match step byte rest with
      | .character character length => do
          let characters ← decodeFrom (position + 1) (length - 1) rest
          return character :: characters
      | .fault extent reason =>
          .error ⟨position, byte, extent, reason⟩

/-- Read data as text. -/
def decode
    (bytes : List UInt8) :
    Except Fault String :=
  (decodeFrom 0 0 bytes).map String.ofList

end Lox.Text.Utf8
