import Attest.Bytes

/-! # Hexadecimal text

    Bytes are written as two lower-case digits each, high half first.  Reading
    accepts both cases and names the first problem: an odd number of digits,
    or else the first byte that is no digit. -/

namespace Attest.Hex

/-- The two digits of a byte. -/
def pair (byte : UInt8) : List Char :=
  [Nat.digitChar (byte.toNat / 16), Nat.digitChar (byte.toNat % 16)]

/-- The digits of a byte string. -/
def chars (bytes : Bytes) : List Char :=
  bytes.flatMap pair

/-- The hexadecimal text of a byte string. -/
def encode (bytes : Bytes) : String :=
  String.ofList (chars bytes)

/-- What keeps a text from being hexadecimal. -/
inductive Flaw
  /-- The text has an odd number of bytes. -/
  | oddLength
  /-- The byte at this position is no digit. -/
  | notADigit (byte : UInt8) (position : Nat)
  deriving DecidableEq, Repr

/-- The value of an ASCII digit of either case. -/
def value? (byte : UInt8) : Option Nat :=
  let code := byte.toNat
  if 48 ≤ code ∧ code ≤ 57 then some (code - 48)
  else if 97 ≤ code ∧ code ≤ 102 then some (code - 87)
  else if 65 ≤ code ∧ code ≤ 70 then some (code - 55)
  else none

/-- The value of the digit at a position. -/
def digit (byte : UInt8) (position : Nat) : Except Flaw Nat :=
  match value? byte with
  | some value => .ok value
  | none => .error (.notADigit byte position)

/-- Reads digits two by two, the first of them at the given position. -/
def pairs (position : Nat) : Bytes → Except Flaw Bytes
  | high :: low :: rest => do
      let h ← digit high position
      let l ← digit low (position + 1)
      let bytes ← pairs (position + 2) rest
      pure (UInt8.ofNat (16 * h + l) :: bytes)
  | _ => .ok []

/-- The bytes that a hexadecimal text spells. -/
def decode (text : String) : Except Flaw Bytes :=
  let bytes := Bytes.ofText text
  if bytes.length % 2 = 1 then .error .oddLength else pairs 0 bytes

/-- A byte as a quoted character: control characters, the quote and the
    backslash are escaped. -/
def quoted (byte : UInt8) : String :=
  let code := byte.toNat
  let body :=
    if code = 0 then "\\0"
    else if code = 9 then "\\t"
    else if code = 10 then "\\n"
    else if code = 13 then "\\r"
    else if code = 39 then "\\'"
    else if code = 92 then "\\\\"
    else if code < 32 ∨ (127 ≤ code ∧ code < 160) then
      "\\u\x7b" ++ String.ofList (Nat.toDigits 16 code) ++ "\x7d"
    else String.singleton (Char.ofNat code)
  "'" ++ body ++ "'"

/-- The wording of a flaw. -/
def Flaw.message : Flaw → String
  | .oddLength => "Odd number of digits"
  | .notADigit byte position =>
      let character := quoted byte
      s!"Invalid character {character} at position {position}"

end Attest.Hex
