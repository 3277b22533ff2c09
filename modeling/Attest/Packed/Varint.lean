import Attest.Fault

/-! # Variable-length numbers

    A number is written in base 128, lowest digit first; every byte but the last
    has its high bit set.  Reading accepts superfluous zero digits, but no more
    bytes than a word of the given size can need, and nothing beyond the word. -/

namespace Attest.Packed.Varint

/-- The bytes of a number, as few as possible. -/
def encode (n : Nat) : Bytes :=
  if n < 128 then [UInt8.ofNat n]
  else UInt8.ofNat (n % 128 + 128) :: encode (n / 128)
termination_by n

/-- Reads a number of at most `more` bytes and one last byte, which is at most
    `last`; gives the number and what follows it. -/
def readDigits (last : Nat) : Nat → Bytes → Except PackedFlaw (Nat × Bytes)
  | _, [] => .error .endOfInput
  | 0, byte :: rest =>
      if byte.toNat ≤ last then .ok (byte.toNat, rest) else .error .unendingVarint
  | more + 1, byte :: rest =>
      if byte.toNat < 128 then .ok (byte.toNat, rest)
      else do
        let (high, rest) ← readDigits last more rest
        pure (byte.toNat - 128 + 128 * high, rest)

/-- Reads a number of 32 bits: five bytes, the last of which holds four bits. -/
def read32 : Bytes → Except PackedFlaw (Nat × Bytes) :=
  readDigits 15 4

/-- Reads a number of 64 bits: ten bytes, the last of which holds one bit. -/
def read64 : Bytes → Except PackedFlaw (Nat × Bytes) :=
  readDigits 1 9

end Attest.Packed.Varint
