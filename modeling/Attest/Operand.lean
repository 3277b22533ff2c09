import Attest.Decimal
import Attest.Fault

/-! # Operands

    An operand says where the bytes of an instruction come from.  In text it is a
    token: a kind, a colon and a body.

    * `s:` a literal text;
    * `h:` hexadecimal bytes;
    * `m:-1` the current buffer, `m:n` a memory slot;
    * `a:n` a positional argument of the enclosing call, counted from one;
    * `r:n` up to so many bytes of the source, `r:*` all that is left of it. -/

namespace Attest

/-- How much an operand reads from the source. -/
inductive ReadLength
  | bounded (count : UInt64)
  | rest
  deriving DecidableEq, Repr

/-- Where bytes come from. -/
inductive Operand
  | literal (bytes : Bytes)
  | hex (bytes : Bytes)
  | buffer
  | slot (index : UInt32)
  | argument (index : UInt64)
  | read (length : ReadLength)
  deriving DecidableEq, Repr

namespace Operand

/-- The token of an operand.  A literal that is no text is written in
    hexadecimal. -/
def token : Operand → String
  | literal bytes =>
      match Bytes.toText? bytes with
      | some text => "s:" ++ text
      | none => "h:" ++ Hex.encode bytes
  | hex bytes => "h:" ++ Hex.encode bytes
  | buffer => "m:-1"
  | slot index => "m:" ++ toString index.toNat
  | argument index => "a:" ++ toString index.toNat
  | read (.bounded count) => "r:" ++ toString count.toNat
  | read .rest => "r:*"

/-- The integer in the body of a token. -/
def integer (token : String) (body : List Char) : Except Fault Int :=
  match Decimal.word? body with
  | some value => .ok value
  | none => .error (.ofDefect (.notAnInteger token))

/-- The memory slot with an index. -/
def slotAt (index : Int) : Except Fault UInt32 :=
  if 0 ≤ index ∧ index < UInt32.size then .ok (UInt32.ofNat index.toNat)
  else .error (.ofDefect (.invalidSlot index))

/-- The operand of a kind with a body. -/
def ofParts (token : String) (kind body : List Char) : Except Fault Operand :=
  match kind with
  | ['s'] => .ok (literal (Bytes.ofText (String.ofList body)))
  | ['h'] =>
      match Hex.decode (String.ofList body) with
      | .ok bytes => .ok (hex bytes)
      | .error flaw => .error (.ofDefect (.invalidHex (String.ofList body) flaw))
  | ['m'] => do
      let index ← integer token body
      if index = -1 then pure buffer else slot <$> slotAt index
  | ['a'] => do
      let index ← integer token body
      if index < 1 then .error (.ofDefect (.argumentBelowOne token))
      else pure (argument (UInt64.ofNat index.toNat))
  | ['r'] =>
      if body = ['*'] then .ok (read .rest)
      else do
        let count ← integer token body
        if count < 0 then .error (.ofBreach (.negativeLength count))
        else pure (read (.bounded (UInt64.ofNat count.toNat)))
  | _ => .error (.ofDefect (.unknownKind (String.ofList kind) token))

/-- The operand that a token stands for: the kind ends at the first colon. -/
def ofToken (token : String) : Except Fault Operand :=
  match token.toList.dropWhile (· ≠ ':') with
  | [] => .error (.ofDefect (.missingColon token))
  | _ :: body => ofParts token (token.toList.takeWhile (· ≠ ':')) body

/-- Whether the operand takes bytes from the source. -/
def readsSource : Operand → Bool
  | read _ => true
  | _ => false

end Operand

end Attest
