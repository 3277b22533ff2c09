import Attest.Bytes

/-! # Templates

    A template is a byte string in which one byte, the wildcard, stands for any
    byte.  A buffer is composed with a template by laying it at the first place
    where every template byte beneath it is the wildcard or the buffer's own
    byte; the wildcards beneath it take the buffer's bytes. -/

namespace Attest.Template

/-- The byte that matches every byte. -/
def wildcard : UInt8 := 63

/-- Why a buffer cannot be composed with a template. -/
inductive Mismatch
  | tooLong (buffer template : Nat)
  | noAlignment
  deriving DecidableEq, Repr

/-- The wording of a mismatch. -/
def Mismatch.message : Mismatch → String
  | .tooLong buffer template =>
      s!"buffer ({buffer} bytes) is longer than template ({template} bytes)"
  | .noAlignment => "buffer does not match the template at any offset"

/-- Lays the buffer at the beginning of the template, if it fits there: gives the
    template with its wildcards beneath the buffer filled. -/
def fill? (any : UInt8) : Bytes → Bytes → Option Bytes
  | [], template => some template
  | _ :: _, [] => none
  | b :: buffer, t :: template =>
      if t = any then (fill? any buffer template).map (b :: ·)
      else if t = b then (fill? any buffer template).map (t :: ·)
      else none

/-- Lays the buffer at the first place of the template where it fits. -/
def align? (any : UInt8) (buffer : Bytes) : Bytes → Option Bytes
  | [] => fill? any buffer []
  | t :: template =>
      match fill? any buffer (t :: template) with
      | some filled => some filled
      | none => (align? any buffer template).map (t :: ·)

/-- The template composed with the buffer. -/
def compose (any : UInt8) (buffer template : Bytes) : Except Mismatch Bytes :=
  if template.length < buffer.length then
    .error (.tooLong buffer.length template.length)
  else
    match align? any buffer template with
    | some composed => .ok composed
    | none => .error .noAlignment

end Attest.Template
