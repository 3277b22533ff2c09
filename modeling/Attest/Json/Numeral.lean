import Attest.Json.Basic

/-! # JSON numerals

    A numeral is a sign, whole digits, an optional fraction and an optional
    exponent.  Without fraction and exponent it denotes an integer if that fits
    64 bits; every other numeral denotes a double.  The significand of a double
    is kept in 64 bits: digits that no longer fit are dropped, and each dropped
    whole digit raises the exponent by one. -/

namespace Attest.Json

/-- The parts of a written number. -/
structure Numeral where
  negative : Bool
  whole : List Char
  fraction : Option (List Char)
  exponent : Option (Bool × List Char)
  deriving DecidableEq, Repr

namespace Numeral

/-- The digits that the characters begin with, and what follows them. -/
def digits (text : List Char) : List Char × List Char :=
  (text.takeWhile Char.isDigit, text.dropWhile Char.isDigit)

/-- An optional exponent that ends the text: a sign bit (true for minus) and one
    or more digits. -/
def exponentPart : List Char → Option (Option (Bool × List Char))
  | [] => some none
  | mark :: rest =>
      if mark = 'e' ∨ mark = 'E' then
        let (negative, body) := match rest with
          | '-' :: body => (true, body)
          | '+' :: body => (false, body)
          | body => (false, body)
        if body ≠ [] ∧ body.all Char.isDigit then some (some (negative, body)) else none
      else none

/-- The numeral that a text is, if it is one: no leading zeros, and at least one
    digit in each part. -/
def ofChars? (text : List Char) : Option Numeral :=
  let (negative, body) := match text with
    | '-' :: body => (true, body)
    | body => (false, body)
  let (whole, afterWhole) := digits body
  if whole = [] ∨ (1 < whole.length ∧ whole.head? = some '0') then none
  else
    match afterWhole with
    | '.' :: rest =>
        let (fraction, afterFraction) := digits rest
        if fraction = [] then none
        else (exponentPart afterFraction).map fun exponent =>
          ⟨negative, whole, some fraction, exponent⟩
    | rest => (exponentPart rest).map fun exponent => ⟨negative, whole, none, exponent⟩

/-- Appends digits to a significand as long as it fits 64 bits; gives the
    significand and the digits that are left. -/
def extend (significand : Nat) : List Char → Nat × List Char
  | [] => (significand, [])
  | digit :: rest =>
      let next := 10 * significand + (digit.toNat - '0'.toNat)
      if next < UInt64.size then extend next rest else (significand, digit :: rest)

/-- The double that a numeral denotes, if it is finite. -/
def double? (n : Numeral) : Option Double :=
  let (wholePart, droppedWhole) := extend 0 n.whole
  let fraction := n.fraction.getD []
  let (significand, droppedFraction) := extend wholePart fraction
  let shift : Int := droppedWhole.length - (fraction.length - droppedFraction.length : Nat)
  let exponent : Int := match n.exponent with
    | none => 0
    | some (negative, digits) =>
        let value : Int := Nat.ofDigitChars 10 digits 0
        if negative then -value else value
  Double.ofScientific? n.negative significand (shift + exponent)

/-- The integer that a numeral denotes: no fraction, no exponent, not minus zero,
    and within 64 bits. -/
def integer? (n : Numeral) : Option Int :=
  match n.fraction, n.exponent with
  | none, none =>
      let value := Nat.ofDigitChars 10 n.whole 0
      if n.negative then
        if 0 < value ∧ value ≤ 0x8000000000000000 then some (-(value : Int)) else none
      else if value < UInt64.size then some value
      else none
  | _, _ => none

/-- The value of a numeral; none beyond the finite doubles. -/
def value? (n : Numeral) : Option Json :=
  match n.integer? with
  | some value => some (.integer value)
  | none => n.double?.map .double

end Numeral

end Attest.Json
