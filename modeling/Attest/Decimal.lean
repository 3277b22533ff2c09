/-! # Decimal integers

    Natural numbers are written without leading zeros.  Reading takes one or
    more ASCII digits, leading zeros included, and for integers one optional
    sign before them. -/

namespace Attest.Decimal

/-- The number that one or more ASCII digits denote. -/
def nat? (digits : List Char) : Option Nat :=
  if digits ≠ [] ∧ digits.all Char.isDigit then some (Nat.ofDigitChars 10 digits 0) else none

/-- The integer that one optional sign and one or more ASCII digits denote. -/
def int? : List Char → Option Int
  | '-' :: digits => (nat? digits).map fun n => -(n : Int)
  | '+' :: digits => (nat? digits).map fun n => (n : Int)
  | digits => (nat? digits).map fun n => (n : Int)

/-- The integers of a signed 64-bit word. -/
def FitsWord (n : Int) : Prop :=
  -0x8000000000000000 ≤ n ∧ n < 0x8000000000000000

instance (n : Int) : Decidable (FitsWord n) :=
  inferInstanceAs (Decidable (_ ∧ _))

/-- The signed 64-bit integer that a text denotes. -/
def word? (text : List Char) : Option Int :=
  (int? text).filter fun n => decide (FitsWord n)

/-- Writing a natural number and reading it back gives the number. -/
@[simp] theorem nat?_toDigits (n : Nat) : nat? (Nat.toDigits 10 n) = some n := by
  have h : (Nat.toDigits 10 n).all Char.isDigit = true := by
    rw [List.all_eq_true]
    intro c hc
    exact Nat.isDigit_of_mem_toDigits (by omega) (by omega) hc
  simp [nat?, h, Nat.toDigits_ne_nil, Nat.ofDigitChars_toDigits]

end Attest.Decimal
