/-! # Double precision numbers in exact arithmetic

    The finite magnitudes of double precision, in increasing order, are numbered
    from zero: the number of a magnitude is its *rank*, which is also the value of
    its 63 bits below the sign.  Every magnitude is a whole multiple of
    `2 ^ (-1074)`, so all arithmetic here is on natural numbers:

    * `scaled` gives the multiple that belongs to a rank;
    * `nearest` rounds a ratio to a rank, a tie going to the even one;
    * `shortest` finds the fewest decimal digits that round back to the rank. -/

namespace Attest

/-- A finite double: a sign and the rank of the magnitude. -/
structure Double where
  negative : Bool
  rank : Nat
  deriving DecidableEq, Repr

namespace Double

/-- How many ranks share a binade: `2 ^ 52`. -/
def binadeSize : Nat := 0x10000000000000

/-- The magnitude of a rank in units of `2 ^ (-1074)`. -/
def scaled (rank : Nat) : Nat :=
  let binade := rank / binadeSize
  let fraction := rank % binadeSize
  if binade = 0 then fraction else (fraction + binadeSize) <<< (binade - 1)

/-- The first rank that is not finite. -/
def infiniteRank : Nat := 2047 * binadeSize

/-- The quotient rounded to the nearest whole number, a tie to the even one. -/
def divideToEven (dividend divisor : Nat) : Nat :=
  let quotient := dividend / divisor
  let twice := 2 * (dividend % divisor)
  if twice < divisor ∨ (twice = divisor ∧ quotient % 2 = 0) then quotient else quotient + 1

/-- The rank nearest to a ratio, a tie going to the even one.  The significand
    is rounded in the binade of the ratio; a carry out of it is a carry into the
    rank's exponent part. -/
def nearest (numerator denominator : Nat) : Nat :=
  let units := numerator <<< 1074
  let binade := (units / denominator).log2 - 52
  binade * binadeSize + divideToEven units (denominator <<< binade)

/-- The rank of the rounded product of two magnitudes. -/
def multiply (a b : Nat) : Nat :=
  nearest (scaled a * scaled b) (1 <<< 2148)

/-- The rank of the rounded quotient of two magnitudes. -/
def divide (a b : Nat) : Nat :=
  nearest (scaled a) (scaled b)

/-- The rank of a power of ten. -/
def powerOfTen (exponent : Nat) : Nat :=
  nearest (Nat.pow 10 exponent) 1

/-- Divides a magnitude by a power of ten.  No table of doubles goes beyond
    `10 ^ 308`, so a larger power is divided out in several rounded steps. -/
def divideByPowerOfTen (rank exponent : Nat) : Nat :=
  if exponent ≤ 308 then divide rank (powerOfTen exponent)
  else if rank = 0 then 0
  else divideByPowerOfTen (divide rank (powerOfTen 308)) (exponent - 308)
termination_by exponent

/-- The double written as a significand and a power of ten: the significand is
    rounded, then scaled.  There is none beyond the largest finite one. -/
def ofScientific? (negative : Bool) (significand : Nat) (exponent : Int) : Option Double :=
  let rank := nearest significand 1
  match exponent with
  | .negSucc n => some ⟨negative, divideByPowerOfTen rank (n + 1)⟩
  | .ofNat n =>
      if n ≤ 308 then
        let product := multiply rank (powerOfTen n)
        if product < infiniteRank then some ⟨negative, product⟩ else none
      else if rank = 0 then some ⟨negative, 0⟩
      else none

/-! ## Shortest decimal digits -/

/-- A positive decimal number: its significant digits, the first of which is not
    zero, and the power of ten of the first digit. -/
structure Decimal where
  digits : List Char
  exponent : Int
  deriving DecidableEq, Repr

/-- The power of ten of the first decimal digit of a positive magnitude. -/
def leadingExponent (rank : Nat) : Int :=
  let shifted := (scaled rank * Nat.pow 10 400) >>> 1074
  ((Nat.toDigits 10 shifted).length : Int) - 401

/-- Whether `count * 10 ^ exponent` rounds to the rank: it lies between the
    midpoints to the two neighbours, which count as inside for an even rank. -/
def roundsBack (rank count : Nat) (exponent : Int) : Bool :=
  let up := Nat.pow 10 exponent.toNat
  let down := Nat.pow 10 (-exponent).toNat
  let point := (count * up) <<< 1075
  let low := (scaled (rank - 1) + scaled rank) * down
  let high := (scaled rank + scaled (rank + 1)) * down
  if rank % 2 = 0 then decide (low ≤ point ∧ point ≤ high) else decide (low < point ∧ point < high)

/-- The point of the decimal grid of spacing `10 ^ exponent` that rounds to the
    rank and is nearest to it, a tie going to the even one. -/
def gridPoint? (rank : Nat) (exponent : Int) : Option Nat :=
  let dividend := scaled rank * Nat.pow 10 (-exponent).toNat
  let divisor := Nat.pow 10 exponent.toNat <<< 1074
  let below := dividend / divisor
  match roundsBack rank below exponent, roundsBack rank (below + 1) exponent with
  | true, true => some (divideToEven dividend divisor)
  | true, false => some below
  | false, true => some (below + 1)
  | false, false => none

/-- The digits of a grid point without trailing zeros. -/
def Decimal.ofGridPoint (count : Nat) (exponent : Int) : Decimal :=
  let digits := Nat.toDigits 10 count
  ⟨(digits.reverse.dropWhile (· == '0')).reverse, exponent + digits.length - 1⟩

/-- The fewest digits that round to the positive rank, tried on finer and finer
    grids; seventeen always suffice. -/
def shortest (rank : Nat) : Decimal :=
  let leading := leadingExponent rank
  let hit := (List.range 17).findSome? fun (finer : Nat) =>
    let exponent := leading - (finer : Int)
    (gridPoint? rank exponent).map fun count => Decimal.ofGridPoint count exponent
  hit.getD ⟨['0'], 0⟩

end Double

end Attest
