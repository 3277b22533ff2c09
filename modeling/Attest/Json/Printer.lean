import Attest.Json.Basic

/-! # Writing JSON

    The compact form has no blanks; the indented form puts every item on a line
    of its own, two spaces deeper than its bracket.  Both escape only what has to
    be escaped: the quote, the backslash and the control characters. -/

namespace Attest

/-- The least power of ten of the first digit that is written without an
    exponent. -/
def Double.leastPositional : Int := -5

/-- The greatest power of ten of the first digit that is written without an
    exponent. -/
def Double.greatestPositional : Int := 15

/-- A decimal number with at least one digit on both sides of the point. -/
def Double.Decimal.positional (d : Decimal) : List Char :=
  match d.exponent with
  | .negSucc n => '0' :: '.' :: (List.replicate n '0' ++ d.digits)
  | .ofNat n =>
      let whole := d.digits.take (n + 1)
      let padding := List.replicate (n + 1 - whole.length) '0'
      let fraction := d.digits.drop (n + 1)
      whole ++ padding ++ '.' :: (if fraction = [] then ['0'] else fraction)

/-- A decimal number with one digit before the point and a signed exponent. -/
def Double.Decimal.scientific (d : Decimal) : List Char :=
  let fraction := d.digits.drop 1
  let mantissa := d.digits.take 1 ++ (if fraction = [] then [] else '.' :: fraction)
  let sign := if d.exponent < 0 then '-' else '+'
  mantissa ++ 'e' :: sign :: Nat.toDigits 10 d.exponent.natAbs

/-- The text of a double: the fewest digits that read back. -/
def Double.chars (d : Double) : List Char :=
  let magnitude :=
    if d.rank = 0 then ['0', '.', '0']
    else
      let decimal := shortest d.rank
      if leastPositional ≤ decimal.exponent ∧ decimal.exponent ≤ greatestPositional then
        decimal.positional
      else decimal.scientific
  if d.negative then '-' :: magnitude else magnitude

namespace Json

/-- The text of an integer. -/
def integerChars : Int → List Char
  | .ofNat n => Nat.toDigits 10 n
  | .negSucc n => '-' :: Nat.toDigits 10 (n + 1)

/-- A character as it is written inside a string. -/
def escape (c : Char) : List Char :=
  if c = '\"' then ['\\', '\"']
  else if c = '\\' then ['\\', '\\']
  else if c.toNat = 8 then ['\\', 'b']
  else if c.toNat = 9 then ['\\', 't']
  else if c.toNat = 10 then ['\\', 'n']
  else if c.toNat = 12 then ['\\', 'f']
  else if c.toNat = 13 then ['\\', 'r']
  else if c.toNat < 32 then
    ['\\', 'u', '0', '0', Nat.digitChar (c.toNat / 16), Nat.digitChar (c.toNat % 16)]
  else [c]

/-- A text as a JSON string. -/
def quote (text : String) : List Char :=
  '\"' :: (text.toList.flatMap escape ++ ['\"'])

mutual

/-- The compact form. -/
def chars : Json → List Char
  | null => ['n', 'u', 'l', 'l']
  | bool true => ['t', 'r', 'u', 'e']
  | bool false => ['f', 'a', 'l', 's', 'e']
  | integer value => integerChars value
  | double value => value.chars
  | string text => quote text
  | array [] => ['[', ']']
  | array (first :: rest) => '[' :: (chars first ++ itemsChars rest)
  | object [] => ['\x7b', '\x7d']
  | object ((key, value) :: rest) =>
      '\x7b' :: (quote key ++ ':' :: (chars value ++ membersChars rest))

/-- The items after the first one, and the closing bracket. -/
def itemsChars : List Json → List Char
  | [] => [']']
  | item :: rest => ',' :: (chars item ++ itemsChars rest)

/-- The members after the first one, and the closing bracket. -/
def membersChars : List (String × Json) → List Char
  | [] => ['\x7d']
  | (key, value) :: rest => ',' :: (quote key ++ ':' :: (chars value ++ membersChars rest))

end

/-- The compact text of a value. -/
def compact (value : Json) : String :=
  String.ofList value.chars

/-- A line break and two spaces per level. -/
def lineBreak (level : Nat) : List Char :=
  '\n' :: List.replicate (2 * level) ' '

mutual

/-- The indented form inside the given number of brackets. -/
def indentedChars (level : Nat) : Json → List Char
  | null => ['n', 'u', 'l', 'l']
  | bool true => ['t', 'r', 'u', 'e']
  | bool false => ['f', 'a', 'l', 's', 'e']
  | integer value => integerChars value
  | double value => value.chars
  | string text => quote text
  | array [] => ['[', ']']
  | array (first :: rest) =>
      '[' :: (lineBreak (level + 1) ++ indentedChars (level + 1) first ++
        indentedItems level rest)
  | object [] => ['\x7b', '\x7d']
  | object ((key, value) :: rest) =>
      '\x7b' :: (lineBreak (level + 1) ++ quote key ++ ':' :: ' ' ::
        (indentedChars (level + 1) value ++ indentedMembers level rest))

/-- The items after the first one, and the closing bracket. -/
def indentedItems (level : Nat) : List Json → List Char
  | [] => lineBreak level ++ [']']
  | item :: rest =>
      ',' :: (lineBreak (level + 1) ++ indentedChars (level + 1) item ++ indentedItems level rest)

/-- The members after the first one, and the closing bracket. -/
def indentedMembers (level : Nat) : List (String × Json) → List Char
  | [] => lineBreak level ++ ['\x7d']
  | (key, value) :: rest =>
      ',' :: (lineBreak (level + 1) ++ quote key ++ ':' :: ' ' ::
        (indentedChars (level + 1) value ++ indentedMembers level rest))

end

/-- The indented text of a value. -/
def indented (value : Json) : String :=
  String.ofList (value.indentedChars 0)

end Json

end Attest
