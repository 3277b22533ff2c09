import Attest.Json.Numeral

/-! # JSON tokens

    A text is a sequence of tokens with blanks between them.  A string token is
    well formed as soon as its escapes are; whether it denotes a text is kept in
    the token, because a surrogate escape may stand alone where nobody asks for
    the text. -/

namespace Attest.Json

/-- A token of a JSON text. -/
inductive Token
  | beginArray
  | endArray
  | beginObject
  | endObject
  | comma
  | colon
  | null
  | bool (value : Bool)
  | number (numeral : Numeral)
  | string (text : Option String)
  deriving DecidableEq, Repr

namespace Token

/-- A piece of a written string: a character, or an escaped 16-bit code unit. -/
inductive Piece
  | char (value : Char)
  | unit (code : Nat)
  deriving DecidableEq, Repr

/-- The character that a one-letter escape stands for. -/
def escaped? : Char → Option Char
  | '\"' => some '\"'
  | '\\' => some '\\'
  | '/' => some '/'
  | 'b' => some (Char.ofNat 8)
  | 'f' => some (Char.ofNat 12)
  | 'n' => some '\n'
  | 'r' => some '\r'
  | 't' => some '\t'
  | _ => none

/-- The value of a hexadecimal digit. -/
def hexValue? (c : Char) : Option Nat :=
  if c.isDigit then some (c.toNat - 48)
  else if 'a' ≤ c ∧ c ≤ 'f' then some (c.toNat - 87)
  else if 'A' ≤ c ∧ c ≤ 'F' then some (c.toNat - 55)
  else none

/-- The code unit that four hexadecimal digits spell. -/
def unit? (a b c d : Char) : Option Nat := do
  let a ← hexValue? a
  let b ← hexValue? b
  let c ← hexValue? c
  let d ← hexValue? d
  pure (((a * 16 + b) * 16 + c) * 16 + d)

/-- The pieces of a string up to its closing quote, latest first, and what
    follows the quote. -/
def stringBody (pieces : List Piece) : List Char → Option (List Piece × List Char)
  | [] => none
  | '\"' :: rest => some (pieces, rest)
  | '\\' :: 'u' :: a :: b :: c :: d :: rest =>
      match unit? a b c d with
      | some code => stringBody (.unit code :: pieces) rest
      | none => none
  | '\\' :: letter :: rest =>
      match escaped? letter with
      | some c => stringBody (.char c :: pieces) rest
      | none => none
  | c :: rest => if c.toNat < 32 then none else stringBody (.char c :: pieces) rest

/-- What follows a string is shorter than the string. -/
theorem length_stringBody {pieces out : List Piece} {text rest : List Char}
    (h : stringBody pieces text = some (out, rest)) : rest.length < text.length := by
  fun_induction stringBody pieces text <;> simp_all <;> omega

/-- Whether a code unit is the first half of a pair. -/
def isHigh (code : Nat) : Bool := decide (0xD800 ≤ code ∧ code < 0xDC00)

/-- Whether a code unit is the second half of a pair. -/
def isLow (code : Nat) : Bool := decide (0xDC00 ≤ code ∧ code < 0xE000)

/-- The text that the pieces denote, after the characters already read, latest
    first.  A first half has to be followed by a second half at once, and a
    second half stands nowhere else. -/
def text? (done : List Char) : List Piece → Option String
  | [] => some (String.ofList done.reverse)
  | .char c :: rest => text? (c :: done) rest
  | .unit code :: rest =>
      if isHigh code then
        match rest with
        | .unit low :: rest =>
            if isLow low then
              text? (Char.ofNat (0x10000 + (code - 0xD800) * 0x400 + (low - 0xDC00)) :: done) rest
            else none
        | _ => none
      else if isLow code then none
      else text? (Char.ofNat code :: done) rest

/-- The characters that a written number is made of. -/
def isNumeralChar (c : Char) : Bool :=
  c.isDigit || c == '-' || c == '+' || c == '.' || c == 'e' || c == 'E'

/-- The tokens of a text, after those already read, latest first. -/
def scan (tokens : List Token) : List Char → Option (List Token)
  | [] => some tokens.reverse
  | ' ' :: rest => scan tokens rest
  | '\t' :: rest => scan tokens rest
  | '\n' :: rest => scan tokens rest
  | '\r' :: rest => scan tokens rest
  | '[' :: rest => scan (.beginArray :: tokens) rest
  | ']' :: rest => scan (.endArray :: tokens) rest
  | '\x7b' :: rest => scan (.beginObject :: tokens) rest
  | '\x7d' :: rest => scan (.endObject :: tokens) rest
  | ',' :: rest => scan (.comma :: tokens) rest
  | ':' :: rest => scan (.colon :: tokens) rest
  | 'n' :: 'u' :: 'l' :: 'l' :: rest => scan (.null :: tokens) rest
  | 't' :: 'r' :: 'u' :: 'e' :: rest => scan (.bool true :: tokens) rest
  | 'f' :: 'a' :: 'l' :: 's' :: 'e' :: rest => scan (.bool false :: tokens) rest
  | '\"' :: rest =>
      match h : stringBody [] rest with
      | some (pieces, after) =>
          have : after.length < rest.length := length_stringBody h
          scan (.string (text? [] pieces.reverse) :: tokens) after
      | none => none
  | c :: rest =>
      if c.isDigit ∨ c = '-' then
        have : (rest.dropWhile isNumeralChar).length ≤ rest.length :=
          (List.dropWhile_sublist isNumeralChar).length_le
        match Numeral.ofChars? (c :: rest.takeWhile isNumeralChar) with
        | some numeral => scan (.number numeral :: tokens) (rest.dropWhile isNumeralChar)
        | none => none
      else none
termination_by text => text.length

end Token

/-- The tokens of a text, if it is made of tokens and blanks. -/
def tokens? (text : String) : Option (List Token) :=
  Token.scan [] text.toList

end Attest.Json
