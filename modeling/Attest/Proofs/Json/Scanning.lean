import Attest.Json.Printer
import Attest.Json.Token

/-! # Scanning what was written

    `Spelled text tokens` says that scanning takes the text off the front of any
    characters as exactly these tokens.  A number ends where no character of a
    numeral follows, so the statement asks this of what comes after the text.

    Every character of a string is written as one piece that denotes it
    (`exists_denotes`), so a quoted text is scanned as the token of that text
    (`spelled_quote`). -/

namespace Attest.Json

/-! ## Numerals -/

namespace Numeral

/-- The numeral of a natural number. -/
def ofNat (n : Nat) : Numeral :=
  ⟨false, Nat.toDigits 10 n, none, none⟩

theorem isDigit_of_mem_toDigits {n : Nat} {c : Char} (h : c ∈ Nat.toDigits 10 n) :
    c.isDigit = true :=
  Nat.isDigit_of_mem_toDigits (by omega) (by omega) h

/-- Only zero is written with a leading zero. -/
theorem head?_toDigits {n : Nat} (h : 0 < n) : (Nat.toDigits 10 n).head? ≠ some '0' := by
  induction n using Nat.strongRecOn with
  | ind n ih =>
      by_cases hsmall : n < 10
      · rw [Nat.toDigits_of_lt_base hsmall]
        intro hzero
        exact absurd (Nat.digitChar_eq_zero.mp (Option.some.inj hzero)) (by omega)
      · have hhead := ih (n / 10) (by omega) (by omega)
        rw [Nat.toDigits_of_base_le (by omega) (by omega)]
        cases hdigits : Nat.toDigits 10 (n / 10) with
        | nil => exact absurd hdigits Nat.toDigits_ne_nil
        | cons c rest =>
            rw [hdigits] at hhead
            exact hhead

/-- Digits without a leading zero are a numeral. -/
theorem ofChars?_digits {text : List Char} (hdigits : ∀ c ∈ text, c.isDigit = true)
    (hne : text ≠ []) (hzero : ¬ (1 < text.length ∧ text.head? = some '0')) :
    ofChars? text = some ⟨false, text, none, none⟩ := by
  have hwhole : digits text = (text, []) := by
    have htake : (text ++ []).takeWhile Char.isDigit = text ++ [] :=
      List.takeWhile_append_of_pos hdigits
    have hdrop : (text ++ []).dropWhile Char.isDigit = [] := List.dropWhile_append_of_pos hdigits
    rw [List.append_nil] at htake hdrop
    rw [digits, htake, hdrop]
  unfold ofChars?
  split
  · next negative body hsign =>
      split at hsign
      · exact absurd (hdigits '-' List.mem_cons_self) (by decide)
      · cases hsign
        rw [hwhole]
        simp only [hne, hzero, or_self, if_false]
        rfl

/-- The digits of a natural number are its numeral. -/
theorem ofChars?_toDigits (n : Nat) : ofChars? (Nat.toDigits 10 n) = some (ofNat n) := by
  refine ofChars?_digits (fun _ => isDigit_of_mem_toDigits) Nat.toDigits_ne_nil ?_
  rintro ⟨hlength, hhead⟩
  rcases Nat.eq_zero_or_pos n with rfl | hpos
  · exact absurd hlength (by decide)
  · exact head?_toDigits hpos hhead

/-- The numeral of a natural number that fits 64 bits denotes the number. -/
theorem value?_ofNat {n : Nat} (h : n < UInt64.size) : (ofNat n).value? = some (.integer n) := by
  have hvalue : Nat.ofDigitChars 10 (Nat.toDigits 10 n) 0 = n :=
    Nat.ofDigitChars_toDigits (by omega) (by omega)
  have hinteger : (ofNat n).integer? = some (n : Int) := by
    rw [integer?, ofNat]
    simp only [hvalue, Bool.false_eq_true, if_false, if_pos h]
  rw [value?, hinteger]

end Numeral

namespace Token

/-! ## Strings -/

theorem unit?_control :
    ∀ n < 32, unit? '0' '0' (Nat.digitChar (n / 16)) (Nat.digitChar (n % 16)) = some n := by
  decide

/-- A letter behind a backslash is one character. -/
theorem stringBody_letter {letter c : Char} (h : escaped? letter = some c) (pieces : List Piece)
    (rest : List Char) :
    stringBody pieces ('\\' :: letter :: rest) = stringBody (.char c :: pieces) rest := by
  rw [stringBody, h]
  intro _ _ _ _ _ heq
  cases heq
  exact nomatch h

/-- A code unit behind a backslash is one unit. -/
theorem stringBody_unit {a b c d : Char} {code : Nat} (h : unit? a b c d = some code)
    (pieces : List Piece) (rest : List Char) :
    stringBody pieces ('\\' :: 'u' :: a :: b :: c :: d :: rest) =
      stringBody (.unit code :: pieces) rest := by
  rw [stringBody, h]

/-- Any other character stands for itself. -/
theorem stringBody_self {c : Char} (hquote : c ≠ '\"') (hbackslash : c ≠ '\\')
    (hcontrol : ¬ c.toNat < 32) (pieces : List Piece) (rest : List Char) :
    stringBody pieces (c :: rest) = stringBody (.char c :: pieces) rest := by
  rw [stringBody, if_neg hcontrol]
  · exact hquote
  · intro _ _ _ _ _ heq _
    exact hbackslash heq
  · intro _ _ heq _
    exact hbackslash heq

/-- A code unit outside the surrogates denotes its character. -/
theorem text?_unit {code : Nat} (h : code < 0xD800) (done : List Char) (later : List Piece) :
    text? done (.unit code :: later) = text? (Char.ofNat code :: done) later := by
  have hhigh : isHigh code = false := decide_eq_false (by omega)
  have hlow : isLow code = false := decide_eq_false (by omega)
  rw [text?.eq_def]
  simp only [hhigh, hlow, Bool.false_eq_true, if_false]

/-- The piece denotes the character, and is what the character is written as. -/
def Denotes (piece : Piece) (c : Char) : Prop :=
  (∀ pieces rest, stringBody pieces (escape c ++ rest) = stringBody (piece :: pieces) rest) ∧
    ∀ done later, text? done (piece :: later) = text? (c :: done) later

theorem denotes_letter {letter c : Char} (hescape : escape c = ['\\', letter])
    (h : escaped? letter = some c) : Denotes (.char c) c := by
  refine ⟨fun pieces rest => ?_, fun _ _ => rfl⟩
  rw [hescape]
  exact stringBody_letter h pieces rest

/-- Every character is written as one piece, which denotes it. -/
theorem exists_denotes (c : Char) : ∃ piece, Denotes piece c := by
  by_cases hquote : c = '\"'
  · subst hquote
    exact ⟨_, denotes_letter rfl rfl⟩
  by_cases hbackslash : c = '\\'
  · subst hbackslash
    exact ⟨_, denotes_letter rfl rfl⟩
  by_cases hletter : c.toNat = 8 ∨ c.toNat = 9 ∨ c.toNat = 10 ∨ c.toNat = 12 ∨ c.toNat = 13
  -- five control characters have letters, all others are written as code units
  · rw [← Char.ofNat_toNat c]
    rcases hletter with h | h | h | h | h <;> rw [h] <;> exact ⟨_, denotes_letter rfl rfl⟩
  obtain ⟨h8, h9, h10, h12, h13⟩ : c.toNat ≠ 8 ∧ c.toNat ≠ 9 ∧ c.toNat ≠ 10 ∧ c.toNat ≠ 12 ∧
      c.toNat ≠ 13 := by omega
  by_cases hcontrol : c.toNat < 32
  · refine ⟨.unit c.toNat, ?_, ?_⟩
    · intro pieces rest
      rw [escape, if_neg hquote, if_neg hbackslash, if_neg h8, if_neg h9, if_neg h10, if_neg h12,
        if_neg h13, if_pos hcontrol]
      exact stringBody_unit (unit?_control _ hcontrol) pieces rest
    · intro done later
      rw [text?_unit (by omega), Char.ofNat_toNat]
  · refine ⟨.char c, ?_, fun _ _ => rfl⟩
    intro pieces rest
    rw [escape, if_neg hquote, if_neg hbackslash, if_neg h8, if_neg h9, if_neg h10, if_neg h12,
      if_neg h13, if_neg hcontrol]
    exact stringBody_self hquote hbackslash hcontrol pieces rest

/-- The characters of a text are written as pieces that denote the text. -/
theorem exists_pieces (text : List Char) : ∃ pieces : List Piece,
    (∀ before rest, stringBody before (text.flatMap escape ++ '\"' :: rest) =
      some (pieces.reverse ++ before, rest)) ∧
      ∀ done, text? done pieces = some (String.ofList (done.reverse ++ text)) := by
  induction text with
  | nil =>
      refine ⟨[], fun before rest => ?_, fun done => ?_⟩
      · rw [List.flatMap_nil, List.nil_append, stringBody]
        rfl
      · rw [text?, List.append_nil]
  | cons c text ih =>
      obtain ⟨piece, hpiece, hdenotes⟩ := exists_denotes c
      obtain ⟨pieces, hpieces, htext⟩ := ih
      refine ⟨piece :: pieces, fun before rest => ?_, fun done => ?_⟩
      · rw [List.flatMap_cons, List.append_assoc, hpiece, hpieces, List.reverse_cons,
          List.append_assoc]
        rfl
      · rw [hdenotes, htext, List.reverse_cons, List.append_assoc]
        rfl

/-! ## Tokens -/

/-- No numeral goes on in what follows. -/
def Delimited (rest : List Char) : Prop :=
  ∀ c ∈ rest.head?, isNumeralChar c = false

/-- The text is scanned as the tokens, whatever stands before it, and whatever
    comes after it unless a numeral goes on. -/
def Spelled (text : List Char) (tokens : List Token) : Prop :=
  ∀ before rest, Delimited rest →
    scan before (text ++ rest) = scan (tokens.reverse ++ before) rest

/-- The text keeps a numeral from going on. -/
def Stops (text : List Char) : Prop :=
  ∀ rest, Delimited rest → Delimited (text ++ rest)

theorem Stops.cons {c : Char} (h : isNumeralChar c = false) (text : List Char) :
    Stops (c :: text) := by
  intro rest _ c' hc
  cases hc
  exact h

namespace Spelled

variable {text : List Char} {tokens : List Token}

theorem nil : Spelled [] [] := fun _ _ _ => rfl

/-- One text is scanned after another if it keeps a numeral from going on. -/
theorem append {others : List Char} {later : List Token} (htext : Spelled text tokens)
    (hothers : Spelled others later) (hstops : Stops others) :
    Spelled (text ++ others) (tokens ++ later) := by
  intro before rest hrest
  rw [List.append_assoc, htext _ _ (hstops rest hrest), hothers _ _ hrest, List.reverse_append,
    List.append_assoc]

/-- A mark is scanned in front of any text. -/
theorem mark {c : Char} {token : Token} (h : ∀ before rest, scan before (c :: rest) =
    scan (token :: before) rest) (htext : Spelled text tokens) :
    Spelled (c :: text) (token :: tokens) := by
  intro before rest hrest
  rw [List.cons_append, h, htext _ _ hrest, List.reverse_cons, List.append_assoc]
  rfl

theorem beginArray (htext : Spelled text tokens) : Spelled ('[' :: text) (.beginArray :: tokens) :=
  htext.mark fun _ _ => by rw [scan]

theorem endArray (htext : Spelled text tokens) : Spelled (']' :: text) (.endArray :: tokens) :=
  htext.mark fun _ _ => by rw [scan]

theorem comma (htext : Spelled text tokens) : Spelled (',' :: text) (.comma :: tokens) :=
  htext.mark fun _ _ => by rw [scan]

/-- Blanks in front of a text are passed over. -/
theorem blanks (htext : Spelled text tokens) {spaces : List Char}
    (h : ∀ c ∈ spaces, c = ' ' ∨ c = '\n') : Spelled (spaces ++ text) tokens := by
  induction spaces with
  | nil => exact htext
  | cons c spaces ih =>
      obtain ⟨hc, hspaces⟩ := List.forall_mem_cons.mp h
      intro before rest hrest
      rw [← ih hspaces before rest hrest]
      rcases hc with rfl | rfl
      · rw [List.cons_append, List.cons_append, scan]
      · rw [List.cons_append, List.cons_append, scan]

end Spelled

/-- A quote begins a string token. -/
theorem scan_string {rest after : List Char} {pieces : List Piece}
    (h : stringBody [] rest = some (pieces, after)) (before : List Token) :
    scan before ('\"' :: rest) = scan (.string (text? [] pieces.reverse) :: before) after := by
  rw [scan]
  split
  · next heq =>
      cases h.symm.trans heq
      rfl
  · next heq => cases h.symm.trans heq

/-- A digit begins a number token. -/
theorem scan_number {c : Char} {rest : List Char} {numeral : Numeral} (hc : c.isDigit = true)
    (h : Numeral.ofChars? (c :: rest.takeWhile isNumeralChar) = some numeral)
    (before : List Token) :
    scan before (c :: rest) =
      scan (.number numeral :: before) (rest.dropWhile isNumeralChar) := by
  rw [scan]
  · rw [if_pos (Or.inl hc), h]
  -- the other tokens begin with characters that are no digits
  all_goals
    intros
    subst_vars
    exact absurd hc (by decide)

theorem spelled_quote (text : String) : Spelled (quote text) [.string (some text)] := by
  intro before rest hrest
  obtain ⟨pieces, hpieces, htext⟩ := exists_pieces text.toList
  have hbody : stringBody [] (text.toList.flatMap escape ++ ['\"'] ++ rest) =
      some (pieces.reverse, rest) := by
    rw [List.append_assoc, List.singleton_append, hpieces, List.append_nil]
  rw [quote, List.cons_append, scan_string hbody, List.reverse_reverse, htext, List.reverse_nil,
    List.nil_append, String.ofList_toList]
  rfl

theorem spelled_toDigits (n : Nat) :
    Spelled (Nat.toDigits 10 n) [.number (Numeral.ofNat n)] := by
  intro before rest hrest
  cases hdigits : Nat.toDigits 10 n with
  | nil => exact absurd hdigits Nat.toDigits_ne_nil
  | cons c ds =>
      have hall : ∀ d ∈ c :: ds, isNumeralChar d = true := by
        intro d hd
        rw [← hdigits] at hd
        rw [isNumeralChar, Numeral.isDigit_of_mem_toDigits hd]
        rfl
      obtain ⟨hc, hds⟩ := List.forall_mem_cons.mp hall
      -- the numeral takes all digits and stops where the text ends
      have hstop : rest.takeWhile isNumeralChar = [] ∧ rest.dropWhile isNumeralChar = rest := by
        cases rest with
        | nil => exact ⟨rfl, rfl⟩
        | cons d later =>
            have hd : ¬ isNumeralChar d = true := Bool.eq_false_iff.mp (hrest d rfl)
            exact ⟨List.takeWhile_cons_of_neg hd, List.dropWhile_cons_of_neg hd⟩
      have hdigit : c.isDigit = true :=
        Numeral.isDigit_of_mem_toDigits (hdigits ▸ List.mem_cons_self : c ∈ Nat.toDigits 10 n)
      have hnumeral : Numeral.ofChars? (c :: (ds ++ rest).takeWhile isNumeralChar) =
          some (Numeral.ofNat n) := by
        rw [List.takeWhile_append_of_pos hds, hstop.1, List.append_nil, ← hdigits]
        exact Numeral.ofChars?_toDigits n
      rw [List.cons_append, scan_number hdigit hnumeral, List.dropWhile_append_of_pos hds, hstop.2]
      rfl

end Token

end Attest.Json
