import Attest.Proofs.Operand

/-! # The grammar of tokens

    What a token stands for, said without reading it: a numeral denotes a number in base ten,
    an integer is a numeral behind at most one sign, hexadecimal text spells bytes two digits
    at a time, and a token is a kind, a colon and a body that fits the kind
    (`Operand.Denotes`).  Reading accepts exactly this grammar and gives what is denoted.

    * Numbers: `Decimal.nat?_eq_some_iff`, `int?_eq_some_iff` and `word?_eq_some_iff`.
    * Bytes: `Hex.decode_eq_ok_iff`.  Reading works on the bytes of a text; a byte that is a
      digit is a character of its own, so the text can be had back from them.
    * Tokens: `Operand.ofToken_eq_ok_iff_denotes`.
    * Tokens that are refused: a negative number of bytes breaks the stream policy where it
      fits a signed word (`NegativeRead.ofToken_eq`), and all else is a defect
      (`ofToken_eq_error`).

    Many tokens denote one operand.  The one that the operand is written as is read as the
    operand again. -/

namespace Attest

/-! ## Numbers -/

namespace Decimal

/-- A row of digits denotes a number in base ten. -/
inductive Numeral : List Char → Nat → Prop
  | digit {d : Nat} (h : d < 10) : Numeral [Nat.digitChar d] d
  | snoc {digits : List Char} {n d : Nat} (front : Numeral digits n) (h : d < 10) :
      Numeral (digits ++ [Nat.digitChar d]) (10 * n + d)

/-- A numeral, behind one sign or none, denotes an integer. -/
inductive Denotes : List Char → Int → Prop
  | unsigned {digits : List Char} {n : Nat} (h : Numeral digits n) : Denotes digits n
  | plus {digits : List Char} {n : Nat} (h : Numeral digits n) : Denotes ('+' :: digits) n
  | minus {digits : List Char} {n : Nat} (h : Numeral digits n) : Denotes ('-' :: digits) (-n)

/-- A digit is the character of a number below ten. -/
theorem exists_digitChar {c : Char} (h : c.isDigit = true) : ∃ d < 10, c = Nat.digitChar d := by
  obtain ⟨hlow, hhigh⟩ := Char.isDigit_iff_toNat.mp h
  have hlow : 48 ≤ c.toNat := hlow
  have hhigh : c.toNat ≤ 57 := hhigh
  refine ⟨c.toNat - 48, by omega, Char.toNat_inj.mp ?_⟩
  rw [Nat.toNat_digitChar_of_lt_ten (by omega)]
  omega

theorem Numeral.isDigit {digits : List Char} {n : Nat} (h : Numeral digits n) :
    ∀ c ∈ digits, c.isDigit = true := by
  induction h with
  | digit hd =>
      rintro c hc
      rw [List.mem_singleton.mp hc, Nat.isDigit_digitChar]
      exact decide_eq_true hd
  | snoc _ hd ih =>
      intro c hc
      rcases List.mem_append.mp hc with hfront | hlast
      · exact ih c hfront
      · rw [List.mem_singleton.mp hlast, Nat.isDigit_digitChar]
        exact decide_eq_true hd

theorem Numeral.ne_nil {digits : List Char} {n : Nat} (h : Numeral digits n) : digits ≠ [] := by
  cases h with
  | digit => exact List.cons_ne_nil _ _
  | snoc => exact List.append_ne_nil_of_right_ne_nil _ (List.cons_ne_nil _ _)

/-- A numeral does not begin with a sign. -/
theorem Numeral.ne_sign {digits : List Char} {n : Nat} (h : Numeral digits n) {sign : Char}
    (hsign : sign.isDigit = false) (rest : List Char) : digits ≠ sign :: rest := by
  rintro rfl
  exact Bool.false_ne_true (hsign.symm.trans (h.isDigit sign List.mem_cons_self))

theorem Numeral.ofDigitChars_eq {digits : List Char} {n : Nat} (h : Numeral digits n) :
    Nat.ofDigitChars 10 digits 0 = n := by
  induction h with
  | digit hd =>
      rw [Nat.ofDigitChars_cons_digitChar_of_lt_ten hd, Nat.ofDigitChars_nil, Nat.mul_zero,
        Nat.zero_add]
  | snoc _ hd ih =>
      rw [Nat.ofDigitChars_append, ih, Nat.ofDigitChars_cons_digitChar_of_lt_ten hd,
        Nat.ofDigitChars_nil]

/-- Further digits make a longer numeral. -/
theorem Numeral.append {front : List Char} {n : Nat} (h : Numeral front n) {rest : List Char}
    (hrest : ∀ c ∈ rest, c.isDigit = true) :
    Numeral (front ++ rest) (Nat.ofDigitChars 10 rest n) := by
  induction rest generalizing front n with
  | nil =>
      rw [List.append_nil, Nat.ofDigitChars_nil]
      exact h
  | cons c rest ih =>
      obtain ⟨hc, hothers⟩ := List.forall_mem_cons.mp hrest
      obtain ⟨d, hd, rfl⟩ := exists_digitChar hc
      rw [Nat.ofDigitChars_cons_digitChar_of_lt_ten hd, List.append_cons]
      exact ih (.snoc h hd) hothers

/-- Digits, at least one of them, are a numeral. -/
theorem numeral_of_isDigit {digits : List Char} (hne : digits ≠ [])
    (h : ∀ c ∈ digits, c.isDigit = true) : Numeral digits (Nat.ofDigitChars 10 digits 0) := by
  obtain ⟨c, rest, rfl⟩ := List.exists_cons_of_ne_nil hne
  obtain ⟨hc, hrest⟩ := List.forall_mem_cons.mp h
  obtain ⟨d, hd, rfl⟩ := exists_digitChar hc
  rw [Nat.ofDigitChars_cons_digitChar_of_lt_ten hd, Nat.mul_zero, Nat.zero_add]
  exact Numeral.append (.digit hd) hrest

/-- Exactly the numerals are read, as the numbers that they denote. -/
theorem nat?_eq_some_iff {digits : List Char} {n : Nat} :
    nat? digits = some n ↔ Numeral digits n := by
  unfold nat?
  constructor
  · intro h
    split at h
    · next hdigits =>
        cases h
        exact numeral_of_isDigit hdigits.1 (List.all_eq_true.mp hdigits.2)
    · exact nomatch h
  · intro h
    rw [if_pos ⟨h.ne_nil, List.all_eq_true.mpr h.isDigit⟩, h.ofDigitChars_eq]

/-- What is read behind a sign is a numeral. -/
theorem exists_numeral {digits : List Char} {sign : Int → Int} {value : Int}
    (h : (nat? digits : Option Int).map sign = some value) :
    ∃ n : Nat, Numeral digits n ∧ value = sign n := by
  cases hnat : nat? digits with
  | none =>
      rw [hnat] at h
      exact nomatch h
  | some n =>
      rw [hnat] at h
      exact ⟨n, nat?_eq_some_iff.mp hnat, (Option.some.inj h).symm⟩

/-- Exactly the integers are read, as the numbers that they denote. -/
theorem int?_eq_some_iff {text : List Char} {value : Int} :
    int? text = some value ↔ Denotes text value := by
  constructor
  · intro h
    unfold int? at h
    split at h
    · obtain ⟨n, hn, rfl⟩ := exists_numeral h
      exact .minus hn
    · obtain ⟨n, hn, rfl⟩ := exists_numeral h
      exact .plus hn
    · obtain ⟨n, hn, rfl⟩ := exists_numeral h
      exact .unsigned hn
  · intro h
    cases h with
    | unsigned h =>
        unfold int?
        split
        · exact absurd rfl (h.ne_sign (by decide) _)
        · exact absurd rfl (h.ne_sign (by decide) _)
        · rw [nat?_eq_some_iff.mpr h]
          rfl
    | plus h =>
        rw [int?, nat?_eq_some_iff.mpr h]
        rfl
    | minus h =>
        rw [int?, nat?_eq_some_iff.mpr h]
        rfl

/-- A star is no integer. -/
theorem Denotes.ne_star {body : List Char} {value : Int} (h : Denotes body value) :
    body ≠ ['*'] := by
  rintro rfl
  exact nomatch int?_eq_some_iff.mpr h

/-- Exactly the integers of a signed word are read. -/
theorem word?_eq_some_iff {text : List Char} {value : Int} :
    word? text = some value ↔ Denotes text value ∧ FitsWord value := by
  rw [word?, Option.filter_eq_some_iff, int?_eq_some_iff, decide_eq_true_eq]

end Decimal

/-! ## Hexadecimal bytes -/

namespace Hex

/-- The character is the digit of a number below sixteen, in either case. -/
def IsDigit (c : Char) (n : Nat) : Prop :=
  n < 16 ∧ (c = Nat.digitChar n ∨ c = (Nat.digitChar n).toUpper)

/-- A text spells bytes, each by two digits with the high half first. -/
inductive Spells : List Char → Bytes → Prop
  | nil : Spells [] []
  | cons {high low : Char} {h l : Nat} {text : List Char} {bytes : Bytes}
      (hhigh : IsDigit high h) (hlow : IsDigit low l) (hrest : Spells text bytes) :
      Spells (high :: low :: text) (UInt8.ofNat (16 * h + l) :: bytes)

/-- Each digit is one byte, which has its value. -/
theorem map_value?_digits :
    ∀ n < 16, (String.utf8EncodeChar (Nat.digitChar n)).map value? = [some n] ∧
      (String.utf8EncodeChar (Nat.digitChar n).toUpper).map value? = [some n] := by
  decide

theorem toNat_letters :
    ∀ n < 16, 10 ≤ n → (Nat.digitChar n).toNat = 87 + n ∧
      (Nat.digitChar n).toUpper.toNat = 55 + n := by
  decide

theorem IsDigit.exists_byte {c : Char} {n : Nat} (h : IsDigit c n) :
    ∃ byte, String.utf8EncodeChar c = [byte] ∧ value? byte = some n := by
  obtain ⟨hn, rfl | rfl⟩ := h
  · exact List.map_eq_singleton_iff.mp (map_value?_digits n hn).1
  · exact List.map_eq_singleton_iff.mp (map_value?_digits n hn).2

/-- An ASCII character is the byte with its code. -/
theorem utf8EncodeChar_of_toNat {c : Char} {byte : UInt8} (h : c.toNat = byte.toNat)
    (hascii : byte.toNat ≤ 127) : String.utf8EncodeChar c = [byte] := by
  have hval : c.val.toNat = byte.toNat := h
  rw [String.utf8EncodeChar, hval]
  show (if byte.toNat ≤ 127 then [UInt8.ofNat byte.toNat] else _) = _
  rw [if_pos hascii, UInt8.ofNat_toNat]

/-- A byte that has a value is the byte of a digit. -/
theorem exists_isDigit {byte : UInt8} {n : Nat} (h : value? byte = some n) :
    ∃ c, IsDigit c n ∧ String.utf8EncodeChar c = [byte] := by
  rw [value?] at h
  split at h
  · next hcode =>
      cases h
      refine ⟨_, ⟨by omega, Or.inl rfl⟩, utf8EncodeChar_of_toNat ?_ (by omega)⟩
      rw [Nat.toNat_digitChar_of_lt_ten (by omega)]
      omega
  · split at h
    · next hcode =>
        cases h
        refine ⟨_, ⟨by omega, Or.inl rfl⟩, utf8EncodeChar_of_toNat ?_ (by omega)⟩
        rw [(toNat_letters _ (by omega) (by omega)).1]
        omega
    · split at h
      · next hcode =>
          cases h
          refine ⟨_, ⟨by omega, Or.inr rfl⟩, utf8EncodeChar_of_toNat ?_ (by omega)⟩
          rw [(toNat_letters _ (by omega) (by omega)).2]
          omega
      · exact nomatch h

theorem digit_eq_ok_iff {byte : UInt8} {position n : Nat} :
    digit byte position = .ok n ↔ value? byte = some n := by
  unfold digit
  cases value? byte with
  | none => exact ⟨nofun, nofun⟩
  | some value => rw [Except.ok.injEq, Option.some.injEq]

/-- Bytes in pairs that are read are those of a text that spells what is read. -/
theorem exists_spells {digits bytes : Bytes} (position : Nat)
    (h : pairs position digits = .ok bytes) (heven : digits.length % 2 = 0) :
    ∃ text, Spells text bytes ∧ text.flatMap String.utf8EncodeChar = digits := by
  fun_induction pairs position digits generalizing bytes with
  | case1 position high low rest ih =>
      obtain ⟨hvalue, hhigh, h⟩ := bind_eq_ok.mp h
      obtain ⟨lvalue, hlow, h⟩ := bind_eq_ok.mp h
      obtain ⟨others, hothers, h⟩ := bind_eq_ok.mp h
      cases h
      obtain ⟨c, hc, hcbyte⟩ := exists_isDigit (digit_eq_ok_iff.mp hhigh)
      obtain ⟨d, hd, hdbyte⟩ := exists_isDigit (digit_eq_ok_iff.mp hlow)
      rw [List.length_cons, List.length_cons] at heven
      obtain ⟨text, htext, hrest⟩ := ih hothers (by omega)
      refine ⟨c :: d :: text, .cons hc hd htext, ?_⟩
      rw [List.flatMap_cons, List.flatMap_cons, hcbyte, hdbyte, hrest]
      rfl
  | case2 digits _ hshort =>
      cases h
      -- what is no pair is nothing, because a single digit is no even number of them
      cases digits with
      | nil => exact ⟨[], .nil, rfl⟩
      | cons high rest =>
          cases rest with
          | nil => exact nomatch heven
          | cons low rest => exact (hshort high low rest rfl).elim

/-- The bytes of a text that spells bytes are read in pairs as these. -/
theorem Spells.pairs_eq {text : List Char} {bytes : Bytes} (h : Spells text bytes) :
    (text.flatMap String.utf8EncodeChar).length % 2 = 0 ∧
      ∀ position, pairs position (text.flatMap String.utf8EncodeChar) = .ok bytes := by
  induction h with
  | nil => exact ⟨rfl, fun _ => rfl⟩
  | cons hhigh hlow _ ih =>
      obtain ⟨high, hhighbyte, hhighvalue⟩ := hhigh.exists_byte
      obtain ⟨low, hlowbyte, hlowvalue⟩ := hlow.exists_byte
      obtain ⟨heven, hpairs⟩ := ih
      rw [List.flatMap_cons, List.flatMap_cons, hhighbyte, hlowbyte]
      constructor
      · rw [List.singleton_append, List.singleton_append, List.length_cons, List.length_cons]
        omega
      · intro position
        refine bind_eq_ok.mpr ⟨_, digit_eq_ok_iff.mpr hhighvalue, ?_⟩
        refine bind_eq_ok.mpr ⟨_, digit_eq_ok_iff.mpr hlowvalue, ?_⟩
        exact bind_eq_ok.mpr ⟨_, hpairs _, rfl⟩

/-- Exactly the texts that spell bytes are read, as these bytes. -/
theorem decode_eq_ok_iff {text : String} {bytes : Bytes} :
    decode text = .ok bytes ↔ Spells text.toList bytes := by
  dsimp only [decode]
  constructor
  · intro h
    split at h
    · exact nomatch h
    · next hodd =>
        obtain ⟨spelling, hspells, hbytes⟩ := exists_spells 0 h (by omega)
        rw [← Bytes.ofText_ofList] at hbytes
        rw [← Bytes.ofText_inj hbytes, String.toList_ofList]
        exact hspells
  · intro h
    obtain ⟨heven, hpairs⟩ := h.pairs_eq
    rw [← Bytes.ofText_ofList, String.ofList_toList] at heven hpairs
    show (if _ then _ else _) = _
    rw [if_neg (by omega), hpairs]

end Hex

namespace Operand

/-! ## Tokens -/

/-- A token stands for an operand: its kind says what its body is, and numbers are in the
    range of their kind. -/
inductive Denotes : List Char → Operand → Prop
  | literal (text : List Char) :
      Denotes ('s' :: ':' :: text) (literal (Bytes.ofText (String.ofList text)))
  | hex {text : List Char} {bytes : Bytes} (h : Hex.Spells text bytes) :
      Denotes ('h' :: ':' :: text) (hex bytes)
  | buffer {body : List Char} (h : Decimal.Denotes body (-1)) :
      Denotes ('m' :: ':' :: body) buffer
  | slot {body : List Char} {index : UInt32} (h : Decimal.Denotes body index.toNat) :
      Denotes ('m' :: ':' :: body) (slot index)
  | argument {body : List Char} {index : UInt64} (h : Decimal.Denotes body index.toNat)
      (hfirst : 1 ≤ index.toNat) (hlast : index.toNat ≤ 0x7FFFFFFFFFFFFFFF) :
      Denotes ('a' :: ':' :: body) (argument index)
  | bounded {body : List Char} {count : UInt64} (h : Decimal.Denotes body count.toNat)
      (hlast : count.toNat ≤ 0x7FFFFFFFFFFFFFFF) :
      Denotes ('r' :: ':' :: body) (read (.bounded count))
  | rest : Denotes ['r', ':', '*'] (read .rest)

theorem integer_eq_ok_iff {token : String} {body : List Char} {value : Int} :
    integer token body = .ok value ↔ Decimal.Denotes body value ∧ Decimal.FitsWord value := by
  rw [← Decimal.word?_eq_some_iff]
  unfold integer
  cases Decimal.word? body with
  | none => exact ⟨nofun, nofun⟩
  | some word => rw [Except.ok.injEq, Option.some.injEq]

theorem slotAt_eq_ok_iff {value : Int} {index : UInt32} :
    slotAt value = .ok index ↔ value = index.toNat := by
  constructor
  · intro h
    unfold slotAt at h
    split at h
    · next hrange =>
        cases h
        have hlast : value < 4294967296 := hrange.2
        rw [UInt32.toNat_ofNat_of_lt' (show value.toNat < 4294967296 by omega)]
        omega
    · exact nomatch h
  · rintro rfl
    exact slotAt_toNat index

/-- A natural number that is read fits a word of 64 bits. -/
theorem toNat_ofNat_of_fitsWord {value : Int} (hfits : Decimal.FitsWord value) (h : 0 ≤ value) :
    ((UInt64.ofNat value.toNat).toNat : Int) = value := by
  have hlast := hfits.2
  rw [UInt64.toNat_ofNat_of_lt' (show value.toNat < 18446744073709551616 by omega)]
  omega

/-- What is read from the parts of a token is denoted by them. -/
theorem denotes_of_ofParts {token : String} {kind body : List Char} {operand : Operand}
    (h : ofParts token kind body = .ok operand) : Denotes (kind ++ ':' :: body) operand := by
  unfold ofParts at h
  split at h
  · cases h
    exact .literal body
  · split at h
    · next bytes hbytes =>
        cases h
        have hspells := Hex.decode_eq_ok_iff.mp hbytes
        rw [String.toList_ofList] at hspells
        exact .hex hspells
    · exact nomatch h
  · obtain ⟨value, hvalue, h⟩ := bind_eq_ok.mp h
    obtain ⟨hdenotes, -⟩ := integer_eq_ok_iff.mp hvalue
    split at h
    · next hbuffer =>
        cases h
        exact .buffer (hbuffer ▸ hdenotes)
    · obtain ⟨index, hindex, rfl⟩ := map_eq_ok.mp h
      exact .slot (slotAt_eq_ok_iff.mp hindex ▸ hdenotes)
  · obtain ⟨value, hvalue, h⟩ := bind_eq_ok.mp h
    obtain ⟨hdenotes, hfits⟩ := integer_eq_ok_iff.mp hvalue
    split at h
    · exact nomatch h
    · next hfirst =>
        cases h
        have hindex := toNat_ofNat_of_fitsWord hfits (by omega)
        have hlast := hfits.2
        exact .argument (by rwa [hindex]) (by omega) (by omega)
  · split at h
    · next hstar =>
        cases h
        exact hstar ▸ .rest
    · obtain ⟨value, hvalue, h⟩ := bind_eq_ok.mp h
      obtain ⟨hdenotes, hfits⟩ := integer_eq_ok_iff.mp hvalue
      split at h
      · exact nomatch h
      · next hnegative =>
          cases h
          have hcount := toNat_ofNat_of_fitsWord hfits (by omega)
          have hlast := hfits.2
          exact .bounded (by rwa [hcount]) (by omega)
  · exact nomatch h

/-- A token with a kind of one character is read by its kind. -/
theorem ofToken_eq_ofParts_kind {token : String} {kind : Char} {body : List Char}
    (hkind : kind ≠ ':') (h : token.toList = kind :: ':' :: body) :
    ofToken token = ofParts token [kind] body :=
  ofToken_eq_ofParts h fun hcolon => hkind (List.mem_singleton.mp hcolon).symm

/-- What a token denotes is read from it. -/
theorem ofToken_of_denotes {token : String} {operand : Operand}
    (h : Denotes token.toList operand) : ofToken token = .ok operand := by
  generalize htoken : token.toList = chars at h
  cases h with
  | literal text =>
      rw [ofToken_eq_ofParts_kind (by decide) htoken]
      rfl
  | @hex text bytes h =>
      have hdecode : Hex.decode (String.ofList text) = .ok bytes :=
        Hex.decode_eq_ok_iff.mpr (by rwa [String.toList_ofList])
      rw [ofToken_eq_ofParts_kind (by decide) htoken, ofParts, hdecode]
  | buffer h =>
      rw [ofToken_eq_ofParts_kind (by decide) htoken, ofParts]
      exact bind_eq_ok.mpr ⟨-1, integer_eq_ok_iff.mpr ⟨h, by decide⟩, rfl⟩
  | @slot body index h =>
      have hindex : index.toNat < 4294967296 := index.toNat_lt
      rw [ofToken_eq_ofParts_kind (by decide) htoken, ofParts]
      refine bind_eq_ok.mpr ⟨index.toNat, integer_eq_ok_iff.mpr ⟨h, by omega, by omega⟩, ?_⟩
      rw [if_neg (by omega), slotAt_toNat]
      rfl
  | @argument body index h hfirst hlast =>
      rw [ofToken_eq_ofParts_kind (by decide) htoken, ofParts]
      refine bind_eq_ok.mpr ⟨index.toNat, integer_eq_ok_iff.mpr ⟨h, by omega, by omega⟩, ?_⟩
      rw [if_neg (by omega), Int.toNat_natCast, UInt64.ofNat_toNat]
      rfl
  | @bounded body count h hlast =>
      rw [ofToken_eq_ofParts_kind (by decide) htoken, ofParts, if_neg h.ne_star]
      refine bind_eq_ok.mpr ⟨count.toNat, integer_eq_ok_iff.mpr ⟨h, by omega, by omega⟩, ?_⟩
      rw [if_neg (by omega), Int.toNat_natCast, UInt64.ofNat_toNat]
      rfl
  | rest =>
      rw [ofToken_eq_ofParts_kind (by decide) htoken, ofParts, if_pos rfl]

/-- Exactly the tokens that denote an operand are read, as that operand. -/
theorem ofToken_eq_ok_iff_denotes {token : String} {operand : Operand} :
    ofToken token = .ok operand ↔ Denotes token.toList operand := by
  refine ⟨fun h => ?_, ofToken_of_denotes⟩
  obtain ⟨kind, body, htoken, -, hparts⟩ := ofToken_eq_ok.mp h
  rw [htoken]
  exact denotes_of_ofParts hparts

/-! ## Tokens that are refused -/

/-- A token asks for a negative number of bytes. -/
def NegativeRead (token : String) (count : Int) : Prop :=
  ∃ body, token.toList = 'r' :: ':' :: body ∧ Decimal.Denotes body count ∧ count < 0

theorem integer_eq_error {token : String} {body : List Char} {fault : Fault}
    (h : integer token body = .error fault) : fault = .ofDefect (.notAnInteger token) := by
  unfold integer at h
  split at h
  · exact nomatch h
  · exact (Except.error.inj h).symm

/-- A token that asks for a negative number of bytes breaks the stream policy, as long as the
    number fits a signed word. -/
theorem NegativeRead.ofToken_eq {token : String} {count : Int} (h : NegativeRead token count)
    (hfits : Decimal.FitsWord count) :
    ofToken token = .error (.ofBreach (.negativeLength count)) := by
  obtain ⟨body, htoken, hdenotes, hnegative⟩ := h
  rw [ofToken_eq_ofParts_kind (by decide) htoken, ofParts, if_neg hdenotes.ne_star,
    integer_eq_ok_iff.mpr ⟨hdenotes, hfits⟩]
  exact if_pos hnegative

theorem slotAt_eq_error {value : Int} {fault : Fault} (h : slotAt value = .error fault) :
    fault = .ofDefect (.invalidSlot value) := by
  unfold slotAt at h
  split at h
  · exact nomatch h
  · exact (Except.error.inj h).symm

/-- What is refused about the parts of a token is a defect, or a negative number of bytes. -/
theorem ofParts_eq_error {token : String} {kind body : List Char} {fault : Fault}
    (h : ofParts token kind body = .error fault) :
    (∃ defect, fault = .ofDefect defect) ∨
      kind = ['r'] ∧ ∃ count, Decimal.Denotes body count ∧ count < 0 ∧ Decimal.FitsWord count ∧
        fault = .ofBreach (.negativeLength count) := by
  unfold ofParts at h
  split at h
  · exact nomatch h
  · split at h
    · exact nomatch h
    · exact Or.inl ⟨_, (Except.error.inj h).symm⟩
  · rcases bind_eq_error.mp h with h | ⟨value, -, h⟩
    · exact Or.inl ⟨_, integer_eq_error h⟩
    · split at h
      · exact nomatch h
      · exact Or.inl ⟨_, slotAt_eq_error (map_eq_error.mp h)⟩
  · rcases bind_eq_error.mp h with h | ⟨value, -, h⟩
    · exact Or.inl ⟨_, integer_eq_error h⟩
    · split at h
      · exact Or.inl ⟨_, (Except.error.inj h).symm⟩
      · exact nomatch h
  · split at h
    · exact nomatch h
    · rcases bind_eq_error.mp h with h | ⟨value, hvalue, h⟩
      · exact Or.inl ⟨_, integer_eq_error h⟩
      · obtain ⟨hdenotes, hfits⟩ := integer_eq_ok_iff.mp hvalue
        split at h
        · next hnegative =>
            exact Or.inr ⟨rfl, value, hdenotes, hnegative, hfits, (Except.error.inj h).symm⟩
        · exact nomatch h
  · exact Or.inl ⟨_, (Except.error.inj h).symm⟩

/-- Whatever else is refused about a token is a defect. -/
theorem ofToken_eq_error {token : String} {fault : Fault} (h : ofToken token = .error fault) :
    (∃ defect, fault = .ofDefect defect) ∨
      ∃ count, NegativeRead token count ∧ Decimal.FitsWord count ∧
        fault = .ofBreach (.negativeLength count) := by
  rcases ofToken_cases token with hmissing | ⟨kind, body, htoken, -, hparts⟩
  · exact Or.inl ⟨_, Except.error.inj (h.symm.trans hmissing)⟩
  · rw [hparts] at h
    rcases ofParts_eq_error h with hdefect | ⟨rfl, count, hdenotes, hnegative, hfits, hfault⟩
    · exact Or.inl hdefect
    · exact Or.inr ⟨count, ⟨body, htoken, hdenotes, hnegative⟩, hfits, hfault⟩

/-! ## Tokens that are written again -/

/-- What a token denotes has a token of its own. -/
theorem Denotes.textual {chars : List Char} {operand : Operand} (h : Denotes chars operand) :
    operand.Textual := by
  cases h with
  | literal text => simp [Textual]
  | argument _ _ hlast => exact hlast
  | bounded _ hlast => exact hlast
  | _ => trivial

/-- The argument before the first one is denoted by no token, so that token can be read. -/
theorem Denotes.readable {chars : List Char} {operand : Operand} (h : Denotes chars operand) :
    operand.Readable := by
  refine h.textual.readable ?_
  rintro rfl
  cases h with
  | argument _ hfirst _ => exact absurd hfirst (by decide)

/-- **TOKENS HAVE A GRAMMAR**: a token is read exactly when the grammar says that it denotes an
    operand, as that operand; and the token that the operand is written as is read as the
    operand again. -/
theorem ofToken_iff_denotes (token : String) (operand : Operand) :
    (ofToken token = .ok operand ↔ Denotes token.toList operand) ∧
      (ofToken token = .ok operand → ofToken operand.token = .ok operand) := by
  refine ⟨ofToken_eq_ok_iff_denotes, fun h => ?_⟩
  have hdenotes := ofToken_eq_ok_iff_denotes.mp h
  exact ofToken_token_eq_ok.mpr ⟨hdenotes.readable, hdenotes.textual.reread_eq.symm⟩

/-- The greatest argument with a sign and leading zeros: what it is read as is written
    without them. -/
theorem ofToken_iff_denotes_padded :
    ofToken "a:+0009223372036854775807" = .ok (.argument 0x7FFFFFFFFFFFFFFF) ∧
      Denotes "a:+0009223372036854775807".toList (.argument 0x7FFFFFFFFFFFFFFF) ∧
      ofToken "a:9223372036854775807" = .ok (.argument 0x7FFFFFFFFFFFFFFF) := by
  have h : ofToken "a:+0009223372036854775807" = .ok (.argument 0x7FFFFFFFFFFFFFFF) := by rfl
  obtain ⟨hdenotes, hagain⟩ :=
    ofToken_iff_denotes "a:+0009223372036854775807" (.argument 0x7FFFFFFFFFFFFFFF)
  exact ⟨h, hdenotes.mp h, hagain h⟩

end Operand

end Attest
