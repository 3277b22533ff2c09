import Attest.Operand
import Attest.Proofs.Sequence

/-! # Tokens and operands

    The token of an operand is read back (`ofToken_token_eq_ok`), with two
    exceptions: a number that does not fit a signed word has no readable token, and
    a literal that is no text comes back as hexadecimal bytes.  An operand that is
    no exception is `Textual`. -/

namespace Attest

/-! ## Texts -/

/-- The bytes of a text are the bytes of its characters. -/
theorem Bytes.ofText_ofList (text : List Char) :
    ofText (String.ofList text) = text.flatMap String.utf8EncodeChar := by
  simp [ofText, List.utf8Encode]

/-! ## Numbers -/

namespace Decimal

/-- Digits are read as an integer if they fit a signed word. -/
theorem word?_toDigits (n : Nat) :
    word? (Nat.toDigits 10 n) = if FitsWord n then some (n : Int) else none := by
  have hint : int? (Nat.toDigits 10 n) = some (n : Int) := by
    unfold int?
    split
    · next digits h =>
        have hsign : '-' ∈ Nat.toDigits 10 n := h ▸ List.mem_cons_self
        exact nomatch Nat.isDigit_of_mem_toDigits (by omega) (by omega) hsign
    · next digits h =>
        have hsign : '+' ∈ Nat.toDigits 10 n := h ▸ List.mem_cons_self
        exact nomatch Nat.isDigit_of_mem_toDigits (by omega) (by omega) hsign
    · rw [nat?_toDigits]
      rfl
  rw [word?, hint]
  simp only [Option.filter_some, decide_eq_true_eq]

end Decimal

/-! ## Hexadecimal bytes -/

namespace Hex

/-- The byte of a digit. -/
def digitByte (n : Nat) : UInt8 :=
  UInt8.ofNat (Nat.digitChar n).toNat

theorem utf8EncodeChar_digitChar :
    ∀ n < 16, String.utf8EncodeChar (Nat.digitChar n) = [digitByte n] := by
  decide

theorem value?_digitByte : ∀ n < 16, value? (digitByte n) = some n := by
  decide

/-- A byte is written as the bytes of two digits. -/
theorem ofText_encode_cons (byte : UInt8) (bytes : Bytes) :
    Bytes.ofText (encode (byte :: bytes)) =
      digitByte (byte.toNat / 16) :: digitByte (byte.toNat % 16) ::
        Bytes.ofText (encode bytes) := by
  have hbyte : byte.toNat < 256 := byte.toNat_lt
  rw [encode, encode, Bytes.ofText_ofList, Bytes.ofText_ofList, chars, List.flatMap_cons, pair,
    List.flatMap_append, List.flatMap_cons, List.flatMap_cons,
    utf8EncodeChar_digitChar _ (by omega), utf8EncodeChar_digitChar _ (by omega)]
  rfl

theorem length_ofText_encode (bytes : Bytes) :
    (Bytes.ofText (encode bytes)).length = 2 * bytes.length := by
  induction bytes with
  | nil => rfl
  | cons byte bytes ih =>
      rw [ofText_encode_cons, List.length_cons, List.length_cons, List.length_cons, ih]
      rfl

theorem pairs_encode (bytes : Bytes) :
    ∀ position, pairs position (Bytes.ofText (encode bytes)) = .ok bytes := by
  induction bytes with
  | nil => exact fun _ => rfl
  | cons byte bytes ih =>
      intro position
      have hbyte : byte.toNat < 256 := byte.toNat_lt
      have hsum : 16 * (byte.toNat / 16) + byte.toNat % 16 = byte.toNat := Nat.div_add_mod _ _
      rw [ofText_encode_cons, pairs, digit, value?_digitByte _ (by omega), digit,
        value?_digitByte _ (by omega), ih]
      show Except.ok (UInt8.ofNat (16 * (byte.toNat / 16) + byte.toNat % 16) :: bytes) = _
      rw [hsum, UInt8.ofNat_toNat]

/-- Hexadecimal text is read back as its bytes. -/
theorem decode_encode (bytes : Bytes) : decode (encode bytes) = .ok bytes := by
  rw [decode]
  simp only [length_ofText_encode]
  rw [if_neg (by omega), pairs_encode]

end Hex

namespace Operand

/-! ## Tokens -/

/-- A token is split at its first colon. -/
theorem ofToken_eq_ofParts {token : String} {kind body : List Char}
    (h : token.toList = kind ++ ':' :: body) (hkind : ':' ∉ kind) :
    ofToken token = ofParts token kind body := by
  have hother : ∀ c ∈ kind, decide (c ≠ ':') = true := by
    intro c hc
    exact decide_eq_true fun hcolon => hkind (hcolon ▸ hc)
  rw [ofToken, h, List.dropWhile_append_of_pos hother, List.takeWhile_append_of_pos hother,
    List.dropWhile_cons_of_neg (by simp), List.takeWhile_cons_of_neg (by simp), List.append_nil]

/-- A token has no colon, or parts before and behind its first colon. -/
theorem ofToken_cases (token : String) :
    ofToken token = .error (.ofDefect (.missingColon token)) ∨
      ∃ kind body, token.toList = kind ++ ':' :: body ∧ ':' ∉ kind ∧
        ofToken token = ofParts token kind body := by
  cases hrest : token.toList.dropWhile (fun c => decide (c ≠ ':')) with
  | nil => exact Or.inl (by rw [ofToken, hrest])
  | cons c body =>
      have hhead := List.head?_dropWhile_not (fun c => decide (c ≠ ':')) token.toList
      rw [hrest] at hhead
      have hc : c = ':' := by simpa using hhead
      subst hc
      refine Or.inr ⟨_, body, ?_, ?_, by rw [ofToken, hrest]⟩
      · rw [← hrest, List.takeWhile_append_dropWhile]
      · intro hkind
        have hother := List.all_eq_true.mp List.all_takeWhile ':' hkind
        exact of_decide_eq_true hother rfl

/-- What a token is read as depends on its parts before and behind its first colon. -/
theorem ofToken_eq_ok {token : String} {operand : Operand} :
    ofToken token = .ok operand ↔
      ∃ kind body, token.toList = kind ++ ':' :: body ∧ ':' ∉ kind ∧
        ofParts token kind body = .ok operand := by
  constructor
  · intro h
    rcases ofToken_cases token with hmissing | ⟨kind, body, htoken, hkind, hparts⟩
    · exact nomatch hmissing.symm.trans h
    · exact ⟨kind, body, htoken, hkind, hparts.symm.trans h⟩
  · rintro ⟨kind, body, htoken, hkind, h⟩
    rw [ofToken_eq_ofParts htoken hkind, h]

/-- The operand that comes back when a token is written and read: a literal that is
    no text turns into hexadecimal bytes. -/
def reread : Operand → Operand
  | literal bytes => if (Bytes.toText? bytes).isSome then literal bytes else hex bytes
  | operand => operand

/-- The token of the operand can be read: a number fits a signed word, and a
    positional argument counts from one. -/
def Readable : Operand → Prop
  | argument index => 1 ≤ index.toNat ∧ Decimal.FitsWord index.toNat
  | read (.bounded count) => Decimal.FitsWord count.toNat
  | _ => True

theorem integer_toDigits (token : String) (n : Nat) {value : Int} :
    integer token (Nat.toDigits 10 n) = .ok value ↔ Decimal.FitsWord n ∧ value = n := by
  rw [integer, Decimal.word?_toDigits]
  by_cases hfits : Decimal.FitsWord n
  · rw [if_pos hfits]
    exact ⟨fun h => ⟨hfits, (Except.ok.inj h).symm⟩, fun h => congrArg _ h.2.symm⟩
  · rw [if_neg hfits]
    exact ⟨nofun, fun h => absurd h.1 hfits⟩

theorem ofToken_token_literal (bytes : Bytes) :
    ofToken (token (.literal bytes)) = .ok (reread (.literal bytes)) := by
  cases htext : Bytes.toText? bytes with
  | some text =>
      have htoken : (token (.literal bytes)).toList = ['s'] ++ ':' :: text.toList := by
        simp [token, htext]
      rw [ofToken_eq_ofParts htoken (by decide), ofParts, String.ofList_toList,
        Bytes.ofText_of_toText? htext, reread, htext]
      rfl
  | none =>
      have htoken : (token (.literal bytes)).toList =
          ['h'] ++ ':' :: (Hex.encode bytes).toList := by
        simp [token, htext]
      rw [ofToken_eq_ofParts htoken (by decide), ofParts, String.ofList_toList,
        Hex.decode_encode, reread, htext]
      rfl

theorem ofToken_token_hex (bytes : Bytes) : ofToken (token (.hex bytes)) = .ok (.hex bytes) := by
  have htoken : (token (.hex bytes)).toList = ['h'] ++ ':' :: (Hex.encode bytes).toList := by
    simp [token]
  rw [ofToken_eq_ofParts htoken (by decide), ofParts, String.ofList_toList, Hex.decode_encode]

theorem slotAt_toNat (index : UInt32) : slotAt index.toNat = .ok index := by
  have hindex : index.toNat < 4294967296 := index.toNat_lt
  rw [slotAt, if_pos ⟨by omega, Int.ofNat_lt.mpr hindex⟩, Int.toNat_natCast, UInt32.ofNat_toNat]

theorem ofToken_token_slot (index : UInt32) :
    ofToken (token (.slot index)) = .ok (.slot index) := by
  have htoken : (token (.slot index)).toList = ['m'] ++ ':' :: Nat.toDigits 10 index.toNat := by
    simp [token]
  have hindex : index.toNat < 4294967296 := index.toNat_lt
  have hinteger := (integer_toDigits (token (.slot index)) index.toNat).mpr
    ⟨⟨by omega, by omega⟩, rfl⟩
  rw [ofToken_eq_ofParts htoken (by decide), ofParts]
  refine bind_eq_ok.mpr ⟨index.toNat, hinteger, ?_⟩
  rw [if_neg (by omega), slotAt_toNat]
  rfl

theorem ofToken_argument (index : UInt64) :
    ofToken (token (.argument index)) =
      integer (token (.argument index)) (Nat.toDigits 10 index.toNat) >>= fun value =>
        if value < 1 then .error (.ofDefect (.argumentBelowOne (token (.argument index))))
        else pure (.argument (UInt64.ofNat value.toNat)) := by
  have htoken : (token (.argument index)).toList = ['a'] ++ ':' :: Nat.toDigits 10 index.toNat := by
    simp [token]
  rw [ofToken_eq_ofParts htoken (by decide), ofParts]

theorem ofToken_token_argument {index : UInt64} {result : Operand} :
    ofToken (token (.argument index)) = .ok result ↔
      (1 ≤ index.toNat ∧ Decimal.FitsWord index.toNat) ∧ result = .argument index := by
  rw [ofToken_argument, bind_eq_ok]
  constructor
  · rintro ⟨value, hvalue, h⟩
    obtain ⟨hfits, rfl⟩ := (integer_toDigits _ _).mp hvalue
    split at h
    · exact nomatch h
    · cases h
      refine ⟨⟨by omega, hfits⟩, ?_⟩
      rw [Int.toNat_natCast, UInt64.ofNat_toNat]
  · rintro ⟨⟨hone, hfits⟩, rfl⟩
    refine ⟨index.toNat, (integer_toDigits _ _).mpr ⟨hfits, rfl⟩, ?_⟩
    rw [if_neg (by omega), Int.toNat_natCast, UInt64.ofNat_toNat]
    rfl

theorem ofToken_bounded (count : UInt64) :
    ofToken (token (.read (.bounded count))) =
      integer (token (.read (.bounded count))) (Nat.toDigits 10 count.toNat) >>= fun value =>
        if value < 0 then .error (.ofBreach (.negativeLength value))
        else pure (.read (.bounded (UInt64.ofNat value.toNat))) := by
  have htoken : (token (.read (.bounded count))).toList =
      ['r'] ++ ':' :: Nat.toDigits 10 count.toNat := by
    simp [token]
  have hstar : Nat.toDigits 10 count.toNat ≠ ['*'] := by
    intro h
    have hmem : '*' ∈ Nat.toDigits 10 count.toNat := h ▸ List.mem_singleton_self _
    exact nomatch Nat.isDigit_of_mem_toDigits (by omega) (by omega) hmem
  rw [ofToken_eq_ofParts htoken (by decide), ofParts, if_neg hstar]

theorem ofToken_token_bounded {count : UInt64} {result : Operand} :
    ofToken (token (.read (.bounded count))) = .ok result ↔
      Decimal.FitsWord count.toNat ∧ result = .read (.bounded count) := by
  rw [ofToken_bounded, bind_eq_ok]
  constructor
  · rintro ⟨value, hvalue, h⟩
    obtain ⟨hfits, rfl⟩ := (integer_toDigits _ _).mp hvalue
    rw [if_neg (by omega)] at h
    cases h
    refine ⟨hfits, ?_⟩
    rw [Int.toNat_natCast, UInt64.ofNat_toNat]
  · rintro ⟨hfits, rfl⟩
    refine ⟨count.toNat, (integer_toDigits _ _).mpr ⟨hfits, rfl⟩, ?_⟩
    rw [if_neg (by omega), Int.toNat_natCast, UInt64.ofNat_toNat]
    rfl

/-- What gives one value gives no other. -/
theorem eq_ok_iff_of_eq {outcome : Except Fault Operand} {value result : Operand} {p : Prop}
    (h : outcome = .ok value) (hp : p) : outcome = .ok result ↔ p ∧ result = value := by
  rw [h, Except.ok.injEq, eq_comm]
  exact ⟨fun hresult => ⟨hp, hresult⟩, And.right⟩

/-- The token of an operand is read as the operand, if its number can be read. -/
theorem ofToken_token_eq_ok {operand result : Operand} :
    ofToken operand.token = .ok result ↔ operand.Readable ∧ result = operand.reread := by
  cases operand with
  | literal bytes => exact eq_ok_iff_of_eq (ofToken_token_literal bytes) trivial
  | hex bytes => exact eq_ok_iff_of_eq (ofToken_token_hex bytes) trivial
  | buffer => exact eq_ok_iff_of_eq (by rfl) trivial
  | slot index => exact eq_ok_iff_of_eq (ofToken_token_slot index) trivial
  | argument index => exact ofToken_token_argument
  | read length =>
      cases length with
      | bounded count => exact ofToken_token_bounded
      | rest => exact eq_ok_iff_of_eq (by rfl) trivial

/-! ## Operands that tokens can express -/

/-- The operand has a token of its own: a literal is a text, and a number is at most
    the greatest signed word. -/
def Textual : Operand → Prop
  | literal bytes => (Bytes.toText? bytes).isSome
  | argument index => index.toNat ≤ 0x7FFFFFFFFFFFFFFF
  | read (.bounded count) => count.toNat ≤ 0x7FFFFFFFFFFFFFFF
  | _ => True

theorem Textual.reread_eq {operand : Operand} (h : operand.Textual) : operand.reread = operand := by
  cases operand with
  | literal bytes => exact if_pos h
  | _ => rfl

/-- Apart from the argument before the first one, such a token can be read. -/
theorem Textual.readable {operand : Operand} (h : operand.Textual)
    (hzero : operand ≠ .argument 0) : operand.Readable := by
  cases operand with
  | argument index =>
      have hle : index.toNat ≤ 0x7FFFFFFFFFFFFFFF := h
      have hne : index.toNat ≠ 0 := by
        intro hindex
        exact hzero (congrArg _ (UInt64.toNat_inj.mp hindex))
      exact ⟨by omega, by omega, by omega⟩
  | read length =>
      cases length with
      | bounded count =>
          have hle : count.toNat ≤ 0x7FFFFFFFFFFFFFFF := h
          exact ⟨by omega, by omega⟩
      | rest => trivial
  | _ => trivial

end Operand

end Attest
