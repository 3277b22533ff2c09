import Attest.Program.Packed
import Attest.Proofs.Packed.Reading

/-! # What readers take

    A reader that succeeds has taken a front of the bytes.  It takes the same front
    whatever follows it, and with less than that front it meets the end of its input
    (`Takes`).  The front need not be what is written for the value, because a number may
    have superfluous zero digits; but that is the only freedom there is.  So what is
    written is read as the same value, and it is shorter than the front or the same
    (`Shortens`).

    All this (`Matches`) goes through sequences and choices, part by part, so it is so of
    all items together (`matches_items`), before any body is assembled. -/

namespace Attest

namespace Packed

variable {α β : Type}

/-! ## Shorter bytes -/

/-- The first bytes are no longer than the second, and as long only if they are the
    same. -/
structure Shortens (short long : Bytes) : Prop where
  length_le : short.length ≤ long.length
  eq_of_length : short.length = long.length → short = long

namespace Shortens

theorem refl (bytes : Bytes) : Shortens bytes bytes :=
  ⟨Nat.le_refl _, fun _ => rfl⟩

theorem of_lt {short long : Bytes} (h : short.length < long.length) : Shortens short long :=
  ⟨Nat.le_of_lt h, fun hsame => absurd hsame (Nat.ne_of_lt h)⟩

/-- Bytes that follow each other are shortened part by part. -/
theorem append {short long short' long' : Bytes} (h : Shortens short long)
    (h' : Shortens short' long') : Shortens (short ++ short') (long ++ long') := by
  have hfront := h.length_le
  have hback := h'.length_le
  refine ⟨?_, fun hsame => ?_⟩
  · rw [List.length_append, List.length_append]
    omega
  · -- neither part can make up for the other
    rw [List.length_append, List.length_append] at hsame
    rw [h.eq_of_length (by omega), h'.eq_of_length (by omega)]

end Shortens

/-! ## What is taken -/

/-- The reader takes exactly these bytes off the front, and meets the end of the input
    when some of them are missing at the end. -/
structure Takes (reader : Reader α) (taken : Bytes) (value : α) : Prop where
  reads : Reads reader taken value
  short : ∀ front missing, missing ≠ [] → taken = front ++ missing →
    reader.run front = .error .endOfInput

theorem Takes.pure (value : α) : Takes (pure value) [] value where
  reads := Reads.pure value
  short := fun _ _ hmissing hsplit => absurd (List.append_eq_nil_iff.mp hsplit.symm).2 hmissing

/-- A cut falls into what the first reader takes, or into what the next one does. -/
theorem Takes.bind {reader : Reader α} {next : α → Reader β} {front back : Bytes} {value : α}
    {result : β} (hfront : Takes reader front value) (hback : Takes (next value) back result) :
    Takes (reader >>= next) (front ++ back) result where
  reads := hfront.reads.bind hback.reads
  short := by
    intro cut missing hmissing hsplit
    -- the whole front may be there, with nothing after it
    have hwhole : ∀ extra, cut = front ++ extra → back = extra ++ missing →
        (reader >>= next).run cut = .error .endOfInput := by
      rintro extra rfl hextra
      rw [StateT.run_bind, hfront.reads extra]
      exact hback.short extra missing hmissing hextra
    rcases List.append_eq_append_iff.mp hsplit with ⟨extra, hcut, hextra⟩ | ⟨lost, hlost, hrest⟩
    · exact hwhole extra hcut hextra
    · by_cases hnone : lost = []
      · subst hnone
        rw [List.append_nil] at hlost
        exact hwhole [] (by rw [List.append_nil, hlost]) hrest.symm
      · rw [StateT.run_bind, hfront.short cut lost hnone hlost]
        rfl

theorem Takes.bind_pure {reader : Reader α} {taken : Bytes} {value : α} (f : α → β)
    (h : Takes reader taken value) :
    Takes (reader >>= fun value => Pure.pure (f value)) taken (f value) := by
  have hboth : Takes (reader >>= fun value => Pure.pure (f value)) (taken ++ []) (f value) :=
    h.bind (Takes.pure (f value))
  rwa [List.append_nil] at hboth

/-- The reader takes these bytes for the value, and what is written for the value is read as
    it too, and shortens them. -/
structure Matches (reader : Reader α) (written : Bytes) (value : α) (taken : Bytes) : Prop where
  takes : Takes reader taken value
  rereads : Reads reader written value
  shortens : Shortens written taken

namespace Matches

/-- What is taken is what is written. -/
theorem of_takes {reader : Reader α} {taken : Bytes} {value : α} (h : Takes reader taken value) :
    Matches reader taken value taken :=
  ⟨h, h.reads, .refl taken⟩

theorem pure (value : α) : Matches (pure value) [] value [] :=
  of_takes (Takes.pure value)

theorem bind {reader : Reader α} {next : α → Reader β} {written written' front back : Bytes}
    {value : α} {result : β} (h : Matches reader written value front)
    (h' : Matches (next value) written' result back) :
    Matches (reader >>= next) (written ++ written') result (front ++ back) :=
  ⟨h.takes.bind h'.takes, h.rereads.bind h'.rereads, h.shortens.append h'.shortens⟩

/-- What comes last may take nothing. -/
theorem bind_nil {reader : Reader α} {next : α → Reader β} {written taken : Bytes} {value : α}
    {result : β} (h : Matches reader written value taken)
    (h' : Matches (next value) [] result []) : Matches (reader >>= next) written result taken := by
  have hboth : Matches (reader >>= next) (written ++ []) result (taken ++ []) := h.bind h'
  rwa [List.append_nil, List.append_nil] at hboth

theorem bind_pure {reader : Reader α} {written taken : Bytes} {value : α} (f : α → β)
    (h : Matches reader written value taken) :
    Matches (reader >>= fun value => Pure.pure (f value)) written (f value) taken :=
  h.bind_nil (pure (f value))

theorem map {reader : Reader α} {written taken : Bytes} {value : α} (f : α → β)
    (h : Matches reader written value taken) :
    Matches (f <$> reader) written (f value) taken := by
  rw [map_eq_pure_bind]
  exact h.bind_pure f

end Matches

/-! ## Wherever a reader succeeds -/

/-- Whatever the reader gives, what it has taken for it is as described. -/
def Yields (reader : Reader α) (described : α → Bytes → Prop) : Prop :=
  ∀ bytes value rest, reader.run bytes = .ok (value, rest) →
    ∃ taken, bytes = taken ++ rest ∧ described value taken

namespace Yields

theorem pure {value : α} {described : α → Bytes → Prop} (h : described value []) :
    Yields (pure value) described := by
  rintro bytes _ _ ⟨⟩
  exact ⟨[], rfl, h⟩

theorem throw (flaw : PackedFlaw) (described : α → Bytes → Prop) :
    Yields (throw flaw) described :=
  fun _ _ _ hrun => nomatch hrun

/-- What a sequence has taken is described by its two parts. -/
theorem bind {reader : Reader α} {next : α → Reader β} {between : α → Bytes → Prop}
    {described : β → Bytes → Prop} (hreader : Yields reader between)
    (hnext : ∀ value front, between value front →
      Yields (next value) fun result back => described result (front ++ back)) :
    Yields (reader >>= next) described := by
  intro bytes result rest hrun
  rw [StateT.run_bind] at hrun
  obtain ⟨⟨value, middle⟩, hfirst, hsecond⟩ := bind_eq_ok.mp hrun
  obtain ⟨front, rfl, hfront⟩ := hreader _ _ _ hfirst
  obtain ⟨back, rfl, hback⟩ := hnext value front hfront _ _ _ hsecond
  exact ⟨front ++ back, (List.append_assoc front back rest).symm, hback⟩

theorem weaken {reader : Reader α} {described described' : α → Bytes → Prop}
    (h : Yields reader described)
    (himp : ∀ value taken, described value taken → described' value taken) :
    Yields reader described' := by
  intro bytes value rest hrun
  obtain ⟨taken, htaken, hdescribed⟩ := h bytes value rest hrun
  exact ⟨taken, htaken, himp value taken hdescribed⟩

/-- The last part of a sequence may only change the value. -/
theorem bind_pure {reader : Reader α} {between : α → Bytes → Prop}
    {described : β → Bytes → Prop} (f : α → β) (hreader : Yields reader between)
    (h : ∀ value taken, between value taken → described (f value) taken) :
    Yields (reader >>= fun value => Pure.pure (f value)) described := by
  refine hreader.bind fun value front hfront => pure ?_
  rw [List.append_nil]
  exact h value front hfront

theorem map {reader : Reader α} {between : α → Bytes → Prop} {described : β → Bytes → Prop}
    (f : α → β) (hreader : Yields reader between)
    (h : ∀ value taken, between value taken → described (f value) taken) :
    Yields (f <$> reader) described := by
  rw [map_eq_pure_bind]
  exact hreader.bind_pure f h

end Yields

/-- Whatever the reader gives, what is written for it matches what it has taken. -/
def Faithful (reader : Reader α) (encode : α → Bytes) : Prop :=
  Yields reader fun value taken => Matches reader (encode value) value taken

/-! ## Numbers -/

/-- Takes one byte. -/
def readByte : Reader UInt8 :=
  StateT.mk fun
    | [] => .error .endOfInput
    | byte :: rest => .ok (byte, rest)

theorem takes_byte (byte : UInt8) : Takes readByte [byte] byte where
  reads := fun _ => rfl
  short := by
    intro front missing hmissing hsplit
    rcases List.singleton_eq_append_iff.mp hsplit with ⟨rfl, -⟩ | ⟨-, rfl⟩
    · rfl
    · exact absurd rfl hmissing

theorem yields_byte : Yields readByte fun byte taken => taken = [byte] := by
  intro bytes value rest hrun
  cases bytes with
  | nil => exact nomatch hrun
  | cons byte others =>
      cases hrun
      exact ⟨[value], rfl, rfl⟩

/-- Digits are read byte by byte: a byte below 128 is the last one. -/
theorem readDigits_succ (last more : Nat) :
    StateT.mk (Varint.readDigits last (more + 1)) = (do
      let byte ← readByte
      if byte.toNat < 128 then pure byte.toNat
      else do
        let high ← (StateT.mk (Varint.readDigits last more) : Reader Nat)
        pure (byte.toNat - 128 + 128 * high)) := by
  funext bytes
  cases bytes with
  | nil => rfl
  | cons byte rest =>
      show (if _ then _ else _) = (if _ then _ else _ : Reader Nat) rest
      split <;> rfl

theorem readDigits_zero (last : Nat) :
    StateT.mk (Varint.readDigits last 0) = (do
      let byte ← readByte
      if byte.toNat ≤ last then pure byte.toNat else throw .unendingVarint) := by
  funext bytes
  cases bytes with
  | nil => rfl
  | cons byte rest =>
      show (if _ then _ else _) = (if _ then _ else _ : Reader Nat) rest
      split <;> rfl

theorem Varint.capacity_pos (last more : Nat) : 0 < Varint.capacity last more := by
  induction more with
  | zero => exact Nat.succ_pos last
  | succ more ih =>
      show 0 < 128 * Varint.capacity last more
      omega

/-- A number of one digit is written as its last byte. -/
theorem Varint.encode_byte {byte : UInt8} (h : byte.toNat < 128) :
    Varint.encode byte.toNat = [byte] := by
  rw [Varint.encode, if_pos h, UInt8.ofNat_toNat]

/-- A digit that others follow is either written as it is, or belongs to a number that is
    written in one byte: then all the others are padding. -/
theorem Varint.shortens_digit {byte : UInt8} {high : Nat} {more : Bytes}
    (hbyte : 128 ≤ byte.toNat) (hmore : Shortens (Varint.encode high) more) :
    Shortens (Varint.encode (byte.toNat - 128 + 128 * high)) (byte :: more) := by
  have hlt := byte.toNat_lt
  by_cases hzero : high = 0
  · have hpositive := Varint.length_encode_pos high
    have hlength := hmore.length_le
    rw [Varint.encode, if_pos (by omega)]
    refine .of_lt ?_
    rw [List.length_singleton, List.length_cons]
    omega
  · have hdigit : (byte.toNat - 128 + 128 * high) % 128 + 128 = byte.toNat := by omega
    have hrest : (byte.toNat - 128 + 128 * high) / 128 = high := by omega
    rw [Varint.encode, if_neg (by omega), hdigit, hrest, UInt8.ofNat_toNat]
    exact (Shortens.refl [byte]).append hmore

/-- Digits that are read make up a number that they can hold, are taken for it, and are
    shortened by what is written for it. -/
theorem yields_digits (last more : Nat) (hlast : last < 128) :
    Yields (StateT.mk (Varint.readDigits last more)) fun n taken =>
      n < Varint.capacity last more ∧ Takes (StateT.mk (Varint.readDigits last more)) taken n ∧
        Shortens (Varint.encode n) taken := by
  induction more with
  | zero =>
      rw [readDigits_zero]
      refine yields_byte.bind fun byte front hfront => ?_
      subst hfront
      split
      · next hle =>
          refine .pure ⟨Nat.lt_succ_of_le hle, (takes_byte byte).bind ?_, ?_⟩
          · rw [if_pos hle]
            exact Takes.pure _
          · rw [Varint.encode_byte (by omega)]
            exact .refl [byte]
      · exact .throw _ _
  | succ more ih =>
      have hcapacity : Varint.capacity last (more + 1) = 128 * Varint.capacity last more := rfl
      rw [readDigits_succ]
      refine yields_byte.bind fun byte front hfront => ?_
      subst hfront
      split
      · next hsmall =>
          have hpositive := Varint.capacity_pos last more
          refine .pure ⟨by omega, (takes_byte byte).bind ?_, ?_⟩
          · rw [if_pos hsmall]
            exact Takes.pure _
          · rw [Varint.encode_byte hsmall]
            exact .refl [byte]
      · next hlarge =>
          have hlt := byte.toNat_lt
          refine ih.bind_pure _ fun high taken ⟨hhigh, htakes, hshort⟩ => ?_
          refine ⟨by omega, (takes_byte byte).bind ?_, Varint.shortens_digit (by omega) hshort⟩
          rw [if_neg hlarge]
          exact htakes.bind_pure _

/-- A number is written in digits of its own, and they match those that have been read. -/
theorem faithful_digits {last : Nat} (hlast : last < 128) (more : Nat) :
    Yields (StateT.mk (Varint.readDigits last more)) fun n taken =>
      n < Varint.capacity last more ∧
        Matches (StateT.mk (Varint.readDigits last more)) (Varint.encode n) n taken :=
  (yields_digits last more hlast).weaken fun _ _ ⟨hn, htakes, hshort⟩ =>
    ⟨hn, htakes, Varint.readDigits_encode hlast more hn, hshort⟩

theorem yields_read32 : Yields (StateT.mk Varint.read32) fun n taken =>
    n < UInt32.size ∧ Matches (StateT.mk Varint.read32) (Varint.encode n) n taken := by
  rw [Varint.capacity_word32]
  exact faithful_digits (by decide) 4

theorem yields_read64 : Yields (StateT.mk Varint.read64) fun n taken =>
    n < UInt64.size ∧ Matches (StateT.mk Varint.read64) (Varint.encode n) n taken := by
  rw [Varint.capacity_word64]
  exact faithful_digits (by decide) 9

theorem faithful_tag : Faithful readTag Varint.encode :=
  yields_read32.weaken fun _ _ h => h.2

theorem faithful_length : Faithful readLength Varint.encode :=
  yields_read64.weaken fun _ _ h => h.2

theorem faithful_word32 : Faithful readWord32 fun n => Varint.encode n.toNat := by
  refine yields_read32.bind_pure _ fun n taken h => ?_
  show Matches _ (Varint.encode (UInt32.ofNat n).toNat) _ _
  rw [UInt32.toNat_ofNat_of_lt' h.1]
  exact h.2.bind_pure UInt32.ofNat

theorem faithful_word64 : Faithful readWord64 fun n => Varint.encode n.toNat := by
  refine yields_read64.bind_pure _ fun n taken h => ?_
  show Matches _ (Varint.encode (UInt64.ofNat n).toNat) _ _
  rw [UInt64.toNat_ofNat_of_lt' h.1]
  exact h.2.bind_pure UInt64.ofNat

/-! ## Bytes, texts and lists -/

theorem takes_take (bytes : Bytes) : Takes (take bytes.length) bytes bytes where
  reads := reads_take bytes
  short := by
    rintro front missing hmissing rfl
    have hpos : 0 < missing.length := List.length_pos_iff.mpr hmissing
    have hshort : (front.take (front ++ missing).length).length ≠ (front ++ missing).length := by
      rw [List.length_take, List.length_append]
      omega
    exact if_neg hshort

theorem yields_take (count : Nat) :
    Yields (take count) fun bytes taken => bytes = taken ∧ bytes.length = count := by
  intro bytes value rest hrun
  change (if (bytes.take count).length = count then _ else _) = _ at hrun
  split at hrun
  case isFalse => exact nomatch hrun
  case isTrue hlength =>
    cases hrun
    exact ⟨bytes.take count, (List.take_append_drop count bytes).symm, rfl, hlength⟩

theorem faithful_bytes : Faithful readBytes encodeBytes := by
  refine faithful_length.bind fun count front hfront => ?_
  refine (yields_take count).weaken ?_
  rintro bytes _ ⟨rfl, rfl⟩
  exact hfront.bind (.of_takes (takes_take bytes))

theorem faithful_text : Faithful readText fun text => encodeBytes (Bytes.ofText text) := by
  refine faithful_bytes.bind fun bytes front hfront => ?_
  split
  · next text htext =>
      refine .pure ?_
      show Matches readText (encodeBytes (Bytes.ofText text)) text (front ++ [])
      rw [List.append_nil, Bytes.ofText_of_toText? htext]
      refine hfront.bind_nil ?_
      rw [htext]
      exact Matches.pure text
  · exact .throw _ _

/-- Things that are read one after the other match what is written for them, and there are
    as many as were to be read. -/
theorem yields_many {reader : Reader α} {encode : α → Bytes} (h : Faithful reader encode)
    (count : Nat) :
    Yields (readMany reader count) fun values taken =>
      values.length = count ∧
        Matches (readMany reader count) (values.flatMap encode) values taken := by
  induction count with
  | zero => exact .pure ⟨rfl, Matches.pure []⟩
  | succ count ih =>
      refine h.bind fun first front hfront => ?_
      refine ih.bind_pure _ fun rest back hrest => ⟨congrArg (· + 1) hrest.1, ?_⟩
      rw [List.flatMap_cons]
      exact hfront.bind (hrest.2.bind_pure (first :: ·))

theorem faithful_list {reader : Reader α} {encode : α → Bytes} (h : Faithful reader encode) :
    Faithful (readList reader) fun values =>
      Varint.encode values.length ++ values.flatMap encode := by
  refine faithful_length.bind fun count front hfront => ?_
  refine (yields_many h count).weaken ?_
  rintro values back ⟨rfl, hvalues⟩
  exact hfront.bind hvalues

/-! ## Operands and items -/

theorem faithful_operand : Faithful readOperand encodeOperand := by
  refine faithful_tag.bind fun tag front hfront => ?_
  split
  · exact faithful_bytes.map _ fun bytes back hback => hfront.bind (hback.map _)
  · exact faithful_bytes.map _ fun bytes back hback => hfront.bind (hback.map _)
  · refine .pure ?_
    rw [List.append_nil]
    exact hfront.bind_nil (Matches.pure _)
  · exact faithful_word32.map _ fun index back hback => hfront.bind (hback.map _)
  · exact faithful_word64.map _ fun index back hback => hfront.bind (hback.map _)
  · refine faithful_tag.bind fun choice middle hmiddle => ?_
    split
    · refine faithful_word64.bind_pure _ fun count back hback => ?_
      rw [encodeOperand, List.append_assoc]
      exact hfront.bind (hmiddle.bind (hback.bind_pure _))
    · refine .pure ?_
      rw [List.append_nil]
      exact hfront.bind (hmiddle.bind_nil (Matches.pure _))
    · exact .throw _ _
  · exact .throw _ _

theorem faithful_operands : Faithful (readList readOperand) encodeOperands :=
  faithful_list faithful_operand

theorem faithful_item : Faithful readItem Item.encode := by
  refine faithful_tag.bind fun tag front hfront => ?_
  split
  · exact faithful_operands.bind_pure _ fun _ _ hback => hfront.bind (hback.bind_pure _)
  · exact faithful_operands.bind_pure _ fun _ _ hback => hfront.bind (hback.bind_pure _)
  · refine .pure ?_
    rw [List.append_nil]
    exact hfront.bind_nil (Matches.pure _)
  · exact faithful_word32.bind_pure _ fun _ _ hback => hfront.bind (hback.bind_pure _)
  · exact faithful_word32.bind_pure _ fun _ _ hback => hfront.bind (hback.bind_pure _)
  · exact faithful_operand.bind_pure _ fun _ _ hback => hfront.bind (hback.bind_pure _)
  · exact faithful_word32.bind_pure _ fun _ _ hback => hfront.bind (hback.bind_pure _)
  · exact faithful_operand.bind_pure _ fun _ _ hback => hfront.bind (hback.bind_pure _)
  · refine faithful_text.bind fun name middle hmiddle => ?_
    refine faithful_word32.bind_pure _ fun length back hback => ?_
    rw [Item.encode, List.append_assoc]
    exact hfront.bind (hmiddle.bind (hback.bind_pure _))
  · refine faithful_text.bind fun function middle hmiddle => ?_
    refine faithful_operands.bind_pure _ fun arguments back hback => ?_
    rw [Item.encode, List.append_assoc]
    exact hfront.bind (hmiddle.bind (hback.bind_pure _))
  · exact .throw _ _

theorem faithful_items : Faithful readItems encodeItems := faithful_list faithful_item

/-! ## Packed blocks -/

theorem decodeBlock_eq (bytes : Bytes) :
    decodeBlock bytes =
      match readItems.run bytes with
      | .error flaw => .error (.decode flaw)
      | .ok (items, rest) =>
          if rest = [] then assemble items
          else .error (.ofDefect (.trailingBytes rest.length)) := by
  rw [decodeBlock]
  rcases readItems.run bytes with flaw | ⟨items, rest⟩
  · rfl
  · cases rest <;> rfl

/-- Bytes that are decoded are all taken by items, which what is written for them matches,
    and which are assembled to the block. -/
theorem matches_of_decodeBlock {bytes : Bytes} {block : List Instruction}
    (h : decodeBlock bytes = .ok block) :
    ∃ items, Matches readItems (encodeItems items) items bytes ∧ assemble items = .ok block := by
  rw [decodeBlock_eq] at h
  split at h
  · exact nomatch h
  next items rest hread =>
    split at h
    case isFalse => exact nomatch h
    case isTrue hrest =>
      obtain ⟨taken, htaken, hmatches⟩ := faithful_items _ _ _ hread
      rw [hrest, List.append_nil] at htaken
      subst htaken
      exact ⟨items, hmatches, h⟩

/-- Bytes that are decoded are all taken by the items. -/
theorem takes_of_decodeBlock {bytes : Bytes} {block : List Instruction}
    (h : decodeBlock bytes = .ok block) : ∃ items, Takes readItems bytes items := by
  obtain ⟨items, hmatches, -⟩ := matches_of_decodeBlock h
  exact ⟨items, hmatches.takes⟩

end Packed

end Attest
