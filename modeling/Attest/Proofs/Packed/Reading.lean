import Attest.Packed.Item
import Attest.Proofs.Sequence

/-! # Reading what was written

    `Reads reader written value` says that the reader takes exactly what was
    written off the front of any bytes, and gives the value.  It goes through
    sequences (`Reads.bind`), so every writer is met by its reader part by part, up
    to whole lists of items (`readItems_encodeItems`).

    A length is read as a word of 64 bits.  The lengths of all parts are bounded by
    the length of what is written, so one bound on the whole is enough. -/

namespace Attest.Packed

/-! ## Numbers -/

namespace Varint

theorem toNat_ofNat {n : Nat} (h : n < 256) : (UInt8.ofNat n).toNat = n :=
  UInt8.toNat_ofNat_of_lt h

theorem length_encode_pos (n : Nat) : 0 < (encode n).length := by
  rw [encode]
  split <;> simp

/-- How many numbers so many bytes and a last one can hold. -/
def capacity (last : Nat) : Nat → Nat
  | 0 => last + 1
  | more + 1 => 128 * capacity last more

/-- A number is read back if the digits that may be read can hold it. -/
theorem readDigits_encode {last : Nat} (hlast : last < 128) (more : Nat) :
    ∀ {n : Nat}, n < capacity last more → ∀ rest,
      readDigits last more (encode n ++ rest) = .ok (n, rest) := by
  induction more with
  | zero =>
      intro n hn rest
      have hle : n ≤ last := Nat.le_of_lt_succ hn
      rw [encode, if_pos (by omega)]
      simp only [List.cons_append, List.nil_append, readDigits]
      rw [toNat_ofNat (by omega), if_pos hle]
  | succ more ih =>
      intro n hn rest
      rw [encode]
      by_cases hsmall : n < 128
      · rw [if_pos hsmall]
        simp only [List.cons_append, List.nil_append, readDigits]
        rw [toNat_ofNat (by omega), if_pos hsmall]
      · rw [if_neg hsmall]
        -- one digit less remains to be read of a number that is 128 times smaller
        have hhigh : n / 128 < capacity last more := Nat.div_lt_of_lt_mul hn
        have hdigit : (UInt8.ofNat (n % 128 + 128)).toNat = n % 128 + 128 :=
          toNat_ofNat (by omega)
        simp only [List.cons_append, readDigits]
        rw [hdigit, if_neg (by omega), ih hhigh rest]
        have hsum : n % 128 + 128 - 128 + 128 * (n / 128) = n := by omega
        show Except.ok (_, rest) = _
        rw [hsum]

theorem capacity_word32 : UInt32.size = capacity 15 4 := by decide

theorem capacity_word64 : UInt64.size = capacity 1 9 := by decide

theorem read32_encode {n : Nat} (h : n < UInt32.size) (rest : Bytes) :
    read32 (encode n ++ rest) = .ok (n, rest) :=
  readDigits_encode (by decide) 4 (Nat.lt_of_lt_of_eq h capacity_word32) rest

theorem read64_encode {n : Nat} (h : n < UInt64.size) (rest : Bytes) :
    read64 (encode n ++ rest) = .ok (n, rest) :=
  readDigits_encode (by decide) 9 (Nat.lt_of_lt_of_eq h capacity_word64) rest

end Varint

/-! ## Readers -/

/-- The reader takes what was written off the front, whatever follows it, and gives
    the value. -/
def Reads {α : Type} (reader : Reader α) (written : Bytes) (value : α) : Prop :=
  ∀ rest, reader.run (written ++ rest) = .ok (value, rest)

namespace Reads

variable {α β : Type}

theorem pure (value : α) : Reads (pure value) [] value := fun _ => rfl

theorem bind {reader : Reader α} {next : α → Reader β} {front back : Bytes} {value : α}
    {result : β} (hfront : Reads reader front value) (hback : Reads (next value) back result) :
    Reads (reader >>= next) (front ++ back) result := by
  intro rest
  rw [List.append_assoc, StateT.run_bind, hfront (back ++ rest)]
  exact hback rest

theorem map {reader : Reader α} {written : Bytes} {value : α} (f : α → β)
    (h : Reads reader written value) : Reads (f <$> reader) written (f value) := by
  intro rest
  rw [StateT.run_map, h rest]
  rfl

/-- The last reader of a sequence may take nothing. -/
theorem bind_nil {reader : Reader α} {next : α → Reader β} {written : Bytes} {value : α}
    {result : β} (h : Reads reader written value) (hnext : Reads (next value) [] result) :
    Reads (reader >>= next) written result := by
  have hboth : Reads (reader >>= next) (written ++ []) result := bind h hnext
  rwa [List.append_nil] at hboth

theorem bind_pure {reader : Reader α} {written : Bytes} {value : α} (f : α → β)
    (h : Reads reader written value) :
    Reads (reader >>= fun value => Pure.pure (f value)) written (f value) :=
  bind_nil h (pure (f value))

end Reads

theorem reads_word32 (n : UInt32) : Reads readWord32 (Varint.encode n.toNat) n := by
  have hread : Reads (StateT.mk Varint.read32) (Varint.encode n.toNat) n.toNat :=
    fun rest => Varint.read32_encode n.toNat_lt rest
  have := hread.bind_pure UInt32.ofNat
  rwa [UInt32.ofNat_toNat] at this

theorem reads_word64 (n : UInt64) : Reads readWord64 (Varint.encode n.toNat) n := by
  have hread : Reads (StateT.mk Varint.read64) (Varint.encode n.toNat) n.toNat :=
    fun rest => Varint.read64_encode n.toNat_lt rest
  have := hread.bind_pure UInt64.ofNat
  rwa [UInt64.ofNat_toNat] at this

theorem reads_length {n : Nat} (h : n < UInt64.size) : Reads readLength (Varint.encode n) n :=
  fun rest => Varint.read64_encode h rest

/-- The choices are numbered from zero to nine. -/
theorem reads_tag (tag : Fin 10) : Reads readTag (Varint.encode tag) tag :=
  fun rest => Varint.read32_encode (Nat.lt_trans tag.isLt (by decide)) rest

theorem reads_take (bytes : Bytes) : Reads (take bytes.length) bytes bytes := by
  intro rest
  show (if _ then _ else _) = _
  rw [List.take_left, List.drop_left, if_pos rfl]

/-- Byte strings whose written form a word can measure are read back. -/
theorem reads_bytes {bytes : Bytes} (h : (encodeBytes bytes).length < UInt64.size) :
    Reads readBytes (encodeBytes bytes) bytes := by
  rw [encodeBytes, List.length_append] at h
  exact (reads_length (by omega)).bind (reads_take bytes)

theorem reads_text {text : String}
    (h : (encodeBytes (Bytes.ofText text)).length < UInt64.size) :
    Reads readText (encodeBytes (Bytes.ofText text)) text := by
  refine (reads_bytes h).bind_nil ?_
  rw [Bytes.toText?_ofText]
  exact Reads.pure text

/-- Lists are read back element by element. -/
theorem reads_many {α : Type} {reader : Reader α} {encode : α → Bytes} (elements : List α)
    (h : ∀ element ∈ elements, Reads reader (encode element) element) :
    Reads (readMany reader elements.length) (elements.flatMap encode) elements := by
  induction elements with
  | nil => exact Reads.pure []
  | cons first rest ih =>
      rw [List.forall_mem_cons] at h
      rw [List.flatMap_cons]
      exact h.1.bind ((ih h.2).bind_pure (first :: ·))

/-- Every element adds at least one byte to the written form of a list. -/
theorem length_le_length_flatMap {α : Type} {encode : α → Bytes}
    (hpos : ∀ element, 0 < (encode element).length) (elements : List α) :
    elements.length ≤ (elements.flatMap encode).length := by
  induction elements with
  | nil => exact Nat.le_refl 0
  | cons first rest ih =>
      have := hpos first
      rw [List.flatMap_cons, List.length_append, List.length_cons]
      omega

/-- An element adds at most the whole written form of a list. -/
theorem length_le_of_mem {α : Type} {encode : α → Bytes} {elements : List α} {element : α}
    (h : element ∈ elements) : (encode element).length ≤ (elements.flatMap encode).length := by
  induction elements with
  | nil => exact nomatch h
  | cons first rest ih =>
      rw [List.flatMap_cons, List.length_append]
      rcases List.mem_cons.mp h with rfl | hrest
      · omega
      · have := ih hrest
        omega

theorem reads_list {α : Type} {reader : Reader α} {encode : α → Bytes} (elements : List α)
    (hpos : ∀ element, 0 < (encode element).length)
    (hfits : (Varint.encode elements.length ++ elements.flatMap encode).length < UInt64.size)
    (h : ∀ element, (encode element).length < UInt64.size →
      Reads reader (encode element) element) :
    Reads (readList reader) (Varint.encode elements.length ++ elements.flatMap encode)
      elements := by
  rw [List.length_append] at hfits
  have hlength := length_le_length_flatMap hpos elements
  refine (reads_length (by omega)).bind (reads_many elements fun element hmem => h element ?_)
  exact Nat.lt_of_le_of_lt (length_le_of_mem hmem) (by omega)

/-! ## Operands and items -/

theorem length_append_pos {front : Bytes} (h : 0 < front.length) (back : Bytes) :
    0 < (front ++ back).length := by
  rw [List.length_append]
  omega

theorem length_encodeOperand_pos (operand : Operand) : 0 < (encodeOperand operand).length := by
  have htag := Varint.length_encode_pos
  cases operand with
  | buffer => exact htag 2
  | read length =>
      cases length with
      | bounded count => exact length_append_pos (length_append_pos (htag 5) _) _
      | rest => exact length_append_pos (htag 5) _
  | _ => exact length_append_pos (htag _) _

theorem reads_operand {operand : Operand}
    (h : (encodeOperand operand).length < UInt64.size) :
    Reads readOperand (encodeOperand operand) operand := by
  rw [readOperand]
  cases operand with
  | literal bytes =>
      rw [encodeOperand, List.length_append] at h
      exact (reads_tag 0).bind ((reads_bytes (by omega)).map _)
  | hex bytes =>
      rw [encodeOperand, List.length_append] at h
      exact (reads_tag 1).bind ((reads_bytes (by omega)).map _)
  | buffer => exact (reads_tag 2).bind_nil (Reads.pure _)
  | slot index => exact (reads_tag 3).bind ((reads_word32 index).map _)
  | argument index => exact (reads_tag 4).bind ((reads_word64 index).map _)
  | read length =>
      cases length with
      | bounded count =>
          rw [encodeOperand, List.append_assoc]
          exact (reads_tag 5).bind
            ((reads_tag 0).bind ((reads_word64 count).bind_pure _))
      | rest => exact (reads_tag 5).bind ((reads_tag 1).bind_nil (Reads.pure _))

theorem reads_operands {operands : List Operand}
    (h : (encodeOperands operands).length < UInt64.size) :
    Reads (readList readOperand) (encodeOperands operands) operands :=
  reads_list operands length_encodeOperand_pos h fun _ hfits => reads_operand hfits

/-- The written form of an item is read back as the item. -/
theorem reads_item {item : Item} (h : item.encode.length < UInt64.size) :
    Reads readItem item.encode item := by
  rw [readItem]
  cases item with
  | header name length =>
      rw [Item.encode, List.append_assoc, List.length_append, List.length_append] at *
      refine (reads_tag 8).bind ((reads_text (by omega)).bind ?_)
      exact (reads_word32 length).bind_pure _
  | step s =>
      cases s with
      | concat operands =>
          rw [Item.encode, List.length_append] at h
          exact (reads_tag 0).bind ((reads_operands (by omega)).bind_pure _)
      | hash operands =>
          rw [Item.encode, List.length_append] at h
          exact (reads_tag 1).bind ((reads_operands (by omega)).bind_pure _)
      | reverse => exact (reads_tag 2).bind_nil (Reads.pure _)
      | store slot => exact (reads_tag 3).bind ((reads_word32 slot).bind_pure _)
      | load slot => exact (reads_tag 4).bind ((reads_word32 slot).bind_pure _)
      | set operand =>
          rw [Item.encode, List.length_append] at h
          exact (reads_tag 5).bind ((reads_operand (by omega)).bind_pure _)
      | swap slot => exact (reads_tag 6).bind ((reads_word32 slot).bind_pure _)
      | compose template =>
          rw [Item.encode, List.length_append] at h
          exact (reads_tag 7).bind ((reads_operand (by omega)).bind_pure _)
      | call function arguments =>
          rw [Item.encode, List.append_assoc, List.length_append, List.length_append] at *
          refine (reads_tag 9).bind ((reads_text (by omega)).bind ?_)
          exact (reads_operands (by omega)).bind_pure _

theorem length_encode_pos (item : Item) : 0 < item.encode.length := by
  have htag := Varint.length_encode_pos
  cases item with
  | header name length => exact length_append_pos (length_append_pos (htag 8) _) _
  | step s =>
      cases s with
      | reverse => exact htag 2
      | call function arguments => exact length_append_pos (length_append_pos (htag 9) _) _
      | _ => exact length_append_pos (htag _) _

/-- The written form of items is read back as the items. -/
theorem readItems_encodeItems {items : List Item}
    (h : (encodeItems items).length < UInt64.size) :
    Reads readItems (encodeItems items) items :=
  reads_list items length_encode_pos h fun _ hfits => reads_item hfits

end Attest.Packed
