import Attest.Template

/-! # Composing with templates

    A buffer fits at an offset of a template if it does not reach beyond the end, and
    every template byte beneath it is the wildcard or its own byte (`FitsAt`).  Composing
    lays the buffer over the template at the first offset where it fits
    (`compose_at_first_fit`); this says what comes out, since the wildcards beneath the
    buffer take its bytes, and the other bytes beneath it are its bytes already.

    * `fill?_eq_some_iff` is for the beginning of the template, `align?_eq_some_iff` for
      all offsets: the search follows the template, and an offset in the rest of it is one
      less.
    * What has been composed covers the template.  So it fits at its beginning and nowhere
      else, and composing it once more changes nothing (`compose_covering`). -/

namespace Attest.Template

variable {any : UInt8} {buffer template : Bytes} {offset : Nat}

/-- The buffer fits at an offset: it does not reach beyond the end of the template, and
    every template byte beneath it is the wildcard or its own byte. -/
def FitsAt (any : UInt8) (buffer template : Bytes) (offset : Nat) : Prop :=
  offset + buffer.length ≤ template.length ∧
    ∀ index < buffer.length,
      template[offset + index]? = some any ∨ template[offset + index]? = buffer[index]?

instance (any : UInt8) (buffer template : Bytes) (offset : Nat) :
    Decidable (FitsAt any buffer template offset) :=
  inferInstanceAs (Decidable (_ ∧ _))

/-- The buffer fits at this offset and at none before it. -/
structure FirstFit (any : UInt8) (buffer template : Bytes) (offset : Nat) : Prop where
  fits : FitsAt any buffer template offset
  first : ∀ before < offset, ¬ FitsAt any buffer template before

/-- The template with the buffer over it at an offset. -/
def laid (buffer template : Bytes) (offset : Nat) : Bytes :=
  template.take offset ++ buffer ++ template.drop (offset + buffer.length)

/-! ## Fitting -/

theorem fitsAt_nil_zero : FitsAt any [] template 0 :=
  ⟨Nat.zero_le _, nofun⟩

/-- Nothing but the empty buffer fits in the empty template. -/
theorem fitsAt_nil_iff : FitsAt any buffer [] offset ↔ buffer = [] ∧ offset = 0 := by
  constructor
  · rintro ⟨hlength, -⟩
    rw [List.length_nil, Nat.le_zero, Nat.add_eq_zero_iff, List.length_eq_zero_iff] at hlength
    exact hlength.symm
  · rintro ⟨rfl, rfl⟩
    exact fitsAt_nil_zero

/-- At the beginning the first bytes are compared, and then what follows them. -/
theorem fitsAt_cons_cons_zero {b t : UInt8} :
    FitsAt any (b :: buffer) (t :: template) 0 ↔
      (t = any ∨ t = b) ∧ FitsAt any buffer template 0 := by
  simp only [FitsAt, Nat.zero_add, List.length_cons, Nat.add_le_add_iff_right,
    Nat.forall_lt_succ_left, List.getElem?_cons_zero, List.getElem?_cons_succ, Option.some.injEq]
  exact and_left_comm

/-- An offset beyond the first byte is an offset in the rest. -/
theorem fitsAt_cons_succ {t : UInt8} :
    FitsAt any buffer (t :: template) (offset + 1) ↔ FitsAt any buffer template offset := by
  simp only [FitsAt, Nat.add_right_comm offset 1, List.length_cons, Nat.add_le_add_iff_right,
    List.getElem?_cons_succ]

/-- Filling succeeds where the buffer fits at the beginning, and lays it there. -/
theorem fill?_eq_some_iff {filled : Bytes} :
    fill? any buffer template = some filled ↔
      FitsAt any buffer template 0 ∧ filled = laid buffer template 0 := by
  induction buffer generalizing template filled with
  | nil =>
      rw [fill?, Option.some.injEq, eq_comm]
      exact ⟨fun h => ⟨fitsAt_nil_zero, h⟩, And.right⟩
  | cons b buffer ih =>
      cases template with
      | nil =>
          rw [fitsAt_nil_iff]
          exact ⟨nofun, fun h => nomatch h.1.1⟩
      | cons t template =>
          have hlaid : laid (b :: buffer) (t :: template) 0 = b :: laid buffer template 0 := by
            simp [laid]
          have hrest : (fill? any buffer template).map (b :: ·) = some filled ↔
              FitsAt any buffer template 0 ∧ filled = b :: laid buffer template 0 := by
            rw [Option.map_eq_some_iff]
            constructor
            · rintro ⟨rest, hrest, rfl⟩
              obtain ⟨hfits, rfl⟩ := ih.mp hrest
              exact ⟨hfits, rfl⟩
            · rintro ⟨hfits, rfl⟩
              exact ⟨_, ih.mpr ⟨hfits, rfl⟩, rfl⟩
          rw [fitsAt_cons_cons_zero, hlaid, fill?]
          by_cases hany : t = any
          · rw [if_pos hany, hrest, and_iff_right (Or.inl hany)]
          · rw [if_neg hany]
            by_cases hown : t = b
            · rw [if_pos hown, hown, hrest, and_iff_right (Or.inr rfl)]
            · rw [if_neg hown]
              exact ⟨nofun, fun h => absurd h.1.1 (not_or.mpr ⟨hany, hown⟩)⟩

theorem fill?_eq_none_iff : fill? any buffer template = none ↔ ¬ FitsAt any buffer template 0 := by
  rw [Option.eq_none_iff_forall_ne_some]
  constructor
  · exact fun h hfits => h _ (fill?_eq_some_iff.mpr ⟨hfits, rfl⟩)
  · exact fun h filled hfilled => h (fill?_eq_some_iff.mp hfilled).1

/-! ## The first offset -/

/-- Where the buffer fits at the beginning, this is the first offset. -/
theorem firstFit_zero (h : FitsAt any buffer template 0) : FirstFit any buffer template 0 :=
  ⟨h, nofun⟩

/-- Otherwise the first offset is the first one in the rest. -/
theorem firstFit_cons_succ {t : UInt8} (h : ¬ FitsAt any buffer (t :: template) 0) :
    FirstFit any buffer (t :: template) (offset + 1) ↔ FirstFit any buffer template offset := by
  constructor
  · rintro ⟨hfits, hfirst⟩
    refine ⟨fitsAt_cons_succ.mp hfits, fun before hbefore hearlier => ?_⟩
    exact hfirst (before + 1) (Nat.succ_lt_succ hbefore) (fitsAt_cons_succ.mpr hearlier)
  · rintro ⟨hfits, hfirst⟩
    refine ⟨fitsAt_cons_succ.mpr hfits, fun before hbefore hearlier => ?_⟩
    cases before with
    | zero => exact h hearlier
    | succ before =>
        exact hfirst before (Nat.lt_of_succ_lt_succ hbefore) (fitsAt_cons_succ.mp hearlier)

/-- The search lays the buffer at the first offset where it fits. -/
theorem align?_eq_some_iff {composed : Bytes} :
    align? any buffer template = some composed ↔
      ∃ offset, FirstFit any buffer template offset ∧ composed = laid buffer template offset := by
  induction template generalizing composed with
  | nil =>
      rw [align?, fill?_eq_some_iff]
      constructor
      · rintro ⟨hfits, hcomposed⟩
        exact ⟨0, firstFit_zero hfits, hcomposed⟩
      · rintro ⟨offset, hfirst, hcomposed⟩
        obtain ⟨-, rfl⟩ := fitsAt_nil_iff.mp hfirst.fits
        exact ⟨hfirst.fits, hcomposed⟩
  | cons t template ih =>
      rw [align?]
      by_cases hfits : FitsAt any buffer (t :: template) 0
      · rw [fill?_eq_some_iff.mpr ⟨hfits, rfl⟩, Option.some.injEq, eq_comm]
        constructor
        · exact fun h => ⟨0, firstFit_zero hfits, h⟩
        · rintro ⟨offset, hfirst, hcomposed⟩
          cases offset with
          | zero => exact hcomposed
          | succ offset => exact absurd hfits (hfirst.first 0 (Nat.succ_pos offset))
      · rw [fill?_eq_none_iff.mpr hfits]
        show (align? any buffer template).map (t :: ·) = some composed ↔ _
        have hlaid : ∀ offset,
            laid buffer (t :: template) (offset + 1) = t :: laid buffer template offset := by
          intro offset
          simp [laid, Nat.add_right_comm offset 1]
        rw [Option.map_eq_some_iff]
        constructor
        · rintro ⟨rest, hrest, rfl⟩
          obtain ⟨offset, hfirst, rfl⟩ := ih.mp hrest
          exact ⟨offset + 1, (firstFit_cons_succ hfits).mpr hfirst, (hlaid offset).symm⟩
        · rintro ⟨offset, hfirst, rfl⟩
          cases offset with
          | zero => exact absurd hfirst.fits hfits
          | succ offset =>
              exact ⟨_, ih.mpr ⟨offset, (firstFit_cons_succ hfits).mp hfirst, rfl⟩,
                (hlaid offset).symm⟩

/-- The search fails where the buffer fits at no offset. -/
theorem align?_eq_none_iff :
    align? any buffer template = none ↔ ∀ offset, ¬ FitsAt any buffer template offset := by
  rw [Option.eq_none_iff_forall_ne_some]
  constructor
  · intro h offset
    -- if the buffer fitted anywhere, it would fit somewhere first
    induction offset using Nat.strongRecOn with
    | ind offset ih =>
        exact fun hfits => h _ (align?_eq_some_iff.mpr ⟨offset, ⟨hfits, ih⟩, rfl⟩)
  · intro h composed hcomposed
    obtain ⟨offset, hfirst, -⟩ := align?_eq_some_iff.mp hcomposed
    exact h offset hfirst.fits

/-! ## What composing gives -/

/-- Composing searches unless the buffer is too long, and a buffer that fits is not. -/
theorem compose_eq_ok_iff {composed : Bytes} :
    compose any buffer template = .ok composed ↔
      ∃ offset, FirstFit any buffer template offset ∧ composed = laid buffer template offset := by
  rw [← align?_eq_some_iff, compose]
  split
  · next hlong =>
      refine ⟨nofun, fun halign => ?_⟩
      obtain ⟨offset, hfirst, -⟩ := align?_eq_some_iff.mp halign
      exact absurd hfirst.fits.1 (by omega)
  · cases align? any buffer template with
    | none => exact ⟨nofun, nofun⟩
    | some found => rw [Except.ok.injEq, Option.some.injEq]

theorem compose_eq_noAlignment_iff :
    compose any buffer template = .error .noAlignment ↔
      buffer.length ≤ template.length ∧ ∀ offset, ¬ FitsAt any buffer template offset := by
  rw [← align?_eq_none_iff, compose]
  split
  · next hlong => exact ⟨nofun, fun h => absurd h.1 (Nat.not_le.mpr hlong)⟩
  · next hshort =>
      rw [and_iff_right (Nat.not_lt.mp hshort)]
      cases align? any buffer template with
      | none => exact ⟨fun _ => rfl, fun _ => rfl⟩
      | some found => exact ⟨nofun, nofun⟩

theorem compose_eq_tooLong_iff {long short : Nat} :
    compose any buffer template = .error (.tooLong long short) ↔
      template.length < buffer.length ∧ long = buffer.length ∧ short = template.length := by
  rw [compose]
  split
  · next hlong =>
      rw [and_iff_right hlong, Except.error.injEq, Mismatch.tooLong.injEq]
      exact and_congr eq_comm eq_comm
  · next hshort =>
      cases align? any buffer template with
      | none => exact ⟨nofun, fun h => absurd h.1 hshort⟩
      | some found => exact ⟨nofun, fun h => absurd h.1 hshort⟩

/-! ## Covering a template -/

/-- The bytes are as many as those of the template, and are its own bytes where it has no
    wildcards. -/
structure Covers (any : UInt8) (bytes template : Bytes) : Prop where
  length : bytes.length = template.length
  keeps : ∀ (index : Nat) (byte : UInt8), template[index]? = some byte → byte ≠ any →
    bytes[index]? = some byte

/-- A template with a buffer over it, where that fits, covers the template. -/
theorem covers_laid (h : FitsAt any buffer template offset) :
    Covers any (laid buffer template offset) template := by
  obtain ⟨hlength, hbeneath⟩ := h
  have htake : (template.take offset).length = offset := by
    rw [List.length_take]
    omega
  refine ⟨?_, fun index byte hbyte hne => ?_⟩
  · rw [laid, List.length_append, List.length_append, htake, List.length_drop]
    omega
  · rcases Nat.lt_or_ge index offset with hbefore | hfrom
    · rw [laid, List.append_assoc, List.getElem?_append_left (by omega),
        List.getElem?_take_of_lt hbefore, hbyte]
    · obtain ⟨inner, rfl⟩ := Nat.exists_eq_add_of_le hfrom
      rw [laid, List.append_assoc, List.getElem?_append_right (by omega), htake,
        Nat.add_sub_cancel_left]
      rcases Nat.lt_or_ge inner buffer.length with hinside | hbeyond
      · -- beneath the buffer a byte other than the wildcard is the buffer's own
        rw [List.getElem?_append_left hinside, ← hbyte]
        rcases hbeneath inner hinside with hwildcard | hown
        · rw [hbyte] at hwildcard
          exact absurd (Option.some.inj hwildcard) hne
        · exact hown.symm
      · rw [List.getElem?_append_right hbeyond, List.getElem?_drop, ← hbyte]
        congr 1
        omega

/-- What covers a template fits at its beginning. -/
theorem Covers.fitsAt_zero {bytes : Bytes} (h : Covers any bytes template) :
    FitsAt any bytes template 0 := by
  refine ⟨Nat.le_of_eq (h.length ▸ Nat.zero_add _), fun index hindex => ?_⟩
  rw [h.length] at hindex
  rw [Nat.zero_add, List.getElem?_eq_getElem hindex]
  by_cases hany : template[index] = any
  · exact Or.inl (congrArg some hany)
  · exact Or.inr (h.keeps index _ (List.getElem?_eq_getElem hindex) hany).symm

/-- Composing what covers a template with it changes nothing. -/
theorem compose_covering {bytes : Bytes} (h : Covers any bytes template) :
    compose any bytes template = .ok bytes := by
  refine compose_eq_ok_iff.mpr ⟨0, firstFit_zero h.fitsAt_zero, ?_⟩
  rw [laid, List.take_zero, List.nil_append, Nat.zero_add, h.length, List.drop_length,
    List.append_nil]

/-- **Composing replaces at the first match.**  It fails for the length exactly if the
    buffer is longer than the template, and for want of an alignment exactly if the buffer
    is not longer and fits at no offset; otherwise it lays the buffer over the template at
    the first offset where it fits.  What comes out is as long as the template, has its
    bytes other than wildcards, and comes out again when it is composed with the
    template. -/
theorem compose_at_first_fit (any : UInt8) (buffer template : Bytes) :
    (∀ long short, compose any buffer template = .error (.tooLong long short) ↔
      template.length < buffer.length ∧ long = buffer.length ∧ short = template.length) ∧
    (compose any buffer template = .error .noAlignment ↔
      buffer.length ≤ template.length ∧
        ∀ offset ≤ template.length - buffer.length, ¬ FitsAt any buffer template offset) ∧
    (∀ composed, compose any buffer template = .ok composed ↔
      ∃ offset, FirstFit any buffer template offset ∧
        composed = template.take offset ++ buffer ++ template.drop (offset + buffer.length)) ∧
    ∀ composed, compose any buffer template = .ok composed →
      composed.length = template.length ∧
      (∀ (index : Nat) (byte : UInt8), template[index]? = some byte → byte ≠ any →
        composed[index]? = some byte) ∧
      compose any composed template = .ok composed := by
  refine ⟨fun _ _ => compose_eq_tooLong_iff, ?_, fun _ => compose_eq_ok_iff, ?_⟩
  · rw [compose_eq_noAlignment_iff]
    refine and_congr_right fun _ => ⟨fun h offset _ => h offset, fun h offset hfits => ?_⟩
    exact h offset (Nat.le_sub_of_add_le hfits.1) hfits
  · intro composed hcomposed
    obtain ⟨offset, hfirst, rfl⟩ := compose_eq_ok_iff.mp hcomposed
    have hcovers := covers_laid hfirst.fits
    exact ⟨hcovers.length, hcovers.keeps, compose_covering hcovers⟩

/-- A buffer that has the wildcard as its first byte fits at the second byte of `a???`.  Two
    wildcards are then left in what comes out, and it comes out again. -/
theorem compose_at_first_fit_leavingWildcards :
    FirstFit 63 [63, 98] [97, 63, 63, 63] 1 ∧
      compose 63 [63, 98] [97, 63, 63, 63] = .ok [97, 63, 98, 63] ∧
      compose 63 [97, 63, 98, 63] [97, 63, 63, 63] = .ok [97, 63, 98, 63] := by
  obtain ⟨-, -, hlaid, hagain⟩ := compose_at_first_fit 63 [63, 98] [97, 63, 63, 63]
  have hfirst : FirstFit 63 [63, 98] [97, 63, 63, 63] 1 := ⟨by decide, by decide⟩
  have hcomposed := (hlaid [97, 63, 98, 63]).mpr ⟨1, hfirst, rfl⟩
  exact ⟨hfirst, hcomposed, (hagain _ hcomposed).2.2⟩

end Attest.Template
