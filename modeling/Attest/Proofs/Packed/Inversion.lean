import Attest.Proofs.Packed.Assembling
import Attest.Proofs.Packed.Disassembling

/-! # Assembling is the inverse of flattening

    Assembling undoes flattening (`assemble_flattenBlock`), and flattening undoes assembling
    (`flattenBlock_of_assemble`).  So a block that does not nest too deeply is assembled from
    its own items and from no others, whatever the lengths in their headers say.

    On the way every instruction is placed somewhere (`Assembly.Placed`): what an item
    completes by itself, where the items before it have led; the definition that an
    instruction completes, on the bodies around it.  At each of these places the assembly
    spells out a beginning of the items (`Assembly.Placed.spells`).  So the body that takes
    the instruction misses one at least, and its count, which began as the length in its
    header, can go down by one. -/

namespace Attest.Packed

open Instruction (nesting)

namespace Assembly

/-- While the items are assembled, the instruction is placed behind these finished
    instructions and on these open bodies, innermost first. -/
inductive Placed (items : List Item) : Array Instruction → Instruction → List OpenBody → Prop
  /-- An item that is a step is placed where the items before it have led. -/
  | step {before after : List Item} {s : Step} {assembly : Assembly}
      (hitems : items = before ++ .step s :: after)
      (hbefore : before.foldlM Assembly.take start = .ok assembly) :
      Placed items assembly.top (.step s) assembly.opened
  /-- So is the definition of a header without instructions. -/
  | empty {before after : List Item} {name : String} {assembly : Assembly}
      (hitems : items = before ++ .header name 0 :: after)
      (hbefore : before.foldlM Assembly.take start = .ok assembly)
      (hroom : assembly.opened.length < mostNested) :
      Placed items assembly.top (.define name []) assembly.opened
  /-- An instruction that is the last of a body completes the definition, which is placed on
      the bodies around it. -/
  | closed {top : Array Instruction} {instruction : Instruction} {inner : OpenBody}
      {outer : List OpenBody} (h : Placed items top instruction (inner :: outer))
      (hlast : inner.missing ≤ 1) :
      Placed items top (.define inner.name (inner.body.push instruction).toList) outer

/-- Wherever an instruction is placed, a beginning of the items is spelled out. -/
theorem Placed.spells {items : List Item} {top : Array Instruction} {instruction : Instruction}
    {opened : List OpenBody} (h : Placed items top instruction opened) :
    ∃ spelled, spelled <+: items ∧ Spells top opened spelled := by
  induction h with
  | step hitems hbefore =>
      exact ⟨_, ⟨_, hitems.symm⟩, spells_of_foldlM_start hbefore⟩
  | empty hitems hbefore _ =>
      exact ⟨_, ⟨_, hitems.symm⟩, spells_of_foldlM_start hbefore⟩
  | closed _ _ ih =>
      -- without the body that is closed, what was spelled out before its header is left
      obtain ⟨spelled, hspelled, before, own, hbefore, -, -, -, rfl⟩ := ih
      exact ⟨before, (List.prefix_append before _).trans hspelled, hbefore⟩

/-- A body that takes an instruction misses one, and what it has and what it misses make
    up the length in its header. -/
theorem Placed.missing_pos {items : List Item} {top : Array Instruction}
    {instruction : Instruction} {inner : OpenBody} {outer : List OpenBody}
    (h : Placed items top instruction (inner :: outer)) :
    0 < inner.missing ∧ ∃ length : UInt32, .header inner.name length ∈ items ∧
      inner.body.size + inner.missing = length.toNat := by
  obtain ⟨spelled, hspelled, before, own, -, -, hmissing, hsize, rfl⟩ := h.spells
  refine ⟨hmissing, UInt32.ofNat (inner.body.size + inner.missing), ?_, ?_⟩
  · exact hspelled.subset (List.mem_append_right before List.mem_cons_self)
  · exact (UInt32.toNat_ofNat_of_lt' hsize).symm

end Assembly

/-- **Assembling is the exact inverse of flattening**: items are assembled to a block exactly
    if they are its flattened form and its definitions nest no deeper than is allowed.  Each
    body to which an instruction is added on the way misses at least one: of the length that
    an item gives it, what is there is taken off, and something is left. -/
theorem assemble_inverts_flattenBlock :
    (∀ items block, assemble items = .ok block ↔
      flattenBlock block = .ok items ∧ nesting block ≤ mostNested) ∧
    ∀ items top instruction inner outer,
      Assembly.Placed items top instruction (inner :: outer) →
        0 < inner.missing ∧ ∃ length : UInt32, .header inner.name length ∈ items ∧
          inner.body.size + inner.missing = length.toNat := by
  refine ⟨fun items block => ⟨fun h => ?_, fun ⟨hitems, hdepth⟩ => ?_⟩,
    fun items top instruction inner outer h => h.missing_pos⟩
  · have hitems := flattenBlock_of_assemble h
    refine ⟨hitems, ?_⟩
    -- what nests too deeply is refused
    by_contra hdepth
    rw [assemble_flattenBlock hitems, if_neg hdepth] at h
    exact nomatch h
  · rw [assemble_flattenBlock hitems, if_pos hdepth]

/-- A step that is the last of its body, in a definition that is the last of another: the
    items are assembled to the two bodies, and the outer one misses the inner definition
    when that is placed. -/
theorem assemble_inverts_flattenBlock_cascading :
    assemble [.header "outer" 1, .header "inner" 1, .step .reverse, .header "none" 0] =
        .ok [.define "outer" [.define "inner" [.step .reverse]], .define "none" []] ∧
      Assembly.Placed
          [.header "outer" 1, .header "inner" 1, .step .reverse, .header "none" 0] #[]
          (.define "inner" [.step .reverse]) [⟨"outer", 1, #[]⟩] ∧
      ∃ length : UInt32, Item.header "outer" length ∈
          [.header "outer" 1, .header "inner" 1, .step .reverse, .header "none" 0] ∧
        0 + 1 = length.toNat := by
  obtain ⟨hiff, hplaced⟩ := assemble_inverts_flattenBlock
  have hbefore : [Item.header "outer" 1, .header "inner" 1].foldlM Assembly.take
      Assembly.start = .ok ⟨#[], [⟨"inner", 1, #[]⟩, ⟨"outer", 1, #[]⟩]⟩ := rfl
  have hstep : Assembly.Placed
      [.header "outer" 1, .header "inner" 1, .step .reverse, .header "none" 0] #[]
      (.step .reverse) [⟨"inner", 1, #[]⟩, ⟨"outer", 1, #[]⟩] := .step rfl hbefore
  have hinner := hstep.closed (Nat.le_refl 1)
  exact ⟨(hiff _ _).mpr ⟨rfl, by decide +kernel⟩, hinner, (hplaced _ _ _ _ _ hinner).2⟩

end Attest.Packed
