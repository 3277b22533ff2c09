import Attest.Program.Packed
import Attest.Proofs.Packed.Reading
import Attest.Proofs.Packed.Assembling

/-! # Unpacking what was packed

    Packed bytes are read to their end and give the items that were written
    (`readItems_encodeItems`); the items are assembled to the block that was
    flattened, unless it nests too deeply (`assemble_flattenBlock`).  Such a block
    is no program either, so unpacking accepts the packed form of a block exactly
    when validation accepts the block. -/

namespace Attest

open Instruction (nesting definitions)

namespace Packed

/-- Decoding the packed form of items assembles them. -/
theorem decodeBlock_encodeItems {items : List Item}
    (h : (encodeItems items).length < UInt64.size) :
    decodeBlock (encodeItems items) = assemble items := by
  have hread := readItems_encodeItems h []
  rw [List.append_nil] at hread
  rw [decodeBlock, hread]
  rfl

/-- A block can be packed when the length of every body fits its header. -/
theorem encodeBlock_isOk_iff (block : List Instruction) :
    (∃ bytes, encodeBlock block = .ok bytes) ↔
      ∀ d ∈ definitions block, d.2.length < UInt32.size := by
  rw [← flattenBlock_isOk_iff]
  constructor
  · rintro ⟨bytes, h⟩
    obtain ⟨items, hitems, -⟩ := bind_eq_ok.mp h
    exact ⟨items, hitems⟩
  · rintro ⟨items, hitems⟩
    exact ⟨_, bind_eq_ok.mpr ⟨items, hitems, rfl⟩⟩

/-- Decoding the packed form of a block gives the block back, unless it nests too
    deeply. -/
theorem decodeBlock_encodeBlock {block : List Instruction} {bytes : Bytes}
    (h : encodeBlock block = .ok bytes) (hsize : bytes.length < UInt64.size) :
    decodeBlock bytes =
      if nesting block ≤ mostNested then .ok block else .error (.ofDefect .nestedTooDeep) := by
  obtain ⟨items, hitems, hbytes⟩ := bind_eq_ok.mp h
  cases hbytes
  rw [decodeBlock_encodeItems hsize, assemble_flattenBlock hitems]

end Packed

namespace Program

/-- A block that does not nest too deeply is unpacked as it is validated. -/
theorem unpack_eq_ofInstructions {block : List Instruction} {bytes : Bytes}
    (h : Packed.encodeBlock block = .ok bytes) (hsize : bytes.length < UInt64.size)
    (hdepth : nesting block ≤ mostNested) : unpack bytes = ofInstructions block := by
  rw [unpack, Packed.decodeBlock_encodeBlock h hsize, if_pos hdepth]
  rfl

/-- A block that nests too deeply is not unpacked. -/
theorem unpack_nestedTooDeep {block : List Instruction} {bytes : Bytes}
    (h : Packed.encodeBlock block = .ok bytes) (hsize : bytes.length < UInt64.size)
    (hdepth : mostNested < nesting block) :
    unpack bytes = .error (.ofDefect .nestedTooDeep) := by
  rw [unpack, Packed.decodeBlock_encodeBlock h hsize, if_neg (by omega)]
  rfl

/-- **UNPACKING INVERTS PACKING**: every block whose bodies fit their headers has a
    packed form, which unpacks to a program exactly when the block makes up that
    program.  So every program is unpacked from its packed form, and a block that
    nests too deeply is refused on either way.  Bytes that are held in memory are
    fewer than a word can count; nothing else is asked of them. -/
theorem unpack_eq_ok_iff_of_encodeBlock :
    (∀ block, (∃ bytes, Packed.encodeBlock block = .ok bytes) ↔
      ∀ d ∈ definitions block, d.2.length < UInt32.size) ∧
    (∀ block bytes, Packed.encodeBlock block = .ok bytes → bytes.length < UInt64.size →
      (∀ program, unpack bytes = .ok program ↔ ofInstructions block = .ok program) ∧
      (mostNested < nesting block →
        unpack bytes = .error (.ofDefect .nestedTooDeep) ∧
          ∃ fault, ofInstructions block = .error fault)) ∧
    ∀ (program : Program) bytes, program.pack = .ok bytes → bytes.length < UInt64.size →
      unpack bytes = .ok program := by
  refine ⟨Packed.encodeBlock_isOk_iff, ?_, ?_⟩
  · intro block bytes h hsize
    refine ⟨?_, fun hdepth => ⟨unpack_nestedTooDeep h hsize hdepth,
      ofInstructions_nestedTooDeep hdepth⟩⟩
    intro program
    -- the two counts of levels meet the same limit
    rcases Nat.lt_or_ge mostNested (nesting block) with hdeep | hdepth
    · obtain ⟨fault, hfault⟩ := ofInstructions_nestedTooDeep hdeep
      rw [unpack_nestedTooDeep h hsize hdeep, hfault]
      exact ⟨nofun, nofun⟩
    · rw [unpack_eq_ofInstructions h hsize hdepth]
  · intro program bytes h hsize
    have hdepth : nesting program.instructions ≤ mostNested := nesting_le_of_validate program.valid
    rw [unpack_eq_ofInstructions h hsize hdepth]
    exact ofInstructions_eq_ok.mpr rfl

/-- A block of so many definitions one inside the other.  The innermost body has
    operands at their limits, and the body before the others is empty. -/
def nestedBlock (depth : Nat) : List Instruction :=
  [.define "empty" [], nestedIn depth]
where
  nestedIn : Nat → Instruction
    | 0 => .step (.call "empty" [.literal [0xFF], .argument 0xFFFFFFFFFFFFFFFF,
        .read (.bounded 0xFFFFFFFFFFFFFFFF)])
    | depth + 1 => .define (String.ofList (List.replicate (depth + 1) 'f'))
        [nestedIn depth, .step (.store 0xFFFFFFFF)]

/-- A program that nests as deeply as is allowed. -/
def deepest : Program where
  instructions := nestedBlock mostNested
  functions := ⟨definitions (nestedBlock mostNested)⟩
  valid := by rfl

/-- The deepest program is unpacked from its packed form; one level more is refused. -/
theorem unpack_eq_ok_iff_of_encodeBlock_deepest :
    nesting deepest.instructions = mostNested ∧
    (∃ bytes, deepest.pack = .ok bytes ∧ bytes.length < UInt64.size ∧
      unpack bytes = .ok deepest) ∧
    ∃ bytes, Packed.encodeBlock (nestedBlock (mostNested + 1)) = .ok bytes ∧
      bytes.length < UInt64.size ∧ unpack bytes = .error (.ofDefect .nestedTooDeep) := by
  obtain ⟨hpacked, hblock, hprogram⟩ := unpack_eq_ok_iff_of_encodeBlock
  refine ⟨by decide +kernel, ?_, ?_⟩
  · obtain ⟨bytes, hbytes⟩ := (hpacked deepest.instructions).mpr (by decide +kernel)
    have hsize : (deepest.pack.toOption.getD []).length < UInt64.size := by decide +kernel
    rw [pack, hbytes] at hsize
    exact ⟨bytes, hbytes, hsize, hprogram deepest bytes hbytes hsize⟩
  · obtain ⟨bytes, hbytes⟩ := (hpacked (nestedBlock (mostNested + 1))).mpr (by decide +kernel)
    have hsize : ((Packed.encodeBlock (nestedBlock (mostNested + 1))).toOption.getD []).length <
        UInt64.size := by decide +kernel
    rw [hbytes] at hsize
    exact ⟨bytes, hbytes, hsize, ((hblock _ bytes hbytes hsize).2 (by decide +kernel)).1⟩

end Program

end Attest
