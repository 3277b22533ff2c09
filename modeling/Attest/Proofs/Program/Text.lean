import Attest.Proofs.Json.Reading
import Attest.Proofs.Program.Grammar

/-! # Reading the text of a program

    The value of a block is plain, and its brackets are at most twice as deep as
    its definitions (`depth_blockToJson_le`).  So the text of a block that does not
    nest too deeply is read as that value, and the text of any block is accepted
    exactly when the block is rereadable and what comes back is valid
    (`ofText_eq_ok_of_read?`).

    A program is rereadable as soon as its operands can be expressed by tokens, and
    then comes back as it is: validation has asked for everything else that the
    reader asks for (`rereadable`). -/

namespace Attest

open Instruction (nesting definitions EveryStep Rereadable mapSteps blockToJson)

/-! ## The values of blocks -/

/-- The values of a step are plain and without brackets. -/
theorem Step.plain_of_mem_values (s : Step) :
    ∀ value ∈ s.values, value.Plain ∧ value.depth = 0 := by
  intro value hvalue
  rw [values] at hvalue
  split at hvalue
  · next slot _ =>
      have hslot : slot.toNat < 4294967296 := slot.toNat_lt
      rw [List.mem_singleton.mp hvalue]
      exact ⟨.integer slot.toNat (Nat.lt_trans hslot (by decide)), rfl⟩
  · obtain ⟨operand, -, rfl⟩ := List.mem_map.mp hvalue
    exact ⟨.string _, rfl⟩

theorem Step.plain_toJson (s : Step) : s.toJson.Plain := by
  rw [toJson_eq]
  refine .array _ (List.forall_mem_cons.mpr ⟨.string _, ?_⟩)
  exact fun value hvalue => (s.plain_of_mem_values value hvalue).1

namespace Json

/-- Items that are no deeper than a bound. -/
theorem itemsDepth_le {bound : Nat} {items : List Json}
    (h : ∀ item ∈ items, item.depth ≤ bound) : itemsDepth items ≤ bound := by
  induction items with
  | nil => exact Nat.zero_le bound
  | cons item rest ih =>
      obtain ⟨hitem, hrest⟩ := List.forall_mem_cons.mp h
      rw [itemsDepth]
      exact Nat.max_le.mpr ⟨hitem, ih hrest⟩

end Json

theorem Step.depth_toJson_le (s : Step) : s.toJson.depth ≤ 1 := by
  rw [toJson_eq, Json.depth]
  refine Nat.succ_le_succ (Json.itemsDepth_le ?_)
  refine List.forall_mem_cons.mpr ⟨Nat.le_refl 0, ?_⟩
  exact fun value hvalue => Nat.le_of_eq (s.plain_of_mem_values value hvalue).2

namespace Instruction

/-- The values of a block are plain. -/
theorem plain_blockToJson (block : List Instruction) : ∀ item ∈ blockToJson block, item.Plain := by
  induction block using block_induction with
  | nil =>
      intro item hitem
      rw [blockToJson] at hitem
      cases hitem
  | step s rest ih =>
      rw [blockToJson, toJson]
      exact List.forall_mem_cons.mpr ⟨s.plain_toJson, ih⟩
  | define name body rest body_ih ih =>
      rw [blockToJson, toJson]
      refine List.forall_mem_cons.mpr ⟨.array _ ?_, ih⟩
      refine List.forall_mem_cons.mpr ⟨.string _, List.forall_mem_cons.mpr ⟨.string _, ?_⟩⟩
      exact List.forall_mem_singleton.mpr (.array _ body_ih)

/-- A level of definitions takes two brackets. -/
theorem depth_blockToJson_le (block : List Instruction) :
    Json.itemsDepth (blockToJson block) ≤ 2 * nesting block + 1 := by
  induction block using block_induction with
  | nil =>
      rw [blockToJson]
      exact Nat.zero_le _
  | step s rest ih =>
      have hstep := s.depth_toJson_le
      rw [blockToJson, toJson, Json.itemsDepth, nesting_step_cons]
      omega
  | define name body rest body_ih ih =>
      have hdefine : (toJson (define name body)).depth =
          Json.itemsDepth (blockToJson body) + 2 := by
        rw [toJson]
        simp [Json.depth, Json.itemsDepth]
      rw [blockToJson, Json.itemsDepth, hdefine, nesting_define_cons]
      omega

end Instruction

namespace Program

/-! ## The text of a block -/

/-- The text of a block is accepted exactly when the block is rereadable and what
    comes back is valid. -/
theorem ofText_eq_ok_of_read? {block : List Instruction} {text : String} {value : Json}
    (hvalue : value = .array (blockToJson block))
    (h : Json.read? text = if value.depth ≤ Json.mostOpen then some value else none)
    {program : Program} :
    ofText text = .ok program ↔ Rereadable mostNested block ∧
      ofInstructions (mapSteps Step.reread block) = .ok program := by
  subst hvalue
  rw [ofText, h]
  by_cases hdepth : (Json.array (blockToJson block)).depth ≤ Json.mostOpen
  · rw [if_pos hdepth]
    show ofJson _ = _ ↔ _
    rw [ofJson, bind_eq_ok]
    constructor
    · rintro ⟨read, hread, hprogram⟩
      obtain ⟨hreadable, rfl⟩ := Instruction.readBlock_blockToJson.mp hread
      exact ⟨hreadable, hprogram⟩
    · rintro ⟨hreadable, hprogram⟩
      exact ⟨_, Instruction.readBlock_blockToJson.mpr ⟨hreadable, rfl⟩, hprogram⟩
  -- a text too deep to be read is that of a block too deep to be valid
  · rw [if_neg hdepth]
    refine ⟨nofun, fun ⟨hreadable, _⟩ => absurd ?_ hdepth⟩
    have hlevels : nesting block ≤ 32 := hreadable.depth
    have hbrackets := Instruction.depth_blockToJson_le block
    rw [Json.depth, Json.mostOpen]
    omega

theorem ofText_compact_eq_ok {block : List Instruction} {program : Program} :
    ofText (Json.array (blockToJson block)).compact = .ok program ↔
      Rereadable mostNested block ∧ ofInstructions (mapSteps Step.reread block) = .ok program :=
  ofText_eq_ok_of_read? rfl (Json.read?_compact (.array _ (Instruction.plain_blockToJson block)))

theorem ofText_indented_eq_ok {block : List Instruction} {program : Program} :
    ofText (Json.array (blockToJson block)).indented = .ok program ↔
      Rereadable mostNested block ∧ ofInstructions (mapSteps Step.reread block) = .ok program :=
  ofText_eq_ok_of_read? rfl (Json.read?_indented (.array _ (Instruction.plain_blockToJson block)))

/-! ## The text of a program -/

/-- A step in scope whose operands can be expressed can be read. -/
theorem readable_of_inScope {program : Program} {s : Step} {inBody : Bool}
    (hscope : s.InScope program.functions inBody) (htextual : s.Textual) : s.Readable where
  operands := by
    intro operand hoperand
    refine (htextual operand hoperand).readable ?_
    rintro rfl
    exact absurd (hscope.operands _ hoperand 0 rfl).1 (by decide)
  call := named_of_inScope hscope

/-- A program whose operands can be expressed is rereadable. -/
theorem rereadable {program : Program} (h : EveryStep Step.Textual program.instructions) :
    Rereadable mostNested program.instructions := by
  refine program.rereadable_iff.mpr fun inner hinner s hs => ?_
  obtain ⟨inBody, hscope⟩ := program.everyStep_inScope inner hinner s hs
  exact readable_of_inScope hscope (h inner hinner s hs)

/-- A block whose operands can be expressed comes back as it is. -/
theorem mapSteps_reread {block : List Instruction} (h : EveryStep Step.Textual block) :
    mapSteps Step.reread block = block :=
  Instruction.mapSteps_eq_self block fun inner hinner s hs => (h inner hinner s hs).reread_eq

/-- Such a block is accepted exactly when it is valid. -/
theorem rereadable_and_eq_ok_iff {block : List Instruction} (h : EveryStep Step.Textual block)
    {program : Program} :
    (Rereadable mostNested block ∧ ofInstructions (mapSteps Step.reread block) = .ok program) ↔
      ofInstructions block = .ok program := by
  rw [mapSteps_reread h]
  refine ⟨And.right, fun hprogram => ⟨?_, hprogram⟩⟩
  have hinstructions := ofInstructions_eq_ok.mp hprogram
  rw [← hinstructions] at h ⊢
  exact rereadable h

/-- The operands of a program that is read from text can be expressed. -/
theorem textual_of_ofText {text : String} {program : Program} (h : ofText text = .ok program) :
    EveryStep Step.Textual program.instructions := by
  rw [ofText] at h
  split at h
  · exact nomatch h
  · obtain ⟨block, hblock, hprogram⟩ := bind_eq_ok.mp h
    rw [ofInstructions_eq_ok.mp hprogram]
    exact Instruction.everyStep_textual_of_readBlock mostNested hblock

/-- **TEXT COMES BACK**: a block whose literals are texts and whose numbers fit a
    signed word is read from its compact and from its indented text exactly when it
    is valid, as the program that it makes up.  Programs that are read from text
    are of this kind, so their own text gives them back. -/
theorem ofText_toJson_eq_ok :
    (∀ block, EveryStep Step.Textual block → ∀ program,
      (ofText (Json.array (blockToJson block)).compact = .ok program ↔
        ofInstructions block = .ok program) ∧
      (ofText (Json.array (blockToJson block)).indented = .ok program ↔
        ofInstructions block = .ok program)) ∧
    ∀ text program, ofText text = .ok program →
      ofText program.toJson.compact = .ok program ∧
        ofText program.toJson.indented = .ok program := by
  have hblock : ∀ block, EveryStep Step.Textual block → ∀ program,
      (ofText (Json.array (blockToJson block)).compact = .ok program ↔
        ofInstructions block = .ok program) ∧
      (ofText (Json.array (blockToJson block)).indented = .ok program ↔
        ofInstructions block = .ok program) := by
    intro block h program
    exact ⟨ofText_compact_eq_ok.trans (rereadable_and_eq_ok_iff h),
      ofText_indented_eq_ok.trans (rereadable_and_eq_ok_iff h)⟩
  refine ⟨hblock, ?_⟩
  intro text program h
  have hprogram : ofInstructions program.instructions = .ok program := ofInstructions_eq_ok.mpr rfl
  obtain ⟨hcompact, hindented⟩ := hblock _ (textual_of_ofText h) program
  exact ⟨hcompact.mpr hprogram, hindented.mpr hprogram⟩

/-- A block with a name and a literal that have to be escaped, and with the greatest
    numbers that tokens can express. -/
def quotingBlock : List Instruction :=
  [.define "say \"hi\""
    [.step (.set (.literal (Bytes.ofText "\"\\\u0001\u00e9"))),
      .step (.concat [.argument 0x7FFFFFFFFFFFFFFF, .read (.bounded 0x7FFFFFFFFFFFFFFF)])],
    .step (.call "say \"hi\"" [.hex [0xFF]]),
    .step (.store 0xFFFFFFFF)]

/-- The program of that block. -/
def quoting : Program where
  instructions := quotingBlock
  functions := ⟨definitions quotingBlock⟩
  valid := by rfl

/-- The program comes back from its compact text, and from there again. -/
theorem ofText_toJson_eq_ok_quoting :
    EveryStep Step.Textual quoting.instructions ∧
      ofText quoting.toJson.compact = .ok quoting ∧
      ofText quoting.toJson.indented = .ok quoting := by
  have htextual : EveryStep Step.Textual quoting.instructions := by
    simp [quoting, quotingBlock, Step.Textual, Step.operands, Operand.Textual]
  have hcompact : ofText quoting.toJson.compact = .ok quoting :=
    (ofText_toJson_eq_ok.1 _ htextual quoting).1.mpr (ofInstructions_eq_ok.mpr rfl)
  exact ⟨htextual, ofText_toJson_eq_ok.2 _ quoting hcompact⟩

end Program

end Attest
