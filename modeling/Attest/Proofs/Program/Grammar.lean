import Attest.Proofs.Program.Rereading
import Attest.Proofs.Token

/-! # The grammar of instructions

    What the values of a program text stand for, said without reading them.  An operand is a
    text with a token; a slot is its bare index or its token; a step is an opcode with the
    values that it asks for (`Step.Denoted`).  A definition has a name and a list for its body,
    and is allowed where a level is left.

    * A step is read exactly when it has this form, as what it stands for
      (`readStep_eq_ok_iff`).
    * `Instruction.Shaped` is what the grammar asks of an instruction by itself: the
      instructions in the body of a definition are left out.  Every instruction that is read
      has this form (`shaped_of_readInstruction`); one that has it and is refused is a
      definition with a body that is refused (`Shaped.readInstruction_eq_error`).
    * A block that is read holds only operands that tokens can express
      (`everyStep_textual_of_readBlock`), because these are all that tokens denote. -/

namespace Attest

namespace Operand

/-- A value stands for an operand: it is a text, and its token denotes the operand. -/
inductive Denoted : Json → Operand → Prop
  | token {token : String} {operand : Operand} (h : Denotes token.toList operand) :
      Denoted (.string token) operand

theorem ofJson_eq_ok_iff {value : Json} {operand : Operand} :
    ofJson value = .ok operand ↔ Denoted value operand := by
  constructor
  · intro h
    cases value with
    | string token => exact .token (ofToken_eq_ok_iff_denotes.mp h)
    | _ => exact nomatch h
  · rintro ⟨h⟩
    exact ofToken_eq_ok_iff_denotes.mpr h

theorem Denoted.textual {value : Json} {operand : Operand} (h : Denoted value operand) :
    operand.Textual := by
  obtain ⟨h⟩ := h
  exact h.textual

/-- What values stand for can be expressed by tokens. -/
theorem textual_of_denoted {values : List Json} {operands : List Operand}
    (h : List.Forall₂ Denoted values operands) : ∀ operand ∈ operands, operand.Textual := by
  induction h with
  | nil => exact nofun
  | cons hfirst _ ih => exact List.forall_mem_cons.mpr ⟨hfirst.textual, ih⟩

/-- Operands are read exactly when every value stands for one. -/
theorem mapM_ofJson_eq_ok_iff {values : List Json} {operands : List Operand} :
    values.mapM ofJson = .ok operands ↔ List.Forall₂ Denoted values operands := by
  rw [mapM_eq_ok]
  simp only [ofJson_eq_ok_iff]

/-- A value stands for a slot: it is the bare index of the slot, or a text with its token. -/
inductive SlotDenoted : Json → UInt32 → Prop
  | bare (index : UInt32) : SlotDenoted (.integer index.toNat) index
  | token {value : Json} {index : UInt32} (h : Denoted value (slot index)) :
      SlotDenoted value index

end Operand

open Operand (Denoted SlotDenoted)

/-- An opcode and the values behind it stand for a step. -/
inductive Step.Denoted : String → List Json → Step → Prop
  | concat {values : List Json} {operands : List Operand}
      (h : List.Forall₂ Operand.Denoted values operands) :
      Denoted "op_cat" values (.concat operands)
  | hash {values : List Json} {operands : List Operand}
      (h : List.Forall₂ Operand.Denoted values operands) :
      Denoted "op_sha256" values (.hash operands)
  | reverse : Denoted "op_rev" [] .reverse
  | store {value : Json} {slot : UInt32} (h : SlotDenoted value slot) :
      Denoted "op_store" [value] (.store slot)
  | load {value : Json} {slot : UInt32} (h : SlotDenoted value slot) :
      Denoted "op_load" [value] (.load slot)
  | swap {value : Json} {slot : UInt32} (h : SlotDenoted value slot) :
      Denoted "op_swap" [value] (.swap slot)
  | set {value : Json} {operand : Operand} (h : Operand.Denoted value operand) :
      Denoted "op_set" [value] (.set operand)
  | compose {value : Json} {template : Operand} (h : Operand.Denoted value template) :
      Denoted "op_compose" [value] (.compose template)
  | call {function : String} {values : List Json} {arguments : List Operand}
      (hname : function ≠ "") (h : List.Forall₂ Operand.Denoted values arguments) :
      Denoted ("f_" ++ function) values (.call function arguments)

namespace Instruction

/-! ## Steps -/

/-- The only value behind an opcode is read as the operand that it stands for. -/
theorem readOperand_eq_ok_iff {opcode : String} {values : List Json} {operand : Operand} :
    readOperand opcode values = .ok operand ↔
      ∃ value, values = [value] ∧ Operand.Denoted value operand := by
  unfold readOperand
  constructor
  · intro h
    split at h
    · exact ⟨_, rfl, Operand.ofJson_eq_ok_iff.mp h⟩
    · exact nomatch h
  · rintro ⟨value, rfl, h⟩
    exact Operand.ofJson_eq_ok_iff.mpr h

/-- The only value behind an opcode is read as the slot that it stands for. -/
theorem readSlot_eq_ok_iff {opcode : String} {values : List Json} {slot : UInt32} :
    readSlot opcode values = .ok slot ↔ ∃ value, values = [value] ∧ SlotDenoted value slot := by
  constructor
  · intro h
    unfold readSlot at h
    split at h
    · refine ⟨_, rfl, ?_⟩
      dsimp only at h
      split at h
      · next index hbare =>
          split at hbare
          · split at hbare
            · cases hbare
              rw [Operand.slotAt_eq_ok_iff.mp h]
              exact .bare slot
            · exact nomatch hbare
          · exact nomatch hbare
      · obtain ⟨operand, hoperand, h⟩ := bind_eq_ok.mp h
        split at h
        · cases h
          exact .token (Operand.ofJson_eq_ok_iff.mp hoperand)
        · exact nomatch h
    · exact nomatch h
  · rintro ⟨value, rfl, h⟩
    cases h with
    | bare => exact readSlot_values opcode slot
    | token h =>
        have hread := Operand.ofJson_eq_ok_iff.mpr h
        obtain ⟨_⟩ := h
        exact bind_eq_ok.mpr ⟨_, hread, rfl⟩

/-- An opcode that begins like that of a call names a function. -/
theorem eq_callOpcode {opcode : String} {function : List Char}
    (h : opcode.toList = 'f' :: '_' :: function) (hname : function ≠ []) :
    opcode = "f_" ++ String.ofList function ∧ String.ofList function ≠ "" := by
  refine ⟨?_, fun hempty => hname (String.ofList_eq_empty_iff.mp hempty)⟩
  rw [← String.toList_inj, toList_callOpcode, String.toList_ofList]
  exact h

theorem expectArity_eq_ok_iff {opcode : String} {expected : Nat} {values : List Json} :
    expectArity opcode expected values = .ok () ↔ values.length = expected := by
  unfold expectArity
  split
  · next hlength => exact iff_of_true rfl hlength
  · next hlength => exact iff_of_false nofun hlength

/-- A step is read from values that stand for it. -/
theorem denoted_of_readStep {opcode : String} {values : List Json} {s : Step}
    (h : readStep opcode values = .ok s) : Step.Denoted opcode values s := by
  unfold readStep at h
  split at h
  · obtain ⟨operands, hoperands, rfl⟩ := map_eq_ok.mp h
    exact .concat (Operand.mapM_ofJson_eq_ok_iff.mp hoperands)
  · obtain ⟨operands, hoperands, rfl⟩ := map_eq_ok.mp h
    exact .hash (Operand.mapM_ofJson_eq_ok_iff.mp hoperands)
  · obtain ⟨harity, h⟩ := check_bind_eq_ok.mp h
    cases h
    rw [List.length_eq_zero_iff.mp (expectArity_eq_ok_iff.mp harity)]
    exact .reverse
  · obtain ⟨slot, hslot, rfl⟩ := map_eq_ok.mp h
    obtain ⟨value, rfl, hvalue⟩ := readSlot_eq_ok_iff.mp hslot
    exact .store hvalue
  · obtain ⟨slot, hslot, rfl⟩ := map_eq_ok.mp h
    obtain ⟨value, rfl, hvalue⟩ := readSlot_eq_ok_iff.mp hslot
    exact .load hvalue
  · obtain ⟨slot, hslot, rfl⟩ := map_eq_ok.mp h
    obtain ⟨value, rfl, hvalue⟩ := readSlot_eq_ok_iff.mp hslot
    exact .swap hvalue
  · obtain ⟨operand, hoperand, rfl⟩ := map_eq_ok.mp h
    obtain ⟨value, rfl, hvalue⟩ := readOperand_eq_ok_iff.mp hoperand
    exact .set hvalue
  · obtain ⟨template, htemplate, rfl⟩ := map_eq_ok.mp h
    obtain ⟨value, rfl, hvalue⟩ := readOperand_eq_ok_iff.mp htemplate
    exact .compose hvalue
  -- all other opcodes are those of calls
  · split at h
    · exact nomatch h
    · next function hnameless hopcode =>
        obtain ⟨arguments, harguments, rfl⟩ := map_eq_ok.mp h
        obtain ⟨rfl, hname⟩ := eq_callOpcode hopcode hnameless
        exact .call hname (Operand.mapM_ofJson_eq_ok_iff.mp harguments)
    · exact nomatch h

/-- What stands for a step is read. -/
theorem readStep_of_denoted {opcode : String} {values : List Json} {s : Step}
    (h : Step.Denoted opcode values s) : readStep opcode values = .ok s := by
  cases h with
  | concat h => exact map_eq_ok.mpr ⟨_, Operand.mapM_ofJson_eq_ok_iff.mpr h, rfl⟩
  | hash h => exact map_eq_ok.mpr ⟨_, Operand.mapM_ofJson_eq_ok_iff.mpr h, rfl⟩
  | reverse => rfl
  | store h => exact map_eq_ok.mpr ⟨_, readSlot_eq_ok_iff.mpr ⟨_, rfl, h⟩, rfl⟩
  | load h => exact map_eq_ok.mpr ⟨_, readSlot_eq_ok_iff.mpr ⟨_, rfl, h⟩, rfl⟩
  | swap h => exact map_eq_ok.mpr ⟨_, readSlot_eq_ok_iff.mpr ⟨_, rfl, h⟩, rfl⟩
  | set h => exact map_eq_ok.mpr ⟨_, readOperand_eq_ok_iff.mpr ⟨_, rfl, h⟩, rfl⟩
  | compose h => exact map_eq_ok.mpr ⟨_, readOperand_eq_ok_iff.mpr ⟨_, rfl, h⟩, rfl⟩
  | call hname h =>
      rw [readStep_call _ _ hname]
      exact map_eq_ok.mpr ⟨_, Operand.mapM_ofJson_eq_ok_iff.mpr h, rfl⟩

/-- A step is read exactly when its opcode and its values stand for it. -/
theorem readStep_eq_ok_iff {opcode : String} {values : List Json} {s : Step} :
    readStep opcode values = .ok s ↔ Step.Denoted opcode values s :=
  ⟨denoted_of_readStep, readStep_of_denoted⟩

/-! ## Instructions -/

/-- What the grammar asks of an instruction by itself, where definitions may nest so many
    levels. -/
inductive Shaped : Nat → Json → Prop
  | step {levels : Nat} {opcode : String} {values : List Json} {s : Step}
      (h : Step.Denoted opcode values s) : Shaped levels (.array (.string opcode :: values))
  | define {levels : Nat} {name : String} (hname : name ≠ "") (body : List Json) :
      Shaped (levels + 1) (.array [.string defineOpcode, .string name, .array body])

/-- Only one opcode stands for a step. -/
theorem opcode_eq_of_denoted {opcode : String} {values : List Json} {s : Step}
    (h : Step.Denoted opcode values s) : opcode = s.opcode := by
  cases h <;> rfl

/-- What stands for a step is read as the step. -/
theorem readInstruction_of_denoted {opcode : String} {values : List Json} {s : Step}
    (h : Step.Denoted opcode values s)
    (readBody : Option (Json → Except Fault (List Instruction))) :
    readInstruction readBody (.array (.string opcode :: values)) = .ok (step s) := by
  have hstep : opcode ≠ defineOpcode := opcode_eq_of_denoted h ▸ opcode_ne_defineOpcode s
  rw [readInstruction, if_neg hstep]
  exact map_eq_ok.mpr ⟨s, readStep_eq_ok_iff.mpr h, rfl⟩

/-- An instruction that has its form and is refused is a definition with a body that is
    refused. -/
theorem Shaped.readInstruction_eq_error {levels : Nat} {item : Json} {fault : Fault}
    (hshaped : Shaped levels item)
    (h : readInstruction (bodyReader levels) item = .error fault) :
    ∃ inner name body cause, levels = inner + 1 ∧ name ≠ "" ∧
      item = .array [.string defineOpcode, .string name, .array body] ∧
      readBlock inner (.array body) = .error cause ∧
      fault = cause.located (.function name) := by
  cases hshaped with
  | step hs =>
      rw [readInstruction_of_denoted hs] at h
      exact nomatch h
  | @define inner name hname body =>
      rw [readInstruction_named _ _ hname] at h
      obtain ⟨cause, hcause, rfl⟩ := mapError_eq_error.mp h
      exact ⟨inner, name, body, cause, rfl, hname, rfl, map_eq_error.mp hcause, rfl⟩

/-- Only a list is read as a block. -/
theorem exists_items_of_readBlock {levels : Nat} {value : Json} {block : List Instruction}
    (h : readBlock levels value = .ok block) : ∃ items, value = .array items := by
  rw [readBlock_eq] at h
  cases value with
  | array items => exact ⟨items, rfl⟩
  | _ => exact nomatch h

/-- A definition that is read has a name and a list for its body. -/
theorem shaped_of_readDefinition {levels : Nat} {values : List Json} {instruction : Instruction}
    (h : readDefinition (bodyReader levels) values = .ok instruction) :
    Shaped levels (.array (.string defineOpcode :: values)) := by
  unfold readDefinition at h
  split at h
  · cases levels with
    | zero => exact nomatch h
    | succ inner =>
        dsimp only [bodyReader] at h
        split at h
        · exact nomatch h
        · next name hname =>
            obtain ⟨block, hblock, -⟩ := map_eq_ok.mp (mapError_eq_ok.mp h)
            obtain ⟨items, rfl⟩ := exists_items_of_readBlock hblock
            exact .define hname items
        · exact nomatch h
  · exact nomatch h

/-- An instruction that is read has its form. -/
theorem shaped_of_readInstruction {levels : Nat} {item : Json} {instruction : Instruction}
    (h : readInstruction (bodyReader levels) item = .ok instruction) : Shaped levels item := by
  unfold readInstruction at h
  split at h
  · exact nomatch h
  · split at h
    · next hopcode =>
        rw [hopcode]
        exact shaped_of_readDefinition h
    · obtain ⟨s, hs, -⟩ := map_eq_ok.mp h
      exact .step (readStep_eq_ok_iff.mp hs)
  · exact nomatch h
  · exact nomatch h

/-! ## What is read can be expressed -/

/-- The operands of a step that is read can be expressed by tokens. -/
theorem textual_of_readStep {opcode : String} {values : List Json} {s : Step}
    (h : readStep opcode values = .ok s) : s.Textual := by
  cases readStep_eq_ok_iff.mp h with
  | concat hvalues => exact Operand.textual_of_denoted hvalues
  | hash hvalues => exact Operand.textual_of_denoted hvalues
  | set hvalue => exact List.forall_mem_singleton.mpr hvalue.textual
  | compose hvalue => exact List.forall_mem_singleton.mpr hvalue.textual
  | call _ hvalues => exact Operand.textual_of_denoted hvalues
  | _ => exact nofun

/-- The readers of bodies give blocks whose operands can be expressed. -/
def ReadsTextual (readBody : Option (Json → Except Fault (List Instruction))) : Prop :=
  ∀ reader ∈ readBody, ∀ value block, reader value = .ok block → EveryStep Step.Textual block

/-- A definition that is read has a body that is read. -/
theorem readDefinition_eq_ok {readBody : Option (Json → Except Fault (List Instruction))}
    {values : List Json} {instruction : Instruction}
    (h : readDefinition readBody values = .ok instruction) :
    ∃ reader ∈ readBody, ∃ name value block,
      reader value = .ok block ∧ instruction = define name block := by
  unfold readDefinition at h
  split at h
  · split at h
    · exact nomatch h
    · split at h
      · exact nomatch h
      · obtain ⟨block, hblock, rfl⟩ := map_eq_ok.mp (mapError_eq_ok.mp h)
        exact ⟨_, rfl, _, _, block, hblock, rfl⟩
      · exact nomatch h
  · exact nomatch h

/-- An instruction that is read in front of a block does not spoil it. -/
theorem textual_of_readInstruction {readBody : Option (Json → Except Fault (List Instruction))}
    (hbody : ReadsTextual readBody) {value : Json} {instruction : Instruction}
    (h : readInstruction readBody value = .ok instruction) {rest : List Instruction}
    (hrest : EveryStep Step.Textual rest) : EveryStep Step.Textual (instruction :: rest) := by
  unfold readInstruction at h
  split at h
  · exact nomatch h
  · split at h
    · obtain ⟨reader, hreader, name, body, block, hblock, rfl⟩ := readDefinition_eq_ok h
      exact everyStep_define_cons.mpr ⟨hbody reader hreader body block hblock, hrest⟩
    · obtain ⟨s, hs, rfl⟩ := map_eq_ok.mp h
      exact everyStep_step_cons.mpr ⟨textual_of_readStep hs, hrest⟩
  · exact nomatch h
  · exact nomatch h

theorem textual_of_readInstructions {readBody : Option (Json → Except Fault (List Instruction))}
    (hbody : ReadsTextual readBody) (items : List Json) :
    ∀ {index : Nat} {block : List Instruction},
      readInstructions readBody index items = .ok block → EveryStep Step.Textual block := by
  induction items with
  | nil =>
      intro index block h
      rw [readInstructions] at h
      cases h
      exact everyStep_nil _
  | cons item rest ih =>
      intro index block h
      rw [readInstructions] at h
      obtain ⟨instruction, hinstruction, h⟩ := bind_eq_ok.mp h
      obtain ⟨others, hothers, h⟩ := bind_eq_ok.mp h
      cases h
      exact textual_of_readInstruction hbody (mapError_eq_ok.mp hinstruction) (ih hothers)

theorem textual_of_readItems {readBody : Option (Json → Except Fault (List Instruction))}
    (hbody : ReadsTextual readBody) {value : Json} {block : List Instruction}
    (h : readItems readBody value = .ok block) : EveryStep Step.Textual block := by
  cases value with
  | array items => exact textual_of_readInstructions hbody items h
  | _ => exact nomatch h

/-- Every operand of a block that is read can be expressed by a token. -/
theorem everyStep_textual_of_readBlock (levels : Nat) :
    ∀ {value : Json} {block : List Instruction},
      readBlock levels value = .ok block → EveryStep Step.Textual block := by
  induction levels with
  | zero =>
      intro value block h
      refine textual_of_readItems ?_ h
      intro reader hreader
      cases hreader
  | succ levels ih =>
      intro value block h
      refine textual_of_readItems ?_ h
      intro reader hreader value block hblock
      cases hreader
      exact ih hblock

end Instruction

end Attest
