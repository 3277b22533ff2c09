import Attest.Program.Text
import Attest.Proofs.Operand
import Attest.Proofs.Program.Validity

/-! # Reading the values that blocks are written as

    The value of a block is read exactly when the block is `Rereadable`: it nests
    no deeper than is left, its definitions and the functions it calls are named,
    and all tokens in it can be read.  What is read is the block, with literals
    that are no text turned into hexadecimal bytes (`readBlock_blockToJson`).  A block
    with operands that tokens can express is written as it stands. -/

namespace Attest

/-! ## Operands -/

namespace Operand

/-- The values of operands are read one by one. -/
theorem mapM_ofJson_eq_ok {operands results : List Operand} :
    (operands.map fun operand => Json.string operand.token).mapM ofJson = .ok results ↔
      (∀ operand ∈ operands, operand.Readable) ∧ results = operands.map reread := by
  have hmap : List.Forall₂ (fun operand result => result = reread operand) operands results ↔
      results = operands.map reread :=
    calc
      _ ↔ List.Forall₂ (· = ·) (operands.map reread) results := by
          rw [List.forall₂_map_left_iff]
          simp only [eq_comm]
      _ ↔ operands.map reread = results := by rw [List.forall₂_eq_eq_eq]
      _ ↔ results = operands.map reread := eq_comm
  rw [mapM_eq_ok, List.forall₂_map_left_iff]
  simp only [ofJson, ofToken_token_eq_ok]
  rw [List.forall₂_and_left, hmap]

end Operand

/-! ## Steps -/

namespace Step

/-- The step with every operand changed. -/
def mapOperands (f : Operand → Operand) : Step → Step
  | concat operands => concat (operands.map f)
  | hash operands => hash (operands.map f)
  | reverse => reverse
  | store slot => store slot
  | load slot => load slot
  | set operand => set (f operand)
  | swap slot => swap slot
  | compose template => compose (f template)
  | call function arguments => call function (arguments.map f)

/-- The step that comes back when a step is written and read. -/
def reread (step : Step) : Step :=
  step.mapOperands Operand.reread

/-- The tokens of a step can be read, and the function that it calls is named. -/
structure Readable (step : Step) : Prop where
  operands : ∀ operand ∈ step.operands, operand.Readable
  call : ∀ arguments, step ≠ .call "" arguments

theorem readable_iff (step : Step) (h : ∀ arguments, step ≠ .call "" arguments) :
    step.Readable ↔ ∀ operand ∈ step.operands, operand.Readable :=
  ⟨Readable.operands, fun hoperands => ⟨hoperands, h⟩⟩

/-- The operands of a step can be expressed by tokens. -/
def Textual (step : Step) : Prop :=
  ∀ operand ∈ step.operands, operand.Textual

/-- The values behind the opcode. -/
def values (step : Step) : List Json :=
  match step.address? with
  | some slot => [Json.integer slot.toNat]
  | none => step.operands.map fun operand => .string operand.token

/-- A step comes back as it is if its operands can be expressed. -/
theorem Textual.reread_eq {step : Step} (h : step.Textual) : step.reread = step := by
  have hmap : ∀ {operands : List Operand}, (∀ operand ∈ operands, operand.Textual) →
      operands.map Operand.reread = operands := by
    intro operands hoperands
    rw [List.map_congr_left fun operand hmem => (hoperands operand hmem).reread_eq, List.map_id']
  cases step with
  | concat operands => exact congrArg concat (hmap h)
  | hash operands => exact congrArg hash (hmap h)
  | set operand => exact congrArg set (h operand List.mem_cons_self).reread_eq
  | compose template => exact congrArg compose (h template List.mem_cons_self).reread_eq
  | call function arguments => exact congrArg (call function) (hmap h)
  | _ => rfl

theorem toJson_eq (step : Step) : step.toJson = .array (.string step.opcode :: step.values) := rfl

end Step

namespace Instruction

theorem readSlot_values (opcode : String) (slot : UInt32) :
    readSlot opcode [.integer slot.toNat] = .ok slot := by
  have hslot : slot.toNat < 4294967296 := slot.toNat_lt
  have hfits : Decimal.FitsWord slot.toNat := ⟨by omega, by omega⟩
  rw [readSlot, if_pos hfits]
  exact Operand.slotAt_toNat slot

theorem readOperand_values {opcode : String} {operand result : Operand} :
    readOperand opcode [.string operand.token] = .ok result ↔
      operand.Readable ∧ result = operand.reread :=
  Operand.ofToken_token_eq_ok

/-- A call is not read without a name. -/
theorem readStep_callWithoutName (values : List Json) :
    readStep "f_" values = .error (.ofDefect .callWithoutName) := by
  rfl

theorem toList_callOpcode (function : String) :
    ("f_" ++ function).toList = 'f' :: '_' :: function.toList := by
  rw [String.toList_append]
  rfl

/-- The opcode of a call is none of the other opcodes. -/
theorem callOpcode_ne (function : String) {opcode : String}
    (h : opcode.toList.head? = some 'o') : "f_" ++ function ≠ opcode := by
  intro heq
  rw [← heq, toList_callOpcode] at h
  exact nomatch h

/-- What is read behind the name of a call. -/
theorem readStep_call (function : String) (values : List Json) (hname : function ≠ "") :
    readStep ("f_" ++ function) values =
      Step.call function <$> values.mapM Operand.ofJson := by
  unfold readStep
  split
  -- no other opcode begins like a call
  iterate 8 exact absurd ‹_› (callOpcode_ne function (by decide))
  rw [toList_callOpcode]
  cases hcases : function.toList with
  | nil => exact absurd (String.toList_eq_nil_iff.mp hcases) hname
  | cons c rest =>
      show Step.call (String.ofList (c :: rest)) <$> _ = _
      rw [← hcases, String.ofList_toList]

/-- Operands behind an opcode are read when all of them can be. -/
theorem map_mapM_eq_ok {build : List Operand → Step} {operands : List Operand} {result : Step} :
    build <$> (operands.map fun operand => Json.string operand.token).mapM Operand.ofJson =
        .ok result ↔
      (∀ operand ∈ operands, operand.Readable) ∧ result = build (operands.map Operand.reread) := by
  rw [map_eq_ok]
  constructor
  · rintro ⟨results, hresults, rfl⟩
    obtain ⟨hreadable, rfl⟩ := Operand.mapM_ofJson_eq_ok.mp hresults
    exact ⟨hreadable, rfl⟩
  · rintro ⟨hreadable, rfl⟩
    exact ⟨_, Operand.mapM_ofJson_eq_ok.mpr ⟨hreadable, rfl⟩, rfl⟩

/-- The operand behind an opcode is read when it can be. -/
theorem map_readOperand_eq_ok {build : Operand → Step} {opcode : String} {operand : Operand}
    {result : Step} :
    build <$> readOperand opcode [.string operand.token] = .ok result ↔
      operand.Readable ∧ result = build operand.reread := by
  rw [map_eq_ok]
  constructor
  · rintro ⟨value, hvalue, rfl⟩
    obtain ⟨hreadable, rfl⟩ := readOperand_values.mp hvalue
    exact ⟨hreadable, rfl⟩
  · rintro ⟨hreadable, rfl⟩
    exact ⟨_, readOperand_values.mpr ⟨hreadable, rfl⟩, rfl⟩

/-- The slot behind an opcode is read. -/
theorem map_readSlot_eq_ok {build : UInt32 → Step} {opcode : String} {slot : UInt32}
    {result : Step} :
    build <$> readSlot opcode [.integer slot.toNat] = .ok result ↔ result = build slot := by
  rw [readSlot_values, map_eq_ok]
  exact ⟨fun ⟨_, h, hresult⟩ => Except.ok.inj h ▸ hresult, fun h => ⟨slot, rfl, h⟩⟩

/-- The written form of a step is read exactly when the step is readable. -/
theorem readStep_values {s result : Step} :
    readStep s.opcode s.values = .ok result ↔ s.Readable ∧ result = s.reread := by
  cases s with
  | concat operands =>
      rw [Step.readable_iff (.concat operands) nofun]
      exact map_mapM_eq_ok
  | hash operands =>
      rw [Step.readable_iff (.hash operands) nofun]
      exact map_mapM_eq_ok
  | reverse =>
      rw [Step.readable_iff .reverse nofun]
      exact ⟨fun h => ⟨nofun, (Except.ok.inj h).symm⟩, fun h => congrArg _ h.2.symm⟩
  | store slot =>
      rw [Step.readable_iff (.store slot) nofun]
      exact map_readSlot_eq_ok.trans ⟨fun h => ⟨nofun, h⟩, And.right⟩
  | load slot =>
      rw [Step.readable_iff (.load slot) nofun]
      exact map_readSlot_eq_ok.trans ⟨fun h => ⟨nofun, h⟩, And.right⟩
  | set operand =>
      rw [Step.readable_iff (.set operand) nofun, Step.operands, List.forall_mem_singleton]
      exact map_readOperand_eq_ok
  | swap slot =>
      rw [Step.readable_iff (.swap slot) nofun]
      exact map_readSlot_eq_ok.trans ⟨fun h => ⟨nofun, h⟩, And.right⟩
  | compose template =>
      rw [Step.readable_iff (.compose template) nofun, Step.operands, List.forall_mem_singleton]
      exact map_readOperand_eq_ok
  | call function arguments =>
      by_cases hname : function = ""
      · subst hname
        rw [Step.opcode, String.append_empty, readStep_callWithoutName]
        exact ⟨nofun, fun h => absurd rfl (h.1.call arguments)⟩
      · have hcall : ∀ others, Step.call function arguments ≠ .call "" others := by
          intro others heq
          cases heq
          exact hname rfl
        rw [Step.readable_iff (.call function arguments) hcall, Step.opcode,
          readStep_call function _ hname]
        exact map_mapM_eq_ok

/-! ## Blocks -/

mutual

/-- The instruction with every step in it changed. -/
def mapStep (f : Step → Step) : Instruction → Instruction
  | step s => step (f s)
  | define name body => define name (mapSteps f body)

/-- The block with every step in it changed. -/
def mapSteps (f : Step → Step) : List Instruction → List Instruction
  | [] => []
  | instruction :: rest => mapStep f instruction :: mapSteps f rest

end

/-- Changing every step to itself changes nothing. -/
theorem mapSteps_eq_self {f : Step → Step} (block : List Instruction) :
    EveryStep (fun s => f s = s) block → mapSteps f block = block := by
  induction block using block_induction with
  | nil =>
      intro _
      rw [mapSteps]
  | step s rest ih =>
      intro h
      obtain ⟨hs, hrest⟩ := everyStep_step_cons.mp h
      rw [mapSteps, mapStep, hs, ih hrest]
  | define name body rest body_ih ih =>
      intro h
      obtain ⟨hbody, hrest⟩ := everyStep_define_cons.mp h
      rw [mapSteps, mapStep, body_ih hbody, ih hrest]

/-- The written form of a block can be read where definitions may nest so many
    levels. -/
structure Rereadable (levels : Nat) (block : List Instruction) : Prop where
  depth : nesting block ≤ levels
  names : ∀ d ∈ definitions block, d.1 ≠ ""
  steps : EveryStep Step.Readable block

theorem rereadable_nil (levels : Nat) : Rereadable levels [] where
  depth := by simp
  names := by simp
  steps := by simp

theorem rereadable_step_cons {levels : Nat} {s : Step} {rest : List Instruction} :
    Rereadable levels (step s :: rest) ↔ s.Readable ∧ Rereadable levels rest := by
  constructor
  · rintro ⟨hdepth, hnames, hsteps⟩
    rw [nesting_step_cons] at hdepth
    rw [definitions_step_cons] at hnames
    rw [everyStep_step_cons] at hsteps
    exact ⟨hsteps.1, hdepth, hnames, hsteps.2⟩
  · rintro ⟨hs, hdepth, hnames, hsteps⟩
    refine ⟨?_, ?_, everyStep_step_cons.mpr ⟨hs, hsteps⟩⟩
    · rwa [nesting_step_cons]
    · rwa [definitions_step_cons]

/-- A definition takes one of the levels for its body. -/
theorem rereadable_define_cons {levels : Nat} {name : String} {body rest : List Instruction} :
    Rereadable levels (define name body :: rest) ↔
      (∃ inner, levels = inner + 1 ∧ name ≠ "" ∧ Rereadable inner body) ∧
        Rereadable levels rest := by
  constructor
  · rintro ⟨hdepth, hnames, hsteps⟩
    rw [nesting_define_cons] at hdepth
    rw [definitions_define_cons, List.forall_mem_cons, List.forall_mem_append] at hnames
    rw [everyStep_define_cons] at hsteps
    obtain ⟨hname, hinner, hlater⟩ := hnames
    refine ⟨⟨levels - 1, by omega, hname, by omega, hinner, hsteps.1⟩, by omega, hlater, hsteps.2⟩
  · rintro ⟨⟨inner, rfl, hname, hbody⟩, hrest⟩
    have hdepth := hbody.depth
    have hlater := hrest.depth
    refine ⟨?_, ?_, everyStep_define_cons.mpr ⟨hbody.steps, hrest.steps⟩⟩
    · rw [nesting_define_cons]
      omega
    · rw [definitions_define_cons, List.forall_mem_cons, List.forall_mem_append]
      exact ⟨hname, hbody.names, hrest.names⟩

/-- The reader of bodies where definitions may nest so many levels. -/
def bodyReader : Nat → Option (Json → Except Fault (List Instruction))
  | 0 => none
  | levels + 1 => some (readBlock levels)

theorem readBlock_eq (levels : Nat) : readBlock levels = readItems (bodyReader levels) := by
  cases levels <;> rfl

/-- The opcode of a step is not that of a definition. -/
theorem opcode_ne_defineOpcode (s : Step) : s.opcode ≠ defineOpcode := by
  cases s with
  | call function arguments => exact callOpcode_ne function (by decide)
  | _ => exact of_decide_eq_true rfl

/-- The written form of a step is read exactly when the step is readable. -/
theorem readInstruction_step {levels : Nat} {s : Step} {result : Instruction} :
    readInstruction (bodyReader levels) s.toJson = .ok result ↔
      s.Readable ∧ result = step s.reread := by
  rw [Step.toJson_eq, readInstruction, if_neg (opcode_ne_defineOpcode s), map_eq_ok]
  constructor
  · rintro ⟨read, hread, rfl⟩
    obtain ⟨hreadable, rfl⟩ := readStep_values.mp hread
    exact ⟨hreadable, rfl⟩
  · rintro ⟨hreadable, rfl⟩
    exact ⟨_, readStep_values.mpr ⟨hreadable, rfl⟩, rfl⟩

theorem readDefinition_named (readBody : Json → Except Fault (List Instruction)) (body : Json)
    {name : String} (hname : name ≠ "") :
    readDefinition (some readBody) [.string name, body] =
      (define name <$> readBody body).mapError (Fault.located (.function name)) := by
  unfold readDefinition
  simp only

/-- A definition is read by reading its body with one level less. -/
theorem readInstruction_named (levels : Nat) (body : Json) {name : String} (hname : name ≠ "") :
    readInstruction (bodyReader (levels + 1))
        (.array [.string defineOpcode, .string name, body]) =
      (define name <$> readBlock levels body).mapError (Fault.located (.function name)) := by
  rw [readInstruction, if_pos rfl, bodyReader, readDefinition_named _ _ hname]

/-- The written form of a definition is read where a level is left, if the
    definition is named and its body is read. -/
theorem readInstruction_define {levels : Nat} {name : String} {body : Json}
    {result : Instruction} :
    readInstruction (bodyReader levels) (.array [.string defineOpcode, .string name, body]) =
        .ok result ↔
      ∃ inner, levels = inner + 1 ∧ name ≠ "" ∧
        ∃ block, readBlock inner body = .ok block ∧ result = define name block := by
  cases levels with
  | zero =>
      rw [readInstruction, if_pos rfl]
      show Except.error (Fault.ofDefect .nestedTooDeep) = _ ↔ _
      exact ⟨nofun, fun ⟨_, h, _⟩ => nomatch h⟩
  | succ inner =>
      by_cases hname : name = ""
      · rw [readInstruction, if_pos rfl, hname]
        show Except.error (Fault.ofDefect .emptyName) = _ ↔ _
        exact ⟨nofun, fun ⟨_, _, h, _⟩ => absurd rfl h⟩
      · rw [readInstruction_named inner body hname, mapError_eq_ok, map_eq_ok]
        constructor
        · rintro ⟨block, hblock, hresult⟩
          exact ⟨inner, rfl, hname, block, hblock, hresult⟩
        · rintro ⟨other, hother, -, block, hblock, hresult⟩
          cases hother
          exact ⟨block, hblock, hresult⟩

/-- The written form of a block is read exactly when the block is rereadable. -/
theorem readInstructions_blockToJson (block : List Instruction) :
    ∀ {levels index : Nat} {result : List Instruction},
      readInstructions (bodyReader levels) index (blockToJson block) = .ok result ↔
        Rereadable levels block ∧ result = mapSteps Step.reread block := by
  induction block using block_induction with
  | nil =>
      intro levels index result
      rw [blockToJson, readInstructions, mapSteps]
      exact ⟨fun h => ⟨rereadable_nil levels, (Except.ok.inj h).symm⟩, fun h => congrArg _ h.2.symm⟩
  | step s rest ih =>
      intro levels index result
      rw [blockToJson, toJson, readInstructions, bind_eq_ok, mapSteps, mapStep,
        rereadable_step_cons]
      constructor
      · rintro ⟨first, hfirst, h⟩
        obtain ⟨others, hothers, h⟩ := bind_eq_ok.mp h
        obtain ⟨hs, rfl⟩ := readInstruction_step.mp (mapError_eq_ok.mp hfirst)
        obtain ⟨hrest, rfl⟩ := ih.mp hothers
        cases h
        exact ⟨⟨hs, hrest⟩, rfl⟩
      · rintro ⟨⟨hs, hrest⟩, rfl⟩
        exact ⟨_, mapError_eq_ok.mpr (readInstruction_step.mpr ⟨hs, rfl⟩),
          bind_eq_ok.mpr ⟨_, ih.mpr ⟨hrest, rfl⟩, rfl⟩⟩
  | define name body rest body_ih ih =>
      intro levels index result
      rw [blockToJson, toJson, readInstructions, bind_eq_ok, mapSteps, mapStep,
        rereadable_define_cons]
      -- the body is read with one level less, so the hypothesis is used at that level
      have hbody : ∀ {inner : Nat} {block : List Instruction},
          readBlock inner (.array (blockToJson body)) = .ok block ↔
            Rereadable inner body ∧ block = mapSteps Step.reread body := by
        intro inner block
        rw [readBlock_eq]
        exact body_ih
      constructor
      · rintro ⟨first, hfirst, h⟩
        obtain ⟨others, hothers, h⟩ := bind_eq_ok.mp h
        obtain ⟨inner, hlevels, hname, block, hblock, rfl⟩ :=
          readInstruction_define.mp (mapError_eq_ok.mp hfirst)
        obtain ⟨hreadable, rfl⟩ := hbody.mp hblock
        obtain ⟨hrest, rfl⟩ := ih.mp hothers
        cases h
        exact ⟨⟨⟨inner, hlevels, hname, hreadable⟩, hrest⟩, rfl⟩
      · rintro ⟨⟨⟨inner, hlevels, hname, hreadable⟩, hrest⟩, rfl⟩
        refine ⟨_, mapError_eq_ok.mpr (readInstruction_define.mpr ⟨inner, hlevels, hname, _,
          hbody.mpr ⟨hreadable, rfl⟩, rfl⟩), ?_⟩
        exact bind_eq_ok.mpr ⟨_, ih.mpr ⟨hrest, rfl⟩, rfl⟩

/-- The value of a block is read exactly when the block is rereadable. -/
theorem readBlock_blockToJson {levels : Nat} {block result : List Instruction} :
    readBlock levels (.array (blockToJson block)) = .ok result ↔
      Rereadable levels block ∧ result = mapSteps Step.reread block := by
  rw [readBlock_eq]
  exact readInstructions_blockToJson block

end Instruction

/-- Of what the reader asks for, validation leaves open only whether the steps can be
    read. -/
theorem Program.rereadable_iff (program : Program) :
    Instruction.Rereadable mostNested program.instructions ↔
      Instruction.EveryStep Step.Readable program.instructions :=
  ⟨fun h => h.steps, fun h => ⟨nesting_le_of_validate program.valid, program.name_ne_empty, h⟩⟩

end Attest
