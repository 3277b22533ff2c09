import Attest.Program.Packed
import Attest.Proofs.Machine.Depth

/-! # What the text of a program keeps

    Programs need not come from text: the packed form has numbers of 64 bits and literals
    of any bytes.  The written value of a program is read back exactly when all numbers in
    it fit a signed word, and what is read is the program with those literals that are no
    text turned into hexadecimal bytes (`ofJson_toJson_eq_ok`).  Validation has asked for
    everything else, so a value that is not read has a number that does not fit, and the
    fault says so.

    Literals and hexadecimal bytes resolve to the same bytes.  So what is read runs like
    the program, step by step on the same machines. -/

namespace Attest

open Instruction (nesting definitions blocks mapSteps blockToJson EveryStep Rereadable)

/-! ## Operands -/

namespace Operand

/-- The number of the operand, if it has one, fits a signed word. -/
def NumberFits : Operand → Prop
  | argument index => Decimal.FitsWord index.toNat
  | read (.bounded count) => Decimal.FitsWord count.toNat
  | _ => True

/-- An operand in scope can be read if its number fits. -/
theorem readable_iff_numberFits {operand : Operand} {inBody : Bool}
    (hscope : operand.InScope inBody) : operand.Readable ↔ operand.NumberFits := by
  cases operand with
  | argument index => exact ⟨And.right, fun hfits => ⟨(hscope index rfl).1, hfits⟩⟩
  | read length => cases length <;> exact Iff.rfl
  | _ => exact Iff.rfl

/-- Only literals come back as something else, with the same bytes. -/
theorem reread_cases (operand : Operand) :
    operand.reread = operand ∨ ∃ bytes, operand = literal bytes ∧ operand.reread = hex bytes := by
  cases operand with
  | literal bytes =>
      rw [reread]
      split
      · exact Or.inl rfl
      · exact Or.inr ⟨bytes, rfl, rfl⟩
  | _ => exact Or.inl rfl

theorem keepsScope_reread : KeepsScope reread := by
  intro operand inBody
  rcases reread_cases operand with hsame | ⟨bytes, rfl, hhex⟩
  · rw [hsame]
  · rw [hhex]
    rfl

theorem keepsKind_reread : KeepsKind reread where
  buffer := by
    intro operand
    rcases reread_cases operand with hsame | ⟨bytes, rfl, hhex⟩
    · rw [hsame]
    · rw [hhex]
      exact iff_of_false nofun nofun
  readsSource := by
    intro operand
    rcases reread_cases operand with hsame | ⟨bytes, rfl, hhex⟩
    · rw [hsame]
    · rw [hhex]
      rfl

/-- What is read resolves to the same bytes. -/
theorem resolve_reread (settings : Settings) (operand : Operand) :
    Run.resolve settings operand.reread = Run.resolve settings operand := by
  rcases reread_cases operand with hsame | ⟨bytes, rfl, hhex⟩
  · rw [hsame]
  · rw [hhex]
    rfl

/-- The fault is that the number of the operand is none that can be read. -/
def Blamed (fault : Fault) (operand : Operand) : Prop :=
  ¬ operand.NumberFits ∧ ∃ path, fault = .malformed path (.notAnInteger operand.token)

theorem integer_of_not_fitsWord {n : Nat} (h : ¬ Decimal.FitsWord n) (token : String) :
    integer token (Nat.toDigits 10 n) = .error (.ofDefect (.notAnInteger token)) := by
  rw [integer, Decimal.word?_toDigits, if_neg h]

/-- The token of an operand in scope is refused only for its number. -/
theorem blamed_of_ofToken {operand : Operand} {inBody : Bool} {fault : Fault}
    (hscope : operand.InScope inBody) (h : ofToken operand.token = .error fault) :
    operand.Blamed fault := by
  have hnot : ¬ operand.NumberFits := by
    intro hfits
    have hok := ofToken_token_eq_ok.mpr ⟨(readable_iff_numberFits hscope).mpr hfits, rfl⟩
    exact nomatch hok.symm.trans h
  refine ⟨hnot, [], ?_⟩
  cases operand with
  | argument index =>
      rw [ofToken_argument, integer_of_not_fitsWord hnot] at h
      cases h
      rfl
  | read length =>
      cases length with
      | bounded count =>
          rw [ofToken_bounded, integer_of_not_fitsWord hnot] at h
          cases h
          rfl
      | rest => exact absurd trivial hnot
  | _ => exact absurd trivial hnot

/-- Operands in scope are refused only for the number of one of them. -/
theorem blamed_of_mapM_ofJson {operands : List Operand} {inBody : Bool} {fault : Fault}
    (hscope : ∀ operand ∈ operands, operand.InScope inBody)
    (h : (operands.map fun operand => Json.string operand.token).mapM ofJson = .error fault) :
    ∃ operand ∈ operands, operand.Blamed fault := by
  obtain ⟨front, value, rest, hsplit, -, hfault⟩ := mapM_eq_error.mp h
  have hvalue : value ∈ operands.map fun operand => Json.string operand.token := by
    rw [hsplit]
    exact List.mem_append_right front List.mem_cons_self
  obtain ⟨operand, hmem, rfl⟩ := List.mem_map.mp hvalue
  exact ⟨operand, hmem, blamed_of_ofToken (hscope operand hmem) hfault⟩

end Operand

namespace Step

/-- The numbers of the step fit. -/
def NumbersFit (s : Step) : Prop :=
  ∀ operand ∈ s.operands, operand.NumberFits

/-- The fault is that the number of an operand of the step is none that can be read. -/
def Blamed (fault : Fault) (s : Step) : Prop :=
  ∃ operand ∈ s.operands, operand.Blamed fault

/-- Naming the place of the fault does not take the blame away. -/
theorem Blamed.located {fault : Fault} {s : Step} (h : s.Blamed fault) (place : Place) :
    s.Blamed (fault.located place) := by
  obtain ⟨operand, hmem, hnot, path, rfl⟩ := h
  exact ⟨operand, hmem, hnot, place :: path, rfl⟩

variable {program : Program} {s : Step} {inBody : Bool}

/-- A step in scope can be read if its numbers fit. -/
theorem readable_iff_numbersFit (hscope : s.InScope program.functions inBody) :
    s.Readable ↔ s.NumbersFit := by
  rw [readable_iff s (Program.named_of_inScope hscope)]
  exact forall₂_congr fun operand hmem =>
    Operand.readable_iff_numberFits (hscope.operands operand hmem)

/-- A step in scope is refused only for a number in it. -/
theorem blamed_of_readStep (hscope : s.InScope program.functions inBody) {fault : Fault}
    (h : Instruction.readStep s.opcode s.values = .error fault) : s.Blamed fault := by
  have hreadable : s.operands = [] → s.Blamed fault := by
    intro hnone
    have hfits : s.NumbersFit := fun operand hmem => nomatch hnone ▸ hmem
    have hok := Instruction.readStep_values.mpr
      ⟨(readable_iff_numbersFit hscope).mpr hfits, rfl⟩
    exact nomatch hok.symm.trans h
  cases s with
  | concat operands => exact Operand.blamed_of_mapM_ofJson hscope.operands (map_eq_error.mp h)
  | hash operands => exact Operand.blamed_of_mapM_ofJson hscope.operands (map_eq_error.mp h)
  | set operand =>
      exact ⟨operand, List.mem_cons_self, Operand.blamed_of_ofToken
        (hscope.operands operand List.mem_cons_self) (map_eq_error.mp h)⟩
  | compose template =>
      exact ⟨template, List.mem_cons_self, Operand.blamed_of_ofToken
        (hscope.operands template List.mem_cons_self) (map_eq_error.mp h)⟩
  | call function arguments =>
      have hname : function ≠ "" := by
        rintro rfl
        exact Program.named_of_inScope hscope arguments rfl
      rw [opcode, Instruction.readStep_call function _ hname, map_eq_error] at h
      exact Operand.blamed_of_mapM_ofJson hscope.operands h
  | _ => exact hreadable rfl

end Step

/-! ## Blocks -/

namespace Instruction

/-- The predicate holds of some step in a block at some level. -/
def SomeStep (p : Step → Prop) (block : List Instruction) : Prop :=
  ∃ inner ∈ blocks block, ∃ s, step s ∈ inner ∧ p s

theorem someStep_iff {p : Step → Prop} {block : List Instruction} :
    SomeStep p block ↔ ¬ EveryStep (fun s => ¬ p s) block := by
  simp [SomeStep, EveryStep]

theorem SomeStep.mono {p q : Step → Prop} {block : List Instruction} (h : SomeStep p block)
    (hpq : ∀ s, p s → q s) : SomeStep q block := by
  obtain ⟨inner, hinner, s, hs, hp⟩ := h
  exact ⟨inner, hinner, s, hs, hpq s hp⟩

theorem someStep_step_cons {p : Step → Prop} {s : Step} {rest : List Instruction} :
    SomeStep p (step s :: rest) ↔ p s ∨ SomeStep p rest := by
  simp only [someStep_iff, everyStep_step_cons, Classical.not_and_iff_not_or_not, Classical.not_not]

theorem someStep_define_cons {p : Step → Prop} {name : String} {body rest : List Instruction} :
    SomeStep p (define name body :: rest) ↔ SomeStep p body ∨ SomeStep p rest := by
  simp only [someStep_iff, everyStep_define_cons, Classical.not_and_iff_not_or_not]

/-- The written form of a definition is refused for its body, where a level is left. -/
theorem readInstruction_define_eq_error {inner : Nat} {name : String} (hname : name ≠ "")
    {body : Json} {fault : Fault}
    (h : readInstruction (bodyReader (inner + 1))
      (.array [.string defineOpcode, .string name, body]) = .error fault) :
    ∃ cause, readBlock inner body = .error cause ∧ fault = cause.located (.function name) := by
  rw [readInstruction_named _ _ hname, mapError_eq_error] at h
  obtain ⟨cause, hcause, hfault⟩ := h
  exact ⟨cause, map_eq_error.mp hcause, hfault⟩

/-- The written form of a block is refused only for a number in it, if that is the only
    thing for which the steps in it are refused. -/
theorem blamed_of_readInstructions (block : List Instruction) :
    ∀ {levels index : Nat} {fault : Fault}, nesting block ≤ levels →
      (∀ d ∈ definitions block, d.1 ≠ "") →
      EveryStep (fun s => ∀ fault, readStep s.opcode s.values = .error fault → s.Blamed fault)
        block →
      readInstructions (bodyReader levels) index (blockToJson block) = .error fault →
      SomeStep (Step.Blamed fault) block := by
  induction block using block_induction with
  | nil =>
      intro levels index fault _ _ _ h
      rw [blockToJson, readInstructions] at h
      cases h
  | step s rest ih =>
      intro levels index fault hdepth hnames hsteps h
      rw [nesting_step_cons] at hdepth
      rw [definitions_step_cons] at hnames
      rw [everyStep_step_cons] at hsteps
      rw [blockToJson, toJson, readInstructions, bind_eq_error] at h
      rw [someStep_step_cons]
      rcases h with hfirst | ⟨first, -, h⟩
      · obtain ⟨cause, hcause, rfl⟩ := mapError_eq_error.mp hfirst
        rw [Step.toJson_eq, readInstruction, if_neg (opcode_ne_defineOpcode s),
          map_eq_error] at hcause
        exact Or.inl ((hsteps.1 cause hcause).located _)
      · rcases bind_eq_error.mp h with hrest | ⟨others, -, h⟩
        · exact Or.inr (ih hdepth hnames hsteps.2 hrest)
        · cases h
  | define name body rest body_ih ih =>
      intro levels index fault hdepth hnames hsteps h
      rw [nesting_define_cons] at hdepth
      rw [definitions_define_cons, List.forall_mem_cons, List.forall_mem_append] at hnames
      rw [everyStep_define_cons] at hsteps
      obtain ⟨hname, hinner, hlater⟩ := hnames
      -- the body nests one level less, and there is one level less for it
      obtain ⟨inner, rfl⟩ : ∃ inner, levels = inner + 1 := ⟨levels - 1, by omega⟩
      rw [blockToJson, toJson, readInstructions, bind_eq_error] at h
      rw [someStep_define_cons]
      rcases h with hfirst | ⟨first, -, h⟩
      · obtain ⟨cause, hcause, rfl⟩ := mapError_eq_error.mp hfirst
        obtain ⟨deeper, hdeeper, rfl⟩ := readInstruction_define_eq_error hname hcause
        rw [readBlock_eq] at hdeeper
        have hblamed := body_ih (by omega) hinner hsteps.1 hdeeper
        exact Or.inl (hblamed.mono fun s hs => (hs.located _).located _)
      · rcases bind_eq_error.mp h with hrest | ⟨others, -, h⟩
        · exact Or.inr (ih (by omega) hlater hsteps.2 hrest)
        · cases h

end Instruction

/-! ## Programs -/

namespace Program

/-- The program with every literal that is no text turned into hexadecimal bytes. -/
def reread (program : Program) : Program :=
  program.mapOperands Operand.reread Operand.keepsScope_reread

/-- Everything but the numbers is as the reader asks for. -/
theorem rereadable_iff_numbersFit (program : Program) :
    Rereadable mostNested program.instructions ↔
      EveryStep Step.NumbersFit program.instructions := by
  rw [rereadable_iff]
  refine forall₂_congr fun inner hinner => forall₂_congr fun s hs => ?_
  obtain ⟨inBody, hscope⟩ := program.everyStep_inScope inner hinner s hs
  exact Step.readable_iff_numbersFit hscope

/-- The value of a program is read back as its rereading, if the numbers in it fit. -/
theorem ofJson_toJson_eq_ok {program again : Program} :
    ofJson program.toJson = .ok again ↔
      EveryStep Step.NumbersFit program.instructions ∧ again = program.reread := by
  rw [ofJson, toJson, bind_eq_ok, ← rereadable_iff_numbersFit]
  constructor
  · rintro ⟨block, hblock, hagain⟩
    obtain ⟨hreadable, rfl⟩ := Instruction.readBlock_blockToJson.mp hblock
    exact ⟨hreadable, Program.ext (ofInstructions_eq_ok.mp hagain)⟩
  · rintro ⟨hreadable, rfl⟩
    exact ⟨_, Instruction.readBlock_blockToJson.mpr ⟨hreadable, rfl⟩,
      ofInstructions_eq_ok.mpr rfl⟩

/-- **WHICH PROGRAMS HAVE A TEXT**: the value that a program is written as is read as a
    program exactly when every argument index and every bounded read in it, at every level,
    fits a signed word.  Otherwise the fault is that there is no integer in the token of one
    that does not. -/
theorem ofJson_toJson_isOk_iff (program : Program) :
    ((∃ again, ofJson program.toJson = .ok again) ↔
      EveryStep Step.NumbersFit program.instructions) ∧
    ∀ fault, ofJson program.toJson = .error fault →
      Instruction.SomeStep (Step.Blamed fault) program.instructions := by
  have hread : (∃ again, ofJson program.toJson = .ok again) ↔
      EveryStep Step.NumbersFit program.instructions :=
    ⟨fun ⟨_, h⟩ => (ofJson_toJson_eq_ok.mp h).1, fun h => ⟨_, ofJson_toJson_eq_ok.mpr ⟨h, rfl⟩⟩⟩
  refine ⟨hread, fun fault h => ?_⟩
  have hfailed := h
  rw [ofJson, toJson, bind_eq_error] at h
  rcases h with hblock | ⟨block, hblock, -⟩
  · rw [Instruction.readBlock_eq] at hblock
    refine Instruction.blamed_of_readInstructions _ (nesting_le_of_validate program.valid)
      program.name_ne_empty (fun inner hinner s hs fault => ?_) hblock
    obtain ⟨inBody, hscope⟩ := program.everyStep_inScope inner hinner s hs
    exact Step.blamed_of_readStep hscope
  -- a block that is read makes up a program
  · obtain ⟨hreadable, -⟩ := Instruction.readBlock_blockToJson.mp hblock
    obtain ⟨again, hagain⟩ := hread.mpr (program.rereadable_iff_numbersFit.mp hreadable)
    exact nomatch hagain.symm.trans hfailed

/-- A program that reads up to 2^63 bytes. -/
def beyondWord : Program where
  instructions := [.step (.set (.read (.bounded 0x8000000000000000)))]
  functions := ⟨[]⟩
  valid := by rfl

theorem not_numbersFit_beyondWord : ¬ EveryStep Step.NumbersFit beyondWord.instructions := by
  intro hfits
  obtain ⟨hstep, -⟩ := Instruction.everyStep_step_cons.mp hfits
  have hread : Decimal.FitsWord 0x8000000000000000 := hstep _ List.mem_cons_self
  exact absurd hread (by decide)

/-- Its number is what reading it back fails for. -/
theorem ofJson_toJson_isOk_iff_beyondWord :
    ∃ path, ofJson beyondWord.toJson =
      .error (.malformed path
        (.notAnInteger (Operand.token (.read (.bounded 0x8000000000000000))))) := by
  obtain ⟨hread, hblamed⟩ := ofJson_toJson_isOk_iff beyondWord
  cases houtcome : ofJson beyondWord.toJson with
  | ok again => exact absurd (hread.mp ⟨again, houtcome⟩) not_numbersFit_beyondWord
  | error fault =>
      rcases Instruction.someStep_step_cons.mp (hblamed fault houtcome) with hstep | hrest
      · obtain ⟨operand, hmem, -, path, rfl⟩ := hstep
        cases List.mem_singleton.mp hmem
        exact ⟨path, rfl⟩
      · simp [Instruction.someStep_iff] at hrest

/-- The packed form can express it. -/
theorem not_ofJson_toJson_of_unpack :
    ¬ ∀ bytes program, unpack bytes = .ok program → ∃ again, ofJson program.toJson = .ok again := by
  intro hall
  have hunpack : unpack [0x01, 0x05, 0x05, 0x00,
      0x80, 0x80, 0x80, 0x80, 0x80, 0x80, 0x80, 0x80, 0x80, 0x01] = .ok beyondWord := by
    rfl
  obtain ⟨again, hagain⟩ := hall _ beyondWord hunpack
  exact not_numbersFit_beyondWord (ofJson_toJson_eq_ok.mp hagain).1

end Program

/-! ## Runs -/

open Machine (SameWhere)

/-- A program with operands that resolve to the same bytes runs like the program. -/
theorem Program.execute_mapOperands {f : Operand → Operand} (hscope : Operand.KeepsScope f)
    (hkind : Operand.KeepsKind f)
    (hresolve : ∀ settings operand, Run.resolve settings (f operand) = Run.resolve settings operand)
    (program : Program) (settings : Settings) (source : Source) :
    (program.mapOperands f hscope).execute settings source = program.execute settings source := by
  have hany : Run.Apart fun _ => True := fun _ _ _ _ _ h => h
  have hparallel : Run.Parallel settings settings (SameWhere fun _ => True) fun _ => False :=
    hany.parallel
  have hnests : Run.Nests (SameWhere fun _ => True) (SameWhere fun _ => True) :=
    ⟨fun values h => ⟨congrArg (Run.enter values) h.1, h.2⟩,
      fun h hcallee => ⟨congrArg₂ Run.resume h.1 hcallee.1, h.2⟩⟩
  have hresolves : ∀ operand, Run.Tracks (SameWhere fun _ => True) (fun _ => False)
      (Run.resolve settings operand) (Run.resolve settings (f operand)) := by
    intro operand
    rw [hresolve]
    exact (hany.steady.resolve operand).tracks
  have hblocks : ∀ instructions, Run.BodiesTrack settings settings (SameWhere fun _ => True)
      (fun _ => False) instructions (mapSteps (Step.mapOperands f) instructions) :=
    fun _ _ call' hcall =>
      hparallel.relates.block call' hkind fun _ _ =>
        hparallel.relates.perform call' hkind
          (hparallel.relates.stepRelates call' (fun operand _ => hresolves operand)
            fun function _ _ => hcall function)
  have hbodies : ∀ function, Option.Rel
      (Run.BodiesTrack settings settings (SameWhere fun _ => True) fun _ => False)
      (program.functions.body? function)
      ((program.functions.mapSteps (Step.mapOperands f)).body? function) := by
    intro function
    rw [Definitions.body?_mapSteps]
    cases program.functions.body? function with
    | none => exact .none
    | some body => exact .some (hblocks body)
  have hcall := Run.tracks_call (fun _ _ h => h) hparallel hnests hbodies
    settings.callDepthLimit settings.callDepthLimit (Or.inl ⟨rfl, rfl⟩)
  have htoEnd := (hblocks program.instructions _ _ hcall).bind fun _ => hparallel.takeBuffer
  exact (Run.run_eq_of_tracks htoEnd trivial).symm

namespace Program

/-- **THE TEXT KEEPS THE MEANING**: what is read from the value that a program is written
    as is the program with those literals that are no text turned into hexadecimal bytes,
    at every level and in the table of functions.  Under all settings and on every source
    it has the same result or the same fault, and the machine ends in the same state. -/
theorem execute_of_ofJson_toJson {program again : Program}
    (h : ofJson program.toJson = .ok again) :
    again.instructions = mapSteps Step.reread program.instructions ∧
      again.functions = program.functions.mapSteps Step.reread ∧
      ∀ settings source, again.execute settings source = program.execute settings source := by
  obtain ⟨-, rfl⟩ := ofJson_toJson_eq_ok.mp h
  exact ⟨rfl, rfl, execute_mapOperands Operand.keepsScope_reread Operand.keepsKind_reread
    Operand.resolve_reread program⟩

/-- A block with literals that are no text at top level, in a body, and in a body within
    that one. -/
def rawBlock : List Instruction :=
  [.define "outer"
    [.define "inner" [.step (.concat [.argument 1, .literal [0xFF]])],
      .step (.call "inner" [.literal [0xC3, 0x28]]),
      .step (.concat [.literal [0x61], .buffer])],
    .step (.call "outer" []),
    .step (.hash [.buffer, .literal [0x80]])]

/-- The program of that block. -/
def raw : Program where
  instructions := rawBlock
  functions := ⟨definitions rawBlock⟩
  valid := by rfl

/-- All but the one literal that is a text come back as hexadecimal bytes. -/
theorem execute_of_ofJson_toJson_raw :
    ∃ again, ofJson raw.toJson = .ok again ∧
      again.instructions =
        [.define "outer"
          [.define "inner" [.step (.concat [.argument 1, .hex [0xFF]])],
            .step (.call "inner" [.hex [0xC3, 0x28]]),
            .step (.concat [.literal [0x61], .buffer])],
          .step (.call "outer" []),
          .step (.hash [.buffer, .hex [0x80]])] ∧
      ∀ settings source, again.execute settings source = raw.execute settings source := by
  have hfits : EveryStep Step.NumbersFit raw.instructions := by
    simp [raw, rawBlock, Step.NumbersFit, Step.operands, Operand.NumberFits, Decimal.FitsWord]
  have h : ofJson raw.toJson = .ok raw.reread := ofJson_toJson_eq_ok.mpr ⟨hfits, rfl⟩
  obtain ⟨hinstructions, -, hexecute⟩ := execute_of_ofJson_toJson h
  exact ⟨_, h, hinstructions.trans (by rfl), hexecute⟩

end Program

end Attest
