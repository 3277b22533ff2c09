import Attest.Proofs.Program.Scope

/-! # What validation accepts

    Validation goes over a block twice: first to register the definitions, in a table that
    grows on the way, and then to check the scope of every step against the whole table.
    What it accepts can be said without an order and without a table
    (`Instruction.WellFormed`, `validate_eq_ok_iff`).  So a program is built from exactly
    the well-formed blocks (`Program.ofInstructions_iff_wellFormed`). -/

namespace Attest

open Instruction (definitions definedNames nesting)

namespace Instruction

/-- The predicate holds of the steps that stand in the block itself, and of those in the
    body of every definition. -/
theorem everyStep_iff {p : Step → Prop} {block : List Instruction} :
    EveryStep p block ↔
      (∀ s, step s ∈ block → p s) ∧ ∀ d ∈ definitions block, ∀ s, step s ∈ d.2 → p s := by
  rw [EveryStep, blocks, List.forall_mem_cons, List.forall_mem_map]

/-- What a block has to be to make up a program: its definitions are named, named
    differently, and nest no deeper than is allowed; and at every level calls name
    something that is defined, and positional arguments count from one and stand in
    bodies. -/
structure WellFormed (block : List Instruction) : Prop where
  named : ∀ name ∈ definedNames block, name ≠ ""
  distinct : (definedNames block).Nodup
  nested : nesting block ≤ mostNested
  called : EveryStep
    (fun s => ∀ function arguments, s = .call function arguments →
      function ∈ definedNames block) block
  counted : EveryStep
    (fun s => ∀ index, Operand.argument index ∈ s.operands → 1 ≤ index.toNat) block
  inBodies : ∀ s, step s ∈ block → ∀ index, Operand.argument index ∉ s.operands

end Instruction

/-- What the scope of a step asks for, in a body and at top level. -/
theorem Step.inScope_iff {known : Definitions} {inBody : Bool} {s : Step} :
    s.InScope known inBody ↔
      (∀ function arguments, s = .call function arguments →
        function ∈ known.entries.map Prod.fst) ∧
      (∀ index, Operand.argument index ∈ s.operands → 1 ≤ index.toNat) ∧
      (inBody = false → ∀ index, Operand.argument index ∉ s.operands) := by
  simp only [← Definitions.contains_eq_true_iff]
  constructor
  · intro h
    refine ⟨h.call, fun index hindex => (h.operands _ hindex index rfl).1, ?_⟩
    rintro rfl index hindex
    exact Bool.false_ne_true (h.operands _ hindex index rfl).2
  · rintro ⟨hcalled, hcounted, hinBodies⟩
    refine ⟨hcalled, ?_⟩
    rintro operand hoperand index rfl
    refine ⟨hcounted index hoperand, ?_⟩
    cases inBody with
    | false => exact absurd hoperand (hinBodies rfl index)
    | true => rfl

/-- **What validation accepts** are the well-formed blocks, and the table that it gives
    lists their definitions. -/
theorem validate_eq_ok_iff {block : List Instruction} {known : Definitions} :
    validate block = .ok known ↔
      Instruction.WellFormed block ∧ known = ⟨definitions block⟩ := by
  rw [validate, bind_eq_ok]
  constructor
  · rintro ⟨table, hregister, hscope⟩
    obtain ⟨hcheck, hknown⟩ := check_bind_eq_ok.mp hscope
    cases hknown
    obtain ⟨hnamed, hnested, hdistinct, rfl⟩ :=
      (Definitions.registerBlock_eq_ok_iff block Definitions.distinct_empty).mp hregister
    obtain ⟨htop, hbodies⟩ := (Instruction.checkBlockScope_eq_ok _ _).mp hcheck
    replace htop := fun s hs => Step.inScope_iff.mp (htop s hs)
    replace hbodies := fun d hd s hs => Step.inScope_iff.mp (hbodies d hd s hs)
    refine ⟨⟨hnamed, hdistinct, hnested, ?_, ?_, fun s hs => (htop s hs).2.2 rfl⟩, rfl⟩
    · exact Instruction.everyStep_iff.mpr
        ⟨fun s hs => (htop s hs).1, fun d hd s hs => (hbodies d hd s hs).1⟩
    · exact Instruction.everyStep_iff.mpr
        ⟨fun s hs => (htop s hs).2.1, fun d hd s hs => (hbodies d hd s hs).2.1⟩
  · rintro ⟨h, rfl⟩
    obtain ⟨hcalledTop, hcalled⟩ := Instruction.everyStep_iff.mp h.called
    obtain ⟨hcountedTop, hcounted⟩ := Instruction.everyStep_iff.mp h.counted
    have hregister : Definitions.registerBlock 0 .empty block = .ok ⟨definitions block⟩ :=
      (Definitions.registerBlock_eq_ok_iff block Definitions.distinct_empty).mpr
        ⟨h.named, h.nested, h.distinct, rfl⟩
    refine ⟨_, hregister,
      check_bind_eq_ok.mpr ⟨(Instruction.checkBlockScope_eq_ok _ _).mpr ⟨?_, ?_⟩, rfl⟩⟩
    · intro s hs
      exact Step.inScope_iff.mpr
        ⟨hcalledTop s hs, hcountedTop s hs, fun _ => h.inBodies s hs⟩
    · intro d hd s hs
      exact Step.inScope_iff.mpr ⟨hcalled d hd s hs, hcounted d hd s hs, nofun⟩

/-- A valid block nests no deeper than is allowed. -/
theorem nesting_le_of_validate {block : List Instruction} {known : Definitions}
    (h : validate block = .ok known) : nesting block ≤ mostNested :=
  (validate_eq_ok_iff.mp h).1.nested

namespace Program

/-- A program is made of exactly the instructions that it is built from. -/
theorem ofInstructions_eq_ok {block : List Instruction} {program : Program} :
    ofInstructions block = .ok program ↔ program.instructions = block := by
  rw [ofInstructions]
  split
  · next functions hvalid =>
      constructor
      · intro h
        cases h
        rfl
      · intro h
        exact congrArg Except.ok (Program.ext h.symm)
  · next fault hinvalid =>
      constructor
      · exact nofun
      · intro h
        have hvalid := program.valid
        rw [h, hinvalid] at hvalid
        exact nomatch hvalid

/-- The instructions of a program are well-formed, and its table lists their definitions. -/
theorem wellFormed (program : Program) :
    Instruction.WellFormed program.instructions ∧
      program.functions = ⟨definitions program.instructions⟩ :=
  validate_eq_ok_iff.mp program.valid

/-- The table of a program has every name once. -/
theorem distinct (program : Program) : program.functions.Distinct := by
  obtain ⟨h, htable⟩ := program.wellFormed
  rw [htable]
  exact h.distinct

/-- **What programs are built from.**  A program is built from a block exactly if the block
    is well-formed.  The functions of the program are then what the block defines at any
    level, and the body of each is that of its only definition. -/
theorem ofInstructions_iff_wellFormed (block : List Instruction) :
    ((∃ program, ofInstructions block = .ok program) ↔ Instruction.WellFormed block) ∧
      ∀ program, ofInstructions block = .ok program →
        (∀ name, program.functions.contains name = true ↔ name ∈ definedNames block) ∧
        (∀ name body,
          program.functions.body? name = some body ↔ (name, body) ∈ definitions block) ∧
        ∀ name ∈ definedNames block, (definedNames block).count name = 1 := by
  refine ⟨⟨?_, ?_⟩, ?_⟩
  · rintro ⟨program, hprogram⟩
    rw [← ofInstructions_eq_ok.mp hprogram]
    exact program.wellFormed.1
  · intro h
    exact ⟨⟨block, _, validate_eq_ok_iff.mpr ⟨h, rfl⟩⟩, ofInstructions_eq_ok.mpr rfl⟩
  · intro program hprogram
    cases ofInstructions_eq_ok.mp hprogram
    obtain ⟨h, htable⟩ := program.wellFormed
    refine ⟨fun name => ?_, fun name body => ?_, fun name hname => ?_⟩
    · rw [Definitions.contains_eq_true_iff, htable]
      rfl
    · rw [program.distinct.body?_eq_some_iff, htable]
    · exact List.count_eq_one_of_mem h.distinct hname

/-- The block of `mirroring` is well-formed, and the table of its program has the two
    functions, the inner one too. -/
theorem ofInstructions_iff_wellFormed_mirroringBlock :
    Instruction.WellFormed mirroringBlock ∧
      ofInstructions mirroringBlock = .ok mirroring ∧
      mirroring.functions.body? "flip" =
        some [.step (.set (.argument 1)), .step .reverse] ∧
      mirroring.functions.contains "mirror" = true := by
  have hbuilt : ofInstructions mirroringBlock = .ok mirroring := ofInstructions_eq_ok.mpr rfl
  obtain ⟨hiff, htable⟩ := ofInstructions_iff_wellFormed mirroringBlock
  obtain ⟨hnames, hbodies, -⟩ := htable mirroring hbuilt
  refine ⟨hiff.mp ⟨mirroring, hbuilt⟩, hbuilt, (hbodies _ _).mpr ?_, (hnames _).mpr ?_⟩
  · simp [mirroringBlock]
  · simp [mirroringBlock]

/-- No program is built from a block that nests too deeply. -/
theorem ofInstructions_nestedTooDeep {block : List Instruction}
    (h : mostNested < nesting block) : ∃ fault, ofInstructions block = .error fault := by
  cases hresult : ofInstructions block with
  | error fault => exact ⟨fault, rfl⟩
  | ok program =>
      have hvalid := nesting_le_of_validate program.valid
      rw [ofInstructions_eq_ok.mp hresult] at hvalid
      omega

end Program

end Attest
