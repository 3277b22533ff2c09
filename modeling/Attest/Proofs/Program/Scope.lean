import Attest.Proofs.Program.Registering

/-! # What validation establishes

    Checking the scope of a block checks every step in it and in the bodies of its
    definitions at every level (`checkBlockScope_eq_ok`).  The table of a program lists
    these definitions, each of them named (`Program.entries_eq`, `Program.name_ne_empty`).
    So whatever body the table supplies, its steps have been checked as steps of a body
    (`Program.inScope_of_body?`). -/

namespace Attest

namespace Instruction

/-- A block and the bodies in it at every level. -/
def blocks (block : List Instruction) : List (List Instruction) :=
  block :: (definitions block).map Prod.snd

/-- The predicate holds of every step in a block at every level. -/
def EveryStep (p : Step → Prop) (block : List Instruction) : Prop :=
  ∀ inner ∈ blocks block, ∀ s, step s ∈ inner → p s

@[simp] theorem everyStep_nil (p : Step → Prop) : EveryStep p [] := by
  simp [EveryStep, blocks]

@[simp] theorem everyStep_step_cons {p : Step → Prop} {s : Step} {rest : List Instruction} :
    EveryStep p (step s :: rest) ↔ p s ∧ EveryStep p rest := by
  simp [EveryStep, blocks, and_assoc]

@[simp] theorem everyStep_define_cons {p : Step → Prop} {name : String}
    {body rest : List Instruction} :
    EveryStep p (define name body :: rest) ↔ EveryStep p body ∧ EveryStep p rest := by
  have hown : (∀ s, step s ∈ define name body :: rest → p s) ↔ ∀ s, step s ∈ rest → p s := by
    simp
  rw [EveryStep, EveryStep, EveryStep, blocks, blocks, blocks, definitions_define_cons,
    List.map_cons, List.map_append, List.forall_mem_cons, List.forall_mem_cons,
    List.forall_mem_append, List.forall_mem_cons, List.forall_mem_cons, hown]
  constructor
  · rintro ⟨hrest, hbody, hinner, hlater⟩
    exact ⟨⟨hbody, hinner⟩, hrest, hlater⟩
  · rintro ⟨⟨hbody, hinner⟩, hrest, hlater⟩
    exact ⟨hrest, hbody, hinner, hlater⟩

end Instruction

open Instruction (definitions)

/-! ## Scope -/

/-- A positional argument counts from one and stands in a body. -/
def Operand.InScope (inBody : Bool) (operand : Operand) : Prop :=
  ∀ index, operand = .argument index → 1 ≤ index.toNat ∧ inBody = true

/-- A call names a known function, and the operands are in scope. -/
structure Step.InScope (known : Definitions) (inBody : Bool) (step : Step) : Prop where
  call : ∀ function arguments, step = .call function arguments → known.contains function = true
  operands : ∀ operand ∈ step.operands, operand.InScope inBody

theorem Operand.checkScope_eq_ok {inBody : Bool} {operand : Operand} :
    operand.checkScope inBody = .ok () ↔ operand.InScope inBody := by
  cases operand with
  | argument index =>
      have hzero : index = 0 ↔ index.toNat = 0 :=
        ⟨fun h => by rw [h]; rfl, fun h => UInt64.toNat.inj h⟩
      simp only [checkScope, InScope, argument.injEq, forall_eq']
      split
      · next h => exact ⟨nofun, fun h' => absurd (hzero.mp h) (by omega)⟩
      · next h =>
          have hpos : 1 ≤ index.toNat := Nat.one_le_iff_ne_zero.mpr fun h' => h (hzero.mpr h')
          split
          · next hb => exact ⟨fun _ => ⟨hpos, hb⟩, fun _ => rfl⟩
          · next hb => exact ⟨nofun, fun h' => absurd h'.2 hb⟩
  | _ => exact ⟨fun _ => nofun, fun _ => rfl⟩

theorem Step.checkScope_eq_ok {known : Definitions} {inBody : Bool} {step : Step} :
    step.checkScope known inBody = .ok () ↔ step.InScope known inBody := by
  have hoperands : step.operands.forM (Operand.checkScope inBody) = .ok () ↔
      ∀ operand ∈ step.operands, operand.InScope inBody := by
    rw [forM_eq_ok]
    exact forall₂_congr fun _ _ => Operand.checkScope_eq_ok
  have hrest : (∀ function arguments, step ≠ .call function arguments) →
      (step.operands.forM (Operand.checkScope inBody) = .ok () ↔
        step.InScope known inBody) := by
    intro hne
    rw [hoperands]
    exact ⟨fun h => ⟨fun f a heq => absurd heq (hne f a), h⟩, fun h => h.operands⟩
  cases step with
  | call function arguments =>
      show (do
        if known.contains function then pure ()
        else throw (Fault.ofDefect (.undefinedFunction function))
        (Step.call function arguments).operands.forM (Operand.checkScope inBody)) = _ ↔ _
      by_cases hknown : known.contains function = true
      · rw [if_pos hknown]
        show (Step.call function arguments).operands.forM _ = _ ↔ _
        rw [hoperands]
        refine ⟨fun h => ⟨?_, h⟩, fun h => h.operands⟩
        intro f a heq
        cases heq
        exact hknown
      · rw [if_neg hknown]
        exact ⟨nofun, fun h => absurd (h.call _ _ rfl) hknown⟩
  | _ => exact hrest nofun

namespace Instruction

/-- Checking a block checks every step in it, and every step in a body at any level
    as a step of a body. -/
theorem checkBlockScope_eq_ok (known : Definitions) (block : List Instruction) :
    ∀ {inBody : Bool} {index : Nat},
      checkBlockScope known inBody index block = .ok () ↔
        (∀ s, step s ∈ block → s.InScope known inBody) ∧
          ∀ d ∈ definitions block, ∀ s, step s ∈ d.2 → s.InScope known true := by
  induction block using block_induction with
  | nil =>
      intro inBody index
      rw [checkBlockScope]
      simp
  | step s rest ih =>
      intro inBody index
      rw [checkBlockScope, check_bind_eq_ok, definitions_step_cons]
      simp only [mapError_eq_ok, checkScope, Step.checkScope_eq_ok, ih,
        List.mem_cons, Instruction.step.injEq, forall_eq_or_imp, and_assoc]
  | define name body rest body_ih ih =>
      intro inBody index
      rw [checkBlockScope, check_bind_eq_ok, mapError_eq_ok, checkScope, mapError_eq_ok,
        body_ih, ih, definitions_define_cons]
      have hsteps : (∀ s, step s ∈ define name body :: rest → s.InScope known inBody) ↔
          ∀ s, step s ∈ rest → s.InScope known inBody := by
        simp
      rw [hsteps, List.forall_mem_cons, List.forall_mem_append]
      constructor
      · rintro ⟨⟨hbody, hinner⟩, hown, hlater⟩
        exact ⟨hown, hbody, hinner, hlater⟩
      · rintro ⟨hown, hbody, hinner, hlater⟩
        exact ⟨⟨hbody, hinner⟩, hown, hlater⟩

end Instruction

namespace Program

/-- The table of a program results from registering its instructions. -/
theorem registerBlock_eq_ok (program : Program) :
    Definitions.registerBlock 0 .empty program.instructions = .ok program.functions := by
  obtain ⟨known, hregister, hscope⟩ := bind_eq_ok.mp program.valid
  obtain ⟨-, hknown⟩ := check_bind_eq_ok.mp hscope
  cases hknown
  exact hregister

/-- The table of a program lists its definitions. -/
theorem entries_eq (program : Program) :
    program.functions.entries = definitions program.instructions := by
  obtain ⟨-, -, -, hknown⟩ :=
    (Definitions.registerBlock_eq_ok_iff _ Definitions.distinct_empty).mp
      program.registerBlock_eq_ok
  rw [hknown, Definitions.extend_empty]

/-- The scope of a program has been checked. -/
theorem inScope (program : Program) :
    (∀ s, .step s ∈ program.instructions → s.InScope program.functions false) ∧
      ∀ d ∈ definitions program.instructions, ∀ s, .step s ∈ d.2 →
        s.InScope program.functions true := by
  obtain ⟨known, -, hscope⟩ := bind_eq_ok.mp program.valid
  obtain ⟨hcheck, hknown⟩ := check_bind_eq_ok.mp hscope
  cases hknown
  exact (Instruction.checkBlockScope_eq_ok _ _).mp hcheck

/-- Every definition of a program is named. -/
theorem name_ne_empty (program : Program) : ∀ d ∈ definitions program.instructions, d.1 ≠ "" := by
  obtain ⟨hnamed, -⟩ :=
    (Definitions.registerBlock_eq_ok_iff _ Definitions.distinct_empty).mp
      program.registerBlock_eq_ok
  exact fun d hd => hnamed d.1 (List.mem_map_of_mem hd)

/-- Every step of a program is in scope where it stands. -/
theorem everyStep_inScope (program : Program) :
    Instruction.EveryStep (fun s => ∃ inBody, s.InScope program.functions inBody)
      program.instructions := by
  intro block hblock s hs
  obtain ⟨htop, hbodies⟩ := program.inScope
  rcases List.mem_cons.mp hblock with rfl | hbody
  · exact ⟨false, htop s hs⟩
  · obtain ⟨d, hd, rfl⟩ := List.mem_map.mp hbody
    exact ⟨true, hbodies d hd s hs⟩

/-- A body that the table supplies is a body of the program. -/
theorem mem_definitions_of_body? {program : Program} {name : String} {body : List Instruction}
    (h : program.functions.body? name = some body) :
    (name, body) ∈ definitions program.instructions := by
  rw [← program.entries_eq]
  exact Definitions.mem_entries_of_body? h

/-- A body that the table supplies has been checked as a body. -/
theorem inScope_of_body? {program : Program} {name : String} {body : List Instruction}
    (h : program.functions.body? name = some body) (s : Step) (hs : .step s ∈ body) :
    s.InScope program.functions true :=
  program.inScope.2 _ (mem_definitions_of_body? h) s hs

/-- A step in scope calls a function with a name, if any: what is defined has one. -/
theorem named_of_inScope {program : Program} {s : Step} {inBody : Bool}
    (h : s.InScope program.functions inBody) (arguments : List Operand) :
    s ≠ .call "" arguments := by
  rintro rfl
  obtain ⟨body, hbody⟩ := Option.isSome_iff_exists.mp (h.call _ _ rfl)
  exact program.name_ne_empty _ (mem_definitions_of_body? hbody) rfl

/-- A block that joins the first two bytes of the source to their reverse.  One of
    its two functions is defined in the body of the other. -/
def mirroringBlock : List Instruction :=
  [.define "mirror"
    [.define "flip" [.step (.set (.argument 1)), .step .reverse],
      .step (.call "flip" [.argument 1]),
      .step (.concat [.argument 1, .buffer])],
    .step (.call "mirror" [.read (.bounded 2)])]

/-- The program of that block. -/
def mirroring : Program where
  instructions := mirroringBlock
  functions := ⟨definitions mirroringBlock⟩
  valid := by rfl

end Program

end Attest
