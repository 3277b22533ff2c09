import Attest.Proofs.Program.Rereading
import Attest.Proofs.Program.Scope

/-! # Programs with other operands

    Validation looks at names and at the indices of positional arguments.  So it comes
    to the same answer, faults included, when the operands of a block are exchanged for
    others without touching positional arguments, and the table of functions changes
    like the block (`validate_mapSteps`).  Exchanging the operands of a program makes up
    a program (`Program.mapOperands`). -/

namespace Attest

open Instruction (mapStep mapSteps)

/-! ## Steps -/

namespace Step

@[simp] theorem operands_mapOperands (f : Operand → Operand) (s : Step) :
    (s.mapOperands f).operands = s.operands.map f := by
  cases s <;> rfl

/-- Changing every operand to itself changes nothing. -/
@[simp] theorem mapOperands_id (s : Step) : s.mapOperands id = s := by
  cases s <;> simp [mapOperands]

end Step

/-! ## The table of functions -/

namespace Definitions

/-- The table with every step of every body changed. -/
def mapSteps (f : Step → Step) (known : Definitions) : Definitions :=
  ⟨known.entries.map fun d => (d.1, Instruction.mapSteps f d.2)⟩

variable (f : Step → Step)

@[simp] theorem body?_mapSteps (known : Definitions) (name : String) :
    (known.mapSteps f).body? name = (known.body? name).map (Instruction.mapSteps f) :=
  body?_map (Instruction.mapSteps f) known name

@[simp] theorem contains_mapSteps (known : Definitions) (name : String) :
    (known.mapSteps f).contains name = known.contains name := by
  rw [contains, body?_mapSteps, Option.isSome_map, contains]

theorem mapSteps_add (known : Definitions) (name : String) (body : List Instruction) :
    (known.add name body).mapSteps f =
      (known.mapSteps f).add name (Instruction.mapSteps f body) := by
  rw [mapSteps, add, List.map_append, List.map_singleton]
  rfl

/-- Registering a changed block gives the changed table. -/
theorem registerBlock_mapSteps (block : List Instruction) :
    ∀ (depth : Nat) (known : Definitions),
      registerBlock depth (known.mapSteps f) (Instruction.mapSteps f block) =
        mapSteps f <$> registerBlock depth known block := by
  induction block using Instruction.block_induction with
  | nil =>
      intro depth known
      rw [Instruction.mapSteps, registerBlock, registerBlock]
      rfl
  | step s rest ih =>
      intro depth known
      rw [Instruction.mapSteps, mapStep, registerBlock, register, registerBlock, register]
      exact ih depth known
  | define name body rest body_ih ih =>
      intro depth known
      have hregister : register depth (known.mapSteps f)
          (.define name (Instruction.mapSteps f body)) =
          mapSteps f <$> register depth known (.define name body) := by
        rw [register, register, contains_mapSteps, ← mapSteps_add, body_ih]
        split
        · rfl
        · split
          · rfl
          · split <;> rfl
      rw [Instruction.mapSteps, mapStep, registerBlock, hregister, registerBlock, map_bind,
        bind_map_left]
      exact bind_congr fun middle => ih depth middle

end Definitions

/-! ## Scope -/

/-- The change leaves positional arguments where they are, and puts none elsewhere. -/
def Operand.KeepsScope (f : Operand → Operand) : Prop :=
  ∀ operand inBody, (f operand).checkScope inBody = operand.checkScope inBody

theorem Operand.KeepsScope.forM_map {f : Operand → Operand} (hf : KeepsScope f) (inBody : Bool)
    (operands : List Operand) :
    (operands.map f).forM (checkScope inBody) = operands.forM (checkScope inBody) := by
  induction operands with
  | nil => rfl
  | cons operand rest ih =>
      show ((f operand).checkScope inBody >>= fun _ => (rest.map f).forM (checkScope inBody)) =
        (operand.checkScope inBody >>= fun _ => rest.forM (checkScope inBody))
      rw [hf, ih]

/-- A step with other operands is in scope where the step is. -/
theorem Step.checkScope_mapOperands {f : Operand → Operand} (hf : Operand.KeepsScope f)
    (g : Step → Step) (known : Definitions) (inBody : Bool) (s : Step) :
    (s.mapOperands f).checkScope (known.mapSteps g) inBody = s.checkScope known inBody := by
  have hoperands := hf.forM_map inBody s.operands
  rw [← operands_mapOperands] at hoperands
  cases s with
  | call function arguments =>
      show ((do
        if (known.mapSteps g).contains function then pure ()
        else throw (Fault.ofDefect (.undefinedFunction function))
        ((Step.call function arguments).mapOperands f).operands.forM
          (Operand.checkScope inBody)) : Except Fault Unit) = _
      rw [Definitions.contains_mapSteps, hoperands]
      rfl
  | _ => exact hoperands

/-- Checking a block with other operands gives what checking the block gives. -/
theorem Instruction.checkBlockScope_mapSteps {f : Operand → Operand} (hf : Operand.KeepsScope f)
    (g : Step → Step) (known : Definitions) (block : List Instruction) :
    ∀ (inBody : Bool) (index : Nat),
      checkBlockScope (known.mapSteps g) inBody index (mapSteps (Step.mapOperands f) block) =
        checkBlockScope known inBody index block := by
  induction block using block_induction with
  | nil =>
      intro inBody index
      rw [mapSteps, checkBlockScope, checkBlockScope]
  | step s rest ih =>
      intro inBody index
      rw [mapSteps, mapStep, checkBlockScope, checkScope, checkBlockScope, checkScope,
        Step.checkScope_mapOperands hf, ih]
  | define name body rest body_ih ih =>
      intro inBody index
      rw [mapSteps, mapStep, checkBlockScope, checkScope, checkBlockScope, checkScope, body_ih, ih]

/-! ## Programs -/

/-- A block with other operands is validated like the block, with the same faults. -/
theorem validate_mapSteps {f : Operand → Operand} (hf : Operand.KeepsScope f)
    (block : List Instruction) :
    validate (mapSteps (Step.mapOperands f) block) =
      Definitions.mapSteps (Step.mapOperands f) <$> validate block := by
  have hregister : Definitions.registerBlock 0 .empty (mapSteps (Step.mapOperands f) block) =
      Definitions.mapSteps (Step.mapOperands f) <$> Definitions.registerBlock 0 .empty block :=
    Definitions.registerBlock_mapSteps (Step.mapOperands f) block 0 .empty
  rw [validate, validate, hregister, map_bind, bind_map_left]
  refine bind_congr fun known => ?_
  rw [Instruction.checkBlockScope_mapSteps hf, map_bind]
  rfl

/-- The program with other operands. -/
def Program.mapOperands (f : Operand → Operand) (hf : Operand.KeepsScope f) (program : Program) :
    Program where
  instructions := mapSteps (Step.mapOperands f) program.instructions
  functions := program.functions.mapSteps (Step.mapOperands f)
  valid := by
    rw [validate_mapSteps hf, program.valid]
    rfl

end Attest
