import Attest.Program.Definitions

/-! # Programs

    A program is a block of instructions that has passed validation, together with
    the table of its functions.  Validation first collects all definitions, so a
    call may precede the definition of its function, and then checks the scope of
    calls and positional arguments. -/

namespace Attest

/-- A positional argument counts from one and stands inside a body. -/
def Operand.checkScope (inBody : Bool) : Operand → Except Fault Unit
  | .argument index =>
      if index = 0 then .error (.ofDefect .argumentZero)
      else if inBody then .ok ()
      else .error (.ofDefect (.argumentOutsideFunction index.toNat))
  | _ => .ok ()

/-- A call names a defined function, and the operands are in scope. -/
def Step.checkScope (known : Definitions) (inBody : Bool) (step : Step) : Except Fault Unit := do
  match step with
  | .call function _ =>
      if known.contains function then pure ()
      else throw (.ofDefect (.undefinedFunction function))
  | _ => pure ()
  step.operands.forM (Operand.checkScope inBody)

mutual

/-- Checks the scope of an instruction. -/
def Instruction.checkScope (known : Definitions) (inBody : Bool) :
    Instruction → Except Fault Unit
  | .step s => s.checkScope known inBody
  | .define name body =>
      (Instruction.checkBlockScope known true 0 body).mapError (Fault.located (.function name))

/-- Checks the scope of the instructions of a block, the first of which has the
    given index. -/
def Instruction.checkBlockScope (known : Definitions) (inBody : Bool) (index : Nat) :
    List Instruction → Except Fault Unit
  | [] => .ok ()
  | instruction :: rest => do
      (instruction.checkScope known inBody).mapError (Fault.located (.instruction index))
      Instruction.checkBlockScope known inBody (index + 1) rest

end

/-- The function table of a valid block. -/
def validate (block : List Instruction) : Except Fault Definitions := do
  let known ← Definitions.registerBlock 0 .empty block
  Instruction.checkBlockScope known false 0 block
  pure known

/-- A validated program. -/
structure Program where
  instructions : List Instruction
  functions : Definitions
  valid : validate instructions = .ok functions

namespace Program

/-- The program that a block makes up, if it is valid. -/
def ofInstructions (block : List Instruction) : Except Fault Program :=
  match h : validate block with
  | .ok functions => .ok ⟨block, functions, h⟩
  | .error fault => .error fault

/-- The number of top-level instructions. -/
def size (program : Program) : Nat := program.instructions.length

/-- Whether there are no instructions. -/
def isEmpty (program : Program) : Bool := program.instructions.isEmpty

/-- The program text as a value. -/
def toJson (program : Program) : Json :=
  .array (Instruction.blockToJson program.instructions)

/-- A program is determined by its instructions. -/
@[ext] theorem ext {p q : Program} (h : p.instructions = q.instructions) : p = q := by
  obtain ⟨pi, pf, pv⟩ := p
  obtain ⟨qi, qf, qv⟩ := q
  cases h
  cases pv.symm.trans qv
  rfl

instance : DecidableEq Program := fun p q =>
  decidable_of_iff (p.instructions = q.instructions) ⟨Program.ext, congrArg _⟩

end Program

end Attest
