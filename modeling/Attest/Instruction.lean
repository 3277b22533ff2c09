import Attest.Operand
import Attest.Json.Printer

/-! # Instructions

    A step does something when it is reached; a definition only names a body.
    Instructions form a tree, because a body is a list of instructions.

    `Instruction.block_induction` is the induction that fits blocks: one case for
    a step in front of a block, one for a definition, with the statement for its
    body at hand. -/

namespace Attest

/-- An instruction that does something when it is reached. -/
inductive Step
  /-- Joins operands into a new buffer. -/
  | concat (operands : List Operand)
  /-- Digests what joining the operands would give. -/
  | hash (operands : List Operand)
  /-- Reverses the buffer. -/
  | reverse
  /-- Copies the buffer into a slot. -/
  | store (slot : UInt32)
  /-- Replaces the buffer with a slot. -/
  | load (slot : UInt32)
  /-- Replaces the buffer with an operand. -/
  | set (operand : Operand)
  /-- Exchanges the buffer with a slot. -/
  | swap (slot : UInt32)
  /-- Composes the buffer with a template; the only step that can refute a proof. -/
  | compose (template : Operand)
  /-- Replaces the buffer with the result of a function. -/
  | call (function : String) (arguments : List Operand)
  deriving DecidableEq, Repr

/-- A step, or the definition of a function. -/
inductive Instruction
  | step (step : Step)
  | define (name : String) (body : List Instruction)

namespace Step

/-- The name of the operation in program text. -/
def opcode : Step → String
  | concat _ => "op_cat"
  | hash _ => "op_sha256"
  | reverse => "op_rev"
  | store _ => "op_store"
  | load _ => "op_load"
  | set _ => "op_set"
  | swap _ => "op_swap"
  | compose _ => "op_compose"
  | call function _ => "f_" ++ function

/-- The operands that are resolved to bytes when the step runs.  The slots of
    store, load and swap are addresses, not operands. -/
def operands : Step → List Operand
  | concat operands => operands
  | hash operands => operands
  | set operand => [operand]
  | compose template => [template]
  | call _ arguments => arguments
  | reverse => []
  | store _ => []
  | load _ => []
  | swap _ => []

/-- The slot that the step addresses. -/
def address? : Step → Option UInt32
  | store slot => some slot
  | load slot => some slot
  | swap slot => some slot
  | _ => none

/-- The program text of a step. -/
def toJson (step : Step) : Json :=
  let rest := match step.address? with
    | some slot => [Json.integer slot.toNat]
    | none => step.operands.map fun operand => .string operand.token
  .array (.string step.opcode :: rest)

end Step

namespace Instruction

/-- The name of a definition in program text. -/
def defineOpcode : String := "op_func"

mutual

/-- The program text of an instruction. -/
def toJson : Instruction → Json
  | step s => s.toJson
  | define name body => .array [.string defineOpcode, .string name, .array (blockToJson body)]

/-- The program text of the instructions of a block. -/
def blockToJson : List Instruction → List Json
  | [] => []
  | instruction :: rest => instruction.toJson :: blockToJson rest

end

/-- Induction over blocks. -/
theorem block_induction {motive : List Instruction → Prop} (nil : motive [])
    (step : ∀ s rest, motive rest → motive (step s :: rest))
    (define : ∀ name body rest, motive body → motive rest → motive (define name body :: rest)) :
    ∀ block, motive block :=
  fun block =>
    Instruction.rec_1 (motive_1 := fun i => ∀ rest, motive rest → motive (i :: rest))
      (motive_2 := motive) (fun s rest ih => step s rest ih)
      (fun name body body_ih rest ih => define name body rest body_ih ih)
      nil (fun _ rest head_ih ih => head_ih rest ih) block

mutual

/-- Equality of instructions is decidable. -/
def decideEq (a b : Instruction) : Decidable (a = b) :=
  match a, b with
  | step s, step t => decidable_of_iff (s = t) (by simp)
  | define m x, define n y =>
      match decideBlockEq x y with
      | isTrue h => decidable_of_iff (m = n) (by simp [h])
      | isFalse h => isFalse (by simp [h])
  | step _, define _ _ => isFalse (by simp)
  | define _ _, step _ => isFalse (by simp)

/-- Equality of blocks is decidable. -/
def decideBlockEq (a b : List Instruction) : Decidable (a = b) :=
  match a, b with
  | [], [] => isTrue rfl
  | x :: xs, y :: ys =>
      match decideEq x y, decideBlockEq xs ys with
      | isTrue h, isTrue hs => isTrue (by rw [h, hs])
      | isFalse h, _ => isFalse (by simp [h])
      | _, isFalse hs => isFalse (by simp [hs])
  | [], _ :: _ => isFalse (by simp)
  | _ :: _, [] => isFalse (by simp)

end

instance : DecidableEq Instruction := decideEq

end Instruction

end Attest
