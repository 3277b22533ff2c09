import Attest.Json.Draft
import Attest.Program.Basic

/-! # Program text

    A program is written as a JSON list of instructions, each of them a list that
    begins with an opcode.  The first fault in reading order is reported, with the
    instructions and functions around it.  How deeply definitions may still nest
    is the argument that reading a block recurses on. -/

namespace Attest

/-- Reads one operand. -/
def Operand.ofJson : Json → Except Fault Operand
  | .string token => ofToken token
  | value => .error (.ofDefect (.operandNotText value.compact))

namespace Instruction

/-- An opcode stands before the right number of values. -/
def expectArity (opcode : String) (expected : Nat) (values : List Json) : Except Fault Unit :=
  if values.length = expected then .ok ()
  else .error (.ofDefect (.wrongArity opcode expected values.length))

/-- Reads the only operand of an opcode. -/
def readOperand (opcode : String) (values : List Json) : Except Fault Operand :=
  match values with
  | [value] => Operand.ofJson value
  | _ => .error (.ofDefect (.wrongArity opcode 1 values.length))

/-- Reads the slot of an opcode: a bare integer, or the token of a slot. -/
def readSlot (opcode : String) (values : List Json) : Except Fault UInt32 :=
  match values with
  | [value] =>
      let bare := match value with
        | .integer index => if Decimal.FitsWord index then some index else none
        | _ => none
      match bare with
      | some index => Operand.slotAt index
      | none => do
          match ← Operand.ofJson value with
          | .slot index => pure index
          | other => throw (.ofDefect (.notASlot opcode other.token))
  | _ => .error (.ofDefect (.wrongArity opcode 1 values.length))

/-- Reads a step by its opcode. -/
def readStep (opcode : String) (values : List Json) : Except Fault Step :=
  match opcode with
  | "op_cat" => .concat <$> values.mapM Operand.ofJson
  | "op_sha256" => .hash <$> values.mapM Operand.ofJson
  | "op_rev" => do
      expectArity opcode 0 values
      pure .reverse
  | "op_store" => .store <$> readSlot opcode values
  | "op_load" => .load <$> readSlot opcode values
  | "op_swap" => .swap <$> readSlot opcode values
  | "op_set" => .set <$> readOperand opcode values
  | "op_compose" => .compose <$> readOperand opcode values
  | _ =>
      match opcode.toList with
      | ['f', '_'] => .error (.ofDefect .callWithoutName)
      | 'f' :: '_' :: function =>
          .call (String.ofList function) <$> values.mapM Operand.ofJson
      | _ => .error (.ofDefect (.unknownOpcode opcode))

/-- Reads a definition.  There is no reader for the body where no further
    definition may nest. -/
def readDefinition (readBody : Option (Json → Except Fault (List Instruction)))
    (values : List Json) : Except Fault Instruction :=
  match values with
  | [name, body] =>
      match readBody with
      | none => .error (.ofDefect .nestedTooDeep)
      | some readBody =>
          match name with
          | .string "" => .error (.ofDefect .emptyName)
          | .string name =>
              (define name <$> readBody body).mapError (Fault.located (.function name))
          | other => .error (.ofDefect (.nameNotText other.compact))
  | _ => .error (.ofDefect (.wrongArity defineOpcode 2 values.length))

/-- Reads one instruction. -/
def readInstruction (readBody : Option (Json → Except Fault (List Instruction))) :
    Json → Except Fault Instruction
  | .array [] => .error (.ofDefect .emptyInstruction)
  | .array (.string opcode :: values) =>
      if opcode = defineOpcode then readDefinition readBody values
      else step <$> readStep opcode values
  | .array (other :: _) => .error (.ofDefect (.opcodeNotText other.compact))
  | other => .error (.ofDefect (.instructionNotAList other.compact))

/-- Reads the instructions of a block, the first of which has the given index. -/
def readInstructions (readBody : Option (Json → Except Fault (List Instruction)))
    (index : Nat) : List Json → Except Fault (List Instruction)
  | [] => .ok []
  | item :: rest => do
      let instruction ←
        (readInstruction readBody item).mapError (Fault.located (.instruction index))
      let instructions ← readInstructions readBody (index + 1) rest
      pure (instruction :: instructions)

/-- Reads a block with a reader for the bodies in it. -/
def readItems (readBody : Option (Json → Except Fault (List Instruction))) :
    Json → Except Fault (List Instruction)
  | .array items => readInstructions readBody 0 items
  | _ => .error (.ofDefect .blockNotAList)

/-- Reads a block in which definitions may nest the given number of levels. -/
def readBlock : Nat → Json → Except Fault (List Instruction)
  | 0 => readItems none
  | levels + 1 => readItems (some (readBlock levels))

end Instruction

namespace Program

/-- The program that a value describes. -/
def ofJson (value : Json) : Except Fault Program := do
  let block ← Instruction.readBlock mostNested value
  ofInstructions block

/-- The program that a text describes. -/
def ofText (text : String) : Except Fault Program :=
  match Json.read? text with
  | none => .error (.ofDefect .invalidText)
  | some value => ofJson value

end Program

end Attest
