import Attest.Packed.Nesting
import Attest.Program.Basic

/-! # Packed programs

    The compact form of a program: the items of its instructions.  Unpacking
    reports flaws of the bytes first, then bytes that are left over, then faults of
    nesting, and validates what it has assembled. -/

namespace Attest

namespace Packed

/-- The packed form of a block. -/
def encodeBlock (block : List Instruction) : Except Fault Bytes := do
  let items ← flattenBlock block
  pure (encodeItems items)

/-- The block that packed bytes describe. -/
def decodeBlock (bytes : Bytes) : Except Fault (List Instruction) := do
  let (items, rest) ← (readItems.run bytes).mapError Fault.decode
  if rest ≠ [] then throw (.ofDefect (.trailingBytes rest.length))
  assemble items

end Packed

namespace Program

/-- The packed form of a program. -/
def pack (program : Program) : Except Fault Bytes :=
  Packed.encodeBlock program.instructions

/-- The program that packed bytes describe. -/
def unpack (bytes : Bytes) : Except Fault Program := do
  let block ← Packed.decodeBlock bytes
  ofInstructions block

end Program

end Attest
