import Attest.Program.Basic

/-! # Listings

    A listing is for people to read: a heading with the sizes, then one line per
    instruction with its index, the lines of a body two spaces further in than the
    line of its definition. -/

namespace Attest

namespace Listing

/-- The line above and below the heading. -/
def rule : String := String.ofList (List.replicate 40 '═')

/-- An index of at least four digits. -/
def indexText (index : Nat) : String :=
  let digits := Nat.toDigits 10 index
  String.ofList (List.replicate (4 - digits.length) '0' ++ digits)

/-- A step: its opcode, then its slot or its operands. -/
def stepText (step : Step) : String :=
  let rest := match step.address? with
    | some slot => [toString slot.toNat]
    | none => step.operands.map Operand.token
  String.intercalate " " (step.opcode :: rest)

/-- A line at a level of indentation, with the index of its instruction. -/
def line (level index : Nat) (text : String) : String :=
  String.ofList (List.replicate (2 * level) ' ') ++ indexText index ++ "  " ++ text

mutual

/-- The lines of an instruction. -/
def instructionLines (level index : Nat) : Instruction → List String
  | .step s => [line level index (stepText s)]
  | .define name body =>
      let opcode := Instruction.defineOpcode
      let size := body.length
      line level index s!"{opcode} {name} ({size} instructions)" :: blockLines (level + 1) 0 body

/-- The lines of a block, the first instruction of which has the given index. -/
def blockLines (level index : Nat) : List Instruction → List String
  | [] => []
  | instruction :: rest =>
      instructionLines level index instruction ++ blockLines level (index + 1) rest

end

end Listing

/-- The listing of a program. -/
def Program.listing (program : Program) : String :=
  let instructions := program.size
  let functions := program.functions.size
  let lines := [Listing.rule, " main", s!" {instructions} instructions, {functions} functions",
    Listing.rule] ++ Listing.blockLines 0 0 program.instructions
  String.join (lines.map (· ++ "\n"))

end Attest
