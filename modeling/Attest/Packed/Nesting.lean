import Attest.Packed.Item

/-! # Nesting of packed items

    Definitions are flattened: the header stands before the instructions of the
    body.  Assembling holds a stack of bodies that are not complete; an
    instruction that completes a body completes the definition around it, which
    is an instruction of the next body further out, and so on. -/

namespace Attest.Packed

mutual

/-- The items of an instruction. -/
def flatten : Instruction → Except Fault (List Item)
  | .step s => .ok [.step s]
  | .define name body =>
      if body.length < UInt32.size then do
        let items ← flattenBlock body
        pure (.header name (UInt32.ofNat body.length) :: items)
      else .error (.ofDefect (.bodyTooLong name))

/-- The items of a block. -/
def flattenBlock : List Instruction → Except Fault (List Item)
  | [] => .ok []
  | instruction :: rest => do
      let items ← flatten instruction
      let others ← flattenBlock rest
      pure (items ++ others)

end

/-- A definition whose body is not complete. -/
structure OpenBody where
  name : String
  /-- How many instructions are missing. -/
  missing : Nat
  body : Array Instruction

/-- A partly assembled program: the finished top-level instructions, and the
    open bodies, innermost first. -/
structure Assembly where
  top : Array Instruction
  opened : List OpenBody

namespace Assembly

/-- The assembly of no items. -/
def start : Assembly := ⟨#[], []⟩

/-- Places an instruction in the innermost open body and closes the bodies that
    this completes. -/
def place (top : Array Instruction) (instruction : Instruction) : List OpenBody → Assembly
  | [] => ⟨top.push instruction, []⟩
  | inner :: outer =>
      let body := inner.body.push instruction
      if inner.missing ≤ 1 then place top (.define inner.name body.toList) outer
      else ⟨top, ⟨inner.name, inner.missing - 1, body⟩ :: outer⟩

/-- Takes one item.  A header without instructions is complete at once. -/
def take (assembly : Assembly) : Item → Except Fault Assembly
  | .step s => .ok (place assembly.top (.step s) assembly.opened)
  | .header name length =>
      if mostNested ≤ assembly.opened.length then .error (.ofDefect .nestedTooDeep)
      else if length = 0 then .ok (place assembly.top (.define name []) assembly.opened)
      else .ok ⟨assembly.top, ⟨name, length.toNat, #[]⟩ :: assembly.opened⟩

/-- The block that is assembled, if no body is open. -/
def finish (assembly : Assembly) : Except Fault (List Instruction) :=
  match assembly.opened with
  | [] => .ok assembly.top.toList
  | inner :: _ => .error (.ofDefect (.endsInside inner.name))

end Assembly

/-- The block that the items make up. -/
def assemble (items : List Item) : Except Fault (List Instruction) := do
  let assembly ← items.foldlM Assembly.take Assembly.start
  assembly.finish

end Attest.Packed
