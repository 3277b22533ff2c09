import Attest.Instruction

/-! # Definitions

    All functions of a program share one table, wherever they are defined, so a
    name is defined once in the whole program.  The table lists the bodies in the
    order in which the definitions begin. -/

namespace Attest

/-- The functions of a program: names with bodies, in order of definition. -/
structure Definitions where
  entries : List (String × List Instruction)
  deriving DecidableEq

namespace Definitions

/-- A table without functions. -/
def empty : Definitions := ⟨[]⟩

/-- The body of a function. -/
def body? (known : Definitions) (name : String) : Option (List Instruction) :=
  known.entries.lookup name

/-- Whether a function is defined. -/
def contains (known : Definitions) (name : String) : Bool :=
  (known.body? name).isSome

/-- The number of functions. -/
def size (known : Definitions) : Nat := known.entries.length

/-- Whether there is no function. -/
def isEmpty (known : Definitions) : Bool := known.entries.isEmpty

/-- The names of the functions in increasing order. -/
def names (known : Definitions) : List String :=
  (known.entries.map Prod.fst).mergeSort fun a b => decide (a ≤ b)

/-- The table with one more function. -/
def add (known : Definitions) (name : String) (body : List Instruction) : Definitions :=
  ⟨known.entries ++ [(name, body)]⟩

mutual

/-- Adds the definition that an instruction is, and those in its body, to the
    table.  The depth counts the bodies around the instruction. -/
def register (depth : Nat) (known : Definitions) : Instruction → Except Fault Definitions
  | .step _ => .ok known
  | .define name body =>
      if mostNested ≤ depth then .error (.ofDefect (.functionNestedTooDeep name))
      else if name = "" then .error (.ofDefect .emptyName)
      else if known.contains name then .error (.ofDefect (.definedTwice name))
      else registerBlock (depth + 1) (known.add name body) body

/-- Adds all definitions of a block to the table. -/
def registerBlock (depth : Nat) (known : Definitions) :
    List Instruction → Except Fault Definitions
  | [] => .ok known
  | instruction :: rest => do
      let known ← register depth known instruction
      registerBlock depth known rest

end

end Definitions

end Attest
