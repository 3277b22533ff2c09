import Attest.Bytes

/-! # Memory

    Numbered slots for byte strings.  A slot comes into being when it is first
    stored to or swapped; reading one that does not exist gives the empty byte
    string.  `get_store_self` and `get_store_of_ne` say what a store does to
    every slot. -/

namespace Attest

/-- The slots that exist, in the order in which they came into being. -/
structure Memory where
  cells : List (UInt32 × Bytes)
  deriving DecidableEq, Repr

namespace Memory

/-- Memory without slots. -/
def empty : Memory := ⟨[]⟩

/-- The number of slots. -/
def size (memory : Memory) : Nat := memory.cells.length

/-- Whether there is no slot. -/
def isEmpty (memory : Memory) : Bool := memory.cells.isEmpty

/-- The contents of a slot among some cells. -/
def find (slot : UInt32) : List (UInt32 × Bytes) → Bytes
  | [] => []
  | (other, bytes) :: rest => if other = slot then bytes else find slot rest

/-- Sets a slot among some cells, the new one last. -/
def put (slot : UInt32) (value : Bytes) : List (UInt32 × Bytes) → List (UInt32 × Bytes)
  | [] => [(slot, value)]
  | (other, bytes) :: rest =>
      if other = slot then (slot, value) :: rest else (other, bytes) :: put slot value rest

/-- The contents of a slot. -/
def get (memory : Memory) (slot : UInt32) : Bytes :=
  find slot memory.cells

/-- Sets the contents of a slot. -/
def store (memory : Memory) (slot : UInt32) (value : Bytes) : Memory :=
  ⟨put slot value memory.cells⟩

/-- Exchanges a value with the contents of a slot. -/
def swap (memory : Memory) (slot : UInt32) (value : Bytes) : Bytes × Memory :=
  (memory.get slot, memory.store slot value)

theorem find_put_self (slot : UInt32) (value : Bytes) (cells : List (UInt32 × Bytes)) :
    find slot (put slot value cells) = value := by
  induction cells with
  | nil => simp [put, find]
  | cons cell rest ih =>
      by_cases h : cell.1 = slot <;> simp [put, find, h, ih]

theorem find_put_of_ne {slot other : UInt32} (h : other ≠ slot) (value : Bytes)
    (cells : List (UInt32 × Bytes)) : find other (put slot value cells) = find other cells := by
  induction cells with
  | nil => simp [put, find, h.symm]
  | cons cell rest ih =>
      by_cases hc : cell.1 = slot
      · simp [put, find, hc, h.symm]
      · by_cases ho : cell.1 = other <;> simp [put, find, hc, ho, h, ih]

/-- A slot holds what was last stored in it. -/
@[simp] theorem get_store_self (memory : Memory) (slot : UInt32) (value : Bytes) :
    (memory.store slot value).get slot = value :=
  find_put_self slot value memory.cells

/-- A store leaves every other slot alone. -/
theorem get_store_of_ne (memory : Memory) {slot other : UInt32} (h : other ≠ slot)
    (value : Bytes) : (memory.store slot value).get other = memory.get other :=
  find_put_of_ne h value memory.cells

end Memory

end Attest
