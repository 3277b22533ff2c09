import Attest.Instruction
import Attest.Packed.Varint

/-! # Packed items

    A packed program is a sequence of items: a step, or the header of a definition
    with the number of instructions in its body.  Every choice is a numbered tag,
    every list and text is preceded by its length.  Reading stops at the first
    flaw. -/

namespace Attest.Packed

/-- An item of a packed program. -/
inductive Item
  | step (step : Step)
  /-- The next `length` instructions of this level are the body. -/
  | header (name : String) (length : UInt32)
  deriving DecidableEq, Repr

/-! ## Writing -/

/-- A byte string after its length. -/
def encodeBytes (bytes : Bytes) : Bytes :=
  Varint.encode bytes.length ++ bytes

/-- An operand after its tag. -/
def encodeOperand : Operand → Bytes
  | .literal bytes => Varint.encode 0 ++ encodeBytes bytes
  | .hex bytes => Varint.encode 1 ++ encodeBytes bytes
  | .buffer => Varint.encode 2
  | .slot index => Varint.encode 3 ++ Varint.encode index.toNat
  | .argument index => Varint.encode 4 ++ Varint.encode index.toNat
  | .read (.bounded count) => Varint.encode 5 ++ Varint.encode 0 ++ Varint.encode count.toNat
  | .read .rest => Varint.encode 5 ++ Varint.encode 1

/-- Operands after their number. -/
def encodeOperands (operands : List Operand) : Bytes :=
  Varint.encode operands.length ++ operands.flatMap encodeOperand

/-- An item after its tag. -/
def Item.encode : Item → Bytes
  | .step (.concat operands) => Varint.encode 0 ++ encodeOperands operands
  | .step (.hash operands) => Varint.encode 1 ++ encodeOperands operands
  | .step .reverse => Varint.encode 2
  | .step (.store slot) => Varint.encode 3 ++ Varint.encode slot.toNat
  | .step (.load slot) => Varint.encode 4 ++ Varint.encode slot.toNat
  | .step (.set operand) => Varint.encode 5 ++ encodeOperand operand
  | .step (.swap slot) => Varint.encode 6 ++ Varint.encode slot.toNat
  | .step (.compose template) => Varint.encode 7 ++ encodeOperand template
  | .header name length =>
      Varint.encode 8 ++ encodeBytes (Bytes.ofText name) ++ Varint.encode length.toNat
  | .step (.call function arguments) =>
      Varint.encode 9 ++ encodeBytes (Bytes.ofText function) ++ encodeOperands arguments

/-- Items after their number. -/
def encodeItems (items : List Item) : Bytes :=
  Varint.encode items.length ++ items.flatMap Item.encode

/-! ## Reading -/

/-- A reader takes what it reads off the front of the bytes. -/
abbrev Reader := StateT Bytes (Except PackedFlaw)

/-- Reads a 32-bit number. -/
def readWord32 : Reader UInt32 := do
  let n ← StateT.mk Varint.read32
  pure (UInt32.ofNat n)

/-- Reads a 64-bit number. -/
def readWord64 : Reader UInt64 := do
  let n ← StateT.mk Varint.read64
  pure (UInt64.ofNat n)

/-- Reads a number of bytes or items. -/
def readLength : Reader Nat :=
  StateT.mk Varint.read64

/-- Reads a choice. -/
def readTag : Reader Nat :=
  StateT.mk Varint.read32

/-- Takes the given number of bytes. -/
def take (count : Nat) : Reader Bytes :=
  StateT.mk fun bytes =>
    let front := bytes.take count
    if front.length = count then .ok (front, bytes.drop count) else .error .endOfInput

/-- Reads a byte string after its length. -/
def readBytes : Reader Bytes := do
  let count ← readLength
  take count

/-- Reads a text after its length. -/
def readText : Reader String := do
  let bytes ← readBytes
  match Bytes.toText? bytes with
  | some text => pure text
  | none => throw .invalidText

/-- Reads the given number of things. -/
def readMany {α : Type} (readOne : Reader α) : Nat → Reader (List α)
  | 0 => pure []
  | count + 1 => do
      let first ← readOne
      let rest ← readMany readOne count
      pure (first :: rest)

/-- Reads a list after its length. -/
def readList {α : Type} (readOne : Reader α) : Reader (List α) := do
  let count ← readLength
  readMany readOne count

/-- Reads an operand. -/
def readOperand : Reader Operand := do
  match ← readTag with
  | 0 => .literal <$> readBytes
  | 1 => .hex <$> readBytes
  | 2 => pure .buffer
  | 3 => .slot <$> readWord32
  | 4 => .argument <$> readWord64
  | 5 =>
      match ← readTag with
      | 0 => do
          let count ← readWord64
          pure (.read (.bounded count))
      | 1 => pure (.read .rest)
      | _ => throw .unknownTag
  | _ => throw .unknownTag

/-- Reads an item. -/
def readItem : Reader Item := do
  match ← readTag with
  | 0 => do
      let operands ← readList readOperand
      pure (.step (.concat operands))
  | 1 => do
      let operands ← readList readOperand
      pure (.step (.hash operands))
  | 2 => pure (.step .reverse)
  | 3 => do
      let slot ← readWord32
      pure (.step (.store slot))
  | 4 => do
      let slot ← readWord32
      pure (.step (.load slot))
  | 5 => do
      let operand ← readOperand
      pure (.step (.set operand))
  | 6 => do
      let slot ← readWord32
      pure (.step (.swap slot))
  | 7 => do
      let template ← readOperand
      pure (.step (.compose template))
  | 8 => do
      let name ← readText
      let length ← readWord32
      pure (.header name length)
  | 9 => do
      let function ← readText
      let arguments ← readList readOperand
      pure (.step (.call function arguments))
  | _ => throw .unknownTag

/-- Reads the items of a packed program. -/
def readItems : Reader (List Item) :=
  readList readItem

end Attest.Packed
