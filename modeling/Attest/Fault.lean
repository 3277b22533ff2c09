import Attest.Hex
import Attest.Template

/-! # Faults

    Every way in which reading or running a program can fail.  A fault carries
    its cause; `message` gives the wording.  Two kinds of fault collect more on
    their way out: a malformed program and a breach of the stream policy collect
    the places where they were found, an abort collects the functions that it
    left. -/

namespace Attest

/-- A step of the way to the place of a fault. -/
inductive Place
  | instruction (index : Nat)
  | function (name : String)
  /-- A place in free wording. -/
  | remark (text : String)
  deriving DecidableEq, Repr

/-- The wording of a place. -/
def Place.text : Place → String
  | .instruction index => s!"instruction {index}"
  | .function name => s!"function '{name}'"
  | .remark text => text

/-- How deeply definitions may nest; a definition at top level is at depth one. -/
def mostNested : Nat := 32

/-- What makes a program malformed.  Where a value of the program text is quoted,
    it is given in its compact form. -/
inductive Defect
  /- Operand tokens. -/
  | missingColon (token : String)
  | invalidHex (body : String) (flaw : Hex.Flaw)
  | notAnInteger (token : String)
  | invalidSlot (index : Int)
  | argumentBelowOne (token : String)
  | unknownKind (kind token : String)
  /- Program text. -/
  | invalidText
  | blockNotAList
  | instructionNotAList (found : String)
  | emptyInstruction
  | opcodeNotText (found : String)
  | unknownOpcode (opcode : String)
  | wrongArity (opcode : String) (expected found : Nat)
  | operandNotText (found : String)
  | notASlot (opcode token : String)
  | nameNotText (found : String)
  | callWithoutName
  /- Definitions and scope. -/
  | emptyName
  | nestedTooDeep
  | functionNestedTooDeep (name : String)
  | definedTwice (name : String)
  | undefinedFunction (name : String)
  | argumentZero
  | argumentOutsideFunction (index : Nat)
  | argumentOutOfRange (index supplied : Nat)
  /- Packed programs. -/
  | trailingBytes (count : Nat)
  | endsInside (name : String)
  | bodyTooLong (name : String)
  /-- A defect in free wording. -/
  | remark (text : String)
  deriving DecidableEq, Repr

/-- The wording of a defect. -/
def Defect.message : Defect → String
  | .missingColon token => s!"operand '{token}' has no prefix"
  | .invalidHex body flaw =>
      let reason := flaw.message
      s!"invalid hex literal '{body}': {reason}"
  | .notAnInteger token => s!"expected an integer in '{token}'"
  | .invalidSlot index => s!"invalid memory slot index {index}"
  | .argumentBelowOne token => s!"argument index in '{token}' must be 1 or greater"
  | .unknownKind kind token => s!"unknown operand prefix '{kind}' in '{token}'"
  | .invalidText => "invalid JSON"
  | .blockNotAList => "expected a list of instructions"
  | .instructionNotAList found => s!"instruction must be a list, got {found}"
  | .emptyInstruction => "empty instruction"
  | .opcodeNotText found => s!"opcode must be a string, got {found}"
  | .unknownOpcode opcode => s!"unknown opcode '{opcode}'"
  | .wrongArity opcode expected found => s!"{opcode} expects {expected} operand(s), got {found}"
  | .operandNotText found => s!"operand must be a prefixed string token, got {found}"
  | .notASlot opcode token => s!"{opcode} expects a memory slot, got '{token}'"
  | .nameNotText found => s!"function name must be a string, got {found}"
  | .callWithoutName => "call opcode is missing a function name"
  | .emptyName => "function name must not be empty"
  | .nestedTooDeep => s!"function definitions nested deeper than {mostNested}"
  | .functionNestedTooDeep name => s!"function '{name}' is nested deeper than {mostNested}"
  | .definedTwice name => s!"function '{name}' is defined more than once"
  | .undefinedFunction name => s!"call to undefined function '{name}'"
  | .argumentZero => "argument index must be 1 or greater"
  | .argumentOutsideFunction index =>
      s!"positional argument a:{index} used outside a function body"
  | .argumentOutOfRange index supplied =>
      s!"positional argument a:{index} out of range ({supplied} supplied)"
  | .trailingBytes count => s!"{count} trailing bytes after encoded program"
  | .endsInside name => s!"encoded program ends inside function '{name}'"
  | .bodyTooLong name => s!"function '{name}' has too many instructions"
  | .remark text => text

/-- What breaks the policy on reading the source. -/
inductive Breach
  | negativeLength (length : Int)
  /-- The whole rest of the source was asked for by an operand. -/
  | restDisabled
  /-- An instruction needs the whole source as its buffer. -/
  | bufferingDisabled
  /-- The buffer is still pending after it has been taken in. -/
  | notMaterialized
  /-- A breach in free wording. -/
  | remark (text : String)
  deriving DecidableEq, Repr

/-- The wording of a breach. -/
def Breach.message : Breach → String
  | .negativeLength length => s!"read length must not be negative, got {length}"
  | .restDisabled => "r:* requests the whole remaining stream but unbounded reads are disabled"
  | .bufferingDisabled =>
      "instruction needs the whole input stream buffered but unbounded reads are disabled"
  | .notMaterialized => "buffer could not be materialized"
  | .remark text => text

/-- Why a program aborts. -/
inductive AbortReason
  | composition (mismatch : Template.Mismatch)
  /-- A reason in free wording. -/
  | remark (text : String)
  deriving DecidableEq, Repr

/-- The wording of an abort's reason. -/
def AbortReason.message : AbortReason → String
  | .composition mismatch => "composition failed: " ++ mismatch.message
  | .remark text => text

/-- Why bytes are no packed program. -/
inductive PackedFlaw
  | endOfInput
  | unendingVarint
  | invalidText
  | unknownTag
  deriving DecidableEq, Repr

/-- The wording of a flaw in packed bytes. -/
def PackedFlaw.message : PackedFlaw → String
  | .endOfInput => "Hit the end of buffer, expected more data"
  | .unendingVarint =>
      "Found a varint that didn't terminate. Is the usize too big for this platform?"
  | .invalidText => "Tried to parse invalid utf-8"
  | .unknownTag => "Serde Deserialization Error"

/-- A failure to read or run a program. -/
inductive Fault
  /-- The program is broken; the path leads to the place, outermost first. -/
  | malformed (path : List Place) (defect : Defect)
  /-- The source was asked for what the policy forbids. -/
  | streamPolicy (path : List Place) (breach : Breach)
  /-- The program itself decided that the proof does not hold; the call stack
      names the functions that were left, innermost first. -/
  | abort (reason : AbortReason) (callStack : List String)
  | callDepth (limit : Nat) (function : String)
  | stepLimit (limit : Nat)
  | bufferLimit (limit length : Nat)
  /-- The source failed. -/
  | io (message : String)
  /-- The packed form cannot be decoded. -/
  | decode (flaw : PackedFlaw)
  deriving DecidableEq, Repr

namespace Fault

/-- A defect at a place still to be named. -/
def ofDefect (defect : Defect) : Fault := .malformed [] defect

/-- A breach of the stream policy at a place still to be named. -/
def ofBreach (breach : Breach) : Fault := .streamPolicy [] breach

/-- Adds the place around the path of a fault that has one. -/
def located (place : Place) : Fault → Fault
  | .malformed path defect => .malformed (place :: path) defect
  | .streamPolicy path breach => .streamPolicy (place :: path) breach
  | fault => fault

/-- Records that an abort left a function. -/
def leaving (function : String) : Fault → Fault
  | .abort reason callStack => .abort reason (callStack ++ [function])
  | fault => fault

/-- Whether the program is at fault by its form. -/
def isMalformed : Fault → Bool
  | .malformed _ _ => true
  | .decode _ => true
  | _ => false

/-- Whether the program aborted. -/
def isAbort : Fault → Bool
  | .abort _ _ => true
  | _ => false

/-- The functions that an abort left, innermost first. -/
def callStack : Fault → List String
  | .abort _ callStack => callStack
  | _ => []

/-- A path and what was found at its end, joined by colons. -/
def pathText (path : List Place) (found : String) : String :=
  String.intercalate ": " (path.map Place.text ++ [found])

/-- The lines of a call stack, each after a line break. -/
def callStackText (callStack : List String) : String :=
  if callStack.isEmpty then ""
  else
    "\n  call stack:" ++ String.join (callStack.mapIdx fun index function =>
      s!"\n    {index}: {function}")

/-- The wording of a fault. -/
def message : Fault → String
  | .malformed path defect => "malformed program: " ++ pathText path defect.message
  | .streamPolicy path breach => "stream policy violation: " ++ pathText path breach.message
  | .abort reason callStack => "program abort: " ++ reason.message ++ callStackText callStack
  | .callDepth limit function =>
      s!"call depth limit exceeded ({limit}) - possible infinite recursion in '{function}'"
  | .stepLimit limit => s!"execution step limit exceeded ({limit})"
  | .bufferLimit limit length =>
      s!"buffer limit exceeded: {length} bytes, at most {limit} allowed"
  | .io message => "I/O error: " ++ message
  | .decode flaw => "invalid encoded program: " ++ flaw.message

end Fault

end Attest
