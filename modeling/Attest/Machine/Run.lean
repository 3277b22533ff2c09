import Attest.Machine.Basic
import Attest.Program.Basic
import Attest.Sha256

/-! # Running a program

    A block runs its instructions in order.  What a call does is a parameter of
    running a block: it is given by recursion on how many more calls may nest, so
    every run ends, however the functions call each other. -/

namespace Attest

namespace Run

/-- The digest of bytes in the order that the settings ask for. -/
def digest (settings : Settings) (bytes : Bytes) : Bytes :=
  match settings.digestOrder with
  | .natural => Sha256.digest bytes
  | .reversed => (Sha256.digest bytes).reverse

/-- A step that reads the source takes from its front, so there is no rest left
    that a pending buffer could stand for: it is empty instead. -/
def discardPending (step : Step) : Run Unit :=
  modify fun machine =>
    if machine.buffer = .pending ∧ step.operands.any Operand.readsSource then
      { machine with buffer := .held [] }
    else machine

/-- What a step does to the machine, once a pending buffer has been dealt with. -/
def perform (settings : Settings) (call : String → List Bytes → Run Bytes) : Step → Run Unit
  | .concat operands => do
      let bytes ← join settings operands
      hold bytes
  | .hash operands => do
      let bytes ← digested settings operands
      hold (digest settings bytes)
  | .reverse => do
      let bytes ← bufferBytes settings
      hold bytes.reverse
  | .store slot => do
      let bytes ← bufferBytes settings
      modify fun machine => { machine with memory := machine.memory.store slot bytes }
  | .load slot => do
      let machine ← get
      hold (machine.memory.get slot)
  | .set operand => do
      let bytes ← resolve settings operand
      hold bytes
  | .swap slot => do
      let bytes ← takeBuffer settings
      let machine ← get
      let (old, memory) := machine.memory.swap slot bytes
      set { machine with memory := memory }
      hold old
  | .compose template => do
      let template ← resolve settings template
      let bytes ← bufferBytes settings
      match Template.compose Template.wildcard bytes template with
      | .ok composed => hold composed
      | .error mismatch => throw (.abort (.composition mismatch) [])
  | .call function arguments => do
      let values ← resolveAll settings arguments
      let bytes ← call function values
      hold bytes

/-- What an instruction does.  A definition does nothing when it is reached. -/
def instruction (settings : Settings) (call : String → List Bytes → Run Bytes) :
    Instruction → Run Unit
  | .step step => do
      discardPending step
      perform settings call step
  | .define _ _ => pure ()

/-- Refuses a held buffer beyond the limit. -/
def checkBuffer (settings : Settings) : Run Unit := do
  match (← get).buffer with
  | .held bytes => checkLength settings bytes.length
  | .pending => pure ()

/-- Runs the instructions of a block in order. -/
def block (settings : Settings) (call : String → List Bytes → Run Bytes) :
    List Instruction → Run Unit
  | [] => pure ()
  | first :: rest => do
      tick settings
      instruction settings call first
      checkBuffer settings
      block settings call rest

/-- Runs the body of a function with an empty buffer and the given arguments, and
    returns to the caller's.  An abort records that it leaves the function. -/
def inside (function : String) (arguments : List Bytes) (body : Run Bytes) : Run Bytes :=
  ExceptT.mk fun caller =>
    let (outcome, callee) := body.run
      { caller with
        buffer := .held []
        arguments := some arguments
        depth := caller.depth + 1 }
    (outcome.mapError (Fault.leaving function),
      { callee with
        buffer := caller.buffer
        arguments := caller.arguments
        depth := callee.depth - 1 })

/-- Calls a function while the given number of calls may still nest.  The result
    is the buffer that the body leaves. -/
def call (settings : Settings) (known : Definitions) :
    Nat → String → List Bytes → Run Bytes
  | 0, function, _ =>
      if known.contains function then throw (.callDepth settings.callDepthLimit function)
      else throw (.ofDefect (.undefinedFunction function))
  | room + 1, function, arguments =>
      match known.body? function with
      | none => throw (.ofDefect (.undefinedFunction function))
      | some body =>
          inside function arguments do
            block settings (call settings known room) body
            takeBuffer settings

/-- Runs a block at top level and gives the final buffer. -/
def toEnd (settings : Settings) (known : Definitions) (instructions : List Instruction) :
    Run Bytes := do
  block settings (call settings known settings.callDepthLimit) instructions
  takeBuffer settings

end Run

namespace Program

/-- Runs a program over a source: the outcome, and the machine at the end. -/
def execute (settings : Settings) (program : Program) (source : Source) :
    Except Fault Bytes × Machine :=
  (Run.toEnd settings program.functions program.instructions).run (Machine.start source)

/-- Runs a program over a source and gives the final buffer. -/
def run (settings : Settings) (program : Program) (source : Source) : Except Fault Bytes :=
  (program.execute settings source).1

end Program

end Attest
