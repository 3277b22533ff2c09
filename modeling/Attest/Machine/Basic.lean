import Attest.Instruction
import Attest.Memory
import Attest.Settings
import Attest.Source

/-! # The machine

    A run works on one current buffer.  At the top level the buffer starts out as
    *pending*: it stands for the unread rest of the source, which is taken in only
    when an instruction needs its bytes.  Calls see the same memory and source, but
    have a buffer and positional arguments of their own.

    A run either gives a value or a fault; the machine is there in both cases. -/

namespace Attest

/-- The current buffer. -/
inductive Buffer
  /-- The rest of the source, not taken in yet. -/
  | pending
  | held (bytes : Bytes)
  deriving DecidableEq, Repr

/-- The state of a run. -/
structure Machine where
  buffer : Buffer
  /-- The positional arguments of the call in progress; none at top level. -/
  arguments : Option (List Bytes)
  memory : Memory
  source : Source
  /-- The number of calls in progress. -/
  depth : Nat
  /-- The number of instructions started so far. -/
  steps : Nat
  deriving DecidableEq, Repr

/-- The machine before the first instruction. -/
def Machine.start (source : Source) : Machine :=
  ⟨.pending, none, .empty, source, 0, 0⟩

/-- A computation on the machine that gives a value or a fault. -/
abbrev Run := ExceptT Fault (StateM Machine)

namespace Run

/-- Makes the bytes the current buffer. -/
def hold (bytes : Bytes) : Run Unit :=
  modify fun machine => { machine with buffer := .held bytes }

/-- Reads from the source; its failure is a fault of the run. -/
def fromSource {α : Type} (read : Source → Except String α × Source) : Run α := do
  let machine ← get
  let (outcome, source) := read machine.source
  set { machine with source := source }
  match outcome with
  | .ok value => pure value
  | .error message => throw (.io message)

/-- Counts an instruction that starts, and stops the run beyond the limit. -/
def tick (settings : Settings) : Run Unit := do
  modify fun machine => { machine with steps := machine.steps + 1 }
  match settings.maxSteps with
  | some limit =>
      if limit < (← get).steps then throw (.stepLimit limit)
  | none => pure ()

/-- Refuses a length beyond the limit for buffers. -/
def checkLength (settings : Settings) (length : Nat) : Run Unit :=
  if settings.maxBufferLength < length then
    throw (.bufferLimit settings.maxBufferLength length)
  else pure ()

/-- Takes a pending buffer in from the source.  With unbounded reads disabled this
    succeeds only if nothing is left there. -/
def materialize (settings : Settings) : Run Unit := do
  match (← get).buffer with
  | .held _ => pure ()
  | .pending =>
      let bytes ←
        if settings.allowUnboundedReads then fromSource Source.readRest
        else do
          if ← fromSource fun source => (source.isExhausted, source) then pure []
          else throw (.ofBreach .bufferingDisabled)
      hold bytes

/-- The bytes of the buffer, once it has been taken in. -/
def bufferBytes (settings : Settings) : Run Bytes := do
  materialize settings
  match (← get).buffer with
  | .held bytes => pure bytes
  | .pending => throw (.ofBreach .notMaterialized)

/-- The bytes of the buffer, which is empty afterwards. -/
def takeBuffer (settings : Settings) : Run Bytes := do
  let bytes ← bufferBytes settings
  hold []
  pure bytes

/-- The positional argument with an index, counted from one. -/
def argument (index : Nat) : Run Bytes := do
  match (← get).arguments with
  | none => throw (.ofDefect (.argumentOutsideFunction index))
  | some arguments =>
      match index with
      | 0 => throw (.ofDefect (.argumentOutOfRange 0 arguments.length))
      | before + 1 =>
          match arguments[before]? with
          | some bytes => pure bytes
          | none => throw (.ofDefect (.argumentOutOfRange (before + 1) arguments.length))

/-- The bytes of an operand. -/
def resolve (settings : Settings) : Operand → Run Bytes
  | .literal bytes => pure bytes
  | .hex bytes => pure bytes
  | .buffer => bufferBytes settings
  | .slot index => do
      let machine ← get
      pure (machine.memory.get index)
  | .argument index => argument index.toNat
  | .read (.bounded count) => fromSource fun source => source.readUpTo count.toNat
  | .read .rest =>
      if settings.allowUnboundedReads then fromSource Source.readRest
      else throw (.ofBreach .restDisabled)

/-- The bytes of each operand, in order. -/
def resolveAll (settings : Settings) : List Operand → Run (List Bytes)
  | [] => pure []
  | operand :: rest => do
      let bytes ← resolve settings operand
      let others ← resolveAll settings rest
      pure (bytes :: others)

/-! ## Joining and digesting -/

/-- Appends the bytes of operands to what has been joined; the length is checked
    before each of them is appended. -/
def appendAll (settings : Settings) (joined : Bytes) : List Operand → Run Bytes
  | [] => pure joined
  | operand :: rest => do
      let bytes ← resolve settings operand
      checkLength settings (joined.length + bytes.length)
      appendAll settings (joined ++ bytes) rest

/-- Joins operands.  The buffer comes first, unless the operands name it. -/
def join (settings : Settings) (operands : List Operand) : Run Bytes := do
  let front ← if Operand.buffer ∈ operands then pure [] else bufferBytes settings
  appendAll settings front operands

/-- The bytes of the buffer for a digest.  When they are needed once, a pending
    buffer is digested as it is read, which needs no permission to hold it. -/
def digestedBuffer (settings : Settings) (once : Bool) : Run Bytes := do
  match (← get).buffer with
  | .held bytes => pure bytes
  | .pending =>
      if once then do
        let (_, bytes) ← fromSource fun source => source.copyRest []
        pure bytes
      else bufferBytes settings

/-- Appends the bytes of operands to what is to be digested. -/
def digestedAll (settings : Settings) (once : Bool) (digested : Bytes) :
    List Operand → Run Bytes
  | [] => pure digested
  | .buffer :: rest => do
      let bytes ← digestedBuffer settings once
      digestedAll settings once (digested ++ bytes) rest
  | operand :: rest => do
      let bytes ← resolve settings operand
      digestedAll settings once (digested ++ bytes) rest

/-- Everything that is to be digested: what joining the operands would give. -/
def digested (settings : Settings) (operands : List Operand) : Run Bytes := do
  if Operand.buffer ∈ operands then
    digestedAll settings (operands.count .buffer == 1) [] operands
  else
    let front ← digestedBuffer settings true
    digestedAll settings true front operands

end Run

end Attest
