import Attest.Proofs.Machine.Boundary
import Attest.Proofs.Program.Exchange

/-! # Relations that go through runs

    Whatever a program does is put together from a few primitive runs, by sequencing and
    calling.  A relation between runs that goes through sequences, and that holds of the
    primitive runs under two settings, therefore holds of all that is put together from
    them, even if the second run has other operands.

    What is asked of the relation comes in layers, so that a relation which is too fine
    for counting, say, can still be used for operands.

    * `GathersRelate`: joining and digesting, where the relation holds of each operand
      (`GathersRelate.join`, `.digested`); `OperandsRelate` is for operands that read.
    * `EffectsRelate`: one step, where the relation holds of what the step does beyond
      its buffer (`StepRelates`, `EffectsRelate.perform`); `StepsRelate` is for all steps.
    * `FramesRelate`: blocks, of such steps or, with `BlocksRelate`, of all steps
      (`FramesRelate.block`, `BlocksRelate.block_self`).
    * `CallsRelate`: calls and whole runs (`CallsRelate.call`, `.toEnd`).

    A condition on runs is a relation that does not look at the second run. -/

namespace Attest

/-- The change keeps apart what the machine tells apart by looking at an operand: the
    buffer, and what reads the source. -/
structure Operand.KeepsKind (f : Operand → Operand) : Prop where
  buffer : ∀ operand, f operand = .buffer ↔ operand = .buffer
  readsSource : ∀ operand, (f operand).readsSource = operand.readsSource

namespace Operand.KeepsKind

theorem id : KeepsKind id :=
  ⟨fun _ => Iff.rfl, fun _ => rfl⟩

variable {f : Operand → Operand} (hf : KeepsKind f)

include hf

theorem any_readsSource_map (operands : List Operand) :
    (operands.map f).any Operand.readsSource = operands.any Operand.readsSource := by
  rw [List.any_map]
  exact congrArg operands.any (funext hf.readsSource)

theorem buffer_mem_map (operands : List Operand) :
    Operand.buffer ∈ operands.map f ↔ Operand.buffer ∈ operands := by
  rw [List.mem_map]
  constructor
  · rintro ⟨operand, hmem, heq⟩
    rwa [(hf.buffer operand).mp heq] at hmem
  · intro hmem
    exact ⟨.buffer, hmem, (hf.buffer .buffer).mpr rfl⟩

theorem count_buffer_map (operands : List Operand) :
    (operands.map f).count .buffer = operands.count .buffer := by
  rw [List.count_eq_countP, List.count_eq_countP, List.countP_map]
  refine List.countP_congr fun operand _ => ?_
  simp [hf.buffer operand]

end Operand.KeepsKind

/-- The slot that a step writes. -/
def Step.written? : Step → Option UInt32
  | store slot => some slot
  | swap slot => some slot
  | _ => none

namespace Run

/-! ## Primitive runs that look at the machine or change it -/

/-- The buffer, as it is. -/
def seenBuffer : Run Buffer := do
  let machine ← get
  pure machine.buffer

/-- The memory, as it is. -/
def seenMemory : Run Memory := do
  let machine ← get
  pure machine.memory

/-- Makes this the memory. -/
def remember (memory : Memory) : Run Unit :=
  modify fun machine => { machine with memory := memory }

/-- Puts bytes into a slot. -/
def put (slot : UInt32) (bytes : Bytes) : Run Unit := do
  let memory ← seenMemory
  remember (memory.store slot bytes)

theorem discardPending_eq (s : Step) :
    discardPending s = seenBuffer >>= fun buffer =>
      if buffer = .pending ∧ s.operands.any Operand.readsSource then hold [] else pure () := by
  funext machine
  show (Except.ok (), if _ then _ else _) = (ite _ (hold []) (pure ()) : Run Unit).run machine
  split <;> rfl

theorem checkBuffer_eq (settings : Settings) :
    checkBuffer settings = seenBuffer >>= fun buffer =>
      match buffer with
      | .held bytes => checkLength settings bytes.length
      | .pending => pure () := rfl

theorem bufferBytes_eq (settings : Settings) :
    bufferBytes settings = materialize settings >>= fun _ => seenBuffer >>= fun buffer =>
      match buffer with
      | .held bytes => pure bytes
      | .pending => throw (.ofBreach .notMaterialized) := rfl

theorem materialize_eq (settings : Settings) :
    materialize settings = seenBuffer >>= fun buffer =>
      match buffer with
      | .held _ => pure ()
      | .pending =>
          if settings.allowUnboundedReads then fromSource Source.readRest >>= hold
          else fromSource (fun source => (source.isExhausted, source)) >>= fun exhausted =>
            if exhausted then hold [] else throw (.ofBreach .bufferingDisabled) := by
  funext machine
  show (materialize settings).run machine = (_ >>= _ : Run Unit).run machine
  rw [materialize, run_get_bind, seenBuffer, bind_assoc, run_get_bind]
  cases machine.buffer with
  | held bytes => rfl
  | pending =>
      show (ite _ _ _ : Run Unit).run machine = (ite _ _ _ : Run Unit).run machine
      split
      · rfl
      · rw [run_bind, run_bind]
        cases (fromSource fun source => (source.isExhausted, source)).run machine with
        | mk outcome after =>
            cases outcome with
            | error fault => rfl
            | ok exhausted => cases exhausted <;> rfl

theorem digestedBuffer_eq (settings : Settings) (once : Bool) :
    digestedBuffer settings once = seenBuffer >>= fun buffer =>
      match buffer with
      | .held bytes => pure bytes
      | .pending =>
          if once then fromSource (fun source => source.copyRest []) >>= fun copied => pure copied.2
          else bufferBytes settings := rfl

/-- Copying the rest of the source is reading it. -/
theorem fromSource_copyRest (sink : Bytes) :
    fromSource (fun source => source.copyRest sink) =
      fromSource Source.readRest >>= fun bytes => pure (bytes.length, sink ++ bytes) := by
  funext machine
  show (fromSource _).run machine = (_ >>= _ : Run _).run machine
  rw [run_bind, run_fromSource, run_fromSource]
  show ((machine.source.readRest.1.map _).mapError _, _) = _
  cases machine.source.readRest.1 <;> rfl

theorem resolve_slot_eq (settings : Settings) (index : UInt32) :
    resolve settings (.slot index) = seenMemory >>= fun memory => pure (memory.get index) := rfl

section Perform

variable (settings : Settings) (call : String → List Bytes → Run Bytes) (slot : UInt32)

theorem perform_store_eq :
    perform settings call (.store slot) = bufferBytes settings >>= put slot := rfl

theorem perform_load_eq :
    perform settings call (.load slot) = seenMemory >>= fun memory => hold (memory.get slot) := rfl

theorem perform_swap_eq :
    perform settings call (.swap slot) = takeBuffer settings >>= fun bytes =>
      seenMemory >>= fun memory => put slot bytes >>= fun _ => hold (memory.get slot) := rfl

end Perform

/-! ## What is asked of a relation -/

/-- A relation between runs that give values of the same type. -/
abbrev Relation := ∀ α : Type, Run α → Run α → Prop

variable {settings settings' : Settings} {R : Relation}

/-- The relation goes through sequences, and holds of what only looks at the buffer and
    the memory. -/
structure Sequential (R : Relation) : Prop where
  pure : ∀ {α : Type} (value : α), R α (pure value) (pure value)
  bind : ∀ {α β : Type} {first second : Run α} {next next' : α → Run β}, R α first second →
    (∀ value, R β (next value) (next' value)) → R β (first >>= next) (second >>= next')
  seenBuffer : R Buffer seenBuffer seenBuffer
  seenMemory : R Memory seenMemory seenMemory

/-- The relation holds of whatever is done with the bytes of operands. -/
structure GathersRelate (settings settings' : Settings) (R : Relation) : Prop
    extends Sequential R where
  checkLength : ∀ length, R Unit (checkLength settings length) (checkLength settings' length)
  bufferBytes : R Bytes (bufferBytes settings) (bufferBytes settings')
  digestedBuffer : ∀ once, R Bytes (digestedBuffer settings once) (digestedBuffer settings' once)

/-- The relation also holds of reading from the source. -/
structure OperandsRelate (settings settings' : Settings) (R : Relation) : Prop
    extends GathersRelate settings settings' R where
  read : ∀ length, R Bytes (resolve settings (.read length)) (resolve settings' (.read length))

/-- The relation also holds of whatever a step does to the buffer. -/
structure EffectsRelate (settings settings' : Settings) (R : Relation) : Prop
    extends GathersRelate settings settings' R where
  hold : ∀ bytes, R Unit (hold bytes) (hold bytes)

/-- The relation also holds of counting. -/
structure FramesRelate (settings settings' : Settings) (R : Relation) : Prop
    extends EffectsRelate settings settings' R where
  tick : R Unit (tick settings) (tick settings')

/-- What is asked of the relation for one step and the step with other operands, apart
    from what every step needs: that it holds of each operand and what it is exchanged for,
    of the order of a digest, of what the step writes, of an abort, and of a call. -/
structure StepRelates (settings settings' : Settings) (R : Relation) (f : Operand → Operand)
    (call call' : String → List Bytes → Run Bytes) (s : Step) : Prop where
  operands : ∀ operand ∈ s.operands,
    R Bytes (resolve settings operand) (resolve settings' (f operand))
  order : ∀ operands, s = .hash operands → settings.digestOrder = settings'.digestOrder
  put : ∀ slot, s.written? = some slot → ∀ bytes, R Unit (put slot bytes) (put slot bytes)
  abort : ∀ template, s = .compose template → ∀ reason,
    R Unit (throw (.abort reason [])) (throw (.abort reason []))
  call : ∀ function arguments, s = .call function arguments → ∀ values,
    R Bytes (call function values) (call' function values)

/-- The relation holds of whatever a step does itself. -/
structure StepsRelate (settings settings' : Settings) (R : Relation) : Prop
    extends OperandsRelate settings settings' R, EffectsRelate settings settings' R where
  throw : ∀ {α : Type} (fault : Fault), R α (throw fault) (throw fault)
  order : settings.digestOrder = settings'.digestOrder
  remember : ∀ memory, R Unit (remember memory) (remember memory)

/-- The relation holds of whatever a frame does itself. -/
structure BlocksRelate (settings settings' : Settings) (R : Relation) : Prop
    extends StepsRelate settings settings' R, FramesRelate settings settings' R

/-- The relation also goes through calls, and calls may nest alike. -/
structure CallsRelate (settings settings' : Settings) (R : Relation) : Prop
    extends BlocksRelate settings settings' R where
  depth : settings.callDepthLimit = settings'.callDepthLimit
  inside : ∀ function values {body body' : Run Bytes}, R Bytes body body' →
    R Bytes (inside function values body) (inside function values body')

/-! ## From the ways of reading -/

/-- The relation holds of the ways in which the source is read, and of holding what has
    been read. -/
structure ReadsRelate (R : Relation) : Prop extends Sequential R where
  throw : ∀ {α : Type} (fault : Fault), R α (throw fault) (throw fault)
  hold : ∀ bytes, R Unit (hold bytes) (hold bytes)
  rest : R Bytes (fromSource Source.readRest) (fromSource Source.readRest)
  exhausted : R Bool (fromSource fun source => (source.isExhausted, source))
    (fromSource fun source => (source.isExhausted, source))
  bounded : ∀ count, R Bytes (fromSource fun source => source.readUpTo count)
    (fromSource fun source => source.readUpTo count)

namespace ReadsRelate

variable (h : ReadsRelate R) (hreads : settings.allowUnboundedReads = settings'.allowUnboundedReads)

include h hreads

theorem bufferBytes : R Bytes (bufferBytes settings) (bufferBytes settings') := by
  have hmaterialize : R Unit (materialize settings) (materialize settings') := by
    rw [materialize_eq, materialize_eq, hreads]
    refine h.bind h.seenBuffer fun buffer => ?_
    cases buffer with
    | held bytes => exact h.pure ()
    | pending =>
        dsimp only
        split
        · exact h.bind h.rest h.hold
        · refine h.bind h.exhausted fun exhausted => ?_
          split
          · exact h.hold []
          · exact h.throw _
  rw [bufferBytes_eq, bufferBytes_eq]
  refine h.bind hmaterialize fun _ => h.bind h.seenBuffer fun buffer => ?_
  cases buffer with
  | held bytes => exact h.pure bytes
  | pending => exact h.throw _

theorem digestedBuffer (once : Bool) :
    R Bytes (digestedBuffer settings once) (digestedBuffer settings' once) := by
  rw [digestedBuffer_eq, digestedBuffer_eq]
  refine h.bind h.seenBuffer fun buffer => ?_
  cases buffer with
  | held bytes => exact h.pure bytes
  | pending =>
      dsimp only
      split
      · rw [fromSource_copyRest]
        exact h.bind (h.bind h.rest fun bytes => h.pure _) fun copied => h.pure _
      · exact h.bufferBytes hreads

theorem read (length : ReadLength) :
    R Bytes (resolve settings (.read length)) (resolve settings' (.read length)) := by
  cases length with
  | bounded count => exact h.bounded count.toNat
  | rest =>
      rw [resolve, resolve, hreads]
      split
      · exact h.rest
      · exact h.throw _

/-- Settings that agree in what may be read and how long buffers may be need nothing else
    for operands. -/
theorem operandsRelate (hlength : settings.maxBufferLength = settings'.maxBufferLength) :
    OperandsRelate settings settings' R where
  toSequential := h.toSequential
  checkLength := by
    intro length
    rw [checkLength, checkLength, hlength]
    split
    · exact h.throw _
    · exact h.pure ()
  bufferBytes := h.bufferBytes hreads
  read := h.read hreads
  digestedBuffer := h.digestedBuffer hreads

end ReadsRelate

/-! ## Operands -/

namespace Sequential

variable (h : Sequential R) (f : Operand → Operand) {operands : List Operand}

include h

theorem resolveAll (settings' : Settings) (hoperands : ∀ operand ∈ operands,
    R Bytes (Run.resolve settings operand) (Run.resolve settings' (f operand))) :
    R (List Bytes) (resolveAll settings operands) (resolveAll settings' (operands.map f)) := by
  induction operands with
  | nil => exact h.pure []
  | cons operand rest ih =>
      rw [List.forall_mem_cons] at hoperands
      refine h.bind hoperands.1 fun bytes => ?_
      exact h.bind (ih hoperands.2) fun others => h.pure (bytes :: others)

/-- The relation holds of digesting, where it holds of the way in which the buffer is
    digested and of the other operands. -/
theorem digestedAll (settings' : Settings) (hoperands : ∀ operand ∈ operands, operand ≠ .buffer →
    R Bytes (Run.resolve settings operand) (Run.resolve settings' (f operand)))
    (hf : Operand.KeepsKind f) {once : Bool}
    (hbuffer : R Bytes (digestedBuffer settings once) (digestedBuffer settings' once))
    (front : Bytes) :
    R Bytes (digestedAll settings once front operands)
      (digestedAll settings' once front (operands.map f)) := by
  induction operands generalizing front with
  | nil => exact h.pure front
  | cons operand rest ih =>
      rw [List.forall_mem_cons] at hoperands
      rw [List.map_cons]
      -- the buffer is digested in a way of its own; every other operand is resolved
      by_cases hb : operand = .buffer
      · rw [hb, (hf.buffer .buffer).mpr rfl]
        exact h.bind hbuffer fun bytes => ih hoperands.2 _
      · rw [digestedAll_cons_of_ne settings once front hb,
          digestedAll_cons_of_ne settings' once front (mt (hf.buffer operand).mp hb)]
        exact h.bind (hoperands.1 hb) fun bytes => ih hoperands.2 _

end Sequential

namespace GathersRelate

variable (h : GathersRelate settings settings' R)

include h

/-- The relation holds of an operand, where it holds of reading and of positional
    arguments, if the operand is one of these. -/
theorem resolve_of {operand : Operand}
    (hread : ∀ length, operand = .read length →
      R Bytes (resolve settings (.read length)) (resolve settings' (.read length)))
    (hargument : ∀ index, operand = .argument index →
      R Bytes (argument index.toNat) (argument index.toNat)) :
    R Bytes (resolve settings operand) (resolve settings' operand) := by
  cases operand with
  | literal bytes => exact h.pure bytes
  | hex bytes => exact h.pure bytes
  | buffer => exact h.bufferBytes
  | slot index =>
      rw [resolve_slot_eq, resolve_slot_eq]
      exact h.bind h.seenMemory fun memory => h.pure (memory.get index)
  | argument index => exact hargument index rfl
  | read length => exact hread length rfl

variable (f : Operand → Operand) {operands : List Operand}
  (hoperands : ∀ operand ∈ operands, R Bytes (Run.resolve settings operand)
    (Run.resolve settings' (f operand)))

include hoperands

theorem appendAll (joined : Bytes) : R Bytes (appendAll settings joined operands)
    (appendAll settings' joined (operands.map f)) := by
  induction operands generalizing joined with
  | nil => exact h.pure joined
  | cons operand rest ih =>
      rw [List.forall_mem_cons] at hoperands
      refine h.bind hoperands.1 fun bytes => ?_
      exact h.bind (h.checkLength _) fun _ => ih hoperands.2 _

variable {f} (hf : Operand.KeepsKind f)

include hf

theorem join : R Bytes (join settings operands) (join settings' (operands.map f)) := by
  rw [join_eq, join_eq]
  refine h.bind ?_ fun front => h.appendAll f hoperands front
  by_cases hb : Operand.buffer ∈ operands
  · rw [if_pos hb, if_pos ((hf.buffer_mem_map operands).mpr hb)]
    exact h.pure []
  · rw [if_neg hb, if_neg (mt (hf.buffer_mem_map operands).mp hb)]
    exact h.bufferBytes

theorem digested : R Bytes (digested settings operands) (digested settings' (operands.map f)) := by
  unfold Run.digested
  rw [hf.count_buffer_map]
  by_cases hb : Operand.buffer ∈ operands
  · rw [if_pos hb, if_pos ((hf.buffer_mem_map operands).mpr hb)]
    exact h.digestedAll f settings' (fun operand hmem _ => hoperands operand hmem) hf
      (h.digestedBuffer _) []
  · rw [if_neg hb, if_neg (mt (hf.buffer_mem_map operands).mp hb)]
    refine h.bind (h.digestedBuffer true) fun front => ?_
    exact h.digestedAll f settings' (fun operand hmem _ => hoperands operand hmem) hf
      (h.digestedBuffer true) front

end GathersRelate

/-- The relation holds of every operand, where it holds of positional arguments. -/
theorem OperandsRelate.resolve (h : OperandsRelate settings settings' R) {operand : Operand}
    (hargument : ∀ index, operand = .argument index →
      R Bytes (argument index.toNat) (argument index.toNat)) :
    R Bytes (resolve settings operand) (resolve settings' operand) :=
  h.resolve_of (fun length _ => h.read length) hargument

/-! ## Steps and blocks -/

section Steps

variable {f : Operand → Operand} {call : String → List Bytes → Run Bytes}
  (call' : String → List Bytes → Run Bytes)

namespace EffectsRelate

variable (h : EffectsRelate settings settings' R)

include h

theorem takeBuffer : R Bytes (takeBuffer settings) (takeBuffer settings') :=
  h.bind h.bufferBytes fun bytes => h.bind (h.hold []) fun _ => h.pure bytes

theorem checkBuffer : R Unit (checkBuffer settings) (checkBuffer settings') := by
  rw [checkBuffer_eq, checkBuffer_eq]
  refine h.bind h.seenBuffer fun buffer => ?_
  cases buffer with
  | held bytes => exact h.checkLength bytes.length
  | pending => exact h.pure ()

/-- Steps drop a pending buffer together when they read the source together. -/
theorem discardPending {s s' : Step}
    (hreads : s'.operands.any Operand.readsSource = s.operands.any Operand.readsSource) :
    R Unit (discardPending s) (discardPending s') := by
  rw [discardPending_eq, discardPending_eq, hreads]
  refine h.bind h.seenBuffer fun buffer => ?_
  split
  · exact h.hold []
  · exact h.pure ()

variable (hf : Operand.KeepsKind f) {s : Step}

include hf

/-- The relation holds of a step and the step with other operands, where it holds of what
    the step does beyond its buffer. -/
theorem perform (hs : StepRelates settings settings' R f call call' s) :
    R Unit (perform settings call s) (perform settings' call' (s.mapOperands f)) := by
  cases s with
  | concat operands => exact h.bind (h.join hs.operands hf) h.hold
  | hash operands =>
      refine h.bind (h.digested hs.operands hf) fun bytes => ?_
      rw [digest, digest, hs.order operands rfl]
      exact h.hold _
  | reverse => exact h.bind h.bufferBytes fun bytes => h.hold bytes.reverse
  | store slot =>
      rw [Step.mapOperands, perform_store_eq, perform_store_eq]
      exact h.bind h.bufferBytes (hs.put slot rfl)
  | load slot =>
      rw [Step.mapOperands, perform_load_eq, perform_load_eq]
      exact h.bind h.seenMemory fun memory => h.hold (memory.get slot)
  | set operand => exact h.bind (hs.operands operand List.mem_cons_self) h.hold
  | swap slot =>
      rw [Step.mapOperands, perform_swap_eq, perform_swap_eq]
      refine h.bind h.takeBuffer fun bytes => h.bind h.seenMemory fun memory => ?_
      exact h.bind (hs.put slot rfl bytes) fun _ => h.hold (memory.get slot)
  | compose template =>
      refine h.bind (hs.operands template List.mem_cons_self) fun pattern => ?_
      refine h.bind h.bufferBytes fun bytes => ?_
      cases Template.compose Template.wildcard bytes pattern with
      | ok composed => exact h.hold composed
      | error mismatch => exact hs.abort template rfl _
  | call function arguments =>
      refine h.bind (h.resolveAll f settings' hs.operands) fun values => ?_
      exact h.bind (hs.call function arguments rfl values) h.hold

omit hf in
/-- The relation holds of a step and itself, where it holds of what the step does beyond its
    buffer. -/
theorem perform_of_self (hs : StepRelates settings settings' R id call call' s) :
    R Unit (Run.perform settings call s) (Run.perform settings' call' s) := by
  have hperform := h.perform call' Operand.KeepsKind.id hs
  rwa [Step.mapOperands_id] at hperform

/-- The same with the dropping of a pending buffer before it. -/
theorem instruction
    (hs : R Unit (Run.perform settings call s) (Run.perform settings' call' (s.mapOperands f))) :
    R Unit (instruction settings call (.step s))
      (instruction settings' call' (.step (s.mapOperands f))) := by
  refine h.bind (h.discardPending ?_) fun _ => hs
  rw [Step.operands_mapOperands]
  exact hf.any_readsSource_map s.operands

end EffectsRelate

namespace FramesRelate

variable (h : FramesRelate settings settings' R)

include h

/-- Definitions do nothing but count. -/
theorem single_define (name name' : String) (body body' : List Instruction) :
    R Unit (single settings call (.define name body))
      (single settings' call' (.define name' body')) :=
  h.bind h.tick fun _ => h.bind (h.pure ()) fun _ => h.checkBuffer

variable (hf : Operand.KeepsKind f)

include hf

/-- The relation holds of the way from a boundary to the next and the way with other
    operands. -/
theorem single {s : Step}
    (hs : R Unit (perform settings call s) (perform settings' call' (s.mapOperands f))) :
    R Unit (single settings call (.step s))
      (single settings' call' (.step (s.mapOperands f))) := by
  refine h.bind h.tick fun _ => ?_
  exact h.bind (h.instruction call' hf hs) fun _ => h.checkBuffer

/-- The relation holds of a block and the block with other operands, where it holds of
    what each of its own steps does. -/
theorem block {instructions : List Instruction}
    (hsteps : ∀ s, .step s ∈ instructions →
      R Unit (perform settings call s) (perform settings' call' (s.mapOperands f))) :
    R Unit (block settings call instructions)
      (block settings' call' (Instruction.mapSteps (Step.mapOperands f) instructions)) := by
  induction instructions with
  | nil =>
      rw [Instruction.mapSteps]
      exact h.pure ()
  | cons first rest ih =>
      rw [Instruction.mapSteps, block_cons, block_cons]
      refine h.bind ?_ fun _ => ih fun s hs => hsteps s (List.mem_cons_of_mem _ hs)
      cases first with
      | step s =>
          rw [Instruction.mapStep]
          exact h.single call' hf (hsteps s List.mem_cons_self)
      | define name body =>
          rw [Instruction.mapStep]
          exact h.single_define call' name name body _

omit hf

/-- The relation holds of an instruction and itself, where it holds of what it does, if it
    is a step. -/
theorem single_of_self {i : Instruction}
    (hs : ∀ s, i = .step s → R Unit (perform settings call s) (perform settings' call' s)) :
    R Unit (Run.single settings call i) (Run.single settings' call' i) := by
  cases i with
  | define name body => exact h.single_define call' name name body body
  | step s =>
      have hsingle : R Unit (Run.single settings call (.step s))
          (Run.single settings' call' (.step (s.mapOperands id))) := by
        refine h.single call' Operand.KeepsKind.id ?_
        rw [Step.mapOperands_id]
        exact hs s rfl
      rwa [Step.mapOperands_id] at hsingle

/-- The same of a block. -/
theorem block_of_self {instructions : List Instruction}
    (hsteps : ∀ s, .step s ∈ instructions →
      R Unit (perform settings call s) (perform settings' call' s)) :
    R Unit (Run.block settings call instructions) (Run.block settings' call' instructions) := by
  have hblock : R Unit (Run.block settings call instructions)
      (Run.block settings' call' (Instruction.mapSteps (Step.mapOperands id) instructions)) := by
    refine h.block call' Operand.KeepsKind.id fun s hs => ?_
    rw [Step.mapOperands_id]
    exact hsteps s hs
  rwa [Instruction.mapSteps_eq_self] at hblock
  exact fun _ _ s _ => Step.mapOperands_id s

end FramesRelate

theorem StepsRelate.put (h : StepsRelate settings settings' R) (slot : UInt32) (bytes : Bytes) :
    R Unit (put slot bytes) (put slot bytes) :=
  h.bind h.seenMemory fun memory => h.remember (memory.store slot bytes)

/-- Where the relation holds of whatever a step does itself, nothing is left to be asked of
    one step but its operands and its call. -/
theorem StepsRelate.stepRelates (h : StepsRelate settings settings' R) {s : Step}
    (hoperands : ∀ operand ∈ s.operands, R Bytes (resolve settings operand)
      (resolve settings' (f operand)))
    (hcall : ∀ function arguments, s = .call function arguments → ∀ values,
      R Bytes (call function values) (call' function values)) :
    StepRelates settings settings' R f call call' s where
  operands := hoperands
  order := fun _ _ => h.order
  put := fun slot _ => h.put slot
  abort := fun _ _ _ => h.throw _
  call := hcall

namespace BlocksRelate

variable (h : BlocksRelate settings settings' R)
  (hcall : ∀ function values, R Bytes (call function values) (call' function values))
  (hargument : ∀ index, R Bytes (argument index) (argument index))

include h hcall hargument

/-- The relation holds of a step and itself, where it holds of calls and of positional
    arguments. -/
theorem perform_self (s : Step) :
    R Unit (Run.perform settings call s) (Run.perform settings' call' s) :=
  h.perform_of_self call' <|
    h.stepRelates call' (fun _ _ => h.resolve fun index _ => hargument index.toNat)
      fun function _ _ => hcall function

/-- The same of an instruction. -/
theorem single_self (i : Instruction) :
    R Unit (Run.single settings call i) (Run.single settings' call' i) :=
  h.single_of_self call' fun s _ => h.perform_self call' hcall hargument s

/-- The same of a block. -/
theorem block_self (instructions : List Instruction) :
    R Unit (Run.block settings call instructions) (Run.block settings' call' instructions) :=
  h.block_of_self call' fun s _ => h.perform_self call' hcall hargument s

end BlocksRelate

end Steps

/-! ## Calls and whole runs -/

namespace CallsRelate

variable (h : CallsRelate settings settings' R)
  (hargument : ∀ index, R Bytes (argument index) (argument index)) (known : Definitions)

include h hargument

/-- The relation holds of calls of one function, however many more may nest. -/
theorem call (room : Nat) :
    ∀ function values, R Bytes (Run.call settings known room function values)
      (Run.call settings' known room function values) := by
  induction room with
  | zero =>
      intro function values
      rw [Run.call, Run.call, h.depth]
      split
      · exact h.throw _
      · exact h.throw _
  | succ room ih =>
      intro function values
      rw [Run.call, Run.call]
      cases known.body? function with
      | none => exact h.throw _
      | some body =>
          refine h.inside function values ?_
          exact h.bind (h.block_self _ ih hargument body) fun _ => h.takeBuffer

/-- The relation holds of whole runs. -/
theorem toEnd (instructions : List Instruction) :
    R Bytes (Run.toEnd settings known instructions) (Run.toEnd settings' known instructions) := by
  rw [Run.toEnd, Run.toEnd, h.depth]
  exact h.bind (h.block_self _ (h.call hargument known _) hargument instructions) fun _ =>
    h.takeBuffer

end CallsRelate

end Run

end Attest
