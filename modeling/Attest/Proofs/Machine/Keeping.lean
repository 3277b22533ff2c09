import Attest.Proofs.Machine.Congruence

/-! # What operands leave alone

    Resolving operands touches little of the machine: it may take the buffer in, read
    from the source, and nothing else.  A condition that is `Steady` under these two,
    and under the counting and discarding with which an instruction begins, is kept
    by everything that happens before an instruction takes effect, whether that
    succeeds or fails. -/

namespace Attest.Run

variable {α β : Type} {settings : Settings} {kept : Machine → Prop}

/-- The run keeps a condition on the machine, however it ends. -/
def Keeps (kept : Machine → Prop) (run : Run α) : Prop :=
  Ensures kept run (fun _ => kept) (fun _ => kept)

namespace Keeps

variable {run : Run α}

theorem pure (value : α) : Keeps kept (pure value) :=
  Ensures.pure fun _ h => h

theorem throw (fault : Fault) : Keeps kept (throw fault : Run α) :=
  Ensures.throw fun _ h => h

theorem bind {next : α → Run β} (first : Keeps kept run) (rest : ∀ value, Keeps kept (next value)) :
    Keeps kept (run >>= next) :=
  Ensures.bind first rest

theorem get_bind {next : Machine → Run β} (h : ∀ seen, Keeps kept (next seen)) :
    Keeps kept (get >>= next) :=
  fun machine hm => h machine machine hm

/-- The machine after the run satisfies the condition. -/
theorem of_run (h : Keeps kept run) {machine after : Machine} {outcome : Except Fault α}
    (hm : kept machine) (hrun : run.run machine = (outcome, after)) : kept after := by
  have hkept := h machine hm
  rw [hrun] at hkept
  cases outcome with
  | ok value => exact hkept
  | error fault => exact hkept

theorem checkLength (length : Nat) : Keeps kept (checkLength settings length) := by
  rw [Run.checkLength]
  split
  · exact throw _
  · exact pure ()

theorem argument (index : Nat) : Keeps kept (Run.argument index) := by
  intro machine hm
  rw [run_argument]
  cases supplied machine.arguments index with
  | ok bytes => exact hm
  | error fault => exact hm

/-- A call keeps a condition on the caller's machine if its body keeps one on the callee's
    that comes from it and gives it back. -/
theorem inside {callees : Machine → Prop} {values : List Bytes} {body : Run Bytes}
    (enter : ∀ machine, kept machine → callees (enter values machine))
    (resume : ∀ machine callee, kept machine → callees callee → kept (resume machine callee))
    (h : Keeps callees body) (function : String) :
    Keeps kept (Run.inside function values body) := by
  intro machine hm
  rw [run_inside]
  have hbody := h (Run.enter values machine) (enter machine hm)
  cases hrun : body.run (Run.enter values machine) with
  | mk outcome callee =>
      rw [hrun] at hbody
      cases outcome with
      | ok bytes => exact resume machine callee hm hbody
      | error fault => exact resume machine callee hm hbody

/-- Keeping a condition is a relation that does not look at the second run. -/
theorem sequential : Sequential fun _ run _ => Keeps kept run where
  pure := pure
  bind := bind
  seenBuffer := get_bind fun seen => pure seen.buffer
  seenMemory := get_bind fun seen => pure seen.memory

end Keeps

/-- A condition that taking the buffer in, reading from the source and beginning an
    instruction keep. -/
structure Steady (settings : Settings) (kept : Machine → Prop) : Prop where
  bufferBytes : Keeps kept (bufferBytes settings)
  fromSource : ∀ {α : Type} (read : Source → Except String α × Source),
    Keeps kept (fromSource read)
  counted : ∀ machine, kept machine → kept { machine with steps := machine.steps + 1 }
  discarded : ∀ machine, kept machine → kept { machine with buffer := .held [] }

/-- A condition that does not look at the buffer, the source and the number of steps is
    steady. -/
theorem steady_of_aside (h : ∀ machine buffer source steps, kept machine →
    kept { machine with buffer := buffer, source := source, steps := steps }) :
    Steady settings kept := by
  have hsource : ∀ {α : Type} (read : Source → Except String α × Source),
      Keeps kept (fromSource read) := by
    intro α read machine hm
    rw [run_fromSource]
    cases (read machine.source).1 with
    | ok value => exact h machine machine.buffer _ machine.steps hm
    | error message => exact h machine machine.buffer _ machine.steps hm
  have hreads : ReadsRelate fun _ run _ => Keeps kept run :=
    { Keeps.sequential with
      throw := Keeps.throw
      hold := fun bytes machine hm => h machine (.held bytes) machine.source machine.steps hm
      rest := hsource _
      exhausted := hsource _
      bounded := fun _ => hsource _ }
  exact {
    bufferBytes := (hreads.operandsRelate rfl rfl).bufferBytes
    fromSource := hsource
    counted := fun machine hm => h machine machine.buffer machine.source _ hm
    discarded := fun machine hm => h machine _ machine.source machine.steps hm }

namespace Steady

variable (h : Steady settings kept)

include h

theorem tick : Keeps kept (tick settings) := by
  have hcounted : Keeps kept
      (modify fun machine => { machine with steps := machine.steps + 1 } : Run Unit) :=
    fun machine hm => h.counted machine hm
  refine Keeps.bind hcounted fun _ => ?_
  cases settings.maxSteps with
  | none => exact Keeps.pure ()
  | some limit =>
      refine Keeps.get_bind fun seen => ?_
      split
      · exact Keeps.throw _
      · exact Keeps.pure ()

theorem discardPending (s : Step) : Keeps kept (discardPending s) := by
  intro machine hm
  show kept (if _ then _ else _)
  split
  · exact h.discarded machine hm
  · exact hm

theorem takeBuffer : Keeps kept (takeBuffer settings) := by
  refine Keeps.bind h.bufferBytes fun bytes => ?_
  have hhold : Keeps kept (hold []) := fun machine hm => h.discarded machine hm
  exact Keeps.bind hhold fun _ => Keeps.pure bytes

/-- A steady condition is kept by whatever is done for operands. -/
theorem operandsRelate : OperandsRelate settings settings fun _ run _ => Keeps kept run where
  toSequential := Keeps.sequential
  checkLength := Keeps.checkLength
  bufferBytes := h.bufferBytes
  read := by
    intro length
    cases length with
    | bounded count => exact h.fromSource fun source => source.readUpTo count.toNat
    | rest =>
        rw [Run.resolve]
        split
        · exact h.fromSource Source.readRest
        · exact Keeps.throw _
  digestedBuffer := by
    intro once
    refine Keeps.get_bind fun seen => ?_
    split
    · exact Keeps.pure _
    · split
      · exact Keeps.bind (h.fromSource fun source => source.copyRest []) fun copied => Keeps.pure _
      · exact h.bufferBytes

theorem resolve (operand : Operand) : Keeps kept (resolve settings operand) :=
  h.operandsRelate.resolve fun index _ => Keeps.argument index.toNat

theorem resolveAll (operands : List Operand) : Keeps kept (resolveAll settings operands) :=
  h.operandsRelate.resolveAll id settings fun operand _ => h.resolve operand

theorem prepare (function : String) (operands : List Operand) :
    Keeps kept (prepare settings function operands) := by
  refine Keeps.bind h.tick fun _ => ?_
  exact Keeps.bind (h.discardPending _) fun _ => h.resolveAll operands

theorem join (operands : List Operand) : Keeps kept (join settings operands) :=
  h.operandsRelate.join (fun operand _ => h.resolve operand) Operand.KeepsKind.id

theorem digested (operands : List Operand) : Keeps kept (digested settings operands) :=
  h.operandsRelate.digested (fun operand _ => h.resolve operand) Operand.KeepsKind.id

end Steady

end Attest.Run
