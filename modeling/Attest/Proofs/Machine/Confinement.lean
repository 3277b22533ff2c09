import Attest.Proofs.Machine.Congruence

/-! # What runs can fail with

    A run is confined when it keeps a condition on the machine as long as it goes on, and
    fails only with faults of some kind (`Confines`).  What the primitive runs fail with is
    the same in every program (`Fault.IsPrimitive`), so the faults of a step depend on the
    step in three places only: the arguments that its operands look up, the composition,
    and the call (`Confining.perform`).  A block is confined when its own steps are
    (`Confining.block`). -/

namespace Attest

/-- The faults of reading, counting and the limits. -/
inductive Fault.IsPrimitive : Fault → Prop
  | restDisabled : IsPrimitive (.ofBreach .restDisabled)
  | bufferingDisabled : IsPrimitive (.ofBreach .bufferingDisabled)
  | stepLimit (limit : Nat) : IsPrimitive (.stepLimit limit)
  | bufferLimit (limit length : Nat) : IsPrimitive (.bufferLimit limit length)
  | io (message : String) : IsPrimitive (.io message)

namespace Run

variable {α β : Type} {settings : Settings} {kept : Machine → Prop} {ok : Fault → Prop}

/-- The run keeps a condition on the machine while it goes on, gives a value as
    described, and fails only with faults that are described. -/
def Confines (kept : Machine → Prop) (ok : Fault → Prop) (run : Run α) (given : α → Prop) :
    Prop :=
  Ensures kept run (fun value after => kept after ∧ given value) (fun fault _ => ok fault)

namespace Confines

variable {run : Run α} {given : α → Prop}

theorem pure {value : α} (h : given value) : Confines kept ok (pure value) given :=
  Ensures.pure fun _ hm => ⟨hm, h⟩

theorem throw {fault : Fault} (h : ok fault) : Confines kept ok (throw fault) given :=
  Ensures.throw fun _ _ => h

theorem bind {given' : β → Prop} {next : α → Run β} (first : Confines kept ok run given)
    (rest : ∀ value, given value → Confines kept ok (next value) given') :
    Confines kept ok (run >>= next) given' := by
  refine Ensures.bind first fun value => ?_
  intro machine ⟨hm, hvalue⟩
  exact rest value hvalue machine hm

theorem andThen {given' : β → Prop} {next : α → Run β}
    (first : Confines kept ok run fun _ => True)
    (rest : ∀ value, Confines kept ok (next value) given') :
    Confines kept ok (run >>= next) given' :=
  bind first fun value _ => rest value

theorem get_bind {given : β → Prop} {next : Machine → Run β}
    (h : ∀ seen, Confines kept ok (next seen) given) :
    Confines kept ok (get >>= next) given :=
  fun machine hm => h machine machine hm

/-- Without a condition on the machine, only the faults of a run matter. -/
theorem of_errors
    (h : ∀ machine fault, (run.run machine).1 = .error fault → ok fault) :
    Confines (fun _ => True) ok run fun _ => True := by
  intro machine _
  have hrun := h machine
  cases hresult : run.run machine with
  | mk outcome after =>
      rw [hresult] at hrun
      cases outcome with
      | ok value => exact ⟨trivial, trivial⟩
      | error fault => exact hrun fault rfl

theorem fromSource {read : Source → Except String α × Source}
    (hread : ∀ machine, kept machine →
      kept { machine with source := (read machine.source).2 })
    (hio : ∀ message, ok (.io message)) : Confines kept ok (Run.fromSource read) fun _ => True := by
  intro machine hm
  rw [run_fromSource]
  cases (read machine.source).1 with
  | ok value => exact ⟨hread machine hm, trivial⟩
  | error message => exact hio message

theorem tick (hcounted : ∀ machine, kept machine → kept { machine with steps := machine.steps + 1 })
    (hlimit : ∀ limit, ok (.stepLimit limit)) :
    Confines kept ok (Run.tick settings) fun _ => True := by
  intro machine hm
  rw [run_tick]
  cases settings.maxSteps with
  | none => exact ⟨hcounted machine hm, trivial⟩
  | some limit =>
      dsimp only
      by_cases hover : limit < machine.steps + 1
      · rw [if_pos hover]
        exact hlimit limit
      · rw [if_neg hover]
        exact ⟨hcounted machine hm, trivial⟩

theorem checkLength (hlimit : ∀ limit length, ok (.bufferLimit limit length)) (length : Nat) :
    Confines kept ok (Run.checkLength settings length) fun _ => True := by
  rw [Run.checkLength]
  split
  · exact throw (hlimit _ _)
  · exact pure trivial

/-- A positional argument is found, or fails as described. -/
theorem argument {index : Nat} (hfound : ∀ machine, kept machine → ∀ fault,
      supplied machine.arguments index = .error fault → ok fault) :
    Confines kept ok (Run.argument index) fun _ => True := by
  intro machine hm
  rw [run_argument]
  cases hsupplied : supplied machine.arguments index with
  | ok bytes => exact ⟨hm, trivial⟩
  | error fault => exact hfound machine hm fault hsupplied

/-- Being confined is a relation that does not look at the second run. -/
theorem sequential : Sequential fun _ run _ => Confines kept ok run fun _ => True where
  pure := fun _ => pure trivial
  bind := andThen
  seenBuffer := get_bind fun _ => pure trivial
  seenMemory := get_bind fun _ => pure trivial

end Confines

/-- A condition that no step breaks in its own frame, and faults that the primitive runs
    are among. -/
structure Confining (kept : Machine → Prop) (ok : Fault → Prop) : Prop where
  aside : ∀ machine buffer memory source steps, kept machine →
    kept { machine with buffer := buffer, memory := memory, source := source, steps := steps }
  primitive : ∀ fault, fault.IsPrimitive → ok fault

namespace Confining

variable (h : Confining kept ok)

include h

/-! ## Primitive runs -/

theorem hold (bytes : Bytes) : Confines kept ok (hold bytes) fun _ => True :=
  fun machine hm =>
    ⟨h.aside machine (.held bytes) machine.memory machine.source machine.steps hm, trivial⟩

theorem put (slot : UInt32) (bytes : Bytes) :
    Confines kept ok (put slot bytes) fun _ => True :=
  Confines.get_bind fun seen machine hm =>
    ⟨h.aside machine machine.buffer (seen.memory.store slot bytes) machine.source machine.steps hm,
      trivial⟩

theorem fromSource (read : Source → Except String α × Source) :
    Confines kept ok (fromSource read) fun _ => True :=
  Confines.fromSource
    (fun machine => h.aside machine machine.buffer machine.memory _ machine.steps)
    fun message => h.primitive _ (.io message)

theorem tick : Confines kept ok (tick settings) fun _ => True :=
  Confines.tick
    (fun machine => h.aside machine machine.buffer machine.memory machine.source _)
    fun limit => h.primitive _ (.stepLimit limit)

theorem checkLength (length : Nat) :
    Confines kept ok (checkLength settings length) fun _ => True :=
  Confines.checkLength (fun limit length => h.primitive _ (.bufferLimit limit length)) length

theorem bufferBytes : Confines kept ok (bufferBytes settings) fun _ => True := by
  intro machine hm
  cases hbuffer : machine.buffer with
  | held bytes =>
      rw [run_bufferBytes_held settings hbuffer]
      exact ⟨hm, trivial⟩
  | pending =>
      cases hallowed : settings.allowUnboundedReads with
      | true =>
          rw [run_bufferBytes_pending hbuffer hallowed]
          have hread : Confines kept ok
              (Run.fromSource Source.readRest >>= fun bytes => Run.hold bytes >>= fun _ =>
                Pure.pure bytes) fun _ => True :=
            (h.fromSource _).andThen fun bytes => (h.hold bytes).andThen fun _ =>
              Confines.pure trivial
          exact hread machine hm
      | false =>
          rw [run_bufferBytes_guarded hbuffer hallowed]
          cases machine.source.isExhausted with
          | error message => exact h.primitive _ (.io message)
          | ok exhausted =>
              cases exhausted with
              | true => exact h.hold [] machine hm
              | false => exact h.primitive _ .bufferingDisabled

theorem digestedBuffer (once : Bool) :
    Confines kept ok (digestedBuffer settings once) fun _ => True := by
  refine Confines.get_bind fun seen => ?_
  split
  · exact Confines.pure trivial
  · split
    · exact (h.fromSource _).andThen fun _ => Confines.pure trivial
    · exact h.bufferBytes

/-! ## Operands -/

/-- Whatever is done for operands is confined. -/
theorem operandsRelate :
    OperandsRelate settings settings fun _ run _ => Confines kept ok run fun _ => True where
  toSequential := Confines.sequential
  checkLength := h.checkLength
  bufferBytes := h.bufferBytes
  read := by
    intro length
    cases length with
    | bounded count => exact h.fromSource fun source => source.readUpTo count.toNat
    | rest =>
        rw [Run.resolve]
        split
        · exact h.fromSource _
        · exact Confines.throw (h.primitive _ .restDisabled)
  digestedBuffer := h.digestedBuffer

/-- Whatever is done to the buffer is confined. -/
theorem effectsRelate :
    EffectsRelate settings settings fun _ run _ => Confines kept ok run fun _ => True :=
  { h.operandsRelate with hold := h.hold }

/-- Counting is confined as well. -/
theorem framesRelate :
    FramesRelate settings settings fun _ run _ => Confines kept ok run fun _ => True :=
  { h.effectsRelate with tick := h.tick }

theorem takeBuffer : Confines kept ok (takeBuffer settings) fun _ => True :=
  h.effectsRelate.takeBuffer

section Step

variable {operands : List Operand}
  (hfound : ∀ index, Operand.argument index ∈ operands → ∀ machine, kept machine →
    ∀ fault, supplied machine.arguments index.toNat = .error fault → ok fault)

include hfound

/-- An operand is confined when its argument is found, or fails as described. -/
theorem resolve {operand : Operand} (hmem : operand ∈ operands) :
    Confines kept ok (resolve settings operand) fun _ => True := by
  refine h.operandsRelate.resolve ?_
  rintro index rfl
  exact Confines.argument (hfound index hmem)

theorem resolveAll :
    Confines kept ok (resolveAll settings operands)
      fun values => values.length = operands.length := by
  induction operands with
  | nil => exact Confines.pure rfl
  | cons operand rest ih =>
      refine (h.resolve hfound List.mem_cons_self).andThen fun bytes => ?_
      refine (ih fun index hindex => hfound index (List.mem_cons_of_mem _ hindex)).bind ?_
      exact fun others hlength => Confines.pure (congrArg (· + 1) hlength)

end Step

/-! ## Steps and blocks -/

variable {call : String → List Bytes → Run Bytes}

/-- A step is confined when its arguments are found, its composition fails as described,
    and its call is confined. -/
theorem perform {s : Step}
    (hfound : ∀ index, Operand.argument index ∈ s.operands → ∀ machine, kept machine →
      ∀ fault, supplied machine.arguments index.toNat = .error fault → ok fault)
    (hcompose : ∀ template, s = .compose template → ∀ reason, ok (.abort reason []))
    (hcall : ∀ function operands, s = .call function operands → ∀ values,
      values.length = operands.length → Confines kept ok (call function values) fun _ => True) :
    Confines kept ok (perform settings call s) fun _ => True := by
  have hothers : (∀ function operands, s ≠ .call function operands) →
      Confines kept ok (Run.perform settings call s) fun _ => True := fun hne =>
    h.effectsRelate.perform_of_self call
      { operands := fun _ hmem => h.resolve hfound hmem
        order := fun _ _ => rfl
        put := fun slot _ bytes => h.put slot bytes
        abort := fun template heq reason => Confines.throw (hcompose template heq reason)
        call := fun function operands heq => absurd heq (hne function operands) }
  cases s with
  | call function operands =>
      -- a call has as many arguments as the step has operands
      refine (h.resolveAll hfound).bind fun values hlength => ?_
      exact (hcall function operands rfl values hlength).andThen h.hold
  | _ => exact hothers nofun

/-- A block is confined when its own steps are. -/
theorem block {instructions : List Instruction}
    (hsteps : ∀ s, .step s ∈ instructions →
      Confines kept ok (Run.perform settings call s) fun _ => True) :
    Confines kept ok (block settings call instructions) fun _ => True :=
  h.framesRelate.block_of_self call hsteps

end Confining

end Run

end Attest
