import Attest.Proofs.Machine.Confinement
import Attest.Proofs.Program.Validity

/-! # Runs that do not breach the stream policy

    Without unbounded reads, a step that never asks for the rest of the source breaches the
    policy in one way only: it needs the bytes of a pending buffer while something is left
    of the source.  The bytes can be had when the buffer is held, or the source is spent
    (`Machine.Ready`), and then they can be had until the frame ends.

    Only the frame at top level begins with a pending buffer.  So no call breaches the
    policy, whatever the buffer of its caller is (`unbreached_call`), and no frame does
    from the moment when its buffer can be had (`unbreached_frame`). -/

namespace Attest

/-- Whether the stream policy is breached. -/
def Fault.isBreach : Fault → Bool
  | streamPolicy _ _ => true
  | _ => false

/-- Leaving a function makes no fault a breach. -/
theorem Fault.isBreach_leaving (fault : Fault) (function : String) :
    (fault.leaving function).isBreach = fault.isBreach := by
  cases fault <;> rfl

/-- The step does not ask for the rest of the source. -/
def Step.Bounded (s : Step) : Prop :=
  Operand.read .rest ∉ s.operands

namespace Source

variable {source : Source}

/-- Nothing is left of the source, and it ends normally. -/
structure Spent (source : Source) : Prop where
  remaining : source.remaining = []
  failure : source.failure = none

theorem Spent.isExhausted (h : source.Spent) : source.isExhausted = .ok true := by
  rw [Source.isExhausted, h.remaining, h.failure]
  rfl

/-- Reading leaves a spent source spent. -/
theorem Spent.readRest (h : source.Spent) : source.readRest.2.Spent := by
  rw [Source.readRest, h.failure]
  exact ⟨rfl, rfl⟩

theorem Spent.readUpTo (h : source.Spent) (count : Nat) : (source.readUpTo count).2.Spent := by
  rw [Source.readUpTo]
  split
  · exact h.readRest
  · refine ⟨?_, h.failure⟩
    rw [h.remaining]
    exact List.drop_nil

end Source

/-- The bytes of the buffer can be had: it is held, or the source that it stands for is
    spent. -/
def Machine.Ready (machine : Machine) : Prop :=
  machine.buffer = .pending → machine.source.Spent

theorem Machine.Ready.of_held {machine : Machine} {bytes : Bytes}
    (h : machine.buffer = .held bytes) : machine.Ready :=
  fun hpending => nomatch h.symm.trans hpending

namespace Run

variable {α : Type} {settings : Settings} {kept : Machine → Prop}

/-- The run keeps to such machines and does not breach the stream policy. -/
abbrev Unbreached (kept : Machine → Prop) (run : Run α) : Prop :=
  Confines kept (fun fault => fault.isBreach = false) run fun _ => True

/-! ## Operands -/

theorem unbreached_checkLength (length : Nat) : Unbreached kept (checkLength settings length) :=
  Confines.checkLength (fun _ _ => rfl) length

theorem unbreached_argument (index : Nat) : Unbreached kept (argument index) := by
  refine Confines.argument ?_
  intro machine _ fault hfault
  obtain ⟨defect, rfl⟩ := defect_of_supplied hfault
  rfl

/-- An operand other than the buffer breaches nothing, unless it asks for the rest of the
    source. -/
theorem unbreached_resolve
    (h : ∀ machine (count : Nat), kept machine →
      kept { machine with source := (machine.source.readUpTo count).2 })
    {operand : Operand} (hbuffer : operand ≠ .buffer) (hrest : operand ≠ .read .rest) :
    Unbreached kept (resolve settings operand) := by
  cases operand with
  | literal bytes => exact Confines.pure trivial
  | hex bytes => exact Confines.pure trivial
  | buffer => exact absurd rfl hbuffer
  | slot index => exact Confines.get_bind fun _ => Confines.pure trivial
  | argument index => exact unbreached_argument index.toNat
  | read length =>
      cases length with
      | bounded count =>
          rw [resolve]
          exact Confines.fromSource (fun machine => h machine count.toNat) fun _ => rfl
      | rest => exact absurd rfl hrest

/-- Digesting the buffer as it is read breaches nothing. -/
theorem unbreached_digestedBuffer_once
    (h : ∀ machine, kept machine →
      kept { machine with source := (machine.source.copyRest []).2 }) :
    Unbreached kept (digestedBuffer settings true) := by
  refine Confines.get_bind fun seen => ?_
  split
  · exact Confines.pure trivial
  · exact (Confines.fromSource h fun _ => rfl).andThen fun _ => Confines.pure trivial

/-- A call step breaches nothing if its operands and its call do not.  However the call
    leaves the machine, the buffer is held afterwards. -/
theorem unbreached_call_step {call : String → List Bytes → Run Bytes} {function : String}
    {operands : List Operand}
    (hheld : ∀ (machine : Machine) (bytes : Bytes), kept { machine with buffer := .held bytes })
    (hoperands : ∀ operand ∈ operands, Unbreached kept (resolve settings operand))
    (hcall : ∀ values, Unbreached (fun _ => True) (call function values)) :
    Unbreached kept (perform settings call (.call function operands)) := by
  have hresolved : Unbreached kept (resolveAll settings operands) :=
    Confines.sequential.resolveAll id settings hoperands
  refine hresolved.andThen fun values => ?_
  have hcalled : Ensures kept (call function values) (fun _ _ => True)
      fun fault _ => fault.isBreach = false :=
    (hcall values).weaken (fun _ _ => trivial) (fun _ _ _ => trivial) fun _ _ => id
  exact Ensures.bind hcalled fun bytes machine _ => ⟨hheld machine bytes, trivial⟩

/-! ## Frames whose buffer can be had -/

section Ready

variable (hforbidden : settings.allowUnboundedReads = false)

include hforbidden

/-- A buffer that can be had is given. -/
theorem unbreached_bufferBytes : Unbreached Machine.Ready (bufferBytes settings) := by
  intro machine hm
  cases hbuffer : machine.buffer with
  | held bytes =>
      rw [run_bufferBytes_held settings hbuffer]
      exact ⟨hm, trivial⟩
  | pending =>
      rw [run_bufferBytes_guarded hbuffer hforbidden, (hm hbuffer).isExhausted]
      exact ⟨.of_held rfl, trivial⟩

theorem unbreached_digestedBuffer (once : Bool) :
    Unbreached Machine.Ready (digestedBuffer settings once) := by
  cases once with
  | true => exact unbreached_digestedBuffer_once fun machine hm hpending => (hm hpending).readRest
  | false =>
      refine Confines.get_bind fun seen => ?_
      split
      · exact Confines.pure trivial
      · exact unbreached_bufferBytes hforbidden

/-- Whatever a frame does itself keeps a buffer that can be had. -/
theorem framesRelate_ready :
    FramesRelate settings settings fun _ run _ => Unbreached Machine.Ready run where
  toSequential := Confines.sequential
  checkLength := unbreached_checkLength
  bufferBytes := unbreached_bufferBytes hforbidden
  digestedBuffer := unbreached_digestedBuffer hforbidden
  hold := fun _ _ _ => ⟨.of_held rfl, trivial⟩
  tick := Confines.tick (fun _ hm => hm) fun _ => rfl

variable {s : Step} (hbounded : s.Bounded)

include hbounded

theorem unbreached_resolve_ready {operand : Operand} (hmem : operand ∈ s.operands) :
    Unbreached Machine.Ready (resolve settings operand) := by
  by_cases hbuffer : operand = .buffer
  · rw [hbuffer]
    exact unbreached_bufferBytes hforbidden
  · refine unbreached_resolve (fun machine count hm hpending => ?_) hbuffer ?_
    · exact (hm hpending).readUpTo count
    · rintro rfl
      exact hbounded hmem

variable {call : String → List Bytes → Run Bytes}

/-- A step breaches nothing in such a frame, if its call breaches nothing from any
    machine. -/
theorem unbreached_perform
    (hcall : ∀ function operands, s = .call function operands → ∀ values,
      Unbreached (fun _ => True) (call function values)) :
    Unbreached Machine.Ready (perform settings call s) := by
  have hframes := framesRelate_ready hforbidden
  have hothers : (∀ function operands, s ≠ .call function operands) →
      Unbreached Machine.Ready (perform settings call s) := fun hne =>
    hframes.perform_of_self call
      { operands := fun _ hmem => unbreached_resolve_ready hforbidden hbounded hmem
        order := fun _ _ => rfl
        put := fun _ _ _ machine hm => ⟨hm, trivial⟩
        abort := fun _ _ _ => Confines.throw rfl
        call := fun function operands heq => absurd heq (hne function operands) }
  cases s with
  | call function operands =>
      refine unbreached_call_step (fun _ _ => .of_held rfl) ?_ (hcall function operands rfl)
      exact fun _ hmem => unbreached_resolve_ready hforbidden hbounded hmem
  | _ => exact hothers nofun

end Ready

/-! ## Blocks and calls -/

section Blocks

variable (hforbidden : settings.allowUnboundedReads = false) {known : Definitions}

include hforbidden

/-- A block of such steps breaches nothing, if calls do not. -/
theorem unbreached_block {call : String → List Bytes → Run Bytes} {instructions : List Instruction}
    (hbounded : ∀ s, .step s ∈ instructions → s.Bounded)
    (hcall : ∀ function values, Unbreached (fun _ => True) (call function values)) :
    Unbreached Machine.Ready (block settings call instructions) := by
  refine (framesRelate_ready hforbidden).block_of_self call fun s hs => ?_
  exact unbreached_perform hforbidden (hbounded s hs) fun function _ _ => hcall function

variable (hknown : ∀ function body, known.body? function = some body →
  ∀ s, .step s ∈ body → s.Bounded)

include hknown

/-- A call breaches nothing, because its function begins with an empty buffer. -/
theorem unbreached_call (room : Nat) :
    ∀ function values, Unbreached (fun _ => True) (call settings known room function values) := by
  refine call_induction (fun _ _ run => Unbreached (fun _ => True) run)
    (fun _ _ => Confines.throw rfl) (fun _ _ _ => Confines.throw rfl) ?_ room
  intro calls ih function values body hbody
  have hbodies : Unbreached Machine.Ready
      (block settings calls body >>= fun _ => takeBuffer settings) :=
    (unbreached_block hforbidden (hknown function body hbody) ih).andThen fun _ =>
      (framesRelate_ready hforbidden).takeBuffer
  refine Confines.of_errors fun machine fault hfault => ?_
  rw [run_inside] at hfault
  obtain ⟨cause, hcause, rfl⟩ := mapError_eq_error.mp hfault
  have hready : (enter values machine).Ready := .of_held rfl
  rw [Fault.isBreach_leaving]
  exact hbodies.failed_of_error hready hcause

end Blocks

section Frames

variable (hforbidden : settings.allowUnboundedReads = false) {program : Program}
  (hbounded : Instruction.EveryStep Step.Bounded program.instructions)

include hforbidden hbounded

/-- No call of a program without such steps breaches anything. -/
theorem unbreached_callBelow (callers : Nat) (function : String) (values : List Bytes) :
    Unbreached (fun _ => True) (callBelow settings program callers function values) := by
  refine unbreached_call hforbidden (fun name body hbody s hs => ?_) _ function values
  obtain ⟨-, hbodies⟩ := Instruction.everyStep_iff.mp hbounded
  exact hbodies _ (Program.mem_definitions_of_body? hbody) s hs

/-- What is left of a frame breaches nothing from the moment when its buffer can be had. -/
theorem unbreached_frame {rest : List Instruction} (hrest : ∀ s, .step s ∈ rest → s.Bounded)
    (callers : Nat) : Unbreached Machine.Ready (frame settings program callers rest) := by
  have hcall := unbreached_callBelow hforbidden hbounded callers
  exact (unbreached_block hforbidden hrest hcall).andThen fun _ =>
    (framesRelate_ready hforbidden).takeBuffer

end Frames

end Run

end Attest
