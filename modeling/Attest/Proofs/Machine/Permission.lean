import Attest.Proofs.Machine.Simulation
import Attest.Proofs.Program.Scope

/-! # Settings that allow more

    Settings that allow more never change an answer that narrower settings give:
    a run under the narrower ones is refused for want of permission, or it gives
    the answer of the wider ones.  The two runs take different ways to a pending
    buffer, by asking whether the source has ended and by reading all of it, and
    `bufferBytes_within` is where these ways meet. -/

namespace Attest

/-- The first settings allow no more than the second: neither reads nor nested
    calls nor long buffers.  In everything else the two agree. -/
structure Settings.Within (narrow wide : Settings) : Prop where
  reads : narrow.allowUnboundedReads = true → wide.allowUnboundedReads = true
  depth : narrow.callDepthLimit ≤ wide.callDepthLimit
  length : narrow.maxBufferLength ≤ wide.maxBufferLength
  steps : narrow.maxSteps = wide.maxSteps
  order : narrow.digestOrder = wide.digestOrder

/-- A fault that settings cause which allow too little. -/
inductive Fault.IsRefusal : Fault → Prop
  | streamPolicy (path : List Place) (breach : Breach) : IsRefusal (.streamPolicy path breach)
  | callDepth (limit : Nat) (function : String) : IsRefusal (.callDepth limit function)
  | bufferLimit (limit length : Nat) : IsRefusal (.bufferLimit limit length)

/-- Leaving a function changes no refusal. -/
theorem Fault.IsRefusal.leaving {fault : Fault} (h : fault.IsRefusal) (function : String) :
    (fault.leaving function).IsRefusal := by
  cases h with
  | streamPolicy path breach => exact .streamPolicy path breach
  | callDepth limit callee => exact .callDepth limit callee
  | bufferLimit limit length => exact .bufferLimit limit length

namespace Run

variable {α : Type}

/-- Machines that are alike in equal sources are equal. -/
theorem eq_of_alike {m n : Machine} (h : Machine.Alike Eq m n) : m = n := by
  obtain ⟨buffer, arguments, memory, source, depth, steps⟩ := m
  obtain ⟨hb, ha, hm, hd, hs, hsource⟩ := h
  cases hb; cases ha; cases hm; cases hd; cases hs; cases hsource
  rfl

/-- A machine is like itself. -/
theorem alike_refl (machine : Machine) : Machine.Alike Eq machine machine :=
  ⟨rfl, rfl, rfl, rfl, rfl, rfl⟩

/-- A run is in step with itself. -/
theorem simulates_refl (excused : Fault → Prop) (run : Run α) :
    Simulates Eq excused run run := by
  intro m n h
  cases eq_of_alike h
  exact Or.inr ⟨rfl, alike_refl _⟩

section Within

variable {narrow wide : Settings} (h : narrow.Within wide)

include h

theorem tick_within : tick narrow = tick wide := by
  unfold tick
  rw [h.steps]

theorem checkLength_within (length : Nat) :
    Simulates Eq Fault.IsRefusal (checkLength narrow length) (checkLength wide length) := by
  unfold checkLength
  by_cases hlong : narrow.maxBufferLength < length
  · rw [if_pos hlong]
    exact Simulates.throw_excused (.bufferLimit _ _) _
  · have hwide : ¬ wide.maxBufferLength < length := by
      have := h.length
      omega
    rw [if_neg hlong, if_neg hwide]
    exact Simulates.pure ()

/-- The whole rest of the source can be had where asking for its end succeeds. -/
theorem bufferBytes_within :
    Simulates Eq Fault.IsRefusal (bufferBytes narrow) (bufferBytes wide) := by
  intro m n hmn
  cases eq_of_alike hmn
  cases hbuffer : m.buffer with
  | held bytes =>
      rw [run_bufferBytes_held narrow hbuffer, run_bufferBytes_held wide hbuffer]
      exact Or.inr ⟨rfl, hmn⟩
  | pending =>
      cases hwide : wide.allowUnboundedReads with
      | false =>
          have hnarrow : narrow.allowUnboundedReads = false := by
            cases hn : narrow.allowUnboundedReads with
            | false => rfl
            | true => exact absurd (h.reads hn) (by rw [hwide]; decide)
          rw [run_bufferBytes_guarded hbuffer hnarrow, run_bufferBytes_guarded hbuffer hwide]
          exact Or.inr ⟨rfl, alike_refl _⟩
      | true =>
          rw [run_bufferBytes_pending hbuffer hwide]
          cases hnarrow : narrow.allowUnboundedReads with
          | true =>
              rw [run_bufferBytes_pending hbuffer hnarrow]
              exact Or.inr ⟨rfl, alike_refl _⟩
          | false =>
              rw [run_bufferBytes_guarded hbuffer hnarrow]
              -- only at the end of the source do the two ways differ in what they do
              obtain ⟨buffer, arguments, memory, ⟨remaining, failure, consumed⟩, depth, steps⟩ := m
              cases remaining with
              | cons byte rest => exact Or.inl ⟨_, rfl, .streamPolicy _ _⟩
              | nil =>
                  cases failure with
                  | none => exact Or.inr ⟨rfl, alike_refl _⟩
                  | some message => exact Or.inr ⟨rfl, alike_refl _⟩

theorem read_within (length : ReadLength) :
    Simulates Eq Fault.IsRefusal (resolve narrow (.read length))
      (resolve wide (.read length)) := by
  cases length with
  | bounded count => exact simulates_refl _ _
  | rest =>
      unfold resolve
      cases hnarrow : narrow.allowUnboundedReads with
      | false => exact Simulates.throw_excused (.streamPolicy _ _) _
      | true =>
          rw [h.reads hnarrow]
          exact simulates_refl _ _

theorem digestedBuffer_within (once : Bool) :
    Simulates Eq Fault.IsRefusal (digestedBuffer narrow once) (digestedBuffer wide once) := by
  refine Simulates.get_bind ?_
  intro m n hmn
  cases eq_of_alike hmn
  cases m.buffer with
  | held bytes => exact Or.inr ⟨rfl, hmn⟩
  | pending =>
      cases once with
      | true => exact simulates_refl _ _ m m hmn
      | false => exact bufferBytes_within h m m hmn

/-- Runs under settings within others are in step with runs under the others,
    refusals excused. -/
theorem inStep_within : InStep narrow wide Eq Fault.IsRefusal where
  leaving := fun _ function hfault => hfault.leaving function
  order := h.order
  tick := by
    rw [tick_within h]
    exact simulates_refl _ _
  checkLength := checkLength_within h
  bufferBytes := bufferBytes_within h
  read := read_within h
  digestedBuffer := digestedBuffer_within h
  depth := h.depth
  overdeep := Or.inr fun limit function => .callDepth limit function

end Within

end Run

/-- **More permission keeps every answer**: under settings within others a run is
    refused, or it gives the answer that it gives under the others, be that a
    result or a fault with all that it carries. -/
theorem Program.run_refused_or_eq {narrow wide : Settings} (h : narrow.Within wide)
    (program : Program) (source : Source) :
    (∃ fault, program.run narrow source = .error fault ∧ fault.IsRefusal) ∨
      program.run narrow source = program.run wide source :=
  (Run.inStep_within h).run program rfl

/-- A limit of one call refuses the inner of two nested calls, which wider settings
    let through. -/
theorem Program.run_refused_or_eq_mirroring :
    Settings.Within { maxCallDepth := 1, maxBufferLength := 4 }
        { allowUnboundedReads := true, maxCallDepth := 2, maxBufferLength := 8 } ∧
      mirroring.run { allowUnboundedReads := true, maxCallDepth := 2, maxBufferLength := 8 }
        (.ofBytes [97, 98, 99] none) = .ok [97, 98, 98, 97] ∧
      ∃ fault, mirroring.run { maxCallDepth := 1, maxBufferLength := 4 }
          (.ofBytes [97, 98, 99] none) = .error fault ∧
        fault.IsRefusal ∧ fault = .callDepth 1 "flip" := by
  have h : Settings.Within { maxCallDepth := 1, maxBufferLength := 4 }
      { allowUnboundedReads := true, maxCallDepth := 2, maxBufferLength := 8 } :=
    ⟨by decide, by decide, by decide, rfl, rfl⟩
  have hnarrow : mirroring.run { maxCallDepth := 1, maxBufferLength := 4 }
      (.ofBytes [97, 98, 99] none) = .error (.callDepth 1 "flip") := rfl
  have hwide : mirroring.run
      { allowUnboundedReads := true, maxCallDepth := 2, maxBufferLength := 8 }
      (.ofBytes [97, 98, 99] none) = .ok [97, 98, 98, 97] := rfl
  rcases run_refused_or_eq h mirroring (.ofBytes [97, 98, 99] none) with
    ⟨fault, hfault, hrefusal⟩ | hsame
  · exact ⟨h, hwide, fault, hfault, hrefusal, Except.error.inj (hfault.symm.trans hnarrow)⟩
  · exact nomatch hnarrow.symm.trans (hsame.trans hwide)

end Attest
