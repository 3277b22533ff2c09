import Attest.Proofs.Machine.Simulation
import Attest.Proofs.Program.Scope

/-! # Sources that fail

    A failure of the source is never taken for its end.  A source that delivers some
    data and then fails is a source of which the rest is not known: a run that does
    not end in the failure has decided its answer from the data alone, and gives it
    on every source that begins with them.

    Two runs under the same settings are in step as soon as the ways of reading from
    the two sources agree (`inStep_of_reads`), and a source cut short by a failure
    agrees with every source that goes on from there (`inStep_cut`). -/

namespace Attest

/-- The first source delivers a part of what the second one does, and then fails. -/
structure Source.Cut (message : String) (cut whole : Source) : Prop where
  failure : cut.failure = some message
  remaining : cut.remaining <+: whole.remaining
  consumed : cut.consumed = whole.consumed

namespace Run

variable {α : Type} {related : Source → Source → Prop} {excused : Fault → Prop}

/-! ## Reading in step -/

/-- On related sources a way of reading fails as excused on the first one, or gives
    the same on both and leaves related sources. -/
def Agrees (related : Source → Source → Prop) (excused : Fault → Prop)
    (read : Source → Except String α × Source) : Prop :=
  ∀ source source', related source source' →
    (∃ message, (read source).1 = .error message ∧ excused (.io message)) ∨
      ((read source).1 = (read source').1 ∧ related (read source).2 (read source').2)

/-- A run reads in step where reading agrees. -/
theorem Simulates.fromSource {read : Source → Except String α × Source}
    (h : Agrees related excused read) :
    Simulates related excused (fromSource read) (fromSource read) := by
  intro m n hmn
  rw [run_fromSource, run_fromSource]
  rcases h m.source n.source hmn.source with ⟨message, herror, hexcused⟩ | ⟨hsame, hrelated⟩
  · exact Or.inl ⟨.io message, by rw [herror]; rfl, hexcused⟩
  · exact Or.inr ⟨congrArg (Except.mapError _) hsame, { hmn with source := hrelated }⟩

theorem tick_self (settings : Settings) :
    Simulates related excused (tick settings) (tick settings) := by
  refine Simulates.bind (fun m n hmn => Or.inr ⟨rfl, ?_⟩) fun _ => ?_
  · exact { hmn with steps := congrArg (· + 1) hmn.steps }
  · cases settings.maxSteps with
    | none => exact Simulates.pure ()
    | some limit =>
        refine Simulates.get_bind fun m n hmn => ?_
        rw [hmn.steps]
        split
        · exact Simulates.throw _ m n hmn
        · exact Simulates.pure () m n hmn

/-- Settings are in step with themselves on sources from which reading agrees. -/
theorem inStep_of_reads (settings : Settings)
    (leaving : ∀ fault function, excused fault → excused (fault.leaving function))
    (hrest : Agrees related excused Source.readRest)
    (hbounded : ∀ count, Agrees related excused fun source => source.readUpTo count)
    (hexhausted : Agrees related excused fun source => (source.isExhausted, source)) :
    InStep settings settings related excused := by
  have hparallel : Parallel settings settings (Machine.Alike related) excused :=
    parallel_of_reads shares_alike (Simulates.fromSource hrest) (Simulates.fromSource hexhausted)
      (fun count => Simulates.fromSource (hbounded count)) (tick_self settings)
  exact { hparallel with
    leaving := leaving
    depth := Nat.le_refl _
    overdeep := Or.inl rfl }

/-! ## A source cut short -/

/-- The whole rest of a source that fails cannot be read. -/
theorem readRest_cut (message : String) :
    Agrees (Source.Cut message) (· = .io message) Source.readRest := by
  intro cut whole h
  refine Or.inl ⟨message, ?_, rfl⟩
  rw [Source.readRest, h.failure]

/-- What a bounded read takes from a source that fails, it takes from every source
    that goes on. -/
theorem readUpTo_cut (message : String) (count : Nat) :
    Agrees (Source.Cut message) (· = .io message) fun source => source.readUpTo count := by
  intro cut whole h
  by_cases hshort : cut.remaining.length < count
  · refine Or.inl ⟨message, ?_, rfl⟩
    simp only [Source.readUpTo, if_pos hshort, Source.readRest, h.failure]
  · obtain ⟨more, hmore⟩ := h.remaining
    have hlength : whole.remaining.length = cut.remaining.length + more.length := by
      rw [← hmore, List.length_append]
    have hlong : ¬ whole.remaining.length < count := by omega
    simp only [Source.readUpTo, if_neg hshort, if_neg hlong]
    refine Or.inr ⟨?_, h.failure, ?_, congrArg (· + count) h.consumed⟩
    · rw [← hmore, List.take_append_of_le_length (by omega)]
    · exact ⟨more, by rw [← hmore, List.drop_append_of_le_length (by omega)]⟩

/-- A source that fails does not say that it has ended. -/
theorem isExhausted_cut (message : String) :
    Agrees (Source.Cut message) (· = .io message) fun source => (source.isExhausted, source) := by
  rintro ⟨remaining, failure, consumed⟩ whole h
  obtain ⟨more, hmore⟩ := h.remaining
  cases h.failure
  cases remaining with
  | nil => exact Or.inl ⟨message, rfl, rfl⟩
  | cons byte rest =>
      -- a byte that is left is left to both
      refine Or.inr ⟨?_, h⟩
      rw [List.cons_append] at hmore
      simp only [Source.isExhausted, ← hmore]
      rfl

/-- Runs on a source cut short by a failure are in step with runs on the whole. -/
theorem inStep_cut (settings : Settings) (message : String) :
    InStep settings settings (Source.Cut message) (· = .io message) := by
  refine inStep_of_reads settings ?_ (readRest_cut message) (readUpTo_cut message)
    (isExhausted_cut message)
  rintro fault function rfl
  rfl

end Run

/-- **A failure is not an end**: a run on data after which the source fails ends in
    that failure, or gives the answer that it gives on every source that begins with
    the data, however that source goes on and ends. -/
theorem Program.run_eq_of_ne_failure (program : Program) (settings : Settings) (data : Bytes)
    (message : String)
    (h : program.run settings (.ofBytes data (some message)) ≠ .error (.io message))
    (more : Bytes) (failure : Option String) :
    program.run settings (.ofBytes (data ++ more) failure) =
      program.run settings (.ofBytes data (some message)) := by
  have hcut : Source.Cut message (.ofBytes data (some message))
      (.ofBytes (data ++ more) failure) :=
    ⟨rfl, List.prefix_append data more, rfl⟩
  rcases (Run.inStep_cut settings message).run program hcut with ⟨fault, hrun, rfl⟩ | hsame
  · exact absurd hrun h
  · exact hsame.symm

/-- Two bytes are all that mirroring reads: neither a failure after them nor further
    data make a difference. -/
theorem Program.run_eq_of_ne_failure_mirroring :
    mirroring.run {} (.ofBytes [97, 98] (some "gone")) = .ok [97, 98, 98, 97] ∧
      mirroring.run {} (.ofBytes [97, 98] (some "gone")) ≠ .error (.io "gone") ∧
      mirroring.run {} (.ofBytes ([97, 98] ++ [99]) none) =
        mirroring.run {} (.ofBytes [97, 98] (some "gone")) := by
  have hrun : mirroring.run {} (.ofBytes [97, 98] (some "gone")) = .ok [97, 98, 98, 97] := by
    rfl
  have h : mirroring.run {} (.ofBytes [97, 98] (some "gone")) ≠ .error (.io "gone") := by
    rw [hrun]
    exact nofun
  exact ⟨hrun, h, run_eq_of_ne_failure mirroring {} [97, 98] "gone" h [99] none⟩

end Attest
