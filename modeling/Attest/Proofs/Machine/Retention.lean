import Attest.Proofs.Machine.Keeping
import Attest.Proofs.Program.Scope

/-! # How much a run holds

    The limit on buffers is checked after every instruction, on the buffer of the frame
    that has run it.  This file follows what the check does not look at: the slots, the
    frames that wait, and the final buffer.

    * Without unbounded reads nothing gets past the check: every slot and every buffer
      stays within the limit (`Program.held_within_limit`).
    * With unbounded reads a pending buffer can be taken in at any length.  It gets into
      a slot by a swap that is the first step of the program, and by nothing else
      (`Program.overlong_slot_iff`); and it becomes the result of a program that has
      no step at all, and of no other (`Program.overlong_result_iff`).

    All three come from one invariant of boundaries, `Reached.retained`. -/

namespace Attest

/-- Every slot has contents as described. -/
def Memory.Every (slotted : UInt32 → Bytes → Prop) (memory : Memory) : Prop :=
  ∀ slot, slotted slot (memory.get slot)

theorem Memory.Every.store {slotted : UInt32 → Bytes → Prop} {memory : Memory}
    (h : memory.Every slotted) {slot : UInt32} {value : Bytes} (hvalue : slotted slot value) :
    (memory.store slot value).Every slotted := by
  intro other
  by_cases heq : other = slot
  · rw [heq, Memory.get_store_self]
    exact hvalue
  · rw [Memory.get_store_of_ne memory heq]
    exact h other

/-- The first step of the program exchanges the buffer with the slot, and may start. -/
def Program.SwapsFirst (settings : Settings) (program : Program) (slot : UInt32) : Prop :=
  ∃ before rest, program.instructions = before ++ .step (.swap slot) :: rest ∧
    (∀ i ∈ before, i.isDefinition = true) ∧
      ∀ limit, settings.maxSteps = some limit → before.length + 1 ≤ limit

namespace Run

variable {settings : Settings} {program : Program} {source : Source}

/-! ## Slots -/

section Slots

variable {slotted : UInt32 → Bytes → Prop} {call : String → List Bytes → Run Bytes}

theorem steady_memory (slotted : UInt32 → Bytes → Prop) :
    Steady settings fun machine => machine.memory.Every slotted :=
  steady_of_aside fun _ _ _ _ h => h

/-- What a call in a frame needs: it leaves every slot as described. -/
def CallStores (slotted : UInt32 → Bytes → Prop) (call : String → List Bytes → Run Bytes) :
    Prop :=
  ∀ function values (machine after : Machine) bytes, machine.memory.Every slotted →
    (call function values).run machine = (.ok bytes, after) → after.memory.Every slotted

variable (hshort : ∀ slot bytes, bytes.length ≤ settings.maxBufferLength → slotted slot bytes)
  (hcall : CallStores slotted call)

include hshort hcall

/-- A step after which the buffer passes the check leaves every slot as described, if
    what a swap puts into its slot is. -/
theorem every_of_perform {s : Step} {machine after : Machine}
    (hmemory : machine.memory.Every slotted)
    (hswap : ∀ slot, s = .swap slot → ∀ bytes, Buffered settings machine bytes →
      slotted slot bytes)
    (hperform : (perform settings call s).run machine = (.ok (), after))
    (hfits : BufferFits settings after) : after.memory.Every slotted := by
  have hsteady : Steady settings _ := steady_memory slotted
  cases s with
  | concat operands =>
      obtain ⟨bytes, mid, hjoin, hhold⟩ := run_bind_eq_ok.mp hperform
      have hmid := (hsteady.join operands).of_run hmemory hjoin
      cases hhold
      exact hmid
  | hash operands =>
      obtain ⟨bytes, mid, hdigested, hhold⟩ := run_bind_eq_ok.mp hperform
      have hmid := (hsteady.digested operands).of_run hmemory hdigested
      cases hhold
      exact hmid
  | reverse =>
      obtain ⟨bytes, mid, hbytes, hhold⟩ := run_bind_eq_ok.mp hperform
      have hmid := hsteady.bufferBytes.of_run hmemory hbytes
      cases hhold
      exact hmid
  | store slot =>
      obtain ⟨bytes, mid, hbytes, hstore⟩ := run_bind_eq_ok.mp hperform
      cases hstore
      -- what has been stored is still the buffer, so the check is on it
      have hmid := hsteady.bufferBytes.of_run hmemory hbytes
      exact hmid.store (hshort slot bytes (hfits bytes (buffered_of_run hbytes).2))
  | load slot =>
      cases hperform
      exact hmemory
  | set operand =>
      obtain ⟨bytes, mid, hresolve, hhold⟩ := run_bind_eq_ok.mp hperform
      have hmid := (hsteady.resolve operand).of_run hmemory hresolve
      cases hhold
      exact hmid
  | swap slot =>
      obtain ⟨bytes, mid, htake, hexchange⟩ := run_bind_eq_ok.mp hperform
      obtain ⟨_, _, hbytes, hgiven⟩ := run_bind_eq_ok.mp htake
      cases hgiven
      cases hexchange
      have hmid := hsteady.bufferBytes.of_run hmemory hbytes
      exact hmid.store (hswap slot rfl bytes (buffered_of_run hbytes).1)
  | compose template =>
      obtain ⟨pattern, mid, hresolve, hrest⟩ := run_bind_eq_ok.mp hperform
      obtain ⟨bytes, mid', hbytes, hcompose⟩ := run_bind_eq_ok.mp hrest
      have hmid := (hsteady.resolve template).of_run hmemory hresolve
      have hmid' := hsteady.bufferBytes.of_run hmid hbytes
      cases hresult : Template.compose Template.wildcard bytes pattern with
      | ok composed =>
          rw [hresult] at hcompose
          cases hcompose
          exact hmid'
      | error mismatch =>
          rw [hresult] at hcompose
          exact nomatch hcompose
  | call function operands =>
      obtain ⟨values, mid, hresolve, hrest⟩ := run_bind_eq_ok.mp hperform
      obtain ⟨bytes, mid', hcalled, hhold⟩ := run_bind_eq_ok.mp hrest
      cases hhold
      have hmid := (hsteady.resolveAll operands).of_run hmemory hresolve
      exact hcall function values mid mid' bytes hmid hcalled

/-- The same from one boundary to the next. -/
theorem every_of_single {i : Instruction} {machine after : Machine}
    (hmemory : machine.memory.Every slotted)
    (hswap : ∀ slot, i = .step (.swap slot) → ∀ bytes, Buffered settings machine bytes →
      slotted slot bytes)
    (hsingle : (single settings call i).run machine = (.ok (), after)) :
    after.memory.Every slotted := by
  cases i with
  | define name body =>
      obtain ⟨-, rfl, -⟩ := run_single_define_eq_ok.mp hsingle
      exact hmemory
  | step s =>
      obtain ⟨-, hperform, hfits⟩ := run_single_step_eq_ok.mp hsingle
      refine every_of_perform hshort hcall ?_ ?_ hperform hfits
      · rw [begun]
        split <;> exact hmemory
      · rintro slot rfl bytes hbuffered
        rw [begun_of_no_operands rfl] at hbuffered
        exact hswap slot rfl bytes hbuffered.of_counted

omit hshort hcall in
/-- A held buffer is followed by a held buffer. -/
theorem held_of_single {i : Instruction} {machine after : Machine}
    (hheld : ∃ bytes, machine.buffer = .held bytes)
    (hsingle : (single settings call i).run machine = (.ok (), after)) :
    ∃ bytes, after.buffer = .held bytes := by
  cases i with
  | define name body =>
      obtain ⟨-, rfl, -⟩ := run_single_define_eq_ok.mp hsingle
      exact hheld
  | step s =>
      obtain ⟨-, hperform, -⟩ := run_single_step_eq_ok.mp hsingle
      exact held_of_perform hperform

/-- A block that begins with a held buffer within the limit leaves every slot as
    described. -/
theorem every_of_block (instructions : List Instruction) :
    ∀ {machine after : Machine}, (∃ bytes, machine.buffer = .held bytes) →
      BufferFits settings machine → machine.memory.Every slotted →
      (block settings call instructions).run machine = (.ok (), after) →
      after.memory.Every slotted := by
  induction instructions with
  | nil =>
      intro machine after _ _ hmemory hblock
      cases hblock
      exact hmemory
  | cons first rest ih =>
      intro machine after hheld hfits hmemory hblock
      rw [block_cons, run_bind_eq_ok] at hblock
      obtain ⟨_, mid, hsingle, hrest⟩ := hblock
      refine ih (held_of_single hheld hsingle) (fits_of_single hsingle)
        (every_of_single hshort hcall hmemory ?_ hsingle) hrest
      -- a swap moves the buffer that the last check was on
      rintro slot - bytes hbuffered
      obtain ⟨held, hheld⟩ := hheld
      cases hbuffered with
      | held hbytes => exact hshort slot bytes (hfits bytes hbytes)
      | read hpending => exact nomatch hpending.symm.trans hheld
      | ended hpending => exact nomatch hpending.symm.trans hheld

omit hcall in
/-- Calls leave every slot as described, however many of them may still nest. -/
theorem callStores (known : Definitions) (room : Nat) :
    CallStores slotted (Run.call settings known room) := by
  induction room with
  | zero =>
      intro function values machine after bytes _ hrun
      obtain ⟨_, _, _, _, hroom, -⟩ := run_call_eq_ok hrun
      exact nomatch hroom
  | succ room ih =>
      intro function values machine after bytes hmemory hrun
      obtain ⟨_, body, mid, callee, ⟨⟩, -, hblock, htake, rfl⟩ := run_call_eq_ok hrun
      have hentered : (enter values machine).memory.Every slotted := hmemory
      have hmid := every_of_block hshort ih body ⟨[], rfl⟩ (.of_empty rfl) hentered hblock
      have hcallee := (steady_memory slotted).takeBuffer.of_run hmid htake
      exact hcallee

end Slots

/-! ## Boundaries -/

/-- What a slot can hold: bytes within the limit, or the whole source that the first step
    of the program has put there. -/
inductive Retained (settings : Settings) (program : Program) (source : Source) (slot : UInt32)
    (bytes : Bytes) : Prop
  | within : bytes.length ≤ settings.maxBufferLength →
      Retained settings program source slot bytes
  | whole : settings.allowUnboundedReads = true → source.failure = none →
      program.SwapsFirst settings slot → bytes = source.remaining →
      Retained settings program source slot bytes

/-- At every boundary the buffer has passed the check, and every slot holds what it can
    hold. -/
theorem Reached.retained {boundary : Boundary} (h : Reached settings program source boundary) :
    boundary.machine.memory.Every (Retained settings program source) ∧
      BufferFits settings boundary.machine := by
  have hshort : ∀ slot bytes, bytes.length ≤ settings.maxBufferLength →
      Retained settings program source slot bytes := fun _ _ => .within
  induction h with
  | start => exact ⟨fun slot => .within (Nat.zero_le _), nofun⟩
  | @next machine after first rest callers hreached hsingle ih =>
      obtain ⟨hmemory, hfits⟩ := ih
      refine ⟨?_, fits_of_single hsingle⟩
      refine every_of_single hshort (callStores hshort _ _) hmemory ?_ hsingle
      rintro slot rfl bytes hbuffered
      cases hbuffered with
      | held hheld => exact .within (hfits bytes hheld)
      | ended _ _ hbytes => exact .within (hbytes ▸ Nat.zero_le _)
      | read hpending hallowed hfailure hbytes =>
          -- a buffer that is still pending stands for the whole source
          obtain ⟨before, hbefore⟩ := hreached.untouched hpending
          obtain ⟨hlimit, -, -⟩ := run_single_step_eq_ok.mp hsingle
          have hmachine : machine = { Machine.start source with steps := before.length } :=
            hbefore.machine
          rw [hmachine] at hfailure hbytes hlimit
          exact .whole hallowed hfailure
            ⟨before, rest, hbefore.instructions, hbefore.definitions, hlimit⟩ hbytes
  | @enter machine caller function operands rest body callers values _ hprepare _ _ ih =>
      have hsteady : Steady settings _ := steady_memory (Retained settings program source)
      have hcaller := (hsteady.prepare function operands).of_run ih.1 hprepare
      exact ⟨hcaller, .of_empty rfl⟩

/-- Without unbounded reads taking the buffer in keeps it within the limit. -/
theorem steady_bufferFits (forbidden : settings.allowUnboundedReads = false) :
    Steady settings (BufferFits settings) where
  bufferBytes := by
    intro machine hm
    cases hbuffer : machine.buffer with
    | held bytes =>
        rw [run_bufferBytes_held settings hbuffer]
        exact hm
    | pending =>
        rw [run_bufferBytes_guarded hbuffer forbidden]
        cases machine.source.isExhausted with
        | error message => exact hm
        | ok exhausted =>
            cases exhausted with
            | true => exact .of_empty rfl
            | false => exact hm
  fromSource := by
    intro α read machine hm
    rw [run_fromSource]
    cases (read machine.source).1 with
    | ok value => exact hm
    | error message => exact hm
  counted := fun _ hm => hm
  discarded := fun _ _ => .of_empty rfl

/-- Without unbounded reads the frames that wait have passed the check as well. -/
theorem Reached.callers_fit {boundary : Boundary} (h : Reached settings program source boundary)
    (forbidden : settings.allowUnboundedReads = false) :
    ∀ caller ∈ boundary.callers, BufferFits settings caller.machine := by
  induction h with
  | start => exact nofun
  | next _ _ ih => exact ih
  | @enter machine caller function operands rest body callers values hreached hprepare _ _ ih =>
      refine List.forall_mem_cons.mpr ⟨?_, ih⟩
      have hsteady := steady_bufferFits forbidden
      exact (hsteady.prepare function operands).of_run hreached.retained.2 hprepare

/-- With unbounded reads a swap takes a pending buffer into its slot at any length: the
    check is on what the slot has held. -/
theorem run_single_swap_pending {call : String → List Bytes → Run Bytes} {machine : Machine}
    {slot : UInt32} (hstart : MayStart settings machine) (hpending : machine.buffer = .pending)
    (hallowed : settings.allowUnboundedReads = true) (hfailure : machine.source.failure = none)
    (hslot : (machine.memory.get slot).length ≤ settings.maxBufferLength) :
    (single settings call (.step (.swap slot))).run machine =
      (.ok (), { machine with
        buffer := .held (machine.memory.get slot)
        memory := machine.memory.store slot machine.source.remaining
        source := machine.source.readRest.2
        steps := machine.steps + 1 }) := by
  have htake : (takeBuffer settings).run { machine with steps := machine.steps + 1 } = _ :=
    run_takeBuffer_pending hpending hallowed hfailure
  rw [run_single_step_eq_ok]
  refine ⟨hstart, ?_, ?_⟩
  · rw [begun_of_no_operands rfl, perform, run_bind, htake]
    rfl
  · rintro _ ⟨⟩
    exact hslot

/-- After a swap that is the first step of a program its slot holds the whole source. -/
theorem Reached.of_swapsFirst {slot : UInt32} (hswap : program.SwapsFirst settings slot)
    (hallowed : settings.allowUnboundedReads = true) (hfailure : source.failure = none) :
    ∃ boundary, Reached settings program source boundary ∧
      boundary.machine.memory.get slot = source.remaining := by
  obtain ⟨before, rest, hprogram, hdefinitions, hlimit⟩ := hswap
  have hfirst : Reached settings program source
      ⟨{ Machine.start source with steps := before.length }, .step (.swap slot) :: rest, []⟩ :=
    .of_definitions hprogram hdefinitions fun limit hsome => Nat.le_of_succ_le (hlimit limit hsome)
  have hstart : MayStart settings { Machine.start source with steps := before.length } := hlimit
  have hswapped := hfirst.next
    (run_single_swap_pending hstart rfl hallowed hfailure (Nat.zero_le _))
  exact ⟨_, hswapped, Memory.get_store_self _ _ _⟩

/-- A program of nothing but definitions gives the whole source. -/
theorem run_of_definitions (hdefinitions : ∀ i ∈ program.instructions, i.isDefinition = true)
    (hlimit : ∀ limit, settings.maxSteps = some limit → program.instructions.length ≤ limit)
    (hallowed : settings.allowUnboundedReads = true) (hfailure : source.failure = none) :
    program.run settings source = .ok source.remaining := by
  have hend : Reached settings program source
      ⟨{ Machine.start source with steps := program.instructions.length }, [], []⟩ :=
    .of_definitions (List.append_nil _).symm hdefinitions hlimit
  rw [Program.run, hend.execute_eq]
  exact congrArg Prod.fst (run_takeBuffer_pending rfl hallowed hfailure)

end Run

/-- **Without unbounded reads nothing exceeds the limit**: at every boundary that a run
    comes to, in whatever frame, the buffer, the buffers of the frames that wait and
    every slot are within the limit; a pending buffer is taken in only when it is empty;
    and so the result is within the limit. -/
theorem Program.held_within_limit (program : Program) (settings : Settings) (source : Source)
    (forbidden : settings.allowUnboundedReads = false) :
    (∀ boundary, Run.Reached settings program source boundary →
      (∀ bytes, boundary.machine.buffer = .held bytes →
        bytes.length ≤ settings.maxBufferLength) ∧
      (∀ caller ∈ boundary.callers, ∀ bytes, caller.machine.buffer = .held bytes →
        bytes.length ≤ settings.maxBufferLength) ∧
      ∀ slot, (boundary.machine.memory.get slot).length ≤ settings.maxBufferLength) ∧
    (∀ machine after, machine.buffer = .pending →
      (Run.materialize settings).run machine = (.ok (), after) → after.buffer = .held []) ∧
    ∀ result, program.run settings source = .ok result →
      result.length ≤ settings.maxBufferLength := by
  refine ⟨fun boundary hreached => ⟨hreached.retained.2, hreached.callers_fit forbidden, ?_⟩,
    ?_, ?_⟩
  · intro slot
    cases hreached.retained.1 slot with
    | within hshort => exact hshort
    | whole hallowed => exact nomatch hallowed.symm.trans forbidden
  · exact fun machine after hpending hrun =>
      Run.buffer_of_run_materialize hpending forbidden hrun
  · intro result hrun
    obtain ⟨machine, after, hreached, htake⟩ := Run.Reached.end_of_run hrun
    cases Run.buffered_of_run_takeBuffer htake with
    | held hheld => exact hreached.retained.2 result hheld
    | read _ hallowed => exact nomatch hallowed.symm.trans forbidden
    | ended _ _ hbytes => exact hbytes ▸ Nat.zero_le _

/-- Mirroring two bytes fills a limit of four.  It is within the limit in the middle of
    its call as well, where the caller waits with an empty buffer. -/
theorem Program.held_within_limit_mirroring :
    ({ maxBufferLength := 4 } : Settings).allowUnboundedReads = false ∧
      mirroring.run { maxBufferLength := 4 } (.ofBytes [97, 98, 99] none) =
        .ok [97, 98, 98, 97] ∧
      [97, 98, 98, 97].length ≤ 4 ∧
      ∃ boundary caller,
        Run.Reached { maxBufferLength := 4 } mirroring (.ofBytes [97, 98, 99] none) boundary ∧
          boundary.callers = [caller] ∧ caller.machine.buffer = .held [] ∧
            ∀ slot, (boundary.machine.memory.get slot).length ≤ 4 := by
  have hrun : mirroring.run { maxBufferLength := 4 } (.ofBytes [97, 98, 99] none) =
      .ok [97, 98, 98, 97] := by rfl
  have hbound := held_within_limit mirroring { maxBufferLength := 4 }
    (.ofBytes [97, 98, 99] none) rfl
  have hcalling : Run.Reached { maxBufferLength := 4 } mirroring (.ofBytes [97, 98, 99] none)
      ⟨_, [.step (.call "mirror" [.read (.bounded 2)])], []⟩ := .next .start rfl
  have hcalled := hcalling.enter rfl (by decide) rfl
  exact ⟨rfl, hrun, hbound.2.2 _ hrun, _, _, hcalled, rfl, rfl, (hbound.1 _ hcalled).2.2⟩

/-- **Which slots exceed the limit**: a run comes to a boundary where the slot does exactly
    when unbounded reads let the first step of the program, a swap with that slot, take
    in a source longer than the limit. -/
theorem Program.overlong_slot_iff (program : Program) (settings : Settings) (source : Source)
    (slot : UInt32) :
    (∃ boundary, Run.Reached settings program source boundary ∧
        settings.maxBufferLength < (boundary.machine.memory.get slot).length) ↔
      settings.allowUnboundedReads = true ∧ source.failure = none ∧
        settings.maxBufferLength < source.remaining.length ∧
          program.SwapsFirst settings slot := by
  constructor
  · rintro ⟨boundary, hreached, hlong⟩
    cases hreached.retained.1 slot with
    | within hshort => exact absurd hshort (Nat.not_le.mpr hlong)
    | whole hallowed hfailure hswap hbytes => exact ⟨hallowed, hfailure, hbytes ▸ hlong, hswap⟩
  · rintro ⟨hallowed, hfailure, hlong, hswap⟩
    obtain ⟨boundary, hreached, hslot⟩ := Run.Reached.of_swapsFirst hswap hallowed hfailure
    exact ⟨boundary, hreached, hslot ▸ hlong⟩

/-- Under a limit of 32 a swap puts 33 bytes into a slot, and the digest of the slot that
    comes next finds them there. -/
theorem Program.not_forall_slot_within_limit :
    ¬ ∀ (program : Program) (settings : Settings) (source : Source) (boundary : Boundary),
      Run.Reached settings program source boundary →
        ∀ slot, (boundary.machine.memory.get slot).length ≤ settings.maxBufferLength := by
  intro h
  have hswapped : Run.Reached { allowUnboundedReads := true, maxBufferLength := 32 }
      ⟨[.step (.swap 0), .step (.hash [.slot 0])], .empty, rfl⟩
      (.ofBytes (List.replicate 33 97) none) ⟨_, [.step (.hash [.slot 0])], []⟩ :=
    .next .start rfl
  exact absurd (h _ _ _ _ hswapped 0) (by decide)

/-- **Which results exceed the limit**: a run has such a result exactly when unbounded
    reads let it end with a source longer than the limit, because the program is
    nothing but definitions. -/
theorem Program.overlong_result_iff (program : Program) (settings : Settings) (source : Source) :
    (∃ result, program.run settings source = .ok result ∧
        settings.maxBufferLength < result.length) ↔
      settings.allowUnboundedReads = true ∧ source.failure = none ∧
        settings.maxBufferLength < source.remaining.length ∧
          (∀ i ∈ program.instructions, i.isDefinition = true) ∧
            ∀ limit, settings.maxSteps = some limit → program.instructions.length ≤ limit := by
  constructor
  · rintro ⟨result, hrun, hlong⟩
    obtain ⟨machine, after, hreached, htake⟩ := Run.Reached.end_of_run hrun
    cases Run.buffered_of_run_takeBuffer htake with
    | held hheld => exact absurd (hreached.retained.2 result hheld) (Nat.not_le.mpr hlong)
    | ended _ _ hbytes =>
        rw [hbytes] at hlong
        exact nomatch hlong
    | read hpending hallowed hfailure hbytes =>
        obtain ⟨before, hbefore⟩ := hreached.untouched hpending
        have hmachine : machine = { Machine.start source with steps := before.length } :=
          hbefore.machine
        have hprogram : program.instructions = before :=
          hbefore.instructions.trans (List.append_nil before)
        rw [hmachine] at hfailure hbytes
        rw [hprogram]
        exact ⟨hallowed, hfailure, hbytes ▸ hlong, hbefore.definitions, hbefore.started⟩
  · rintro ⟨hallowed, hfailure, hlong, hdefinitions, hlimit⟩
    exact ⟨source.remaining, Run.run_of_definitions hdefinitions hlimit hallowed hfailure, hlong⟩

/-- A program without instructions gives eight bytes under a limit of four. -/
theorem Program.not_forall_result_within_limit :
    ¬ ∀ (program : Program) (settings : Settings) (source : Source) (result : Bytes),
      program.run settings source = .ok result →
        result.length ≤ settings.maxBufferLength := by
  intro h
  have hrun : Program.run { allowUnboundedReads := true, maxBufferLength := 4 }
      ⟨[], .empty, rfl⟩ (.ofBytes [116, 111, 111, 32, 108, 111, 110, 103] none) =
        .ok [116, 111, 111, 32, 108, 111, 110, 103] := by rfl
  exact absurd (h _ _ _ _ hrun) (by decide)

end Attest
