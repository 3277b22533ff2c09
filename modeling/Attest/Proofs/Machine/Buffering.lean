import Attest.Proofs.Machine.Breach
import Attest.Proofs.Machine.Streaming

/-! # Programs that are refused for buffering

    Without unbounded reads, and without a step that asks for the rest of the source, it can
    be read off a program whether its runs are refused (`Program.run_breach_iff`).  Only the
    first step of the program counts, because the buffer is held after any step.  The run is
    refused if the first step needs the bytes of the buffer (`Step.HoldsSource`), or if
    there is no step and the buffer is the result, provided that something is left of the
    source.

    A concatenation that names the buffer looks at the operands before it first, and may
    find them beyond the limit for buffers (`Step.Overfills`).  Nothing has been stored by
    then, so these are the bytes that stand in the program. -/

namespace Attest

namespace Operand

/-- What the operand gives when nothing has been stored, and is not read. -/
def initially : Operand → Bytes
  | literal bytes => bytes
  | hex bytes => bytes
  | _ => []

/-- What the operands before the buffer give when nothing has been stored, one after the
    other. -/
def leading (operands : List Operand) : Bytes :=
  (operands.takeWhile fun operand => operand ≠ .buffer).flatMap initially

theorem leading_cons_buffer (rest : List Operand) : leading (.buffer :: rest) = [] := rfl

theorem leading_cons_of_ne {operand : Operand} (h : operand ≠ .buffer) (rest : List Operand) :
    leading (operand :: rest) = operand.initially ++ leading rest := by
  simp [leading, h]

/-- The operand is neither read nor given as an argument. -/
def AtHand : Operand → Prop
  | argument _ => False
  | read _ => False
  | _ => True

/-- At top level an operand is at hand, unless it is read. -/
theorem InScope.atHand {operand : Operand} (h : operand.InScope false)
    (hreads : operand.readsSource = false) : operand.AtHand := by
  cases operand with
  | argument index => exact nomatch (h index rfl).2
  | read length => exact nomatch hreads
  | _ => trivial

end Operand

namespace Step

/-- The step needs the bytes of the buffer: it is one that joins, reverses, stores,
    exchanges or composes the buffer, or has it among its operands.  A hash only needs them
    if it has the buffer twice. -/
def NeedsBuffer : Step → Prop
  | concat _ => True
  | hash operands => 2 ≤ operands.count .buffer
  | reverse => True
  | store _ => True
  | load _ => False
  | set operand => operand = .buffer
  | swap _ => True
  | compose _ => True
  | call _ arguments => .buffer ∈ arguments

/-- The step needs the bytes of the buffer, and does not read the source instead. -/
structure HoldsSource (s : Step) : Prop where
  needs : s.NeedsBuffer
  reads : s.operands.any Operand.readsSource = false

/-- The step is a concatenation that has joined too much when it comes to the buffer. -/
def Overfills (settings : Settings) : Step → Prop
  | concat operands =>
      .buffer ∈ operands ∧ settings.maxBufferLength < (Operand.leading operands).length
  | _ => False

end Step

/-- A block has no step of its own, or begins with definitions and its first step. -/
theorem Instruction.split_at_first_step (block : List Instruction) :
    ((ownSteps block).head? = none ∧ ∀ i ∈ block, i.isDefinition = true) ∨
      ∃ before s rest, block = before ++ step s :: rest ∧
        (∀ i ∈ before, i.isDefinition = true) ∧ (ownSteps block).head? = some s := by
  induction block with
  | nil => exact Or.inl ⟨rfl, nofun⟩
  | cons first rest ih =>
      cases first with
      | step s => exact Or.inr ⟨[], s, rest, rfl, nofun, rfl⟩
      | define name body =>
          rcases ih with ⟨hnone, hdefinitions⟩ | ⟨before, s, more, rfl, hdefinitions, hsome⟩
          · exact Or.inl ⟨hnone, List.forall_mem_cons.mpr ⟨rfl, hdefinitions⟩⟩
          · exact Or.inr ⟨define name body :: before, s, more, rfl,
              List.forall_mem_cons.mpr ⟨rfl, hdefinitions⟩, hsome⟩

namespace Run

variable {α β : Type} {settings : Settings} {call : String → List Bytes → Run Bytes} {s : Step}

/-! ## First steps that breach nothing -/

/-- Digesting breaches nothing from any machine, if the buffer is digested at most once and
    the other operands breach nothing. -/
theorem unbreached_digested_once {operands : List Operand}
    (honce : ¬ 2 ≤ operands.count .buffer)
    (hresolve : ∀ operand ∈ operands, operand ≠ .buffer →
      Unbreached (fun _ => True) (resolve settings operand)) :
    Unbreached (fun _ => True) (digested settings operands) := by
  have hbuffer : Unbreached (fun _ => True) (digestedBuffer settings true) :=
    unbreached_digestedBuffer_once fun _ _ => trivial
  have hall : ∀ front, Unbreached (fun _ => True) (digestedAll settings true front operands) :=
    Confines.sequential.digestedAll id settings hresolve Operand.KeepsKind.id hbuffer
  unfold digested
  split
  · next hmem =>
      have hcount : operands.count .buffer = 1 := by
        have := List.count_pos_iff.mpr hmem
        omega
      rw [hcount]
      exact hall []
  · exact hbuffer.andThen hall

/-- A step that does not need the buffer breaches nothing from any machine, if calls do
    not. -/
theorem unbreached_of_not_needsBuffer (hneeds : ¬ s.NeedsBuffer) (hbounded : s.Bounded)
    (hcall : ∀ function values, Unbreached (fun _ => True) (call function values)) :
    Unbreached (fun _ => True) (perform settings call s) := by
  have hresolve : ∀ operand ∈ s.operands, operand ≠ .buffer →
      Unbreached (fun _ => True) (resolve settings operand) := by
    intro operand hmem hne
    refine unbreached_resolve (fun _ _ _ => trivial) hne ?_
    rintro rfl
    exact hbounded hmem
  have hhold : ∀ bytes, Unbreached (fun _ => True) (hold bytes) :=
    fun _ _ _ => ⟨trivial, trivial⟩
  cases s with
  | load slot => exact Confines.get_bind fun seen => hhold _
  | set operand => exact (hresolve operand List.mem_cons_self hneeds).andThen hhold
  | call function operands =>
      refine unbreached_call_step (fun _ _ => trivial) (fun operand hmem => ?_) (hcall function)
      refine hresolve operand hmem ?_
      rintro rfl
      exact hneeds hmem
  | hash operands => exact (unbreached_digested_once hneeds hresolve).andThen fun _ => hhold _
  | _ => exact absurd trivial hneeds

/-- After a step the buffer is held, and so can be had. -/
theorem ready_of_unbreached {kept : Machine → Prop}
    (h : Unbreached kept (perform settings call s)) :
    Ensures kept (perform settings call s) (fun _ after => after.Ready)
      fun fault _ => fault.isBreach = false := by
  intro machine hm
  have hperform := h machine hm
  cases hrun : (perform settings call s).run machine with
  | mk outcome after =>
      rw [hrun] at hperform
      cases outcome with
      | error fault => exact hperform
      | ok _ =>
          obtain ⟨bytes, hheld⟩ := held_of_perform hrun
          exact .of_held hheld

/-! ## First steps that are refused -/

/-- The buffer stands for a source of which something is left, and nothing has been
    stored. -/
structure Fresh (machine : Machine) : Prop where
  buffer : machine.buffer = .pending
  source : machine.source.isExhausted = .ok false
  memory : machine.memory = .empty

/-- The run stops at once, because it would have to hold the source. -/
def Refused (machine : Machine) (run : Run α) : Prop :=
  run.run machine = (.error (.ofBreach .bufferingDisabled), machine)

section Refused

variable {machine : Machine}

theorem Refused.bind {first : Run α} (h : Refused machine first) (next : α → Run β) :
    Refused machine (first >>= next) := by
  rw [Refused, run_bind, h]

theorem Refused.after {first : Run α} {value : α} {next : α → Run β}
    (h : first.run machine = (.ok value, machine)) (hnext : Refused machine (next value)) :
    Refused machine (first >>= next) := by
  rw [Refused, run_bind, h]
  exact hnext

theorem Fresh.run_resolve (h : Fresh machine) {operand : Operand} (hatHand : operand.AtHand)
    (hbuffer : operand ≠ .buffer) :
    (resolve settings operand).run machine = (.ok operand.initially, machine) := by
  cases operand with
  | literal bytes => rfl
  | hex bytes => rfl
  | buffer => exact absurd rfl hbuffer
  | slot index =>
      show (Except.ok (machine.memory.get index), machine) = _
      rw [h.memory]
      rfl
  | argument index => exact hatHand.elim
  | read length => exact hatHand.elim

variable (hforbidden : settings.allowUnboundedReads = false) (h : Fresh machine)

include hforbidden h

theorem refused_bufferBytes : Refused machine (bufferBytes settings) := by
  rw [Refused, run_bufferBytes_guarded h.buffer hforbidden, h.source]

variable {operands : List Operand} (hatHand : ∀ operand ∈ operands, operand.AtHand)

include hatHand

/-- Operands are refused when they come to the buffer. -/
theorem refused_resolveAll (hmem : Operand.buffer ∈ operands) :
    Refused machine (resolveAll settings operands) := by
  induction operands with
  | nil => exact nomatch hmem
  | cons operand rest ih =>
      rw [List.forall_mem_cons] at hatHand
      by_cases hbuffer : operand = .buffer
      · rw [hbuffer]
        exact (refused_bufferBytes hforbidden h).bind _
      · have hrest := List.mem_of_ne_of_mem (Ne.symm hbuffer) hmem
        exact .after (h.run_resolve hatHand.1 hbuffer) ((ih hatHand.2 hrest).bind _)

theorem refused_digestedAll (hmem : Operand.buffer ∈ operands) (front : Bytes) :
    Refused machine (digestedAll settings false front operands) := by
  induction operands generalizing front with
  | nil => exact nomatch hmem
  | cons operand rest ih =>
      rw [List.forall_mem_cons] at hatHand
      by_cases hbuffer : operand = .buffer
      · have hdigested : Refused machine (digestedBuffer settings false) := by
          have hsame : (digestedBuffer settings false).run machine =
              (bufferBytes settings).run machine := run_digestedBuffer_eq_bufferBytes nofun
          exact hsame.trans (refused_bufferBytes hforbidden h)
        rw [hbuffer]
        exact hdigested.bind _
      · have hrest := List.mem_of_ne_of_mem (Ne.symm hbuffer) hmem
        rw [digestedAll_cons_of_ne settings false front hbuffer]
        exact .after (h.run_resolve hatHand.1 hbuffer) (ih hatHand.2 hrest _)

/-- Joining is refused when it comes to the buffer, unless the operands before it are
    beyond the limit. -/
theorem appendAll_of_fresh (hmem : Operand.buffer ∈ operands) (joined : Bytes)
    (hfits : joined.length ≤ settings.maxBufferLength) :
    ((joined ++ Operand.leading operands).length ≤ settings.maxBufferLength →
      Refused machine (appendAll settings joined operands)) ∧
    (settings.maxBufferLength < (joined ++ Operand.leading operands).length →
      ∃ length, (appendAll settings joined operands).run machine =
        (.error (.bufferLimit settings.maxBufferLength length), machine)) := by
  induction operands generalizing joined with
  | nil => exact nomatch hmem
  | cons operand rest ih =>
      rw [List.forall_mem_cons] at hatHand
      by_cases hbuffer : operand = .buffer
      · rw [hbuffer, Operand.leading_cons_buffer, List.append_nil]
        refine ⟨fun _ => (refused_bufferBytes hforbidden h).bind _, fun hlong => ?_⟩
        exact absurd hfits (Nat.not_le.mpr hlong)
      · have hrest := List.mem_of_ne_of_mem (Ne.symm hbuffer) hmem
        have hrun : (appendAll settings joined (operand :: rest)).run machine =
            (checkLength settings (joined.length + operand.initially.length) >>= fun _ =>
              appendAll settings (joined ++ operand.initially) rest).run machine := by
          rw [appendAll, run_bind, h.run_resolve hatHand.1 hbuffer]
        rw [Operand.leading_cons_of_ne hbuffer, ← List.append_assoc, Refused, hrun, checkLength,
          ← List.length_append]
        by_cases hover : settings.maxBufferLength < (joined ++ operand.initially).length
        · rw [if_pos hover]
          refine ⟨fun hshort => ?_, fun _ => ⟨_, rfl⟩⟩
          rw [List.length_append] at hshort
          omega
        · rw [if_neg hover, pure_bind]
          exact ih hatHand.2 hrest _ (Nat.le_of_not_lt hover)

end Refused

section Step

variable {machine : Machine} (hforbidden : settings.allowUnboundedReads = false)
  (h : Fresh machine) (hatHand : ∀ operand ∈ s.operands, operand.AtHand)

include hforbidden h hatHand

/-- A step that holds the source is refused, unless it comes to the buffer too late. -/
theorem refused_of_holdsSource (hneeds : s.NeedsBuffer) (hfits : ¬ s.Overfills settings) :
    Refused machine (perform settings call s) := by
  have hbytes := refused_bufferBytes hforbidden h
  cases s with
  | concat operands =>
      refine Refused.bind ?_ _
      rw [join_eq]
      by_cases hmem : Operand.buffer ∈ operands
      · rw [if_pos hmem, pure_bind]
        refine (appendAll_of_fresh hforbidden h hatHand hmem [] (Nat.zero_le _)).1 ?_
        exact Nat.le_of_not_lt fun hlong => hfits ⟨hmem, hlong⟩
      · rw [if_neg hmem]
        exact hbytes.bind _
  | hash operands =>
      refine Refused.bind ?_ _
      have htwice : 2 ≤ operands.count .buffer := hneeds
      have hmem : Operand.buffer ∈ operands := List.count_pos_iff.mp (by omega)
      have honce : (operands.count .buffer == 1) = false := beq_false_of_ne (by omega)
      rw [digested, if_pos hmem, honce]
      exact refused_digestedAll hforbidden h hatHand hmem []
  | reverse => exact hbytes.bind _
  | store slot => exact hbytes.bind _
  | load slot => exact hneeds.elim
  | set operand =>
      obtain rfl : operand = .buffer := hneeds
      exact hbytes.bind _
  | swap slot => exact (hbytes.bind _).bind _
  | compose template =>
      by_cases hbuffer : template = .buffer
      · rw [hbuffer]
        exact hbytes.bind _
      · exact .after (h.run_resolve (hatHand template List.mem_cons_self) hbuffer) (hbytes.bind _)
  | call function operands => exact (refused_resolveAll hforbidden h hatHand hneeds).bind _

/-- A concatenation that comes to the buffer too late exceeds the limit before. -/
theorem run_of_overfills (hlong : s.Overfills settings) :
    ∃ length, (perform settings call s).run machine =
      (.error (.bufferLimit settings.maxBufferLength length), machine) := by
  cases s with
  | concat operands =>
      obtain ⟨hmem, hlong⟩ := hlong
      obtain ⟨length, (hrun : (appendAll settings [] operands).run machine = _)⟩ :=
        (appendAll_of_fresh hforbidden h hatHand hmem [] (Nat.zero_le _)).2 hlong
      refine ⟨length, ?_⟩
      rw [perform, join_eq, if_pos hmem, pure_bind, run_bind, hrun]
  | _ => exact hlong.elim

end Step

/-! ## A frame from its first step on -/

section Frame

variable {program : Program} {machine : Machine} {rest : List Instruction} {callers : Nat}
  (hsteps : settings.maxSteps = none)

include hsteps

/-- A frame that begins with a step performs it, checks the buffer and goes on. -/
theorem run_frame_step :
    (frame settings program callers (.step s :: rest)).run machine =
      (perform settings (callBelow settings program callers) s >>= fun _ =>
        checkBuffer settings >>= fun _ => frame settings program callers rest).run
          (begun s machine) := by
  have hframe : frame settings program callers (.step s :: rest) =
      single settings (callBelow settings program callers) (.step s) >>= fun _ =>
        frame settings program callers rest := by
    rw [frame, block_cons, bind_assoc]
    rfl
  rw [hframe, run_bind, run_single_step hsteps, ← run_bind, bind_assoc]

/-- It fails as the step does. -/
theorem run_frame_step_of_error {fault : Fault} {after : Machine}
    (h : (perform settings (callBelow settings program callers) s).run (begun s machine) =
      (.error fault, after)) :
    (frame settings program callers (.step s :: rest)).run machine = (.error fault, after) := by
  rw [run_frame_step hsteps, run_bind, h]

/-- It breaches nothing if the step does not. -/
theorem unbreached_of_frame_step (hforbidden : settings.allowUnboundedReads = false)
    (hbounded : Instruction.EveryStep Step.Bounded program.instructions)
    (hrest : ∀ t, .step t ∈ rest → t.Bounded) {kept : Machine → Prop}
    (hperform : Unbreached kept (perform settings (callBelow settings program callers) s))
    (hbegun : kept (begun s machine)) {fault : Fault}
    (h : ((frame settings program callers (.step s :: rest)).run machine).1 = .error fault) :
    fault.isBreach = false := by
  have hgoesOn : Unbreached Machine.Ready
      (checkBuffer settings >>= fun _ => frame settings program callers rest) :=
    (framesRelate_ready hforbidden).checkBuffer.andThen fun _ =>
      unbreached_frame hforbidden hbounded hrest callers
  rw [run_frame_step hsteps] at h
  exact (Ensures.bind (ready_of_unbreached hperform) fun _ => hgoesOn).failed_of_error hbegun h

end Frame

/-! ## Whole runs -/

/-- At the first step of a program, and at its end if there is none, nothing but the number
    of steps has changed. -/
theorem fresh_start {source : Source} (hleft : source.remaining ≠ []) (steps : Nat) :
    Fresh { Machine.start source with steps := steps } where
  buffer := rfl
  memory := rfl
  source := by
    show source.isExhausted = .ok false
    obtain ⟨remaining, failure, consumed⟩ := source
    cases remaining with
    | nil => exact absurd rfl hleft
    | cons byte bytes => rfl

section Whole

variable {program : Program} {source : Source}
  (hforbidden : settings.allowUnboundedReads = false) (hsteps : settings.maxSteps = none)
  (hsource : source.failure = none)

include hforbidden hsteps

include hsource in
/-- A program without a step is refused exactly if something is left of the source. -/
theorem isBreach_iff_of_definitions
    (hdefinitions : ∀ i ∈ program.instructions, i.isDefinition = true) :
    (∃ path breach, program.run settings source = .error (.streamPolicy path breach)) ↔
      source.remaining ≠ [] := by
  have hend : Reached settings program source
      ⟨{ Machine.start source with steps := program.instructions.length }, [], []⟩ :=
    .of_definitions (List.append_nil _).symm hdefinitions fun _ hlimit =>
      nomatch hsteps.symm.trans hlimit
  have hrun : program.run settings source = ((takeBuffer settings).run
      { Machine.start source with steps := program.instructions.length }).1 := by
    rw [Program.run, hend.execute_eq]
    rfl
  rw [hrun]
  constructor
  · rintro ⟨path, breach, hbreach⟩ hspent
    have hready : Machine.Ready
        { Machine.start source with steps := program.instructions.length } :=
      fun _ => ⟨hspent, hsource⟩
    exact Bool.noConfusion
      ((framesRelate_ready hforbidden).takeBuffer.failed_of_error hready hbreach)
  · intro hleft
    have hrefused : Refused _ (takeBuffer settings) :=
      (refused_bufferBytes hforbidden (fresh_start hleft program.instructions.length)).bind _
    exact ⟨[], .bufferingDisabled, congrArg Prod.fst hrefused⟩

section First

variable {before rest : List Instruction}
  (hprogram : program.instructions = before ++ .step s :: rest)
  (hdefinitions : ∀ i ∈ before, i.isDefinition = true)

include hprogram hdefinitions

omit hforbidden in
/-- A run does what the frame at top level does from its first step on. -/
theorem run_of_first_step :
    program.run settings source = ((frame settings program 0 (.step s :: rest)).run
      { Machine.start source with steps := before.length }).1 := by
  have hfirst : Reached settings program source
      ⟨{ Machine.start source with steps := before.length }, .step s :: rest, []⟩ :=
    .of_definitions hprogram hdefinitions fun _ hlimit => nomatch hsteps.symm.trans hlimit
  rw [Program.run, hfirst.execute_eq]
  rfl

/-- Nothing is breached if nothing is left of the source, or the first step does not hold
    it. -/
theorem unbreached_of_first_step (hsource : source.failure = none)
    (hbounded : Instruction.EveryStep Step.Bounded program.instructions)
    (hnot : ¬ (source.remaining ≠ [] ∧ s.HoldsSource)) {fault : Fault}
    (h : program.run settings source = .error fault) : fault.isBreach = false := by
  obtain ⟨hown, -⟩ := Instruction.everyStep_iff.mp hbounded
  rw [hprogram] at hown
  have hfirst : s.Bounded := hown s (List.mem_append_right _ List.mem_cons_self)
  have hrest : ∀ t, .step t ∈ rest → t.Bounded := fun t ht =>
    hown t (List.mem_append_right _ (List.mem_cons_of_mem _ ht))
  have hcall := unbreached_callBelow hforbidden hbounded 0
  rw [run_of_first_step hsteps hprogram hdefinitions] at h
  by_cases hneeds : s.NeedsBuffer
  · -- the buffer can be had, because it stands for nothing or the step reads the source
    have hready : (begun s { Machine.start source with steps := before.length }).Ready := by
      by_cases hreads : s.operands.any Operand.readsSource = true
      · rw [begun, if_pos ⟨rfl, hreads⟩]
        exact .of_held rfl
      · rw [Bool.not_eq_true] at hreads
        rw [begun_of_not_reads hreads]
        intro _
        refine ⟨?_, hsource⟩
        by_contra hleft
        exact hnot ⟨hleft, hneeds, hreads⟩
    refine unbreached_of_frame_step hsteps hforbidden hbounded hrest ?_ hready h
    exact unbreached_perform hforbidden hfirst fun function _ _ => hcall function
  · exact unbreached_of_frame_step hsteps hforbidden hbounded hrest
      (unbreached_of_not_needsBuffer hneeds hfirst hcall) trivial h

variable (hleft : source.remaining ≠ []) (hholds : s.HoldsSource)

include hleft hholds

omit hforbidden hsteps hdefinitions in
/-- The operands of a first step that holds the source are at hand, and nothing has been
    stored when it begins. -/
theorem fresh_of_first_step :
    Fresh (begun s { Machine.start source with steps := before.length }) ∧
      ∀ operand ∈ s.operands, operand.AtHand := by
  constructor
  · rw [begun_of_not_reads hholds.reads]
    exact fresh_start hleft _
  · intro operand hmem
    have hs : .step s ∈ program.instructions := by
      rw [hprogram]
      exact List.mem_append_right _ List.mem_cons_self
    refine ((program.inScope.1 s hs).operands operand hmem).atHand ?_
    exact Bool.not_eq_true _ ▸ List.any_eq_false.mp hholds.reads operand hmem

/-- A program whose first step holds the source is refused, unless the step comes to the
    buffer too late. -/
theorem run_refused (hfits : ¬ s.Overfills settings) :
    program.run settings source = .error (.ofBreach .bufferingDisabled) := by
  obtain ⟨hfresh, hatHand⟩ := fresh_of_first_step hprogram hleft hholds
  rw [run_of_first_step hsteps hprogram hdefinitions]
  exact congrArg Prod.fst (run_frame_step_of_error hsteps
    (refused_of_holdsSource hforbidden hfresh hatHand hholds.needs hfits))

theorem run_overfilled (hlong : s.Overfills settings) :
    ∃ length, program.run settings source =
      .error (.bufferLimit settings.maxBufferLength length) := by
  obtain ⟨hfresh, hatHand⟩ := fresh_of_first_step hprogram hleft hholds
  obtain ⟨length, hperform⟩ := run_of_overfills hforbidden hfresh hatHand hlong
  refine ⟨length, ?_⟩
  rw [run_of_first_step hsteps hprogram hdefinitions]
  exact congrArg Prod.fst (run_frame_step_of_error hsteps hperform)

end First

end Whole

end Run

open Instruction (ownSteps EveryStep)

namespace Program

/-- **Which runs are refused for buffering.**  Without unbounded reads, without a limit on
    steps, over a source that does not fail, and where no step asks for the rest of it, a
    run breaches the stream policy exactly if something is left of the source and the first
    step of the program, if there is one, holds the source.  A first step that would hold
    the source, but joins too much before, exceeds the limit for buffers instead. -/
theorem run_breach_iff (program : Program) (settings : Settings) (source : Source)
    (hforbidden : settings.allowUnboundedReads = false) (hsteps : settings.maxSteps = none)
    (hsource : source.failure = none)
    (hbounded : EveryStep (fun s => Operand.read .rest ∉ s.operands) program.instructions) :
    ((∃ path breach, program.run settings source = .error (.streamPolicy path breach)) ↔
      source.remaining ≠ [] ∧ ∀ s ∈ (ownSteps program.instructions).head?,
        s.HoldsSource ∧ ¬ s.Overfills settings) ∧
    (source.remaining ≠ [] → ∀ s ∈ (ownSteps program.instructions).head?,
      s.HoldsSource → s.Overfills settings →
        ∃ length, program.run settings source =
          .error (.bufferLimit settings.maxBufferLength length)) := by
  rcases Instruction.split_at_first_step program.instructions with
    ⟨hnone, hdefinitions⟩ | ⟨before, s, rest, hprogram, hdefinitions, hsome⟩
  · rw [hnone, Run.isBreach_iff_of_definitions hforbidden hsteps hsource hdefinitions]
    exact ⟨⟨fun hleft => ⟨hleft, nofun⟩, fun h => h.1⟩, fun _ => nofun⟩
  · rw [hsome]
    have hover : source.remaining ≠ [] → s.HoldsSource → s.Overfills settings →
        ∃ length, program.run settings source =
          .error (.bufferLimit settings.maxBufferLength length) :=
      Run.run_overfilled hforbidden hsteps hprogram hdefinitions
    refine ⟨⟨?_, ?_⟩, ?_⟩
    · rintro ⟨path, breach, hbreach⟩
      have hfirst : source.remaining ≠ [] ∧ s.HoldsSource := by
        by_contra hnot
        exact Bool.noConfusion (Run.unbreached_of_first_step hforbidden hsteps hprogram
          hdefinitions hsource hbounded hnot hbreach)
      obtain ⟨hleft, hholds⟩ := hfirst
      refine ⟨hleft, ?_⟩
      rintro _ ⟨⟩
      refine ⟨hholds, fun hlong => ?_⟩
      obtain ⟨length, hrun⟩ := hover hleft hholds hlong
      exact nomatch hrun.symm.trans hbreach
    · rintro ⟨hleft, hfirst⟩
      obtain ⟨hholds, hfits⟩ := hfirst s rfl
      exact ⟨[], .bufferingDisabled, Run.run_refused hforbidden hsteps hprogram hdefinitions
        hleft hholds hfits⟩
    · rintro hleft _ ⟨⟩ hholds hlong
      exact hover hleft hholds hlong

/-- A block that joins three bytes and the buffer, after a definition. -/
def prefixingBlock : List Instruction :=
  [.define "keep" [.step (.store 0)], .step (.concat [.hex [1, 2, 3], .buffer])]

/-- The program of that block. -/
def prefixing : Program where
  instructions := prefixingBlock
  functions := ⟨Instruction.definitions prefixingBlock⟩
  valid := by rfl

/-- Over one byte `prefixing` is refused, except under a limit of two bytes, where it comes
    to the buffer too late. -/
theorem run_breach_iff_prefixing :
    (∃ path breach, prefixing.run {} (.ofBytes [97] none) = .error (.streamPolicy path breach)) ∧
      (¬ ∃ path breach, prefixing.run {} (.ofBytes [] none) = .error (.streamPolicy path breach)) ∧
      ∃ length, prefixing.run { maxBufferLength := 2 } (.ofBytes [97] none) =
        .error (.bufferLimit 2 length) := by
  have hbounded : EveryStep (fun s => Operand.read .rest ∉ s.operands) prefixing.instructions := by
    simp [prefixing, prefixingBlock, Step.operands]
  have hfirst : (ownSteps prefixing.instructions).head? =
      some (.concat [.hex [1, 2, 3], .buffer]) := rfl
  have hholds : (Step.concat [.hex [1, 2, 3], .buffer]).HoldsSource := ⟨trivial, rfl⟩
  refine ⟨?_, ?_, ?_⟩
  · refine (run_breach_iff prefixing {} (.ofBytes [97] none) rfl rfl rfl hbounded).1.mpr
      ⟨List.cons_ne_nil _ _, ?_⟩
    rw [hfirst]
    rintro _ ⟨⟩
    exact ⟨hholds, fun hlong => absurd hlong.2 (by decide)⟩
  · rw [(run_breach_iff prefixing {} (.ofBytes [] none) rfl rfl rfl hbounded).1]
    exact fun hleft => hleft.1 rfl
  · exact (run_breach_iff prefixing { maxBufferLength := 2 } (.ofBytes [97] none) rfl rfl rfl
      hbounded).2 (List.cons_ne_nil _ _) _ hfirst hholds ⟨by decide, by decide⟩

end Program

end Attest
