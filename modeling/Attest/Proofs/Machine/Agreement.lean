import Attest.Proofs.Machine.Tracking

/-! # Machines that agree

    What a frame does is settled by the buffer, the memory, the source and the arguments.
    The numbers of calls and of steps do not show, as long as there is no limit on steps,
    and therefore definitions do not show either: a frame passes them and changes nothing
    but the number of steps, and the buffer that is checked there has been checked before.

    So frames whose machines agree (`Machine.Agree`) track each other when their blocks
    have the same steps, whatever definitions stand between them, or steps whose operands
    have been exchanged (`SameSteps`, `tallies_of_sameSteps`). -/

namespace Attest

namespace Instruction

/-- The steps in a block itself, those of nested bodies left out. -/
def ownSteps : List Instruction → List Step
  | [] => []
  | step s :: rest => s :: ownSteps rest
  | define _ _ :: rest => ownSteps rest

/-- The blocks have the same steps, up to a change of operands, with any definitions
    between them. -/
inductive SameSteps (f : Operand → Operand) : List Instruction → List Instruction → Prop
  | nil : SameSteps f [] []
  | step {s : Step} {rest rest' : List Instruction} : SameSteps f rest rest' →
      SameSteps f (step s :: rest) (step (s.mapOperands f) :: rest')
  | left {name : String} {body rest rest' : List Instruction} : SameSteps f rest rest' →
      SameSteps f (define name body :: rest) rest'
  | right {name : String} {body rest rest' : List Instruction} : SameSteps f rest rest' →
      SameSteps f rest (define name body :: rest')

/-- Blocks have the same steps if their own steps are the same. -/
theorem sameSteps_of_ownSteps {f : Operand → Operand} {block block' : List Instruction}
    (h : ownSteps block' = (ownSteps block).map (Step.mapOperands f)) :
    SameSteps f block block' := by
  induction block generalizing block' with
  | nil =>
      -- nothing but definitions is left on the other side
      induction block' with
      | nil => exact .nil
      | cons first' rest' ih =>
          cases first' with
          | step s' => exact nomatch h
          | define name body => exact .right (ih h)
  | cons first rest ih =>
      cases first with
      | define name body => exact .left (ih h)
      | step s =>
          induction block' with
          | nil => exact nomatch h
          | cons first' rest' ih' =>
              cases first' with
              | define name body => exact .right (ih' h)
              | step s' =>
                  obtain ⟨rfl, hrest⟩ := List.cons.inj h
                  exact .step (ih hrest)

end Instruction

/-- Machines that agree in what a frame works on, with their arguments related.  They
    may differ in the numbers of calls and of steps. -/
structure Machine.Agree (arguments : Option (List Bytes) → Option (List Bytes) → Prop)
    (m n : Machine) : Prop where
  buffer : m.buffer = n.buffer
  memory : m.memory = n.memory
  source : m.source = n.source
  arguments : arguments m.arguments n.arguments

namespace Run

open Instruction (SameSteps)

variable {settings : Settings} {excused : Fault → Prop}
  {arguments : Option (List Bytes) → Option (List Bytes) → Prop}

theorem shares_agree : Shares (Machine.Agree arguments) where
  buffer := fun h => h.buffer
  memory := fun h => h.memory
  hold := fun _ h => { h with buffer := rfl }
  store := fun _ h => { h with memory := rfl }

theorem tracks_fromSource_agree {α : Type} (read : Source → Except String α × Source) :
    Tracks (Machine.Agree arguments) excused (fromSource read) (fromSource read) := by
  intro m n hmn
  rw [run_fromSource, run_fromSource, hmn.source]
  exact Or.inr ⟨rfl, { hmn with source := rfl }⟩

/-- Without a limit on steps, counting them does not show. -/
theorem run_tick_unlimited (hsteps : settings.maxSteps = none) (machine : Machine) :
    (tick settings).run machine = (.ok (), { machine with steps := machine.steps + 1 }) :=
  run_tick_eq_ok.mpr ⟨rfl, fun _ hlimit => nomatch hsteps.symm.trans hlimit⟩

/-- Without a limit on steps a step takes effect and the buffer is checked. -/
theorem run_single_step (hsteps : settings.maxSteps = none)
    {call : String → List Bytes → Run Bytes} (s : Step) (machine : Machine) :
    (single settings call (.step s)).run machine =
      (perform settings call s >>= fun _ => checkBuffer settings).run (begun s machine) := by
  rw [single, run_bind, run_tick_unlimited hsteps]
  show (instruction settings call (.step s) >>= _ : Run Unit).run _ = _
  rw [instruction, bind_assoc, run_bind, run_discardPending_counted]

/-- A block of one step ends as the step does. -/
theorem run_block_singleton (hsteps : settings.maxSteps = none)
    {call : String → List Bytes → Run Bytes} (s : Step) (machine : Machine) :
    (block settings call [.step s]).run machine =
      (perform settings call s >>= fun _ => checkBuffer settings).run (begun s machine) := by
  rw [block_singleton, run_single_step hsteps]

theorem parallel_agree (hsteps : settings.maxSteps = none) :
    Parallel settings settings (Machine.Agree arguments) excused := by
  refine parallel_of_reads shares_agree (tracks_fromSource_agree _) (tracks_fromSource_agree _)
    (fun count => tracks_fromSource_agree _) ?_
  intro m n hmn
  rw [run_tick_unlimited hsteps, run_tick_unlimited hsteps]
  exact Or.inr ⟨rfl, hmn.buffer, hmn.memory, hmn.source, hmn.arguments⟩

/-- A call gives its frame the arguments, and the caller's are back afterwards. -/
theorem nests_agree : Nests (Machine.Agree arguments) (Machine.Agree Eq) where
  enter := fun _ h => ⟨rfl, h.memory, h.source, rfl⟩
  resume := fun h hcallee => ⟨h.buffer, hcallee.memory, hcallee.source, h.arguments⟩

/-! ## Definitions do not show -/

/-- A definition is passed, and changes nothing but the number of steps. -/
theorem run_block_define (hsteps : settings.maxSteps = none)
    {call : String → List Bytes → Run Bytes} {name : String} {body rest : List Instruction}
    {machine : Machine} (hfits : BufferFits settings machine) :
    (block settings call (.define name body :: rest)).run machine =
      (block settings call rest).run { machine with steps := machine.steps + 1 } := by
  have hstart : MayStart settings machine := fun _ hlimit => nomatch hsteps.symm.trans hlimit
  have hdefine : (single settings call (.define name body)).run machine =
      (.ok (), { machine with steps := machine.steps + 1 }) :=
    run_single_define_eq_ok.mpr ⟨hstart, rfl, hfits⟩
  rw [block_cons, run_bind, hdefine]

/-- Blocks with the same steps tally on machines that agree, if each operand tracks what
    it is exchanged for. -/
theorem tallies_of_sameSteps (hsteps : settings.maxSteps = none) {f : Operand → Operand}
    (hf : Operand.KeepsKind f) {call call' : String → List Bytes → Run Bytes}
    (hcall : ∀ function values, Tracks (Machine.Agree arguments) excused (call function values)
      (call' function values))
    {instructions instructions' : List Instruction}
    (h : SameSteps f instructions instructions')
    (hoperands : ∀ s, .step s ∈ instructions → ∀ operand ∈ s.operands,
      Tracks (Machine.Agree arguments) excused (resolve settings operand)
        (resolve settings (f operand))) :
    ∀ {m n}, Machine.Agree arguments m n → BufferFits settings m →
      Tallies (Machine.Agree arguments) excused ((block settings call instructions).run m)
        ((block settings call' instructions').run n) := by
  induction h with
  | nil => exact fun hmn _ => Or.inr ⟨rfl, hmn⟩
  | @step s rest rest' _ ih =>
      intro m n hmn _
      have hparallel : Parallel settings settings (Machine.Agree arguments) excused :=
        parallel_agree hsteps
      have hrelates := hparallel.relates
      have hs : StepRelates settings settings
          (fun _ => Tracks (Machine.Agree arguments) excused) f call call' s :=
        hrelates.stepRelates call' (hoperands s List.mem_cons_self) fun function _ _ =>
          hcall function
      have hsingle := hrelates.single call' hf (hrelates.perform call' hf hs)
      rw [block_cons, block_cons]
      refine (hsingle m n hmn).bind fun _ after after' hrun hafter => ?_
      exact ih (fun s hs => hoperands s (List.mem_cons_of_mem _ hs)) hafter (fits_of_single hrun)
  | left _ ih =>
      intro m n hmn hfits
      rw [run_block_define hsteps hfits]
      exact ih (fun s hs => hoperands s (List.mem_cons_of_mem _ hs))
        ⟨hmn.buffer, hmn.memory, hmn.source, hmn.arguments⟩ hfits
  | right _ ih =>
      intro m n hmn hfits
      have hfits' : BufferFits settings n := by
        intro bytes hbytes
        exact hfits bytes (hmn.buffer.trans hbytes)
      rw [run_block_define hsteps hfits']
      exact ih hoperands ⟨hmn.buffer, hmn.memory, hmn.source, hmn.arguments⟩ hfits

end Run

end Attest
