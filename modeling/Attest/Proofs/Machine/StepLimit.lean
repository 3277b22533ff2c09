import Attest.Proofs.Machine.Counting

/-! # The step limit

    All frames share one number of steps, which is compared with the limit before every
    instruction.  So a run under a limit does what the run without it does, until it
    would start one instruction too many (`Cut`).  This goes through sequences, because
    the number of steps never falls, and through calls, because no frame catches the
    fault.  A limit therefore cuts a run exactly where the number of instructions that it
    starts is beyond the limit (`Program.execute_stepLimit`). -/

namespace Attest

namespace Run

variable {α β : Type} {limit : Nat}

/-- Where the run without a limit stays within the limit, the limited run is the same; where
    it goes beyond, the limited run ends in the fault of the limit. -/
structure Cut (limit : Nat) (limited free : Run α) : Prop where
  le : ∀ machine, machine.steps ≤ (free.run machine).2.steps
  within : ∀ machine, (free.run machine).2.steps ≤ limit → limited.run machine = free.run machine
  beyond : ∀ machine, machine.steps ≤ limit → limit < (free.run machine).2.steps →
    (limited.run machine).1 = .error (.stepLimit limit)

namespace Cut

/-- A run that starts nothing is never cut. -/
theorem of_still {run : Run α} (h : Still run) : Cut limit run run where
  le := fun machine => Nat.le_of_eq (h.counts machine).symm
  within := fun _ _ => rfl
  beyond := fun machine hle hlt => by
    have hsteps : (run.run machine).2.steps = machine.steps := h.counts machine
    omega

/-- A sequence is cut in the part that goes beyond the limit. -/
theorem bind {limited free : Run α} {next next' : α → Run β} (h : Cut limit limited free)
    (hnext : ∀ value, Cut limit (next value) (next' value)) :
    Cut limit (limited >>= next) (free >>= next') where
  le := by
    intro machine
    have hfirst := h.le machine
    rw [run_bind]
    cases hfree : free.run machine with
    | mk outcome after =>
        rw [hfree] at hfirst
        cases outcome with
        | error fault => exact hfirst
        | ok value => exact Nat.le_trans hfirst ((hnext value).le after)
  within := by
    intro machine
    have hfirst := h.within machine
    rw [run_bind, run_bind]
    cases hfree : free.run machine with
    | mk outcome after =>
        rw [hfree] at hfirst
        cases outcome with
        | error fault =>
            intro hle
            rw [hfirst hle]
        | ok value =>
            intro hle
            -- what comes later is within the limit, so the first part is
            rw [hfirst (Nat.le_trans ((hnext value).le after) hle)]
            exact (hnext value).within after hle
  beyond := by
    intro machine hstart
    have hwithin := h.within machine
    have hbeyond := h.beyond machine hstart
    rw [run_bind, run_bind]
    cases hfree : free.run machine with
    | mk outcome after =>
        rw [hfree] at hwithin hbeyond
        intro hlt
        by_cases hmiddle : after.steps ≤ limit
        · rw [hwithin hmiddle]
          cases outcome with
          | error fault => exact absurd hmiddle (Nat.not_le.mpr hlt)
          | ok value => exact (hnext value).beyond after hmiddle hlt
        · have hfault := hbeyond (Nat.lt_of_not_le hmiddle)
          cases hlimited : limited.run machine with
          | mk outcome' after' =>
              rw [hlimited] at hfault
              cases hfault
              rfl

/-- A function does not catch the fault, and counts on for its caller. -/
theorem inside {body body' : Run Bytes} (h : Cut limit body body') (function : String)
    (values : List Bytes) :
    Cut limit (inside function values body) (inside function values body') where
  le := fun machine => h.le (enter values machine)
  within := by
    intro machine hle
    rw [run_inside, run_inside, h.within (enter values machine) hle]
  beyond := by
    intro machine hstart hlt
    rw [run_inside, h.beyond (enter values machine) hstart hlt]
    rfl

end Cut

/-- Counting is where a run is cut. -/
theorem cut_tick (settings : Settings) (limit : Nat) :
    Cut limit (tick { settings with maxSteps := some limit })
      (tick { settings with maxSteps := none }) where
  le := by
    intro machine
    rw [run_tick]
    exact Nat.le_succ _
  within := by
    intro machine hle
    rw [run_tick] at hle
    rw [run_tick, run_tick]
    dsimp only
    rw [if_neg (Nat.not_lt.mpr hle)]
  beyond := by
    intro machine _ hlt
    rw [run_tick] at hlt
    rw [run_tick]
    exact if_pos hlt

/-- Runs under a limit are cut from the runs without it. -/
theorem callsRelate_cut (settings : Settings) (limit : Nat) :
    CallsRelate { settings with maxSteps := some limit } { settings with maxSteps := none }
      fun _ => Cut limit :=
  have hsteps := stepsRelate_steps settings
  have hreads : ReadsRelate fun _ => Cut limit :=
    { pure := fun value => .of_still fun _ => Keeps.pure value
      throw := fun fault => .of_still fun _ => Keeps.throw fault
      bind := Cut.bind
      seenBuffer := .of_still fun steps => (hsteps steps).seenBuffer
      seenMemory := .of_still fun steps => (hsteps steps).seenMemory
      hold := fun bytes => .of_still fun steps => (hsteps steps).hold bytes
      rest := .of_still (still_fromSource _)
      exhausted := .of_still (still_fromSource _)
      bounded := fun _ => .of_still (still_fromSource _) }
  { hreads.operandsRelate rfl rfl with
    throw := hreads.throw
    order := rfl
    hold := hreads.hold
    remember := fun memory => .of_still fun steps => (hsteps steps).remember memory
    tick := cut_tick settings limit
    depth := rfl
    inside := fun function values _ _ h => h.inside function values }

/-- A whole run is cut. -/
theorem cut_toEnd (settings : Settings) (limit : Nat) (program : Program) :
    Cut limit
      (toEnd { settings with maxSteps := some limit } program.functions program.instructions)
      (toEnd { settings with maxSteps := none } program.functions program.instructions) :=
  (callsRelate_cut settings limit).toEnd
    (fun _ => .of_still fun _ => Keeps.argument _) program.functions program.instructions

end Run

namespace Program

/-- **THE STEP LIMIT IS AN EXACT CUT**: under a limit a run is the run without it, to the
    machine at its end, if that starts no more instructions than the limit; and it ends in
    the fault of the limit if that starts more. -/
theorem execute_stepLimit (settings : Settings) (program : Program) (source : Source)
    (limit : Nat) :
    (program.started { settings with maxSteps := none } source ≤ limit →
      program.execute { settings with maxSteps := some limit } source =
        program.execute { settings with maxSteps := none } source) ∧
    (limit < program.started { settings with maxSteps := none } source →
      program.run { settings with maxSteps := some limit } source =
        .error (.stepLimit limit)) := by
  have hcut := Run.cut_toEnd settings limit program
  rw [← Run.steps_execute]
  exact ⟨hcut.within _, hcut.beyond _ (Nat.zero_le limit)⟩

/-- Seven instructions are started: two at top level, three in the function that is called
    there, and two in the function that it calls. -/
theorem execute_stepLimit_mirroring :
    mirroring.started {} (.ofBytes [97, 98] none) = 7 ∧
      mirroring.run { maxSteps := some 7 } (.ofBytes [97, 98] none) =
        .ok [97, 98, 98, 97] ∧
      mirroring.run { maxSteps := some 6 } (.ofBytes [97, 98] none) = .error (.stepLimit 6) := by
  have hstarted : mirroring.started {} (.ofBytes [97, 98] none) = 7 := rfl
  have hwithin := (execute_stepLimit {} mirroring (.ofBytes [97, 98] none) 7).1 (by decide)
  have hbeyond := (execute_stepLimit {} mirroring (.ofBytes [97, 98] none) 6).2 (by decide)
  exact ⟨hstarted, congrArg Prod.fst hwithin, hbeyond⟩

end Program

end Attest
