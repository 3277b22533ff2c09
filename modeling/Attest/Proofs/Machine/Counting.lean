import Mathlib.Algebra.Ring.GeomSum
import Mathlib.Data.List.MinMax
import Attest.Proofs.Machine.Depth

/-! # How many instructions a run starts

    An instruction is started when its frame comes to it, whether it then succeeds or
    not, and whether it may start or is one too many.  Counting those of a block and of
    the bodies that are run for its calls (`startedBy`, `startedByCall`) looks at nothing
    but which runs succeed; the number of steps that the machine ends with is the same
    (`steps_execute`).

    However the functions call each other, a call starts no more instructions than a tree
    can have whose branching is the length of the longest body and whose height is the
    number of calls that may nest (`startedByCall_le`).  So every run ends, within a bound
    that is known before it starts (`Program.execute_bounded`). -/

namespace Attest

/-- The length of the longest body in the table. -/
def Definitions.longestBody (known : Definitions) : Nat :=
  (known.entries.map fun entry => entry.2.length).foldr max 0

namespace Run

/-! ## What is started -/

/-- A number that depends on how a run has succeeded; none if it has failed. -/
def ifSucceeded {α : Type} (result : Except Fault α × Machine) (count : α → Machine → Nat) : Nat :=
  match result with
  | (.ok value, after) => count value after
  | (.error _, _) => 0

/-- How many instructions are started inside an instruction: those of the function that
    it calls, once its arguments are there.  What calls start is a parameter. -/
def startedInside (settings : Settings) (inCall : String → List Bytes → Machine → Nat) :
    Instruction → Machine → Nat
  | .step (.call function operands), machine =>
      ifSucceeded ((prepare settings function operands).run machine) (inCall function)
  | _, _ => 0

/-- How many instructions a block starts: each that the frame comes to, those inside it,
    and those after it if it succeeds. -/
def startedBy (settings : Settings) (call : String → List Bytes → Run Bytes)
    (inCall : String → List Bytes → Machine → Nat) : List Instruction → Machine → Nat
  | [], _ => 0
  | first :: rest, machine =>
      1 + startedInside settings inCall first machine +
        ifSucceeded ((single settings call first).run machine) fun _ =>
          startedBy settings call inCall rest

/-- How many instructions a call starts while so many more calls may nest: those of the
    body, if there is one and it is entered. -/
def startedByCall (settings : Settings) (known : Definitions) :
    Nat → String → List Bytes → Machine → Nat
  | 0, _, _, _ => 0
  | room + 1, function, values, caller =>
      match known.body? function with
      | none => 0
      | some body =>
          startedBy settings (call settings known room) (startedByCall settings known room) body
            (enter values caller)

end Run

/-- How many instructions the run of a program over a source starts, in all frames. -/
def Program.started (settings : Settings) (program : Program) (source : Source) : Nat :=
  Run.startedBy settings (Run.call settings program.functions settings.callDepthLimit)
    (Run.startedByCall settings program.functions settings.callDepthLimit)
    program.instructions (Machine.start source)

namespace Run

variable {α β : Type} {settings : Settings} {program : Program} {source : Source}
  {known : Definitions}

/-! ## The machine counts what is started -/

/-- The run adds so much to the number of steps, however it ends. -/
def Counts (run : Run α) (count : Machine → Nat) : Prop :=
  ∀ machine, (run.run machine).2.steps = machine.steps + count machine

/-- The run starts no instruction. -/
def Still (run : Run α) : Prop :=
  ∀ steps, Keeps (fun machine => machine.steps = steps) run

theorem Still.counts {run : Run α} (h : Still run) : Counts run fun _ => 0 :=
  fun machine => (h machine.steps).of_run rfl rfl

theorem ifSucceeded_zero (result : Except Fault α × Machine) :
    (ifSucceeded result fun _ _ => 0) = 0 := by
  obtain ⟨outcome, after⟩ := result
  cases outcome <;> rfl

/-- A sequence adds what its first part adds, and what follows a success. -/
theorem Counts.bind {first : Run α} {next : α → Run β} {count : Machine → Nat}
    {count' : α → Machine → Nat} (h : Counts first count)
    (hnext : ∀ value, Counts (next value) (count' value)) :
    Counts (first >>= next) fun machine =>
      count machine + ifSucceeded (first.run machine) count' := by
  intro machine
  show ((first >>= next).run machine).2.steps =
    machine.steps + (count machine + ifSucceeded (first.run machine) count')
  have hfirst := h machine
  rw [run_bind, ← Nat.add_assoc, ← hfirst]
  cases first.run machine with
  | mk outcome after =>
      cases outcome with
      | error fault => rfl
      | ok value => exact hnext value after

/-- What follows without starting anything adds nothing. -/
theorem Counts.bind_still {first : Run α} {next : α → Run β} {count : Machine → Nat}
    (h : Counts first count) (hnext : ∀ value, Still (next value)) :
    Counts (first >>= next) count := by
  intro machine
  calc ((first >>= next).run machine).2.steps
      = machine.steps + (count machine + ifSucceeded (first.run machine) fun _ _ => 0) :=
        h.bind (fun value => (hnext value).counts) machine
    _ = machine.steps + count machine := by rw [ifSucceeded_zero, Nat.add_zero]

theorem counts_tick : Counts (tick settings) fun _ => 1 := by
  intro machine
  rw [run_tick]

theorem still_fromSource (read : Source → Except String α × Source) : Still (fromSource read) := by
  intro steps machine hm
  rw [run_fromSource]
  cases (read machine.source).1 with
  | ok value => exact hm
  | error message => exact hm

/-- Nothing that a frame does itself changes the number of steps, but for counting. -/
theorem stepsRelate_steps (settings : Settings) (steps : Nat) :
    StepsRelate settings settings fun _ run _ => Keeps (fun machine => machine.steps = steps) run :=
  have hreads : ReadsRelate fun _ run _ => Keeps (fun machine => machine.steps = steps) run :=
    { Keeps.sequential with
      throw := Keeps.throw
      hold := fun _ _ hm => hm
      rest := still_fromSource _ steps
      exhausted := still_fromSource _ steps
      bounded := fun _ => still_fromSource _ steps }
  { hreads.operandsRelate rfl rfl with
    throw := Keeps.throw
    order := rfl
    hold := hreads.hold
    remember := fun _ _ hm => hm }

theorem still_checkBuffer : Still (checkBuffer settings) :=
  fun steps => (stepsRelate_steps settings steps).checkBuffer

/-- A call is counted when its arguments are prepared, and adds what the function
    starts. -/
theorem counts_single_call {call : String → List Bytes → Run Bytes}
    {inCall : String → List Bytes → Machine → Nat}
    (hcall : ∀ function values, Counts (call function values) (inCall function values))
    (function : String) (operands : List Operand) :
    Counts (single settings call (.step (.call function operands))) fun machine =>
      1 + startedInside settings inCall (.step (.call function operands)) machine := by
  have hprepare : Counts (prepare settings function operands) fun _ => 1 := by
    refine counts_tick.bind_still fun _ steps => ?_
    have hsteps : StepsRelate settings settings _ := stepsRelate_steps settings steps
    refine Keeps.bind (hsteps.discardPending rfl) fun _ => ?_
    exact hsteps.resolveAll id settings fun operand _ =>
      hsteps.resolve fun index _ => Keeps.argument index.toNat
  have hsingle : single settings call (.step (.call function operands)) =
      prepare settings function operands >>= fun values =>
        call function values >>= fun bytes => hold bytes >>= fun _ => checkBuffer settings := by
    simp only [single, prepare, instruction, perform, bind_assoc]
  rw [hsingle]
  refine hprepare.bind fun values => (hcall function values).bind_still fun bytes steps => ?_
  exact Keeps.bind ((stepsRelate_steps settings steps).hold bytes) fun _ => still_checkBuffer steps

/-- The way to the next boundary adds the instruction, and what is started inside it. -/
theorem counts_single {call : String → List Bytes → Run Bytes}
    {inCall : String → List Bytes → Machine → Nat}
    (hcall : ∀ function values, Counts (call function values) (inCall function values))
    (i : Instruction) :
    Counts (single settings call i) fun machine =>
      1 + startedInside settings inCall i machine := by
  by_cases hcalls : ∃ function operands, i = .step (.call function operands)
  · obtain ⟨function, operands, rfl⟩ := hcalls
    exact counts_single_call hcall function operands
  · -- nothing is started inside any other instruction
    have hinside : ∀ machine, startedInside settings inCall i machine = 0 := by
      intro machine
      rw [startedInside]
      exact fun function operands heq => hcalls ⟨function, operands, heq⟩
    have hinstruction : Still (instruction settings call i) := by
      intro steps
      cases i with
      | define name body => exact Keeps.pure ()
      | step s =>
          have hsteps : StepsRelate settings settings _ := stepsRelate_steps settings steps
          have hs : StepRelates settings settings
              (fun _ run _ => Keeps (fun machine => machine.steps = steps) run) id call call s := by
            refine hsteps.stepRelates call (fun operand _ => ?_) ?_
            · exact hsteps.resolve fun index _ => Keeps.argument index.toNat
            · rintro function operands rfl
              exact absurd ⟨function, operands, rfl⟩ hcalls
          exact hsteps.instruction call Operand.KeepsKind.id
            (hsteps.perform call Operand.KeepsKind.id hs)
    simp only [hinside]
    refine counts_tick.bind_still fun _ steps => ?_
    exact Keeps.bind (hinstruction steps) fun _ => still_checkBuffer steps

/-- A block adds what it starts, if calls do. -/
theorem counts_block {call : String → List Bytes → Run Bytes}
    {inCall : String → List Bytes → Machine → Nat}
    (hcall : ∀ function values, Counts (call function values) (inCall function values))
    (instructions : List Instruction) :
    Counts (block settings call instructions) (startedBy settings call inCall instructions) := by
  induction instructions with
  | nil => exact fun _ => rfl
  | cons first rest ih =>
      rw [block_cons]
      exact (counts_single hcall first).bind fun _ => ih

/-- What is counted in a function counts for its caller. -/
theorem Counts.inside {body : Run Bytes} {count : Machine → Nat} (h : Counts body count)
    (function : String) (values : List Bytes) :
    Counts (inside function values body) fun caller => count (enter values caller) := by
  intro caller
  rw [run_inside]
  exact h (enter values caller)

/-- A call adds what it starts. -/
theorem counts_call (settings : Settings) (known : Definitions) (room : Nat) :
    ∀ function values, Counts (call settings known room function values)
      (startedByCall settings known room function values) := by
  induction room with
  | zero =>
      intro function values machine
      rw [call]
      split <;> rfl
  | succ room ih =>
      intro function values
      have hcount : startedByCall settings known (room + 1) function values = fun caller =>
          match known.body? function with
          | none => 0
          | some body =>
              startedBy settings (call settings known room) (startedByCall settings known room)
                body (enter values caller) := rfl
      rw [call, hcount]
      cases known.body? function with
      | none => exact fun _ => rfl
      | some body =>
          refine Counts.inside ?_ function values
          exact (counts_block ih body).bind_still fun _ steps =>
            (stepsRelate_steps settings steps).takeBuffer

/-- **The machine counts what is started**: the number of steps that a run ends with is
    the number of instructions that it starts. -/
theorem steps_execute (settings : Settings) (program : Program) (source : Source) :
    (program.execute settings source).2.steps = program.started settings source := by
  have hcall := counts_call settings program.functions settings.callDepthLimit
  have htoEnd : Counts (toEnd settings program.functions program.instructions) _ :=
    (counts_block hcall program.instructions).bind_still fun _ steps =>
      (stepsRelate_steps settings steps).takeBuffer
  rw [Program.execute, htoEnd]
  exact Nat.zero_add _

/-! ## Bounds -/

theorem length_le_longestBody {function : String} {body : List Instruction}
    (h : known.body? function = some body) : body.length ≤ known.longestBody := by
  have hmem : body.length ∈ known.entries.map fun entry => entry.2.length :=
    List.mem_map.mpr ⟨(function, body), Definitions.mem_entries_of_body? h, rfl⟩
  exact List.le_max_of_le' 0 hmem (Nat.le_refl _)

theorem ifSucceeded_le {result : Except Fault α × Machine} {count : α → Machine → Nat}
    {bound : Nat} (h : ∀ value after, count value after ≤ bound) :
    ifSucceeded result count ≤ bound := by
  obtain ⟨outcome, after⟩ := result
  cases outcome with
  | ok value => exact h value after
  | error fault => exact Nat.zero_le bound

section Bounds

variable {call : String → List Bytes → Run Bytes}
  {inCall : String → List Bytes → Machine → Nat} {bound : Nat}
  (hcall : ∀ function values caller, inCall function values caller ≤ bound)

include hcall

theorem startedInside_le (i : Instruction) (machine : Machine) :
    startedInside settings inCall i machine ≤ bound := by
  rw [startedInside.eq_def]
  split
  · exact ifSucceeded_le (hcall _)
  · exact Nat.zero_le bound

/-- A block starts each of its instructions at most once, and inside it no more than one
    call. -/
theorem startedBy_le (instructions : List Instruction) (machine : Machine) :
    startedBy settings call inCall instructions machine ≤ instructions.length * (1 + bound) := by
  induction instructions generalizing machine with
  | nil => exact Nat.zero_le _
  | cons first rest ih =>
      have hfirst : startedInside settings inCall first machine ≤ bound :=
        startedInside_le hcall first machine
      calc startedBy settings call inCall (first :: rest) machine
          ≤ 1 + bound + rest.length * (1 + bound) :=
            Nat.add_le_add (Nat.add_le_add_left hfirst 1) (ifSucceeded_le fun _ => ih)
        _ = (first :: rest).length * (1 + bound) := by
            rw [List.length_cons, Nat.succ_mul, Nat.add_comm]

end Bounds

/-- However functions call each other, a call starts no more instructions than a tree has
    whose height is the number of calls that may nest. -/
theorem startedByCall_le (settings : Settings) (known : Definitions) (room : Nat) :
    ∀ function values caller, startedByCall settings known room function values caller ≤
      known.longestBody * ∑ i ∈ Finset.range room, known.longestBody ^ i := by
  induction room with
  | zero => exact fun _ _ _ => Nat.zero_le _
  | succ room ih =>
      intro function values caller
      rw [startedByCall]
      cases hbody : known.body? function with
      | none => exact Nat.zero_le _
      | some body =>
          calc startedBy settings (call settings known room) (startedByCall settings known room)
                body (enter values caller)
              ≤ body.length *
                  (1 + known.longestBody * ∑ i ∈ Finset.range room, known.longestBody ^ i) :=
                startedBy_le ih body _
            _ = body.length * ∑ i ∈ Finset.range (room + 1), known.longestBody ^ i := by
                rw [geom_sum_succ, Nat.add_comm]
            _ ≤ known.longestBody * ∑ i ∈ Finset.range (room + 1), known.longestBody ^ i :=
                Nat.mul_le_mul_right _ (length_le_longestBody hbody)

/-- At no boundary do more frames wait than calls may nest. -/
theorem Reached.callers_le {boundary : Boundary} (h : Reached settings program source boundary) :
    boundary.callers.length ≤ settings.callDepthLimit := by
  induction h with
  | start => exact Nat.zero_le _
  | next _ _ ih => exact ih
  | enter _ _ hroom _ _ => exact hroom

end Run

namespace Program

/-- A run starts no more instructions than trees have whose roots are the instructions of
    the program and whose height is the number of calls that may nest. -/
theorem started_le (settings : Settings) (program : Program) (source : Source) :
    program.started settings source ≤
      program.size *
        ∑ i ∈ Finset.range (settings.callDepthLimit + 1), program.functions.longestBody ^ i := by
  rw [geom_sum_succ, Nat.add_comm]
  exact Run.startedBy_le (Run.startedByCall_le settings program.functions _) _ _

/-- **EVERY RUN ENDS**, recursion included: the number of steps is bounded by the length of
    the program, that of the longest body and the number of calls that may nest, which is
    at most 512.  Every block and every call leaves the number of calls in progress as it
    was, whether it succeeds or fails, and nowhere in the run is that number beyond the
    limit. -/
theorem execute_bounded (settings : Settings) (program : Program) (source : Source) :
    settings.callDepthLimit ≤ 512 ∧
    (program.execute settings source).2.steps ≤
      program.size *
        ∑ i ∈ Finset.range (settings.callDepthLimit + 1), program.functions.longestBody ^ i ∧
    (∀ room instructions machine,
      ((Run.block settings (Run.call settings program.functions room) instructions).run
        machine).2.depth = machine.depth) ∧
    (∀ room function values machine,
      ((Run.call settings program.functions room function values).run machine).2.depth =
        machine.depth) ∧
    ∀ boundary, Run.Reached settings program source boundary →
      boundary.machine.depth ≤ settings.callDepthLimit := by
  have hcall := Run.keepsDepth_call settings program.functions
  refine ⟨Nat.min_le_right _ _, ?_, ?_, ?_, ?_⟩
  · rw [Run.steps_execute]
    exact program.started_le settings source
  · intro room instructions machine
    have hdepth := Run.apart_depth machine.depth
    exact (hdepth.block (hcall room machine.depth) instructions).of_run rfl rfl
  · intro room function values machine
    exact (hcall room machine.depth function values).of_run rfl rfl
  · intro boundary hreached
    rw [hreached.depth_eq]
    exact hreached.callers_le

/-- A program that calls a function which calls itself. -/
def spinning : Program :=
  ⟨[.define "spin" [.step (.call "spin" [])], .step (.call "spin" [])],
    ⟨[("spin", [.step (.call "spin" [])])]⟩, rfl⟩

/-- The definition, the call and one call in each of two bodies are started, of which no more
    than six could be; the second body begins with as many calls in progress as may be. -/
theorem execute_bounded_spinning :
    (spinning.execute { maxCallDepth := 2 } (.ofBytes [] none)).1 =
        .error (.callDepth 2 "spin") ∧
      (spinning.execute { maxCallDepth := 2 } (.ofBytes [] none)).2.steps = 4 ∧
      (spinning.execute { maxCallDepth := 2 } (.ofBytes [] none)).2.steps ≤ 6 ∧
      ∃ boundary, Run.Reached { maxCallDepth := 2 } spinning (.ofBytes [] none) boundary ∧
        boundary.callers.length = 2 ∧ boundary.machine.depth = 2 ∧
          boundary.machine.depth ≤ 2 := by
  obtain ⟨-, hsteps, -, -, hdepth⟩ :=
    execute_bounded { maxCallDepth := 2 } spinning (.ofBytes [] none)
  have hstart : Run.Reached { maxCallDepth := 2 } spinning (.ofBytes [] none) _ := .start
  have hinner := ((hstart.next rfl).enter rfl (by decide) rfl).enter rfl (by decide) rfl
  exact ⟨rfl, rfl, hsteps, _, hinner, rfl, rfl, hdepth _ hinner⟩

end Program

end Attest
