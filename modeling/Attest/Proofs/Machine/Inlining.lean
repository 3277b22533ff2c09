import Attest.Proofs.Machine.Agreement
import Attest.Proofs.Machine.Depth
import Attest.Proofs.Machine.Faults
import Attest.Proofs.Machine.Retention

/-! # Calls written out

    A call does what the body of its function does when it is written out in the
    caller's frame: the buffer emptied, the arguments in the place of the operands that
    name them, the definitions left out (`Instruction.inlined`).

    The body and its written-out form run on machines that agree in the buffer, the
    memory and the source (`Machine.Agree`); one of them has arguments where the other
    has bytes in their place, and is one call deeper.  So the calls in it find one place
    less before the limit, which is the only thing that can make a difference. -/

namespace Attest

/-- The operand with an argument in place of the positional argument that names it. -/
def Operand.withArguments (values : List Bytes) : Operand → Operand
  | argument index =>
      match values[index.toNat - 1]? with
      | some bytes => hex bytes
      | none => argument index
  | operand => operand

theorem Operand.withArguments_of_ne (values : List Bytes) {operand : Operand}
    (h : ∀ index, operand ≠ .argument index) : operand.withArguments values = operand := by
  cases operand with
  | argument index => exact absurd rfl (h index)
  | _ => rfl

namespace Instruction

/-- The steps of a body with the arguments in place. -/
def supplied (values : List Bytes) (body : List Instruction) : List Instruction :=
  (ownSteps body).map fun s => step (s.mapOperands (Operand.withArguments values))

theorem sameSteps_supplied (values : List Bytes) (body : List Instruction) :
    SameSteps (Operand.withArguments values) body (supplied values body) := by
  induction body with
  | nil => exact .nil
  | cons first rest ih =>
      cases first with
      | step s => exact .step ih
      | define name body => exact .left ih

/-- The body written out for a call with these arguments: the buffer is emptied, and
    the steps of the body follow. -/
def inlined (values : List Bytes) (body : List Instruction) : List Instruction :=
  step (.set (.literal [])) :: supplied values body

end Instruction

/-- The fault of a call that finds no place before the limit. -/
def Fault.IsOverdeep (fault : Fault) : Prop :=
  ∃ limit function, fault = .callDepth limit function

theorem Fault.IsOverdeep.leaving (fault : Fault) (function : String) (h : fault.IsOverdeep) :
    (fault.leaving function).IsOverdeep := by
  obtain ⟨limit, callee, rfl⟩ := h
  exact ⟨limit, callee, rfl⟩

namespace Run

variable {settings : Settings} {program : Program} {source : Source} {known : Definitions}
  {excused : Fault → Prop}

/-- Calls track each other when the second ones may nest at least as deeply. -/
theorem tracks_call_agree {arguments : Option (List Bytes) → Option (List Bytes) → Prop}
    (hsteps : settings.maxSteps = none) {room room' : Nat} (hroom : room ≤ room')
    (function : String) (values : List Bytes) :
    Tracks (Machine.Agree arguments) Fault.IsOverdeep (call settings known room function values)
      (call settings known room' function values) := by
  have hparallel : Parallel settings settings (Machine.Agree Eq) Fault.IsOverdeep :=
    parallel_agree hsteps
  have hexcused : ∀ limit function, (Fault.callDepth limit function).IsOverdeep :=
    fun limit function => ⟨limit, function, rfl⟩
  have hbodies := hparallel.bodiesTrack_self (fun h => h.arguments) known
  refine tracks_call_of_below Fault.IsOverdeep.leaving hparallel nests_agree (hbodies function)
    (Or.inr ⟨hroom, hexcused⟩) ?_ values
  rintro less less' rfl rfl
  exact tracks_call Fault.IsOverdeep.leaving hparallel nests_agree hbodies less less'
    (Or.inr ⟨Nat.le_of_succ_le_succ hroom, hexcused⟩)

/-! ## Arguments in place -/

/-- The frame of a call with these arguments, and a frame with any. -/
abbrev Supplying (values : List Bytes) : Machine → Machine → Prop :=
  Machine.Agree fun own _ => own = some values

theorem keepsKind_withArguments (values : List Bytes) :
    Operand.KeepsKind (Operand.withArguments values) where
  buffer := by
    intro operand
    cases operand with
    | argument index =>
        rw [Operand.withArguments]
        split <;> exact ⟨nofun, nofun⟩
    | _ => exact Iff.rfl
  readsSource := by
    intro operand
    cases operand with
    | argument index =>
        rw [Operand.withArguments]
        split <;> rfl
    | _ => rfl

/-- An operand in scope, for which there are enough arguments, gives the bytes of the
    operand that is in its place. -/
theorem tracks_withArguments (hsteps : settings.maxSteps = none) {values : List Bytes}
    {operand : Operand} (hscope : operand.InScope true) (hle : operand.position ≤ values.length) :
    Tracks (Supplying values) excused (resolve settings operand)
      (resolve settings (operand.withArguments values)) := by
  by_cases hargument : ∃ index, operand = .argument index
  · obtain ⟨index, rfl⟩ := hargument
    obtain ⟨hone, -⟩ := hscope index rfl
    have hposition : index.toNat ≤ values.length := hle
    -- an index counts from one, and the values from zero
    obtain ⟨before, hbefore⟩ : ∃ before, index.toNat = before + 1 := ⟨index.toNat - 1, by omega⟩
    have hlt : before < values.length := by omega
    intro m n hmn
    have hown : m.arguments = some values := hmn.arguments
    have hlookup : values[before]? = some values[before] := List.getElem?_eq_getElem hlt
    rw [resolve, run_argument, hown, hbefore, Run.supplied, Operand.withArguments, hbefore,
      Nat.add_sub_cancel, hlookup]
    exact Or.inr ⟨rfl, hmn⟩
  · have hne : ∀ index, operand ≠ .argument index := fun index h => hargument ⟨index, h⟩
    rw [Operand.withArguments_of_ne values hne]
    exact (parallel_agree hsteps).resolve hne

/-! ## A call and its body -/

/-- A block that begins with a held buffer within the limit ends with one. -/
theorem settled_of_block {call : String → List Bytes → Run Bytes}
    (instructions : List Instruction) :
    ∀ {machine after : Machine}, (∃ bytes, machine.buffer = .held bytes) →
      BufferFits settings machine →
      (block settings call instructions).run machine = (.ok (), after) →
      (∃ bytes, after.buffer = .held bytes) ∧ BufferFits settings after := by
  induction instructions with
  | nil =>
      intro machine after hheld hfits hblock
      cases hblock
      exact ⟨hheld, hfits⟩
  | cons first rest ih =>
      intro machine after hheld _ hblock
      rw [block_cons, run_bind_eq_ok] at hblock
      obtain ⟨_, mid, hsingle, hrest⟩ := hblock
      exact ih (held_of_single hheld hsingle) (fits_of_single hsingle) hrest

/-- Bytes stand for themselves. -/
theorem resolveAll_hex (settings : Settings) (values : List Bytes) :
    resolveAll settings (values.map .hex) = pure values := by
  induction values with
  | nil => rfl
  | cons bytes rest ih =>
      rw [List.map_cons, resolveAll, ih, resolve, pure_bind, pure_bind]

/-- A call of a defined function that has room runs the body: it leaves the buffer, the
    memory and the source that the body leaves, or ends in the body's fault. -/
theorem run_call_of_body (settings : Settings) (machine : Machine) (room : Nat)
    {function : String} {body : List Instruction} (hbody : known.body? function = some body)
    (values : List Bytes) :
    (instruction settings (call settings known (room + 1))
        (.step (.call function (values.map .hex)))).run machine =
      match (block settings (call settings known room) body).run (enter values machine) with
      | (.ok (), after) => (.ok (), { resume machine after with buffer := after.buffer })
      | (.error fault, after) => (.error (fault.leaving function), resume machine after) := by
  have hquiet : ¬ (machine.buffer = .pending ∧
      (Step.call function (values.map .hex)).operands.any Operand.readsSource = true) := by
    rintro ⟨-, hreads⟩
    obtain ⟨operand, hoperand, hread⟩ := List.any_eq_true.mp hreads
    obtain ⟨bytes, -, rfl⟩ := List.mem_map.mp hoperand
    exact nomatch hread
  have hdiscard : (discardPending (.call function (values.map .hex))).run machine =
      (.ok (), machine) := by
    show (Except.ok (), if _ then _ else _) = _
    rw [if_neg hquiet]
  rw [instruction, run_bind, hdiscard]
  show (perform settings _ (.call function (values.map .hex))).run machine = _
  rw [perform, resolveAll_hex, pure_bind, run_bind, call_succ_of_defined hbody, run_inside,
    run_bind]
  cases hblock : (block settings (call settings known room) body).run (enter values machine) with
  | mk outcome after =>
      cases outcome with
      | error fault => rfl
      | ok _ =>
          obtain ⟨⟨bytes, hheld⟩, -⟩ := settled_of_block body ⟨[], rfl⟩ (.of_empty rfl) hblock
          dsimp only
          rw [run_takeBuffer_held settings hheld, hheld]
          rfl

/-- A body that is written out runs like its steps from an empty buffer. -/
theorem run_inlined (hsteps : settings.maxSteps = none) {call : String → List Bytes → Run Bytes}
    (values : List Bytes) (body : List Instruction) (machine : Machine) :
    (block settings call (Instruction.inlined values body)).run machine =
      (block settings call (Instruction.supplied values body)).run
        { machine with buffer := .held [], steps := machine.steps + 1 } := by
  have hstart : MayStart settings machine := fun _ hlimit => nomatch hsteps.symm.trans hlimit
  have hbegun : begun (.set (.literal [])) machine = { machine with steps := machine.steps + 1 } :=
    if_neg fun hreads => nomatch hreads.2
  have hset : (single settings call (.step (.set (.literal [])))).run machine =
      (.ok (), { machine with buffer := .held [], steps := machine.steps + 1 }) := by
    refine run_single_step_eq_ok.mpr ⟨hstart, ?_, .of_empty rfl⟩
    rw [hbegun]
    rfl
  rw [Instruction.inlined, block_cons, run_bind, hset]

/-- The steps of a function's body are in scope, and find their arguments if there are
    as many as the body asks for. -/
theorem mem_body_inScope {function : String} {body : List Instruction}
    (hbody : program.functions.body? function = some body) {values : List Bytes}
    (hvalues : Instruction.arity body ≤ values.length) (s : Step) (hs : .step s ∈ body)
    (operand : Operand) (hoperand : operand ∈ s.operands) :
    operand.InScope true ∧ operand.position ≤ values.length := by
  refine ⟨(Program.inScope_of_body? hbody s hs).operands operand hoperand, ?_⟩
  calc operand.position
      ≤ Operand.lastPosition s.operands := Operand.position_le_lastPosition hoperand
    _ ≤ Instruction.arity body := Instruction.lastPosition_le_arity hs
    _ ≤ values.length := hvalues

/-- A body in the frame of its call tallies with the body written out in the caller's
    frame, where one more call may nest. -/
theorem tallies_inlined (hsteps : settings.maxSteps = none) {function : String}
    {body : List Instruction} (hbody : program.functions.body? function = some body)
    {values : List Bytes} (hvalues : Instruction.arity body ≤ values.length) (room : Nat)
    (machine : Machine) :
    Tallies (Supplying values) Fault.IsOverdeep
      ((block settings (call settings program.functions room) body).run (enter values machine))
      ((block settings (call settings program.functions (room + 1))
        (Instruction.inlined values body)).run machine) := by
  have hnested : ∀ function operands, Tracks (Supplying values) Fault.IsOverdeep
      (call settings program.functions room function operands)
      (call settings program.functions (room + 1) function operands) :=
    tracks_call_agree hsteps (Nat.le_succ room)
  rw [run_inlined hsteps]
  refine tallies_of_sameSteps hsteps (keepsKind_withArguments values) hnested
    (Instruction.sameSteps_supplied values body) ?_ ?_ (.of_empty rfl)
  · intro s hs operand hoperand
    obtain ⟨hscope, hle⟩ := mem_body_inScope hbody hvalues s hs operand hoperand
    exact tracks_withArguments hsteps hscope hle
  · -- both frames have an empty buffer by now, and the same memory and source
    exact ⟨rfl, rfl, rfl, rfl⟩

/-- **A CALL IS ITS BODY WRITTEN OUT**: where a call still has a place and supplies the
    arguments that the body asks for, a success of the call is a success of the body
    written out in the caller's frame, with the same buffer, memory and source; and a
    fault of the call is the fault of the body written out, which has not left the
    function, unless calls nest too deeply. -/
theorem Reached.call_inlined {boundary : Boundary} (h : Reached settings program source boundary)
    (hsteps : settings.maxSteps = none) (hdepth : boundary.machine.depth < settings.callDepthLimit)
    {function : String} {body : List Instruction}
    (hbody : program.functions.body? function = some body) (values : List Bytes)
    (hvalues : Instruction.arity body ≤ values.length) :
    let calls := callBelow settings program boundary.callers.length
    let called := (instruction settings calls (.step (.call function (values.map .hex)))).run
      boundary.machine
    let inlined := (block settings calls (Instruction.inlined values body)).run boundary.machine
    (∀ after, called = (.ok (), after) → BufferFits settings after ∧
      ∃ after', inlined = (.ok (), after') ∧ after'.buffer = after.buffer ∧
        after'.memory = after.memory ∧ after'.source = after.source) ∧
    ∀ fault after, called = (.error fault, after) →
      (∃ limit callee, fault = .callDepth limit callee) ∨
        ∃ fault' after', inlined = (.error fault', after') ∧ fault = fault'.leaving function := by
  intro calls called inlined
  rw [h.depth_eq] at hdepth
  obtain ⟨room, hroom⟩ : ∃ room, settings.callDepthLimit - boundary.callers.length = room + 1 :=
    ⟨settings.callDepthLimit - boundary.callers.length - 1, by omega⟩
  have hcalls : calls = call settings program.functions (room + 1) := by
    show call settings program.functions (settings.callDepthLimit - boundary.callers.length) = _
    rw [hroom]
  have hcalled := run_call_of_body settings boundary.machine room hbody values
  rw [← hcalls] at hcalled
  change called = _ at hcalled
  have htallies := tallies_inlined hsteps hbody hvalues room boundary.machine
  rw [← hcalls] at htallies
  change Tallies _ _ _ inlined at htallies
  cases hblock : (block settings (call settings program.functions room) body).run
      (Run.enter values boundary.machine) with
  | mk outcome after =>
      rw [hblock] at hcalled htallies
      cases outcome with
      | ok _ =>
          obtain ⟨-, hfits⟩ := settled_of_block body ⟨[], rfl⟩ (.of_empty rfl) hblock
          rcases htallies with ⟨fault, hfault, -⟩ | ⟨hsame, hafter⟩
          · exact nomatch hfault
          · refine ⟨?_, ?_⟩
            · intro last hlast
              cases hcalled.symm.trans hlast
              exact ⟨hfits, inlined.2, Prod.ext hsame.symm rfl, hafter.buffer.symm,
                hafter.memory.symm, hafter.source.symm⟩
            · intro fault last hlast
              exact nomatch hcalled.symm.trans hlast
      | error found =>
          refine ⟨?_, ?_⟩
          · intro last hlast
            exact nomatch hcalled.symm.trans hlast
          · intro fault last hlast
            cases hcalled.symm.trans hlast
            rcases htallies with ⟨fault, hfault, hoverdeep⟩ | ⟨hsame, -⟩
            · cases hfault
              exact Or.inl (hoverdeep.leaving _ function)
            · exact Or.inr ⟨found, inlined.2, Prod.ext hsame.symm rfl, rfl⟩

/-- The call of the function that mirrors, and its body written out, which has one more
    call in it. -/
theorem Reached.call_inlined_mirroring :
    ∃ body after, Program.mirroring.functions.body? "mirror" = some body ∧
      (block {} (callBelow {} Program.mirroring 0) (Instruction.inlined [[97, 98]] body)).run
          (Machine.start (.ofBytes [99] none)) = (.ok (), after) ∧
        after.buffer = .held [97, 98, 98, 97] ∧ after.source = .ofBytes [99] none := by
  have hstart : Reached {} Program.mirroring (.ofBytes [99] none) ⟨_, _, []⟩ := .start
  have hbody : Program.mirroring.functions.body? "mirror" = some _ := rfl
  obtain ⟨-, after, hinlined, hbuffer, -, hsource⟩ :=
    (hstart.call_inlined rfl (by decide) hbody [[97, 98]] (by decide)).1 _ rfl
  exact ⟨_, after, hbody, hinlined, hbuffer, hsource⟩

end Run

end Attest
