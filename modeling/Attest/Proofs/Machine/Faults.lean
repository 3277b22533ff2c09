import Attest.Proofs.Machine.Confinement
import Attest.Proofs.Program.Scope
import Attest.Verdict

/-! # The faults of a run

    Validation leaves a run only one way to find its program malformed: a call
    supplies fewer arguments than the body it reaches asks for.

    A frame is in order (`Framed`) when its block is part of the program, its steps
    are in scope, and a program that supplies its arguments has supplied enough of
    them here.  Every frame that a run enters is in order, because the bodies that
    calls reach were checked where they were defined (`Framed.callee`); and in such
    a frame every fault is one that `Admitted` lists (`block_stays`). -/

namespace Attest

open Instruction (definitions blocks)

/-! ## What bodies ask for and calls supply -/

/-- The index of a positional argument; none counts as zero. -/
def Operand.position : Operand → Nat
  | argument index => index.toNat
  | _ => 0

/-- The largest index of a positional argument among operands. -/
def Operand.lastPosition : List Operand → Nat
  | [] => 0
  | operand :: rest => max operand.position (lastPosition rest)

/-- The largest index of a positional argument in the steps of a block, those of
    nested bodies left out. -/
def Instruction.arity : List Instruction → Nat
  | [] => 0
  | step s :: rest => max (Operand.lastPosition s.operands) (arity rest)
  | define _ _ :: rest => arity rest

/-- Every call, at any level, supplies at least as many arguments as the largest
    index in the steps of the body that it calls. -/
def Program.SuppliesArguments (program : Program) : Prop :=
  ∀ block ∈ blocks program.instructions, ∀ function arguments,
    .step (.call function arguments) ∈ block →
      ∀ body, program.functions.body? function = some body →
        Instruction.arity body ≤ arguments.length

theorem Operand.position_le_lastPosition {operand : Operand} {operands : List Operand}
    (h : operand ∈ operands) : operand.position ≤ lastPosition operands := by
  induction operands with
  | nil => exact nomatch h
  | cons first rest ih =>
      rcases List.mem_cons.mp h with rfl | hrest
      · exact Nat.le_max_left _ _
      · exact Nat.le_trans (ih hrest) (Nat.le_max_right _ _)

theorem Instruction.lastPosition_le_arity {s : Step} {block : List Instruction}
    (h : step s ∈ block) : Operand.lastPosition s.operands ≤ arity block := by
  induction block with
  | nil => exact nomatch h
  | cons first rest ih =>
      cases first with
      | step s' =>
          rcases List.mem_cons.mp h with heq | hrest
          · cases heq
            exact Nat.le_max_left _ _
          · exact Nat.le_trans (ih hrest) (Nat.le_max_right _ _)
      | define name body =>
          rcases List.mem_cons.mp h with heq | hrest
          · exact nomatch heq
          · exact ih hrest

/-! ## Faults that a run may end in -/

/-- The faults that have nothing to do with the form of the program. -/
inductive Fault.FromRunning : Fault → Prop
  | restDisabled : FromRunning (.ofBreach .restDisabled)
  | bufferingDisabled : FromRunning (.ofBreach .bufferingDisabled)
  | abort (reason : AbortReason) (callStack : List String) :
      FromRunning (.abort reason callStack)
  | callDepth (limit : Nat) (function : String) : FromRunning (.callDepth limit function)
  | stepLimit (limit : Nat) : FromRunning (.stepLimit limit)
  | bufferLimit (limit length : Nat) : FromRunning (.bufferLimit limit length)
  | io (message : String) : FromRunning (.io message)

/-- The faults that a run of the program may end in: those that have nothing to do
    with its form, and an argument out of range, unless the program supplies its
    arguments. -/
inductive Fault.Admitted (program : Program) : Fault → Prop
  | running {fault : Fault} : fault.FromRunning → Admitted program fault
  | outOfRange {index supplied : Nat} : supplied < index → ¬ program.SuppliesArguments →
      Admitted program (.ofDefect (.argumentOutOfRange index supplied))

theorem Fault.Admitted.leaving {program : Program} {fault : Fault} (h : fault.Admitted program)
    (function : String) : (fault.leaving function).Admitted program := by
  cases h with
  | running hfault =>
      cases hfault with
      | abort reason callStack => exact .running (.abort _ _)
      | restDisabled => exact .running .restDisabled
      | bufferingDisabled => exact .running .bufferingDisabled
      | callDepth limit callee => exact .running (.callDepth _ _)
      | stepLimit limit => exact .running (.stepLimit _)
      | bufferLimit limit length => exact .running (.bufferLimit _ _)
      | io message => exact .running (.io _)
  | outOfRange hlt hsupplies => exact .outOfRange hlt hsupplies

namespace Run

variable {α β : Type} {program : Program} {settings : Settings}
  {arguments : Option (List Bytes)}

/-- A frame of a run of the program: its block is part of the program, the steps are
    in scope, and there are enough arguments if the program supplies them. -/
structure Framed (program : Program) (arguments : Option (List Bytes))
    (block : List Instruction) : Prop where
  mem : block ∈ blocks program.instructions
  inScope : ∀ s, .step s ∈ block → s.InScope program.functions arguments.isSome
  enough : program.SuppliesArguments → ∀ values, arguments = some values →
    Instruction.arity block ≤ values.length

/-- The top level is in order. -/
theorem Framed.top (program : Program) : Framed program none program.instructions :=
  ⟨List.mem_cons_self, program.inScope.1, fun _ _ h => nomatch h⟩

/-- What a call in a frame in order reaches is in order again. -/
theorem Framed.callee {block : List Instruction} (h : Framed program arguments block)
    {function : String} {operands : List Operand}
    (hcall : .step (.call function operands) ∈ block) :
    ∃ body, program.functions.body? function = some body ∧
      ∀ values, values.length = operands.length → Framed program (some values) body := by
  have hknown := (h.inScope _ hcall).call _ _ rfl
  obtain ⟨body, hbody⟩ := Option.isSome_iff_exists.mp hknown
  refine ⟨body, hbody, fun values hlength => ⟨?_, ?_, ?_⟩⟩
  -- whatever the table supplies was defined somewhere in the program
  · have := Program.mem_definitions_of_body? hbody
    exact List.mem_cons_of_mem _ (List.mem_map.mpr ⟨_, this, rfl⟩)
  · exact fun s hs => Program.inScope_of_body? hbody s hs
  · intro hsupplies values' heq
    cases heq
    rw [hlength]
    exact hsupplies block h.mem function operands hcall body hbody

/-- An operand of a frame in order finds its argument, or the program does not
    supply them. -/
theorem Framed.supplied_error {block : List Instruction} (h : Framed program arguments block)
    {s : Step} (hs : .step s ∈ block) {index : UInt64}
    (hindex : Operand.argument index ∈ s.operands) {fault : Fault}
    (hfault : supplied arguments index.toNat = .error fault) : fault.Admitted program := by
  obtain ⟨hpos, hbody⟩ := (h.inScope s hs).operands _ hindex index rfl
  obtain ⟨values, rfl⟩ := Option.isSome_iff_exists.mp hbody
  have hle : index.toNat ≤ Instruction.arity block :=
    Nat.le_trans (Operand.position_le_lastPosition hindex) (Instruction.lastPosition_le_arity hs)
  -- an index counts from one, and the values from zero
  generalize index.toNat = position at hpos hle hfault
  obtain ⟨before, rfl⟩ : ∃ before, position = before + 1 := ⟨position - 1, by omega⟩
  cases hvalue : values[before]? with
  | some bytes =>
      rw [supplied, hvalue] at hfault
      exact nomatch hfault
  | none =>
      rw [supplied, hvalue] at hfault
      cases hfault
      have hshort : values.length ≤ before := List.getElem?_eq_none_iff.mp hvalue
      refine .outOfRange (by omega) fun hsupplies => ?_
      have := h.enough hsupplies values rfl
      omega

/-! ## Runs of a frame -/

/-- The run keeps the arguments of the frame, gives a value as described, and fails
    only as admitted. -/
def Stays (program : Program) (arguments : Option (List Bytes)) (run : Run α)
    (given : α → Prop) : Prop :=
  Ensures (fun machine => machine.arguments = arguments) run
    (fun value after => after.arguments = arguments ∧ given value)
    (fun fault _ => fault.Admitted program)

/-- No step changes the arguments of its frame, and what the primitive runs fail with is
    admitted. -/
theorem confining_stays (program : Program) (arguments : Option (List Bytes)) :
    Confining (fun machine => machine.arguments = arguments) (Fault.Admitted program) where
  aside := fun _ _ _ _ _ hm => hm
  primitive := by
    intro fault hfault
    cases hfault with
    | restDisabled => exact .running .restDisabled
    | bufferingDisabled => exact .running .bufferingDisabled
    | stepLimit limit => exact .running (.stepLimit limit)
    | bufferLimit limit length => exact .running (.bufferLimit limit length)
    | io message => exact .running (.io message)

/-- A function body that stays in its own frame keeps the caller in its frame. -/
theorem Stays.inside {body : Run Bytes} {function : String} {values : List Bytes}
    (h : Stays program (some values) body fun _ => True) :
    Stays program arguments (inside function values body) fun _ => True := by
  intro machine hm
  rw [run_inside]
  have hbody := h (enter values machine) rfl
  cases hrun : body.run (enter values machine) with
  | mk outcome after =>
      rw [hrun] at hbody
      cases outcome with
      | ok bytes => exact ⟨hm, trivial⟩
      | error fault => exact hbody.leaving function

/-! ## Steps and calls -/

/-- What a call in the frame needs: it stays when what it reaches is in order. -/
def CallStays (program : Program) (arguments : Option (List Bytes))
    (call : String → List Bytes → Run Bytes) : Prop :=
  ∀ function body, program.functions.body? function = some body →
    ∀ values, Framed program (some values) body →
      Stays program arguments (call function values) fun _ => True

/-- The block of a frame in order stays in the frame. -/
theorem block_stays {call : String → List Bytes → Run Bytes} {block : List Instruction}
    (hcall : CallStays program arguments call) (h : Framed program arguments block) :
    Stays program arguments (Run.block settings call block) fun _ => True := by
  refine (confining_stays program arguments).block fun s hs => ?_
  refine (confining_stays program arguments).perform ?_ ?_ ?_
  · rintro index hindex machine rfl fault hfault
    exact h.supplied_error hs hindex hfault
  · exact fun template _ reason => .running (.abort reason [])
  · rintro function operands rfl values hlength
    obtain ⟨body, hbody, hframed⟩ := h.callee hs
    exact hcall function body hbody values (hframed values hlength)

/-- Calls stay, however many more of them may nest. -/
theorem call_stays (room : Nat) :
    ∀ arguments, CallStays program arguments (call settings program.functions room) := by
  induction room with
  | zero =>
      -- the function is known, so the depth is all that can be at fault
      intro arguments function body hbody values _
      rw [call]
      rw [Definitions.contains, hbody]
      exact Confines.throw (.running (.callDepth _ _))
  | succ room ih =>
      intro arguments function body hbody values hframed
      rw [call]
      rw [hbody]
      refine Stays.inside (Confines.andThen ?_ fun _ => (confining_stays program _).takeBuffer)
      exact block_stays (ih (some values)) hframed

/-- Every fault of a run is admitted. -/
theorem toEnd_stays :
    Stays program none (toEnd settings program.functions program.instructions)
      fun _ => True := by
  refine Confines.andThen ?_ fun _ => (confining_stays program none).takeBuffer
  exact block_stays (call_stays _ none) (Framed.top program)

end Run

namespace Program

/-- A run of a program ends in an admitted fault, if in any. -/
theorem admitted_of_run {program : Program} {settings : Settings} {source : Source}
    {fault : Fault} (h : program.run settings source = .error fault) :
    fault.Admitted program :=
  have hstart : (Machine.start source).arguments = none := rfl
  Run.toEnd_stays.failed_of_error hstart h

/-- A program that supplies its arguments never ends as malformed. -/
theorem isMalformed_of_run {program : Program} {settings : Settings} {source : Source}
    {fault : Fault} (hsupplies : program.SuppliesArguments)
    (h : program.run settings source = .error fault) : fault.isMalformed = false := by
  cases admitted_of_run h with
  | running hfault => cases hfault <;> rfl
  | outOfRange _ hnot => exact absurd hsupplies hnot

/-- **What a run can find malformed.**  No run of a program calls an undefined
    function, looks for an argument outside a body, finds a buffer that it cannot
    take in, or decodes; all that can be malformed is an argument out of range.  A
    program that supplies its arguments is never found malformed at all. -/
theorem malformed_of_run (program : Program) (settings : Settings) (source : Source) :
    (∀ fault, program.run settings source = .error fault →
      (∀ path function, fault ≠ .malformed path (.undefinedFunction function)) ∧
      (∀ path index, fault ≠ .malformed path (.argumentOutsideFunction index)) ∧
      (∀ path breach, fault = .streamPolicy path breach →
        breach.message ≠ "buffer could not be materialized") ∧
      (∀ flaw, fault ≠ .decode flaw) ∧
      ∀ path defect, fault = .malformed path defect →
        ∃ index supplied, supplied < index ∧ path = [] ∧
          defect = .argumentOutOfRange index supplied ∧
          fault.message = "malformed program: " ++
            s!"positional argument a:{index} out of range ({supplied} supplied)") ∧
    (program.SuppliesArguments →
      (∀ path defect, program.run settings source ≠ .error (.malformed path defect)) ∧
      ∀ expected fault, program.verify settings source expected ≠ .malformed fault) := by
  refine ⟨fun fault hrun => ?_, fun hsupplies => ⟨?_, ?_⟩⟩
  · cases admitted_of_run hrun with
    | running hfault =>
        cases hfault with
        | restDisabled =>
            refine ⟨nofun, nofun, ?_, nofun, nofun⟩
            intro path breach heq
            cases heq
            decide
        | bufferingDisabled =>
            refine ⟨nofun, nofun, ?_, nofun, nofun⟩
            intro path breach heq
            cases heq
            decide
        | abort reason callStack => exact ⟨nofun, nofun, nofun, nofun, nofun⟩
        | callDepth limit function => exact ⟨nofun, nofun, nofun, nofun, nofun⟩
        | stepLimit limit => exact ⟨nofun, nofun, nofun, nofun, nofun⟩
        | bufferLimit limit length => exact ⟨nofun, nofun, nofun, nofun, nofun⟩
        | io message => exact ⟨nofun, nofun, nofun, nofun, nofun⟩
    | @outOfRange index supplied hlt _ =>
        refine ⟨nofun, nofun, nofun, nofun, ?_⟩
        intro path defect heq
        cases heq
        exact ⟨index, supplied, hlt, rfl, rfl, rfl⟩
  · intro path defect hrun
    exact nomatch isMalformed_of_run hsupplies hrun
  · intro expected fault hverdict
    rw [verify] at hverdict
    cases hrun : program.run settings source with
    | ok computed =>
        rw [hrun, Verdict.ofOutcome] at hverdict
        split at hverdict <;> exact nomatch hverdict
    | error found =>
        rw [hrun, Verdict.ofOutcome, isMalformed_of_run hsupplies hrun] at hverdict
        split at hverdict <;> exact nomatch hverdict

/-- Both calls of the program supply the one argument that is asked for, so no run
    over an empty source finds it malformed. -/
theorem malformed_of_run_mirroring :
    mirroring.SuppliesArguments ∧
      (∀ path defect, mirroring.run {} (.ofBytes [] none) ≠ .error (.malformed path defect)) ∧
      ∀ expected fault, mirroring.verify {} (.ofBytes [] none) expected ≠ .malformed fault := by
  have hsupplies : mirroring.SuppliesArguments := by
    intro block hblock function arguments hcall body hbody
    simp only [blocks, mirroring, mirroringBlock, Instruction.definitions_define_cons,
      Instruction.definitions_step_cons, Instruction.definitions_nil, List.map_cons,
      List.map_nil, List.append_nil, List.mem_cons, List.not_mem_nil, or_false] at hblock
    rcases hblock with rfl | rfl | rfl
    · simp at hcall
      obtain ⟨rfl, rfl⟩ := hcall
      cases hbody
      decide
    · simp at hcall
      obtain ⟨rfl, rfl⟩ := hcall
      cases hbody
      decide
    · simp at hcall
  exact ⟨hsupplies, (malformed_of_run mirroring {} (.ofBytes [] none)).2 hsupplies⟩

end Program

end Attest
