import Attest.Proofs.Machine.Agreement
import Attest.Proofs.Machine.Faults

/-! # Definitions in other places

    All functions of a program are in one table, and a definition does nothing when it is
    reached.  So it does not matter where a function is defined, before or after its
    calls, at top level or inside another body, and it does not matter which functions
    are defined that the program does not call (`Program.run_eq_of_ownSteps`).

    The bodies of the two programs track each other on machines that agree, calls by
    induction on how many more of them may nest.  A function that only the second program
    knows could make a difference if the first one called it; but no run of a program
    calls a function that is not defined. -/

namespace Attest

/-- The fault of a call of a function that is not defined. -/
def Fault.IsUndefined (fault : Fault) : Prop :=
  ∃ path function, fault = .malformed path (.undefinedFunction function)

theorem Fault.IsUndefined.leaving (fault : Fault) (function : String) (h : fault.IsUndefined) :
    (fault.leaving function).IsUndefined := by
  obtain ⟨path, callee, rfl⟩ := h
  exact ⟨path, callee, rfl⟩

/-- No run ends in that fault. -/
theorem Fault.Admitted.not_isUndefined {program : Program} {fault : Fault}
    (h : fault.Admitted program) : ¬ fault.IsUndefined := by
  rintro ⟨path, function, rfl⟩
  cases h with
  | running hfault => exact nomatch hfault

/-- The second table has the functions of the first, with the same steps of their own. -/
def Definitions.Covers (known known' : Definitions) : Prop :=
  ∀ function body, known.body? function = some body →
    ∃ body', known'.body? function = some body' ∧
      Instruction.ownSteps body = Instruction.ownSteps body'

namespace Run

variable {settings : Settings} {known known' : Definitions}

/-- Blocks with the same steps of their own tally where their calls track each other. -/
theorem tallies_of_ownSteps (hsteps : settings.maxSteps = none) {excused : Fault → Prop}
    {call call' : String → List Bytes → Run Bytes}
    (hcall : ∀ function values, Tracks (Machine.Agree Eq) excused (call function values)
      (call' function values))
    {block block' : List Instruction}
    (h : Instruction.ownSteps block = Instruction.ownSteps block') {m n : Machine}
    (hmn : Machine.Agree Eq m n) (hfits : BufferFits settings m) :
    Tallies (Machine.Agree Eq) excused ((Run.block settings call block).run m)
      ((Run.block settings call' block').run n) := by
  have hsame : Instruction.SameSteps id block block' := by
    refine Instruction.sameSteps_of_ownSteps ?_
    rw [List.map_id'' Step.mapOperands_id, h]
  refine tallies_of_sameSteps hsteps Operand.KeepsKind.id hcall hsame ?_ hmn hfits
  intro _ _ operand _
  exact (parallel_agree hsteps).relates.resolve fun index _ =>
    tracks_argument (fun hagree => hagree.arguments) index.toNat

/-- A call tracks the call of the same function in a table that covers the first, if the
    calls below them do. -/
theorem tracks_call_of_covers_below (hsteps : settings.maxSteps = none)
    (h : known.Covers known') {room : Nat}
    (hbelow : ∀ less, room = less + 1 → ∀ function values,
      Tracks (Machine.Agree Eq) Fault.IsUndefined (call settings known less function values)
        (call settings known' less function values))
    (function : String) (values : List Bytes) :
    Tracks (Machine.Agree Eq) Fault.IsUndefined (call settings known room function values)
      (call settings known' room function values) := by
  refine tracks_call_of_inside (fun _ => Or.inr ⟨[], function, rfl⟩) (Or.inl ⟨rfl, rfl⟩) values ?_
  intro body hbody
  obtain ⟨body', hbody', hown⟩ := h function body hbody
  refine ⟨body', hbody', ?_⟩
  rintro less _ rfl ⟨⟩ m n hmn
  -- the bodies begin with an empty buffer, so the first check finds nothing
  refine Tallies.inside Fault.IsUndefined.leaving nests_agree hmn ?_ function
  have hblock := tallies_of_ownSteps hsteps (hbelow less rfl) hown
    (nests_agree.enter values hmn) (.of_empty rfl)
  exact hblock.bind fun _ after after' _ hafter =>
    (parallel_agree hsteps).takeBuffer after after' hafter

theorem tracks_call_of_covers (hsteps : settings.maxSteps = none) (h : known.Covers known')
    (room : Nat) :
    ∀ function values, Tracks (Machine.Agree Eq) Fault.IsUndefined
      (call settings known room function values) (call settings known' room function values) := by
  induction room with
  | zero => exact tracks_call_of_covers_below hsteps h nofun
  | succ room ih =>
      refine tracks_call_of_covers_below hsteps h ?_
      rintro _ ⟨⟩
      exact ih

end Run

namespace Program

/-- **WHERE FUNCTIONS ARE DEFINED DOES NOT MATTER**: two programs have the same result or
    the same fault on every source, if their own steps are the same, and every function of
    the first is defined in the second with the same steps of its own.  The definitions
    may stand anywhere, and the second program may have more of them. -/
theorem run_eq_of_ownSteps {p q : Program}
    (htop : Instruction.ownSteps p.instructions = Instruction.ownSteps q.instructions)
    (hbodies : p.functions.Covers q.functions) {settings : Settings}
    (hsteps : settings.maxSteps = none) (source : Source) :
    p.run settings source = q.run settings source := by
  have hcall := Run.tracks_call_of_covers hsteps hbodies settings.callDepthLimit
  have hstart : Machine.Agree Eq (Machine.start source) (Machine.start source) :=
    ⟨rfl, rfl, rfl, rfl⟩
  have hblock := Run.tallies_of_ownSteps hsteps hcall htop hstart nofun
  have htoEnd := hblock.bind fun _ after after' _ hafter =>
    (Run.parallel_agree hsteps).takeBuffer after after' hafter
  rcases htoEnd with ⟨fault, hfault, hundefined⟩ | ⟨hsame, -⟩
  · exact absurd hundefined (admitted_of_run hfault).not_isUndefined
  · exact hsame

/-- The program that mirrors, with both functions at top level after the call, and one
    more function. -/
def mirroringLate : Program where
  instructions :=
    [.step (.call "mirror" [.read (.bounded 2)]),
      .define "mirror"
        [.step (.call "flip" [.argument 1]), .step (.concat [.argument 1, .buffer])],
      .define "spare" [.step .reverse],
      .define "flip" [.step (.set (.argument 1)), .step .reverse]]
  functions :=
    ⟨[("mirror", [.step (.call "flip" [.argument 1]), .step (.concat [.argument 1, .buffer])]),
      ("spare", [.step .reverse]),
      ("flip", [.step (.set (.argument 1)), .step .reverse])]⟩
  valid := by rfl

/-- The two programs have the same result, though one defines a function in the body of
    another before the call, and the other defines both after it. -/
theorem run_eq_of_ownSteps_mirroring :
    mirroring.run {} (.ofBytes [97, 98] none) = mirroringLate.run {} (.ofBytes [97, 98] none) ∧
      mirroringLate.run {} (.ofBytes [97, 98] none) = .ok [97, 98, 98, 97] := by
  refine ⟨run_eq_of_ownSteps rfl ?_ rfl _, rfl⟩
  intro function body hbody
  rcases List.mem_cons.mp (Definitions.mem_entries_of_body? hbody) with hmirror | hothers
  · cases hmirror
    exact ⟨_, rfl, rfl⟩
  · cases List.mem_singleton.mp hothers
    exact ⟨_, rfl, rfl⟩

end Program

end Attest
