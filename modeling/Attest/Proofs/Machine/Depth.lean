import Attest.Proofs.Machine.Keeping
import Attest.Proofs.Machine.Tracking

/-! # How deeply calls nest

    A machine counts the calls in progress.  A call adds itself to the count and takes
    itself off again, however it ends, so it leaves the count as it was
    (`keepsDepth_call`), and at every boundary it is the number of frames that wait
    (`Reached.depth_eq`).

    Calls are told how many more may nest, and never look at the count.  They could as
    well test it.  `testingCount` is what a call does that refuses the function once the
    count has reached the limit, `callByCount` the call to which the machine's count leaves
    as many as the limit allows.

    * `callByCount` is the only call that tests the count (`eq_testingCount_iff`).
    * A program runs like one whose calls test the count (`execute_eq_of_testingCount`). -/

namespace Attest

/-- They are one machine, which satisfies the condition. -/
def Machine.SameWhere (kept : Machine → Prop) (m n : Machine) : Prop :=
  m = n ∧ kept m

namespace Run

open Machine (SameWhere)

variable {α : Type} {settings : Settings} {program : Program} {source : Source}
  {kept : Machine → Prop}

/-! ## Conditions on what a frame cannot change itself -/

/-- The condition does not look at the buffer, the memory, the source and the number of
    steps. -/
def Apart (kept : Machine → Prop) : Prop :=
  ∀ machine buffer memory source steps, kept machine →
    kept { machine with buffer := buffer, memory := memory, source := source, steps := steps }

section Apart

variable {call : String → List Bytes → Run Bytes} (h : Apart kept)

include h

theorem Apart.steady : Steady settings kept :=
  steady_of_aside fun machine buffer source steps =>
    h machine buffer machine.memory source steps

/-- Such a condition is kept by whatever a frame does itself. -/
theorem Apart.blocksRelate : BlocksRelate settings settings fun _ run _ => Keeps kept run where
  toOperandsRelate := h.steady.operandsRelate
  throw := Keeps.throw
  order := rfl
  hold := fun bytes machine hm =>
    h machine (.held bytes) machine.memory machine.source machine.steps hm
  remember := fun memory machine hm =>
    h machine machine.buffer memory machine.source machine.steps hm
  tick := h.steady.tick

variable (hcall : ∀ function values, Keeps kept (call function values))

include hcall

/-- Instructions and blocks keep such a condition if calls do. -/
theorem Apart.single (i : Instruction) : Keeps kept (Run.single settings call i) :=
  h.blocksRelate.single_self call hcall Keeps.argument i

theorem Apart.block (instructions : List Instruction) :
    Keeps kept (Run.block settings call instructions) :=
  h.blocksRelate.block_self call hcall Keeps.argument instructions

end Apart

/-! ## Runs on machines that satisfy a condition -/

/-- A run that keeps the condition tracks itself. -/
theorem Keeps.tracks {run : Run α} (h : Keeps kept run) :
    Tracks (SameWhere kept) (fun _ => False) run run := by
  rintro machine _ ⟨rfl, hm⟩
  exact Or.inr ⟨rfl, rfl, h.of_run hm rfl⟩

/-- What a frame does itself tracks itself on machines that satisfy a condition on what the
    frame cannot change. -/
theorem Apart.parallel (h : Apart kept) :
    Parallel settings settings (SameWhere kept) fun _ => False := by
  have hsteady : Steady settings kept := h.steady
  refine parallel_of_reads ?_ (hsteady.fromSource _).tracks (hsteady.fromSource _).tracks
    (fun _ => (hsteady.fromSource _).tracks) hsteady.tick.tracks
  constructor
  · exact fun hsame => congrArg Machine.buffer hsame.1
  · exact fun hsame => congrArg Machine.memory hsame.1
  · rintro machine _ buffer ⟨rfl, hm⟩
    exact ⟨rfl, h machine buffer machine.memory machine.source machine.steps hm⟩
  · rintro machine _ memory ⟨rfl, hm⟩
    exact ⟨rfl, h machine machine.buffer memory machine.source machine.steps hm⟩

/-- Runs that track each other on machines that satisfy a condition are the same there. -/
theorem run_eq_of_tracks {first second : Run α}
    (h : Tracks (SameWhere kept) (fun _ => False) first second) {machine : Machine}
    (hm : kept machine) : first.run machine = second.run machine := by
  rcases h machine machine ⟨rfl, hm⟩ with ⟨_, _, hfalse⟩ | ⟨hsame, hmachine, -⟩
  · exact hfalse.elim
  · exact Prod.ext hsame hmachine

/-! ## The count of calls -/

theorem apart_depth (depth : Nat) : Apart fun machine => machine.depth = depth :=
  fun _ _ _ _ _ h => h

/-- A call takes itself off the count, if its body leaves the count as it was. -/
theorem keepsDepth_inside {depth : Nat} {body : Run Bytes}
    (h : Keeps (fun machine => machine.depth = depth + 1) body) (function : String)
    (values : List Bytes) :
    Keeps (fun machine => machine.depth = depth) (inside function values body) := by
  refine Keeps.inside (fun machine hm => ?_) (fun machine callee _ hcallee => ?_) h function
  · exact congrArg (· + 1) hm
  · show callee.depth - 1 = depth
    omega

/-- Calls leave the count as it was, however they end. -/
theorem keepsDepth_call (settings : Settings) (known : Definitions) (room : Nat) :
    ∀ depth function values,
      Keeps (fun machine => machine.depth = depth) (call settings known room function values) := by
  intro depth function values
  refine call_induction (fun _ _ run => ∀ depth, Keeps (fun machine => machine.depth = depth) run)
    (fun _ _ _ => Keeps.throw _) (fun _ _ _ _ => Keeps.throw _) ?_ room function values depth
  intro calls ih function values body _ depth
  refine keepsDepth_inside ?_ function values
  have hcallee := apart_depth (depth + 1)
  refine Keeps.bind (hcallee.block (fun function values => ih function values _) body) fun _ => ?_
  exact hcallee.steady.takeBuffer

/-- At every boundary the count is the number of frames that wait. -/
theorem Reached.depth_eq {boundary : Boundary} (h : Reached settings program source boundary) :
    boundary.machine.depth = boundary.callers.length := by
  induction h with
  | start => rfl
  | @next machine after first rest callers _ hsingle ih =>
      have hframe := apart_depth callers.length
      have hcall := keepsDepth_call settings program.functions
        (settings.callDepthLimit - callers.length) callers.length
      exact (hframe.single hcall first).of_run ih hsingle
  | @enter machine caller function operands rest body callers values _ hprepare _ _ ih =>
      have hcaller : caller.depth = callers.length :=
        ((apart_depth callers.length).steady.prepare function operands).of_run ih hprepare
      show caller.depth + 1 = callers.length + 1
      rw [hcaller]

/-! ## Testing the count -/

/-- What a call does that tests the count: it refuses the function if as many calls are in
    progress as the limit allows.  What the calls in the body do is a parameter. -/
def testingCount (settings : Settings) (known : Definitions)
    (calls : String → List Bytes → Run Bytes) (function : String) (values : List Bytes) :
    Run Bytes :=
  match known.body? function with
  | none => throw (.ofDefect (.undefinedFunction function))
  | some body => do
      let machine ← get
      if settings.callDepthLimit ≤ machine.depth then
        throw (.callDepth settings.callDepthLimit function)
      else
        inside function values do
          block settings calls body
          takeBuffer settings

/-- A call while so many more may nest as the count leaves below the limit. -/
def callByCount (settings : Settings) (known : Definitions) (function : String)
    (values : List Bytes) : Run Bytes := do
  let machine ← get
  call settings known (settings.callDepthLimit - machine.depth) function values

section Count

variable {known : Definitions} {calls : String → List Bytes → Run Bytes}

/-- On the machine that a call is made on, its count is the one that is looked at. -/
theorem run_callByCount (function : String) (values : List Bytes) (machine : Machine) :
    (callByCount settings known function values).run machine =
      (call settings known (settings.callDepthLimit - machine.depth) function values).run
        machine := rfl

/-- Where the calls in it are calls that may nest so often, a block does with them what it
    does with those. -/
theorem run_block_of_calls {room depth : Nat}
    (hcalls : ∀ function values machine, machine.depth = depth →
      (calls function values).run machine =
        (call settings known room function values).run machine)
    (instructions : List Instruction) {machine : Machine} (hm : machine.depth = depth) :
    (block settings calls instructions).run machine =
      (block settings (call settings known room) instructions).run machine := by
  have hparallel : Parallel settings settings (SameWhere fun machine => machine.depth = depth)
      fun _ => False := (apart_depth depth).parallel
  have hsame : ∀ function values, Tracks (SameWhere fun machine => machine.depth = depth)
      (fun _ => False) (calls function values) (call settings known room function values) := by
    rintro function values machine _ ⟨rfl, hdepth⟩
    rw [hcalls function values machine hdepth]
    exact (keepsDepth_call settings known room depth function values).tracks machine machine
      ⟨rfl, hdepth⟩
  have hblock := hparallel.block_self (fun h => congrArg Machine.arguments h.1) hsame instructions
  exact run_eq_of_tracks hblock hm

/-- A call that tests the count does what the count leaves room for, if the calls in the
    body do. -/
theorem run_testingCount (function : String) (values : List Bytes) {machine : Machine}
    (hcalls : machine.depth < settings.callDepthLimit → ∀ function values callee,
      callee.depth = machine.depth + 1 →
        (calls function values).run callee =
          (callByCount settings known function values).run callee) :
    (testingCount settings known calls function values).run machine =
      (callByCount settings known function values).run machine := by
  rw [run_callByCount, testingCount]
  cases hbody : known.body? function with
  | none => rw [call_of_undefined hbody]
  | some body =>
      dsimp only
      rw [run_get_bind]
      by_cases hfull : settings.callDepthLimit ≤ machine.depth
      · rw [if_pos hfull, Nat.sub_eq_zero_of_le hfull, call_zero_of_defined hbody]
      · obtain ⟨room, hroom⟩ : ∃ room, settings.callDepthLimit - machine.depth = room + 1 :=
          ⟨settings.callDepthLimit - machine.depth - 1, by omega⟩
        -- the callee's machine counts one call more, and one fewer may nest there
        have hbelow : ∀ function values callee, callee.depth = machine.depth + 1 →
            (calls function values).run callee =
              (call settings known room function values).run callee := by
          intro function values callee hcallee
          have hless : settings.callDepthLimit - callee.depth = room := by omega
          rw [hcalls (Nat.not_le.mp hfull) function values callee hcallee, run_callByCount, hless]
        have hblock : (block settings calls body).run (enter values machine) =
            (block settings (call settings known room) body).run (enter values machine) :=
          run_block_of_calls hbelow body rfl
        rw [if_neg hfull, hroom, call_succ_of_defined hbody, run_inside, run_inside, run_bind,
          run_bind, hblock]

/-- A call while so many more may nest as the count leaves below the limit is refused exactly
    if the count has reached the limit, and else runs the body with such calls. -/
theorem run_call_of_count (function : String) (values : List Bytes) (machine : Machine) :
    (call settings known (settings.callDepthLimit - machine.depth) function values).run machine =
      (testingCount settings known (callByCount settings known) function values).run machine :=
  (run_testingCount function values fun _ _ _ _ _ => rfl).symm

/-- **THE COUNT DECIDES WHICH CALLS ARE REFUSED**: there is one call that refuses a function
    exactly when the count has reached the limit, and whose body is run with such calls: the
    one that may nest as often as the count leaves below the limit. -/
theorem eq_testingCount_iff :
    calls = testingCount settings known calls ↔ calls = callByCount settings known := by
  constructor
  · intro h
    -- on what the count leaves below the limit
    have hroom : ∀ room function values machine,
        settings.callDepthLimit - machine.depth = room →
          (calls function values).run machine =
            (callByCount settings known function values).run machine := by
      intro room
      induction room with
      | zero =>
          intro function values machine hnone
          rw [h]
          exact run_testingCount function values fun hless => absurd hnone (by omega)
      | succ room ih =>
          intro function values machine hsome
          rw [h]
          exact run_testingCount function values fun _ function values callee hcallee =>
            ih function values callee (by omega)
    funext function values machine
    exact hroom _ function values machine rfl
  · rintro rfl
    funext function values machine
    exact run_call_of_count function values machine

/-- A program runs as it does with calls that test the count. -/
theorem execute_eq_of_testingCount (h : calls = testingCount settings program.functions calls) :
    program.execute settings source =
      (block settings calls program.instructions >>= fun _ => takeBuffer settings).run
        (Machine.start source) := by
  have hcalls := eq_testingCount_iff.mp h
  have htop : ∀ function values machine, machine.depth = 0 →
      (calls function values).run machine =
        (call settings program.functions settings.callDepthLimit function values).run machine := by
    intro function values machine hdepth
    rw [hcalls, run_callByCount, hdepth, Nat.sub_zero]
  -- no call is in progress at the start
  have hblock := run_block_of_calls htop program.instructions
    (show (Machine.start source).depth = 0 from rfl)
  rw [Program.execute, toEnd, run_bind, run_bind, hblock]

end Count

end Run

end Attest
