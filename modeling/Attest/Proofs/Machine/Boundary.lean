import Attest.Proofs.Machine.Outcome
import Attest.Proofs.Sequence

/-! # The boundaries of a run

    Between two instructions of a frame a run is at a boundary: there is the machine,
    what the frame still has to do, and the callers that wait for it.  `Reached` says
    which boundaries a run of a program comes to, in whatever frame and however the
    run ends afterwards.

    * `Reached.execute_eq`: the rest of a run is determined by any boundary that it
      comes to: what is left of the frame, and then of its callers, gives the answer.
    * `Reached.end_of_run`: a run with a result has come to the end of the program.
    * `Reached.untouched`: as long as the buffer is pending, nothing but definitions
      has been run. -/

namespace Attest

/-- Whether an instruction only names a body. -/
def Instruction.isDefinition : Instruction → Bool
  | step _ => false
  | define _ _ => true

/-- A frame that waits for the function it has called. -/
structure Suspended where
  /-- The machine when the function was entered. -/
  machine : Machine
  function : String
  /-- The instructions after the call. -/
  rest : List Instruction

/-- A point between two instructions of a frame. -/
structure Boundary where
  machine : Machine
  /-- The instructions of the frame that are still to be run. -/
  rest : List Instruction
  /-- The frames that wait, innermost first. -/
  callers : List Suspended

namespace Run

variable {settings : Settings} {program : Program} {source : Source}

/-- What a call does in a frame for which so many callers wait. -/
def callBelow (settings : Settings) (program : Program) (callers : Nat) :
    String → List Bytes → Run Bytes :=
  call settings program.functions (settings.callDepthLimit - callers)

/-- One instruction with the checks around it: the way from a boundary to the next. -/
def single (settings : Settings) (call : String → List Bytes → Run Bytes) (i : Instruction) :
    Run Unit := do
  tick settings
  instruction settings call i
  checkBuffer settings

/-- The part of a call that is run in the caller's frame: it gives the arguments. -/
def prepare (settings : Settings) (function : String) (operands : List Operand) :
    Run (List Bytes) := do
  tick settings
  discardPending (.call function operands)
  resolveAll settings operands

/-- The boundaries that the run of a program over a source comes to: the first one,
    the one after an instruction that succeeds, and the one at the beginning of a body
    that is entered. -/
inductive Reached (settings : Settings) (program : Program) (source : Source) : Boundary → Prop
  | start : Reached settings program source ⟨Machine.start source, program.instructions, []⟩
  | next {machine after : Machine} {first : Instruction} {rest : List Instruction}
      {callers : List Suspended} :
      Reached settings program source ⟨machine, first :: rest, callers⟩ →
      (single settings (callBelow settings program callers.length) first).run machine =
        (.ok (), after) →
      Reached settings program source ⟨after, rest, callers⟩
  | enter {machine caller : Machine} {function : String} {operands : List Operand}
      {rest body : List Instruction} {callers : List Suspended} {values : List Bytes} :
      Reached settings program source
        ⟨machine, .step (.call function operands) :: rest, callers⟩ →
      (prepare settings function operands).run machine = (.ok values, caller) →
      callers.length < settings.callDepthLimit →
      program.functions.body? function = some body →
      Reached settings program source
        ⟨enter values caller, body, ⟨caller, function, rest⟩ :: callers⟩

/-! ## One instruction -/

/-- The machine when a step takes effect: the step is counted, and a pending buffer is
    gone if the step reads the source. -/
def begun (s : Step) (machine : Machine) : Machine :=
  if machine.buffer = .pending ∧ s.operands.any Operand.readsSource then
    { machine with buffer := .held [], steps := machine.steps + 1 }
  else { machine with steps := machine.steps + 1 }

/-- A step that does not read the source is only counted. -/
theorem begun_of_not_reads {s : Step} (h : s.operands.any Operand.readsSource = false)
    (machine : Machine) : begun s machine = { machine with steps := machine.steps + 1 } := by
  rw [begun, h]
  exact if_neg fun hreads => nomatch hreads.2

theorem begun_of_no_operands {s : Step} (h : s.operands = []) (machine : Machine) :
    begun s machine = { machine with steps := machine.steps + 1 } := by
  refine begun_of_not_reads ?_ machine
  rw [h]
  rfl

/-- Counting a step and dropping a pending buffer for it begins it. -/
theorem run_discardPending_counted (s : Step) (machine : Machine) :
    (discardPending s).run { machine with steps := machine.steps + 1 } =
      (.ok (), begun s machine) := by
  show (Except.ok (), if _ then _ else _) = _
  rw [begun]

/-- The step limit lets one more instruction start. -/
def MayStart (settings : Settings) (machine : Machine) : Prop :=
  ∀ limit, settings.maxSteps = some limit → machine.steps + 1 ≤ limit

/-- The buffer is within the limit, if it is held. -/
def BufferFits (settings : Settings) (machine : Machine) : Prop :=
  ∀ bytes, machine.buffer = .held bytes → bytes.length ≤ settings.maxBufferLength

theorem BufferFits.of_empty {machine : Machine} (h : machine.buffer = .held []) :
    BufferFits settings machine := by
  intro bytes hbytes
  cases h.symm.trans hbytes
  exact Nat.zero_le _

/-- A step leads to the next boundary when it may start, succeeds, and leaves no buffer
    beyond the limit. -/
theorem run_single_step_eq_ok {call : String → List Bytes → Run Bytes} {s : Step}
    {machine after : Machine} :
    (single settings call (.step s)).run machine = (.ok (), after) ↔
      MayStart settings machine ∧
        (perform settings call s).run (begun s machine) = (.ok (), after) ∧
          BufferFits settings after := by
  rw [single, run_bind_eq_ok]
  constructor
  · rintro ⟨_, counted, htick, hrest⟩
    obtain ⟨rfl, hlimit⟩ := run_tick_eq_ok.mp htick
    obtain ⟨_, mid, hinstruction, hcheck⟩ := run_bind_eq_ok.mp hrest
    obtain ⟨rfl, hfits⟩ := run_checkBuffer_eq_ok.mp hcheck
    rw [instruction, run_bind, run_discardPending_counted] at hinstruction
    exact ⟨hlimit, hinstruction, hfits⟩
  · rintro ⟨hlimit, hperform, hfits⟩
    refine ⟨(), _, run_tick_eq_ok.mpr ⟨rfl, hlimit⟩, ?_⟩
    refine run_bind_eq_ok.mpr ⟨(), after, ?_, run_checkBuffer_eq_ok.mpr ⟨rfl, hfits⟩⟩
    rw [instruction, run_bind, run_discardPending_counted]
    exact hperform

/-- Every boundary after an instruction has passed the check. -/
theorem fits_of_single {call : String → List Bytes → Run Bytes} {i : Instruction}
    {machine after : Machine} (h : (single settings call i).run machine = (.ok (), after)) :
    BufferFits settings after := by
  obtain ⟨_, counted, -, hrest⟩ := run_bind_eq_ok.mp h
  obtain ⟨_, mid, -, hcheck⟩ := run_bind_eq_ok.mp hrest
  obtain ⟨rfl, hfits⟩ := run_checkBuffer_eq_ok.mp hcheck
  exact hfits

/-- A definition leads to the next boundary with nothing but the count changed. -/
theorem run_single_define_eq_ok {call : String → List Bytes → Run Bytes} {name : String}
    {body : List Instruction} {machine after : Machine} :
    (single settings call (.define name body)).run machine = (.ok (), after) ↔
      MayStart settings machine ∧ after = { machine with steps := machine.steps + 1 } ∧
        BufferFits settings after := by
  rw [single, run_bind_eq_ok]
  constructor
  · rintro ⟨_, counted, htick, hcheck⟩
    obtain ⟨rfl, hlimit⟩ := run_tick_eq_ok.mp htick
    obtain ⟨rfl, hfits⟩ := run_checkBuffer_eq_ok.mp hcheck
    exact ⟨hlimit, rfl, hfits⟩
  · rintro ⟨hlimit, rfl, hfits⟩
    exact ⟨(), _, run_tick_eq_ok.mpr ⟨rfl, hlimit⟩, run_checkBuffer_eq_ok.mpr ⟨rfl, hfits⟩⟩

/-- Whatever a step does, the buffer is held afterwards. -/
theorem held_of_perform {call : String → List Bytes → Run Bytes} {s : Step}
    {machine after : Machine} (h : (perform settings call s).run machine = (.ok (), after)) :
    ∃ bytes, after.buffer = .held bytes := by
  cases s with
  | concat operands =>
      obtain ⟨bytes, mid, -, hhold⟩ := run_bind_eq_ok.mp h
      cases hhold
      exact ⟨bytes, rfl⟩
  | hash operands =>
      obtain ⟨bytes, mid, -, hhold⟩ := run_bind_eq_ok.mp h
      cases hhold
      exact ⟨_, rfl⟩
  | reverse =>
      obtain ⟨bytes, mid, -, hhold⟩ := run_bind_eq_ok.mp h
      cases hhold
      exact ⟨_, rfl⟩
  | store slot =>
      obtain ⟨bytes, mid, hbytes, hstore⟩ := run_bind_eq_ok.mp h
      cases hstore
      exact ⟨bytes, (buffered_of_run hbytes).2⟩
  | load slot =>
      cases h
      exact ⟨_, rfl⟩
  | set operand =>
      obtain ⟨bytes, mid, -, hhold⟩ := run_bind_eq_ok.mp h
      cases hhold
      exact ⟨bytes, rfl⟩
  | swap slot =>
      obtain ⟨bytes, mid, -, hswap⟩ := run_bind_eq_ok.mp h
      cases hswap
      exact ⟨_, rfl⟩
  | compose template =>
      obtain ⟨pattern, mid, -, hbuffer⟩ := run_bind_eq_ok.mp h
      obtain ⟨bytes, mid', -, hcompose⟩ := run_bind_eq_ok.mp hbuffer
      cases hresult : Template.compose Template.wildcard bytes pattern with
      | ok composed =>
          rw [hresult] at hcompose
          cases hcompose
          exact ⟨composed, rfl⟩
      | error mismatch =>
          rw [hresult] at hcompose
          exact nomatch hcompose
  | call function operands =>
      obtain ⟨values, mid, -, hcall⟩ := run_bind_eq_ok.mp h
      obtain ⟨bytes, mid', -, hhold⟩ := run_bind_eq_ok.mp hcall
      cases hhold
      exact ⟨bytes, rfl⟩

/-- A call that succeeds has run the body of its function, with one call fewer that may
    nest, and has taken the buffer that the body left. -/
theorem run_call_eq_ok {known : Definitions} {room : Nat} {function : String}
    {values : List Bytes} {machine after : Machine} {bytes : Bytes}
    (h : (call settings known room function values).run machine = (.ok bytes, after)) :
    ∃ inner body mid callee, room = inner + 1 ∧ known.body? function = some body ∧
      (block settings (call settings known inner) body).run (enter values machine) =
        (.ok (), mid) ∧
      (takeBuffer settings).run mid = (.ok bytes, callee) ∧ after = resume machine callee := by
  cases room with
  | zero =>
      rw [call] at h
      split at h <;> exact nomatch h
  | succ inner =>
      rw [call] at h
      cases hbody : known.body? function with
      | none =>
          rw [hbody] at h
          exact nomatch h
      | some body =>
          rw [hbody] at h
          dsimp only at h
          rw [run_inside] at h
          obtain ⟨houtcome, rfl⟩ := Prod.mk.inj h
          have hinside := run_bind_eq_ok.mp (Prod.ext (mapError_eq_ok.mp houtcome) rfl)
          obtain ⟨_, mid, hblock, htake⟩ := hinside
          exact ⟨inner, body, mid, _, rfl, rfl, hblock, htake, rfl⟩

/-- Induction over calls: what holds of a call that is refused or whose function is not
    defined, and of the body of a function inside it where it holds of the calls in the body,
    holds of every call, however many more may nest. -/
theorem call_induction {known : Definitions} (P : String → List Bytes → Run Bytes → Prop)
    (refused : ∀ function values,
      P function values (throw (.callDepth settings.callDepthLimit function)))
    (undefined : ∀ function values, known.body? function = none →
      P function values (throw (.ofDefect (.undefinedFunction function))))
    (enters : ∀ calls : String → List Bytes → Run Bytes,
      (∀ function values, P function values (calls function values)) →
      ∀ function values body, known.body? function = some body →
        P function values
          (inside function values (block settings calls body >>= fun _ => takeBuffer settings)))
    (room : Nat) :
    ∀ function values, P function values (call settings known room function values) := by
  induction room with
  | zero =>
      intro function values
      rw [call]
      split
      · exact refused function values
      · next hunknown =>
          refine undefined function values ?_
          rwa [Definitions.contains, Bool.not_eq_true, Option.isSome_eq_false_iff,
            Option.isNone_iff_eq_none] at hunknown
  | succ room ih =>
      intro function values
      rw [call]
      split
      · next hunknown => exact undefined function values hunknown
      · next body hbody => exact enters _ ih function values body hbody

/-! ## The rest of a run -/

/-- A block runs its first instruction and then the others. -/
theorem block_cons (settings : Settings) (call : String → List Bytes → Run Bytes)
    (first : Instruction) (rest : List Instruction) :
    block settings call (first :: rest) =
      single settings call first >>= fun _ => block settings call rest := by
  rw [block, single]
  simp only [bind_assoc]

theorem block_singleton (settings : Settings) (call : String → List Bytes → Run Bytes)
    (i : Instruction) : block settings call [i] = single settings call i := by
  rw [block_cons, block]
  exact bind_pure _

/-- Two blocks in a row are run one after the other. -/
theorem block_append (settings : Settings) (call : String → List Bytes → Run Bytes)
    (front rest : List Instruction) :
    block settings call (front ++ rest) =
      block settings call front >>= fun _ => block settings call rest := by
  induction front with
  | nil => rw [List.nil_append, block, pure_bind]
  | cons first front ih => rw [List.cons_append, block_cons, block_cons, ih, bind_assoc]

/-- A frame runs its instructions and gives the buffer that they leave. -/
def frame (settings : Settings) (program : Program) (callers : Nat) (rest : List Instruction) :
    Run Bytes := do
  block settings (callBelow settings program callers) rest
  takeBuffer settings

/-- Ends a frame and returns to its caller's machine. -/
def leave (caller : Suspended) (result : Run Bytes) : Run Bytes :=
  ExceptT.mk fun callee =>
    ((result.run callee).1.mapError (Fault.leaving caller.function),
      resume caller.machine (result.run callee).2)

/-- Goes on with the callers once the innermost frame has given its result. -/
def goOn (settings : Settings) (program : Program) : List Suspended → Run Bytes → Run Bytes
  | [], result => result
  | caller :: callers, result =>
      goOn settings program callers do
        let bytes ← leave caller result
        hold bytes
        checkBuffer settings
        frame settings program callers.length caller.rest

/-- How the callers go on depends on nothing but how the innermost frame ends. -/
theorem run_goOn_congr (callers : List Suspended) :
    ∀ {first second : Run Bytes} {m n : Machine}, first.run m = second.run n →
      (goOn settings program callers first).run m =
        (goOn settings program callers second).run n := by
  induction callers with
  | nil => exact id
  | cons caller callers ih =>
      intro first second m n h
      refine ih ?_
      have hleave : (leave caller first).run m = (leave caller second).run n := by
        show ((first.run m).1.mapError _, resume _ (first.run m).2) = _
        rw [h]
        rfl
      rw [run_bind, run_bind, hleave]

/-- A call that is entered runs the body and goes on in the caller. -/
theorem run_frame_call {machine caller : Machine} {function : String} {operands : List Operand}
    {rest body : List Instruction} {callers : Nat} {values : List Bytes}
    (hprepare : (prepare settings function operands).run machine = (.ok values, caller))
    (hroom : callers < settings.callDepthLimit)
    (hbody : program.functions.body? function = some body) :
    (frame settings program callers (.step (.call function operands) :: rest)).run machine =
      (leave ⟨caller, function, rest⟩ (frame settings program (callers + 1) body) >>=
        fun bytes => hold bytes >>= fun _ => checkBuffer settings >>= fun _ =>
          frame settings program callers rest).run (enter values caller) := by
  have hframe : frame settings program callers (.step (.call function operands) :: rest) =
      prepare settings function operands >>= fun values =>
        callBelow settings program callers function values >>= fun bytes =>
          hold bytes >>= fun _ => checkBuffer settings >>= fun _ =>
            frame settings program callers rest := by
    simp only [frame, block_cons, single, prepare, instruction, perform, bind_assoc]
  have hcall : callBelow settings program callers function values =
      inside function values (frame settings program (callers + 1) body) := by
    obtain ⟨room, hroom⟩ : ∃ room, settings.callDepthLimit - callers = room + 1 :=
      ⟨settings.callDepthLimit - callers - 1, by omega⟩
    have hbelow : settings.callDepthLimit - (callers + 1) = room := by omega
    simp only [callBelow, frame, hroom, hbelow, call, hbody]
  rw [hframe, run_bind, hprepare]
  dsimp only
  -- entering is the same whether the caller is kept apart or not
  rw [hcall, run_bind, run_bind]
  rfl

/-- **A reached boundary determines the rest of the run**: what is left of the frame,
    and then of its callers, gives the answer and the machine that the run ends with. -/
theorem Reached.execute_eq {boundary : Boundary} (h : Reached settings program source boundary) :
    program.execute settings source =
      (goOn settings program boundary.callers
        (frame settings program boundary.callers.length boundary.rest)).run boundary.machine := by
  induction h with
  | start => rfl
  | @next machine after first rest callers _ hsingle ih =>
      rw [ih]
      refine run_goOn_congr callers ?_
      simp only [frame, block_cons, bind_assoc]
      rw [run_bind, hsingle]
  | @enter machine caller function operands rest body callers values _ hprepare hroom hbody ih =>
      rw [ih]
      exact run_goOn_congr callers (run_frame_call hprepare hroom hbody)

/-- A frame whose block succeeds comes to its end. -/
theorem Reached.end_of_block {callers : List Suspended} {after : Machine}
    (rest : List Instruction) :
    ∀ {machine : Machine}, Reached settings program source ⟨machine, rest, callers⟩ →
      (block settings (callBelow settings program callers.length) rest).run machine =
        (.ok (), after) →
      Reached settings program source ⟨after, [], callers⟩ := by
  induction rest with
  | nil =>
      intro machine h hblock
      cases hblock
      exact h
  | cons first rest ih =>
      intro machine h hblock
      rw [block_cons, run_bind_eq_ok] at hblock
      obtain ⟨_, mid, hsingle, hrest⟩ := hblock
      exact ih (h.next hsingle) hrest

/-- A run with a result has come to the end of the program, where the result is the
    buffer. -/
theorem Reached.end_of_run {result : Bytes} (h : program.run settings source = .ok result) :
    ∃ machine after, Reached settings program source ⟨machine, [], []⟩ ∧
      (takeBuffer settings).run machine = (.ok result, after) := by
  have hexecute : program.execute settings source =
      (.ok result, (program.execute settings source).2) := Prod.ext h rfl
  have hstart : Reached settings program source
      ⟨Machine.start source, program.instructions, []⟩ := .start
  rw [hstart.execute_eq] at hexecute
  obtain ⟨_, machine, hblock, hresult⟩ := run_bind_eq_ok.mp hexecute
  exact ⟨machine, _, hstart.end_of_block _ hblock, hresult⟩

/-! ## Before the first step -/

/-- The program is at its first step or before: what has been run are definitions, which
    have changed nothing but the count. -/
structure Untouched (settings : Settings) (program : Program) (source : Source)
    (before : List Instruction) (boundary : Boundary) : Prop where
  instructions : program.instructions = before ++ boundary.rest
  definitions : ∀ i ∈ before, i.isDefinition = true
  started : ∀ limit, settings.maxSteps = some limit → before.length ≤ limit
  machine : boundary.machine = { Machine.start source with steps := before.length }
  callers : boundary.callers = []

/-- A buffer is pending only before the first step of the program has been run. -/
theorem Reached.untouched {boundary : Boundary} (h : Reached settings program source boundary)
    (hpending : boundary.machine.buffer = .pending) :
    ∃ before, Untouched settings program source before boundary := by
  induction h with
  | start => exact ⟨[], rfl, nofun, fun _ _ => Nat.zero_le _, rfl, rfl⟩
  | @next machine after first rest callers _ hsingle ih =>
      cases first with
      | step s =>
          obtain ⟨-, hperform, -⟩ := run_single_step_eq_ok.mp hsingle
          obtain ⟨bytes, hheld⟩ := held_of_perform hperform
          exact nomatch hheld.symm.trans hpending
      | define name body =>
          obtain ⟨hlimit, rfl, -⟩ := run_single_define_eq_ok.mp hsingle
          obtain ⟨before, hbefore⟩ := ih hpending
          have hmachine : machine = { Machine.start source with steps := before.length } :=
            hbefore.machine
          have hlength : (before ++ [Instruction.define name body]).length = before.length + 1 :=
            List.length_append
          refine ⟨before ++ [.define name body], ?_, ?_, ?_, ?_, hbefore.callers⟩
          · rw [hbefore.instructions, List.append_assoc, List.singleton_append]
          · rw [List.forall_mem_append]
            exact ⟨hbefore.definitions, List.forall_mem_singleton.mpr rfl⟩
          · intro limit hsome
            have := hlimit limit hsome
            rw [hmachine] at this
            exact hlength ▸ this
          · rw [hmachine, hlength]
  | enter => exact nomatch hpending

/-- Definitions that may all start are run, and change nothing but the count. -/
theorem Reached.past_definitions {callers : List Suspended} {rest : List Instruction}
    (before : List Instruction) (hdefinitions : ∀ i ∈ before, i.isDefinition = true) :
    ∀ {machine : Machine}, Reached settings program source ⟨machine, before ++ rest, callers⟩ →
      BufferFits settings machine →
      (∀ limit, settings.maxSteps = some limit → machine.steps + before.length ≤ limit) →
      Reached settings program source
        ⟨{ machine with steps := machine.steps + before.length }, rest, callers⟩ := by
  induction before with
  | nil => exact fun h _ _ => h
  | cons first before ih =>
      intro machine h hfits hlimit
      rw [List.forall_mem_cons] at hdefinitions
      rw [List.length_cons] at hlimit ⊢
      cases first with
      | step s => exact nomatch hdefinitions.1
      | define name body =>
          have hstarted : MayStart settings machine := fun limit hsome => by
            have := hlimit limit hsome
            omega
          have hnext := h.next (run_single_define_eq_ok.mpr ⟨hstarted, rfl, hfits⟩)
          have hrest := ih hdefinitions.2 hnext hfits fun limit hsome => by
            have := hlimit limit hsome
            dsimp only
            omega
          rwa [Nat.add_assoc, Nat.add_comm 1] at hrest

/-- A program that begins with definitions reaches what comes after them. -/
theorem Reached.of_definitions {before rest : List Instruction}
    (hprogram : program.instructions = before ++ rest)
    (hdefinitions : ∀ i ∈ before, i.isDefinition = true)
    (hstarted : ∀ limit, settings.maxSteps = some limit → before.length ≤ limit) :
    Reached settings program source
      ⟨{ Machine.start source with steps := before.length }, rest, []⟩ := by
  have hstart : Reached settings program source
      ⟨Machine.start source, program.instructions, []⟩ := .start
  rw [hprogram] at hstart
  have hlimit : ∀ limit, settings.maxSteps = some limit →
      (Machine.start source).steps + before.length ≤ limit := by
    rw [Machine.start, Nat.zero_add]
    exact hstarted
  have hreached := hstart.past_definitions before hdefinitions nofun hlimit
  rwa [Machine.start, Nat.zero_add] at hreached

end Run

end Attest
