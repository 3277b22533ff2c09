import Attest.Proofs.Machine.Tracking

/-! # Runs in step

    Two runs are in step when they give the same outcome from machines that differ
    only in a related source, unless the first run ends in a fault that is
    excused.  What the two runs may differ in is where they run: the settings and
    the source.

    `InStep` says what two settings need for their primitive runs to be in step.
    Being in step is tracking between such machines, so blocks and calls are in step
    by what is known of tracking (`InStep.parallel`), and `InStep.toEnd` carries a
    run from start to end. -/

namespace Attest

/-- Machines that agree in everything but the source, and whose sources are
    related. -/
structure Machine.Alike (related : Source → Source → Prop) (m n : Machine) : Prop where
  buffer : m.buffer = n.buffer
  arguments : m.arguments = n.arguments
  memory : m.memory = n.memory
  depth : m.depth = n.depth
  steps : m.steps = n.steps
  source : related m.source n.source

namespace Run

variable {α β : Type}

/-- The first result is an excused fault, or the results have the same outcome and
    leave machines that are alike. -/
def Matches (related : Source → Source → Prop) (excused : Fault → Prop)
    (first second : Except Fault α × Machine) : Prop :=
  (∃ fault, first.1 = .error fault ∧ excused fault) ∨
    (first.1 = second.1 ∧ Machine.Alike related first.2 second.2)

/-- From machines that are alike the two runs have matching results. -/
def Simulates (related : Source → Source → Prop) (excused : Fault → Prop)
    (first second : Run α) : Prop :=
  ∀ m n, Machine.Alike related m n →
    Matches related excused (first.run m) (second.run n)

/-- Machines that are alike stay so when their buffers or memories are changed alike. -/
theorem shares_alike {related : Source → Source → Prop} : Shares (Machine.Alike related) where
  buffer := fun h => h.buffer
  memory := fun h => h.memory
  hold := fun _ h => { h with buffer := rfl }
  store := fun _ h => { h with memory := rfl }

/-- The callee's buffer and arguments are dropped, so only its other parts have to be
    alike for the callers to be alike again. -/
theorem nests_alike {related : Source → Source → Prop} :
    Nests (Machine.Alike related) (Machine.Alike related) where
  enter := fun _ h =>
    { h with buffer := rfl, arguments := rfl, depth := congrArg (· + 1) h.depth }
  resume := fun h hcallee => { hcallee with
    buffer := h.buffer
    arguments := h.arguments
    depth := congrArg (· - 1) hcallee.depth }

/-! Being in step is tracking between machines that are alike. -/

namespace Simulates

variable {related : Source → Source → Prop} {excused : Fault → Prop}

theorem pure (value : α) : Simulates related excused (pure value) (pure value) :=
  Tracks.pure value

theorem throw (fault : Fault) :
    Simulates related excused (MonadExcept.throw fault : Run α) (MonadExcept.throw fault) :=
  Tracks.throw fault

theorem throw_excused {fault : Fault} (h : excused fault) (second : Run α) :
    Simulates related excused (MonadExcept.throw fault) second :=
  Tracks.throw_excused h second

theorem bind {first second : Run α} {next next' : α → Run β}
    (h : Simulates related excused first second)
    (hnext : ∀ value, Simulates related excused (next value) (next' value)) :
    Simulates related excused (first >>= next) (second >>= next') :=
  Tracks.bind h hnext

theorem get_bind {next next' : Machine → Run β}
    (h : ∀ m n, Machine.Alike related m n →
      Matches related excused ((next m).run m) ((next' n).run n)) :
    Simulates related excused (get >>= next) (get >>= next') :=
  Tracks.get_bind h

end Simulates

/-- What two settings need so that runs under them stay in step. -/
structure InStep (settings settings' : Settings) (related : Source → Source → Prop)
    (excused : Fault → Prop) : Prop where
  /-- Leaving a function keeps the excuse. -/
  leaving : ∀ fault function, excused fault → excused (fault.leaving function)
  order : settings.digestOrder = settings'.digestOrder
  tick : Simulates related excused (tick settings) (tick settings')
  checkLength : ∀ length,
    Simulates related excused (checkLength settings length) (checkLength settings' length)
  bufferBytes : Simulates related excused (bufferBytes settings) (bufferBytes settings')
  read : ∀ length, Simulates related excused (resolve settings (.read length))
    (resolve settings' (.read length))
  digestedBuffer : ∀ once,
    Simulates related excused (digestedBuffer settings once) (digestedBuffer settings' once)
  depth : settings.callDepthLimit ≤ settings'.callDepthLimit
  /-- A call that only the first run refuses is excused. -/
  overdeep : settings.callDepthLimit = settings'.callDepthLimit ∨
    ∀ limit function, excused (.callDepth limit function)

namespace InStep

variable {settings settings' : Settings} {related : Source → Source → Prop}
  {excused : Fault → Prop}

/-- What is needed to be in step is what steps need to track each other, and more. -/
theorem parallel (h : InStep settings settings' related excused) :
    Parallel settings settings' (Machine.Alike related) excused where
  toShares := shares_alike
  order := h.order
  tick := h.tick
  checkLength := h.checkLength
  bufferBytes := h.bufferBytes
  read := h.read
  digestedBuffer := h.digestedBuffer

/-- Calls at top level are in step. -/
theorem call (h : InStep settings settings' related excused) (known : Definitions)
    (function : String) (values : List Bytes) :
    Simulates related excused (Run.call settings known settings.callDepthLimit function values)
      (Run.call settings' known settings'.callDepthLimit function values) := by
  have hroom : RoomFor settings settings' excused settings.callDepthLimit
      settings'.callDepthLimit := by
    rcases h.overdeep with hsame | hexcused
    · exact Or.inl ⟨hsame, hsame⟩
    · exact Or.inr ⟨h.depth, hexcused⟩
  have hbodies := h.parallel.bodiesTrack_self (fun halike => halike.arguments) known
  exact tracks_call h.leaving h.parallel nests_alike hbodies _ _ hroom function values

/-- A whole run is in step. -/
theorem toEnd (h : InStep settings settings' related excused) (known : Definitions)
    (instructions : List Instruction) :
    Simulates related excused (Run.toEnd settings known instructions)
      (Run.toEnd settings' known instructions) := by
  have hblock := h.parallel.block_self (fun halike => halike.arguments) (h.call known) instructions
  exact Tracks.bind hblock fun _ => h.parallel.takeBuffer

/-- The answers of a program to related sources: the first is an excused fault, or
    they are the same. -/
theorem run (h : InStep settings settings' related excused) (program : Program)
    {source source' : Source} (hsource : related source source') :
    (∃ fault, program.run settings source = .error fault ∧ excused fault) ∨
      program.run settings source = program.run settings' source' := by
  have halike : Machine.Alike related (Machine.start source) (Machine.start source') :=
    ⟨rfl, rfl, rfl, rfl, rfl, hsource⟩
  rcases h.toEnd program.functions program.instructions _ _ halike with hfault | hsame
  · exact Or.inl hfault
  · exact Or.inr hsame.1

end InStep

end Run

end Attest
