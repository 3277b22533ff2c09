import Attest.Proofs.Machine.Agreement
import Attest.Proofs.Program.Expansion

/-! # The order of digests

    A digest in reversed order is the digest in natural order, reversed.  So a program does
    with reversed digests what it does with natural ones when a reversal follows every hash
    step, in all bodies as well (`Program.run_reversed`).

    The two runs do not keep pace: the second one counts a step more for every hash, and
    where a digest is beyond the limit for buffers they stop with different buffers.  The
    number of steps does not show without a limit on it, and what machines two runs fail on
    does not show either.  So the runs accord (`Accords`) if their outcomes are the same and
    the machines agree whenever they go on. -/

namespace Attest

/-- A step, and a reversal after it if it is a hash. -/
def Step.reversing : Step → List Step
  | hash operands => [hash operands, reverse]
  | s => [s]

/-- A step other than a hash is left as it is. -/
theorem Step.reversing_of_ne {s : Step} (h : ∀ operands, s ≠ .hash operands) :
    s.reversing = [s] := by
  cases s with
  | hash operands => exact absurd rfl (h operands)
  | _ => rfl

/-- A reversal asks nothing of the scope. -/
theorem Step.addsUnscoped_reversing : AddsUnscoped reversing := by
  intro s t ht
  cases s with
  | hash operands =>
      rcases List.mem_pair.mp ht with rfl | rfl
      · exact Or.inl rfl
      · exact Or.inr ⟨rfl, nofun⟩
  | _ => exact Or.inl (List.mem_singleton.mp ht)

namespace Run

variable {α β : Type} {related : Machine → Machine → Prop}

/-- The results have the same outcome, and leave related machines if they are successes. -/
def SameEnd (related : Machine → Machine → Prop) (first second : Except Fault α × Machine) :
    Prop :=
  first.1 = second.1 ∧ ∀ value, first.1 = .ok value → related first.2 second.2

/-- Where both fail alike, it does not matter what machines they leave. -/
theorem SameEnd.of_error {first second : Except Fault α × Machine} {fault : Fault}
    (h : first.1 = .error fault) (h' : second.1 = .error fault) : SameEnd related first second := by
  refine ⟨h.trans h'.symm, fun value hvalue => ?_⟩
  cases h.symm.trans hvalue

/-- Sequences have the same end when their first parts have, and what follows a success of
    the first part has from there. -/
theorem SameEnd.bind {between : Machine → Machine → Prop} {first second : Run α}
    {next next' : α → Run β} {m n : Machine}
    (h : SameEnd between (first.run m) (second.run n))
    (hnext : ∀ value after after', first.run m = (.ok value, after) → between after after' →
      SameEnd related ((next value).run after) ((next' value).run after')) :
    SameEnd related ((first >>= next).run m) ((second >>= next').run n) := by
  rw [run_bind, run_bind]
  cases hx : first.run m with
  | mk outcome after =>
      cases hy : second.run n with
      | mk outcome' after' =>
          rw [hx, hy] at h
          obtain ⟨hsame, hbetween⟩ := h
          cases hsame
          cases outcome with
          | ok value => exact hnext value after after' hx (hbetween value rfl)
          | error fault => exact .of_error rfl rfl

/-- From related machines the two runs have results with the same end. -/
def Accords (related : Machine → Machine → Prop) (first second : Run α) : Prop :=
  ∀ m n, related m n → SameEnd related (first.run m) (second.run n)

namespace Accords

/-- Runs accord when one tracks the other without an excuse. -/
theorem of_tracks {first second : Run α}
    (h : Tracks related (fun _ => False) first second) : Accords related first second := by
  intro m n hmn
  rcases h m n hmn with ⟨_, _, hexcused⟩ | ⟨hsame, hrelated⟩
  · exact hexcused.elim
  · exact ⟨hsame, fun _ _ => hrelated⟩

/-- Sequences accord when their parts do. -/
theorem bind {first second : Run α} {next next' : α → Run β} (h : Accords related first second)
    (hnext : ∀ value, Accords related (next value) (next' value)) :
    Accords related (first >>= next) (second >>= next') :=
  fun m n hmn => (h m n hmn).bind fun value after after' _ => hnext value after after'

/-- Calls of one function accord when its bodies do. -/
theorem inside {body body' : Run Bytes} (nests : Nests related related)
    (h : Accords related body body') (function : String) (values : List Bytes) :
    Accords related (inside function values body) (Run.inside function values body') := by
  intro m n hmn
  obtain ⟨hsame, hrelated⟩ := h _ _ (nests.enter values hmn)
  rw [run_inside, run_inside]
  refine ⟨congrArg (Except.mapError _) hsame, fun value hvalue => ?_⟩
  exact nests.resume hmn (hrelated value (mapError_eq_ok.mp hvalue))

end Accords

/-! ## Steps -/

/-- The settings with another order of digests. -/
abbrev ordered (settings : Settings) (order : DigestOrder) : Settings :=
  { settings with digestOrder := order }

section Steps

variable {settings : Settings} (h : Parallel settings settings (Machine.Agree Eq) fun _ => False)
  (order order' : DigestOrder)

include h

/-- The order of digests does not show in anything else that a frame does. -/
theorem framesRelate_order :
    FramesRelate (ordered settings order) (ordered settings order')
      fun _ => Accords (Machine.Agree Eq) where
  pure := fun value => .of_tracks (Tracks.pure value)
  bind := Accords.bind
  seenBuffer := .of_tracks h.relates.seenBuffer
  seenMemory := .of_tracks h.relates.seenMemory
  checkLength := fun length => .of_tracks (h.checkLength length)
  bufferBytes := .of_tracks h.bufferBytes
  digestedBuffer := fun once => .of_tracks (h.digestedBuffer once)
  hold := fun bytes => .of_tracks (h.tracks_hold bytes)
  tick := .of_tracks h.tick

theorem accords_resolve (operand : Operand) :
    Accords (Machine.Agree Eq) (resolve (ordered settings order) operand)
      (resolve (ordered settings order') operand) := by
  refine (framesRelate_order h order order').resolve_of (fun length _ => ?_) fun index _ => ?_
  · exact .of_tracks (h.read length)
  · exact .of_tracks (tracks_argument (fun hagree => hagree.arguments) index.toNat)

variable {call call' : String → List Bytes → Run Bytes}

/-- A step that does not digest accords with itself, if its call does. -/
theorem accords_perform {s : Step} (hne : ∀ operands, s ≠ .hash operands)
    (hcall : ∀ function values,
      Accords (Machine.Agree Eq) (call function values) (call' function values)) :
    Accords (Machine.Agree Eq) (perform (ordered settings order) call s)
      (perform (ordered settings order') call' s) := by
  refine (framesRelate_order h order order').perform_of_self call' ?_
  exact {
    operands := fun operand _ => accords_resolve h order order' operand
    order := fun operands heq => absurd heq (hne operands)
    put := fun slot _ bytes => .of_tracks (h.relates.put slot bytes)
    abort := fun _ _ _ => .of_tracks (Tracks.throw _)
    call := fun function _ _ => hcall function }

end Steps

section Hash

/-- A reversal of a buffer within the limit only reverses it. -/
theorem run_single_reverse {settings : Settings} (hsteps : settings.maxSteps = none)
    {call : String → List Bytes → Run Bytes} {machine : Machine} {bytes : Bytes}
    (hheld : machine.buffer = .held bytes)
    (hfits : bytes.length ≤ settings.maxBufferLength) :
    (single settings call (.step .reverse)).run machine =
      (.ok (), { machine with buffer := .held bytes.reverse, steps := machine.steps + 1 }) := by
  have hstart : MayStart settings machine := fun _ hlimit => nomatch hsteps.symm.trans hlimit
  refine run_single_step_eq_ok.mpr ⟨hstart, ?_, ?_⟩
  · rw [begun_of_no_operands rfl, perform, run_bind, run_bufferBytes_held settings]
    · rfl
    · exact hheld
  · rintro _ ⟨⟩
    rw [List.length_reverse]
    exact hfits

variable {settings : Settings} (hsteps : settings.maxSteps = none)
  {call call' : String → List Bytes → Run Bytes}

/-- The part of a hash step before the digest: it gives what is to be digested. -/
def gather (settings : Settings) (operands : List Operand) : Run Bytes := do
  tick settings
  discardPending (.hash operands)
  digested settings operands

/-- A hash step gathers what is to be digested, holds the digest and checks its length. -/
theorem single_hash_eq (settings : Settings) (operands : List Operand) :
    single settings call (.step (.hash operands)) = gather settings operands >>= fun bytes =>
      hold (digest settings bytes) >>= fun _ => checkBuffer settings := by
  simp only [single, gather, instruction, perform, bind_assoc]

include hsteps

theorem accords_gather (operands : List Operand) :
    Accords (Machine.Agree Eq) (gather (ordered settings .reversed) operands)
      (gather (ordered settings .natural) operands) := by
  have hframes := framesRelate_order (parallel_agree hsteps) .reversed .natural
  refine Accords.bind hframes.tick fun _ => Accords.bind (hframes.discardPending rfl) fun _ => ?_
  have hoperands : ∀ operand ∈ operands, Accords (Machine.Agree Eq)
      (resolve (ordered settings .reversed) operand)
      (resolve (ordered settings .natural) (id operand)) :=
    fun operand _ => accords_resolve (parallel_agree hsteps) .reversed .natural operand
  have hdigested := hframes.digested hoperands Operand.KeepsKind.id
  rwa [List.map_id] at hdigested

/-- A reversed digest is left as it is when the digest is reversed by a further step. -/
theorem accords_reversed (bytes : Bytes) :
    Accords (Machine.Agree Eq)
      (hold (digest (ordered settings .reversed) bytes) >>= fun _ =>
        checkBuffer (ordered settings .reversed))
      (hold (digest (ordered settings .natural) bytes) >>= fun _ =>
        checkBuffer (ordered settings .natural) >>= fun _ =>
          single (ordered settings .natural) call' (.step .reverse)) := by
  intro m n hmn
  generalize hdigest : Sha256.digest bytes = natural
  have hreversed : (hold (digest (ordered settings .reversed) bytes) >>= fun _ =>
      checkBuffer (ordered settings .reversed)).run m =
        (checkLength settings natural.length).run { m with buffer := .held natural.reverse } := by
    rw [← hdigest, ← List.length_reverse]
    rfl
  have hnatural : (hold (digest (ordered settings .natural) bytes) >>= fun _ =>
      checkBuffer (ordered settings .natural) >>= fun _ =>
        single (ordered settings .natural) call' (.step .reverse)).run n =
      (checkLength settings natural.length >>= fun _ =>
        single (ordered settings .natural) call' (.step .reverse)).run
          { n with buffer := .held natural } := by
    rw [← hdigest]
    rfl
  rw [hreversed, hnatural, checkLength]
  by_cases hlong : settings.maxBufferLength < natural.length
  · rw [if_pos hlong]
    exact .of_error rfl rfl
  · have hordered : (ordered settings .natural).maxSteps = none := hsteps
    rw [if_neg hlong, pure_bind, run_single_reverse hordered rfl (Nat.le_of_not_lt hlong)]
    exact ⟨rfl, fun _ _ => ⟨rfl, hmn.memory, hmn.source, hmn.arguments⟩⟩

/-- A hash step that reverses the digest accords with one that does not and a reversal. -/
theorem accords_hash (operands : List Operand) :
    Accords (Machine.Agree Eq)
      (single (ordered settings .reversed) call (.step (.hash operands)))
      (single (ordered settings .natural) call' (.step (.hash operands)) >>= fun _ =>
        single (ordered settings .natural) call' (.step .reverse)) := by
  rw [single_hash_eq, single_hash_eq, bind_assoc]
  refine Accords.bind (accords_gather hsteps operands) fun bytes => ?_
  rw [bind_assoc]
  exact accords_reversed hsteps bytes

end Hash

/-! ## Blocks and calls -/

variable {settings : Settings} (hsteps : settings.maxSteps = none)

include hsteps

section Block

variable {call call' : String → List Bytes → Run Bytes}
  (hcall : ∀ function values,
    Accords (Machine.Agree Eq) (call function values) (call' function values))

include hcall

/-- A step accords with what it is replaced by, if calls do. -/
theorem accords_step (s : Step) :
    Accords (Machine.Agree Eq) (single (ordered settings .reversed) call (.step s))
      (block (ordered settings .natural) call' (s.reversing.map .step)) := by
  by_cases hhash : ∃ operands, s = .hash operands
  · obtain ⟨operands, rfl⟩ := hhash
    have hpair : block (ordered settings .natural) call'
        ((Step.hash operands).reversing.map .step) =
          single (ordered settings .natural) call' (.step (.hash operands)) >>= fun _ =>
            single (ordered settings .natural) call' (.step .reverse) := by
      rw [Step.reversing, List.map_cons, block_cons, List.map_singleton, block_singleton]
    rw [hpair]
    exact accords_hash hsteps operands
  · have hne : ∀ operands, s ≠ .hash operands := fun operands heq => hhash ⟨operands, heq⟩
    have hsame : block (ordered settings .natural) call' (s.reversing.map .step) =
        single (ordered settings .natural) call' (.step s) := by
      rw [Step.reversing_of_ne hne, List.map_singleton, block_singleton]
    rw [hsame]
    refine (framesRelate_order (parallel_agree hsteps) .reversed .natural).single_of_self call' ?_
    rintro _ ⟨⟩
    exact accords_perform (parallel_agree hsteps) .reversed .natural hne hcall

/-- A block with reversed digests accords with one that has a reversal after every hash. -/
theorem accords_block (instructions : List Instruction) :
    Accords (Machine.Agree Eq) (block (ordered settings .reversed) call instructions)
      (block (ordered settings .natural) call'
        (Instruction.expand Step.reversing instructions)) := by
  have hframes := framesRelate_order (parallel_agree hsteps) .reversed .natural
  induction instructions with
  | nil =>
      rw [Instruction.expand_nil]
      exact hframes.pure ()
  | cons first rest ih =>
      cases first with
      | step s =>
          rw [Instruction.expand_step_cons, block_cons, block_append]
          exact Accords.bind (accords_step hsteps hcall s) fun _ => ih
      | define name body =>
          rw [Instruction.expand_define_cons, block_cons, block_cons]
          exact Accords.bind (hframes.single_define call' name name body _) fun _ => ih

end Block

/-- Calls with reversed digests accord with calls of the expanded bodies. -/
theorem accords_call (known : Definitions) (room : Nat) :
    ∀ function values, Accords (Machine.Agree Eq)
      (call (ordered settings .reversed) known room function values)
      (call (ordered settings .natural) (known.expand Step.reversing) room function values) := by
  have hframes := framesRelate_order (parallel_agree hsteps) .reversed .natural
  induction room with
  | zero =>
      intro function values
      rw [call, call, Definitions.contains_expand]
      split
      · exact .of_tracks (Tracks.throw _)
      · exact .of_tracks (Tracks.throw _)
  | succ room ih =>
      intro function values
      rw [call, call, Definitions.body?_expand]
      cases known.body? function with
      | none => exact .of_tracks (Tracks.throw _)
      | some body =>
          refine Accords.inside nests_agree ?_ function values
          exact Accords.bind (accords_block hsteps ih body) fun _ => hframes.takeBuffer

end Run

namespace Program

/-- The program with a reversal after every hash, at every level. -/
def reversingDigests (program : Program) : Program :=
  program.expand Step.reversing Step.addsUnscoped_reversing

/-- **Reversed digests are digests that are reversed.**  A run with reversed digests gives
    what the program gives with natural ones and a reversal after every hash, at top level
    and in all bodies: the same bytes or the same fault. -/
theorem run_reversed (program : Program) (settings : Settings) (source : Source)
    (hsteps : settings.maxSteps = none) :
    program.run { settings with digestOrder := .reversed } source =
      program.reversingDigests.run { settings with digestOrder := .natural } source := by
  have hblock := Run.accords_block hsteps
    (Run.accords_call hsteps program.functions settings.callDepthLimit) program.instructions
  have htake :=
    (Run.framesRelate_order (Run.parallel_agree hsteps) .reversed .natural).takeBuffer
  exact (hblock.bind (fun _ => htake) (Machine.start source) (Machine.start source)
    ⟨rfl, rfl, rfl, rfl⟩).1

/-- A block that digests two bytes and then the digest, both in functions. -/
def digestingBlock : List Instruction :=
  [.define "twice"
    [.define "once" [.step (.hash [.argument 1])],
      .step (.call "once" [.argument 1]),
      .step (.hash [])],
    .step (.call "twice" [.read (.bounded 2)])]

/-- The program of that block. -/
def digesting : Program where
  instructions := digestingBlock
  functions := ⟨Instruction.definitions digestingBlock⟩
  valid := by rfl

/-- Both digests are reversed after their hashes. -/
theorem run_reversed_digesting :
    digesting.reversingDigests.instructions =
        [.define "twice"
          [.define "once" [.step (.hash [.argument 1]), .step .reverse],
            .step (.call "once" [.argument 1]),
            .step (.hash []), .step .reverse],
          .step (.call "twice" [.read (.bounded 2)])] ∧
      digesting.run { digestOrder := .reversed } (.ofBytes [97, 98] none) =
        digesting.reversingDigests.run {} (.ofBytes [97, 98] none) ∧
      ∃ result, digesting.run { digestOrder := .reversed } (.ofBytes [97, 98] none) = .ok result :=
  ⟨by rfl, run_reversed digesting {} (.ofBytes [97, 98] none) rfl, _, rfl⟩

end Program

end Attest
