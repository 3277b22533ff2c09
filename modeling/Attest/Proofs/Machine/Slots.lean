import Attest.Proofs.Machine.CallChain
import Attest.Proofs.Machine.Keeping

/-! # Slots that a block leaves alone

    All frames share one memory, so a block may change a slot through any function that
    its calls lead to.  It leaves a slot alone if no step of its own and no step of such a
    function writes the slot (`Definitions.NeverWrites`).  This is what one frame needs
    from its own steps, and what the functions that it calls need for theirs
    (`NeverWrites.of_call`); the rest is induction on how many more calls may nest.

    The bodies of functions that are defined in a block, but are not called, do not
    matter. -/

namespace Attest

/-- A step of the block itself writes the slot. -/
def Instruction.Writes (block : List Instruction) (slot : UInt32) : Prop :=
  ∃ s, step s ∈ block ∧ s.written? = some slot

/-- Neither the block nor a body that a chain of calls leads to from it writes the slot. -/
def Definitions.NeverWrites (known : Definitions) (block : List Instruction) (slot : UInt32) :
    Prop :=
  ∀ chain inner, CallChain known block chain inner → ¬ Instruction.Writes inner slot

/-- A chain of calls from the body of a function is one from a block that calls it. -/
theorem CallChain.of_call {known : Definitions} {block body inner : List Instruction}
    {function : String} {chain : List String} (hcalls : Instruction.Calls block function)
    (hbody : known.body? function = some body) (h : CallChain known body chain inner) :
    CallChain known block (chain ++ [function]) inner := by
  induction h with
  | top => exact .call .top hcalls hbody
  | call _ hinner hcallee ih => exact .call ih hinner hcallee

namespace Definitions.NeverWrites

variable {known : Definitions} {block body : List Instruction} {function : String}
  {slot : UInt32}

theorem not_writes (h : known.NeverWrites block slot) : ¬ Instruction.Writes block slot :=
  h [] block .top

theorem of_call (h : known.NeverWrites block slot) (hcalls : Instruction.Calls block function)
    (hbody : known.body? function = some body) : known.NeverWrites body slot :=
  fun _ inner hchain => h _ inner (.of_call hcalls hbody hchain)

/-- It is enough that the block is among some blocks that lead to none but each other, and
    that none of these writes the slot. -/
theorem of_closed (blocks : List (List Instruction)) (hmem : block ∈ blocks)
    (hclosed : ∀ caller ∈ blocks, ∀ function, Instruction.Calls caller function →
      ∀ body, known.body? function = some body → body ∈ blocks)
    (hwrites : ∀ inner ∈ blocks, ¬ Instruction.Writes inner slot) :
    known.NeverWrites block slot := by
  intro chain inner hchain
  refine hwrites inner ?_
  induction hchain with
  | top => exact hmem
  | call _ hcalls hbody ih => exact hclosed _ ih _ hcalls _ hbody

end Definitions.NeverWrites

namespace Run

variable {settings : Settings} {known : Definitions} {slot : UInt32}

/-- The bytes are those in the slot. -/
def InSlot (slot : UInt32) (bytes : Bytes) (machine : Machine) : Prop :=
  machine.memory.get slot = bytes

section Keeps

variable {bytes : Bytes}

theorem steady_inSlot : Steady settings (InSlot slot bytes) :=
  steady_of_aside fun _ _ _ _ h => h

/-- A frame changes a slot with nothing but its steps. -/
theorem framesRelate_inSlot :
    FramesRelate settings settings fun _ run _ => Keeps (InSlot slot bytes) run :=
  { steady_inSlot.operandsRelate with
    hold := fun _ _ h => h
    tick := steady_inSlot.tick }

/-- Putting bytes into another slot leaves the slot alone. -/
theorem keepsSlot_put {other : UInt32} (hne : slot ≠ other) (value : Bytes) :
    Keeps (InSlot slot bytes) (put other value) := by
  intro machine h
  show (machine.memory.store other value).get slot = bytes
  rw [Memory.get_store_of_ne _ hne]
  exact h

variable {call : String → List Bytes → Run Bytes} {block : List Instruction}

/-- A block leaves a slot alone that none of its own steps writes, if its calls do. -/
theorem keepsSlot_block_of_calls (hwrites : ¬ Instruction.Writes block slot)
    (hcall : ∀ function, Instruction.Calls block function → ∀ values,
      Keeps (InSlot slot bytes) (call function values)) :
    Keeps (InSlot slot bytes) (Run.block settings call block) := by
  refine framesRelate_inSlot.block_of_self call fun s hs => ?_
  exact framesRelate_inSlot.perform_of_self call
    { operands := fun operand _ => steady_inSlot.resolve operand
      order := fun _ _ => rfl
      put := fun other hother value => by
        refine keepsSlot_put ?_ value
        rintro rfl
        exact hwrites ⟨s, hs, hother⟩
      abort := fun _ _ _ => Keeps.throw _
      call := fun function operands heq => hcall function ⟨operands, heq ▸ hs⟩ }

/-- A call leaves a slot alone if the body of its function does. -/
theorem keepsSlot_call (room : Nat) (function : String) (values : List Bytes)
    (h : ∀ body, known.body? function = some body → known.NeverWrites body slot) :
    Keeps (InSlot slot bytes) (Run.call settings known room function values) := by
  refine call_induction (fun function _ run =>
      (∀ body, known.body? function = some body → known.NeverWrites body slot) →
        Keeps (InSlot slot bytes) run)
    (fun _ _ _ => Keeps.throw _) (fun _ _ _ _ => Keeps.throw _) ?_ room function values h
  intro calls ih function values body hbody hspared
  have hblock : Keeps (InSlot slot bytes) (Run.block settings calls body) := by
    refine keepsSlot_block_of_calls (hspared body hbody).not_writes fun callee hcalls values => ?_
    exact ih callee values fun inner => (hspared body hbody).of_call hcalls
  have hbody : Keeps (InSlot slot bytes)
      (Run.block settings calls body >>= fun _ => takeBuffer settings) :=
    Keeps.bind hblock fun _ => steady_inSlot.takeBuffer
  -- the callee works on the caller's memory, and gives it back
  exact hbody.inside (fun _ hm => hm) (fun _ _ _ hcallee => hcallee) function

/-- A block leaves a slot alone that neither it nor a function that it leads to writes. -/
theorem keepsSlot_block (room : Nat) (h : known.NeverWrites block slot) :
    Keeps (InSlot slot bytes) (Run.block settings (Run.call settings known room) block) :=
  keepsSlot_block_of_calls h.not_writes fun function hcalls values =>
    keepsSlot_call room function values fun _ => h.of_call hcalls

end Keeps

section Step

variable {call : String → List Bytes → Run Bytes} {machine after : Machine}

/-- A store puts the bytes that the buffer stands for into the slot. -/
theorem inSlot_of_store {bytes : Bytes} (hbytes : Buffered settings machine bytes)
    (hrun : (single settings call (.step (.store slot))).run machine = (.ok (), after)) :
    InSlot slot bytes after := by
  obtain ⟨-, hperform, -⟩ := run_single_step_eq_ok.mp hrun
  rw [begun_of_no_operands rfl, perform_store_eq] at hperform
  obtain ⟨stored, taken, htaken, hput⟩ := run_bind_eq_ok.mp hperform
  cases hput
  obtain rfl := hbytes.unique (buffered_of_run htaken).1.of_counted
  exact Memory.get_store_self taken.memory slot bytes

/-- A load makes the bytes in the slot the buffer. -/
theorem buffer_of_load {bytes : Bytes} (hslot : InSlot slot bytes machine)
    (hrun : (single settings call (.step (.load slot))).run machine = (.ok (), after)) :
    after.buffer = .held bytes := by
  obtain ⟨-, hperform, -⟩ := run_single_step_eq_ok.mp hrun
  rw [begun_of_no_operands rfl] at hperform
  cases hperform
  exact congrArg Buffer.held hslot

/-- Where a block leaves a slot alone, what is stored in the slot before the block is loaded
    after it. -/
theorem buffer_of_store_load {block : List Instruction} {bytes : Bytes}
    (hblock : Keeps (InSlot slot bytes) (Run.block settings call block))
    (hbytes : Buffered settings machine bytes)
    (hrun : (Run.block settings call
      (.step (.store slot) :: block ++ [.step (.load slot)])).run machine = (.ok (), after)) :
    after.buffer = .held bytes := by
  rw [block_append, block_cons] at hrun
  obtain ⟨_, before, hfront, hload⟩ := run_bind_eq_ok.mp hrun
  obtain ⟨_, stored, hstore, hmiddle⟩ := run_bind_eq_ok.mp hfront
  have hslot : InSlot slot bytes before := hblock.of_run (inSlot_of_store hbytes hstore) hmiddle
  rw [block_cons] at hload
  obtain ⟨_, loaded, hsingle, hend⟩ := run_bind_eq_ok.mp hload
  cases hend
  exact buffer_of_load hslot hsingle

end Step

/-- **A block leaves alone every slot that is not written** by its own steps and by the
    functions that it leads to, whether it succeeds or fails.  So what is stored in such a
    slot before it can be loaded after it. -/
theorem block_leaves_slot (settings : Settings) (known : Definitions) (room : Nat)
    (slot : UInt32) (block : List Instruction) (h : known.NeverWrites block slot) :
    (∀ machine,
      ((Run.block settings (Run.call settings known room) block).run machine).2.memory.get slot =
        machine.memory.get slot) ∧
    ∀ machine bytes after,
      ((bufferBytes settings).run machine).1 = .ok bytes →
      (Run.block settings (Run.call settings known room)
        (.step (.store slot) :: block ++ [.step (.load slot)])).run machine = (.ok (), after) →
      after.buffer = .held bytes := by
  refine ⟨fun machine => ?_, fun machine bytes after hbytes hrun => ?_⟩
  · exact (keepsSlot_block room h).of_run rfl rfl
  · obtain ⟨hbuffered, -⟩ := buffered_of_run (Prod.ext hbytes rfl)
    exact buffer_of_store_load (keepsSlot_block room h) hbuffered hrun

/-- A body that reverses the argument into slot 1. -/
def copyingBody : List Instruction :=
  [.step (.set (.argument 1)), .step .reverse, .step (.store 1)]

/-- A block that calls that function with slot 0.  Of its other function, which would write
    that slot, it has nothing but the definition. -/
def copyingBlock : List Instruction :=
  [.define "copy" copyingBody, .define "spoil" [.step (.store 0)],
    .step (.call "copy" [.slot 0])]

/-- The functions of that block. -/
def copyingFunctions : Definitions :=
  ⟨[("copy", copyingBody), ("spoil", [.step (.store 0)])]⟩

/-- The block leads to nothing but the first of its functions. -/
theorem neverWrites_copyingBlock : copyingFunctions.NeverWrites copyingBlock 0 := by
  refine .of_closed [copyingBlock, copyingBody] List.mem_cons_self ?_ ?_
  · intro caller hcaller function ⟨operands, hcall⟩ body hbody
    rcases List.mem_pair.mp hcaller with rfl | rfl
    · obtain ⟨rfl, -⟩ : function = "copy" ∧ operands = [.slot 0] := by
        simpa [copyingBlock] using hcall
      cases hbody
      exact List.mem_pair.mpr (Or.inr rfl)
    · simp [copyingBody] at hcall
  · rintro inner hinner ⟨s, hs, hslot⟩
    rcases List.mem_pair.mp hinner with rfl | rfl
    · have hcalls : s = .call "copy" [.slot 0] := by simpa [copyingBlock] using hs
      rw [hcalls] at hslot
      exact nomatch hslot
    · have hsteps : s = .set (.argument 1) ∨ s = .reverse ∨ s = .store 1 := by
        simpa [copyingBody] using hs
      rcases hsteps with rfl | rfl | rfl
      · exact nomatch hslot
      · exact nomatch hslot
      · exact absurd hslot (by decide)

/-- Its call fills slot 1 from slot 0, and the buffer that was in slot 0 before it is there
    after it. -/
theorem block_leaves_slot_copying :
    copyingFunctions.NeverWrites copyingBlock 0 ∧
      ∃ after : Machine,
        (block { allowUnboundedReads := true }
          (call { allowUnboundedReads := true } copyingFunctions 1)
          (.step (.store 0) :: copyingBlock ++ [.step (.load 0)])).run
            (Machine.start (.ofBytes [1, 2] none)) = (.ok (), after) ∧
        after.memory.get 1 = [2, 1] ∧ after.buffer = .held [1, 2] := by
  refine ⟨neverWrites_copyingBlock, _, rfl, rfl, ?_⟩
  exact (block_leaves_slot { allowUnboundedReads := true } copyingFunctions 1 0 copyingBlock
    neverWrites_copyingBlock).2 (Machine.start (.ofBytes [1, 2] none)) _ _ rfl rfl

end Run

end Attest
