import Attest.Proofs.Machine.Confinement
import Attest.Proofs.Machine.Tracking
import Mathlib.Data.List.Chain
import Mathlib.Logic.Relation

/-! # The chain of calls behind a fault

    Whatever happens in a run happens at the end of a chain of calls: a step of the top
    level calls a function, a step of its body calls the next one, and so on
    (`CallChain`).  Only two kinds of fault tell about the chain.

    * A composition fails in the last body of a chain.  On its way out, the abort records
      the functions of the chain, innermost first.
    * A call is refused when the chain before it has as many functions as may nest.

    One frame can fail by itself or with the fault of a call (`RaisedBy`); the chain of
    the callee's fault is one longer (`Fault.Origin.leaving`), and so every fault has its
    origin by induction on the calls that may nest (`origin_of_block`).

    In a chain of calls every function leads to those after it.  Where no function leads to
    itself, the functions of a chain are therefore different (`CallChain.nodup`). -/

namespace Attest

namespace Instruction

/-- A step of the block itself is a composition. -/
def Composes (block : List Instruction) : Prop :=
  ∃ template, step (.compose template) ∈ block

/-- A step of the block itself calls the function. -/
def Calls (block : List Instruction) (function : String) : Prop :=
  ∃ operands, step (.call function operands) ∈ block

end Instruction

open Instruction (Composes)

namespace Definitions

/-- The body of one function calls another function. -/
def Calls (known : Definitions) (caller callee : String) : Prop :=
  ∃ body, known.body? caller = some body ∧ Instruction.Calls body callee

/-- No function leads to itself through calls in bodies. -/
def Acyclic (known : Definitions) : Prop :=
  ∀ function, ¬ Relation.TransGen known.Calls function function

/-- Calls that only lead to functions of a lower rank do not lead back. -/
theorem acyclic_of_rank {known : Definitions} (rank : String → Nat)
    (h : ∀ caller callee, known.Calls caller callee → rank callee < rank caller) :
    known.Acyclic := by
  have hlower : ∀ caller callee, Relation.TransGen known.Calls caller callee →
      rank callee < rank caller := by
    intro caller callee hpath
    induction hpath with
    | single hcall => exact h _ _ hcall
    | tail _ hcall ih => exact Nat.lt_trans (h _ _ hcall) ih
  exact fun function hcycle => Nat.lt_irrefl _ (hlower function function hcycle)

end Definitions

/-! ## Chains of calls -/

/-- The functions, innermost first, are called one in the body of the other, the outermost
    in the block; the last body is that of the innermost. -/
inductive CallChain (known : Definitions) (top : List Instruction) :
    List String → List Instruction → Prop
  | top : CallChain known top [] top
  | call {chain : List String} {inner body : List Instruction} {function : String} :
      CallChain known top chain inner → Instruction.Calls inner function →
      known.body? function = some body → CallChain known top (function :: chain) body

namespace CallChain

variable {known : Definitions} {top inner : List Instruction} {chain : List String}

/-- Without calls the last body is the block itself. -/
theorem eq_top (h : CallChain known top [] inner) : inner = top := by
  cases h with
  | top => rfl

/-- The last body is that of the innermost function. -/
theorem body?_head (h : CallChain known top chain inner) :
    ∀ function ∈ chain.head?, known.body? function = some inner := by
  cases h with
  | top => exact nofun
  | call _ _ hbody =>
      rintro _ ⟨⟩
      exact hbody

/-- Every function is called in the body of the next one. -/
theorem linked (h : CallChain known top chain inner) :
    chain.IsChain fun callee caller => known.Calls caller callee := by
  induction h with
  | top => exact .nil
  | call hchain hcalls _ ih =>
      rw [List.isChain_cons]
      exact ⟨fun caller hcaller => ⟨_, hchain.body?_head caller hcaller, hcalls⟩, ih⟩

/-- The outermost function is called in the block. -/
theorem outermost (h : CallChain known top chain inner) :
    ∀ function ∈ chain.getLast?, Instruction.Calls top function := by
  induction h with
  | top => exact nofun
  | @call chain inner _ function hchain hcalls _ ih =>
      cases chain with
      | nil =>
          rintro _ ⟨⟩
          rwa [hchain.eq_top] at hcalls
      | cons caller rest =>
          rw [List.getLast?_cons_cons]
          exact ih

/-- Every function of the chain is defined. -/
theorem contains (h : CallChain known top chain inner) :
    ∀ function ∈ chain, known.contains function = true := by
  induction h with
  | top => exact nofun
  | call _ _ hbody ih =>
      refine List.forall_mem_cons.mpr ⟨?_, ih⟩
      exact Option.isSome_iff_exists.mpr ⟨_, hbody⟩

/-- The functions of a chain are different, where no function leads to itself. -/
theorem nodup (h : CallChain known top chain inner) (hacyclic : known.Acyclic) :
    chain.Nodup := by
  -- in a chain, whatever stands further on leads to what stands before
  have hleads : chain.Pairwise fun callee caller =>
      Relation.TransGen known.Calls caller callee := by
    have hsteps : chain.IsChain fun callee caller => Relation.TransGen known.Calls caller callee :=
      h.linked.imp fun _ _ hcalls => .single hcalls
    have : Trans (fun callee caller => Relation.TransGen known.Calls caller callee)
        (fun callee caller => Relation.TransGen known.Calls caller callee)
        (fun callee caller => Relation.TransGen known.Calls caller callee) :=
      ⟨fun hfirst hsecond => hsecond.trans hfirst⟩
    exact hsteps.pairwise
  refine hleads.imp fun hcalls heq => ?_
  subst heq
  exact hacyclic _ hcalls

/-- A chain is no longer than the table, where no function leads to itself. -/
theorem length_le_size (h : CallChain known top chain inner) (hacyclic : known.Acyclic) :
    chain.length ≤ known.size := by
  have hlisted : chain ⊆ known.entries.map Prod.fst := fun function hfunction =>
    Definitions.contains_eq_true_iff.mp (h.contains function hfunction)
  have hle := (h.nodup hacyclic).length_le_of_subset hlisted
  rwa [List.length_map] at hle

end CallChain

/-! ## Faults and their origins -/

namespace Fault

/-- The fault is neither an abort nor a refused call. -/
structure IsPlain (fault : Fault) : Prop where
  isAbort : fault.isAbort = false
  ne_callDepth : ∀ limit function, fault ≠ .callDepth limit function

theorem isPlain_ofDefect (defect : Defect) : (ofDefect defect).IsPlain :=
  ⟨rfl, nofun⟩

theorem IsPrimitive.isPlain {fault : Fault} (h : fault.IsPrimitive) : fault.IsPlain := by
  cases h <;> exact ⟨rfl, nofun⟩

/-- Only aborts record what they leave. -/
theorem IsPlain.leaving {fault : Fault} (h : fault.IsPlain) (function : String) :
    fault.leaving function = fault := by
  cases fault with
  | abort reason callStack => exact nomatch h.isAbort
  | _ => rfl

/-- Where a fault comes from, in a frame to which a chain of calls has led and in which so
    many calls may nest: it is plain, or the chain goes on to the composition that failed
    or to the call that was refused.  An abort has recorded by how much it goes on. -/
inductive Origin (known : Definitions) (top : List Instruction) (chain : List String)
    (room : Nat) : Fault → Prop
  | plain {fault : Fault} : fault.IsPlain → Origin known top chain room fault
  | composition {more : List String} {inner : List Instruction} {reason : AbortReason} :
      CallChain known top (more ++ chain) inner → more.length ≤ room → Composes inner →
      Origin known top chain room (.abort reason more)
  | refusal {more : List String} {body : List Instruction} {limit : Nat} {function : String} :
      CallChain known top (function :: (more ++ chain)) body → more.length = room →
      Origin known top chain room (.callDepth limit function)

/-- Leaving a function, the fault has its origin where it had it in the function. -/
theorem Origin.leaving {known : Definitions} {top : List Instruction} {chain : List String}
    {room : Nat} {function : String} {fault : Fault}
    (h : Origin known top (function :: chain) room fault) :
    Origin known top chain (room + 1) (fault.leaving function) := by
  have hmore : ∀ more : List String,
      more ++ function :: chain = (more ++ [function]) ++ chain := by
    intro more
    rw [List.append_assoc, List.singleton_append]
  cases h with
  | plain hplain =>
      rw [hplain.leaving]
      exact .plain hplain
  | @composition more inner reason hchain hlength hcomposes =>
      rw [hmore] at hchain
      refine .composition hchain ?_ hcomposes
      rw [List.length_append, List.length_singleton]
      exact Nat.succ_le_succ hlength
  | @refusal more body limit callee hchain hlength =>
      rw [hmore] at hchain
      refine .refusal hchain ?_
      rw [List.length_append, List.length_singleton, hlength]

end Fault

namespace Run

variable {settings : Settings} {call : String → List Bytes → Run Bytes}
  {instructions : List Instruction}

/-- The faults that a block can end in: plain ones, the abort of a composition in it, and
    the faults of the calls in it. -/
inductive RaisedBy (call : String → List Bytes → Run Bytes) (block : List Instruction) :
    Fault → Prop
  | plain {fault : Fault} : fault.IsPlain → RaisedBy call block fault
  | composition (reason : AbortReason) : Composes block → RaisedBy call block (.abort reason [])
  | call {function : String} {values : List Bytes} {machine : Machine} {fault : Fault} :
      Instruction.Calls block function →
      ((call function values).run machine).1 = .error fault → RaisedBy call block fault

theorem isPlain_of_supplied {arguments : Option (List Bytes)} {index : Nat} {fault : Fault}
    (h : supplied arguments index = .error fault) : fault.IsPlain := by
  obtain ⟨defect, rfl⟩ := defect_of_supplied h
  exact Fault.isPlain_ofDefect defect

theorem confining_raisedBy :
    Confining (fun _ => True) (RaisedBy call instructions) where
  aside := fun _ _ _ _ _ h => h
  primitive := fun _ h => .plain h.isPlain

/-- A block ends in a fault that it can raise. -/
theorem raisedBy_of_block {machine : Machine} {fault : Fault}
    (h : ((block settings call instructions).run machine).1 = .error fault) :
    RaisedBy call instructions fault := by
  have hblock : Confines (fun _ => True) (RaisedBy call instructions)
      (block settings call instructions) fun _ => True := by
    refine confining_raisedBy.block fun s hs => confining_raisedBy.perform ?_ ?_ ?_
    · exact fun _ _ _ _ _ hfault => .plain (isPlain_of_supplied hfault)
    · rintro template rfl reason
      exact .composition reason ⟨template, hs⟩
    · rintro function operands rfl values _
      exact Confines.of_errors fun _ _ hfault => .call ⟨operands, hs⟩ hfault
  exact hblock.failed_of_error trivial h

/-- Taking the buffer fails plainly. -/
theorem isPlain_of_takeBuffer {machine : Machine} {fault : Fault}
    (h : ((takeBuffer settings).run machine).1 = .error fault) : fault.IsPlain := by
  have hplain : Confining (fun _ => True) Fault.IsPlain :=
    ⟨fun _ _ _ _ _ hm => hm, fun _ hfault => hfault.isPlain⟩
  exact hplain.takeBuffer.failed_of_error trivial h

section Origin

variable {known : Definitions} {top : List Instruction}

/-- The bodies that a call reaches from here fail with faults that have an origin, if any
    call may nest. -/
def OriginBelow (settings : Settings) (known : Definitions) (top : List Instruction)
    (chain : List String) (room : Nat) : Prop :=
  ∀ less, room = less + 1 → ∀ function body machine fault,
    CallChain known top (function :: chain) body →
    ((block settings (Run.call settings known less) body).run machine).1 = .error fault →
    fault.Origin known top (function :: chain) less

variable {inner : List Instruction} {chain : List String} {room : Nat} {machine : Machine}
  {fault : Fault} (hchain : CallChain known top chain inner)
  (hbelow : OriginBelow settings known top chain room)

include hchain hbelow

/-- A call fails as the chain goes on. -/
theorem origin_of_call {function : String} {values : List Bytes}
    (hcalls : Instruction.Calls inner function)
    (h : ((Run.call settings known room function values).run machine).1 = .error fault) :
    fault.Origin known top chain room := by
  cases hbody : known.body? function with
  | none =>
      rw [call_of_undefined hbody] at h
      cases h
      exact .plain (Fault.isPlain_ofDefect _)
  | some body =>
      have hlonger : CallChain known top (function :: chain) body := .call hchain hcalls hbody
      cases room with
      | zero =>
          rw [call_zero_of_defined hbody] at h
          cases h
          have hrefused : CallChain known top (function :: ([] ++ chain)) body := hlonger
          exact .refusal hrefused rfl
      | succ less =>
          rw [call_succ_of_defined hbody, run_inside] at h
          obtain ⟨cause, hcause, rfl⟩ := mapError_eq_error.mp h
          refine Fault.Origin.leaving ?_
          rcases error_of_run_bind hcause with hblock | ⟨_, after, htake⟩
          · exact hbelow less rfl function body _ cause hlonger hblock
          · exact .plain (isPlain_of_takeBuffer htake)

theorem origin_of_block_below
    (h : ((block settings (Run.call settings known room) inner).run machine).1 = .error fault) :
    fault.Origin known top chain room := by
  cases raisedBy_of_block h with
  | plain hplain => exact .plain hplain
  | composition reason hcomposes =>
      exact .composition (show CallChain known top ([] ++ chain) inner from hchain)
        (Nat.zero_le _) hcomposes
  | call hcalls hfault => exact origin_of_call hchain hbelow hcalls hfault

omit hbelow in
/-- **Every fault has an origin.**  In a frame to which a chain of calls has led, a block
    fails plainly, or as the chain goes on. -/
theorem origin_of_block
    (h : ((block settings (Run.call settings known room) inner).run machine).1 = .error fault) :
    fault.Origin known top chain room := by
  induction room generalizing chain inner machine fault with
  | zero => exact origin_of_block_below hchain nofun h
  | succ room ih =>
      refine origin_of_block_below hchain ?_ h
      rintro _ ⟨⟩ function body callee cause hlonger hblock
      exact ih hlonger hblock

end Origin

end Run

namespace Program

/-- The fault of a run has its origin in a chain of calls from the top level. -/
theorem origin_of_run {program : Program} {settings : Settings} {source : Source}
    {fault : Fault} (h : program.run settings source = .error fault) :
    fault.Origin program.functions program.instructions [] settings.callDepthLimit := by
  rcases Run.error_of_run_bind h with hblock | ⟨_, after, htake⟩
  · exact Run.origin_of_block .top hblock
  · exact .plain (Run.isPlain_of_takeBuffer htake)

/-! ## Aborts -/

/-- **The call stack of an abort is the chain of calls** that led to the composition that
    failed, innermost function first.  Without calls the composition is at top level, and
    otherwise in the body of the innermost function.  Other faults have no call stack. -/
theorem callStack_of_run (program : Program) (settings : Settings) (source : Source)
    (fault : Fault) (h : program.run settings source = .error fault) :
    (∀ reason callStack, fault = .abort reason callStack →
      callStack.length ≤ settings.callDepthLimit ∧
      (callStack = [] → Composes program.instructions) ∧
      (∀ function ∈ callStack.head?,
        ∃ body, program.functions.body? function = some body ∧ Composes body) ∧
      (callStack.IsChain fun callee caller => program.functions.Calls caller callee) ∧
      ∀ function ∈ callStack.getLast?, Instruction.Calls program.instructions function) ∧
    (fault.isAbort = false → fault.callStack = []) := by
  refine ⟨?_, fun hplain => ?_⟩
  · rintro reason callStack rfl
    cases origin_of_run h with
    | plain hplain => exact nomatch hplain.isAbort
    | composition hchain hlength hcomposes =>
        rw [List.append_nil] at hchain
        refine ⟨hlength, ?_, ?_, hchain.linked, hchain.outermost⟩
        · rintro rfl
          rwa [hchain.eq_top] at hcomposes
        · exact fun function hhead => ⟨_, hchain.body?_head function hhead, hcomposes⟩
  · cases fault with
    | abort reason callStack => exact nomatch hplain
    | _ => rfl

/-- A block that calls a function whose body calls the one that fails to compose. -/
def failingBlock : List Instruction :=
  [.define "outer" [.step (.call "inner" [])],
    .define "inner" [.step (.set (.literal [1])), .step (.compose (.literal []))],
    .step (.call "outer" [])]

/-- The program of that block. -/
def failing : Program where
  instructions := failingBlock
  functions := ⟨Instruction.definitions failingBlock⟩
  valid := by rfl

/-- The abort of `failing` has left both functions, and one calls the other. -/
theorem callStack_of_run_failing :
    failing.run {} (.ofBytes [] none) =
        .error (.abort (.composition (.tooLong 1 0)) ["inner", "outer"]) ∧
      failing.functions.Calls "outer" "inner" ∧
      Instruction.Calls failing.instructions "outer" := by
  have hrun : failing.run {} (.ofBytes [] none) =
      .error (.abort (.composition (.tooLong 1 0)) ["inner", "outer"]) := by rfl
  obtain ⟨-, -, -, hlinked, houtermost⟩ :=
    (callStack_of_run failing {} (.ofBytes [] none) _ hrun).1 _ _ rfl
  exact ⟨hrun, (List.isChain_cons_cons.mp hlinked).1, houtermost _ rfl⟩

/-! ## Refused calls -/

/-- **Only recursion and long chains are refused.**  Where no function leads to itself, and
    as many calls may nest as there are functions, no run ends with a refused call. -/
theorem run_ne_callDepth (program : Program) (settings : Settings) (source : Source)
    (hacyclic : program.functions.Acyclic)
    (hsize : program.functions.size ≤ settings.callDepthLimit) :
    ∀ limit function, program.run settings source ≠ .error (.callDepth limit function) := by
  intro limit function h
  cases origin_of_run h with
  | plain hplain => exact hplain.ne_callDepth _ _ rfl
  | refusal hchain hlength =>
      -- the chain with the refused call has one function more than may nest
      have hle := hchain.length_le_size hacyclic
      rw [List.append_nil, List.length_cons, hlength] at hle
      omega

/-- In `mirroring` one function calls the other, so two calls that may nest are enough. -/
theorem run_ne_callDepth_mirroring :
    mirroring.functions.Acyclic ∧ mirroring.functions.size = 2 ∧
      ∀ source limit function,
        mirroring.run { maxCallDepth := 2 } source ≠ .error (.callDepth limit function) := by
  have hacyclic : mirroring.functions.Acyclic := by
    refine Definitions.acyclic_of_rank (fun name => if name = "mirror" then 1 else 0) ?_
    rintro caller callee ⟨body, hbody, operands, hcall⟩
    have hdefined := mem_definitions_of_body? hbody
    simp only [mirroring, mirroringBlock, Instruction.definitions_define_cons,
      Instruction.definitions_step_cons, Instruction.definitions_nil, List.append_nil,
      List.mem_cons, List.not_mem_nil, or_false, Prod.mk.injEq] at hdefined
    rcases hdefined with ⟨rfl, rfl⟩ | ⟨rfl, rfl⟩
    · simp at hcall
      rw [hcall.1]
      decide
    · simp at hcall
  exact ⟨hacyclic, rfl, fun source =>
    run_ne_callDepth mirroring { maxCallDepth := 2 } source hacyclic (by decide)⟩

end Program

end Attest
