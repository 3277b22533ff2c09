import Attest.Proofs.Json.Reading
import Attest.Proofs.Program.FirstFault

/-! # How the text of a program is refused

    A text is refused as malformed or as a breach of the stream policy.  Only one thing in a
    text breaks the policy: a token that asks for a negative number of bytes, when it is the
    first thing that offends (`Program.Reaches`).

    * Validation comes after all reading and finds defects only (`malformedOnly_validate`), by
      induction on the block.
    * A text is refused as malformed or for such a token, because the item at the end of the
      way to the fault is (`cases_of_ofText_eq_error`); and a text that comes to such a token
      is refused for it (`ofText_eq_error_of_reaches`).

    The numbers that count are those of a signed word.  A number below them is no integer to
    the reader, so its token has a defect and breaks no policy. -/

namespace Attest

variable {α β : Type}

/-! ## Validation -/

/-- The outcome is no failure, or a defect of the program. -/
def MalformedOnly (outcome : Except Fault α) : Prop :=
  ∀ fault, outcome = .error fault → ∃ path defect, fault = .malformed path defect

theorem malformedOnly_ok (value : α) : MalformedOnly (.ok value) := nofun

theorem malformedOnly_ofDefect (defect : Defect) :
    MalformedOnly (.error (.ofDefect defect) : Except Fault α) := by
  rintro fault h
  cases h
  exact ⟨[], defect, rfl⟩

namespace MalformedOnly

theorem bind {first : Except Fault α} {next : α → Except Fault β} (hfirst : MalformedOnly first)
    (hnext : ∀ value, MalformedOnly (next value)) : MalformedOnly (first >>= next) := by
  intro fault h
  rcases bind_eq_error.mp h with h | ⟨value, -, h⟩
  · exact hfirst fault h
  · exact hnext value fault h

theorem located {outcome : Except Fault α} (h : MalformedOnly outcome) (place : Place) :
    MalformedOnly (outcome.mapError (Fault.located place)) := by
  intro fault hfault
  obtain ⟨cause, hcause, rfl⟩ := mapError_eq_error.mp hfault
  obtain ⟨path, defect, rfl⟩ := h cause hcause
  exact ⟨place :: path, defect, rfl⟩

theorem forM {check : α → Except Fault Unit} (h : ∀ element, MalformedOnly (check element))
    (elements : List α) : MalformedOnly (elements.forM check) := by
  induction elements with
  | nil => exact malformedOnly_ok ()
  | cons element rest ih => exact (h element).bind fun _ => ih

end MalformedOnly

/-- Registering finds defects only. -/
theorem Definitions.malformedOnly_registerBlock (block : List Instruction) :
    ∀ depth known, MalformedOnly (registerBlock depth known block) := by
  induction block using Instruction.block_induction with
  | nil =>
      intro depth known
      rw [registerBlock]
      exact malformedOnly_ok known
  | step s rest ih =>
      intro depth known
      rw [registerBlock, register]
      exact (malformedOnly_ok known).bind (ih depth)
  | define name body rest body_ih ih =>
      intro depth known
      rw [registerBlock, register]
      refine MalformedOnly.bind ?_ (ih depth)
      split
      · exact malformedOnly_ofDefect _
      · split
        · exact malformedOnly_ofDefect _
        · split
          · exact malformedOnly_ofDefect _
          · exact body_ih (depth + 1) _

theorem Operand.malformedOnly_checkScope (inBody : Bool) (operand : Operand) :
    MalformedOnly (operand.checkScope inBody) := by
  unfold checkScope
  split
  · split
    · exact malformedOnly_ofDefect _
    · split
      · exact malformedOnly_ok ()
      · exact malformedOnly_ofDefect _
  · exact malformedOnly_ok ()

theorem Step.malformedOnly_checkScope (known : Definitions) (inBody : Bool) (s : Step) :
    MalformedOnly (s.checkScope known inBody) := by
  have hoperands := MalformedOnly.forM (Operand.malformedOnly_checkScope inBody) s.operands
  cases s with
  | call function arguments =>
      dsimp only [checkScope]
      split
      · exact hoperands
      · exact malformedOnly_ofDefect _
  | _ => exact hoperands

/-- Checking the scope finds defects only. -/
theorem Instruction.malformedOnly_checkBlockScope (known : Definitions)
    (block : List Instruction) :
    ∀ inBody index, MalformedOnly (checkBlockScope known inBody index block) := by
  induction block using block_induction with
  | nil =>
      intro inBody index
      rw [checkBlockScope]
      exact malformedOnly_ok ()
  | step s rest ih =>
      intro inBody index
      rw [checkBlockScope, checkScope]
      exact ((s.malformedOnly_checkScope known inBody).located _).bind fun _ => ih inBody _
  | define name body rest body_ih ih =>
      intro inBody index
      rw [checkBlockScope, checkScope]
      exact (((body_ih true 0).located _).located _).bind fun _ => ih inBody _

/-- Validation finds defects only. -/
theorem malformedOnly_validate (block : List Instruction) : MalformedOnly (validate block) :=
  (Definitions.malformedOnly_registerBlock block 0 .empty).bind fun known =>
    (Instruction.malformedOnly_checkBlockScope known block false 0).bind fun _ =>
      malformedOnly_ok known

namespace Program

open Operand (NegativeRead)
open Instruction (Way)

theorem malformedOnly_ofInstructions (block : List Instruction) :
    MalformedOnly (ofInstructions block) := by
  intro fault h
  unfold ofInstructions at h
  split at h
  · exact nomatch h
  · next cause hcause =>
      cases h
      exact malformedOnly_validate block fault hcause

/-! ## Texts -/

/-- Reading a text comes to a token: all instructions before the one with the token can be
    read, and this one takes operands, of which those before the token can be read. -/
def Reaches (text token : String) : Prop :=
  ∃ (way : Way) (left : Nat) (item : Json), Json.read? text = some (.array (way.fill item)) ∧
    way.Clear mostNested left ∧ Instruction.Reaches item token

/-- The first thing that offends in a text is a token that asks for a negative number of bytes,
    and the number is one of these. -/
def FirstOffends (text : String) (counts : Int → Prop) : Prop :=
  ∃ token count, Reaches text token ∧ NegativeRead token count ∧ counts count

/-- A text that comes to a token which is refused is refused for the token. -/
theorem ofText_eq_error_of_reaches {text token : String} (hreaches : Reaches text token)
    {fault : Fault} (h : Operand.ofToken token = .error fault) :
    ∃ path, ofText text = .error (fault.under path) := by
  obtain ⟨way, left, item, htext, hclear, hitem⟩ := hreaches
  have hblock := Instruction.readBlock_fill_eq_error hclear (hitem.readInstruction_eq_error h _)
  rw [ofText, htext]
  exact ⟨way.path, bind_eq_error.mpr (Or.inl hblock)⟩

/-- A text is refused as malformed, or for a negative number of bytes that it comes to. -/
theorem cases_of_ofText_eq_error {text : String} {fault : Fault}
    (h : ofText text = .error fault) :
    (∃ path defect, fault = .malformed path defect) ∨
      ∃ token count path, Reaches text token ∧ NegativeRead token count ∧
        Decimal.FitsWord count ∧ fault = .streamPolicy path (.negativeLength count) := by
  rw [ofText] at h
  split at h
  · cases h
    exact Or.inl ⟨[], _, rfl⟩
  · next value hvalue =>
      rcases bind_eq_error.mp h with h | ⟨block, -, h⟩
      · cases value with
        | array items =>
            obtain ⟨way, left, item, cause, rfl, hclear, hshaped, hcause, rfl⟩ :=
              Instruction.exists_way_of_readBlock_eq_error h
            rcases (Instruction.blamesToken_of_readInstruction hshaped hcause).cases with
              ⟨path, defect, rfl⟩ | ⟨token, count, htoken, hcount, hfits, rfl⟩
            · exact Or.inl ⟨_, defect, Fault.under_malformed _ _ _⟩
            · exact Or.inr ⟨token, count, _, ⟨way, left, item, hvalue, hclear, htoken⟩, hcount,
                hfits, Fault.under_streamPolicy _ _ _⟩
        -- no other value is a block
        | _ =>
            rw [Instruction.readBlock_eq] at h
            cases h
            exact Or.inl ⟨[], _, rfl⟩
      · exact Or.inl (malformedOnly_ofInstructions block fault h)

/-- **REFUSED TEXTS ARE MALFORMED OR BREAK THE POLICY**: a text that is refused breaks the
    stream policy if the first thing that offends in it is a token that asks for a negative
    number of bytes, which fits a signed word; in every other case it is malformed. -/
theorem ofText_refused_as (text : String) (fault : Fault) (h : ofText text = .error fault) :
    (FirstOffends text Decimal.FitsWord →
      ∃ path count, fault = .streamPolicy path (.negativeLength count)) ∧
    (¬ FirstOffends text Decimal.FitsWord → ∃ path defect, fault = .malformed path defect) := by
  constructor
  · rintro ⟨token, count, hreaches, hcount, hfits⟩
    obtain ⟨path, hfault⟩ := ofText_eq_error_of_reaches hreaches (hcount.ofToken_eq hfits)
    exact ⟨path ++ [], count,
      (Except.error.inj (h.symm.trans hfault)).trans (Fault.under_streamPolicy _ _ _)⟩
  · intro hother
    rcases cases_of_ofText_eq_error h with
      hdefect | ⟨token, count, path, hreaches, hcount, hfits, -⟩
    · exact hdefect
    · exact absurd ⟨token, count, hreaches, hcount, hfits⟩ hother

/-- A block of one instruction, which replaces the buffer by what a token stands for. -/
def setting (token : String) : Json :=
  .array [.array [.string "op_set", .string token]]

theorem read?_setting (token : String) :
    Json.read? (setting token).compact = some (setting token) := by
  have hplain : (setting token).Plain := by
    refine .array _ (List.forall_mem_singleton.mpr (.array _ (List.forall_mem_cons.mpr ?_)))
    exact ⟨.string _, List.forall_mem_singleton.mpr (.string token)⟩
  have hdepth : (setting token).depth = 2 := by rfl
  exact (Json.read?_compact hplain).trans (if_pos (hdepth ▸ by decide))

/-- Reading the text of such a block comes to the token. -/
theorem reaches_setting (token : String) : Reaches (setting token).compact token :=
  ⟨.here [] [], mostNested, _, read?_setting token, .here [] ⟨[], rfl⟩,
    .step ⟨.single (by decide) _, Operand.reaches_singleton token⟩⟩

/-- The least number of a signed word breaks the policy. -/
theorem ofText_refused_as_least :
    ∃ fault, ofText (setting "r:-9223372036854775808").compact = .error fault ∧
      FirstOffends (setting "r:-9223372036854775808").compact Decimal.FitsWord ∧
      ∃ path count, fault = .streamPolicy path (.negativeLength count) := by
  have hread : NegativeRead "r:-9223372036854775808" (-9223372036854775808) :=
    ⟨_, rfl, Decimal.int?_eq_some_iff.mp rfl, by decide⟩
  have hfits : Decimal.FitsWord (-9223372036854775808) := by decide
  have hreaches := reaches_setting "r:-9223372036854775808"
  obtain ⟨path, hfault⟩ := ofText_eq_error_of_reaches hreaches (hread.ofToken_eq hfits)
  have hoffends : FirstOffends (setting "r:-9223372036854775808").compact Decimal.FitsWord :=
    ⟨_, _, hreaches, hread, hfits⟩
  exact ⟨_, hfault, hoffends, (ofText_refused_as _ _ hfault).1 hoffends⟩

/-- The number below it is malformed, so not every negative number of bytes breaks the
    policy. -/
theorem not_forall_negativeRead_streamPolicy :
    ¬ ∀ text fault, ofText text = .error fault →
      (FirstOffends text (fun _ => True) → ∃ path breach, fault = .streamPolicy path breach) ∧
      (¬ FirstOffends text (fun _ => True) → ∃ path defect, fault = .malformed path defect) := by
  intro hall
  have hread : NegativeRead "r:-9223372036854775809" (-9223372036854775809) :=
    ⟨_, rfl, Decimal.int?_eq_some_iff.mp rfl, by decide⟩
  have htoken : Operand.ofToken "r:-9223372036854775809" =
      .error (.ofDefect (.notAnInteger "r:-9223372036854775809")) := by rfl
  have hreaches := reaches_setting "r:-9223372036854775809"
  obtain ⟨path, hfault⟩ := ofText_eq_error_of_reaches hreaches htoken
  obtain ⟨_, _, hbreach⟩ := (hall _ _ hfault).1 ⟨_, _, hreaches, hread, trivial⟩
  rw [Fault.ofDefect, Fault.under_malformed] at hbreach
  exact nomatch hbreach

end Program

end Attest
