import Attest.Proofs.Sequence
import Attest.Program.Basic
import Mathlib.Data.List.Nodup

/-! # What registering asks for

    `Instruction.definitions` lists the definitions in a block at every level, and
    `Instruction.nesting` counts the levels.  Registering goes over a block with a table
    that grows on the way, but what it asks for can be said of the block as it stands
    (`registerBlock_eq_ok_iff`): the definitions are named, there is room for their
    levels, and the table with all of them has every name once
    (`Definitions.Distinct`).

    A table that has every name once supplies exactly its entries
    (`Definitions.Distinct.body?_eq_some_iff`). -/

namespace Attest

namespace Instruction

mutual

/-- The definition that an instruction is, and those in its body, in the order in
    which they begin. -/
def ownDefinitions : Instruction → List (String × List Instruction)
  | step _ => []
  | define name body => (name, body) :: definitions body

/-- The definitions in a block at every level. -/
def definitions : List Instruction → List (String × List Instruction)
  | [] => []
  | instruction :: rest => ownDefinitions instruction ++ definitions rest

end

@[simp] theorem definitions_nil : definitions [] = [] := by
  simp only [definitions]

@[simp] theorem definitions_step_cons (s : Step) (rest : List Instruction) :
    definitions (step s :: rest) = definitions rest := by
  simp only [definitions, ownDefinitions, List.nil_append]

@[simp] theorem definitions_define_cons (name : String) (body rest : List Instruction) :
    definitions (define name body :: rest) =
      (name, body) :: (definitions body ++ definitions rest) := by
  simp only [definitions, ownDefinitions, List.cons_append]

/-- The names that are defined in a block at every level. -/
def definedNames (block : List Instruction) : List String :=
  (definitions block).map Prod.fst

@[simp] theorem definedNames_nil : definedNames [] = [] := by
  rw [definedNames, definitions_nil, List.map_nil]

@[simp] theorem definedNames_step_cons (s : Step) (rest : List Instruction) :
    definedNames (step s :: rest) = definedNames rest := by
  rw [definedNames, definitions_step_cons, definedNames]

@[simp] theorem definedNames_define_cons (name : String) (body rest : List Instruction) :
    definedNames (define name body :: rest) =
      name :: (definedNames body ++ definedNames rest) := by
  rw [definedNames, definitions_define_cons, List.map_cons, List.map_append]
  rfl

mutual

/-- The levels of definitions that an instruction is. -/
def levels : Instruction → Nat
  | step _ => 0
  | define _ body => nesting body + 1

/-- The levels of definitions in a block. -/
def nesting : List Instruction → Nat
  | [] => 0
  | instruction :: rest => max (levels instruction) (nesting rest)

end

@[simp] theorem nesting_nil : nesting [] = 0 := by
  simp only [nesting]

@[simp] theorem nesting_step_cons (s : Step) (rest : List Instruction) :
    nesting (step s :: rest) = nesting rest := by
  simp only [nesting, levels, Nat.zero_max]

@[simp] theorem nesting_define_cons (name : String) (body rest : List Instruction) :
    nesting (define name body :: rest) = max (nesting body + 1) (nesting rest) := by
  simp only [nesting, levels]

end Instruction

open Instruction (definitions definedNames nesting)

namespace Definitions

/-! ## Tables -/

/-- The table with more functions. -/
def extend (known : Definitions) (more : List (String × List Instruction)) : Definitions :=
  ⟨known.entries ++ more⟩

@[simp] theorem extend_nil (known : Definitions) : known.extend [] = known := by
  rw [extend, List.append_nil]

/-- Extending the empty table gives the table of what is added. -/
@[simp] theorem extend_empty (more : List (String × List Instruction)) :
    empty.extend more = ⟨more⟩ := rfl

theorem extend_cons (known : Definitions) (name : String) (body : List Instruction)
    (more : List (String × List Instruction)) :
    known.extend ((name, body) :: more) = (known.add name body).extend more := by
  rw [extend, extend, add, List.append_assoc, List.singleton_append]

theorem extend_append (known : Definitions) (more further : List (String × List Instruction)) :
    known.extend (more ++ further) = (known.extend more).extend further := by
  rw [extend, extend, extend, List.append_assoc]

/-- A body in the table belongs to one of its entries. -/
theorem mem_entries_of_body? {known : Definitions} {name : String} {body : List Instruction}
    (h : known.body? name = some body) : (name, body) ∈ known.entries := by
  obtain ⟨before, after, hsplit, -⟩ := List.lookup_eq_some_iff.mp h
  rw [hsplit]
  simp

/-- A table with every body changed supplies the changed bodies. -/
theorem body?_map (change : List Instruction → List Instruction) (known : Definitions)
    (name : String) :
    body? ⟨known.entries.map fun d => (d.1, change d.2)⟩ name =
      (known.body? name).map change := by
  obtain ⟨entries⟩ := known
  show (entries.map _).lookup name = (entries.lookup name).map _
  induction entries with
  | nil => rfl
  | cons entry rest ih =>
      rw [List.map_cons, List.lookup_cons, List.lookup_cons, ih]
      split <;> rfl

/-- A function is defined when the table lists its name. -/
theorem contains_eq_true_iff {known : Definitions} {name : String} :
    known.contains name = true ↔ name ∈ known.entries.map Prod.fst := by
  rw [contains, body?, List.lookup_isSome_iff, List.mem_map]
  exact exists_congr fun entry => and_congr_right fun _ =>
    ⟨fun h => (beq_iff_eq.mp h).symm, fun h => beq_iff_eq.mpr h.symm⟩

/-- The table has every name once. -/
def Distinct (known : Definitions) : Prop :=
  (known.entries.map Prod.fst).Nodup

theorem distinct_empty : empty.Distinct := List.nodup_nil

/-- A table has every name once when one with more functions has. -/
theorem Distinct.of_extend {known : Definitions} {more : List (String × List Instruction)}
    (h : (known.extend more).Distinct) : known.Distinct := by
  rw [Distinct, extend, List.map_append] at h
  exact List.Nodup.of_append_left h

/-- A further name has to be new to the table. -/
theorem distinct_add_iff {known : Definitions} {name : String} {body : List Instruction} :
    (known.add name body).Distinct ↔ known.Distinct ∧ known.contains name = false := by
  rw [Distinct, add, List.map_append, List.map_cons, List.map_nil, ← List.concat_eq_append,
    List.nodup_concat, ← contains_eq_true_iff, Bool.not_eq_true]
  exact and_comm

/-- A table that has every name once supplies exactly its entries. -/
theorem Distinct.body?_eq_some_iff {known : Definitions} (h : known.Distinct) {name : String}
    {body : List Instruction} :
    known.body? name = some body ↔ (name, body) ∈ known.entries := by
  refine ⟨mem_entries_of_body?, fun hmem => ?_⟩
  obtain ⟨other, hother⟩ : ∃ other, known.body? name = some other :=
    Option.isSome_iff_exists.mp
      (contains_eq_true_iff.mpr (List.mem_map.mpr ⟨(name, body), hmem, rfl⟩))
  have hsame := List.inj_on_of_nodup_map h (mem_entries_of_body? hother) hmem rfl
  rw [hother, (Prod.mk.inj hsame).2]

/-! ## Registering -/

/-- A definition is registered where a further level is allowed, under a name that
    is neither empty nor taken; then its body is registered. -/
theorem register_define_eq_ok {depth : Nat} {known after : Definitions} {name : String}
    {body : List Instruction} :
    register depth known (.define name body) = .ok after ↔
      depth < mostNested ∧ name ≠ "" ∧ known.contains name = false ∧
        registerBlock (depth + 1) (known.add name body) body = .ok after := by
  rw [register]
  by_cases hdepth : mostNested ≤ depth
  · rw [if_pos hdepth]
    exact ⟨nofun, fun h => absurd hdepth (Nat.not_le.mpr h.1)⟩
  · rw [if_neg hdepth]
    by_cases hname : name = ""
    · rw [if_pos hname]
      exact ⟨nofun, fun h => absurd hname h.2.1⟩
    · rw [if_neg hname]
      by_cases htaken : known.contains name = true
      · rw [if_pos htaken]
        exact ⟨nofun, fun h => Bool.noConfusion (htaken.symm.trans h.2.2.1)⟩
      · rw [if_neg htaken]
        exact ⟨fun h => ⟨Nat.not_le.mp hdepth, hname, Bool.not_eq_true _ ▸ htaken, h⟩,
          fun h => h.2.2.2⟩

/-- **What registering asks for.**  A block is registered when its definitions are named,
    there is room for their levels, and the table with all of them has every name once. -/
theorem registerBlock_eq_ok_iff (block : List Instruction) :
    ∀ {depth : Nat} {known after : Definitions}, known.Distinct →
      (registerBlock depth known block = .ok after ↔
        (∀ name ∈ definedNames block, name ≠ "") ∧ nesting block ≤ mostNested - depth ∧
          (known.extend (definitions block)).Distinct ∧
            after = known.extend (definitions block)) := by
  induction block using Instruction.block_induction with
  | nil =>
      intro depth known after hknown
      rw [registerBlock, Instruction.definedNames_nil, Instruction.nesting_nil,
        Instruction.definitions_nil, extend_nil]
      constructor
      · intro h
        exact ⟨nofun, Nat.zero_le _, hknown, (Except.ok.inj h).symm⟩
      · rintro ⟨-, -, -, rfl⟩
        rfl
  | step s rest ih =>
      intro depth known after hknown
      rw [registerBlock, register, Instruction.definedNames_step_cons,
        Instruction.nesting_step_cons, Instruction.definitions_step_cons]
      exact ih hknown
  | define name body rest body_ih ih =>
      intro depth known after hknown
      rw [registerBlock, bind_eq_ok, Instruction.definedNames_define_cons,
        Instruction.nesting_define_cons, Instruction.definitions_define_cons, extend_cons,
        extend_append, List.forall_mem_cons, List.forall_mem_append]
      constructor
      · rintro ⟨middle, hdefine, hrest⟩
        obtain ⟨hdepth, hname, hnew, hbody⟩ := register_define_eq_ok.mp hdefine
        obtain ⟨hinner, hlevels, hdistinct, rfl⟩ :=
          (body_ih (distinct_add_iff.mpr ⟨hknown, hnew⟩)).mp hbody
        obtain ⟨hlater, hroom, hall, hafter⟩ := (ih hdistinct).mp hrest
        exact ⟨⟨hname, hinner, hlater⟩, by omega, hall, hafter⟩
      · rintro ⟨⟨hname, hinner, hlater⟩, hlevels, hall, hafter⟩
        have hroom : nesting rest ≤ mostNested - depth := by omega
        -- every table on the way is a beginning of the last one
        have hdistinct := hall.of_extend
        have hadded := hdistinct.of_extend
        obtain ⟨-, hnew⟩ := distinct_add_iff.mp hadded
        have hbody : registerBlock (depth + 1) (known.add name body) body = .ok _ :=
          (body_ih hadded).mpr ⟨hinner, by omega, hdistinct, rfl⟩
        have hrest := (ih hdistinct).mpr ⟨hlater, hroom, hall, hafter⟩
        exact ⟨_, register_define_eq_ok.mpr ⟨by omega, hname, hnew, hbody⟩, hrest⟩

end Definitions

end Attest
