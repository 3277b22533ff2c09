import Attest.Proofs.Program.Validity

/-! # Programs with more steps

    Replacing every step of a block by some steps, at every level, keeps the definitions
    where they are: their names and their nesting are the same, and their bodies change like
    the block (`definitions_expand`).  If the steps that are new ask nothing of the scope,
    the block therefore stays well-formed (`WellFormed.expand`), and expanding a program
    makes up a program (`Program.expand`). -/

namespace Attest

namespace Instruction

mutual

/-- The instruction with some steps instead of every step. -/
def expandOne (f : Step → List Step) : Instruction → List Instruction
  | step s => (f s).map step
  | define name body => [define name (expand f body)]

/-- The block with some steps instead of every step in it, at every level. -/
def expand (f : Step → List Step) : List Instruction → List Instruction
  | [] => []
  | instruction :: rest => expandOne f instruction ++ expand f rest

end

variable (f : Step → List Step)

@[simp] theorem expand_nil : expand f [] = [] := by
  simp only [expand]

@[simp] theorem expand_step_cons (s : Step) (rest : List Instruction) :
    expand f (step s :: rest) = (f s).map step ++ expand f rest := by
  simp only [expand, expandOne]

@[simp] theorem expand_define_cons (name : String) (body rest : List Instruction) :
    expand f (define name body :: rest) = define name (expand f body) :: expand f rest := by
  simp only [expand, expandOne, List.singleton_append]

/-- Steps define nothing. -/
theorem definitions_steps_append (steps : List Step) (rest : List Instruction) :
    definitions (steps.map step ++ rest) = definitions rest := by
  induction steps with
  | nil => rfl
  | cons s steps ih => rw [List.map_cons, List.cons_append, definitions_step_cons, ih]

theorem nesting_steps_append (steps : List Step) (rest : List Instruction) :
    nesting (steps.map step ++ rest) = nesting rest := by
  induction steps with
  | nil => rfl
  | cons s steps ih => rw [List.map_cons, List.cons_append, nesting_step_cons, ih]

/-- The definitions are where they were, with their bodies expanded. -/
theorem definitions_expand (block : List Instruction) :
    definitions (expand f block) = (definitions block).map fun d => (d.1, expand f d.2) := by
  induction block using block_induction with
  | nil => rw [expand_nil, definitions_nil, List.map_nil]
  | step s rest ih => rw [expand_step_cons, definitions_steps_append, definitions_step_cons, ih]
  | define name body rest body_ih ih =>
      rw [expand_define_cons, definitions_define_cons, definitions_define_cons, body_ih, ih,
        List.map_cons, List.map_append]

theorem definedNames_expand (block : List Instruction) :
    definedNames (expand f block) = definedNames block := by
  rw [definedNames, definitions_expand, List.map_map]
  rfl

theorem nesting_expand (block : List Instruction) : nesting (expand f block) = nesting block := by
  induction block using block_induction with
  | nil => rw [expand_nil]
  | step s rest ih => rw [expand_step_cons, nesting_steps_append, nesting_step_cons, ih]
  | define name body rest body_ih ih =>
      rw [expand_define_cons, nesting_define_cons, nesting_define_cons, body_ih, ih]

/-- The steps of an expanded block are those that its own steps are replaced by. -/
theorem step_mem_expand {block : List Instruction} {t : Step} :
    step t ∈ expand f block ↔ ∃ s, step s ∈ block ∧ t ∈ f s := by
  induction block with
  | nil => simp
  | cons first rest ih =>
      cases first with
      | step s => simp [ih]
      | define name body => simp [ih]

/-- What holds of every step of an expanded block is what holds of all that any step is
    replaced by. -/
theorem everyStep_expand {p : Step → Prop} {block : List Instruction} :
    EveryStep p (expand f block) ↔ EveryStep (fun s => ∀ t ∈ f s, p t) block := by
  have hown : ∀ inner : List Instruction, (∀ t, step t ∈ expand f inner → p t) ↔
      ∀ s, step s ∈ inner → ∀ t ∈ f s, p t := by
    intro inner
    constructor
    · exact fun h s hs t ht => h t ((step_mem_expand f).mpr ⟨s, hs, ht⟩)
    · intro h t ht
      obtain ⟨s, hs, hst⟩ := (step_mem_expand f).mp ht
      exact h s hs t hst
  rw [everyStep_iff, everyStep_iff, definitions_expand, List.forall_mem_map]
  exact and_congr (hown block) (forall₂_congr fun d _ => hown d.2)

end Instruction

/-- The step asks nothing of the scope. -/
structure Step.Unscoped (s : Step) : Prop where
  operands : s.operands = []
  calls : ∀ function arguments, s ≠ .call function arguments

/-- Steps that are new in place of a step ask nothing of the scope. -/
def Step.AddsUnscoped (f : Step → List Step) : Prop :=
  ∀ s, ∀ t ∈ f s, t = s ∨ t.Unscoped

open Instruction (EveryStep expand)

variable {f : Step → List Step}

/-- What every step has, and steps that ask nothing of the scope have too, every step of the
    expanded block has. -/
theorem Step.AddsUnscoped.everyStep (hf : AddsUnscoped f) {p : Step → Prop}
    {block : List Instruction} (hunscoped : ∀ t : Step, t.Unscoped → p t)
    (h : EveryStep p block) : EveryStep p (expand f block) := by
  refine (Instruction.everyStep_expand f).mpr fun inner hinner s hs t ht => ?_
  rcases hf s t ht with rfl | hnew
  · exact h inner hinner t hs
  · exact hunscoped t hnew

/-- An expanded block is well-formed like the block. -/
theorem Instruction.WellFormed.expand {block : List Instruction} (h : WellFormed block)
    (hf : Step.AddsUnscoped f) : WellFormed (expand f block) where
  named := by
    rw [definedNames_expand]
    exact h.named
  distinct := by
    rw [definedNames_expand]
    exact h.distinct
  nested := by
    rw [nesting_expand]
    exact h.nested
  called := by
    rw [definedNames_expand]
    exact hf.everyStep (fun t ht function arguments heq => absurd heq (ht.calls _ _)) h.called
  counted := by
    refine hf.everyStep (fun t ht index hindex => ?_) h.counted
    rw [ht.operands] at hindex
    exact nomatch hindex
  inBodies := by
    intro t ht index hindex
    obtain ⟨s, hs, hst⟩ := (step_mem_expand f).mp ht
    rcases hf s t hst with rfl | hnew
    · exact h.inBodies t hs index hindex
    · rw [hnew.operands] at hindex
      exact nomatch hindex

/-- The table with every body expanded. -/
def Definitions.expand (f : Step → List Step) (known : Definitions) : Definitions :=
  ⟨known.entries.map fun d => (d.1, Instruction.expand f d.2)⟩

theorem Definitions.body?_expand (f : Step → List Step) (known : Definitions) (name : String) :
    (known.expand f).body? name = (known.body? name).map (Instruction.expand f) :=
  body?_map (Instruction.expand f) known name

theorem Definitions.contains_expand (f : Step → List Step) (known : Definitions)
    (name : String) : (known.expand f).contains name = known.contains name := by
  rw [contains, body?_expand, Option.isSome_map, contains]

/-- The program with some steps instead of every step, those that are new asking nothing of
    the scope. -/
def Program.expand (f : Step → List Step) (hf : Step.AddsUnscoped f) (program : Program) :
    Program where
  instructions := Instruction.expand f program.instructions
  functions := program.functions.expand f
  valid := by
    obtain ⟨h, htable⟩ := program.wellFormed
    refine validate_eq_ok_iff.mpr ⟨h.expand hf, ?_⟩
    rw [htable, Instruction.definitions_expand, Definitions.expand]

end Attest
