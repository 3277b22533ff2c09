import Attest.Packed.Nesting
import Attest.Proofs.Program.Validity

/-! # Assembling what was flattened

    The items of a block rebuild the block.  While they are taken, the assembly
    stands as if the instructions of the block had been placed one by one
    (`takenAsPlaced`), provided that the innermost open body has room for
    all of them; a body that is filled to its last instruction is closed by it
    (`placeAll_body`).  The only fault on the way is nesting too deeply. -/

namespace Attest.Packed

open Instruction (nesting definitions nesting_nil nesting_step_cons nesting_define_cons)

/-! ## When flattening succeeds -/

/-- A block can be flattened when the length of every body fits its header. -/
theorem flattenBlock_isOk_iff (block : List Instruction) :
    (∃ items, flattenBlock block = .ok items) ↔
      ∀ d ∈ definitions block, d.2.length < UInt32.size := by
  induction block using Instruction.block_induction with
  | nil => exact ⟨nofun, fun _ => ⟨[], rfl⟩⟩
  | step s rest ih =>
      rw [Instruction.definitions_step_cons, ← ih, flattenBlock, flatten]
      constructor
      · rintro ⟨items, h⟩
        obtain ⟨_, -, h⟩ := bind_eq_ok.mp h
        obtain ⟨others, hrest, -⟩ := bind_eq_ok.mp h
        exact ⟨others, hrest⟩
      · rintro ⟨others, hrest⟩
        exact ⟨_, bind_eq_ok.mpr ⟨_, rfl, bind_eq_ok.mpr ⟨others, hrest, rfl⟩⟩⟩
  | define name body rest body_ih ih =>
      rw [Instruction.definitions_define_cons, List.forall_mem_cons, List.forall_mem_append,
        ← body_ih, ← ih, flattenBlock, flatten]
      constructor
      · rintro ⟨items, h⟩
        obtain ⟨own, hown, h⟩ := bind_eq_ok.mp h
        obtain ⟨others, hrest, -⟩ := bind_eq_ok.mp h
        split at hown
        · next hlength =>
            obtain ⟨inner, hbody, -⟩ := bind_eq_ok.mp hown
            exact ⟨hlength, ⟨inner, hbody⟩, others, hrest⟩
        · exact nomatch hown
      · rintro ⟨hlength, ⟨inner, hbody⟩, others, hrest⟩
        rw [if_pos hlength]
        exact ⟨_, bind_eq_ok.mpr ⟨_, bind_eq_ok.mpr ⟨inner, hbody, rfl⟩,
          bind_eq_ok.mpr ⟨others, hrest, rfl⟩⟩⟩

/-! ## Placing instructions one by one -/

namespace Assembly

/-- Places the instructions of a block one by one. -/
def placeAll (assembly : Assembly) (block : List Instruction) : Assembly :=
  block.foldl (fun partly instruction => place partly.top instruction partly.opened) assembly

/-- The innermost open body misses at least so many instructions. -/
def Room (count : Nat) (opened : List OpenBody) : Prop :=
  ∀ inner ∈ opened.head?, count ≤ inner.missing

/-- An instruction that is not the last of its body leaves the body open. -/
theorem place_cons {inner : OpenBody} {outer : List OpenBody} (h : 2 ≤ inner.missing)
    (top : Array Instruction) (instruction : Instruction) :
    place top instruction (inner :: outer) =
      ⟨top, ⟨inner.name, inner.missing - 1, inner.body.push instruction⟩ :: outer⟩ := by
  rw [place]
  exact if_neg (by omega)

/-- The last instruction of a body closes it. -/
theorem place_cons_last {inner : OpenBody} {outer : List OpenBody} (h : inner.missing ≤ 1)
    (top : Array Instruction) (instruction : Instruction) :
    place top instruction (inner :: outer) =
      place top (.define inner.name (inner.body.push instruction).toList) outer := by
  rw [place]
  exact if_pos h

/-- With room for more than one instruction, placing one closes nothing. -/
theorem place_room {count : Nat} {opened : List OpenBody} (h : Room (count + 2) opened)
    (top : Array Instruction) (instruction : Instruction) :
    (place top instruction opened).opened.length = opened.length ∧
      Room (count + 1) (place top instruction opened).opened := by
  cases opened with
  | nil => exact ⟨rfl, nofun⟩
  | cons inner outer =>
      have hmissing : count + 2 ≤ inner.missing := h inner rfl
      rw [place_cons (by omega)]
      refine ⟨rfl, ?_⟩
      intro inner' hinner
      cases hinner
      show count + 1 ≤ inner.missing - 1
      omega

/-- Filling an open body to its last instruction places its definition. -/
theorem placeAll_body (top : Array Instruction) (name : String) (outer : List OpenBody)
    (block : List Instruction) :
    ∀ body : Array Instruction, block ≠ [] →
      placeAll ⟨top, ⟨name, block.length, body⟩ :: outer⟩ block =
        place top (.define name (body.toList ++ block)) outer := by
  induction block with
  | nil => exact fun _ h => absurd rfl h
  | cons first rest ih =>
      intro body _
      cases rest with
      | nil =>
          show place top first (⟨name, 1, body⟩ :: outer) = _
          rw [place_cons_last (Nat.le_refl 1), Array.toList_push]
      | cons second rest =>
          show placeAll (place top first (⟨name, rest.length + 2, body⟩ :: outer)) _ = _
          rw [place_cons (Nat.le_add_left 2 _)]
          show placeAll ⟨top, ⟨name, (second :: rest).length, body.push first⟩ :: outer⟩ _ = _
          rw [ih (body.push first) (List.cons_ne_nil _ _), Array.toList_push, List.append_assoc]
          rfl

/-- Placing at top level builds the block. -/
theorem placeAll_top (block : List Instruction) :
    ∀ top : Array Instruction, placeAll ⟨top, []⟩ block = ⟨top ++ block.toArray, []⟩ := by
  induction block with
  | nil =>
      intro top
      show (⟨top, []⟩ : Assembly) = _
      simp
  | cons first rest ih =>
      intro top
      show placeAll ⟨top.push first, []⟩ rest = _
      rw [ih (top.push first)]
      simp

end Assembly

open Assembly

/-! ## Taking the items of a block -/

/-- Taking the items of the block places its instructions one by one, or finds that
    they nest too deeply. -/
def TakenAsPlaced (block : List Instruction) : Prop :=
  ∀ items, flattenBlock block = .ok items →
    ∀ assembly : Assembly, Room block.length assembly.opened →
      assembly.opened.length ≤ mostNested →
      items.foldlM Assembly.take assembly =
        if assembly.opened.length + nesting block ≤ mostNested then
          .ok (placeAll assembly block)
        else .error (.ofDefect .nestedTooDeep)

/-- After one instruction has been placed, the items of the rest are taken. -/
theorem TakenAsPlaced.rest {rest : List Instruction} (h : TakenAsPlaced rest)
    {others : List Item} (hothers : flattenBlock rest = .ok others) (instruction : Instruction)
    (assembly : Assembly) (hroom : Room (rest.length + 1) assembly.opened)
    (hdepth : assembly.opened.length ≤ mostNested) :
    others.foldlM Assembly.take (place assembly.top instruction assembly.opened) =
      if assembly.opened.length + nesting rest ≤ mostNested then
        .ok (placeAll assembly (instruction :: rest))
      else .error (.ofDefect .nestedTooDeep) := by
  cases rest with
  | nil =>
      -- the instruction may have closed its body, but nothing is left to take
      rw [flattenBlock] at hothers
      cases hothers
      rw [nesting_nil, Nat.add_zero, if_pos hdepth]
      rfl
  | cons second rest =>
      -- the body stays open, with room for what is left
      obtain ⟨hlength, hroom'⟩ := place_room hroom assembly.top instruction
      have htaken := h others hothers _ hroom' (by rw [hlength]; exact hdepth)
      rw [hlength] at htaken
      exact htaken

/-- The header and the items of a body place its definition. -/
theorem TakenAsPlaced.definition {body : List Instruction} (h : TakenAsPlaced body)
    {inner : List Item} (hinner : flattenBlock body = .ok inner)
    (hsize : body.length < UInt32.size) (name : String) (assembly : Assembly)
    (hdepth : assembly.opened.length ≤ mostNested) :
    (Item.header name (UInt32.ofNat body.length) :: inner).foldlM Assembly.take assembly =
      if assembly.opened.length + (nesting body + 1) ≤ mostNested then
        .ok (place assembly.top (.define name body) assembly.opened)
      else .error (.ofDefect .nestedTooDeep) := by
  have hlength : (UInt32.ofNat body.length).toNat = body.length :=
    UInt32.toNat_ofNat_of_lt' hsize
  rw [List.foldlM_cons, Assembly.take]
  by_cases hfull : mostNested ≤ assembly.opened.length
  · rw [if_pos hfull, if_neg (by omega)]
    rfl
  · rw [if_neg hfull]
    cases body with
    | nil =>
        -- no instruction will come to close the body: the header has done it
        rw [flattenBlock] at hinner
        cases hinner
        have hfits : assembly.opened.length + (0 + 1) ≤ mostNested := by omega
        rw [nesting_nil, if_pos hfits]
        rfl
    | cons first rest =>
        have hne : UInt32.ofNat (first :: rest).length ≠ 0 := by
          intro hzero
          rw [hzero] at hlength
          exact nomatch hlength
        rw [if_neg hne, hlength]
        have htaken := h inner hinner
          ⟨assembly.top, ⟨name, (first :: rest).length, #[]⟩ :: assembly.opened⟩
          (fun open' hopen => by cases hopen; exact Nat.le_refl _)
          (by simp only [List.length_cons]; omega)
        rw [placeAll_body _ _ _ _ _ (List.cons_ne_nil _ _)] at htaken
        have hlevels : assembly.opened.length + (nesting (first :: rest) + 1) =
            (assembly.opened.length + 1) + nesting (first :: rest) := by omega
        rw [hlevels]
        exact htaken

/-- The items of every block are taken as its instructions are placed. -/
theorem takenAsPlaced (block : List Instruction) : TakenAsPlaced block := by
  induction block using Instruction.block_induction with
  | nil =>
      intro items hitems assembly _ hdepth
      rw [flattenBlock] at hitems
      cases hitems
      rw [nesting_nil, Nat.add_zero, if_pos hdepth]
      rfl
  | step s rest ih =>
      intro items hitems assembly hroom hdepth
      rw [flattenBlock] at hitems
      obtain ⟨own, hown, hitems⟩ := bind_eq_ok.mp hitems
      obtain ⟨others, hothers, hitems⟩ := bind_eq_ok.mp hitems
      rw [flatten] at hown
      cases hown
      cases hitems
      rw [nesting_step_cons]
      exact ih.rest hothers (.step s) assembly hroom hdepth
  | define name body rest body_ih ih =>
      intro items hitems assembly hroom hdepth
      rw [flattenBlock] at hitems
      obtain ⟨own, hown, hitems⟩ := bind_eq_ok.mp hitems
      obtain ⟨others, hothers, hitems⟩ := bind_eq_ok.mp hitems
      cases hitems
      rw [flatten] at hown
      split at hown
      · next hsize =>
          obtain ⟨inner, hinner, hown⟩ := bind_eq_ok.mp hown
          cases hown
          -- the header and its body leave what placing the definition leaves
          rw [List.foldlM_append, body_ih.definition hinner hsize name assembly hdepth,
            nesting_define_cons]
          by_cases hbody : assembly.opened.length + (nesting body + 1) ≤ mostNested
          · rw [if_pos hbody]
            show others.foldlM Assembly.take _ = _
            rw [ih.rest hothers (.define name body) assembly hroom hdepth]
            by_cases hrest : assembly.opened.length + nesting rest ≤ mostNested
            · rw [if_pos hrest, if_pos (by omega)]
            · rw [if_neg hrest, if_neg (by omega)]
          · rw [if_neg hbody, if_neg (by omega)]
            rfl
      · exact nomatch hown

/-- The items of a block rebuild it, unless it nests too deeply. -/
theorem assemble_flattenBlock {block : List Instruction} {items : List Item}
    (h : flattenBlock block = .ok items) :
    assemble items =
      if nesting block ≤ mostNested then .ok block else .error (.ofDefect .nestedTooDeep) := by
  have htaken := takenAsPlaced block items h Assembly.start nofun (Nat.zero_le _)
  have hzero : Assembly.start.opened.length + nesting block = nesting block := Nat.zero_add _
  rw [hzero] at htaken
  rw [assemble, htaken]
  by_cases hdepth : nesting block ≤ mostNested
  · rw [if_pos hdepth, if_pos hdepth, Assembly.start, placeAll_top]
    simp [bind, Except.bind, finish]
  · rw [if_neg hdepth, if_neg hdepth]
    rfl

end Attest.Packed
