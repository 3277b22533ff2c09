import Attest.Packed.Nesting
import Attest.Proofs.Sequence

/-! # Flattening what was assembled

    An assembly keeps every item that it has taken: the finished instructions at top
    level, and for each open body its header and the instructions that are there, spell
    them out in their order (`Spells`).  Placing an instruction adds its items at the end,
    however many bodies it closes (`Spells.place`), because an open body always misses at
    least one instruction.  So items that can be assembled are the flattened form of what
    they are assembled to (`flattenBlock_of_assemble`). -/

namespace Attest.Packed

/-- A longer block is flattened part by part. -/
theorem flattenBlock_append {front back : List Instruction} {items others : List Item}
    (hfront : flattenBlock front = .ok items) (hback : flattenBlock back = .ok others) :
    flattenBlock (front ++ back) = .ok (items ++ others) := by
  induction front generalizing items with
  | nil =>
      rw [flattenBlock] at hfront
      cases hfront
      exact hback
  | cons first rest ih =>
      rw [flattenBlock] at hfront
      obtain ⟨own, hown, hfront⟩ := bind_eq_ok.mp hfront
      obtain ⟨later, hlater, hfront⟩ := bind_eq_ok.mp hfront
      cases hfront
      rw [List.cons_append, flattenBlock, List.append_assoc]
      exact bind_eq_ok.mpr ⟨own, hown, bind_eq_ok.mpr ⟨later ++ others, ih hlater, rfl⟩⟩

theorem flattenBlock_singleton {instruction : Instruction} {items : List Item}
    (h : flatten instruction = .ok items) : flattenBlock [instruction] = .ok items := by
  rw [flattenBlock]
  refine bind_eq_ok.mpr ⟨items, h, bind_eq_ok.mpr ⟨[], by rw [flattenBlock], ?_⟩⟩
  rw [List.append_nil]
  rfl

namespace Assembly

/-- The finished instructions and the open bodies, innermost first, spell the items out.
    An open body misses instructions, and its header has counted them in. -/
def Spells (top : Array Instruction) : List OpenBody → List Item → Prop
  | [], items => flattenBlock top.toList = .ok items
  | inner :: outer, items =>
      ∃ before own, Spells top outer before ∧ flattenBlock inner.body.toList = .ok own ∧
        0 < inner.missing ∧ inner.body.size + inner.missing < UInt32.size ∧
          items = before ++
            .header inner.name (UInt32.ofNat (inner.body.size + inner.missing)) :: own

/-- An instruction that is placed adds its items. -/
theorem Spells.place {top : Array Instruction} (opened : List OpenBody) :
    ∀ {items own : List Item} {instruction : Instruction}, Spells top opened items →
      flatten instruction = .ok own →
        Spells (place top instruction opened).top (place top instruction opened).opened
          (items ++ own) := by
  -- on the bodies that are open: closing one places its definition in the next
  induction opened with
  | nil =>
      intro items own instruction h hown
      show flattenBlock (top.push instruction).toList = _
      rw [Array.toList_push]
      exact flattenBlock_append h (flattenBlock_singleton hown)
  | cons inner outer ih =>
      intro items own instruction h hown
      obtain ⟨before, inside, hbefore, hinside, hmissing, hsize, rfl⟩ := h
      have hbody : flattenBlock (inner.body.push instruction).toList = .ok (inside ++ own) := by
        rw [Array.toList_push]
        exact flattenBlock_append hinside (flattenBlock_singleton hown)
      have hpushed : (inner.body.push instruction).size = inner.body.size + 1 :=
        Array.size_push ..
      rw [Assembly.place, List.append_assoc, List.cons_append]
      by_cases hlast : inner.missing ≤ 1
      · have hcount : inner.body.size + inner.missing =
            (inner.body.push instruction).toList.length := by
          rw [Array.length_toList]
          omega
        rw [if_pos hlast]
        refine ih hbefore ?_
        rw [flatten, if_pos (by omega), hcount]
        exact bind_eq_ok.mpr ⟨inside ++ own, hbody, rfl⟩
      · rw [if_neg hlast]
        refine ⟨before, inside ++ own, hbefore, hbody, ?_, ?_, ?_⟩
        · show 0 < inner.missing - 1
          omega
        · show (inner.body.push instruction).size + (inner.missing - 1) < UInt32.size
          omega
        · have hcount : (inner.body.push instruction).size + (inner.missing - 1) =
              inner.body.size + inner.missing := by omega
          rw [hcount]

/-- An item that is taken is spelled out at the end. -/
theorem Spells.take {assembly after : Assembly} {items : List Item} {item : Item}
    (h : Spells assembly.top assembly.opened items) (htake : assembly.take item = .ok after) :
    Spells after.top after.opened (items ++ [item]) := by
  cases item with
  | step s =>
      cases htake
      exact h.place _ (by rw [flatten])
  | header name length =>
      rw [Assembly.take] at htake
      split at htake
      · exact nomatch htake
      split at htake
      · next hzero =>
          cases htake
          refine h.place _ ?_
          rw [flatten, hzero]
          exact bind_eq_ok.mpr ⟨[], by rw [flattenBlock], rfl⟩
      · next hpositive =>
          cases htake
          refine ⟨items, [], h, by rw [flattenBlock], ?_, ?_, ?_⟩
          · show 0 < length.toNat
            exact Nat.pos_of_ne_zero fun hzero => hpositive (UInt32.toNat.inj hzero)
          · show 0 + length.toNat < UInt32.size
            rw [Nat.zero_add]
            exact length.toNat_lt
          · show _ = items ++ [.header name (UInt32.ofNat (0 + length.toNat))]
            rw [Nat.zero_add, UInt32.ofNat_toNat]

/-- Items that are taken one by one are spelled out in their order. -/
theorem Spells.foldlM (items : List Item) :
    ∀ {assembly after : Assembly} {before : List Item},
      Spells assembly.top assembly.opened before →
        items.foldlM Assembly.take assembly = .ok after →
          Spells after.top after.opened (before ++ items) := by
  induction items with
  | nil =>
      intro assembly after before h htaken
      cases htaken
      rwa [List.append_nil]
  | cons first rest ih =>
      intro assembly after before h htaken
      rw [List.foldlM_cons] at htaken
      obtain ⟨middle, hfirst, hrest⟩ := bind_eq_ok.mp htaken
      have hmiddle := ih (h.take hfirst) hrest
      rwa [List.append_assoc, List.singleton_append] at hmiddle

/-- Items spell out what they lead to from the start. -/
theorem spells_of_foldlM_start {items : List Item} {assembly : Assembly}
    (h : items.foldlM Assembly.take start = .ok assembly) :
    Spells assembly.top assembly.opened items := by
  have hstart : Spells start.top start.opened [] := by
    show flattenBlock [] = _
    rw [flattenBlock]
  exact hstart.foldlM items h

end Assembly

/-- Items are the flattened form of the block that they are assembled to. -/
theorem flattenBlock_of_assemble {items : List Item} {block : List Instruction}
    (h : assemble items = .ok block) : flattenBlock block = .ok items := by
  obtain ⟨assembly, htaken, hfinish⟩ := bind_eq_ok.mp h
  have hspells := Assembly.spells_of_foldlM_start htaken
  rw [Assembly.finish] at hfinish
  split at hfinish
  · next hclosed =>
      cases hfinish
      rw [hclosed] at hspells
      exact hspells
  · exact nomatch hfinish

end Attest.Packed
