import Attest.Json.Draft
import Attest.Proofs.Json.Scanning

/-! # Reading what was written

    A plain value is made of strings, natural numbers of 64 bits and arrays.
    `Spells text value` says that the text is scanned as tokens that build a draft
    of the value.  It goes through arrays with any blanks around the items
    (`Spells.array`), so the compact and the indented text of a plain value both
    spell it, and are read as the value unless it is too deep (`read?_compact`,
    `read?_indented`). -/

namespace Attest.Json

/-! ## Plain values -/

/-- A value of strings, natural numbers of 64 bits and arrays. -/
inductive Plain : Json → Prop
  | string (text : String) : Plain (string text)
  | integer (n : Nat) (h : n < UInt64.size) : Plain (integer n)
  | array (items : List Json) (h : ∀ item ∈ items, Plain item) : Plain (array items)

mutual

/-- How many brackets stand around the innermost value, its own included. -/
def depth : Json → Nat
  | array items => itemsDepth items + 1
  | object members => membersDepth members + 1
  | _ => 0

/-- The greatest depth of the items. -/
def itemsDepth : List Json → Nat
  | [] => 0
  | item :: rest => max (depth item) (itemsDepth rest)

/-- The greatest depth of the members. -/
def membersDepth : List (String × Json) → Nat
  | [] => 0
  | (_, value) :: rest => max (depth value) (membersDepth rest)

end

/-! ## Building drafts -/

namespace Draft

open Assembly

/-- Where a value may begin, the tokens build the draft and hand it over, if no more
    than the allowed number of brackets is ever open. -/
def Builds (depth : Nat) (tokens : List Token) (draft : Draft) : Prop :=
  ∀ most opened turn, turn = .value ∨ turn = .firstItem → opened.length ≤ most →
    tokens.foldlM (Assembly.take (some most)) ⟨opened, turn⟩ =
      if opened.length + depth ≤ most then some (deliver draft opened) else none

/-- After an item of an array, the tokens build the other items and close the array. -/
def BuildsRest (depth : Nat) (tokens : List Token) (drafts : List Draft) : Prop :=
  ∀ most items outer, outer.length + 1 ≤ most →
    tokens.foldlM (Assembly.take (some most)) ⟨.array items :: outer, .separator⟩ =
      if outer.length + 1 + depth ≤ most then
        some (deliver (.array (items.reverse ++ drafts)) outer)
      else none

/-- A token that is a value builds it. -/
theorem builds_token {token : Token} {draft : Draft}
    (h : ∀ most opened turn, turn = .value ∨ turn = .firstItem →
      Assembly.take (some most) ⟨opened, turn⟩ token = some (deliver draft opened)) :
    Builds 0 [token] draft := by
  intro most opened turn hturn hopen
  rw [List.foldlM_cons, h most opened turn hturn, Nat.add_zero, if_pos hopen]
  rfl

theorem builds_string (text : Option String) : Builds 0 [.string text] (.string text) := by
  refine builds_token ?_
  rintro most opened turn (rfl | rfl) <;> rfl

theorem builds_number (numeral : Numeral) : Builds 0 [.number numeral] (.number numeral) := by
  refine builds_token ?_
  rintro most opened turn (rfl | rfl) <;> rfl

/-- A bracket is opened if fewer than the allowed number are open. -/
theorem take_beginArray {most : Nat} {opened : List Bracket} {turn : Turn}
    (hturn : turn = .value ∨ turn = .firstItem) :
    Assembly.take (some most) ⟨opened, turn⟩ .beginArray =
      if opened.length < most then some ⟨.array [] :: opened, .firstItem⟩ else none := by
  rcases hturn with rfl | rfl <;> rfl

theorem builds_emptyArray : Builds 1 [.beginArray, .endArray] (.array []) := by
  intro most opened turn hturn hopen
  rw [List.foldlM_cons, take_beginArray hturn]
  by_cases hroom : opened.length < most
  · rw [if_pos hroom, if_pos (Nat.succ_le_of_lt hroom)]
    rfl
  · rw [if_neg hroom, if_neg (by omega)]
    rfl

theorem builds_array {depth restDepth : Nat} {tokens others : List Token} {draft : Draft}
    {drafts : List Draft} (hfirst : Builds depth tokens draft)
    (hrest : BuildsRest restDepth others drafts) :
    Builds (max depth restDepth + 1) (.beginArray :: (tokens ++ others))
      (.array (draft :: drafts)) := by
  intro most opened turn hturn hopen
  rw [List.foldlM_cons, take_beginArray hturn]
  -- the limit may be met by the bracket, within the first item or within the rest
  by_cases hroom : opened.length < most
  · rw [if_pos hroom]
    show (tokens ++ others).foldlM (Assembly.take (some most)) ⟨.array [] :: opened, .firstItem⟩ = _
    rw [List.foldlM_append, hfirst _ _ _ (Or.inr rfl) (Nat.succ_le_of_lt hroom), List.length_cons]
    by_cases hdepth : opened.length + 1 + depth ≤ most
    · rw [if_pos hdepth]
      show others.foldlM (Assembly.take (some most)) ⟨.array [draft] :: opened, .separator⟩ = _
      rw [hrest _ _ _ (Nat.succ_le_of_lt hroom)]
      by_cases hlater : opened.length + 1 + restDepth ≤ most
      · rw [if_pos hlater, if_pos (by omega)]
        rfl
      · rw [if_neg hlater, if_neg (by omega)]
    · rw [if_neg hdepth, if_neg (by omega)]
      rfl
  · rw [if_neg hroom, if_neg (by omega)]
    rfl

theorem buildsRest_close : BuildsRest 0 [.endArray] [] := by
  intro most items outer hopen
  rw [Nat.add_zero, if_pos hopen, List.append_nil]
  rfl

theorem buildsRest_next {depth restDepth : Nat} {tokens others : List Token} {draft : Draft}
    {drafts : List Draft} (hfirst : Builds depth tokens draft)
    (hrest : BuildsRest restDepth others drafts) :
    BuildsRest (max depth restDepth) (.comma :: (tokens ++ others)) (draft :: drafts) := by
  intro most items outer hopen
  rw [List.foldlM_cons]
  show (tokens ++ others).foldlM (Assembly.take (some most)) ⟨.array items :: outer, .value⟩ = _
  rw [List.foldlM_append, hfirst _ _ _ (Or.inl rfl) hopen, List.length_cons]
  by_cases hdepth : outer.length + 1 + depth ≤ most
  · rw [if_pos hdepth]
    show others.foldlM (Assembly.take (some most))
      ⟨.array (draft :: items) :: outer, .separator⟩ = _
    rw [hrest _ _ _ hopen, List.reverse_cons, List.append_assoc, List.singleton_append]
    by_cases hlater : outer.length + 1 + restDepth ≤ most
    · rw [if_pos hlater, if_pos (by omega)]
    · rw [if_neg hlater, if_neg (by omega)]
  · rw [if_neg hdepth, if_neg (by omega)]
    rfl

end Draft

/-! ## Texts of plain values -/

/-- The text is scanned as tokens that build a draft of the value. -/
def Spells (text : List Char) (value : Json) : Prop :=
  ∃ tokens draft, Token.Spelled text tokens ∧ Draft.Builds value.depth tokens draft ∧
    ofDraft? draft = some value

/-- The text of the items after the first one, and the closing bracket. -/
def SpellsRest (text : List Char) (values : List Json) : Prop :=
  ∃ tokens drafts, Token.Spelled text tokens ∧ Token.Stops text ∧
    Draft.BuildsRest (itemsDepth values) tokens drafts ∧ ofItems? drafts = some values

theorem Spells.string (text : String) : Spells (quote text) (.string text) :=
  ⟨_, _, Token.spelled_quote text, Draft.builds_string _, rfl⟩

theorem Spells.integer {n : Nat} (h : n < UInt64.size) :
    Spells (integerChars n) (.integer n) := by
  refine ⟨_, _, Token.spelled_toDigits n, Draft.builds_number _, ?_⟩
  rw [ofDraft?]
  exact Numeral.value?_ofNat h

theorem Spells.emptyArray : Spells ['[', ']'] (.array []) :=
  ⟨_, _, .beginArray (.endArray .nil), Draft.builds_emptyArray, rfl⟩

/-- An array is spelled by its first item and the rest, after any blanks. -/
theorem Spells.array (blanks : List Char) {text others : List Char} {value : Json}
    {values : List Json}
    (hblanks : ∀ c ∈ blanks, c = ' ' ∨ c = '\n') (hfirst : Spells text value)
    (hrest : SpellsRest others values) :
    Spells ('[' :: (blanks ++ (text ++ others))) (.array (value :: values)) := by
  obtain ⟨tokens, draft, htext, hbuilds, hdraft⟩ := hfirst
  obtain ⟨later, drafts, hothers, hstops, hlater, hdrafts⟩ := hrest
  refine ⟨_, _, .beginArray ((htext.append hothers hstops).blanks hblanks),
    Draft.builds_array hbuilds hlater, ?_⟩
  rw [ofDraft?, ofItems?, hdraft, hdrafts]
  rfl

/-- The closing bracket may stand after blanks. -/
theorem SpellsRest.close (blanks : List Char) (hblanks : ∀ c ∈ blanks, c = ' ' ∨ c = '\n') :
    SpellsRest (blanks ++ [']']) [] := by
  refine ⟨_, _, .blanks (.endArray .nil) hblanks, ?_, Draft.buildsRest_close, rfl⟩
  cases blanks with
  | nil => exact .cons (by decide) _
  | cons c blanks =>
      rcases hblanks c List.mem_cons_self with rfl | rfl
      · exact .cons (by decide) _
      · exact .cons (by decide) _

/-- A further item stands after a comma and any blanks. -/
theorem SpellsRest.next (blanks : List Char) {text others : List Char} {value : Json}
    {values : List Json}
    (hblanks : ∀ c ∈ blanks, c = ' ' ∨ c = '\n') (hfirst : Spells text value)
    (hrest : SpellsRest others values) :
    SpellsRest (',' :: (blanks ++ (text ++ others))) (value :: values) := by
  obtain ⟨tokens, draft, htext, hbuilds, hdraft⟩ := hfirst
  obtain ⟨later, drafts, hothers, hstops, hlater, hdrafts⟩ := hrest
  refine ⟨_, _, .comma ((htext.append hothers hstops).blanks hblanks), .cons (by decide) _,
    Draft.buildsRest_next hbuilds hlater, ?_⟩
  rw [ofItems?, hdraft, hdrafts]
  rfl

/-- The compact text of a plain value spells it. -/
theorem spells_chars {value : Json} (h : Plain value) : Spells value.chars value := by
  induction h with
  | string text => exact .string text
  | integer n h => exact .integer h
  | array items _ ih =>
      -- the first item stands apart, so the induction is on the others
      have hrest : ∀ rest : List Json, (∀ item ∈ rest, Spells item.chars item) →
          SpellsRest (itemsChars rest) rest := by
        intro rest hitems
        induction rest with
        | nil => exact .close [] nofun
        | cons item rest rest_ih =>
            obtain ⟨hitem, hlater⟩ := List.forall_mem_cons.mp hitems
            exact .next [] nofun hitem (rest_ih hlater)
      cases items with
      | nil => exact .emptyArray
      | cons first rest =>
          obtain ⟨hfirst, hlater⟩ := List.forall_mem_cons.mp ih
          exact .array [] nofun hfirst (hrest rest hlater)

theorem lineBreak_blank (level : Nat) : ∀ c ∈ lineBreak level, c = ' ' ∨ c = '\n' := by
  intro c hc
  rcases List.mem_cons.mp hc with hbreak | hspace
  · exact Or.inr hbreak
  · exact Or.inl (List.eq_of_mem_replicate hspace)

/-- The indented text of a plain value spells it at every level. -/
theorem spells_indentedChars {value : Json} (h : Plain value) :
    ∀ level, Spells (value.indentedChars level) value := by
  induction h with
  | string text => exact fun _ => .string text
  | integer n h => exact fun _ => .integer h
  | array items _ ih =>
      intro level
      have hrest : ∀ rest : List Json,
          (∀ item ∈ rest, ∀ level, Spells (item.indentedChars level) item) →
          SpellsRest (indentedItems level rest) rest := by
        intro rest hitems
        induction rest with
        | nil => exact .close _ (lineBreak_blank level)
        | cons item rest rest_ih =>
            obtain ⟨hitem, hlater⟩ := List.forall_mem_cons.mp hitems
            rw [indentedItems, List.append_assoc]
            exact .next _ (lineBreak_blank _) (hitem _) (rest_ih hlater)
      cases items with
      | nil => exact .emptyArray
      | cons first rest =>
          obtain ⟨hfirst, hlater⟩ := List.forall_mem_cons.mp ih
          rw [indentedChars, List.append_assoc]
          exact .array _ (lineBreak_blank _) (hfirst _) (hrest rest hlater)

/-! ## Reading -/

/-- A text that spells a value is read as the value, unless it is too deep. -/
theorem read?_of_spells {text : List Char} {value : Json} (h : Spells text value) :
    read? (String.ofList text) = if value.depth ≤ mostOpen then some value else none := by
  obtain ⟨tokens, draft, htext, hbuilds, hdraft⟩ := h
  have htokens : tokens? (String.ofList text) = some tokens := by
    have hscan := htext [] [] nofun
    rw [List.append_nil, List.append_nil] at hscan
    rw [tokens?, String.toList_ofList, hscan, Token.scan, List.reverse_reverse]
  have hbuilt := hbuilds mostOpen [] .value (Or.inl rfl) (Nat.zero_le _)
  rw [List.length_nil, Nat.zero_add] at hbuilt
  rw [read?, htokens]
  show (do
    let draft ← Draft.ofTokens? (some mostOpen) tokens
    ofDraft? draft) = _
  rw [Draft.ofTokens?, Draft.Assembly.start, hbuilt]
  by_cases hdepth : value.depth ≤ mostOpen
  · rw [if_pos hdepth, if_pos hdepth]
    exact hdraft
  · rw [if_neg hdepth, if_neg hdepth]
    rfl

/-- The compact text of a plain value is read as the value, unless it is too deep. -/
theorem read?_compact {value : Json} (h : Plain value) :
    read? value.compact = if value.depth ≤ mostOpen then some value else none :=
  read?_of_spells (spells_chars h)

/-- The indented text of a plain value is read as the value, unless it is too deep. -/
theorem read?_indented {value : Json} (h : Plain value) :
    read? value.indented = if value.depth ≤ mostOpen then some value else none :=
  read?_of_spells (spells_indentedChars h 0)

end Attest.Json
