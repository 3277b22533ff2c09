import Attest.Program.Listing
import Attest.Proofs.Program.Rereading

/-! # What a listing tells

    A listing is a row of lines, and a line is a row of words behind the index of its
    instruction.  Lines are cut at line feeds and words at spaces, so texts that hold
    neither (`Listing.Unbroken`) can be had back from it.

    * A token tells its operand, also where the number in it is too large to be read
      (`Operand.eq_of_token_eq`), and the words of a step tell the step
      (`Step.eq_of_words_eq`).
    * The words of a definition tell how many instructions its body has.  So the lines
      behind it tell the body and where it ends, whatever follows
      (`eq_of_blockLines_append_eq`).
    * The lines of a listing tell the program (`Program.listing_eq_iff`).

    The indentation and the indices are of no use for this. -/

namespace Attest

open Instruction (EveryStep definedNames callOpcode_ne)

/-- The digits of a number tell the number. -/
theorem Decimal.eq_of_toString_eq {m n : Nat} (h : toString m = toString n) : m = n := by
  have hdigits : Nat.toDigits 10 m = Nat.toDigits 10 n := by
    rw [← Nat.toList_repr, ← Nat.toList_repr]
    exact congrArg String.toList h
  have hread := nat?_toDigits m
  rw [hdigits, nat?_toDigits] at hread
  exact (Option.some.inj hread).symm

namespace Listing

/-! ## Unbroken texts -/

/-- The text holds neither a space nor a line feed. -/
structure Unbroken (text : String) : Prop where
  space : ' ' ∉ text.toList
  lineFeed : '\n' ∉ text.toList

instance (text : String) : Decidable (Unbroken text) :=
  decidable_of_iff (' ' ∉ text.toList ∧ '\n' ∉ text.toList)
    ⟨fun ⟨hspace, hfeed⟩ => ⟨hspace, hfeed⟩, fun h => ⟨h.space, h.lineFeed⟩⟩

theorem Unbroken.append {front back : String} (hfront : Unbroken front) (hback : Unbroken back) :
    Unbroken (front ++ back) := by
  constructor
  · rw [String.toList_append, List.mem_append]
    exact not_or.mpr ⟨hfront.space, hback.space⟩
  · rw [String.toList_append, List.mem_append]
    exact not_or.mpr ⟨hfront.lineFeed, hback.lineFeed⟩

/-- Neither stands in a numeral. -/
theorem unbroken_toString (n : Nat) : Unbroken (toString n) := by
  have hdigit : ∀ c ∈ (toString n).toList, c.isDigit = true := by
    rw [Nat.toString_eq_repr, Nat.toList_repr]
    exact fun c => Nat.isDigit_of_mem_toDigits (by omega) (by omega)
  refine ⟨fun hspace => ?_, fun hfeed => ?_⟩
  · exact nomatch hdigit _ hspace
  · exact nomatch hdigit _ hfeed

/-- Neither stands in hexadecimal text. -/
theorem unbroken_encode (bytes : Bytes) : Unbroken (Hex.encode bytes) := by
  have hdigit : ∀ n < 16, Nat.digitChar n ≠ ' ' ∧ Nat.digitChar n ≠ '\n' := by decide
  have hpair : ∀ byte : UInt8, ∀ c ∈ Hex.pair byte, c ≠ ' ' ∧ c ≠ '\n' := by
    intro byte c hc
    have hbyte : byte.toNat < 256 := byte.toNat_lt
    rcases List.mem_cons.mp hc with rfl | hc
    · exact hdigit _ (by omega)
    · rw [List.mem_singleton.mp hc]
      exact hdigit _ (by omega)
  have hchars : ∀ c ∈ (Hex.encode bytes).toList, c ≠ ' ' ∧ c ≠ '\n' := by
    intro c hc
    rw [Hex.encode, String.toList_ofList] at hc
    obtain ⟨byte, -, hmem⟩ := List.mem_flatMap.mp hc
    exact hpair byte c hmem
  exact ⟨fun h => (hchars _ h).1 rfl, fun h => (hchars _ h).2 rfl⟩

/-! ## Texts in pieces -/

/-- Pieces that are joined by a mark can be had back if the mark is in none of them. -/
theorem eq_of_intercalate_eq {mark : Char} {pieces others : List String} (hpieces : pieces ≠ [])
    (hothers : others ≠ []) (hmark : ∀ piece ∈ pieces, mark ∉ piece.toList)
    (hmark' : ∀ piece ∈ others, mark ∉ piece.toList)
    (h : (String.singleton mark).intercalate pieces =
      (String.singleton mark).intercalate others) : pieces = others := by
  have hsplit : ∀ texts : List String, texts ≠ [] → (∀ piece ∈ texts, mark ∉ piece.toList) →
      List.splitOn mark ((String.singleton mark).intercalate texts).toList =
        texts.map String.toList := by
    intro texts hne hnone
    rw [String.toList_intercalate, String.toList_singleton]
    refine List.splitOn_intercalate mark ?_ (by simpa using hne)
    exact List.forall_mem_map.mpr hnone
  have hsame : pieces.map String.toList = others.map String.toList := by
    rw [← hsplit pieces hpieces hmark, h, hsplit others hothers hmark']
  exact (List.map_inj_right fun _ _ => String.toList_inj.mp).mp hsame

/-- Lines that end in line feeds are joined by line feeds, with nothing behind the last. -/
theorem join_lines (lines : List String) :
    String.join (lines.map (· ++ "\n")) = "\n".intercalate (lines ++ [""]) := by
  induction lines with
  | nil => rfl
  | cons line rest ih =>
      rw [List.map_cons, String.join_cons, ih, List.cons_append,
        String.intercalate_cons_of_ne_nil (by simp)]

/-- Lines can be had back from a text. -/
theorem eq_of_join_eq {lines others : List String} (hlines : ∀ line ∈ lines, '\n' ∉ line.toList)
    (hothers : ∀ line ∈ others, '\n' ∉ line.toList)
    (h : String.join (lines.map (· ++ "\n")) = String.join (others.map (· ++ "\n"))) :
    lines = others := by
  have hlast : ∀ texts : List String, (∀ line ∈ texts, '\n' ∉ line.toList) →
      ∀ line ∈ texts ++ [""], '\n' ∉ line.toList := by
    intro texts htexts
    exact List.forall_mem_append.mpr ⟨htexts, by decide⟩
  rw [join_lines, join_lines] at h
  have hsame := eq_of_intercalate_eq (by simp) (by simp) (hlast lines hlines)
    (hlast others hothers) h
  exact List.append_cancel_right hsame

/-- There is no line feed between words. -/
theorem lineFeed_notMem_intercalate {words : List String}
    (h : ∀ word ∈ words, '\n' ∉ word.toList) : '\n' ∉ (" ".intercalate words).toList := by
  induction words with
  | nil => decide
  | cons word rest ih =>
      obtain ⟨hword, hrest⟩ := List.forall_mem_cons.mp h
      by_cases hnone : rest = []
      · rw [hnone, String.intercalate_singleton]
        exact hword
      · rw [String.intercalate_cons_of_ne_nil hnone, String.toList_append, String.toList_append]
        simp only [List.mem_append, not_or]
        exact ⟨⟨hword, by decide⟩, ih hrest⟩

end Listing

open Listing (Unbroken)

/-! ## Operands -/

namespace Operand

/-- A literal is an unbroken text. -/
def Legible : Operand → Prop
  | literal bytes => ∃ text, Bytes.toText? bytes = some text ∧ Unbroken text
  | _ => True

theorem Legible.reread_eq {operand : Operand} (h : operand.Legible) :
    operand.reread = operand := by
  cases operand with
  | literal bytes =>
      obtain ⟨text, htext, -⟩ := h
      exact if_pos (by rw [htext]; rfl)
  | _ => rfl

theorem Legible.unbroken_token {operand : Operand} (h : operand.Legible) :
    Unbroken operand.token := by
  cases operand with
  | literal bytes =>
      obtain ⟨text, htext, htextUnbroken⟩ := h
      have htoken : token (.literal bytes) = "s:" ++ text := by
        rw [token, htext]
      rw [htoken]
      exact .append (by decide) htextUnbroken
  | hex bytes => exact .append (by decide) (Listing.unbroken_encode bytes)
  | buffer => exact of_decide_eq_true rfl
  | slot index => exact .append (by decide) (Listing.unbroken_toString _)
  | argument index => exact .append (by decide) (Listing.unbroken_toString _)
  | read length =>
      cases length with
      | bounded count => exact .append (by decide) (Listing.unbroken_toString _)
      | rest => exact of_decide_eq_true rfl

/-- Only the number of an argument or of a bounded read can be too large to be read. -/
theorem number_of_not_readable {operand : Operand} (h : ¬ operand.Readable) :
    (∃ index, operand = .argument index) ∨ ∃ count, operand = .read (.bounded count) := by
  cases operand with
  | argument index => exact Or.inl ⟨index, rfl⟩
  | read length =>
      cases length with
      | bounded count => exact Or.inr ⟨count, rfl⟩
      | rest => exact absurd trivial h
  | _ => exact absurd trivial h

/-- A readable operand is what its token is read as, so it is every operand that has the token. -/
theorem Readable.eq_of_token_eq {operand other : Operand} (hreadable : operand.Readable)
    (h : operand.Legible) (hother : other.Legible) (htoken : operand.token = other.token) :
    operand = other := by
  have hown : ofToken operand.token = .ok operand :=
    ofToken_token_eq_ok.mpr ⟨hreadable, h.reread_eq.symm⟩
  rw [htoken] at hown
  rw [(ofToken_token_eq_ok.mp hown).2, hother.reread_eq]

/-- The token tells the operand. -/
theorem eq_of_token_eq {operand other : Operand} (h : operand.Legible) (hother : other.Legible)
    (htoken : operand.token = other.token) : operand = other := by
  by_cases hreadable : operand.Readable
  · exact hreadable.eq_of_token_eq h hother htoken
  by_cases hreadable' : other.Readable
  · exact (hreadable'.eq_of_token_eq hother h htoken.symm).symm
  -- what cannot be read is a number, and it is the same behind the same kind
  rcases number_of_not_readable hreadable with ⟨index, rfl⟩ | ⟨count, rfl⟩
  · rcases number_of_not_readable hreadable' with ⟨index', rfl⟩ | ⟨count', rfl⟩
    · have hdigits := (String.append_right_inj "a:").mp htoken
      rw [UInt64.toNat_inj.mp (Decimal.eq_of_toString_eq hdigits)]
    · simp [token, ← String.toList_inj] at htoken
  · rcases number_of_not_readable hreadable' with ⟨index', rfl⟩ | ⟨count', rfl⟩
    · simp [token, ← String.toList_inj] at htoken
    · have hdigits := (String.append_right_inj "r:").mp htoken
      rw [UInt64.toNat_inj.mp (Decimal.eq_of_toString_eq hdigits)]

/-- The tokens of operands tell the operands. -/
theorem eq_of_map_token_eq {operands : List Operand} :
    ∀ {others : List Operand}, (∀ operand ∈ operands, operand.Legible) →
      (∀ other ∈ others, other.Legible) →
        operands.map token = others.map token → operands = others := by
  induction operands with
  | nil =>
      intro others _ _ h
      exact (List.map_eq_nil_iff.mp h.symm).symm
  | cons operand operands ih =>
      intro others h hothers htokens
      cases others with
      | nil => exact nomatch htokens
      | cons other others =>
          obtain ⟨hoperand, h⟩ := List.forall_mem_cons.mp h
          obtain ⟨hother, hothers⟩ := List.forall_mem_cons.mp hothers
          obtain ⟨htoken, htokens⟩ := List.cons.inj htokens
          rw [eq_of_token_eq hoperand hother htoken, ih h hothers htokens]

end Operand

/-! ## Steps -/

namespace Step

/-- The words of a step: its opcode, then its slot or its operands. -/
def words (s : Step) : List String :=
  s.opcode :: match s.address? with
    | some slot => [toString slot.toNat]
    | none => s.operands.map Operand.token

/-- What a step is called and works on are legible. -/
structure Legible (s : Step) : Prop where
  called : ∀ function arguments, s = .call function arguments → Unbroken function
  operands : ∀ operand ∈ s.operands, operand.Legible

theorem Legible.unbroken_opcode {s : Step} (h : s.Legible) : Unbroken s.opcode := by
  cases s with
  | call function arguments => exact .append (by decide) (h.called function arguments rfl)
  | _ =>
      rw [opcode]
      decide

theorem Legible.unbroken_of_mem_words {s : Step} (h : s.Legible) :
    ∀ word ∈ s.words, Unbroken word := by
  refine List.forall_mem_cons.mpr ⟨h.unbroken_opcode, ?_⟩
  cases s.address? with
  | some slot => exact List.forall_mem_singleton.mpr (Listing.unbroken_toString _)
  | none =>
      exact List.forall_mem_map.mpr fun operand hmem => (h.operands operand hmem).unbroken_token

/-- A step is a call, or its opcode begins as no opcode of a call does. -/
theorem call_or_head_opcode (s : Step) :
    (∃ function arguments, s = call function arguments) ∨
      s.opcode.toList.head? = some 'o' := by
  cases s with
  | call function arguments => exact Or.inl ⟨function, arguments, rfl⟩
  | _ =>
      refine Or.inr ?_
      rw [opcode]
      decide

/-- Only a call has the opcode of a call. -/
theorem eq_call_of_opcode_eq {s : Step} {function : String}
    (h : s.opcode = "f_" ++ function) : ∃ arguments, s = call function arguments := by
  rcases s.call_or_head_opcode with ⟨other, arguments, rfl⟩ | hhead
  · exact ⟨arguments, by rw [(String.append_right_inj "f_").mp h]⟩
  · exact absurd h.symm (callOpcode_ne function hhead)

/-- Steps with one opcode both have a slot or both have operands, and differ in nothing
    else. -/
theorem alike_of_opcode_eq {s t : Step} (h : s.opcode = t.opcode) :
    s.address?.isSome = t.address?.isSome ∧
      (s.address? = t.address? → s.operands = t.operands → s = t) := by
  cases s with
  | call function arguments =>
      obtain ⟨others, rfl⟩ := eq_call_of_opcode_eq h.symm
      exact ⟨rfl, fun _ hoperands => congrArg (call function) hoperands⟩
  | _ =>
      cases t with
      | call function arguments =>
          obtain ⟨_, hcall⟩ := eq_call_of_opcode_eq h
          cases hcall
      | _ => simp_all [opcode, address?, operands]

theorem operands_eq_nil_of_address {s : Step} {slot : UInt32} (h : s.address? = some slot) :
    s.operands = [] := by
  cases s with
  | store => rfl
  | load => rfl
  | swap => rfl
  | _ => exact nomatch h

/-- The words of a step tell the step. -/
theorem eq_of_words_eq {s t : Step} (hs : s.Legible) (ht : t.Legible) (h : s.words = t.words) :
    s = t := by
  obtain ⟨hkind, hsame⟩ := alike_of_opcode_eq (List.cons.inj h).1
  cases hslot : s.address? with
  | some slot =>
      cases hslot' : t.address? with
      | some slot' =>
          rw [words, words, hslot, hslot'] at h
          have hdigits := (List.cons.inj (List.cons.inj h).2).1
          have hslots : slot = slot' := UInt32.toNat_inj.mp (Decimal.eq_of_toString_eq hdigits)
          refine hsame ?_ ?_
          · rw [hslot, hslot', hslots]
          · rw [operands_eq_nil_of_address hslot, operands_eq_nil_of_address hslot']
      | none =>
          rw [hslot, hslot'] at hkind
          exact nomatch hkind
  | none =>
      cases hslot' : t.address? with
      | some slot' =>
          rw [hslot, hslot'] at hkind
          exact nomatch hkind
      | none =>
          rw [words, words, hslot, hslot'] at h
          have htokens := (List.cons.inj h).2
          exact hsame (hslot.trans hslot'.symm)
            (Operand.eq_of_map_token_eq hs.operands ht.operands htokens)

end Step

/-! ## Instructions -/

namespace Instruction

/-- The words in the line of an instruction: those of a step, or the name of a definition and
    the number of instructions in its body. -/
def words : Instruction → List String
  | step s => s.words
  | define name body =>
      [defineOpcode, name, "(" ++ toString body.length, "instructions)"]

/-- What is defined in a block is named without breaks, and its steps are legible, at every
    level. -/
structure Legible (block : List Instruction) : Prop where
  names : ∀ name ∈ definedNames block, Unbroken name
  steps : EveryStep Step.Legible block

theorem legible_step_cons {s : Step} {rest : List Instruction}
    (h : Legible (step s :: rest)) : s.Legible ∧ Legible rest := by
  obtain ⟨hnames, hsteps⟩ := h
  rw [definedNames_step_cons] at hnames
  obtain ⟨hstep, hrest⟩ := everyStep_step_cons.mp hsteps
  exact ⟨hstep, hnames, hrest⟩

theorem legible_define_cons {name : String} {body rest : List Instruction}
    (h : Legible (define name body :: rest)) :
    Unbroken name ∧ Legible body ∧ Legible rest := by
  obtain ⟨hnames, hsteps⟩ := h
  rw [definedNames_define_cons, List.forall_mem_cons, List.forall_mem_append] at hnames
  obtain ⟨hname, hinner, hlater⟩ := hnames
  obtain ⟨hbody, hrest⟩ := everyStep_define_cons.mp hsteps
  exact ⟨hname, ⟨hinner, hbody⟩, hlater, hrest⟩

theorem Legible.unbroken_of_mem_words {instruction : Instruction} {rest : List Instruction}
    (h : Legible (instruction :: rest)) : ∀ word ∈ instruction.words, Unbroken word := by
  cases instruction with
  | step s => exact (legible_step_cons h).1.unbroken_of_mem_words
  | define name body =>
      have hname : Unbroken name := (legible_define_cons h).1
      have hsize : Unbroken ("(" ++ toString body.length) :=
        .append (by decide) (Listing.unbroken_toString _)
      simp only [words, List.forall_mem_cons]
      exact ⟨by decide, hname, hsize, by decide, nofun⟩

theorem words_ne_nil (instruction : Instruction) : instruction.words ≠ [] := by
  cases instruction with
  | step s => exact List.cons_ne_nil _ _
  | define name body => exact List.cons_ne_nil _ _

/-- The words of a step are not those of a definition. -/
theorem words_step_ne_words_define (s : Step) (name : String) (body : List Instruction) :
    (step s).words ≠ (define name body).words := by
  intro h
  exact opcode_ne_defineOpcode s (List.cons.inj h).1

/-- The words of a definition tell its name and the length of its body. -/
theorem of_words_define_eq {name other : String} {body others : List Instruction}
    (h : (define name body).words = (define other others).words) :
    name = other ∧ body.length = others.length := by
  obtain ⟨hname, hrest⟩ := List.cons.inj (List.cons.inj h).2
  have hdigits := (String.append_right_inj "(").mp (List.cons.inj hrest).1
  exact ⟨hname, Decimal.eq_of_toString_eq hdigits⟩

end Instruction

/-! ## Lines -/

namespace Listing

open Instruction (step define legible_step_cons legible_define_cons)

/-- The lines of the body of an instruction. -/
def bodyLines (level : Nat) : Instruction → List String
  | .step _ => []
  | .define _ body => blockLines (level + 1) 0 body

/-- The words of an instruction stand in its line, before the lines of its body. -/
theorem blockLines_cons (level index : Nat) (instruction : Instruction)
    (rest : List Instruction) :
    blockLines level index (instruction :: rest) =
      line level index (" ".intercalate instruction.words) ::
        (bodyLines level instruction ++ blockLines level (index + 1) rest) := by
  cases instruction with
  | step s =>
      rw [blockLines, instructionLines]
      rfl
  | define name body =>
      have htext : s!"{Instruction.defineOpcode} {name} ({body.length} instructions)" =
          " ".intercalate (define name body).words := by
        show Instruction.defineOpcode ++ " " ++ name ++ " (" ++ toString body.length ++
          " instructions)" = _
        simp [Instruction.words, String.append_assoc, ← String.toList_inj]
      rw [blockLines, instructionLines, htext]
      rfl

/-- A line of unbroken words has no line feed in it. -/
theorem lineFeed_notMem_line (level index : Nat) {words : List String}
    (h : ∀ word ∈ words, Unbroken word) :
    '\n' ∉ (line level index (" ".intercalate words)).toList := by
  have hwords := lineFeed_notMem_intercalate fun word hmem => (h word hmem).lineFeed
  have hindex : '\n' ∉ (indexText index).toList := by
    rw [indexText, String.toList_ofList, List.mem_append, not_or]
    refine ⟨fun hzero => (nomatch List.eq_of_mem_replicate hzero), ?_⟩
    have hdigits := (unbroken_toString index).lineFeed
    rwa [Nat.toString_eq_repr, Nat.toList_repr] at hdigits
  rw [line]
  simp only [String.toList_append, String.toList_ofList, List.mem_append, not_or]
  exact ⟨⟨⟨fun hspace => (nomatch List.eq_of_mem_replicate hspace), hindex⟩, by decide⟩, hwords⟩

/-- The lines of a block have no line feeds in them. -/
theorem lineFeed_notMem_blockLines (block : List Instruction) :
    ∀ {level index : Nat}, Instruction.Legible block →
      ∀ text ∈ blockLines level index block, '\n' ∉ text.toList := by
  induction block using Instruction.block_induction with
  | nil =>
      intro level index _
      rw [blockLines]
      exact nofun
  | step s rest ih =>
      intro level index h
      rw [blockLines_cons, List.forall_mem_cons]
      exact ⟨lineFeed_notMem_line level index h.unbroken_of_mem_words,
        ih (legible_step_cons h).2⟩
  | define name body rest body_ih ih =>
      intro level index h
      obtain ⟨-, hbody, hrest⟩ := legible_define_cons h
      rw [blockLines_cons, List.forall_mem_cons, List.forall_mem_append]
      exact ⟨lineFeed_notMem_line level index h.unbroken_of_mem_words, body_ih hbody, ih hrest⟩

/-- The first of equal lines tell the words of the first instructions. -/
theorem words_eq_of_blockLines_cons_eq {level index : Nat} {first second : Instruction}
    {later later' : List Instruction} {rest rest' : List String}
    (hfirst : Instruction.Legible (first :: later))
    (hsecond : Instruction.Legible (second :: later'))
    (h : blockLines level index (first :: later) ++ rest =
      blockLines level index (second :: later') ++ rest') :
    first.words = second.words ∧
      bodyLines level first ++ (blockLines level (index + 1) later ++ rest) =
        bodyLines level second ++ (blockLines level (index + 1) later' ++ rest') := by
  rw [blockLines_cons, blockLines_cons, List.cons_append, List.cons_append,
    List.append_assoc, List.append_assoc] at h
  obtain ⟨hline, hlines⟩ := List.cons.inj h
  have htext : " ".intercalate first.words = " ".intercalate second.words :=
    (String.append_right_inj _).mp hline
  exact ⟨eq_of_intercalate_eq first.words_ne_nil second.words_ne_nil
    (fun word hmem => (hfirst.unbroken_of_mem_words word hmem).space)
    (fun word hmem => (hsecond.unbroken_of_mem_words word hmem).space) htext, hlines⟩

/-- **THE LINES OF A BLOCK TELL THE BLOCK** and where it ends, if it is known how many
    instructions it has. -/
theorem eq_of_blockLines_append_eq (block : List Instruction) :
    ∀ {other : List Instruction} {level index : Nat} {rest rest' : List String},
      Instruction.Legible block → Instruction.Legible other → block.length = other.length →
        blockLines level index block ++ rest = blockLines level index other ++ rest' →
          block = other ∧ rest = rest' := by
  -- on the first block: the line of a definition tells how many instructions the lines
  -- behind it have to give to the body, before those of the rest
  induction block using Instruction.block_induction with
  | nil =>
      intro other level index rest rest' _ _ hlength h
      have hnil : other = [] := List.length_eq_zero_iff.mp hlength.symm
      subst hnil
      exact ⟨rfl, h⟩
  | step s later ih =>
      intro other level index rest rest' hblock hother hlength h
      obtain ⟨second, later', rfl⟩ := List.exists_cons_of_length_eq_add_one hlength.symm
      obtain ⟨hwords, hlines⟩ := words_eq_of_blockLines_cons_eq hblock hother h
      obtain ⟨hstep, hlater⟩ := legible_step_cons hblock
      cases second with
      | step t =>
          obtain ⟨hstep', hlater'⟩ := legible_step_cons hother
          obtain ⟨rfl, hrest⟩ := ih hlater hlater' (Nat.succ.inj hlength) hlines
          exact ⟨by rw [Step.eq_of_words_eq hstep hstep' hwords], hrest⟩
      | define name body => exact absurd hwords (Instruction.words_step_ne_words_define s name body)
  | define name body later body_ih ih =>
      intro other level index rest rest' hblock hother hlength h
      obtain ⟨second, later', rfl⟩ := List.exists_cons_of_length_eq_add_one hlength.symm
      obtain ⟨hwords, hlines⟩ := words_eq_of_blockLines_cons_eq hblock hother h
      obtain ⟨-, hbody, hlater⟩ := legible_define_cons hblock
      cases second with
      | step t =>
          exact absurd hwords.symm (Instruction.words_step_ne_words_define t name body)
      | define name' body' =>
          obtain ⟨-, hbody', hlater'⟩ := legible_define_cons hother
          obtain ⟨rfl, hsize⟩ := Instruction.of_words_define_eq hwords
          obtain ⟨rfl, hbehind⟩ := body_ih hbody hbody' hsize hlines
          obtain ⟨rfl, hrest⟩ := ih hlater hlater' (Nat.succ.inj hlength) hbehind
          exact ⟨rfl, hrest⟩

end Listing

/-! ## Programs -/

namespace Program

/-- The functions of the program have names without breaks, and its literals are texts
    without breaks. -/
structure Legible (program : Program) : Prop where
  names : ∀ name, program.functions.contains name = true → Unbroken name
  operands : EveryStep (fun s => ∀ operand ∈ s.operands, operand.Legible) program.instructions

/-- The functions of a program are those that its block defines. -/
theorem legible_iff {program : Program} :
    program.Legible ↔ (∀ name ∈ definedNames program.instructions, Unbroken name) ∧
      EveryStep (fun s => ∀ operand ∈ s.operands, operand.Legible) program.instructions := by
  have hnames : ∀ name, program.functions.contains name = true ↔
      name ∈ definedNames program.instructions := by
    intro name
    rw [Definitions.contains_eq_true_iff, program.wellFormed.2]
    rfl
  constructor
  · intro h
    exact ⟨fun name hname => h.names name ((hnames name).mpr hname), h.operands⟩
  · rintro ⟨hdefined, hoperands⟩
    exact ⟨fun name hname => hdefined name ((hnames name).mp hname), hoperands⟩

/-- What is called is defined, so it is named without breaks. -/
theorem Legible.instructions {program : Program} (h : program.Legible) :
    Instruction.Legible program.instructions := by
  obtain ⟨hnames, hoperands⟩ := legible_iff.mp h
  refine ⟨hnames, fun block hblock s hs => ⟨?_, hoperands block hblock s hs⟩⟩
  intro function arguments hcall
  exact hnames function (program.wellFormed.1.called block hblock s hs function arguments hcall)

/-- The line of the heading that tells the sizes. -/
def sizesText (program : Program) : String :=
  " ".intercalate ["", toString program.size, "instructions,", toString program.functions.size,
    "functions"]

/-- A listing is its lines, each ended by a line feed. -/
theorem listing_eq (program : Program) :
    program.listing = String.join (([Listing.rule, " main", program.sizesText, Listing.rule] ++
      Listing.blockLines 0 0 program.instructions).map (· ++ "\n")) := by
  have hsizes : s!" {program.size} instructions, {program.functions.size} functions" =
      program.sizesText := by
    show " " ++ toString program.size ++ " instructions, " ++ toString program.functions.size ++
      " functions" = _
    simp [sizesText, String.append_assoc, ← String.toList_inj]
  rw [← hsizes]
  rfl

/-- The lines of the listing of a legible program have no line feeds in them. -/
theorem Legible.lineFeed_notMem {program : Program} (h : program.Legible) :
    ∀ text ∈ [Listing.rule, " main", program.sizesText, Listing.rule] ++
      Listing.blockLines 0 0 program.instructions, '\n' ∉ text.toList := by
  have hrule : '\n' ∉ Listing.rule.toList := by
    have hchars : Listing.rule.toList = List.replicate 40 '═' := String.toList_ofList
    intro hmem
    rw [hchars] at hmem
    exact absurd (List.eq_of_mem_replicate hmem) (by decide)
  have hsizes : '\n' ∉ program.sizesText.toList := by
    refine Listing.lineFeed_notMem_intercalate ?_
    simp only [List.forall_mem_cons]
    exact ⟨by decide, (Listing.unbroken_toString _).lineFeed, by decide,
      (Listing.unbroken_toString _).lineFeed, by decide, nofun⟩
  rw [List.forall_mem_append]
  simp only [List.forall_mem_cons]
  exact ⟨⟨hrule, by decide, hsizes, hrule, nofun⟩,
    Listing.lineFeed_notMem_blockLines program.instructions h.instructions⟩

/-- The sizes in the heading tell how many instructions a program has. -/
theorem size_eq_of_sizesText_eq {p q : Program} (h : p.sizesText = q.sizesText) :
    p.size = q.size := by
  have hspace : ∀ program : Program, ∀ word ∈ ["", toString program.size, "instructions,",
      toString program.functions.size, "functions"], ' ' ∉ word.toList := by
    intro program
    simp only [List.forall_mem_cons]
    exact ⟨by decide, (Listing.unbroken_toString _).space, by decide,
      (Listing.unbroken_toString _).space, by decide, nofun⟩
  have hwords := Listing.eq_of_intercalate_eq (List.cons_ne_nil _ _) (List.cons_ne_nil _ _)
    (hspace p) (hspace q) h
  exact Decimal.eq_of_toString_eq (List.cons.inj (List.cons.inj hwords).2).1

/-- **LISTINGS TELL PROGRAMS APART**: programs whose functions have names without spaces and
    line feeds, and whose literals are such texts, have the same listing only if they are
    the same. -/
theorem listing_eq_iff {p q : Program} (hp : p.Legible) (hq : q.Legible) :
    p.listing = q.listing ↔ p = q := by
  refine ⟨fun h => ?_, fun h => congrArg listing h⟩
  rw [listing_eq, listing_eq] at h
  have hlines := Listing.eq_of_join_eq hp.lineFeed_notMem hq.lineFeed_notMem h
  -- behind the rule and the title stand the sizes and another rule, and then the block
  have hbehind := (List.cons.inj (List.cons.inj hlines).2).2
  have hsizes : p.sizesText = q.sizesText := (List.cons.inj hbehind).1
  have hblock := (List.cons.inj (List.cons.inj hbehind).2).2
  have hend : Listing.blockLines 0 0 p.instructions ++ [] =
      Listing.blockLines 0 0 q.instructions ++ [] := by
    rw [List.append_nil, List.append_nil]
    exact hblock
  exact Program.ext (Listing.eq_of_blockLines_append_eq p.instructions hp.instructions
    hq.instructions (size_eq_of_sizesText_eq hsizes) hend).1

/-- A block with one reversal, which is the last step of an inner body or stands behind that
    body. -/
def sealingBlock (inner behind : List Instruction) : List Instruction :=
  [.define "seal" (.define "flip" (.step (.set (.argument 1)) :: inner) ::
      .step (.concat [.literal (Bytes.ofText "seal:"), .argument 1]) :: behind),
    .step (.call "seal" [.read (.bounded 2)])]

/-- The program with the reversal in the inner body. -/
def sealing : Program where
  instructions := sealingBlock [.step .reverse] []
  functions := ⟨Instruction.definitions (sealingBlock [.step .reverse] [])⟩
  valid := by rfl

/-- The program with the reversal in the outer body. -/
def sealingLate : Program where
  instructions := sealingBlock [] [.step .reverse]
  functions := ⟨Instruction.definitions (sealingBlock [] [.step .reverse])⟩
  valid := by rfl

/-- Programs that differ in the body to which one step belongs have different listings. -/
theorem listing_eq_iff_sealing :
    sealing.Legible ∧ sealingLate.Legible ∧ sealing.listing ≠ sealingLate.listing := by
  have hliteral : Unbroken "seal:" := by decide
  have hnames : Unbroken "seal" ∧ Unbroken "flip" := by decide
  have hlegible : sealing.Legible := by
    refine legible_iff.mpr ⟨?_, ?_⟩
    · simp [sealing, sealingBlock, hnames]
    · simp [sealing, sealingBlock, Step.operands, Operand.Legible, Bytes.toText?_ofText, hliteral]
  have hlegible' : sealingLate.Legible := by
    refine legible_iff.mpr ⟨?_, ?_⟩
    · simp [sealingLate, sealingBlock, hnames]
    · simp [sealingLate, sealingBlock, Step.operands, Operand.Legible, Bytes.toText?_ofText,
        hliteral]
  refine ⟨hlegible, hlegible', fun h => ?_⟩
  have hsame := (listing_eq_iff hlegible hlegible').mp h
  exact absurd hsame (by decide +kernel)

/-- A literal with a space in it stands in a line like two operands. -/
example : Listing.blockLines 0 0 [.step (.concat [.literal (Bytes.ofText "a s:b")])] =
    Listing.blockLines 0 0
      [.step (.concat [.literal (Bytes.ofText "a"), .literal (Bytes.ofText "b")])] := by
  decide +kernel

end Program

end Attest
