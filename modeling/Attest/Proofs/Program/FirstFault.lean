import Attest.Proofs.Program.Offence

/-! # Where a program text is refused

    A `Way` leads from a block through the bodies of definitions to an item; it keeps what
    stands before and after on every level, so filling its place gives the block again.  A
    way is clear when the instructions before its place can be read, on every level.

    * What is refused at the end of a clear way is refused as a whole, with the places on the
      way around the fault (`readBlock_fill_eq_error`): by induction on the clear way.
    * Every refusal is of this kind, with an item at the end that lacks the form of an
      instruction (`exists_way_of_readBlock_eq_error`): by induction on the levels that are
      left, because a well formed item that is refused is a definition one level further in.

    What stands after the place has no part in the first of them, so it is without effect
    on the fault.  The message of the fault gives the way in words. -/

namespace Attest

namespace Fault

/-- The fault with a path around its own. -/
def under (path : List Place) (fault : Fault) : Fault :=
  path.foldr located fault

@[simp] theorem under_malformed (path inner : List Place) (defect : Defect) :
    under path (.malformed inner defect) = .malformed (path ++ inner) defect := by
  induction path with
  | nil => rfl
  | cons place path ih =>
      show located place (under path _) = _
      rw [ih]
      rfl

@[simp] theorem under_streamPolicy (path inner : List Place) (breach : Breach) :
    under path (.streamPolicy inner breach) = .streamPolicy (path ++ inner) breach := by
  induction path with
  | nil => rfl
  | cons place path ih =>
      show located place (under path _) = _
      rw [ih]
      rfl

theorem pathText_cons (place : Place) (path : List Place) (found : String) :
    pathText (place :: path) found = place.text ++ ": " ++ pathText path found := by
  rw [pathText, List.map_cons, List.cons_append, String.intercalate_cons_of_ne_nil]
  · rfl
  · exact List.append_ne_nil_of_right_ne_nil _ (List.cons_ne_nil _ _)

/-- A path in words: every place is followed by a colon. -/
def placesText (path : List Place) : String :=
  String.join (path.map fun place => place.text ++ ": ")

/-- The places of a path stand before what was found. -/
theorem pathText_append (path inner : List Place) (found : String) :
    pathText (path ++ inner) found = placesText path ++ pathText inner found := by
  unfold placesText
  induction path with
  | nil => rw [List.nil_append, List.map_nil, String.join_nil, String.empty_append]
  | cons place path ih =>
      rw [List.cons_append, pathText_cons, ih, List.map_cons, String.join_cons,
        String.append_assoc, String.append_assoc, String.append_assoc]

/-- How the messages of faults with a path begin. -/
def headings : List String :=
  ["malformed program: ", "stream policy violation: "]

/-- The message of a fault with a path around its own gives that path behind its heading. -/
theorem BlamesToken.message_under {cause : Fault} {p : String → Prop} (h : cause.BlamesToken p)
    (path : List Place) :
    ∃ heading ∈ headings, ∃ found, cause.message = heading ++ found ∧
      (cause.under path).message = heading ++ placesText path ++ found := by
  rcases h.cases with ⟨inner, defect, rfl⟩ | ⟨token, count, -, -, -, rfl⟩
  · refine ⟨"malformed program: ", List.mem_cons_self, pathText inner defect.message, rfl, ?_⟩
    rw [under_malformed, String.append_assoc, ← pathText_append]
    rfl
  · refine ⟨"stream policy violation: ", List.mem_cons_of_mem _ List.mem_cons_self,
      pathText [] (Breach.negativeLength count).message, rfl, ?_⟩
    rw [ofBreach, under_streamPolicy, String.append_assoc, ← pathText_append]
    rfl

end Fault

namespace Instruction

/-! ## Ways -/

/-- The way to an item of a block, through the bodies of the definitions around it. -/
inductive Way
  /-- The item stands in the block itself. -/
  | here (before after : List Json)
  /-- The item stands further on the way through the body of a definition. -/
  | inside (before : List Json) (name : String) (inner : Way) (after : List Json)

namespace Way

/-- The block with an item at the end of the way. -/
def fill (item : Json) : Way → List Json
  | here before after => before ++ item :: after
  | inside before name inner after =>
      before ++ .array [.string defineOpcode, .string name, .array (inner.fill item)] :: after

/-- The places on the way. -/
def path : Way → List Place
  | here before _ => [.instruction before.length]
  | inside before name inner _ =>
      .instruction before.length :: .function name :: inner.path

/-- The way in words, as messages give it. -/
def text (way : Way) : String :=
  Fault.placesText way.path

example : text (.inside [.null] "f" (.here [] []) []) =
    "instruction 1: function 'f': instruction 0: " := by decide

/-- On a way from a block where definitions may nest `levels` deep to a place where `left`
    levels are left, all instructions before the place can be read. -/
inductive Clear : Nat → Way → Nat → Prop
  | here {levels : Nat} {before : List Json} (after : List Json)
      (hbefore : ∃ block, readBlock levels (.array before) = .ok block) :
      Clear levels (.here before after) levels
  | inside {levels left : Nat} {before : List Json} {name : String} {inner : Way}
      (after : List Json)
      (hbefore : ∃ block, readBlock (levels + 1) (.array before) = .ok block)
      (hname : name ≠ "") (hinner : Clear levels inner left) :
      Clear (levels + 1) (.inside before name inner after) left

/-- Two ways differ at most in what stands after the place. -/
inductive SameBefore : Way → Way → Prop
  | here (before after other : List Json) : SameBefore (.here before after) (.here before other)
  | inside {inner further : Way} (h : SameBefore inner further) (before : List Json)
      (name : String) (after other : List Json) :
      SameBefore (.inside before name inner after) (.inside before name further other)

theorem SameBefore.path_eq {way other : Way} (h : way.SameBefore other) :
    other.path = way.path := by
  induction h with
  | here => rfl
  | inside _ before name after other ih => rw [path, path, ih]

/-- A way stays clear when something else stands after its place. -/
theorem Clear.of_sameBefore {levels left : Nat} {way other : Way}
    (h : Clear levels way left) (hsame : way.SameBefore other) : Clear levels other left := by
  induction hsame generalizing levels with
  | here before after other =>
      cases h with
      | here _ hbefore => exact .here other hbefore
  | inside _ before name after other ih =>
      cases h with
      | inside _ hbefore hname hinner => exact .inside other hbefore hname (ih hinner)

end Way

/-! ## Blocks that are refused -/

/-- A block is refused where reading it first meets an instruction that is refused. -/
theorem readInstructions_eq_error {readBody : Option (Json → Except Fault (List Instruction))}
    {items : List Json} :
    ∀ {index : Nat} {fault : Fault},
      readInstructions readBody index items = .error fault ↔
        ∃ before item after cause, items = before ++ item :: after ∧
          (∃ block, readInstructions readBody index before = .ok block) ∧
          readInstruction readBody item = .error cause ∧
          fault = cause.located (.instruction (index + before.length)) := by
  induction items with
  | nil =>
      intro index fault
      refine ⟨nofun, ?_⟩
      rintro ⟨before, item, after, cause, h, -⟩
      exact absurd h.symm (List.append_ne_nil_of_right_ne_nil before (List.cons_ne_nil item after))
  | cons first rest ih =>
      intro index fault
      rw [readInstructions, bind_eq_error]
      constructor
      · rintro (h | ⟨instruction, hfirst, h⟩)
        · obtain ⟨cause, hcause, rfl⟩ := mapError_eq_error.mp h
          exact ⟨[], first, rest, cause, rfl, ⟨[], rfl⟩, hcause, rfl⟩
        · rcases bind_eq_error.mp h with h | ⟨_, _, h⟩
          · obtain ⟨before, item, after, cause, rfl, ⟨block, hblock⟩, hcause, rfl⟩ := ih.mp h
            refine ⟨first :: before, item, after, cause, rfl, ⟨instruction :: block, ?_⟩,
              hcause, ?_⟩
            · exact bind_eq_ok.mpr ⟨instruction, hfirst, bind_eq_ok.mpr ⟨block, hblock, rfl⟩⟩
            · rw [List.length_cons, Nat.add_assoc, Nat.add_comm 1]
          -- putting an instruction in front of a block that is read does not fail
          · cases h
      · rintro ⟨before, item, after, cause, hsplit, ⟨block, hblock⟩, hcause, rfl⟩
        cases before with
        | nil =>
            cases hsplit
            exact Or.inl (mapError_eq_error.mpr ⟨cause, hcause, rfl⟩)
        | cons earlier before =>
            cases hsplit
            obtain ⟨instruction, hfirst, hblock⟩ := bind_eq_ok.mp hblock
            obtain ⟨others, hothers, -⟩ := bind_eq_ok.mp hblock
            refine Or.inr ⟨instruction, hfirst, bind_eq_error.mpr (Or.inl (ih.mpr ?_))⟩
            refine ⟨before, item, after, cause, rfl, ⟨others, hothers⟩, hcause, ?_⟩
            rw [List.length_cons, Nat.add_assoc, Nat.add_comm 1]

theorem readBlock_eq_error {levels : Nat} {items : List Json} {fault : Fault} :
    readBlock levels (.array items) = .error fault ↔
      ∃ before item after cause, items = before ++ item :: after ∧
        (∃ block, readBlock levels (.array before) = .ok block) ∧
        readInstruction (bodyReader levels) item = .error cause ∧
        fault = cause.located (.instruction before.length) := by
  have h := @readInstructions_eq_error (bodyReader levels) items 0 fault
  simp only [Nat.zero_add] at h
  rw [readBlock_eq]
  exact h

/-- What is refused at the end of a clear way is refused as a whole. -/
theorem readBlock_fill_eq_error {levels left : Nat} {way : Way} {item : Json} {cause : Fault}
    (hclear : way.Clear levels left)
    (h : readInstruction (bodyReader left) item = .error cause) :
    readBlock levels (.array (way.fill item)) = .error (cause.under way.path) := by
  induction hclear with
  | here after hbefore =>
      exact readBlock_eq_error.mpr ⟨_, item, after, cause, rfl, hbefore, h, rfl⟩
  | @inside levels left before name inner after hbefore hname _ ih =>
      refine readBlock_eq_error.mpr ⟨before, _, after,
        (cause.under inner.path).located (.function name), rfl, hbefore, ?_, rfl⟩
      rw [readInstruction_named _ _ hname]
      exact mapError_eq_error.mpr ⟨_, map_eq_error.mpr (ih h), rfl⟩

/-- Every refusal comes from an item without the form of an instruction at the end of a clear
    way. -/
theorem exists_way_of_readBlock_eq_error {levels : Nat} :
    ∀ {items : List Json} {fault : Fault}, readBlock levels (.array items) = .error fault →
      ∃ (way : Way) (left : Nat) (item : Json) (cause : Fault),
        items = way.fill item ∧ way.Clear levels left ∧ ¬ Shaped left item ∧
        readInstruction (bodyReader left) item = .error cause ∧
        fault = cause.under way.path := by
  induction levels using Nat.strongRecOn with
  | ind levels ih =>
      intro items fault h
      obtain ⟨before, item, after, cause, rfl, hbefore, hcause, rfl⟩ := readBlock_eq_error.mp h
      by_cases hshaped : Shaped levels item
      -- what has its form and is refused is a definition, so the way goes on in its body
      · obtain ⟨inner, name, body, deeper, rfl, hname, rfl, hbody, rfl⟩ :=
          hshaped.readInstruction_eq_error hcause
        obtain ⟨way, left, item, own, rfl, hclear, hitem, hown, rfl⟩ :=
          ih inner (Nat.lt_succ_self inner) hbody
        exact ⟨.inside before name way after, left, item, own, rfl,
          .inside after hbefore hname hclear, hitem, hown, rfl⟩
      · exact ⟨.here before after, levels, item, cause, rfl, .here after hbefore, hshaped,
          hcause, rfl⟩

/-! ## The first bad instruction -/

/-- **A REFUSAL POINTS AT THE FIRST BAD INSTRUCTION**: a block that is refused has a way, in
    which all instructions before the place can be read, to an item that lacks the form of an
    instruction; the message gives the way in words and then what was found there; and
    whatever else stands after the place on any level, the fault is the same. -/
theorem readBlock_refused_at (items : List Json) (fault : Fault)
    (h : readBlock mostNested (.array items) = .error fault) :
    ∃ (way : Way) (left : Nat) (item : Json) (cause : Fault),
      items = way.fill item ∧ way.Clear mostNested left ∧ ¬ Shaped left item ∧
      readInstruction (bodyReader left) item = .error cause ∧
      (∃ heading ∈ Fault.headings, ∃ found, cause.message = heading ++ found ∧
        fault.message = heading ++ way.text ++ found) ∧
      ∀ other, way.SameBefore other →
        readBlock mostNested (.array (other.fill item)) = .error fault := by
  obtain ⟨way, left, item, cause, hitems, hclear, hshaped, hcause, rfl⟩ :=
    exists_way_of_readBlock_eq_error h
  have hmessage := (blamesToken_of_readInstruction hshaped hcause).message_under way.path
  refine ⟨way, left, item, cause, hitems, hclear, hshaped, hcause, hmessage, ?_⟩
  intro other hsame
  rw [← hsame.path_eq]
  exact readBlock_fill_eq_error (hclear.of_sameBefore hsame) hcause

/-- A block that is refused for the second instruction in the body of a definition. -/
def strayed : List Json :=
  [.array [.string "op_rev"],
    .array [.string defineOpcode, .string "f",
      .array [.array [.string "op_rev"], .array [.string "op_jump"], .null]],
    .null]

/-- The block is refused for an unknown opcode, and would be with anything behind it. -/
theorem readBlock_refused_at_strayed :
    readBlock mostNested (.array strayed) =
        .error (.malformed [.instruction 1, .function "f", .instruction 1]
          (.unknownOpcode "op_jump")) ∧
      ∃ (way : Way) (item : Json), strayed = way.fill item ∧
        ∀ other, way.SameBefore other →
          readBlock mostNested (.array (other.fill item)) =
            .error (.malformed [.instruction 1, .function "f", .instruction 1]
              (.unknownOpcode "op_jump")) := by
  have h : readBlock mostNested (.array strayed) =
      .error (.malformed [.instruction 1, .function "f", .instruction 1]
        (.unknownOpcode "op_jump")) := by rfl
  obtain ⟨way, left, item, cause, hitems, -, -, -, -, hsame⟩ := readBlock_refused_at strayed _ h
  exact ⟨h, way, item, hitems, hsame⟩

end Instruction

end Attest
