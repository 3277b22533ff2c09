import Attest.Proofs.Program.Grammar

/-! # What is refused about an instruction

    Most instructions that are refused have a defect of their own.  The others take operands,
    and are refused for a token that is the first of their values to stand for no operand.
    `Instruction.Reaches` says that reading an instruction comes to a token: the opcode takes
    operands, and the values before the token stand for some.

    * A token that is reached and refused is what the instruction is refused for
      (`Reaches.readInstruction_eq_error`).
    * An instruction that lacks its form is refused for a defect, or for a token that it
      reaches (`blamesToken_of_readInstruction`).  `Fault.BlamesToken` says this of a fault;
      it goes up from operands to steps to instructions. -/

namespace Attest

/-- A fault is a defect, or what a token with the property is refused for. -/
def Fault.BlamesToken (p : String → Prop) (fault : Fault) : Prop :=
  (∃ path defect, fault = .malformed path defect) ∨
    ∃ token, p token ∧ Operand.ofToken token = .error fault

namespace Fault

theorem blamesToken_ofDefect (p : String → Prop) (defect : Defect) :
    BlamesToken p (.ofDefect defect) :=
  Or.inl ⟨[], defect, rfl⟩

theorem BlamesToken.imp {p q : String → Prop} {fault : Fault} (h : BlamesToken p fault)
    (himp : ∀ token, p token → q token) : BlamesToken q fault := by
  rcases h with hdefect | ⟨token, htoken, hfault⟩
  · exact Or.inl hdefect
  · exact Or.inr ⟨token, himp token htoken, hfault⟩

/-- The only breach that a token is blamed for is a negative number of bytes. -/
theorem BlamesToken.cases {p : String → Prop} {fault : Fault} (h : BlamesToken p fault) :
    (∃ path defect, fault = .malformed path defect) ∨
      ∃ token count, p token ∧ Operand.NegativeRead token count ∧ Decimal.FitsWord count ∧
        fault = .ofBreach (.negativeLength count) := by
  rcases h with hdefect | ⟨token, htoken, hfault⟩
  · exact Or.inl hdefect
  · rcases Operand.ofToken_eq_error hfault with ⟨defect, rfl⟩ | ⟨count, hcount, hfits, rfl⟩
    · exact Or.inl ⟨[], defect, rfl⟩
    · exact Or.inr ⟨token, count, htoken, hcount, hfits, rfl⟩

end Fault

open Fault (BlamesToken blamesToken_ofDefect)

/-! ## Operands -/

namespace Operand

/-- Reading operands comes to a token: the values before it stand for operands. -/
def Reaches (values : List Json) (token : String) : Prop :=
  ∃ front rest, values = front ++ .string token :: rest ∧
    ∀ value ∈ front, ∃ operand, Denoted value operand

theorem reaches_singleton (token : String) : Reaches [.string token] token :=
  ⟨[], [], rfl, nofun⟩

theorem Reaches.eq_of_singleton {value : Json} {token : String} (h : Reaches [value] token) :
    value = .string token := by
  obtain ⟨front, rest, hsplit, -⟩ := h
  cases front with
  | nil =>
      cases hsplit
      rfl
  | cons first front =>
      exact absurd (List.cons.inj hsplit).2.symm
        (List.append_ne_nil_of_right_ne_nil front (List.cons_ne_nil _ _))

/-- A token that is reached and refused is what the operands are refused for. -/
theorem Reaches.mapM_ofJson_eq_error {values : List Json} {token : String} {fault : Fault}
    (hreaches : Reaches values token) (h : ofToken token = .error fault) :
    values.mapM ofJson = .error fault := by
  obtain ⟨front, rest, rfl, hfront⟩ := hreaches
  refine mapM_eq_error.mpr ⟨front, _, rest, rfl, fun value hvalue => ?_, h⟩
  obtain ⟨operand, hoperand⟩ := hfront value hvalue
  exact ⟨operand, ofJson_eq_ok_iff.mpr hoperand⟩

theorem blamesToken_of_ofJson {value : Json} {fault : Fault} (h : ofJson value = .error fault) :
    fault.BlamesToken fun token => value = .string token := by
  cases value with
  | string token => exact Or.inr ⟨token, rfl, h⟩
  | _ =>
      cases h
      exact blamesToken_ofDefect _ _

theorem blamesToken_of_mapM_ofJson {values : List Json} {fault : Fault}
    (h : values.mapM ofJson = .error fault) : fault.BlamesToken (Reaches values) := by
  obtain ⟨front, value, rest, rfl, hfront, hvalue⟩ := mapM_eq_error.mp h
  refine (blamesToken_of_ofJson hvalue).imp ?_
  rintro token rfl
  refine ⟨front, rest, rfl, fun earlier hearlier => ?_⟩
  obtain ⟨operand, hoperand⟩ := hfront earlier hearlier
  exact ⟨operand, ofJson_eq_ok_iff.mp hoperand⟩

end Operand

namespace Instruction

/-! ## Steps -/

/-- The opcodes that take one operand, or the token of a slot in its place. -/
def singleOpcodes : List String :=
  ["op_store", "op_load", "op_swap", "op_set", "op_compose"]

/-- The values behind an opcode are read as operands. -/
inductive TakesOperands : String → List Json → Prop
  | concat (values : List Json) : TakesOperands "op_cat" values
  | hash (values : List Json) : TakesOperands "op_sha256" values
  | single {opcode : String} (h : opcode ∈ singleOpcodes) (value : Json) :
      TakesOperands opcode [value]
  | call {function : String} (hname : function ≠ "") (values : List Json) :
      TakesOperands ("f_" ++ function) values

theorem readSlot_eq_error_of_token {token : String} {fault : Fault} (opcode : String)
    (h : Operand.ofToken token = .error fault) :
    readSlot opcode [.string token] = .error fault :=
  bind_eq_error.mpr (Or.inl h)

/-- A token that is reached and refused is what the step is refused for. -/
theorem TakesOperands.readStep_eq_error {opcode : String} {values : List Json} {token : String}
    {fault : Fault} (htakes : TakesOperands opcode values)
    (hreaches : Operand.Reaches values token) (h : Operand.ofToken token = .error fault) :
    readStep opcode values = .error fault := by
  have hvalues := hreaches.mapM_ofJson_eq_error h
  cases htakes with
  | concat => exact map_eq_error.mpr hvalues
  | hash => exact map_eq_error.mpr hvalues
  | single hopcode value =>
      obtain rfl := hreaches.eq_of_singleton
      simp only [singleOpcodes, List.mem_cons, List.not_mem_nil, or_false] at hopcode
      rcases hopcode with rfl | rfl | rfl | rfl | rfl
      · exact map_eq_error.mpr (readSlot_eq_error_of_token _ h)
      · exact map_eq_error.mpr (readSlot_eq_error_of_token _ h)
      · exact map_eq_error.mpr (readSlot_eq_error_of_token _ h)
      · exact map_eq_error.mpr h
      · exact map_eq_error.mpr h
  | call hname =>
      rw [readStep_call _ _ hname]
      exact map_eq_error.mpr hvalues

/-- Reading a step comes to a token: its opcode takes operands, and the values before the token
    stand for some. -/
structure ReachesBehind (opcode : String) (values : List Json) (token : String) : Prop where
  takes : TakesOperands opcode values
  values : Operand.Reaches values token

/-- The only value behind one of these opcodes is reached. -/
theorem blamesToken_of_ofJson {opcode : String} (hopcode : opcode ∈ singleOpcodes)
    {value : Json} {fault : Fault} (h : Operand.ofJson value = .error fault) :
    fault.BlamesToken (ReachesBehind opcode [value]) := by
  refine (Operand.blamesToken_of_ofJson h).imp ?_
  rintro token rfl
  exact ⟨.single hopcode _, Operand.reaches_singleton token⟩

theorem blamesToken_of_readOperand {opcode : String} (hopcode : opcode ∈ singleOpcodes)
    {values : List Json} {fault : Fault} (h : readOperand opcode values = .error fault) :
    fault.BlamesToken (ReachesBehind opcode values) := by
  unfold readOperand at h
  split at h
  · exact blamesToken_of_ofJson hopcode h
  · cases h
    exact blamesToken_ofDefect _ _

theorem blamesToken_of_readSlot {opcode : String} (hopcode : opcode ∈ singleOpcodes)
    {values : List Json} {fault : Fault} (h : readSlot opcode values = .error fault) :
    fault.BlamesToken (ReachesBehind opcode values) := by
  unfold readSlot at h
  split at h
  · dsimp only at h
    split at h
    · rw [Operand.slotAt_eq_error h]
      exact blamesToken_ofDefect _ _
    · rcases bind_eq_error.mp h with h | ⟨operand, -, h⟩
      · exact blamesToken_of_ofJson hopcode h
      · split at h
        · exact nomatch h
        · cases h
          exact blamesToken_ofDefect _ _
  · cases h
    exact blamesToken_ofDefect _ _

theorem expectArity_eq_error {opcode : String} {expected : Nat} {values : List Json}
    {fault : Fault} (h : expectArity opcode expected values = .error fault) :
    fault = .ofDefect (.wrongArity opcode expected values.length) := by
  unfold expectArity at h
  split at h
  · exact nomatch h
  · exact (Except.error.inj h).symm

/-- A step is refused for a defect, or for a token that it reaches. -/
theorem blamesToken_of_readStep {opcode : String} {values : List Json} {fault : Fault}
    (h : readStep opcode values = .error fault) :
    fault.BlamesToken (ReachesBehind opcode values) := by
  unfold readStep at h
  split at h
  · exact (Operand.blamesToken_of_mapM_ofJson (map_eq_error.mp h)).imp
      fun _ hreaches => ⟨.concat values, hreaches⟩
  · exact (Operand.blamesToken_of_mapM_ofJson (map_eq_error.mp h)).imp
      fun _ hreaches => ⟨.hash values, hreaches⟩
  · rcases bind_eq_error.mp h with h | ⟨_, _, h⟩
    · rw [expectArity_eq_error h]
      exact blamesToken_ofDefect _ _
    · exact nomatch h
  · exact blamesToken_of_readSlot (by decide) (map_eq_error.mp h)
  · exact blamesToken_of_readSlot (by decide) (map_eq_error.mp h)
  · exact blamesToken_of_readSlot (by decide) (map_eq_error.mp h)
  · exact blamesToken_of_readOperand (by decide) (map_eq_error.mp h)
  · exact blamesToken_of_readOperand (by decide) (map_eq_error.mp h)
  · split at h
    · cases h
      exact blamesToken_ofDefect _ _
    · next function hname hopcode =>
        obtain ⟨rfl, hname⟩ := eq_callOpcode hopcode hname
        exact (Operand.blamesToken_of_mapM_ofJson (map_eq_error.mp h)).imp
          fun _ hreaches => ⟨.call hname values, hreaches⟩
    · cases h
      exact blamesToken_ofDefect _ _

/-! ## Instructions -/

/-- Reading an instruction comes to a token. -/
inductive Reaches : Json → String → Prop
  | step {opcode : String} {values : List Json} {token : String}
      (h : ReachesBehind opcode values token) :
      Reaches (.array (.string opcode :: values)) token

/-- No definition takes operands. -/
theorem TakesOperands.ne_defineOpcode {opcode : String} {values : List Json}
    (h : TakesOperands opcode values) : opcode ≠ defineOpcode := by
  cases h with
  | concat => decide
  | hash => decide
  | single hopcode =>
      rintro rfl
      exact absurd hopcode (by decide)
  | @call function => exact callOpcode_ne function (by decide)

/-- A token that is reached and refused is what the instruction is refused for. -/
theorem Reaches.readInstruction_eq_error {item : Json} {token : String} {fault : Fault}
    (hreaches : Reaches item token) (h : Operand.ofToken token = .error fault)
    (readBody : Option (Json → Except Fault (List Instruction))) :
    readInstruction readBody item = .error fault := by
  obtain ⟨htakes, hvalues⟩ := hreaches
  rw [readInstruction, if_neg htakes.ne_defineOpcode]
  exact map_eq_error.mpr (htakes.readStep_eq_error hvalues h)

/-- A definition that lacks its form is malformed. -/
theorem malformed_of_readDefinition {levels : Nat} {values : List Json} {fault : Fault}
    (hshaped : ¬ Shaped levels (.array (.string defineOpcode :: values)))
    (h : readDefinition (bodyReader levels) values = .error fault) :
    ∃ path defect, fault = .malformed path defect := by
  unfold readDefinition at h
  split at h
  · cases levels with
    | zero => exact ⟨[], _, (Except.error.inj h).symm⟩
    | succ inner =>
        dsimp only [bodyReader] at h
        split at h
        · exact ⟨[], _, (Except.error.inj h).symm⟩
        · next body _ name hname =>
            obtain ⟨cause, hcause, rfl⟩ := mapError_eq_error.mp h
            have hbody := map_eq_error.mp hcause
            rw [readBlock_eq] at hbody
            -- nothing but the body is left to lack its form
            cases body with
            | array items => exact absurd (.define hname items) hshaped
            | _ =>
                cases hbody
                exact ⟨[.function name], _, rfl⟩
        · exact ⟨[], _, (Except.error.inj h).symm⟩
  · exact ⟨[], _, (Except.error.inj h).symm⟩

/-- An instruction that lacks its form is refused for a defect, or for a token that it
    reaches. -/
theorem blamesToken_of_readInstruction {levels : Nat} {item : Json} {fault : Fault}
    (hshaped : ¬ Shaped levels item)
    (h : readInstruction (bodyReader levels) item = .error fault) :
    fault.BlamesToken (Reaches item) := by
  unfold readInstruction at h
  split at h
  · cases h
    exact blamesToken_ofDefect _ _
  · split at h
    · next hopcode =>
        rw [hopcode] at hshaped
        exact Or.inl (malformed_of_readDefinition hshaped h)
    · exact (blamesToken_of_readStep (map_eq_error.mp h)).imp fun _ => Reaches.step
  · cases h
    exact blamesToken_ofDefect _ _
  · cases h
    exact blamesToken_ofDefect _ _

end Instruction

end Attest
