import Mathlib.Data.List.Forall2

/-! # Sequences that may fail

    What a sequence of computations in `Except` says about its parts when it
    succeeds. -/

namespace Attest

variable {ε ε' α β : Type}

/-- A sequence succeeds when both of its parts do. -/
theorem bind_eq_ok {first : Except ε α} {next : α → Except ε β} {result : β} :
    (first >>= next) = .ok result ↔ ∃ value, first = .ok value ∧ next value = .ok result := by
  cases first with
  | error fault => exact ⟨nofun, fun ⟨_, h, _⟩ => nomatch h⟩
  | ok value =>
      constructor
      · intro h
        exact ⟨value, rfl, h⟩
      · rintro ⟨other, h, hnext⟩
        cases h
        exact hnext

/-- What follows a check is reached when the check succeeds. -/
theorem check_bind_eq_ok {check : Except ε Unit} {next : Unit → Except ε β} {result : β} :
    (check >>= next) = .ok result ↔ check = .ok () ∧ next () = .ok result := by
  rw [bind_eq_ok]
  exact ⟨fun ⟨(), h, hnext⟩ => ⟨h, hnext⟩, fun ⟨h, hnext⟩ => ⟨(), h, hnext⟩⟩

/-- A computation and a function of its value succeed together. -/
theorem map_eq_ok {f : α → β} {first : Except ε α} {result : β} :
    f <$> first = .ok result ↔ ∃ value, first = .ok value ∧ result = f value := by
  cases first with
  | error fault => exact ⟨nofun, fun ⟨_, h, _⟩ => nomatch h⟩
  | ok value =>
      constructor
      · intro h
        exact ⟨value, rfl, (Except.ok.inj h).symm⟩
      · rintro ⟨other, h, rfl⟩
        cases h
        rfl

/-- Naming the place of a fault does not touch success. -/
theorem mapError_eq_ok {rename : ε → ε'} {result : Except ε α} {value : α} :
    result.mapError rename = .ok value ↔ result = .ok value := by
  cases result with
  | error fault => exact ⟨nofun, nofun⟩
  | ok other => exact ⟨fun h => congrArg _ (Except.ok.inj h), fun h => congrArg _ (Except.ok.inj h)⟩

/-- A sequence fails in its first part, or in what follows a success of it. -/
theorem bind_eq_error {first : Except ε α} {next : α → Except ε β} {fault : ε} :
    (first >>= next) = .error fault ↔
      first = .error fault ∨ ∃ value, first = .ok value ∧ next value = .error fault := by
  cases first with
  | error other =>
      refine ⟨fun h => Or.inl ?_, ?_⟩
      · cases h
        rfl
      · rintro (h | ⟨_, h, _⟩)
        · cases h
          rfl
        · exact nomatch h
  | ok value =>
      refine ⟨fun h => Or.inr ⟨value, rfl, h⟩, ?_⟩
      rintro (h | ⟨other, h, hnext⟩)
      · exact nomatch h
      · cases h
        exact hnext

/-- A function of the value does not touch failure. -/
theorem map_eq_error {f : α → β} {first : Except ε α} {fault : ε} :
    f <$> first = .error fault ↔ first = .error fault := by
  cases first with
  | error other =>
      exact ⟨fun h => congrArg _ (Except.error.inj h), fun h => congrArg _ (Except.error.inj h)⟩
  | ok value => exact ⟨nofun, nofun⟩

/-- Naming the place of a fault changes the fault. -/
theorem mapError_eq_error {rename : ε → ε'} {result : Except ε α} {fault : ε'} :
    result.mapError rename = .error fault ↔
      ∃ cause, result = .error cause ∧ fault = rename cause := by
  cases result with
  | error cause =>
      constructor
      · intro h
        exact ⟨cause, rfl, (Except.error.inj h).symm⟩
      · rintro ⟨other, h, rfl⟩
        cases h
        rfl
  | ok value => exact ⟨nofun, fun ⟨_, h, _⟩ => nomatch h⟩

/-- A check of every element succeeds when the check of each element does. -/
theorem forM_eq_ok {check : α → Except ε Unit} {elements : List α} :
    elements.forM check = .ok () ↔ ∀ element ∈ elements, check element = .ok () := by
  induction elements with
  | nil => exact ⟨nofun, fun _ => rfl⟩
  | cons element rest ih =>
      show (check element >>= fun _ => rest.forM check) = _ ↔ _
      rw [check_bind_eq_ok, List.forall_mem_cons, ← ih]

/-- All elements are taken when each of them is, in their order. -/
theorem mapM_eq_ok {f : α → Except ε β} {elements : List α} :
    ∀ {results : List β},
      elements.mapM f = .ok results ↔
        List.Forall₂ (fun element result => f element = .ok result) elements results := by
  induction elements with
  | nil =>
      intro results
      rw [List.mapM_nil, List.forall₂_nil_left_iff]
      exact ⟨fun h => (Except.ok.inj h).symm, fun h => congrArg _ h.symm⟩
  | cons element rest ih =>
      intro results
      rw [List.mapM_cons, bind_eq_ok, List.forall₂_cons_left_iff]
      constructor
      · rintro ⟨first, hfirst, h⟩
        obtain ⟨others, hothers, h⟩ := bind_eq_ok.mp h
        exact ⟨first, others, hfirst, ih.mp hothers, (Except.ok.inj h).symm⟩
      · rintro ⟨first, others, hfirst, hothers, rfl⟩
        exact ⟨first, hfirst, bind_eq_ok.mpr ⟨others, ih.mpr hothers, rfl⟩⟩

/-- Taking elements fails as it does for the first of them that cannot be taken. -/
theorem mapM_eq_error {f : α → Except ε β} {elements : List α} {fault : ε} :
    elements.mapM f = .error fault ↔
      ∃ front element rest, elements = front ++ element :: rest ∧
        (∀ earlier ∈ front, ∃ result, f earlier = .ok result) ∧ f element = .error fault := by
  induction elements with
  | nil =>
      rw [List.mapM_nil]
      refine ⟨nofun, ?_⟩
      rintro ⟨front, element, rest, h, -, -⟩
      exact absurd h.symm (List.append_ne_nil_of_right_ne_nil front (List.cons_ne_nil element rest))
  | cons first others ih =>
      rw [List.mapM_cons, bind_eq_error]
      constructor
      · rintro (h | ⟨result, hresult, h⟩)
        · exact ⟨[], first, others, rfl, nofun, h⟩
        · rcases bind_eq_error.mp h with h | ⟨_, _, h⟩
          · obtain ⟨front, element, rest, rfl, hfront, hfault⟩ := ih.mp h
            exact ⟨first :: front, element, rest, rfl,
              List.forall_mem_cons.mpr ⟨⟨result, hresult⟩, hfront⟩, hfault⟩
          · exact nomatch h
      · rintro ⟨front, element, rest, hsplit, hfront, hfault⟩
        cases front with
        | nil =>
            cases hsplit
            exact Or.inl hfault
        | cons earlier front =>
            cases hsplit
            obtain ⟨⟨result, hresult⟩, hfront⟩ := List.forall_mem_cons.mp hfront
            refine Or.inr ⟨result, hresult, bind_eq_error.mpr (Or.inl ?_)⟩
            exact ih.mpr ⟨front, element, rest, rfl, hfront, hfault⟩

end Attest
