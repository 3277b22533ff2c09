import Attest.Proofs.Machine.DigestOrder
import Attest.Proofs.Machine.Streaming

/-! # Joining in two steps

    A concat step whose operands are those of two lists does what two concat steps do
    (`block_concat_append`): the second step puts the buffer, which the first one has left,
    in front of its own operands.

    * Joining goes on from what has been joined (`appendAll_append`, `join_append`).
    * The check of the first buffer lets everything pass, because the length has been
      checked for the last operand in it (`length_le_of_run_join`).
    * The operands of the second step do not name the buffer, so they do not notice that
      it has changed in between (`Machine.SameSupply`).

    The operands of the second list must not name the buffer, and must not be the first ones
    to read the source while the buffer is pending: that would discard it. -/

namespace Attest

/-- Machines that agree in what operands other than the buffer look at. -/
structure Machine.SameSupply (m n : Machine) : Prop where
  memory : m.memory = n.memory
  source : m.source = n.source
  arguments : m.arguments = n.arguments

namespace Run

variable {settings : Settings} {front rest : List Operand}

/-! ## What has been joined -/

/-- Joining two lists of operands is joining the first and going on with the second. -/
theorem appendAll_append (joined : Bytes) :
    appendAll settings joined (front ++ rest) =
      appendAll settings joined front >>= fun bytes => appendAll settings bytes rest := by
  induction front generalizing joined with
  | nil => rw [List.nil_append, appendAll, pure_bind]
  | cons operand front ih => simp only [List.cons_append, appendAll, bind_assoc, ih]

/-- The buffer comes first or not by the operands of the first list. -/
theorem join_append (hrest : Operand.buffer ∉ rest) :
    join settings (front ++ rest) =
      join settings front >>= fun bytes => appendAll settings bytes rest := by
  have hmem : Operand.buffer ∈ front ++ rest ↔ Operand.buffer ∈ front := by
    rw [List.mem_append, or_iff_left hrest]
  simp only [join_eq, hmem, appendAll_append, bind_assoc]

/-- Operands that do not name the buffer are appended to it. -/
theorem run_join_held (hrest : Operand.buffer ∉ rest) {machine : Machine} {bytes : Bytes}
    (h : machine.buffer = .held bytes) :
    (join settings rest).run machine = (appendAll settings bytes rest).run machine := by
  rw [join_eq, if_neg hrest, run_bind, run_bufferBytes_held settings h]

/-- Appending operands leaves what is within the limit within the limit. -/
theorem length_le_of_run_appendAll {operands : List Operand} :
    ∀ {joined bytes : Bytes} {machine after : Machine},
      (appendAll settings joined operands).run machine = (.ok bytes, after) →
        joined.length ≤ settings.maxBufferLength → bytes.length ≤ settings.maxBufferLength := by
  induction operands with
  | nil =>
      intro joined bytes machine after h hjoined
      cases h
      exact hjoined
  | cons operand rest ih =>
      intro joined bytes machine after h _
      obtain ⟨value, mid, -, h⟩ := run_bind_eq_ok.mp h
      obtain ⟨_, checked, hcheck, h⟩ := run_bind_eq_ok.mp h
      refine ih h ?_
      rw [List.length_append]
      exact (run_checkLength_eq_ok.mp hcheck).2

/-- What some operands are joined to is within the limit. -/
theorem length_le_of_run_join (hfront : front ≠ []) {bytes : Bytes} {machine after : Machine}
    (h : (join settings front).run machine = (.ok bytes, after)) :
    bytes.length ≤ settings.maxBufferLength := by
  obtain ⟨operand, others, rfl⟩ := List.exists_cons_of_ne_nil hfront
  rw [join_eq] at h
  obtain ⟨joined, begun, -, h⟩ := run_bind_eq_ok.mp h
  obtain ⟨value, mid, -, h⟩ := run_bind_eq_ok.mp h
  obtain ⟨_, checked, hcheck, h⟩ := run_bind_eq_ok.mp h
  refine length_le_of_run_appendAll h ?_
  rw [List.length_append]
  exact (run_checkLength_eq_ok.mp hcheck).2

/-! ## The second step -/

theorem supplies_sameSupply : Supplies Machine.SameSupply where
  memory := fun h => h.memory
  source := fun h => h.source
  arguments := fun h => h.arguments
  read := fun _ h => { h with source := rfl }

/-- Appending operands other than the buffer does not depend on the buffer. -/
theorem Supplies.tracks_appendAll {related : Machine → Machine → Prop} {excused : Fault → Prop}
    (h : Supplies related) (hrest : Operand.buffer ∉ rest) (joined : Bytes) :
    Tracks related excused (appendAll settings joined rest) (appendAll settings joined rest) := by
  induction rest generalizing joined with
  | nil => exact Tracks.pure joined
  | cons operand rest ih =>
      obtain ⟨hne, hrest⟩ := List.ne_and_not_mem_of_not_mem_cons hrest
      refine Tracks.bind (h.tracks_resolve hne.symm) fun bytes => Tracks.bind ?_ fun _ => ih hrest _
      rw [checkLength]
      split
      · exact Tracks.throw _
      · exact Tracks.pure ()

/-- The buffer that a step leaves replaces the one in which the machines differ. -/
theorem sameEnd_hold_checkBuffer {m n : Machine} (h : m.SameSupply n) (bytes : Bytes) :
    SameEnd (Machine.Agree Eq) ((hold bytes >>= fun _ => checkBuffer settings).run m)
      ((hold bytes >>= fun _ => checkBuffer settings).run n) := by
  show SameEnd _ ((checkLength settings bytes.length).run { m with buffer := .held bytes })
    ((checkLength settings bytes.length).run { n with buffer := .held bytes })
  rw [checkLength]
  split
  · exact .of_error rfl rfl
  · exact ⟨rfl, fun _ _ => ⟨rfl, h.memory, h.source, h.arguments⟩⟩

section Blocks

variable (hsteps : settings.maxSteps = none) {call : String → List Bytes → Run Bytes}

include hsteps

/-- A concat step behind another one appends its operands to the buffer. -/
theorem run_block_concat_held (hrest : Operand.buffer ∉ rest) {machine : Machine} {bytes : Bytes}
    (h : machine.buffer = .held bytes) :
    (block settings call [.step (.concat rest)]).run machine =
      (appendAll settings bytes rest >>= fun joined => hold joined >>= fun _ =>
        checkBuffer settings).run { machine with steps := machine.steps + 1 } := by
  have hbegun : begun (.concat rest) machine = { machine with steps := machine.steps + 1 } :=
    if_neg fun hboth => Buffer.noConfusion (hboth.1.symm.trans h)
  have hjoin : (join settings rest).run { machine with steps := machine.steps + 1 } =
      (appendAll settings bytes rest).run { machine with steps := machine.steps + 1 } :=
    run_join_held hrest h
  rw [run_block_singleton hsteps, hbegun, perform, bind_assoc, run_bind, hjoin, ← run_bind]

/-- With a buffer within the limit, the rest of the two steps ends as the rest of the one. -/
theorem sameEnd_appendAll_concat (hrest : Operand.buffer ∉ rest) {bytes : Bytes}
    (hfits : bytes.length ≤ settings.maxBufferLength) (machine : Machine) :
    SameEnd (Machine.Agree Eq)
      ((appendAll settings bytes rest >>= fun joined => hold joined >>= fun _ =>
        checkBuffer settings).run machine)
      ((hold bytes >>= fun _ => checkBuffer settings >>= fun _ =>
        block settings call [.step (.concat rest)]).run machine) := by
  have hcheck : (checkBuffer settings).run { machine with buffer := .held bytes } =
      (.ok (), { machine with buffer := .held bytes }) := by
    refine run_checkBuffer_eq_ok.mpr ⟨rfl, ?_⟩
    rintro _ ⟨⟩
    exact hfits
  rw [run_bind (hold bytes), run_hold]
  show SameEnd _ _ ((checkBuffer settings >>= fun _ => _ : Run Unit).run _)
  rw [run_bind (checkBuffer settings), hcheck]
  show SameEnd _ _ ((block settings call [.step (.concat rest)]).run _)
  rw [run_block_concat_held hsteps hrest rfl]
  have hjoined : Accords Machine.SameSupply (appendAll settings bytes rest)
      (appendAll settings bytes rest) :=
    .of_tracks (supplies_sameSupply.tracks_appendAll hrest bytes)
  refine SameEnd.bind (hjoined _ _ ?_) fun joined _ _ _ hafter =>
    sameEnd_hold_checkBuffer hafter joined
  exact ⟨rfl, rfl, rfl⟩

end Blocks

/-! ## One step or two -/

/-- A pending buffer is discarded for the operands of both lists when it is for those of the
    first. -/
theorem begun_concat_append {machine : Machine}
    (h : machine.buffer ≠ .pending ∨ front.any Operand.readsSource = true ∨
      rest.any Operand.readsSource = false) :
    begun (.concat (front ++ rest)) machine = begun (.concat front) machine := by
  refine if_congr (and_congr_right fun hpending => ?_) rfl rfl
  show (front ++ rest).any Operand.readsSource = true ↔ front.any Operand.readsSource = true
  rw [List.any_append]
  rcases h with hheld | hfront | hrest
  · exact absurd hpending hheld
  · rw [hfront, Bool.true_or]
  · rw [hrest, Bool.or_false]

/-- **A CONCAT STEP SPLITS**: without a limit on steps, from any machine, joining the operands
    of two lists in one step has the same result or the same fault as joining those of the
    first and then those of the second, and leaves machines with the same buffer, memory,
    source and arguments.  The first list must not be empty, and the second must not name the
    buffer; and a pending buffer must not be discarded for the second list alone. -/
theorem block_concat_append (settings : Settings) (hsteps : settings.maxSteps = none)
    (call : String → List Bytes → Run Bytes) (front rest : List Operand) (machine : Machine)
    (hfront : front ≠ []) (hrest : Operand.buffer ∉ rest)
    (hpending : machine.buffer ≠ .pending ∨ front.any Operand.readsSource = true ∨
      rest.any Operand.readsSource = false) :
    SameEnd (Machine.Agree Eq)
      ((block settings call [.step (.concat (front ++ rest))]).run machine)
      ((block settings call [.step (.concat front), .step (.concat rest)]).run machine) := by
  rw [run_block_singleton hsteps, begun_concat_append hpending, perform, join_append hrest,
    block_cons, run_bind (single _ _ _), run_single_step hsteps, ← run_bind, perform]
  simp only [bind_assoc]
  have hjoin : SameEnd Eq ((join settings front).run (begun (.concat front) machine))
      ((join settings front).run (begun (.concat front) machine)) :=
    ⟨rfl, fun _ _ => rfl⟩
  refine hjoin.bind ?_
  rintro bytes after _ hjoined rfl
  exact sameEnd_appendAll_concat hsteps hrest (length_le_of_run_join hfront hjoined) after

/-- Reads on both sides of the cut: the third byte that is read makes the buffer too long, in
    one step and in two. -/
theorem block_concat_append_overlong :
    let settings : Settings := { maxBufferLength := 3 }
    let call := fun _ _ => pure []
    let machine := Machine.start (.ofBytes [1, 2, 3, 4] none)
    let front := [Operand.slot 0, .read (.bounded 2)]
    let rest := [Operand.literal [9], .read (.bounded 1)]
    ((block settings call [.step (.concat (front ++ rest))]).run machine).1 =
        .error (.bufferLimit 3 4) ∧
      ((block settings call [.step (.concat front), .step (.concat rest)]).run machine).1 =
        .error (.bufferLimit 3 4) := by
  intro settings call machine front rest
  have hsplit := block_concat_append settings rfl call front rest machine nofun (by decide)
    (Or.inr (Or.inl rfl))
  have hone : ((block settings call [.step (.concat (front ++ rest))]).run machine).1 =
      .error (.bufferLimit 3 4) := by rfl
  exact ⟨hone, hsplit.1.symm.trans hone⟩

end Run

end Attest
