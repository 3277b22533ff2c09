import Attest.Proofs.Machine.Agreement

/-! # Digesting what is not held

    A hash step digests what joining its operands would give, but it need not hold that:
    a pending buffer that is needed once is digested as it is read.  The machine is then
    left with its buffer still pending, and so differs in the buffer from one that has
    joined the operands (`Machine.SameAside`).  That does not show: no other operand looks
    at the buffer, and the digest replaces it.

    * Once the buffer has been digested, the operands that are left give the same bytes on
      machines that differ in the buffer (`tracks_appendAll`).
    * Joining and digesting, from one machine, therefore give the same bytes
      (`tallies_appendAll`, `tallies_join`).
    * What is to be digested does not depend on the permission for unbounded reads, unless
      the buffer is needed twice or an operand asks for the rest of the source
      (`digested_permission`). -/

namespace Attest

/-- A buffer beyond the limit. -/
def Fault.IsOverlong (fault : Fault) : Prop :=
  ∃ limit length, fault = .bufferLimit limit length

/-- Machines that agree in everything but the buffer. -/
def Machine.SameAside (m n : Machine) : Prop :=
  ∃ buffer, n = { m with buffer := buffer }

theorem Machine.SameAside.refl (machine : Machine) : machine.SameAside machine :=
  ⟨machine.buffer, rfl⟩

namespace Run

variable {α β : Type} {settings : Settings} {related : Machine → Machine → Prop}
  {excused : Fault → Prop}

/-- The first result is an excused fault; or the results are the same fault, or the same
    value with the same buffer, memory and source. -/
def EndsAlike (excused : Fault → Prop) (first second : Except Fault α × Machine) : Prop :=
  (∃ fault, first.1 = .error fault ∧ excused fault) ∨
    (first.1 = second.1 ∧ ∀ value, first.1 = .ok value → first.2.buffer = second.2.buffer ∧
      first.2.memory = second.2.memory ∧ first.2.source = second.2.source)

/-! ## Sequences -/

/-- Where the first parts of two sequences are the same run, what follows them starts from
    one machine. -/
theorem Tallies.bind_of_eq (hrefl : ∀ machine, related machine machine) {first second : Run α}
    {next next' : α → Run β} {m n : Machine} (h : first.run m = second.run n)
    (hnext : ∀ value after, Tallies related excused ((next value).run after)
      ((next' value).run after)) :
    Tallies related excused ((first >>= next).run m) ((second >>= next').run n) := by
  rw [run_bind, run_bind, h]
  cases second.run n with
  | mk outcome after =>
      cases outcome with
      | ok value => exact hnext value after
      | error fault => exact Or.inr ⟨rfl, hrefl after⟩

/-- A check of a length lets the run go on, or ends it with a buffer beyond the limit. -/
theorem run_checkLength_bind (length : Nat) (next : Run α) (machine : Machine) :
    (checkLength settings length >>= fun _ => next).run machine = next.run machine ∨
      ∃ fault, Fault.IsOverlong fault ∧
        (checkLength settings length >>= fun _ => next).run machine = (.error fault, machine) := by
  rw [checkLength]
  split
  · exact Or.inr ⟨_, ⟨_, _, rfl⟩, rfl⟩
  · exact Or.inl rfl

/-- Only the first run has to check a length. -/
theorem Tallies.of_checkLength {first : Run α} {second : Except Fault α × Machine}
    {m : Machine} (length : Nat) (h : Tallies related Fault.IsOverlong (first.run m) second) :
    Tallies related Fault.IsOverlong
      ((checkLength settings length >>= fun _ => first).run m) second := by
  rcases run_checkLength_bind length first m with hrun | ⟨fault, hoverlong, hrun⟩
  · rw [hrun]
    exact h
  · rw [hrun]
    exact Or.inl ⟨fault, rfl, hoverlong⟩

/-- Results with the same fault are alike, whatever machines they leave. -/
theorem EndsAlike.of_error {first second : Except Fault α × Machine} {fault : Fault}
    (h : first.1 = .error fault) (h' : second.1 = .error fault) :
    EndsAlike excused first second := by
  refine Or.inr ⟨h.trans h'.symm, fun value hvalue => ?_⟩
  cases h.symm.trans hvalue

theorem EndsAlike.of_checkLength {first : Run α} {second : Except Fault α × Machine}
    {m : Machine} (length : Nat) (h : EndsAlike Fault.IsOverlong (first.run m) second) :
    EndsAlike Fault.IsOverlong
      ((checkLength settings length >>= fun _ => first).run m) second := by
  rcases run_checkLength_bind length first m with hrun | ⟨fault, hoverlong, hrun⟩
  · rw [hrun]
    exact h
  · rw [hrun]
    exact Or.inl ⟨fault, rfl, hoverlong⟩

/-- The check of a length ends alike on machines that agree in buffer, memory and
    source. -/
theorem endsAlike_checkLength {length : Nat} {m n : Machine} (hbuffer : m.buffer = n.buffer)
    (hmemory : m.memory = n.memory) (hsource : m.source = n.source) :
    EndsAlike excused ((checkLength settings length).run m)
      ((checkLength settings length).run n) := by
  rw [checkLength]
  split
  · exact EndsAlike.of_error rfl rfl
  · exact Or.inr ⟨rfl, fun _ _ => ⟨hbuffer, hmemory, hsource⟩⟩

/-- Sequences end alike when their first parts have results that tally, and what follows
    a success of the first part ends alike from there. -/
theorem Tallies.endsAlike_bind {first second : Run α} {next next' : α → Run β} {m n : Machine}
    (h : Tallies related excused (first.run m) (second.run n))
    (hnext : ∀ value after after', related after after' →
      EndsAlike excused ((next value).run after) ((next' value).run after')) :
    EndsAlike excused ((first >>= next).run m) ((second >>= next').run n) :=
  h.elim_bind (fun fault _ _ hfine => Or.inl ⟨fault, rfl, hfine⟩)
    (fun _ _ _ _ => EndsAlike.of_error rfl rfl)
    fun value after after' _ => hnext value after after'

/-! ## Operands -/

/-- Related machines supply operands other than the buffer with the same bytes: they agree
    in memory, source and arguments, and stay related when the source is read alike. -/
structure Supplies (related : Machine → Machine → Prop) : Prop where
  memory : ∀ {m n}, related m n → m.memory = n.memory
  source : ∀ {m n}, related m n → m.source = n.source
  arguments : ∀ {m n}, related m n → m.arguments = n.arguments
  read : ∀ {m n} source, related m n →
    related { m with source := source } { n with source := source }

theorem Supplies.tracks_fromSource (h : Supplies related)
    (read : Source → Except String α × Source) :
    Tracks related excused (fromSource read) (fromSource read) := by
  intro m n hmn
  rw [run_fromSource, run_fromSource, h.source hmn]
  exact Or.inr ⟨rfl, h.read _ hmn⟩

/-- An operand that is not the buffer does not look at it. -/
theorem Supplies.tracks_resolve (h : Supplies related) {operand : Operand}
    (hne : operand ≠ .buffer) :
    Tracks related excused (resolve settings operand) (resolve settings operand) := by
  cases operand with
  | literal bytes => exact Tracks.pure bytes
  | hex bytes => exact Tracks.pure bytes
  | buffer => exact absurd rfl hne
  | slot index =>
      intro m n hmn
      rw [resolve, run_get_bind, run_get_bind, h.memory hmn]
      exact Or.inr ⟨rfl, hmn⟩
  | argument index =>
      rw [resolve]
      exact tracks_argument h.arguments index.toNat
  | read length =>
      cases length with
      | bounded count =>
          rw [resolve]
          exact h.tracks_fromSource _
      | rest =>
          rw [resolve]
          split
          · exact h.tracks_fromSource _
          · exact Tracks.throw _

theorem supplies_sameAside : Supplies Machine.SameAside where
  memory := fun ⟨_, h⟩ => h ▸ rfl
  source := fun ⟨_, h⟩ => h ▸ rfl
  arguments := fun ⟨_, h⟩ => h ▸ rfl
  read := fun _ ⟨buffer, h⟩ => ⟨buffer, h ▸ rfl⟩

/-- Joining tracks digesting on machines that differ in the buffer, where the buffer is
    not among the operands. -/
theorem tracks_appendAll {operands : List Operand} (h : Operand.buffer ∉ operands) (once : Bool)
    (joined : Bytes) :
    Tracks Machine.SameAside Fault.IsOverlong (appendAll settings joined operands)
      (digestedAll settings once joined operands) := by
  induction operands generalizing joined with
  | nil => exact Tracks.pure joined
  | cons operand rest ih =>
      obtain ⟨hne, hrest⟩ := List.ne_and_not_mem_of_not_mem_cons h
      rw [appendAll, digestedAll_cons_of_ne settings once joined hne.symm]
      refine Tracks.bind (supplies_sameAside.tracks_resolve hne.symm) fun bytes m n hmn => ?_
      exact Tallies.of_checkLength _ (ih hrest _ m n hmn)

/-! ## The buffer -/

/-- A pending buffer that is needed once is digested as it is read. -/
theorem run_digestedBuffer_once {machine : Machine} (h : machine.buffer = .pending) :
    (digestedBuffer settings true).run machine = (fromSource Source.readRest).run machine := by
  rw [digestedBuffer, run_get_bind, h]
  show (fromSource (fun source => source.copyRest []) >>= _ : Run Bytes).run machine = _
  rw [fromSource_copyRest, bind_assoc, run_bind]
  cases (fromSource Source.readRest).run machine with
  | mk outcome after => cases outcome <;> rfl

/-- Otherwise the buffer is digested as it is joined. -/
theorem run_digestedBuffer_eq_bufferBytes {once : Bool} {machine : Machine}
    (h : once = true → machine.buffer ≠ .pending) :
    (digestedBuffer settings once).run machine = (bufferBytes settings).run machine := by
  rw [digestedBuffer, run_get_bind]
  cases hbuffer : machine.buffer with
  | held bytes => rw [run_bufferBytes_held settings hbuffer, run_pure]
  | pending =>
      cases once with
      | true => exact absurd hbuffer (h rfl)
      | false => rfl

/-- Without operands a held buffer is digested as it is. -/
theorem run_digested_nil_held {machine : Machine} {bytes : Bytes}
    (h : machine.buffer = .held bytes) :
    (digested settings []).run machine = (.ok bytes, machine) := by
  show (digestedBuffer settings true >>= fun front => pure front).run machine = _
  rw [bind_pure, run_digestedBuffer_eq_bufferBytes, run_bufferBytes_held settings h]
  exact fun _ hpending => nomatch h.symm.trans hpending

/-- What follows the buffer tallies if it does so on one machine and, where a pending
    buffer has been digested as it was read, on machines that differ in the buffer. -/
theorem tallies_buffer (hallowed : settings.allowUnboundedReads = true) {once : Bool}
    {next next' : Bytes → Run Bytes}
    (hsame : ∀ bytes machine, Tallies Machine.SameAside Fault.IsOverlong
      ((next bytes).run machine) ((next' bytes).run machine))
    (honce : once = true → ∀ bytes,
      Tracks Machine.SameAside Fault.IsOverlong (next bytes) (next' bytes))
    (machine : Machine) :
    Tallies Machine.SameAside Fault.IsOverlong ((bufferBytes settings >>= next).run machine)
      ((digestedBuffer settings once >>= next').run machine) := by
  by_cases hstreamed : once = true ∧ machine.buffer = .pending
  · obtain ⟨rfl, hpending⟩ := hstreamed
    have hbuffer : Tallies Machine.SameAside Fault.IsOverlong ((bufferBytes settings).run machine)
        ((digestedBuffer settings true).run machine) := by
      rw [run_bufferBytes_pending hpending hallowed, run_digestedBuffer_once hpending, run_bind]
      cases (fromSource Source.readRest).run machine with
      | mk outcome after =>
          cases outcome with
          | ok bytes => exact Or.inr ⟨rfl, after.buffer, rfl⟩
          | error fault => exact Or.inr ⟨rfl, .refl after⟩
    exact hbuffer.bind fun bytes after after' _ => honce rfl bytes after after'
  · have hjoined : (digestedBuffer settings once).run machine =
        (bufferBytes settings).run machine :=
      run_digestedBuffer_eq_bufferBytes fun hyes hpending => hstreamed ⟨hyes, hpending⟩
    exact Tallies.bind_of_eq Machine.SameAside.refl hjoined.symm hsame

/-- Joining tallies with digesting, where a buffer that is digested as it is read is among
    the operands at most once. -/
theorem tallies_appendAll (hallowed : settings.allowUnboundedReads = true) {once : Bool}
    {operands : List Operand} (hcount : once = true → operands.count .buffer ≤ 1)
    (joined : Bytes) (machine : Machine) :
    Tallies Machine.SameAside Fault.IsOverlong ((appendAll settings joined operands).run machine)
      ((digestedAll settings once joined operands).run machine) := by
  induction operands generalizing joined machine with
  | nil => exact Or.inr ⟨rfl, .refl machine⟩
  | cons operand rest ih =>
      by_cases hb : operand = .buffer
      · subst hb
        rw [List.count_cons_self] at hcount
        have hnone : once = true → rest.count .buffer = 0 := fun hyes =>
          Nat.le_zero.mp (Nat.le_of_succ_le_succ (hcount hyes))
        refine tallies_buffer hallowed (fun bytes after => ?_) (fun hyes bytes m n hmn => ?_)
          machine
        · exact Tallies.of_checkLength _ (ih (fun hyes => hnone hyes ▸ Nat.zero_le 1) _ after)
        · have hrest := List.count_eq_zero.mp (hnone hyes)
          exact Tallies.of_checkLength _ (tracks_appendAll hrest once _ m n hmn)
      · rw [List.count_cons_of_ne hb] at hcount
        rw [appendAll, digestedAll_cons_of_ne settings once joined hb]
        refine Tallies.bind_of_eq Machine.SameAside.refl rfl fun bytes after => ?_
        exact Tallies.of_checkLength _ (ih hcount _ after)

/-- **Digesting is joining.**  With unbounded reads the operands of a hash step give the
    bytes that joining them gives, unless that makes a buffer beyond the limit. -/
theorem tallies_join (hallowed : settings.allowUnboundedReads = true) (operands : List Operand)
    (machine : Machine) :
    Tallies Machine.SameAside Fault.IsOverlong ((join settings operands).run machine)
      ((digested settings operands).run machine) := by
  rw [join_eq, digested]
  by_cases hb : Operand.buffer ∈ operands
  · rw [if_pos hb, if_pos hb]
    refine tallies_appendAll hallowed (fun hyes => ?_) [] machine
    rw [beq_iff_eq] at hyes
    exact Nat.le_of_eq hyes
  · rw [if_neg hb, if_neg hb]
    refine tallies_buffer hallowed (fun front after => ?_) (fun _ front => ?_) machine
    · exact tracks_appendAll hb true front after after (.refl after)
    · exact tracks_appendAll hb true front

/-! ## Blocks -/

section Blocks

variable (hsteps : settings.maxSteps = none) {call : String → List Bytes → Run Bytes}

include hsteps

/-- A hash step without operands digests a held buffer. -/
theorem run_block_hash_held {machine : Machine} {bytes : Bytes}
    (h : machine.buffer = .held bytes) :
    (block settings call [.step (.hash [])]).run machine =
      (checkLength settings (digest settings bytes).length).run
        { machine with
          buffer := .held (digest settings bytes)
          steps := machine.steps + 1 } := by
  rw [run_block_singleton hsteps, begun_of_no_operands rfl, perform, bind_assoc, run_bind,
    run_digested_nil_held]
  · rfl
  · exact h

end Blocks

/-- **Digesting operands is joining them and digesting the buffer**, unless joining makes a
    buffer beyond the limit. -/
theorem endsAlike_block_hash (hallowed : settings.allowUnboundedReads = true)
    (hsteps : settings.maxSteps = none) {call : String → List Bytes → Run Bytes}
    (operands : List Operand) (machine : Machine) :
    EndsAlike Fault.IsOverlong
      ((block settings call [.step (.concat operands), .step (.hash [])]).run machine)
      ((block settings call [.step (.hash operands)]).run machine) := by
  rw [run_block_singleton hsteps, block_cons, run_bind, run_single_step hsteps, ← run_bind,
    perform, perform, bind_assoc, bind_assoc, bind_assoc]
  refine (tallies_join hallowed operands (begun (.concat operands) machine)).endsAlike_bind ?_
  rintro bytes after _ ⟨buffer, rfl⟩
  show EndsAlike _ ((checkLength settings bytes.length >>= fun _ =>
    block settings call [.step (.hash [])]).run { after with buffer := .held bytes }) _
  refine EndsAlike.of_checkLength _ ?_
  rw [run_block_hash_held hsteps rfl]
  exact endsAlike_checkLength rfl rfl rfl

/-! ## Without unbounded reads -/

section Permission

variable {operands : List Operand} (hrest : Operand.read .rest ∉ operands)

include hrest

/-- Where the buffer is digested as it is read, and no operand asks for the rest of the
    source, digesting does not look at the permission for unbounded reads. -/
theorem digestedAll_permission (front : Bytes) (allowed : Bool) :
    digestedAll { settings with allowUnboundedReads := allowed } true front operands =
      digestedAll settings true front operands := by
  induction operands generalizing front with
  | nil => rfl
  | cons operand rest ih =>
      obtain ⟨hne, hrest⟩ := List.ne_and_not_mem_of_not_mem_cons hrest
      have hlater := fun bytes => ih hrest (front ++ bytes)
      by_cases hb : operand = .buffer
      · subst hb
        rw [digestedAll, digestedAll, funext hlater]
        rfl
      · have hresolve : resolve { settings with allowUnboundedReads := allowed } operand =
            resolve settings operand := by
          cases operand with
          | buffer => exact absurd rfl hb
          | read length =>
              cases length with
              | bounded count => rfl
              | rest => exact absurd rfl hne
          | _ => rfl
        rw [digestedAll_cons_of_ne _ _ _ hb, digestedAll_cons_of_ne _ _ _ hb, hresolve,
          funext hlater]

theorem digested_permission (hcount : operands.count .buffer ≤ 1) (allowed : Bool) :
    digested { settings with allowUnboundedReads := allowed } operands =
      digested settings operands := by
  rw [digested, digested]
  by_cases hb : Operand.buffer ∈ operands
  · have honce : (operands.count .buffer == 1) = true :=
      beq_iff_eq.mpr (Nat.le_antisymm hcount (List.count_pos_iff.mpr hb))
    rw [if_pos hb, if_pos hb, honce, digestedAll_permission hrest]
  · rw [if_neg hb, if_neg hb, funext fun front => digestedAll_permission hrest front allowed]
    rfl

/-- A hash step that needs the buffer once, and does not ask for the rest of the source,
    does the same with and without unbounded reads. -/
theorem block_hash_permission (hcount : operands.count .buffer ≤ 1) (allowed : Bool)
    (call : String → List Bytes → Run Bytes) :
    block { settings with allowUnboundedReads := allowed } call [.step (.hash operands)] =
      block settings call [.step (.hash operands)] := by
  show (tick settings >>= fun _ => (discardPending (.hash operands) >>= fun _ =>
    digested { settings with allowUnboundedReads := allowed } operands >>= fun bytes =>
      hold (digest settings bytes)) >>= fun _ => checkBuffer settings >>= fun _ => pure ()) = _
  rw [digested_permission hrest hcount]
  rfl

end Permission

/-- **Streaming shows nowhere.**  With unbounded reads and no limit on steps, digesting
    operands ends as joining them and digesting the buffer does, unless joining makes a
    buffer beyond the limit.  Where the buffer is needed once, and no operand asks for the
    rest of the source, it ends so without unbounded reads, too. -/
theorem hash_endsAlike_concat_hash (settings : Settings)
    (hallowed : settings.allowUnboundedReads = true) (hsteps : settings.maxSteps = none)
    (call : String → List Bytes → Run Bytes) (operands : List Operand) (machine : Machine) :
    EndsAlike Fault.IsOverlong
        ((block settings call [.step (.concat operands), .step (.hash [])]).run machine)
        ((block settings call [.step (.hash operands)]).run machine) ∧
      (operands.count .buffer ≤ 1 → Operand.read .rest ∉ operands →
        (block { settings with allowUnboundedReads := false } call
            [.step (.hash operands)]).run machine =
          (block settings call [.step (.hash operands)]).run machine) := by
  refine ⟨endsAlike_block_hash hallowed hsteps operands machine, fun hcount hrest => ?_⟩
  rw [block_hash_permission hrest hcount]

/-- A pending buffer behind a literal is digested as it is read, with no permission to hold
    it, as if both had been joined before. -/
theorem hash_endsAlike_concat_hash_pending :
    let machine := Machine.start (.ofBytes [2, 3] none)
    let operands := [Operand.literal [1], .buffer]
    let call := fun _ _ => pure []
    ((digested {} operands).run machine).1 = .ok [1, 2, 3] ∧
      EndsAlike Fault.IsOverlong
        ((block { allowUnboundedReads := true } call
          [.step (.concat operands), .step (.hash [])]).run machine)
        ((block { allowUnboundedReads := true } call [.step (.hash operands)]).run machine) ∧
      (block { } call [.step (.hash operands)]).run machine =
        (block { allowUnboundedReads := true } call [.step (.hash operands)]).run machine := by
  intro machine operands call
  obtain ⟨halike, hsame⟩ :=
    hash_endsAlike_concat_hash { allowUnboundedReads := true } rfl rfl call operands machine
  exact ⟨rfl, halike, hsame (by decide) (by decide)⟩

end Run

end Attest
