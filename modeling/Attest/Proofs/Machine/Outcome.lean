import Attest.Machine.Run

/-! # Outcomes of runs

    A run takes a machine to an outcome and a machine.  This file says what each
    primitive run does in these terms, so that nothing later looks inside the
    monad, and sets up triples: `Ensures pre run post failed` bounds both ways in
    which a run can end.

    * `run_bind` is sequencing; the lemmas after it are the primitive runs.
    * `Ensures.bind` and `Ensures.weaken` are what longer runs are proved with. -/

namespace Attest.Run

variable {α β : Type}

/-! ## Primitive runs -/

/-- A fault ends a sequence; a value is handed on. -/
theorem run_bind (first : Run α) (next : α → Run β) (machine : Machine) :
    (first >>= next).run machine =
      match first.run machine with
      | (.ok value, after) => (next value).run after
      | (.error fault, after) => (.error fault, after) := by
  show (ExceptT.bind first next).run machine = _
  simp only [ExceptT.bind, ExceptT.run, ExceptT.mk, bind, StateT.bind]
  cases first machine with
  | mk outcome after => cases outcome <;> rfl

/-- A sequence succeeds when its parts do, one after the other. -/
theorem run_bind_eq_ok {first : Run α} {next : α → Run β} {machine after : Machine} {result : β} :
    (first >>= next).run machine = (.ok result, after) ↔
      ∃ value mid, first.run machine = (.ok value, mid) ∧
        (next value).run mid = (.ok result, after) := by
  rw [run_bind]
  cases first.run machine with
  | mk outcome mid =>
      cases outcome with
      | error fault => exact ⟨nofun, fun ⟨_, _, h, _⟩ => nomatch h⟩
      | ok value =>
          constructor
          · intro h
            exact ⟨value, mid, rfl, h⟩
          · rintro ⟨other, machine', h, hnext⟩
            cases h
            exact hnext

/-- A sequence fails in its first part, or in what follows a success of it. -/
theorem error_of_run_bind {first : Run α} {next : α → Run β} {machine : Machine}
    {fault : Fault} (h : ((first >>= next).run machine).1 = .error fault) :
    (first.run machine).1 = .error fault ∨
      ∃ value after, ((next value).run after).1 = .error fault := by
  rw [run_bind] at h
  cases hfirst : first.run machine with
  | mk outcome after =>
      rw [hfirst] at h
      cases outcome with
      | ok value => exact Or.inr ⟨value, after, h⟩
      | error cause =>
          cases h
          exact Or.inl rfl

@[simp] theorem run_pure (value : α) (machine : Machine) :
    (pure value : Run α).run machine = (.ok value, machine) := rfl

@[simp] theorem run_throw (fault : Fault) (machine : Machine) :
    (throw fault : Run α).run machine = (.error fault, machine) := rfl

@[simp] theorem run_get (machine : Machine) :
    (get : Run Machine).run machine = (.ok machine, machine) := rfl

@[simp] theorem run_set (machine after : Machine) :
    (set after : Run Unit).run machine = (.ok (), after) := rfl

@[simp] theorem run_modify (change : Machine → Machine) (machine : Machine) :
    (modify change : Run Unit).run machine = (.ok (), change machine) := rfl

@[simp] theorem run_hold (bytes : Bytes) (machine : Machine) :
    (hold bytes).run machine = (.ok (), { machine with buffer := .held bytes }) := rfl

/-- Reading the machine first hands it to what follows. -/
theorem run_get_bind (next : Machine → Run β) (machine : Machine) :
    (get >>= next).run machine = (next machine).run machine := rfl

/-- Reading from the source changes nothing but the source. -/
theorem run_fromSource (read : Source → Except String α × Source) (machine : Machine) :
    (fromSource read).run machine =
      ((read machine.source).1.mapError .io,
        { machine with source := (read machine.source).2 }) := by
  rw [fromSource]
  rw [run_get_bind]
  cases h : read machine.source with
  | mk outcome source => cases outcome <;> rfl

/-- An instruction is counted whether it may start or not. -/
theorem run_tick (settings : Settings) (machine : Machine) :
    (tick settings).run machine =
      (match settings.maxSteps with
        | some limit => if limit < machine.steps + 1 then .error (.stepLimit limit) else .ok ()
        | none => .ok (),
      { machine with steps := machine.steps + 1 }) := by
  rw [tick]
  cases settings.maxSteps with
  | none => rfl
  | some limit =>
      rw [run_bind]
      show (get >>= _ : Run Unit).run { machine with steps := machine.steps + 1 } = _
      rw [run_get_bind]
      dsimp only
      split <;> rfl

/-- An instruction starts within the limit on steps, and is counted. -/
theorem run_tick_eq_ok {settings : Settings} {machine after : Machine} :
    (tick settings).run machine = (.ok (), after) ↔
      after = { machine with steps := machine.steps + 1 } ∧
        ∀ limit, settings.maxSteps = some limit → machine.steps + 1 ≤ limit := by
  rw [run_tick, Prod.mk.injEq, and_comm, eq_comm]
  refine and_congr Iff.rfl ?_
  cases settings.maxSteps with
  | none => exact ⟨fun _ => nofun, fun _ => rfl⟩
  | some limit =>
      dsimp only
      by_cases hover : limit < machine.steps + 1
      · rw [if_pos hover]
        exact ⟨nofun, fun hlimit => absurd (hlimit limit rfl) (Nat.not_le.mpr hover)⟩
      · rw [if_neg hover]
        refine ⟨fun _ => ?_, fun _ => rfl⟩
        rintro _ ⟨⟩
        exact Nat.le_of_not_lt hover

/-- A length passes the check if it is within the limit. -/
theorem run_checkLength_eq_ok {settings : Settings} {length : Nat} {machine after : Machine} :
    (checkLength settings length).run machine = (.ok (), after) ↔
      after = machine ∧ length ≤ settings.maxBufferLength := by
  rw [checkLength]
  by_cases hlong : settings.maxBufferLength < length
  · rw [if_pos hlong]
    exact ⟨nofun, fun h => absurd hlong (Nat.not_lt.mpr h.2)⟩
  · rw [if_neg hlong]
    constructor
    · intro h
      cases h
      exact ⟨rfl, Nat.le_of_not_lt hlong⟩
    · rintro ⟨rfl, -⟩
      rfl

/-- A buffer passes the check as it is, when it is held within the limit or pending. -/
theorem run_checkBuffer_eq_ok {settings : Settings} {machine after : Machine} :
    (checkBuffer settings).run machine = (.ok (), after) ↔
      after = machine ∧
        ∀ bytes, machine.buffer = .held bytes → bytes.length ≤ settings.maxBufferLength := by
  unfold checkBuffer
  rw [run_get_bind]
  cases hbuffer : machine.buffer with
  | pending =>
      constructor
      · intro h
        cases h
        exact ⟨rfl, nofun⟩
      · rintro ⟨rfl, -⟩
        rfl
  | held bytes =>
      refine run_checkLength_eq_ok.trans (and_congr_right fun _ => ?_)
      constructor
      · rintro hfits _ ⟨⟩
        exact hfits
      · intro hfits
        exact hfits bytes rfl

/-- A held buffer gives its bytes and changes nothing. -/
theorem run_bufferBytes_held (settings : Settings) {machine : Machine} {bytes : Bytes}
    (h : machine.buffer = .held bytes) :
    (bufferBytes settings).run machine = (.ok bytes, machine) := by
  have hmaterialize : (materialize settings).run machine = (.ok (), machine) := by
    rw [materialize, run_get_bind, h]
    rfl
  rw [bufferBytes, run_bind, hmaterialize]
  show (get >>= _ : Run Bytes).run machine = _
  rw [run_get_bind, h]
  rfl

/-- Bytes that are taken in and held are the bytes of the buffer. -/
theorem run_bufferBytes_of_materialize {settings : Settings} {machine : Machine}
    {taken : Run Bytes}
    (htaken : (materialize settings).run machine = (taken >>= hold).run machine) :
    (bufferBytes settings).run machine =
      (taken >>= fun bytes => hold bytes >>= fun _ => pure bytes).run machine := by
  rw [bufferBytes, run_bind, htaken, run_bind, run_bind]
  cases taken.run machine with
  | mk outcome after => cases outcome <;> rfl

/-- With unbounded reads a pending buffer is the rest of the source. -/
theorem run_bufferBytes_pending {settings : Settings} {machine : Machine}
    (h : machine.buffer = .pending) (allowed : settings.allowUnboundedReads = true) :
    (bufferBytes settings).run machine =
      (fromSource Source.readRest >>= fun bytes => hold bytes >>= fun _ => pure bytes).run
        machine := by
  refine run_bufferBytes_of_materialize ?_
  rw [materialize, run_get_bind, h, if_pos allowed]

/-- Without unbounded reads a pending buffer is empty at the end of the source and
    refused before it. -/
theorem run_bufferBytes_guarded {settings : Settings} {machine : Machine}
    (h : machine.buffer = .pending) (forbidden : settings.allowUnboundedReads = false) :
    (bufferBytes settings).run machine =
      match machine.source.isExhausted with
      | .ok true => (.ok [], { machine with buffer := .held [] })
      | .ok false => (.error (.ofBreach .bufferingDisabled), machine)
      | .error message => (.error (.io message), machine) := by
  rw [bufferBytes, run_bind, materialize, run_get_bind, h]
  simp only [forbidden, Bool.false_eq_true, if_false, run_bind, run_fromSource]
  cases machine.source.isExhausted with
  | error message => rfl
  | ok exhausted => cases exhausted <;> rfl

/-- The bytes that a buffer stands for: those it holds, or what a pending one is taken
    in as. -/
inductive Buffered (settings : Settings) (machine : Machine) (bytes : Bytes) : Prop
  | held : machine.buffer = .held bytes → Buffered settings machine bytes
  | read : machine.buffer = .pending → settings.allowUnboundedReads = true →
      machine.source.failure = none → bytes = machine.source.remaining →
      Buffered settings machine bytes
  | ended : machine.buffer = .pending → settings.allowUnboundedReads = false → bytes = [] →
      Buffered settings machine bytes

/-- What a buffer stands for does not depend on the number of steps. -/
theorem Buffered.of_counted {settings : Settings} {machine : Machine} {bytes : Bytes} {steps : Nat}
    (h : Buffered settings { machine with steps := steps } bytes) :
    Buffered settings machine bytes := by
  cases h with
  | held hheld => exact .held hheld
  | read hpending hallowed hfailure hbytes => exact .read hpending hallowed hfailure hbytes
  | ended hpending hallowed hbytes => exact .ended hpending hallowed hbytes

/-- A buffer stands for one byte string. -/
theorem Buffered.unique {settings : Settings} {machine : Machine} {bytes bytes' : Bytes}
    (h : Buffered settings machine bytes) (h' : Buffered settings machine bytes') :
    bytes = bytes' := by
  cases h with
  | held hheld =>
      cases h' with
      | held hheld' => exact Buffer.held.inj (hheld.symm.trans hheld')
      | read hpending _ _ _ => exact nomatch hheld.symm.trans hpending
      | ended hpending _ _ => exact nomatch hheld.symm.trans hpending
  | read hpending hallowed _ hbytes =>
      cases h' with
      | held hheld => exact nomatch hheld.symm.trans hpending
      | read _ _ _ hbytes' => exact hbytes.trans hbytes'.symm
      | ended _ hforbidden _ => exact nomatch hallowed.symm.trans hforbidden
  | ended hpending hforbidden hbytes =>
      cases h' with
      | held hheld => exact nomatch hheld.symm.trans hpending
      | read _ hallowed _ _ => exact nomatch hallowed.symm.trans hforbidden
      | ended _ _ hbytes' => exact hbytes.trans hbytes'.symm

/-- Whatever bytes the buffer gives, it stood for them, and holds them afterwards. -/
theorem buffered_of_run {settings : Settings} {machine after : Machine} {bytes : Bytes}
    (h : (bufferBytes settings).run machine = (.ok bytes, after)) :
    Buffered settings machine bytes ∧ after.buffer = .held bytes := by
  cases hbuffer : machine.buffer with
  | held bytes =>
      rw [run_bufferBytes_held settings hbuffer] at h
      cases h
      exact ⟨.held hbuffer, hbuffer⟩
  | pending =>
      cases hallowed : settings.allowUnboundedReads with
      | true =>
          rw [run_bufferBytes_pending hbuffer hallowed, run_bind, run_fromSource] at h
          cases hfailure : machine.source.failure with
          | some message =>
              simp only [Source.readRest, hfailure] at h
              exact nomatch h
          | none =>
              simp only [Source.readRest, hfailure] at h
              cases h
              exact ⟨.read hbuffer hallowed hfailure rfl, rfl⟩
      | false =>
          rw [run_bufferBytes_guarded hbuffer hallowed] at h
          cases hexhausted : machine.source.isExhausted with
          | error message =>
              rw [hexhausted] at h
              exact nomatch h
          | ok exhausted =>
              rw [hexhausted] at h
              cases exhausted with
              | true =>
                  cases h
                  exact ⟨.ended hbuffer hallowed rfl, rfl⟩
              | false => exact nomatch h

/-- Taking the buffer gives the bytes it stood for. -/
theorem buffered_of_run_takeBuffer {settings : Settings} {machine after : Machine}
    {bytes : Bytes} (h : (takeBuffer settings).run machine = (.ok bytes, after)) :
    Buffered settings machine bytes := by
  obtain ⟨taken, mid, hbytes, hgiven⟩ := run_bind_eq_ok.mp h
  cases hgiven
  exact (buffered_of_run hbytes).1

/-- A held buffer is taken as it is. -/
theorem run_takeBuffer_held (settings : Settings) {machine : Machine} {bytes : Bytes}
    (h : machine.buffer = .held bytes) :
    (takeBuffer settings).run machine = (.ok bytes, { machine with buffer := .held [] }) := by
  rw [takeBuffer, run_bind, run_bufferBytes_held settings h]
  rfl

/-- With unbounded reads a pending buffer is taken as the rest of a source that does not
    fail. -/
theorem run_takeBuffer_pending {settings : Settings} {machine : Machine}
    (h : machine.buffer = .pending) (allowed : settings.allowUnboundedReads = true)
    (hfailure : machine.source.failure = none) :
    (takeBuffer settings).run machine =
      (.ok machine.source.remaining,
        { machine with buffer := .held [], source := machine.source.readRest.2 }) := by
  rw [takeBuffer, run_bind, run_bufferBytes_pending h allowed, run_bind, run_fromSource]
  simp only [Source.readRest, hfailure]
  rfl

/-- Without unbounded reads a pending buffer is taken in only as an empty one. -/
theorem buffer_of_run_materialize {settings : Settings} {machine after : Machine}
    (h : machine.buffer = .pending) (forbidden : settings.allowUnboundedReads = false)
    (hrun : (materialize settings).run machine = (.ok (), after)) : after.buffer = .held [] := by
  rw [materialize, run_get_bind, h] at hrun
  simp only [forbidden, Bool.false_eq_true, if_false, run_bind, run_fromSource] at hrun
  cases hexhausted : machine.source.isExhausted with
  | error message =>
      rw [hexhausted] at hrun
      exact nomatch hrun
  | ok exhausted =>
      rw [hexhausted] at hrun
      cases exhausted with
      | true =>
          cases hrun
          rfl
      | false => exact nomatch hrun

/-- What looking up a positional argument gives. -/
def supplied (arguments : Option (List Bytes)) (index : Nat) : Except Fault Bytes :=
  match arguments, index with
  | none, index => .error (.ofDefect (.argumentOutsideFunction index))
  | some values, 0 => .error (.ofDefect (.argumentOutOfRange 0 values.length))
  | some values, before + 1 =>
      match values[before]? with
      | some bytes => .ok bytes
      | none => .error (.ofDefect (.argumentOutOfRange (before + 1) values.length))

/-- Looking up a positional argument changes nothing. -/
theorem run_argument (index : Nat) (machine : Machine) :
    (argument index).run machine = (supplied machine.arguments index, machine) := by
  unfold argument supplied
  rw [run_get_bind]
  cases machine.arguments with
  | none => rfl
  | some values =>
      cases index with
      | zero => rfl
      | succ before =>
          dsimp only
          cases values[before]? <;> rfl

/-- A positional argument that is not there is a defect of the program. -/
theorem defect_of_supplied {arguments : Option (List Bytes)} {index : Nat} {fault : Fault}
    (h : supplied arguments index = .error fault) : ∃ defect, fault = .ofDefect defect := by
  unfold supplied at h
  split at h
  · cases h
    exact ⟨_, rfl⟩
  · cases h
    exact ⟨_, rfl⟩
  · split at h
    · exact nomatch h
    · cases h
      exact ⟨_, rfl⟩

/-- Joining appends to the buffer, or to nothing when the operands name it. -/
theorem join_eq (settings : Settings) (operands : List Operand) :
    join settings operands =
      (if Operand.buffer ∈ operands then pure [] else bufferBytes settings) >>=
        fun front => appendAll settings front operands := by
  rw [join]
  split <;> rfl

/-- An operand other than the buffer is resolved before it is digested. -/
theorem digestedAll_cons_of_ne (settings : Settings) (once : Bool) (front : Bytes)
    {operand : Operand} (h : operand ≠ .buffer) (rest : List Operand) :
    digestedAll settings once front (operand :: rest) =
      resolve settings operand >>= fun bytes =>
        digestedAll settings once (front ++ bytes) rest := by
  cases operand with
  | buffer => exact absurd rfl h
  | _ => rfl

/-- The callee's machine: an empty buffer, the given arguments, one call deeper. -/
def enter (arguments : List Bytes) (caller : Machine) : Machine :=
  { caller with
    buffer := .held []
    arguments := some arguments
    depth := caller.depth + 1 }

/-- The caller's machine after the callee has ended. -/
def resume (caller callee : Machine) : Machine :=
  { callee with
    buffer := caller.buffer
    arguments := caller.arguments
    depth := callee.depth - 1 }

/-- Running inside a function is running its body on the callee's machine. -/
theorem run_inside (function : String) (arguments : List Bytes) (body : Run Bytes)
    (caller : Machine) :
    (inside function arguments body).run caller =
      ((body.run (enter arguments caller)).1.mapError (Fault.leaving function),
        resume caller (body.run (enter arguments caller)).2) := rfl

/-! ## Triples -/

/-- From a machine that satisfies the precondition the run gives a value as the
    postcondition says, or fails as the last condition says. -/
def Ensures (pre : Machine → Prop) (run : Run α) (post : α → Machine → Prop)
    (failed : Fault → Machine → Prop) : Prop :=
  ∀ machine, pre machine →
    match run.run machine with
    | (.ok value, after) => post value after
    | (.error fault, after) => failed fault after

namespace Ensures

variable {pre pre' : Machine → Prop} {post post' : α → Machine → Prop}
  {failed failed' : Fault → Machine → Prop} {run : Run α}

theorem pure {value : α} (h : ∀ machine, pre machine → post value machine) :
    Ensures pre (pure value) post failed :=
  h

theorem throw {fault : Fault} (h : ∀ machine, pre machine → failed fault machine) :
    Ensures pre (throw fault) post failed :=
  h

theorem modify {change : Machine → Machine} {post : Unit → Machine → Prop}
    (h : ∀ machine, pre machine → post () (change machine)) :
    Ensures pre (modify change) post failed :=
  h

/-- A sequence, with a condition between the two runs. -/
theorem bind {mid : α → Machine → Prop} {post : β → Machine → Prop} {next : α → Run β}
    (first : Ensures pre run mid failed)
    (rest : ∀ value, Ensures (mid value) (next value) post failed) :
    Ensures pre (run >>= next) post failed := by
  intro machine h
  have hfirst := first machine h
  rw [run_bind]
  cases hrun : run.run machine with
  | mk outcome after =>
      rw [hrun] at hfirst
      cases outcome with
      | ok value => exact rest value after hfirst
      | error fault => exact hfirst

/-- What follows a look at the machine may depend on what was seen. -/
theorem get_bind {post : β → Machine → Prop} {next : Machine → Run β}
    (h : ∀ seen, pre seen → Ensures (· = seen) (next seen) post failed) :
    Ensures pre (get >>= next) post failed := by
  intro machine hpre
  rw [run_get_bind]
  exact h machine hpre machine rfl

/-- The precondition may be strengthened, the other two weakened. -/
theorem weaken (h : Ensures pre run post failed) (hpre : ∀ machine, pre' machine → pre machine)
    (hpost : ∀ value machine, post value machine → post' value machine)
    (hfailed : ∀ fault machine, failed fault machine → failed' fault machine) :
    Ensures pre' run post' failed' := by
  intro machine hm
  have hrun := h machine (hpre machine hm)
  cases hresult : run.run machine with
  | mk outcome after =>
      rw [hresult] at hrun
      cases outcome with
      | ok value => exact hpost value after hrun
      | error fault => exact hfailed fault after hrun

/-- The fault of a run satisfies the last condition. -/
theorem failed_of_error (h : Ensures pre run post failed) {machine : Machine}
    (hpre : pre machine) {fault : Fault} (herror : (run.run machine).1 = .error fault) :
    failed fault (run.run machine).2 := by
  have hrun := h machine hpre
  cases hresult : run.run machine with
  | mk outcome after =>
      rw [hresult] at hrun herror
      cases herror
      exact hrun

end Ensures

end Attest.Run
