import Attest.Proofs.Machine.Congruence

/-! # Runs that track each other

    One run tracks another when, from machines that are related, both give the same
    outcome and leave related machines, unless the first ends in a fault that is
    excused.  The machines may be related in any way; `Parallel` says what that needs so
    that tracking goes through steps and blocks (`Parallel.relates`).

    * `Tracks.bind` and `Tracks.inside` are sequencing and calling.
    * `tracks_call` is for calls whose bodies track each other, in two tables of
      functions. -/

namespace Attest

namespace Run

variable {α β : Type}

/-- The first result is an excused fault, or the results have the same outcome and
    leave related machines. -/
def Tallies (related : Machine → Machine → Prop) (excused : Fault → Prop)
    (first second : Except Fault α × Machine) : Prop :=
  (∃ fault, first.1 = .error fault ∧ excused fault) ∨
    (first.1 = second.1 ∧ related first.2 second.2)

/-- From related machines the two runs have results that tally. -/
def Tracks (related : Machine → Machine → Prop) (excused : Fault → Prop)
    (first second : Run α) : Prop :=
  ∀ m n, related m n → Tallies related excused (first.run m) (second.run n)

/-- Frames related in one way call frames related in another, and the machines come
    back related as they were. -/
structure Nests (outer inner : Machine → Machine → Prop) : Prop where
  enter : ∀ {m n} values, outer m n → inner (enter values m) (enter values n)
  resume : ∀ {m n m' n'}, outer m n → inner m' n' → outer (resume m m') (resume n n')

/-- Two sequences whose first parts have results that tally end in one of three ways: the
    first one with an excused fault, both with one fault, or as what follows a success of
    the first parts ends. -/
theorem Tallies.elim_bind {related : Machine → Machine → Prop} {excused : Fault → Prop}
    {P : Except Fault β × Machine → Except Fault β × Machine → Prop}
    {first second : Run α} {next next' : α → Run β} {m n : Machine}
    (h : Tallies related excused (first.run m) (second.run n))
    (hexcused : ∀ fault after result, excused fault → P (.error fault, after) result)
    (hfault : ∀ fault after after', related after after' →
      P (.error fault, after) (.error fault, after'))
    (hnext : ∀ value after after', first.run m = (.ok value, after) → related after after' →
      P ((next value).run after) ((next' value).run after')) :
    P ((first >>= next).run m) ((second >>= next').run n) := by
  rw [run_bind, run_bind]
  cases hx : first.run m with
  | mk outcome after =>
      cases hy : second.run n with
      | mk outcome' after' =>
          rw [hx, hy] at h
          -- an excused fault ends the first run here, whatever the second goes on to do
          rcases h with ⟨fault, hsame, hfine⟩ | ⟨hsame, hrelated⟩
          · cases hsame
            exact hexcused fault after _ hfine
          · cases hsame
            cases outcome with
            | ok value => exact hnext value after after' hx hrelated
            | error fault => exact hfault fault after after' hrelated

/-- Sequences have results that tally when their first parts have, and what follows a
    success of the first part tallies from there. -/
theorem Tallies.bind {related : Machine → Machine → Prop} {excused : Fault → Prop}
    {first second : Run α} {next next' : α → Run β} {m n : Machine}
    (h : Tallies related excused (first.run m) (second.run n))
    (hnext : ∀ value after after', first.run m = (.ok value, after) → related after after' →
      Tallies related excused ((next value).run after) ((next' value).run after')) :
    Tallies related excused ((first >>= next).run m) ((second >>= next').run n) :=
  h.elim_bind (fun fault _ _ hfine => Or.inl ⟨fault, rfl, hfine⟩)
    (fun _ _ _ hrelated => Or.inr ⟨rfl, hrelated⟩) hnext

/-- Calls of one function have results that tally when its bodies have on the callees'
    machines, as long as leaving the function does not take away the excuse. -/
theorem Tallies.inside {outer inner : Machine → Machine → Prop} {excused : Fault → Prop}
    {body body' : Run Bytes} {values : List Bytes} {m n : Machine}
    (leaving : ∀ fault function, excused fault → excused (fault.leaving function))
    (nests : Nests outer inner) (hmn : outer m n)
    (h : Tallies inner excused (body.run (enter values m)) (body'.run (enter values n)))
    (function : String) :
    Tallies outer excused ((inside function values body).run m)
      ((inside function values body').run n) := by
  rw [run_inside, run_inside]
  rcases h with ⟨fault, hfault, hexcused⟩ | ⟨hsame, hrelated⟩
  · exact Or.inl ⟨fault.leaving function, by rw [hfault]; rfl, leaving fault function hexcused⟩
  · exact Or.inr ⟨congrArg (Except.mapError _) hsame, nests.resume hmn hrelated⟩

namespace Tracks

variable {related : Machine → Machine → Prop} {excused : Fault → Prop}

theorem pure (value : α) : Tracks related excused (pure value) (pure value) :=
  fun _ _ h => Or.inr ⟨rfl, h⟩

theorem throw (fault : Fault) :
    Tracks related excused (MonadExcept.throw fault : Run α) (MonadExcept.throw fault) :=
  fun _ _ h => Or.inr ⟨rfl, h⟩

/-- The first run may fail in any way that is excused. -/
theorem throw_excused {fault : Fault} (h : excused fault) (second : Run α) :
    Tracks related excused (MonadExcept.throw fault) second :=
  fun _ _ _ => Or.inl ⟨fault, rfl, h⟩

/-- Sequences track each other when their parts do. -/
theorem bind {first second : Run α} {next next' : α → Run β}
    (h : Tracks related excused first second)
    (hnext : ∀ value, Tracks related excused (next value) (next' value)) :
    Tracks related excused (first >>= next) (second >>= next') :=
  fun m n hmn => (h m n hmn).bind fun value after after' _ => hnext value after after'

/-- What follows a look at the machine may use that the machines are related. -/
theorem get_bind {next next' : Machine → Run β}
    (h : ∀ m n, related m n → Tallies related excused ((next m).run m) ((next' n).run n)) :
    Tracks related excused (get >>= next) (get >>= next') :=
  fun m n hmn => h m n hmn

/-- Calls of one function track each other when its bodies do, as long as leaving the
    function does not take away the excuse. -/
theorem inside {outer inner : Machine → Machine → Prop} {body body' : Run Bytes}
    (leaving : ∀ fault function, excused fault → excused (fault.leaving function))
    (nests : Nests outer inner) (h : Tracks inner excused body body') (function : String)
    (values : List Bytes) :
    Tracks outer excused (inside function values body) (inside function values body') :=
  fun _ _ hmn => Tallies.inside leaving nests hmn (h _ _ (nests.enter values hmn)) function

end Tracks

/-- Related machines have the same buffer and memory, and stay related when either is
    changed alike in both. -/
structure Shares (related : Machine → Machine → Prop) : Prop where
  buffer : ∀ {m n}, related m n → m.buffer = n.buffer
  memory : ∀ {m n}, related m n → m.memory = n.memory
  hold : ∀ {m n} buffer, related m n →
    related { m with buffer := buffer } { n with buffer := buffer }
  store : ∀ {m n} memory, related m n →
    related { m with memory := memory } { n with memory := memory }

/-- What two settings and a relation between machines need so that steps track each
    other. -/
structure Parallel (settings settings' : Settings) (related : Machine → Machine → Prop)
    (excused : Fault → Prop) : Prop extends Shares related where
  order : settings.digestOrder = settings'.digestOrder
  tick : Tracks related excused (tick settings) (tick settings')
  checkLength : ∀ length,
    Tracks related excused (checkLength settings length) (checkLength settings' length)
  bufferBytes : Tracks related excused (bufferBytes settings) (bufferBytes settings')
  read : ∀ length, Tracks related excused (resolve settings (.read length))
    (resolve settings' (.read length))
  digestedBuffer : ∀ once,
    Tracks related excused (digestedBuffer settings once) (digestedBuffer settings' once)

/-- Tracking goes through sequences, where related machines have the same buffer and
    memory. -/
theorem Shares.sequential {related : Machine → Machine → Prop} {excused : Fault → Prop}
    (h : Shares related) : Sequential fun _ => Tracks related excused where
  pure := Tracks.pure
  bind := Tracks.bind
  seenBuffer := fun _ _ hmn => Or.inr ⟨congrArg Except.ok (h.buffer hmn), hmn⟩
  seenMemory := fun _ _ hmn => Or.inr ⟨congrArg Except.ok (h.memory hmn), hmn⟩

theorem Shares.tracks_hold {related : Machine → Machine → Prop} {excused : Fault → Prop}
    (h : Shares related) (bytes : Bytes) :
    Tracks related excused (Run.hold bytes) (Run.hold bytes) :=
  fun _ _ hmn => Or.inr ⟨rfl, h.hold (.held bytes) hmn⟩

/-- A positional argument tracks itself where the machines have the same arguments. -/
theorem tracks_argument {related : Machine → Machine → Prop} {excused : Fault → Prop}
    (harguments : ∀ {m n}, related m n → m.arguments = n.arguments) (index : Nat) :
    Tracks related excused (argument index) (argument index) := by
  intro m n hmn
  rw [run_argument, run_argument, harguments hmn]
  exact Or.inr ⟨rfl, hmn⟩

namespace Parallel

variable {settings settings' : Settings} {related : Machine → Machine → Prop}
  {excused : Fault → Prop} (h : Parallel settings settings' related excused)

include h

/-- What steps need to track each other is what is asked of a relation that goes through
    blocks. -/
theorem relates : BlocksRelate settings settings' fun _ => Tracks related excused where
  toSequential := h.sequential
  checkLength := h.checkLength
  bufferBytes := h.bufferBytes
  read := h.read
  digestedBuffer := h.digestedBuffer
  throw := Tracks.throw
  order := h.order
  hold := h.tracks_hold
  remember := fun memory _ _ hmn => Or.inr ⟨rfl, h.store memory hmn⟩
  tick := h.tick

theorem takeBuffer :
    Tracks related excused (Run.takeBuffer settings) (Run.takeBuffer settings') :=
  h.relates.takeBuffer

/-- An operand that is no positional argument tracks itself. -/
theorem resolve {operand : Operand} (hne : ∀ index, operand ≠ .argument index) :
    Tracks related excused (Run.resolve settings operand) (Run.resolve settings' operand) :=
  h.relates.resolve fun index hargument => absurd hargument (hne index)

/-- A block tracks itself where the machines have the same arguments. -/
theorem block_self (harguments : ∀ {m n}, related m n → m.arguments = n.arguments)
    {call call' : String → List Bytes → Run Bytes}
    (hcall : ∀ function values,
      Tracks related excused (call function values) (call' function values))
    (instructions : List Instruction) :
    Tracks related excused (Run.block settings call instructions)
      (Run.block settings' call' instructions) :=
  h.relates.block_self call' hcall (tracks_argument harguments) instructions

end Parallel

/-- Under the same settings steps track each other as soon as counting and the ways of
    reading from the source do. -/
theorem parallel_of_reads {settings : Settings} {related : Machine → Machine → Prop}
    {excused : Fault → Prop} (hshares : Shares related)
    (hrest : Tracks related excused (fromSource Source.readRest) (fromSource Source.readRest))
    (hexhausted : Tracks related excused (fromSource fun source => (source.isExhausted, source))
      (fromSource fun source => (source.isExhausted, source)))
    (hbounded : ∀ count, Tracks related excused (fromSource fun source => source.readUpTo count)
      (fromSource fun source => source.readUpTo count))
    (htick : Tracks related excused (tick settings) (tick settings)) :
    Parallel settings settings related excused :=
  have hreads : ReadsRelate fun _ => Tracks related excused :=
    { hshares.sequential with
      throw := Tracks.throw
      hold := hshares.tracks_hold
      rest := hrest
      exhausted := hexhausted
      bounded := hbounded }
  have hoperands := hreads.operandsRelate rfl rfl
  { hshares, hoperands with
    order := rfl
    tick := htick }

/-! ## Calls -/

section Call

variable {settings settings' : Settings} {outer inner : Machine → Machine → Prop}
  {excused : Fault → Prop} {known known' : Definitions}

/-- The bodies of two functions track each other wherever the calls in them do. -/
def BodiesTrack (settings settings' : Settings) (inner : Machine → Machine → Prop)
    (excused : Fault → Prop) (body body' : List Instruction) : Prop :=
  ∀ call call' : String → List Bytes → Run Bytes,
    (∀ function values, Tracks inner excused (call function values) (call' function values)) →
      Tracks inner excused (block settings call body) (block settings' call' body')

/-- So many calls may nest in the first run and in the second: as many, or no fewer if
    a call that only the first run refuses is excused. -/
def RoomFor (settings settings' : Settings) (excused : Fault → Prop) (room room' : Nat) : Prop :=
  (room = room' ∧ settings.callDepthLimit = settings'.callDepthLimit) ∨
    (room ≤ room' ∧ ∀ limit function, excused (.callDepth limit function))

/-- Where the machines have the same arguments, the bodies of one table track themselves. -/
theorem Parallel.bodiesTrack_self (h : Parallel settings settings' inner excused)
    (harguments : ∀ {m n}, inner m n → m.arguments = n.arguments) (known : Definitions)
    (function : String) :
    Option.Rel (BodiesTrack settings settings' inner excused) (known.body? function)
      (known.body? function) := by
  cases known.body? function with
  | none => exact .none
  | some body => exact .some fun _ _ hcall => h.block_self harguments hcall body

theorem RoomFor.pred {room room' : Nat}
    (h : RoomFor settings settings' excused (room + 1) (room' + 1)) :
    RoomFor settings settings' excused room room' := by
  rcases h with ⟨hroom, hlimit⟩ | ⟨hle, hexcused⟩
  · exact Or.inl ⟨Nat.succ.inj hroom, hlimit⟩
  · exact Or.inr ⟨Nat.le_of_succ_le_succ hle, hexcused⟩

theorem call_of_undefined {function : String} (h : known.body? function = none) (room : Nat)
    (values : List Bytes) :
    call settings known room function values =
      throw (.ofDefect (.undefinedFunction function)) := by
  cases room <;> simp [call, Definitions.contains, h]

theorem call_zero_of_defined {function : String} {body : List Instruction}
    (h : known.body? function = some body) (values : List Bytes) :
    call settings known 0 function values =
      throw (.callDepth settings.callDepthLimit function) := by
  simp [call, Definitions.contains, h]

theorem call_succ_of_defined {function : String} {body : List Instruction}
    (h : known.body? function = some body) (room : Nat) (values : List Bytes) :
    call settings known (room + 1) function values =
      inside function values (do
        block settings (call settings known room) body
        takeBuffer settings) := by
  simp only [call, h]

/-- A call tracks a call when, once the function is entered, its bodies do.  That only the
    first run does not know the function has to be excused. -/
theorem tracks_call_of_inside {function : String}
    (hundefined : known.body? function = none → known'.body? function = none ∨
      excused (.ofDefect (.undefinedFunction function)))
    {room room' : Nat} (hroom : RoomFor settings settings' excused room room')
    (values : List Bytes)
    (hdefined : ∀ body, known.body? function = some body →
      ∃ body', known'.body? function = some body' ∧
        ∀ less less', room = less + 1 → room' = less' + 1 →
          Tracks outer excused
            (inside function values do
              block settings (call settings known less) body
              takeBuffer settings)
            (inside function values do
              block settings' (call settings' known' less') body'
              takeBuffer settings')) :
    Tracks outer excused (call settings known room function values)
      (call settings' known' room' function values) := by
  cases hbody : known.body? function with
  | none =>
      rw [call_of_undefined hbody]
      rcases hundefined hbody with hbody' | hexcused
      · rw [call_of_undefined hbody']
        exact Tracks.throw _
      · exact Tracks.throw_excused hexcused _
  | some body =>
      obtain ⟨body', hbody', hinside⟩ := hdefined body hbody
      cases room with
      | zero =>
          rw [call_zero_of_defined hbody]
          rcases hroom with ⟨rfl, hlimit⟩ | ⟨-, hexcused⟩
          · rw [call_zero_of_defined hbody', hlimit]
            exact Tracks.throw _
          · exact Tracks.throw_excused (hexcused _ _) _
      | succ less =>
          obtain ⟨less', rfl⟩ : ∃ less', room' = less' + 1 := by
            rcases hroom with ⟨rfl, -⟩ | ⟨hle, -⟩
            · exact ⟨less, rfl⟩
            · exact ⟨room' - 1, by omega⟩
          rw [call_succ_of_defined hbody, call_succ_of_defined hbody']
          exact hinside less less' rfl rfl

/-- A call tracks a call when the calls below them track each other. -/
theorem tracks_call_of_below
    (leaving : ∀ fault function, excused fault → excused (fault.leaving function))
    (h : Parallel settings settings' inner excused) (nests : Nests outer inner)
    {function : String}
    (hbodies : Option.Rel (BodiesTrack settings settings' inner excused)
      (known.body? function) (known'.body? function))
    {room room' : Nat} (hroom : RoomFor settings settings' excused room room')
    (hbelow : ∀ less less', room = less + 1 → room' = less' + 1 → ∀ function values,
      Tracks inner excused (call settings known less function values)
        (call settings' known' less' function values))
    (values : List Bytes) :
    Tracks outer excused (call settings known room function values)
      (call settings' known' room' function values) := by
  generalize hbody' : known'.body? function = found' at hbodies
  refine tracks_call_of_inside ?_ hroom values ?_
  · intro hbody
    rw [hbody] at hbodies
    cases hbodies
    exact Or.inl hbody'
  · intro body hbody
    rw [hbody] at hbodies
    cases hbodies with
    | @some _ body' hbodies =>
        refine ⟨body', hbody', fun less less' hless hless' => ?_⟩
        refine Tracks.inside leaving nests ?_ function values
        exact Tracks.bind (hbodies _ _ (hbelow less less' hless hless')) fun _ => h.takeBuffer

/-- Calls track each other when the bodies in the two tables do. -/
theorem tracks_call
    (leaving : ∀ fault function, excused fault → excused (fault.leaving function))
    (h : Parallel settings settings' inner excused) (nests : Nests inner inner)
    (hbodies : ∀ function, Option.Rel (BodiesTrack settings settings' inner excused)
      (known.body? function) (known'.body? function)) (room : Nat) :
    ∀ room', RoomFor settings settings' excused room room' → ∀ function values,
      Tracks inner excused (call settings known room function values)
        (call settings' known' room' function values) := by
  induction room with
  | zero =>
      intro room' hroom function values
      exact tracks_call_of_below leaving h nests (hbodies function) hroom nofun values
  | succ less ih =>
      intro room' hroom function values
      refine tracks_call_of_below leaving h nests (hbodies function) hroom ?_ values
      rintro _ less' ⟨⟩ rfl
      exact ih less' hroom.pred

end Call

end Run

end Attest
