import Attest.Proofs.Sequence
import Attest.Source

/-! # What a source has given

    Calls on a source come in any order: bounded reads, reads of the rest, copies of it, and
    questions whether anything is left.  What a history of calls says by itself is which
    bytes they returned (`Source.returned`) and which bytes of the data they left untaken
    (`Source.untaken`): a call that succeeds takes what it returns, and a read that fails
    takes everything.

    * A call takes bytes off the front, asks a question, or fails and loses what is left
      (`Source.perform_cases`).
    * So the source stands where its history says (`Source.Position`, `Position.perform`,
      `Position.after`).  The count of consumed bytes and the place where reading goes on
      agree until a read fails; then nothing is left to return.
    * The next call depends on the history alone (`Source.Accounted`,
      `Source.ofBytes_accounted`). -/

namespace Attest.Source

/-! ## Calls and their history -/

/-- A call on a source.  What is copied goes to the end of a sink. -/
inductive Call
  | readUpTo (count : Nat)
  | readRest
  | copyRest (sink : Bytes)
  | isExhausted
  deriving DecidableEq, Repr

/-- What a call that succeeds answers. -/
inductive Answer
  | bytes (bytes : Bytes)
  | copied (count : Nat) (sink : Bytes)
  | exhausted (yes : Bool)
  deriving DecidableEq, Repr

/-- The outcome of a call, and the source that it leaves. -/
def perform (source : Source) : Call → Except String Answer × Source
  | .readUpTo count => ((source.readUpTo count).1.map .bytes, (source.readUpTo count).2)
  | .readRest => (source.readRest.1.map .bytes, source.readRest.2)
  | .copyRest sink =>
      ((source.copyRest sink).1.map fun result => .copied result.1 result.2,
        (source.copyRest sink).2)
  | .isExhausted => (source.isExhausted.map .exhausted, source)

/-- A call that was made, with its outcome. -/
structure Event where
  call : Call
  outcome : Except String Answer

/-- The bytes that a call returned: what it answered, or what it added to the sink. -/
def Event.returned : Event → Bytes
  | ⟨_, .ok (.bytes bytes)⟩ => bytes
  | ⟨.copyRest sink, .ok (.copied _ after)⟩ => after.drop sink.length
  | _ => []

/-- What a call left of the bytes that were left: a call that succeeded took what it
    returned, and a read that failed took everything. -/
def Event.untaken (left : Bytes) : Event → Bytes
  | ⟨call, .ok answer⟩ => left.drop (Event.returned ⟨call, .ok answer⟩).length
  | ⟨.isExhausted, .error _⟩ => left
  | ⟨_, .error _⟩ => []

/-- The bytes that calls returned, in their order. -/
def returned (past : List Event) : Bytes :=
  past.flatMap Event.returned

/-- The bytes of the data that calls left untaken. -/
def untaken (data : Bytes) (past : List Event) : Bytes :=
  past.foldl Event.untaken data

/-- The history of calls made one after the other. -/
def events (source : Source) : List Call → List Event
  | [] => []
  | call :: rest => ⟨call, (source.perform call).1⟩ :: (source.perform call).2.events rest

/-- The source that calls leave. -/
def after (source : Source) : List Call → Source
  | [] => source
  | call :: rest => (source.perform call).2.after rest

/-- A call that fails returns nothing. -/
theorem Event.returned_error (call : Call) (reason : String) :
    Event.returned ⟨call, .error reason⟩ = [] := by
  cases call <;> rfl

/-- A read that fails leaves nothing untaken. -/
theorem Event.untaken_error {call : Call} (h : call ≠ .isExhausted) (left : Bytes)
    (reason : String) : Event.untaken left ⟨call, .error reason⟩ = [] := by
  cases call with
  | isExhausted => exact absurd rfl h
  | _ => rfl

/-- Asking whether anything is left returns nothing and takes nothing, also where it fails. -/
theorem Event.of_isExhausted (source : Source) (left : Bytes) :
    Event.returned ⟨.isExhausted, (source.perform .isExhausted).1⟩ = [] ∧
      Event.untaken left ⟨.isExhausted, (source.perform .isExhausted).1⟩ = left := by
  rw [perform]
  cases source.isExhausted with
  | ok yes => exact ⟨rfl, rfl⟩
  | error reason => exact ⟨rfl, rfl⟩

theorem returned_concat (past : List Event) (event : Event) :
    returned (past ++ [event]) = returned past ++ event.returned := by
  rw [returned, List.flatMap_append, List.flatMap_singleton]
  rfl

theorem untaken_concat (data : Bytes) (past : List Event) (event : Event) :
    untaken data (past ++ [event]) = event.untaken (untaken data past) := by
  rw [untaken, List.foldl_append]
  rfl

/-! ## One call -/

/-- Reading the rest gives all that is left, or fails and loses it. -/
theorem readRest_cases (source : Source) :
    (source.failure = none ∧ source.readRest = (.ok source.remaining, { source with
      remaining := []
      consumed := source.consumed + source.remaining.length })) ∨
    ∃ message, source.failure = some message ∧
      source.readRest = (.error message, { source with remaining := [] }) := by
  rw [readRest]
  cases hfailure : source.failure with
  | none => exact Or.inl ⟨rfl, rfl⟩
  | some message => exact Or.inr ⟨message, rfl, rfl⟩

/-- What a read of the rest returns is all that is left. -/
theorem eq_remaining_of_readRest {source : Source} {bytes : Bytes}
    (h : source.readRest.1 = .ok bytes) : bytes = source.remaining := by
  rcases source.readRest_cases with ⟨-, hrest⟩ | ⟨message, -, hrest⟩
  · rw [hrest] at h
    exact (Except.ok.inj h).symm
  · rw [hrest] at h
    exact nomatch h

/-- On a source that fails, a read of the rest does. -/
theorem readRest_eq_error {source : Source} {message : String}
    (h : source.failure = some message) : source.readRest.1 = .error message := by
  rw [readRest, h]

/-- What a copy adds to its sink is what a read of the rest returns. -/
theorem copyRest_outcome (source : Source) (sink : Bytes) :
    (source.copyRest sink).1 =
      source.readRest.1.map fun bytes => (bytes.length, sink ++ bytes) := rfl

/-- What a copy adds to its sink is all that is left. -/
theorem eq_remaining_of_copyRest {source : Source} {sink after : Bytes} {count : Nat}
    (h : (source.copyRest sink).1 = .ok (count, after)) :
    after = sink ++ source.remaining ∧ count = source.remaining.length := by
  rw [copyRest_outcome] at h
  obtain ⟨bytes, hbytes, hresult⟩ := map_eq_ok.mp h
  cases hresult
  rw [eq_remaining_of_readRest hbytes]
  exact ⟨rfl, rfl⟩

/-- A bounded read that goes beyond what is left is a read of the rest. -/
theorem readUpTo_of_lt {source : Source} {count : Nat} (h : source.remaining.length < count) :
    source.readUpTo count = source.readRest :=
  if_pos h

theorem readUpTo_of_le {source : Source} {count : Nat} (h : count ≤ source.remaining.length) :
    source.readUpTo count = (.ok (source.remaining.take count), { source with
      remaining := source.remaining.drop count
      consumed := source.consumed + count }) :=
  if_neg (Nat.not_lt.mpr h)

/-- What a bounded read returns is the front of what is left. -/
theorem eq_take_of_readUpTo {source : Source} {count : Nat} {bytes : Bytes}
    (h : (source.readUpTo count).1 = .ok bytes) : bytes = source.remaining.take count := by
  rcases Nat.lt_or_ge source.remaining.length count with hshort | henough
  · rw [readUpTo_of_lt hshort] at h
    rw [eq_remaining_of_readRest h, List.take_of_length_le (Nat.le_of_lt hshort)]
  · rw [readUpTo_of_le henough] at h
    exact (Except.ok.inj h).symm

/-- On a source that fails, a bounded read does if it goes beyond what is left. -/
theorem readUpTo_fails_iff {source : Source} {message : String}
    (h : source.failure = some message) {count : Nat} :
    (∃ reason, (source.readUpTo count).1 = .error reason) ↔ source.remaining.length < count := by
  rcases Nat.lt_or_ge source.remaining.length count with hshort | henough
  · rw [readUpTo_of_lt hshort]
    exact ⟨fun _ => hshort, fun _ => ⟨message, readRest_eq_error h⟩⟩
  · rw [readUpTo_of_le henough]
    exact ⟨fun ⟨_, herror⟩ => (nomatch herror), fun hlt => absurd hlt (Nat.not_lt.mpr henough)⟩

theorem isExhausted_of_end {source : Source} (h : source.failure = none) :
    source.isExhausted = .ok source.remaining.isEmpty := by
  rw [isExhausted, h]
  cases source.remaining with
  | nil => rfl
  | cons byte rest => rfl

theorem isExhausted_of_failure {source : Source} {message : String}
    (h : source.failure = some message) :
    source.isExhausted = if source.remaining = [] then .error message else .ok false := by
  rw [isExhausted, h]
  cases source.remaining with
  | nil => rfl
  | cons byte rest => rfl

/-- On a source that fails, the question whether anything is left does if nothing is. -/
theorem isExhausted_fails_iff {source : Source} {message : String}
    (h : source.failure = some message) :
    (∃ reason, source.isExhausted = .error reason) ↔ source.remaining = [] := by
  rw [isExhausted_of_failure h]
  split
  · next hnone => exact ⟨fun _ => hnone, fun _ => ⟨message, rfl⟩⟩
  · next hsome => exact ⟨fun ⟨_, herror⟩ => (nomatch herror), fun hnone => absurd hnone hsome⟩

/-- A source that fails is never known to have nothing left. -/
theorem isExhausted_ne_true {source : Source} {message : String}
    (h : source.failure = some message) : source.isExhausted ≠ .ok true := by
  rw [isExhausted_of_failure h]
  split
  · exact nofun
  · exact nofun

/-- What a call does: it takes bytes off the front and returns them, or it asks whether
    anything is left, or it fails and loses what is left. -/
theorem perform_cases (source : Source) (call : Call) :
    (∃ count answer, count ≤ source.remaining.length ∧ (source.perform call).1 = .ok answer ∧
      Event.returned ⟨call, .ok answer⟩ = source.remaining.take count ∧
      (source.perform call).2 = { source with
        remaining := source.remaining.drop count
        consumed := source.consumed + count }) ∨
    (call = .isExhausted ∧ (source.perform call).2 = source) ∨
    (call ≠ .isExhausted ∧ ∃ message, source.failure = some message ∧
      (source.perform call).1 = .error message ∧
      (source.perform call).2 = { source with remaining := [] }) := by
  have hall : source.remaining.drop source.remaining.length = [] := List.drop_length
  cases call with
  | readUpTo count =>
      rw [perform]
      rcases Nat.lt_or_ge source.remaining.length count with hshort | henough
      · rw [readUpTo_of_lt hshort]
        rcases source.readRest_cases with ⟨-, hrest⟩ | ⟨message, hfailure, hrest⟩
        · rw [hrest]
          exact Or.inl ⟨_, _, Nat.le_refl _, rfl, List.take_length.symm, by rw [hall]⟩
        · rw [hrest]
          exact Or.inr (Or.inr ⟨nofun, message, hfailure, rfl, rfl⟩)
      · rw [readUpTo_of_le henough]
        exact Or.inl ⟨count, _, henough, rfl, rfl, rfl⟩
  | readRest =>
      rw [perform]
      rcases source.readRest_cases with ⟨-, hrest⟩ | ⟨message, hfailure, hrest⟩
      · rw [hrest]
        exact Or.inl ⟨_, _, Nat.le_refl _, rfl, List.take_length.symm, by rw [hall]⟩
      · rw [hrest]
        exact Or.inr (Or.inr ⟨nofun, message, hfailure, rfl, rfl⟩)
  | copyRest sink =>
      rw [perform, copyRest]
      rcases source.readRest_cases with ⟨-, hrest⟩ | ⟨message, hfailure, hrest⟩
      · rw [hrest]
        refine Or.inl ⟨_, _, Nat.le_refl _, rfl, ?_, by rw [hall]⟩
        show (sink ++ source.remaining).drop sink.length = _
        rw [List.drop_left, List.take_length]
      · rw [hrest]
        exact Or.inr (Or.inr ⟨nofun, message, hfailure, rfl, rfl⟩)
  | isExhausted => exact Or.inr (Or.inl ⟨rfl, rfl⟩)

/-- On a source that ends normally, every call succeeds. -/
theorem perform_succeeds {source : Source} (h : source.failure = none) (call : Call) :
    ∃ answer, (source.perform call).1 = .ok answer := by
  rcases source.perform_cases call with
    ⟨count, answer, -, hok, -, -⟩ | ⟨rfl, -⟩ | ⟨-, message, hfailure, -, -⟩
  · exact ⟨answer, hok⟩
  · rw [perform, isExhausted_of_end h]
    exact ⟨_, rfl⟩
  · exact nomatch h.symm.trans hfailure

/-- A call that fails reports the failure of the source. -/
theorem failure_of_perform {source : Source} {call : Call} {reason : String}
    (h : (source.perform call).1 = .error reason) : source.failure = some reason := by
  rcases source.perform_cases call with
    ⟨count, answer, -, hok, -, -⟩ | ⟨rfl, -⟩ | ⟨-, message, hfailure, hlost, -⟩
  · exact nomatch h.symm.trans hok
  · have hasked : source.isExhausted = .error reason := map_eq_error.mp h
    cases hfailure : source.failure with
    | none => exact nomatch (isExhausted_of_end hfailure).symm.trans hasked
    | some message =>
        rw [isExhausted_of_failure hfailure] at hasked
        split at hasked
        · rw [Except.error.inj hasked]
        · exact nomatch hasked
  · rw [hfailure, Except.error.inj (h.symm.trans hlost)]

/-! ## Where the source stands -/

/-- The source stands where its history says. -/
structure Position (data : Bytes) (failure : Option String) (past : List Event)
    (source : Source) : Prop where
  ending : source.failure = failure
  remaining : source.remaining = untaken data past
  returned : returned past = data.take source.consumed
  consumed_le : source.consumed ≤ data.length
  /-- Reading goes on behind the consumed bytes, unless a failure has taken the rest. -/
  place : source.remaining = data.drop source.consumed ∨ failure ≠ none ∧ source.remaining = []

theorem position_ofBytes (data : Bytes) (failure : Option String) :
    Position data failure [] (ofBytes data failure) :=
  ⟨rfl, rfl, List.take_zero.symm, Nat.zero_le _, Or.inl List.drop_zero.symm⟩

variable {data : Bytes} {failure : Option String} {past : List Event} {source : Source}

/-- Every call leaves the source where the longer history says. -/
theorem Position.perform (h : Position data failure past source) (call : Call) :
    Position data failure (past ++ [⟨call, (source.perform call).1⟩])
      (source.perform call).2 := by
  rcases source.perform_cases call with
    ⟨count, answer, hcount, hok, hreturned, hnext⟩ | ⟨rfl, hnext⟩ | ⟨hread, message, hfailure,
      herror, hnext⟩
  · -- what is returned stands behind what has been consumed
    have hplace : source.remaining = data.drop source.consumed ∨ count = 0 := by
      rcases h.place with hplace | ⟨-, hnone⟩
      · exact Or.inl hplace
      · rw [hnone] at hcount
        exact Or.inr (Nat.le_zero.mp hcount)
    have htaken : Source.returned past ++ source.remaining.take count =
        data.take (source.consumed + count) := by
      rcases hplace with hplace | rfl
      · rw [h.returned, hplace, List.take_add]
      · rw [h.returned, List.take_zero, List.append_nil, Nat.add_zero]
    have hlength : (source.remaining.take count).length = count := List.length_take_of_le hcount
    have hwithin : source.consumed + count ≤ data.length := by
      rcases hplace with hplace | rfl
      · rw [hplace, List.length_drop] at hcount
        have hle := h.consumed_le
        omega
      · exact h.consumed_le
    rw [hok, hnext]
    refine ⟨h.ending, ?_, ?_, hwithin, ?_⟩
    · rw [untaken_concat, ← h.remaining]
      show _ = source.remaining.drop (Event.returned ⟨call, .ok answer⟩).length
      rw [hreturned, hlength]
    · rw [returned_concat, hreturned, htaken]
    · rcases h.place with hplace | ⟨hfails, hnone⟩
      · refine Or.inl ?_
        show source.remaining.drop count = _
        rw [hplace, List.drop_drop]
      · refine Or.inr ⟨hfails, ?_⟩
        show source.remaining.drop count = _
        rw [hnone, List.drop_nil]
  · obtain ⟨hreturned, huntaken⟩ := Event.of_isExhausted source (untaken data past)
    rw [hnext]
    refine ⟨h.ending, ?_, ?_, h.consumed_le, h.place⟩
    · rw [untaken_concat, huntaken, h.remaining]
    · rw [returned_concat, hreturned, List.append_nil, h.returned]
  · rw [herror, hnext]
    refine ⟨h.ending, ?_, ?_, h.consumed_le, Or.inr ⟨?_, rfl⟩⟩
    · rw [untaken_concat, Event.untaken_error hread]
    · rw [returned_concat, Event.returned_error, List.append_nil, h.returned]
    · rw [← h.ending, hfailure]
      exact nofun

/-- After any calls the source stands where their history says. -/
theorem Position.after (calls : List Call) :
    ∀ {past : List Event} {source : Source}, Position data failure past source →
      Position data failure (past ++ source.events calls) (source.after calls) := by
  induction calls with
  | nil =>
      intro past source h
      rw [events, List.append_nil]
      exact h
  | cons call rest ih =>
      intro past source h
      have hrest := ih (h.perform call)
      rw [List.append_assoc, List.singleton_append] at hrest
      exact hrest

/-- Nothing is returned any more when nothing is left. -/
theorem returned_events_of_remaining (calls : List Call) :
    ∀ {source : Source}, source.remaining = [] → Source.returned (source.events calls) = [] := by
  induction calls with
  | nil => exact fun _ => rfl
  | cons call rest ih =>
      intro source hnone
      show Event.returned ⟨call, (source.perform call).1⟩ ++
        Source.returned ((source.perform call).2.events rest) = []
      rcases source.perform_cases call with
        ⟨count, answer, -, hok, hreturned, hnext⟩ | ⟨rfl, hnext⟩ | ⟨-, message, -, herror, hnext⟩
      · rw [hok, hreturned, hnone, List.take_nil, List.nil_append, hnext]
        exact ih (by rw [hnone, List.drop_nil])
      · rw [(Event.of_isExhausted source []).1, hnext]
        exact ih hnone
      · rw [herror, Event.returned_error, hnext]
        exact ih rfl

/-! ## The next call -/

/-- What the history of a source tells of it. -/
structure Accounted (data : Bytes) (failure : Option String) (past : List Event)
    (source : Source) : Prop where
  /-- The bytes that have been returned are the first of the data, as many as have been
      consumed. -/
  returned : Source.returned past = data.take source.consumed
  consumed_le : source.consumed ≤ data.length
  /-- What a call returns next are untaken bytes, from the first of them on. -/
  readUpTo_ok : ∀ count bytes, (source.readUpTo count).1 = .ok bytes →
    bytes = (untaken data past).take count
  readRest_ok : ∀ bytes, source.readRest.1 = .ok bytes → bytes = untaken data past
  copyRest_ok : ∀ sink count after, (source.copyRest sink).1 = .ok (count, after) →
    after = sink ++ untaken data past ∧ count = (untaken data past).length
  /-- Asking whether anything is left makes no difference to what follows. -/
  isExhausted_silent : ∀ later,
    (source.perform .isExhausted).2.events later = source.events later
  /-- On a source that ends normally no call fails, and nothing is left exactly when all of
      the data have been consumed. -/
  of_end : failure = none → (∀ call, ∃ answer, (source.perform call).1 = .ok answer) ∧
    source.isExhausted = .ok (decide (source.consumed = data.length))
  /-- On a source that fails, a bounded read fails when it goes beyond the untaken bytes, a
      read and a copy of the rest always, and the question when there are none. -/
  of_failure : ∀ message, failure = some message →
    (∀ count, (∃ reason, (source.readUpTo count).1 = .error reason) ↔
      (untaken data past).length < count) ∧
    source.readRest.1 = .error message ∧
    (∀ sink, (source.copyRest sink).1 = .error message) ∧
    ((∃ reason, source.isExhausted = .error reason) ↔ untaken data past = []) ∧
    source.isExhausted ≠ .ok true ∧
    ∀ call reason, (source.perform call).1 = .error reason → reason = message
  /-- A call that fails is not counted, and what a read that fails takes is never
      returned. -/
  of_error : ∀ call reason, (source.perform call).1 = .error reason →
    (source.perform call).2.consumed = source.consumed ∧
    (call ≠ .isExhausted → ∀ later,
      Source.returned ((source.perform call).2.events later) = [])

/-- A source that ends normally stands behind what has been consumed. -/
theorem Position.isExhausted_of_end (h : Position data none past source) :
    source.isExhausted = .ok (decide (source.consumed = data.length)) := by
  have hplace : source.remaining = data.drop source.consumed := by
    rcases h.place with hplace | ⟨hfails, -⟩
    · exact hplace
    · exact absurd rfl hfails
  have hle := h.consumed_le
  have hnone : source.remaining.isEmpty = decide (source.consumed = data.length) := by
    rw [hplace, Bool.eq_iff_iff, List.isEmpty_iff, List.drop_eq_nil_iff, decide_eq_true_eq]
    omega
  rw [Source.isExhausted_of_end h.ending, hnone]

/-- A source that stands where its history says is accounted for by it. -/
theorem Position.accounted (h : Position data failure past source) :
    Accounted data failure past source where
  returned := h.returned
  consumed_le := h.consumed_le
  readUpTo_ok := by
    intro count bytes hok
    rw [eq_take_of_readUpTo hok, h.remaining]
  readRest_ok := by
    intro bytes hok
    rw [eq_remaining_of_readRest hok, h.remaining]
  copyRest_ok := by
    intro sink count after hok
    rw [← h.remaining]
    exact eq_remaining_of_copyRest hok
  isExhausted_silent := fun _ => rfl
  of_end := by
    rintro rfl
    exact ⟨perform_succeeds h.ending, h.isExhausted_of_end⟩
  of_failure := by
    rintro message rfl
    rw [← h.remaining]
    refine ⟨fun count => readUpTo_fails_iff h.ending, readRest_eq_error h.ending, fun sink => ?_,
      isExhausted_fails_iff h.ending, isExhausted_ne_true h.ending, fun call reason herror => ?_⟩
    · rw [copyRest_outcome, readRest_eq_error h.ending]
      rfl
    · exact Option.some.inj ((failure_of_perform herror).symm.trans h.ending)
  of_error := by
    intro call reason herror
    rcases source.perform_cases call with
      ⟨count, answer, -, hok, -, -⟩ | ⟨rfl, hnext⟩ | ⟨-, message, -, -, hnext⟩
    · exact nomatch herror.symm.trans hok
    · rw [hnext]
      exact ⟨rfl, fun hread => absurd rfl hread⟩
    · rw [hnext]
      exact ⟨rfl, fun _ later => returned_events_of_remaining later rfl⟩

/-- **A SOURCE LOSES NOTHING AND REPEATS NOTHING**: whatever calls have been made on data
    that end normally or in a failure, the bytes that they returned are the first of the
    data, as many as are counted as consumed, and what the next call does is told by the
    data and the history alone. -/
theorem ofBytes_accounted (data : Bytes) (failure : Option String) (calls : List Call) :
    Accounted data failure ((ofBytes data failure).events calls)
      ((ofBytes data failure).after calls) :=
  ((position_ofBytes data failure).after calls).accounted

/-- The data end in a failure, and the second read goes beyond them: the byte that it takes
    is not counted, the question fails as well, and a read of no bytes still succeeds. -/
theorem ofBytes_accounted_beyond :
    let source := (ofBytes [97, 98, 99] (some "gone")).after [.readUpTo 2, .readUpTo 2]
    source.consumed = 2 ∧ source.isExhausted ≠ .ok true ∧
      (∃ reason, source.isExhausted = .error reason) ∧
      ¬ ∃ reason, (source.readUpTo 0).1 = .error reason := by
  obtain ⟨hreads, -, -, hasked, hleft, -⟩ :=
    (ofBytes_accounted [97, 98, 99] (some "gone") [.readUpTo 2, .readUpTo 2]).of_failure "gone" rfl
  refine ⟨rfl, hleft, hasked.mpr rfl, fun hfails => ?_⟩
  exact absurd ((hreads 0).mp hfails) (by decide)

end Attest.Source
