/-
# An event stream is a log

What is asked of a stream and its audience is answered as if all events were kept in one log.
The stream keeps fewer: none that was emitted while nobody listened, and none that has left
the window. But whoever listens is as far from the end of the stream as from the end of the
log, and from there to the end both hold the same events, as far as the window reaches.
-/

import ClaimLedger.Proofs.Progress.Alone
import Mathlib.Data.List.Forall2
import Mathlib.Data.Option.Defs
import Mathlib.Order.Bounds.Defs

namespace ClaimLedger

/-! ## The window -/

theorem powerOfTwoAbove_least (n : Nat) :
    (powerOfTwoAbove n).isPowerOfTwo ∧ n ≤ powerOfTwoAbove n ∧
      ∀ power : Nat, power.isPowerOfTwo → n ≤ power → powerOfTwoAbove n ≤ power := by
  rw [powerOfTwoAbove]
  split
  · next small =>
    refine ⟨⟨0, rfl⟩, small, fun power isPower _ => ?_⟩
    obtain ⟨exponent, rfl⟩ := isPower
    exact Nat.one_le_two_pow
  · next large =>
    have some : n - 1 ≠ 0 := by omega
    refine ⟨⟨_, rfl⟩, ?_, fun power isPower fits => ?_⟩
    · have above : n - 1 < 2 ^ ((n - 1).log2 + 1) := Nat.lt_log2_self
      exact Nat.le_of_pred_lt above
    · obtain ⟨exponent, rfl⟩ := isPower
      have below : 2 ^ (n - 1).log2 ≤ n - 1 := Nat.log2_self_le some
      have higher : (n - 1).log2 < exponent :=
        (Nat.pow_lt_pow_iff_right Nat.one_lt_two).mp (by omega)
      exact Nat.pow_le_pow_right Nat.two_pos higher

/-! ## Cursors -/

namespace Log

variable {log : Log} {cursor after : Cursor} {event : ProgressEvent} {rest : List ProgressEvent}
variable {σ : Type} {test : σ → ProgressEvent → Bool × σ} {memory : σ}

/-- The events that a cursor has not passed, as far as the window reaches. -/
def ahead (log : Log) (cursor : Cursor) : List ProgressEvent :=
  log.events.drop (log.place cursor)

theorem advance?_of_ahead_nil (nothing : log.ahead cursor = []) : log.advance? cursor = none := by
  rw [advance?, List.getElem?_eq_none (List.drop_eq_nil_iff.mp nothing), Option.map_none]

theorem exists_advance?_of_ahead (found : log.ahead cursor = event :: rest) :
    ∃ after, log.advance? cursor = some (event, after) ∧ log.ahead after = rest ∧
      after.next ≤ log.events.length ∧ log.events.length - after.next = rest.length := by
  obtain ⟨inside, isEvent, isRest⟩ : ∃ inside : log.place cursor < log.events.length,
      log.events[log.place cursor] = event ∧ log.events.drop (log.place cursor + 1) = rest := by
    have inside : log.place cursor < log.events.length := by
      by_contra outside
      rw [ahead, List.drop_eq_nil_iff.mpr (Nat.not_lt.mp outside)] at found
      cases found
    rw [ahead, List.drop_eq_getElem_cons inside] at found
    exact ⟨inside, List.cons.inj found⟩
  refine ⟨_, advance?_eq_some_iff.mpr ⟨List.getElem?_eq_some_iff.mpr ⟨inside, isEvent⟩, rfl⟩,
    ?_, inside, ?_⟩
  · rw [ahead, ← isRest]
    have here : log.place cursor = max cursor.next (log.events.length - log.window) := rfl
    congr 1
    simp only [place] at here ⊢
    omega
  · rw [← isRest, List.length_drop]

theorem length_ahead (log : Log) (cursor : Cursor) :
    (log.ahead cursor).length = min (log.events.length - cursor.next) log.window := by
  rw [ahead, List.length_drop, place]
  omega

theorem drain_of_none (nothing : log.advance? cursor = none) : log.drain cursor = ([], cursor) := by
  rw [drain]
  split
  · rfl
  · next moved =>
    rw [nothing] at moved
    cases moved

theorem drain_of_some (moved : log.advance? cursor = some (event, after)) :
    log.drain cursor = (event :: (log.drain after).1, (log.drain after).2) := by
  rw [drain]
  split
  · next nothing =>
    rw [moved] at nothing
    cases nothing
  · next moved' =>
    rw [moved] at moved'
    cases moved'
    rfl

theorem await_of_none (nothing : log.advance? cursor = none) :
    await test log memory cursor = (log.nothingLeft, cursor, memory) := by
  rw [await]
  split
  · rfl
  · next moved =>
    rw [nothing] at moved
    cases moved

theorem await_of_some (moved : log.advance? cursor = some (event, after)) :
    await test log memory cursor =
      if (test memory event).1 then (.event event, after, (test memory event).2)
      else await test log (test memory event).2 after := by
  rw [await]
  split
  · next nothing =>
    rw [moved] at nothing
    cases nothing
  · next moved' =>
    rw [moved] at moved'
    cases moved'
    rfl

end Log

/-! ## Streams -/

namespace EventStream

variable {stream : EventStream} {log : Log} {place : Subscription} {cursor : Cursor}
variable {event : ProgressEvent} {rest : List ProgressEvent}

/-- A stream that keeps as many events as the window of a log is wide. -/
structure Keeps (stream : EventStream) (log : Log) : Prop where
  capacity : stream.capacity = log.window
  positive : 0 < log.window
  isOpen : stream.isOpen = log.isOpen
  length_kept : stream.kept.length = min stream.position log.window

/-- A place in a stream and a cursor in a log with the same events ahead. -/
structure Tied (stream : EventStream) (log : Log) (place : Subscription) (cursor : Cursor) :
    Prop where
  place_le : place.next ≤ stream.position
  cursor_le : cursor.next ≤ log.events.length
  behind : stream.position - place.next = log.events.length - cursor.next
  ahead : stream.unread place = log.ahead cursor

theorem nothingLeft_eq (keeps : stream.Keeps log) : stream.nothingLeft = log.nothingLeft := by
  rw [nothingLeft, Log.nothingLeft, keeps.isOpen]

theorem tied_cursor (keeps : stream.Keeps log) : stream.Tied log ⟨stream.position⟩ log.cursor where
  place_le := Nat.le_refl _
  cursor_le := Nat.le_refl _
  behind := by rw [Log.cursor, Nat.sub_self, Nat.sub_self]
  ahead := by
    have length := keeps.length_kept
    have atEnd : stream.unread ⟨stream.position⟩ = [] :=
      List.drop_eq_nil_iff.mpr (by simp only; omega)
    have atEnd' : log.ahead log.cursor = [] := List.drop_eq_nil_iff.mpr (Nat.le_max_left _ _)
    rw [atEnd, atEnd']

/-- Both are at the end at the same time. -/
theorem Tied.passed (tied : stream.Tied log place cursor) (keeps : stream.Keeps log)
    (nothing : stream.unread place = []) :
    log.advance? cursor = none ∧ place.next = stream.position := by
  rw [tied.ahead] at nothing
  have length := log.length_ahead cursor
  rw [nothing, List.length_nil] at length
  have positive := keeps.positive
  have behind := tied.behind
  have placed := tied.place_le
  exact ⟨Log.advance?_of_ahead_nil nothing, by omega⟩

/-- Both find the same event, and stay tied behind it. -/
theorem Tied.advance (tied : stream.Tied log place cursor) (keeps : stream.Keeps log)
    (found : stream.unread place = event :: rest) :
    ∃ after, log.advance? cursor = some (event, after) ∧
      stream.Tied log ⟨stream.position - rest.length⟩ after ∧
      stream.unread ⟨stream.position - rest.length⟩ = rest := by
  obtain ⟨after, moved, isRest, inside, left⟩ := Log.exists_advance?_of_ahead (tied.ahead ▸ found)
  have length := keeps.length_kept
  have found' := congrArg List.length found
  rw [EventStream.unread, List.length_drop, List.length_cons] at found'
  have behind : stream.unread ⟨stream.position - rest.length⟩ = rest := by
    have isTail := congrArg List.tail found
    rw [EventStream.unread, List.tail_drop, List.tail_cons] at isTail
    rw [EventStream.unread, ← isTail]
    congr 1
    simp only
    rw [isTail]
    omega
  exact ⟨after, moved, ⟨Nat.sub_le _ _, inside, by simp only; omega, behind.trans isRest.symm⟩,
    behind⟩

/-- Draining shows the same and leads to the end. -/
theorem Tied.drain (tied : stream.Tied log place cursor) (keeps : stream.Keeps log) :
    (stream.drain place).1 = (log.drain cursor).1 ∧
      stream.Tied log (stream.drain place).2 (log.drain cursor).2 := by
  induction unread : stream.unread place generalizing place cursor with
  | nil =>
    obtain ⟨nothing, atEnd⟩ := tied.passed keeps unread
    have stays : stream.drain place = ([], place) := by
      rw [EventStream.drain, unread, atEnd, Nat.max_self, ← atEnd]
    rw [stays, Log.drain_of_none nothing]
    exact ⟨rfl, tied⟩
  | cons event rest ih =>
    obtain ⟨after, moved, tied', behind⟩ := tied.advance keeps unread
    have goesOn : stream.drain place =
        (event :: (stream.drain ⟨stream.position - rest.length⟩).1,
          (stream.drain ⟨stream.position - rest.length⟩).2) := by
      rw [EventStream.drain, EventStream.drain, unread, behind, Nat.max_eq_right tied.place_le,
        Nat.max_eq_right tied'.place_le]
    obtain ⟨events, last⟩ := ih tied' behind
    rw [goesOn, Log.drain_of_some moved]
    exact ⟨congrArg (List.cons event) events, last⟩

/-- A subscriber that has fallen behind goes on with the oldest event kept. -/
example : ((EventStream.new 2).subscribe.2.emitAll [.block 1, .block 2, .block 3]).drain ⟨0⟩ =
    ([.block 2, .block 3], ⟨3⟩) := by rfl

/-- Receiving finds the same. -/
theorem Tied.receive (tied : stream.Tied log place cursor) (keeps : stream.Keeps log) :
    (stream.receive place).1 = (log.receive cursor).1 ∧
      stream.Tied log (stream.receive place).2 (log.receive cursor).2 := by
  rw [EventStream.receive, Log.receive]
  cases unread : stream.unread place with
  | nil =>
    obtain ⟨nothing, -⟩ := tied.passed keeps unread
    rw [nothing]
    exact ⟨nothingLeft_eq keeps, tied⟩
  | cons event rest =>
    obtain ⟨after, moved, tied', -⟩ := tied.advance keeps unread
    rw [moved]
    exact ⟨rfl, tied'⟩

/-! ### Events -/

/-- A window over a list that becomes longer at the end. -/
theorem drop_concat {α : Type} (items : List α) {passed : Nat} (inside : passed ≤ items.length)
    (item : α) (window : Nat) :
    (items ++ [item]).drop (max passed (items.length + 1 - window)) =
      (items.drop passed ++ [item]).drop ((items.drop passed).length + 1 - window) := by
  rw [← List.drop_append_of_le_length inside, List.drop_drop, List.length_drop]
  congr 1
  omega

theorem ahead_concat (inside : cursor.next ≤ log.events.length) (event : ProgressEvent) :
    { log with events := log.events ++ [event] }.ahead cursor =
      (log.ahead cursor ++ [event]).drop ((log.ahead cursor).length + 1 - log.window) := by
  have here : log.place cursor ≤ log.events.length := by
    rw [Log.place]
    omega
  rw [Log.ahead, Log.ahead, ← drop_concat log.events here]
  congr 1
  simp only [Log.place, List.length_append, List.length_singleton]
  omega

theorem unread_emit (keeps : stream.Keeps log) (listening : stream.subscribers ≠ 0)
    (placed : place.next ≤ stream.position) (event : ProgressEvent) :
    (stream.emit event).unread place =
      (stream.unread place ++ [event]).drop ((stream.unread place).length + 1 - log.window) := by
  have length := keeps.length_kept
  have positive := keeps.positive
  have here : place.next - (stream.position - stream.kept.length) ≤ stream.kept.length := by omega
  rw [emit, if_neg listening, unread, unread, ← drop_concat stream.kept here, List.drop_drop]
  congr 1
  simp only [List.length_drop, List.length_append, List.length_singleton, keeps.capacity]
  omega

theorem Keeps.emit (keeps : stream.Keeps log) (event : ProgressEvent) :
    (stream.emit event).Keeps log := by
  rw [EventStream.emit]
  split
  · exact keeps
  · refine ⟨keeps.capacity, keeps.positive, keeps.isOpen, ?_⟩
    have length := keeps.length_kept
    have positive := keeps.positive
    simp only [List.length_drop, List.length_append, List.length_singleton, keeps.capacity]
    omega

theorem Tied.emit (tied : stream.Tied log place cursor) (keeps : stream.Keeps log)
    (listening : stream.subscribers ≠ 0) (event : ProgressEvent) :
    (stream.emit event).Tied { log with events := log.events ++ [event] } place cursor := by
  have placed := tied.place_le
  have inside := tied.cursor_le
  have behind := tied.behind
  have position : (stream.emit event).position = stream.position + 1 := by
    rw [EventStream.emit, if_neg listening]
  refine ⟨by omega, by simp; omega, by simp; omega, ?_⟩
  rw [unread_emit keeps listening placed, ahead_concat inside, tied.ahead]

/-- Whoever listens stays tied whatever comes. -/
theorem Tied.emitAll (tied : stream.Tied log place cursor) (keeps : stream.Keeps log)
    (listening : stream.subscribers ≠ 0) (isOpen : log.isOpen = true)
    (events : List ProgressEvent) :
    (stream.emitAll events).Tied (log.emit events) place cursor := by
  induction events generalizing stream log with
  | nil =>
    rw [Log.emit, if_pos isOpen, List.append_nil]
    exact tied
  | cons event more ih =>
    have first := ih (tied.emit keeps listening event) { keeps.emit event with }
      (by rwa [Audience.subscribers_emit]) isOpen
    rw [Log.emit, if_pos isOpen] at first ⊢
    rw [List.append_assoc] at first
    exact first

theorem Keeps.emitAll (keeps : stream.Keeps log) (events : List ProgressEvent) :
    (stream.emitAll events).Keeps (log.emit events) := by
  have kept : (stream.emitAll events).Keeps log :=
    List.foldlRecOn (motive := fun now : EventStream => now.Keeps log) _ _ keeps
      fun _ keeps event _ => keeps.emit event
  rw [Log.emit]
  split
  · exact { kept with }
  · exact kept

/-- A waiter is shown the same until its test accepts an event. -/
theorem Tied.poll {σ : Type} (test : σ → ProgressEvent → Bool × σ) (memory : σ)
    (tied : stream.Tied log place cursor) (keeps : stream.Keeps log) :
    (Waiter.poll test stream ⟨place, memory⟩).1 = (log.await test memory cursor).1 ∧
      stream.Tied log (Waiter.poll test stream ⟨place, memory⟩).2.subscription
        (log.await test memory cursor).2.1 ∧
      (Waiter.poll test stream ⟨place, memory⟩).2.memory = (log.await test memory cursor).2.2 := by
  induction unread : stream.unread place generalizing place cursor memory with
  | nil =>
    obtain ⟨nothing, -⟩ := tied.passed keeps unread
    have drained := (tied.drain keeps).2
    rw [Log.drain_of_none nothing] at drained
    rw [Log.await_of_none nothing, Waiter.poll, unread]
    exact ⟨nothingLeft_eq keeps, drained, rfl⟩
  | cons event rest ih =>
    obtain ⟨after, moved, tied', behind⟩ := tied.advance keeps unread
    rw [Log.await_of_some moved]
    split
    · next accepted =>
      have found : Waiter.poll test stream ⟨place, memory⟩ =
          (.event event, ⟨⟨stream.position - rest.length⟩, (test memory event).2⟩) := by
        rw [Waiter.poll, unread, Waiter.search]
        simp only [accepted, if_true]
      rw [found]
      exact ⟨rfl, tied', rfl⟩
    · next refused =>
      have goesOn : Waiter.poll test stream ⟨place, memory⟩ =
          Waiter.poll test stream ⟨⟨stream.position - rest.length⟩, (test memory event).2⟩ := by
        have sameEnd : (stream.drain place).2 =
            (stream.drain ⟨stream.position - rest.length⟩).2 := by
          rw [EventStream.drain, EventStream.drain, Nat.max_eq_right tied.place_le,
            Nat.max_eq_right tied'.place_le]
        rw [Waiter.poll, Waiter.poll, unread, behind, Waiter.search, sameEnd]
        simp only [refused]
        rfl
      rw [goesOn]
      exact ih _ tied' behind

end EventStream

/-! ## The audience -/

namespace Audience

/-- Two lists that file related entries under the same names. -/
abbrev Filed {α β : Type} (R : α → β → Prop) (items : List (String × α))
    (items' : List (String × β)) : Prop :=
  List.Forall₂ (fun item item' => item.1 = item'.1 ∧ R item.2 item'.2) items items'

section Filed

variable {α β : Type} {R S : α → β → Prop} {items : List (String × α)}
variable {items' : List (String × β)}

theorem Filed.lookup (filed : Filed R items items') (name : String) :
    Option.Rel R (items.lookup name) (items'.lookup name) := by
  induction filed with
  | nil => exact .none
  | @cons item item' more more' related _ ih =>
    obtain ⟨here, value⟩ := item
    obtain ⟨here', value'⟩ := item'
    obtain ⟨same, related⟩ := related
    obtain rfl : here = here' := same
    rw [List.lookup_cons, List.lookup_cons]
    split
    · exact .some related
    · exact ih

theorem Filed.filter (filed : Filed R items items') (name : String) :
    Filed R (items.filter fun item => item.1 != name)
      (items'.filter fun item => item.1 != name) := by
  induction filed with
  | nil => exact .nil
  | @cons item item' more more' related _ ih =>
    rw [List.filter_cons, List.filter_cons, related.1]
    split
    · exact .cons related ih
    · exact ih

theorem Filed.file (filed : Filed R items items') (name : String) {value : α} {value' : β}
    (related : R value value') :
    Filed R (Audience.file name value items) (Audience.file name value' items') :=
  .cons ⟨rfl, related⟩ (filed.filter name)

theorem Filed.mono (filed : Filed R items items')
    (weaker : ∀ item ∈ items, ∀ value, R item.2 value → S item.2 value) :
    Filed S items items' := by
  induction filed with
  | nil => exact .nil
  | cons related _ ih =>
    obtain ⟨here, there⟩ := List.forall_mem_cons.mp weaker
    exact .cons ⟨related.1, here _ related.2⟩ (ih there)

theorem rel_mono {found : Option α} {found' : Option β}
    (weaker : ∀ value ∈ found, ∀ value', R value value' → S value value') :
    Option.Rel R found found' → Option.Rel S found found'
  | .none => .none
  | .some related => .some (weaker _ rfl _ related)

theorem isSome_eq_of_rel {found : Option α} {found' : Option β} :
    Option.Rel R found found' → found.isSome = found'.isSome
  | .none => rfl
  | .some _ => rfl

theorem Filed.countP_isSome {items : List (String × Option α)} {items' : List (String × Option β)}
    (filed : Filed (Option.Rel R) items items') :
    (items.countP fun item => item.2.isSome) = items'.countP fun item => item.2.isSome := by
  induction filed with
  | nil => rfl
  | cons related _ ih => rw [List.countP_cons, List.countP_cons, ih, isSome_eq_of_rel related.2]

end Filed

variable {σ : Type} {audience : Audience σ} {readership : Readership σ}

/-- A waiter and a cursor with what its test remembers. -/
abbrev Waits (stream : EventStream) (log : Log) (waiter : Waiter σ) (place : Cursor × σ) : Prop :=
  stream.Tied log waiter.subscription place.1 ∧ waiter.memory = place.2

/-- An audience whose members are tied to the readers and waiters of a log. -/
structure Follows (audience : Audience σ) (readership : Readership σ) : Prop where
  keeps : audience.stream.Keeps readership.log
  readers : Filed (audience.stream.Tied readership.log) audience.readers readership.readers
  waiters : Filed (Option.Rel (Waits audience.stream readership.log)) audience.waiters
    readership.waiters

theorem follows_new (capacity : Nat) : (new capacity : Audience σ).Follows
    (Readership.new (powerOfTwoAbove (max capacity 1))) := by
  have wide := (powerOfTwoAbove_least (max capacity 1)).2.1
  exact ⟨⟨rfl, by simp only [Readership.new]; omega, rfl, by simp [new, EventStream.new]⟩, .nil,
    .nil⟩

/-- If whoever listens stays tied, then all do. -/
theorem Follows.moved (follows : audience.Follows readership) (counted : audience.Counted)
    {stream : EventStream} {log : Log} (keeps : stream.Keeps log)
    (stays : audience.stream.subscribers ≠ 0 → ∀ {place cursor},
      audience.stream.Tied readership.log place cursor → stream.Tied log place cursor) :
    { audience with stream }.Follows { readership with log } where
  keeps := keeps
  readers := follows.readers.mono fun _ listed _ tied =>
    stays (counted.subscribers_of_reader listed) tied
  waiters := follows.waiters.mono fun _ listed _ => rel_mono fun _ isWaiter _ waits =>
    ⟨stays (counted.subscribers_of_waiter listed (Option.isSome_of_mem isWaiter)) waits.1, waits.2⟩

/-- How many are counted makes no difference to the places. -/
theorem Follows.recount (follows : audience.Follows readership) (counted : audience.Counted)
    (count : Nat) :
    { audience with stream := { audience.stream with subscribers := count } }.Follows readership :=
  follows.moved counted { follows.keeps with } fun _ _ _ tied => { tied with }

theorem Follows.file_reader (follows : audience.Follows readership) (name : String)
    {place : Subscription} {cursor : Cursor}
    (tied : audience.stream.Tied readership.log place cursor) :
    { audience with readers := file name place audience.readers }.Follows
      { readership with readers := file name cursor readership.readers } :=
  ⟨follows.keeps, follows.readers.file name tied, follows.waiters⟩

theorem Follows.file_waiter (follows : audience.Follows readership) (name : String)
    {waiter : Option (Waiter σ)} {place : Option (Cursor × σ)}
    (waits : Option.Rel (Waits audience.stream readership.log) waiter place) :
    { audience with waiters := file name waiter audience.waiters }.Follows
      { readership with waiters := file name place readership.waiters } :=
  ⟨follows.keeps, follows.readers, follows.waiters.file name waits⟩

/-- What is emitted while nobody listens is in the log only, but nobody can tell. -/
theorem Follows.emit (follows : audience.Follows readership) (counted : audience.Counted)
    (events : List ProgressEvent) :
    (audience.emit events).Follows { readership with log := readership.log.emit events } := by
  rw [Audience.emit, follows.keeps.isOpen]
  split
  · next isOpen =>
    exact follows.moved counted (follows.keeps.emitAll events) fun listening _ _ tied =>
      tied.emitAll follows.keeps listening isOpen events
  · next ended =>
    rw [Log.emit, if_neg ended]
    exact follows

theorem Follows.subscribers (follows : audience.Follows readership) (counted : audience.Counted) :
    audience.stream.subscribers = readership.readers.length +
      readership.waiters.countP fun item => item.2.isSome := by
  rw [counted.count, follows.readers.length_eq, follows.waiters.countP_isSome]

/-- A request to an audience does what it does to the log, and is answered alike. -/
theorem Follows.step (follows : audience.Follows readership) (counted : audience.Counted)
    (test : σ → ProgressEvent → Bool × σ) (request : Request σ) :
    (audience.step test request).1.Follows (readership.step test request).1 ∧
      (audience.step test request).2 = (readership.step test request).2 := by
  cases request with
  | subscribe reader =>
    obtain ⟨count, subscribed⟩ : ∃ count, audience.subscribe reader =
        { audience with
          stream := { audience.stream with subscribers := count }
          readers := file reader ⟨audience.stream.position⟩ audience.readers } := by
      simp only [Audience.subscribe, EventStream.subscribe, EventStream.unsubscribe]
      split <;> exact ⟨_, rfl⟩
    have tied := EventStream.tied_cursor (follows.recount counted count).keeps
    refine ⟨?_, rfl⟩
    change (audience.subscribe reader).Follows _
    rw [subscribed]
    exact (follows.recount counted count).file_reader reader tied
  | unsubscribe reader =>
    have found := follows.readers.lookup reader
    simp only [Audience.step, Audience.unsubscribe, Readership.step]
    generalize audience.readers.lookup reader = place at found ⊢
    generalize readership.readers.lookup reader = cursor at found ⊢
    cases found with
    | none => exact ⟨follows, rfl⟩
    | some tied =>
      have recounted := follows.recount counted (audience.stream.subscribers - 1)
      exact ⟨⟨recounted.keeps, recounted.readers.filter reader, recounted.waiters⟩, rfl⟩
  | count => exact ⟨follows, congrArg Answer.subscribers (follows.subscribers counted)⟩
  | emit events => exact ⟨follows.emit counted events, rfl⟩
  | drain reader =>
    have found := follows.readers.lookup reader
    simp only [Audience.step, Readership.step]
    generalize audience.readers.lookup reader = place at found ⊢
    generalize readership.readers.lookup reader = cursor at found ⊢
    cases found with
    | none => exact ⟨follows, rfl⟩
    | some tied =>
      obtain ⟨events, last⟩ := tied.drain follows.keeps
      exact ⟨follows.file_reader reader last, congrArg Answer.events events⟩
  | receive reader =>
    have found := follows.readers.lookup reader
    simp only [Audience.step, Readership.step]
    generalize audience.readers.lookup reader = place at found ⊢
    generalize readership.readers.lookup reader = cursor at found ⊢
    cases found with
    | none => exact ⟨follows, rfl⟩
    | some tied =>
      obtain ⟨reception, last⟩ := tied.receive follows.keeps
      exact ⟨follows.file_reader reader last, congrArg Answer.found reception⟩
  | wait waiter memory =>
    obtain ⟨count, waiting⟩ : ∃ count, audience.wait waiter memory =
        { audience with
          stream := { audience.stream with subscribers := count }
          waiters := file waiter (some ⟨⟨audience.stream.position⟩, memory⟩)
            audience.waiters } := by
      simp only [Audience.wait, EventStream.subscribe, EventStream.unsubscribe]
      split <;> exact ⟨_, rfl⟩
    have tied := EventStream.tied_cursor (follows.recount counted count).keeps
    refine ⟨?_, rfl⟩
    change (audience.wait waiter memory).Follows _
    rw [waiting]
    exact (follows.recount counted count).file_waiter waiter (.some ⟨tied, rfl⟩)
  | poll waiter =>
    have found := follows.waiters.lookup waiter
    simp only [Audience.step, Audience.poll, Readership.step]
    generalize audience.waiters.lookup waiter = place at found ⊢
    generalize readership.waiters.lookup waiter = cursor at found ⊢
    cases found with
    | none => exact ⟨follows, rfl⟩
    | some waits =>
      cases waits with
      | none => exact ⟨follows, rfl⟩
      | @some waiting place waits =>
        obtain ⟨here, memory⟩ := waiting
        obtain ⟨cursor, memory'⟩ := place
        obtain ⟨tied, same⟩ := waits
        obtain rfl : memory = memory' := same
        obtain ⟨reception, last, remembered⟩ := tied.poll test memory follows.keeps
        simp only
        rw [← reception]
        split
        · exact ⟨follows.file_waiter waiter (.some ⟨last, remembered⟩), rfl⟩
        · have recounted := follows.recount counted (audience.stream.subscribers - 1)
          exact ⟨recounted.file_waiter waiter .none, rfl⟩
  | close =>
    exact ⟨follows.moved counted { follows.keeps with isOpen := rfl } fun _ _ _ tied =>
      { tied with }, rfl⟩

theorem Follows.run (follows : audience.Follows readership) (counted : audience.Counted)
    (test : σ → ProgressEvent → Bool × σ) (requests : List (Request σ)) :
    (follow (Audience.step test) audience requests).2 =
      (follow (Readership.step test) readership requests).2 := by
  induction requests generalizing audience readership with
  | nil => rfl
  | cons request more ih =>
    obtain ⟨follows', answer⟩ := follows.step counted test request
    exact congrArg₂ List.cons answer (ih follows' (counted.step test request))

/-- How a new stream of a given capacity and its audience answer requests. -/
def answers (test : σ → ProgressEvent → Bool × σ) (capacity : Nat) (requests : List (Request σ)) :
    List Answer :=
  (follow (step test) (new capacity) requests).2

/-- Requests to a stream are answered as by a log whose window is the least power of two that is
not below the capacity. There the events that a reader is shown are in the order of the log,
and none is left out that is within the window. What one is answered does not depend on the
others. -/
theorem answers_eq_of_log (test : σ → ProgressEvent → Bool × σ) (capacity : Nat) :
    ∃ window : Nat, IsLeast {power : Nat | power.isPowerOfTwo ∧ max capacity 1 ≤ power} window ∧
      ∀ requests : List (Request σ), ∃ readership : Readership σ,
        follow (Readership.step test) (Readership.new window) requests =
          (readership, answers test capacity requests) ∧
        readership.InOrder ∧
        (∀ reader, ∀ cursor ∈ readership.readers.lookup reader,
          cursor.Saw readership.log (shownTo reader requests (answers test capacity requests))) ∧
        ∀ member, heard member requests (answers test capacity requests) =
          heard member (alone member requests)
            (answers test capacity (alone member requests)) := by
  obtain ⟨isPower, wide, least⟩ := powerOfTwoAbove_least (max capacity 1)
  have alike (requests : List (Request σ)) :=
    (follows_new capacity).run (counted_new capacity) test requests
  refine ⟨_, ⟨⟨isPower, wide⟩, fun power fits => least power fits.1 fits.2⟩, fun requests =>
    ⟨_, Prod.ext rfl (alike requests).symm, ?inOrder, fun reader => ?saw, fun member => ?heard⟩⟩
  case inOrder =>
    exact follow_keeps (fun _ request inOrder => inOrder.step test request)
      (Readership.inOrder_new _) requests
  case saw =>
    rw [answers, alike]
    exact Readership.saw_follow test requests (fun _ unknown => by cases unknown)
  case heard =>
    rw [answers, answers, alike, alike]
    exact Readership.heard_alone (.refl _ _) requests

end Audience

end ClaimLedger
