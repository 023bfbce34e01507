/-
# Reading a log

What an event stream is meant to be: a log to which every event is appended, whoever listens,
and cursors into it. A subscription puts a cursor at the end. A cursor is shown the oldest
event that it has not passed and that is among the last ones of the log; a window says how
many these are. Draining shows one event after the other until there is none, and a waiter
does the same until its test accepts one. Nothing here is bounded but the window, and nothing
depends on how many cursors there are.

A cursor remembers where it was put and which places it was shown, so that one can say what
it was not shown: no event twice or out of order, and none left out that was among the last.
The events that a reader is answered are those that its cursor was shown.
-/

import ClaimLedger.Proofs.Progress.Members

namespace ClaimLedger

/-- Follow requests one after the other, and collect the answers. -/
def follow {State Request Answer : Type} (step : State → Request → State × Answer) :
    State → List Request → State × List Answer
  | state, [] => (state, [])
  | state, request :: more =>
    let (state, answer) := step state request
    let (state, answers) := follow step state more
    (state, answer :: answers)

/-- All events so far, and whether more may follow. -/
structure Log where
  /-- The number of events at the end that are there for cursors that have fallen behind. -/
  window : Nat
  events : List ProgressEvent := []
  isOpen : Bool := true

/-- A place in a log. -/
structure Cursor where
  /-- The number of events before the cursor when it was put there. -/
  start : Nat
  /-- The number of events before it now. -/
  next : Nat
  /-- The places of the events that it was shown. -/
  shown : List Nat := []

namespace Log

/-- Append events, unless the log is closed. -/
def emit (log : Log) (events : List ProgressEvent) : Log :=
  if log.isOpen then { log with events := log.events ++ events } else log

/-- End the log. -/
def close (log : Log) : Log :=
  { log with isOpen := false }

/-- A cursor at the end. -/
def cursor (log : Log) : Cursor :=
  ⟨log.events.length, log.events.length, []⟩

/-- The place of the oldest event that a cursor has not passed and that is among the last. -/
def place (log : Log) (cursor : Cursor) : Nat :=
  max cursor.next (log.events.length - log.window)

/-- Show a cursor the event at its place, and move it behind that. -/
def advance? (log : Log) (cursor : Cursor) : Option (ProgressEvent × Cursor) :=
  log.events[log.place cursor]?.map fun event =>
    (event, { cursor with
      next := log.place cursor + 1
      shown := cursor.shown ++ [log.place cursor] })

/-- What a cursor finds that has passed all events. -/
def nothingLeft (log : Log) : Reception :=
  if log.isOpen then .pending else .closed

/-- The next event for a cursor. -/
def receive (log : Log) (cursor : Cursor) : Reception × Cursor :=
  match log.advance? cursor with
  | none => (log.nothingLeft, cursor)
  | some (event, after) => (.event event, after)

theorem advance?_eq_some_iff {log : Log} {cursor after : Cursor} {event : ProgressEvent} :
    log.advance? cursor = some (event, after) ↔ log.events[log.place cursor]? = some event ∧
      after = ⟨cursor.start, log.place cursor + 1, cursor.shown ++ [log.place cursor]⟩ := by
  rw [advance?, Option.map_eq_some_iff]
  constructor
  · rintro ⟨event, found, moved⟩
    cases moved
    exact ⟨found, rfl⟩
  · rintro ⟨found, rfl⟩
    exact ⟨event, found, rfl⟩

theorem left_lt_of_advance? {log : Log} {cursor after : Cursor} {event : ProgressEvent}
    (moved : log.advance? cursor = some (event, after)) :
    log.events.length - after.next < log.events.length - cursor.next := by
  obtain ⟨found, rfl⟩ := advance?_eq_some_iff.mp moved
  obtain ⟨inside, -⟩ := List.getElem?_eq_some_iff.mp found
  rw [place] at inside
  simp only [place]
  omega

/-- All events for a cursor, one after the other until there is none. -/
def drain (log : Log) (cursor : Cursor) : List ProgressEvent × Cursor :=
  match moved : log.advance? cursor with
  | none => ([], cursor)
  | some (event, after) =>
    have := left_lt_of_advance? moved
    let (events, last) := log.drain after
    (event :: events, last)
termination_by log.events.length - cursor.next

/-- Show a cursor one event after the other, until a test accepts one or there is none. The
test sees what it has remembered. -/
def await {σ : Type} (test : σ → ProgressEvent → Bool × σ) (log : Log) (memory : σ)
    (cursor : Cursor) : Reception × Cursor × σ :=
  match moved : log.advance? cursor with
  | none => (log.nothingLeft, cursor, memory)
  | some (event, after) =>
    have := left_lt_of_advance? moved
    let (accepted, memory) := test memory event
    if accepted then (.event event, after, memory) else await test log memory after
termination_by log.events.length - cursor.next

end Log

/-- The readers and waiters of a log by name. A waiter that has left keeps its name but has no
cursor. -/
structure Readership (σ : Type) where
  log : Log
  readers : List (String × Cursor) := []
  waiters : List (String × Option (Cursor × σ)) := []

namespace Readership

open Audience (Request Answer file)

variable {σ : Type}

/-- Nobody reads an empty log. -/
def new (window : Nat) : Readership σ where
  log := { window }

/-- Follow a request. -/
def step (test : σ → ProgressEvent → Bool × σ) (readership : Readership σ) :
    Request σ → Readership σ × Answer
  | .subscribe reader =>
    ({ readership with
      readers := file reader readership.log.cursor readership.readers }, .nothing)
  | .unsubscribe reader =>
    match readership.readers.lookup reader with
    | none => (readership, .wasThere false)
    | some _ =>
      ({ readership with readers := readership.readers.filter fun item => item.1 != reader },
        .wasThere true)
  | .count =>
    (readership, .subscribers (readership.readers.length +
      readership.waiters.countP fun item => item.2.isSome))
  | .emit events => ({ readership with log := readership.log.emit events }, .nothing)
  | .drain reader =>
    match readership.readers.lookup reader with
    | none => (readership, .unknownName)
    | some cursor =>
      let (events, cursor) := readership.log.drain cursor
      ({ readership with readers := file reader cursor readership.readers }, .events events)
  | .receive reader =>
    match readership.readers.lookup reader with
    | none => (readership, .unknownName)
    | some cursor =>
      let (reception, cursor) := readership.log.receive cursor
      ({ readership with readers := file reader cursor readership.readers }, .found reception)
  | .wait waiter memory =>
    ({ readership with
      waiters := file waiter (some (readership.log.cursor, memory)) readership.waiters }, .nothing)
  | .poll waiter =>
    match readership.waiters.lookup waiter with
    | none => (readership, .unknownName)
    | some none => (readership, .hasLeft)
    | some (some (cursor, memory)) =>
      let (reception, place) := readership.log.await test memory cursor
      let still := if reception = .pending then some place else none
      ({ readership with waiters := file waiter still readership.waiters }, .found reception)
  | .close => ({ readership with log := readership.log.close }, .nothing)

end Readership

/-! ## In order, and nothing left out -/

/-- What a cursor was shown since it was put into a log. -/
structure Cursor.InOrder (log : Log) (cursor : Cursor) : Prop where
  started : cursor.start ≤ cursor.next
  reached : cursor.next ≤ log.events.length
  /-- No event is shown twice, or after a later one. -/
  ordered : cursor.shown.Pairwise (· < ·)
  /-- No event is shown that was there before. -/
  within : ∀ place ∈ cursor.shown, cursor.start ≤ place ∧ place < cursor.next
  /-- What was passed without being shown is not among the last events. -/
  skipped : ∀ place, cursor.start ≤ place → place < cursor.next → place ∉ cursor.shown →
    place + log.window < log.events.length

namespace Log

variable {log : Log} {cursor after : Cursor} {event : ProgressEvent}

theorem inOrder_cursor (log : Log) : log.cursor.InOrder log where
  started := Nat.le_refl _
  reached := Nat.le_refl _
  ordered := .nil
  within := by simp [Log.cursor]
  skipped _ started passed := absurd passed (Nat.not_lt.mpr started)

theorem inOrder_advance? (inOrder : cursor.InOrder log)
    (moved : log.advance? cursor = some (event, after)) : after.InOrder log := by
  obtain ⟨found, rfl⟩ := advance?_eq_some_iff.mp moved
  obtain ⟨inside, -⟩ := List.getElem?_eq_some_iff.mp found
  have started := inOrder.started
  have here : log.place cursor = max cursor.next (log.events.length - log.window) := rfl
  refine ⟨by simp only; omega, inside, ?ordered, ?within, ?skipped⟩
  case ordered =>
    refine List.pairwise_append.mpr ⟨inOrder.ordered, List.pairwise_singleton _ _, ?_⟩
    intro place listed last isLast
    obtain rfl := List.mem_singleton.mp isLast
    have := (inOrder.within place listed).2
    omega
  case within =>
    intro place listed
    simp only
    rcases List.mem_append.mp listed with earlier | last
    · have := inOrder.within place earlier
      omega
    · obtain rfl := List.mem_singleton.mp last
      omega
  case skipped =>
    intro place started passed unseen
    simp only [List.mem_append, List.mem_singleton, not_or] at started passed unseen
    -- a place that was not passed before is left out because the window has moved on
    by_cases earlier : place < cursor.next
    · exact inOrder.skipped place started earlier unseen.1
    · omega

theorem inOrder_receive (inOrder : cursor.InOrder log) : (log.receive cursor).2.InOrder log := by
  rw [receive]
  split
  · exact inOrder
  · next moved => exact inOrder_advance? inOrder moved

theorem inOrder_drain (inOrder : cursor.InOrder log) : (log.drain cursor).2.InOrder log := by
  fun_induction drain log cursor with
  | case1 cursor _ => exact inOrder
  | case2 cursor event after moved _ events last result ih =>
    have later := ih (inOrder_advance? inOrder moved)
    rwa [result] at later

theorem inOrder_await {σ : Type} {test : σ → ProgressEvent → Bool × σ} {memory : σ}
    (inOrder : cursor.InOrder log) : (await test log memory cursor).2.1.InOrder log := by
  fun_induction await test log memory cursor with
  | case1 memory cursor _ => exact inOrder
  | case2 memory cursor event after moved _ _ _ => exact inOrder_advance? inOrder moved
  | case3 memory cursor event after moved _ _ _ _ _ ih => exact ih (inOrder_advance? inOrder moved)

/-- Growing takes nothing away from what was shown, and what was lost stays lost. -/
theorem inOrder_emit (inOrder : cursor.InOrder log) (events : List ProgressEvent) :
    cursor.InOrder (log.emit events) := by
  rw [emit]
  split
  · have grown : log.events.length ≤ (log.events ++ events).length := by simp
    exact { inOrder with
      reached := Nat.le_trans inOrder.reached grown
      skipped := fun place started passed unseen =>
        Nat.lt_of_lt_of_le (inOrder.skipped place started passed unseen) grown }
  · exact inOrder

end Log

/-! ## Following requests -/

section Follow

variable {State Request Answer : Type} {step : State → Request → State × Answer}

theorem follow_keeps {P : State → Prop}
    (keeps : ∀ state request, P state → P (step state request).1) {state : State} (holds : P state)
    (requests : List Request) : P (follow step state requests).1 := by
  induction requests generalizing state with
  | nil => exact holds
  | cons request more ih => exact ih (keeps state request holds)

end Follow

namespace Readership

variable {σ : Type} {readership : Readership σ}

/-- Every cursor in the log is in order. -/
structure InOrder (readership : Readership σ) : Prop where
  readers : ∀ item ∈ readership.readers, item.2.InOrder readership.log
  waiters : ∀ item ∈ readership.waiters, ∀ pair ∈ item.2, pair.1.InOrder readership.log

theorem inOrder_new (window : Nat) : (new window : Readership σ).InOrder :=
  ⟨List.forall_mem_nil _, List.forall_mem_nil _⟩

theorem InOrder.step (inOrder : readership.InOrder) (test : σ → ProgressEvent → Bool × σ)
    (request : Audience.Request σ) : (readership.step test request).1.InOrder := by
  cases request with
  | subscribe reader =>
    exact { inOrder with
      readers := Audience.forall_mem_file (Log.inOrder_cursor _) inOrder.readers }
  | unsubscribe reader =>
    simp only [Readership.step]
    split
    · exact inOrder
    · exact { inOrder with
        readers := fun item listed => inOrder.readers item (List.mem_filter.mp listed).1 }
  | count => exact inOrder
  | emit events =>
    exact ⟨fun item listed => Log.inOrder_emit (inOrder.readers item listed) events,
      fun item listed pair isPair =>
        Log.inOrder_emit (inOrder.waiters item listed pair isPair) events⟩
  | drain reader =>
    simp only [Readership.step]
    split
    · exact inOrder
    · next cursor found =>
      have here := inOrder.readers _ (Audience.mem_of_lookup found)
      exact { inOrder with
        readers := Audience.forall_mem_file (Log.inOrder_drain here) inOrder.readers }
  | receive reader =>
    simp only [Readership.step]
    split
    · exact inOrder
    · next cursor found =>
      have here := inOrder.readers _ (Audience.mem_of_lookup found)
      exact { inOrder with
        readers := Audience.forall_mem_file (Log.inOrder_receive here) inOrder.readers }
  | wait waiter memory =>
    refine { inOrder with waiters := Audience.forall_mem_file ?_ inOrder.waiters }
    rintro pair ⟨⟩
    exact Log.inOrder_cursor _
  | poll waiter =>
    simp only [Readership.step]
    split
    · exact inOrder
    · exact inOrder
    · next cursor memory found =>
      have here := inOrder.waiters _ (Audience.mem_of_lookup found) _ rfl
      refine { inOrder with waiters := Audience.forall_mem_file ?_ inOrder.waiters }
      intro pair isPair
      simp only at isPair
      split at isPair
      · obtain rfl := Option.mem_some_iff.mp isPair
        exact Log.inOrder_await here
      · cases isPair
  | close =>
    exact ⟨fun item listed => { inOrder.readers item listed with },
      fun item listed pair isPair => { inOrder.waiters item listed pair isPair with }⟩

end Readership

/-! ## What was shown is what was answered -/

/-- A cursor was shown these events of a log. -/
def Cursor.Saw (log : Log) (cursor : Cursor) (events : List ProgressEvent) : Prop :=
  cursor.shown.map (log.events[·]?) = events.map some

namespace Audience

/-- The events in an answer. -/
def Answer.shown : Answer → List ProgressEvent
  | .events all => all
  | .found (.event event) => [event]
  | _ => []

/-- What a reader was shown since it subscribed, after one more request and its answer. -/
def shownAfter {σ : Type} (reader : String) (shown : List ProgressEvent) :
    Request σ × Answer → List ProgressEvent
  | (.subscribe name, _) => if name = reader then [] else shown
  | (.drain name, answer) => if name = reader then shown ++ answer.shown else shown
  | (.receive name, answer) => if name = reader then shown ++ answer.shown else shown
  | _ => shown

/-- What a reader was shown since it last subscribed. -/
def shownTo {σ : Type} (reader : String) (requests : List (Request σ)) (answers : List Answer) :
    List ProgressEvent :=
  (requests.zip answers).foldl (shownAfter reader) []

end Audience

namespace Log

variable {log : Log} {cursor after : Cursor} {event : ProgressEvent} {seen : List ProgressEvent}

theorem saw_advance? (saw : cursor.Saw log seen)
    (moved : log.advance? cursor = some (event, after)) : after.Saw log (seen ++ [event]) := by
  obtain ⟨found, rfl⟩ := advance?_eq_some_iff.mp moved
  rw [Cursor.Saw, List.map_append, List.map_append, saw, List.map_singleton, found]
  rfl

theorem saw_receive (saw : cursor.Saw log seen) :
    (log.receive cursor).2.Saw log
      (seen ++ (Audience.Answer.found (log.receive cursor).1).shown) := by
  rw [receive]
  split
  · rw [nothingLeft]
    have nothing : seen ++ [] = seen := List.append_nil seen
    split <;> exact nothing.symm ▸ saw
  · next moved => exact saw_advance? saw moved

theorem saw_drain (saw : cursor.Saw log seen) :
    (log.drain cursor).2.Saw log (seen ++ (log.drain cursor).1) := by
  fun_induction drain log cursor generalizing seen with
  | case1 cursor _ => exact (List.append_nil seen).symm ▸ saw
  | case2 cursor event after moved _ events last result ih =>
    have later := ih (saw_advance? saw moved)
    rwa [result, List.append_assoc] at later

theorem saw_emit (saw : cursor.Saw log seen) (events : List ProgressEvent) :
    cursor.Saw (log.emit events) seen := by
  rw [emit]
  split
  · refine Eq.trans (List.map_congr_left fun place listed => ?_) saw
    have shown := List.mem_map_of_mem (f := (log.events[·]?)) listed
    rw [saw] at shown
    obtain ⟨event, -, here⟩ := List.mem_map.mp shown
    exact List.getElem?_append_left (List.getElem?_eq_some_iff.mp here.symm).1
  · exact saw

end Log

namespace Readership

open Audience (Request shownAfter)

variable {σ : Type} {readership : Readership σ} {reader : String} {seen : List ProgressEvent}

theorem saw_step (test : σ → ProgressEvent → Bool × σ) (request : Request σ)
    (saw : ∀ cursor ∈ readership.readers.lookup reader, cursor.Saw readership.log seen) :
    ∀ cursor ∈ (readership.step test request).1.readers.lookup reader,
      cursor.Saw (readership.step test request).1.log
        (shownAfter reader seen (request, (readership.step test request).2)) := by
  cases request with
  | subscribe name =>
    refine Audience.forall_mem_lookup_file (fun own => ?_) fun others => ?_
    · rw [shownAfter, if_pos own]
      rfl
    · rw [shownAfter, if_neg others]
      exact saw
  | unsubscribe name =>
    simp only [Readership.step]
    split
    · exact saw
    · intro cursor found
      by_cases own : name = reader
      · rw [own, Audience.lookup_filter_self] at found
        cases found
      · rw [Audience.lookup_filter_of_ne (Ne.symm own)] at found
        exact saw cursor found
  | count => exact saw
  | emit events => exact fun cursor found => Log.saw_emit (saw cursor found) events
  | drain name =>
    simp only [Readership.step]
    split
    · simp only [shownAfter, Audience.Answer.shown, List.append_nil, ite_self]
      exact saw
    · next place found =>
      refine Audience.forall_mem_lookup_file (fun own => ?_) fun others => ?_
      · rw [shownAfter, if_pos own]
        exact Log.saw_drain (saw place (own ▸ found))
      · rw [shownAfter, if_neg others]
        exact saw
  | receive name =>
    simp only [Readership.step]
    split
    · simp only [shownAfter, Audience.Answer.shown, List.append_nil, ite_self]
      exact saw
    · next place found =>
      refine Audience.forall_mem_lookup_file (fun own => ?_) fun others => ?_
      · rw [shownAfter, if_pos own]
        exact Log.saw_receive (saw place (own ▸ found))
      · rw [shownAfter, if_neg others]
        exact saw
  | wait waiter memory => exact saw
  | poll waiter =>
    simp only [Readership.step]
    split <;> exact saw
  | close => exact saw

/-- The events that a reader was answered are those that its cursor was shown. -/
theorem saw_follow (test : σ → ProgressEvent → Bool × σ) (requests : List (Request σ))
    (saw : ∀ cursor ∈ readership.readers.lookup reader, cursor.Saw readership.log seen) :
    ∀ cursor ∈ (follow (step test) readership requests).1.readers.lookup reader,
      cursor.Saw (follow (step test) readership requests).1.log
        ((requests.zip (follow (step test) readership requests).2).foldl
          (shownAfter reader) seen) := by
  induction requests generalizing readership seen with
  | nil => exact saw
  | cons request more ih => exact ih (saw_step test request saw)

end Readership

end ClaimLedger
