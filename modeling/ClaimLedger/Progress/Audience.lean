/-
# The audience of an event stream

Everybody who listens to a stream has a name: readers take events when they
like, and waiters look for one event that passes a test and then leave. The
audience keeps their places next to the stream, so that any order of requests
can be followed step by step.
-/

import ClaimLedger.Progress.Stream

namespace ClaimLedger

/-- A stream with its readers and waiters by name. A waiter that has left keeps
its name but has no place. The tests of waiters remember values of `σ`. -/
structure Audience (σ : Type) where
  stream : EventStream
  readers : List (String × Subscription) := []
  waiters : List (String × Option (Waiter σ)) := []

namespace Audience

variable {σ : Type}

/-- What can be asked of an audience. -/
inductive Request (σ : Type) where
  | subscribe (reader : String)
  | unsubscribe (reader : String)
  | count
  | emit (events : List ProgressEvent)
  | drain (reader : String)
  | receive (reader : String)
  /-- A waiter comes in, with what its test remembers at first. -/
  | wait (waiter : String) (memory : σ)
  | poll (waiter : String)
  | close

/-- What comes back. -/
inductive Answer where
  | nothing
  /-- Whether the reader was there. -/
  | wasThere (found : Bool)
  | subscribers (count : Nat)
  | events (events : List ProgressEvent)
  | found (reception : Reception)
  /-- The waiter has left before. -/
  | hasLeft
  /-- Nobody has that name. -/
  | unknownName

/-- File something under a name, instead of what was there. -/
def file {α : Type} (name : String) (value : α) (items : List (String × α)) :
    List (String × α) :=
  (name, value) :: items.filter fun item => item.1 != name

/-- An audience without members, for a stream of the given capacity. -/
def new (capacity : Nat) : Audience σ where
  stream := EventStream.new capacity

/-- Give a reader a place; an earlier place under its name is given up. -/
def subscribe (audience : Audience σ) (reader : String) : Audience σ :=
  let (place, stream) := audience.stream.subscribe
  { audience with
    stream := if (audience.readers.lookup reader).isSome then stream.unsubscribe else stream
    readers := file reader place audience.readers }

/-- Take a reader's place away. -/
def unsubscribe (audience : Audience σ) (reader : String) : Audience σ × Bool :=
  match audience.readers.lookup reader with
  | none => (audience, false)
  | some _ =>
    ({ audience with
      stream := audience.stream.unsubscribe
      readers := audience.readers.filter fun item => item.1 != reader }, true)

/-- Take in events, unless the stream is closed. -/
def emit (audience : Audience σ) (events : List ProgressEvent) : Audience σ :=
  if audience.stream.isOpen then { audience with stream := audience.stream.emitAll events }
  else audience

/-- Give a waiter a place and a fresh test. -/
def wait (audience : Audience σ) (name : String) (memory : σ) : Audience σ :=
  let (place, stream) := audience.stream.subscribe
  let replaced := (audience.waiters.lookup name).any Option.isSome
  { audience with
    stream := if replaced then stream.unsubscribe else stream
    waiters := file name (some ⟨place, memory⟩) audience.waiters }

/-- Let a waiter look at the stream. It leaves once it has found something or
the stream has ended. -/
def poll (test : σ → ProgressEvent → Bool × σ) (audience : Audience σ) (name : String) :
    Audience σ × Answer :=
  match audience.waiters.lookup name with
  | none => (audience, .unknownName)
  | some none => (audience, .hasLeft)
  | some (some waiter) =>
    let (reception, waiter) := waiter.poll test audience.stream
    if reception = .pending then
      ({ audience with waiters := file name (some waiter) audience.waiters }, .found reception)
    else
      ({ audience with
        stream := audience.stream.unsubscribe
        waiters := file name none audience.waiters }, .found reception)

/-- Follow a request. -/
def step (test : σ → ProgressEvent → Bool × σ) (audience : Audience σ) :
    Request σ → Audience σ × Answer
  | .subscribe reader => (audience.subscribe reader, .nothing)
  | .unsubscribe reader =>
    let (audience, found) := audience.unsubscribe reader
    (audience, .wasThere found)
  | .count => (audience, .subscribers audience.stream.subscribers)
  | .emit events => (audience.emit events, .nothing)
  | .drain reader =>
    match audience.readers.lookup reader with
    | none => (audience, .unknownName)
    | some place =>
      let (events, place) := audience.stream.drain place
      ({ audience with readers := file reader place audience.readers }, .events events)
  | .receive reader =>
    match audience.readers.lookup reader with
    | none => (audience, .unknownName)
    | some place =>
      let (reception, place) := audience.stream.receive place
      ({ audience with readers := file reader place audience.readers }, .found reception)
  | .wait waiter memory => (audience.wait waiter memory, .nothing)
  | .poll waiter => audience.poll test waiter
  | .close => ({ audience with stream := audience.stream.close }, .nothing)

end Audience

end ClaimLedger
