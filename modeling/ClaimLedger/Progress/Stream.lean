/-
# A bounded event stream

Events go to whoever subscribes, and only the last few are kept: a subscriber
that falls further behind skips to the oldest one kept. A subscriber sees only
what is emitted after it subscribed, and an event emitted while nobody is
subscribed is not kept at all. A closed stream still hands out what it keeps.
-/

import ClaimLedger.Progress

namespace ClaimLedger

/-- The least power of two that is not below a number. -/
def powerOfTwoAbove (n : Nat) : Nat :=
  if n ≤ 1 then 1 else Nat.pow 2 (Nat.log2 (n - 1) + 1)

/-- The stream and the events that it keeps. -/
structure EventStream where
  /-- The number of events that are kept. -/
  capacity : Nat
  /-- The number of events taken in so far. -/
  position : Nat := 0
  /-- The last of them, oldest first. -/
  kept : List ProgressEvent := []
  /-- The number of live subscriptions. -/
  subscribers : Nat := 0
  isOpen : Bool := true

/-- A subscriber's place in the stream: the number of events before the next
one it is to see. -/
structure Subscription where
  next : Nat
  deriving DecidableEq

/-- What a subscriber finds when it looks for the next event. -/
inductive Reception where
  | event (event : ProgressEvent)
  /-- There is none yet. -/
  | pending
  /-- There will be none. -/
  | closed
  deriving DecidableEq

namespace EventStream

/-- The capacity of a stream for which none is asked. -/
def defaultCapacity : Nat := 1024

/-- An open stream that keeps at least the given number of events. -/
def new (capacity : Nat) : EventStream where
  capacity := powerOfTwoAbove (max capacity 1)

/-- Attach a subscriber, which sees only later events. -/
def subscribe (stream : EventStream) : Subscription × EventStream :=
  (⟨stream.position⟩, { stream with subscribers := stream.subscribers + 1 })

/-- Detach a subscriber. -/
def unsubscribe (stream : EventStream) : EventStream :=
  { stream with subscribers := stream.subscribers - 1 }

/-- Take in an event, if somebody is subscribed. -/
def emit (stream : EventStream) (event : ProgressEvent) : EventStream :=
  if stream.subscribers = 0 then stream
  else
    let kept := stream.kept ++ [event]
    { stream with
      position := stream.position + 1
      kept := kept.drop (kept.length - stream.capacity) }

/-- Take in events in order. -/
def emitAll (stream : EventStream) (events : List ProgressEvent) : EventStream :=
  events.foldl emit stream

/-- End the stream. -/
def close (stream : EventStream) : EventStream :=
  { stream with isOpen := false }

/-- The kept events that a subscriber has not seen, oldest first. -/
def unread (stream : EventStream) (subscription : Subscription) : List ProgressEvent :=
  stream.kept.drop (subscription.next - (stream.position - stream.kept.length))

/-- What a subscriber finds who has seen everything. -/
def nothingLeft (stream : EventStream) : Reception :=
  if stream.isOpen then .pending else .closed

/-- The next event for a subscriber. -/
def receive (stream : EventStream) (subscription : Subscription) : Reception × Subscription :=
  match stream.unread subscription with
  | [] => (stream.nothingLeft, subscription)
  | event :: rest => (.event event, ⟨stream.position - rest.length⟩)

/-- All remaining events for a subscriber. -/
def drain (stream : EventStream) (subscription : Subscription) :
    List ProgressEvent × Subscription :=
  (stream.unread subscription, ⟨max subscription.next stream.position⟩)

end EventStream

/-- A subscriber that waits for an event that its test accepts. The test may
remember what it was shown. -/
structure Waiter (σ : Type) where
  subscription : Subscription
  memory : σ

namespace Waiter

variable {σ : Type}

/-- Show events to a test one by one until it accepts one: what it accepted
with the events left over, and what the test remembers. -/
def search (test : σ → ProgressEvent → Bool × σ) :
    σ → List ProgressEvent → Option (ProgressEvent × List ProgressEvent) × σ
  | memory, [] => (none, memory)
  | memory, event :: rest =>
    let (accepted, memory) := test memory event
    if accepted then (some (event, rest), memory) else search test memory rest

/-- Let a waiter look at the stream: everything new is shown to its test until
one event is accepted. -/
def poll (test : σ → ProgressEvent → Bool × σ) (stream : EventStream) (waiter : Waiter σ) :
    Reception × Waiter σ :=
  let (found, memory) := search test waiter.memory (stream.unread waiter.subscription)
  match found with
  | none => (stream.nothingLeft, ⟨(stream.drain waiter.subscription).2, memory⟩)
  | some (event, rest) => (.event event, ⟨⟨stream.position - rest.length⟩, memory⟩)

/-- The test for an event of a given name that comes so many times: it
remembers the name and the count that is left. -/
def countdown (memory : String × Nat) (event : ProgressEvent) : Bool × (String × Nat) :=
  let (name, left) := memory
  if event.name == name then (left == 1, (name, left - 1)) else (false, memory)

end Waiter

end ClaimLedger
