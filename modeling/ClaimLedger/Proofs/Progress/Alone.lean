/-
# Readers of a log do not meet

What a reader or a waiter of a log is answered depends on the log and on its own requests.
Whatever else is asked, by whomever, can be left out: the others' cursors are no part of the
log, and a request changes the cursor of its own name only.
-/

import ClaimLedger.Proofs.Progress.Log

namespace ClaimLedger

namespace Audience

/-- Who asks for something. -/
inductive Member where
  | reader (name : String)
  | waiter (name : String)
  deriving DecidableEq

variable {σ : Type}

/-- Who a request comes from; nobody in particular takes in events, ends the stream or counts. -/
def Request.member? : Request σ → Option Member
  | .subscribe reader => some (.reader reader)
  | .unsubscribe reader => some (.reader reader)
  | .drain reader => some (.reader reader)
  | .receive reader => some (.reader reader)
  | .wait waiter _ => some (.waiter waiter)
  | .poll waiter => some (.waiter waiter)
  | .count => none
  | .emit _ => none
  | .close => none

/-- The requests without those of other members. -/
def alone (member : Member) (requests : List (Request σ)) : List (Request σ) :=
  requests.filter fun request => request.member?.all (· == member)

/-- What a member is answered. -/
def heard (member : Member) : List (Request σ) → List Answer → List Answer
  | request :: requests, answer :: answers =>
    if request.member? = some member then answer :: heard member requests answers
    else heard member requests answers
  | _, _ => []

end Audience

namespace Readership

open Audience (Member Request Answer heard)

variable {σ : Type} {test : σ → ProgressEvent → Bool × σ} {member : Member}
variable {left right : Readership σ}

/-- A member finds the same in both. -/
structure SameFor (member : Member) (left right : Readership σ) : Prop where
  log : left.log = right.log
  reader : ∀ name, member = .reader name → left.readers.lookup name = right.readers.lookup name
  waiter : ∀ name, member = .waiter name → left.waiters.lookup name = right.waiters.lookup name

theorem SameFor.trans {middle : Readership σ} (same : SameFor member left middle)
    (same' : SameFor member middle right) : SameFor member left right where
  log := same.log.trans same'.log
  reader name isReader := (same.reader name isReader).trans (same'.reader name isReader)
  waiter name isWaiter := (same.waiter name isWaiter).trans (same'.waiter name isWaiter)

theorem SameFor.refl (member : Member) (readership : Readership σ) :
    SameFor member readership readership :=
  ⟨rfl, fun _ _ => rfl, fun _ _ => rfl⟩

theorem SameFor.of_reader {name : String} {readership : Readership σ}
    {readers : List (String × Cursor)} (apart : Member.reader name ≠ member)
    (others : ∀ other, other ≠ name → readers.lookup other = readership.readers.lookup other) :
    SameFor member { readership with readers } readership where
  log := rfl
  reader := by
    rintro other rfl
    exact others other fun same => apart (congrArg Member.reader same.symm)
  waiter _ _ := rfl

theorem SameFor.of_waiter {name : String} {readership : Readership σ}
    {waiters : List (String × Option (Cursor × σ))} (apart : Member.waiter name ≠ member)
    (others : ∀ other, other ≠ name → waiters.lookup other = readership.waiters.lookup other) :
    SameFor member { readership with waiters } readership where
  log := rfl
  reader _ _ := rfl
  waiter := by
    rintro other rfl
    exact others other fun same => apart (congrArg Member.waiter same.symm)

/-- A member does not notice what another one does. -/
theorem sameFor_step_of_ne (readership : Readership σ) {request : Request σ} {other : Member}
    (asks : request.member? = some other) (apart : other ≠ member) :
    SameFor member (readership.step test request).1 readership := by
  cases request with
  | subscribe reader =>
    cases asks
    exact .of_reader apart fun _ others => Audience.lookup_file_of_ne others _ _
  | unsubscribe reader =>
    cases asks
    simp only [step]
    split
    · exact .refl _ _
    · exact .of_reader apart fun _ others => Audience.lookup_filter_of_ne others _
  | drain reader =>
    cases asks
    simp only [step]
    split
    · exact .refl _ _
    · exact .of_reader apart fun _ others => Audience.lookup_file_of_ne others _ _
  | receive reader =>
    cases asks
    simp only [step]
    split
    · exact .refl _ _
    · exact .of_reader apart fun _ others => Audience.lookup_file_of_ne others _ _
  | wait waiter memory =>
    cases asks
    exact .of_waiter apart fun _ others => Audience.lookup_file_of_ne others _ _
  | poll waiter =>
    cases asks
    simp only [step]
    split
    · exact .refl _ _
    · exact .refl _ _
    · exact .of_waiter apart fun _ others => Audience.lookup_file_of_ne others _ _
  | count => cases asks
  | emit events => cases asks
  | close => cases asks

theorem SameFor.file_reader (same : SameFor member left right) (name : String) (cursor : Cursor) :
    SameFor (.reader name)
      { left with readers := Audience.file name cursor left.readers }
      { right with readers := Audience.file name cursor right.readers } where
  log := same.log
  reader := by
    rintro _ ⟨⟩
    rw [Audience.lookup_file_self, Audience.lookup_file_self]
  waiter := by rintro _ ⟨⟩

theorem SameFor.file_waiter (same : SameFor member left right) (name : String)
    (place : Option (Cursor × σ)) :
    SameFor (.waiter name)
      { left with waiters := Audience.file name place left.waiters }
      { right with waiters := Audience.file name place right.waiters } where
  log := same.log
  reader := by rintro _ ⟨⟩
  waiter := by
    rintro _ ⟨⟩
    rw [Audience.lookup_file_self, Audience.lookup_file_self]

/-- A member is answered from what it finds. -/
theorem SameFor.step (same : SameFor member left right) {request : Request σ}
    (asks : request.member? = some member) :
    SameFor member (left.step test request).1 (right.step test request).1 ∧
      (left.step test request).2 = (right.step test request).2 := by
  obtain ⟨log, readers, waiters⟩ := left
  obtain ⟨log', readers', waiters'⟩ := right
  obtain rfl : log = log' := same.log
  cases request with
  | subscribe reader =>
    cases asks
    exact ⟨same.file_reader reader _, rfl⟩
  | unsubscribe reader =>
    cases asks
    have found : readers.lookup reader = readers'.lookup reader := same.reader reader rfl
    simp only [Readership.step, found]
    split
    · exact ⟨same, rfl⟩
    · refine ⟨⟨rfl, ?_, by rintro _ ⟨⟩⟩, rfl⟩
      rintro _ ⟨⟩
      rw [Audience.lookup_filter_self, Audience.lookup_filter_self]
  | drain reader =>
    cases asks
    have found : readers.lookup reader = readers'.lookup reader := same.reader reader rfl
    simp only [Readership.step, found]
    split
    · exact ⟨same, rfl⟩
    · exact ⟨same.file_reader reader _, rfl⟩
  | receive reader =>
    cases asks
    have found : readers.lookup reader = readers'.lookup reader := same.reader reader rfl
    simp only [Readership.step, found]
    split
    · exact ⟨same, rfl⟩
    · exact ⟨same.file_reader reader _, rfl⟩
  | wait waiter memory =>
    cases asks
    exact ⟨same.file_waiter waiter _, rfl⟩
  | poll waiter =>
    cases asks
    have found : waiters.lookup waiter = waiters'.lookup waiter := same.waiter waiter rfl
    simp only [Readership.step, found]
    split
    · exact ⟨same, rfl⟩
    · exact ⟨same, rfl⟩
    · exact ⟨same.file_waiter waiter _, rfl⟩
  | count => cases asks
  | emit events => cases asks
  | close => cases asks

/-- What nobody in particular asks for keeps what a member finds. -/
theorem SameFor.step_of_nobody (same : SameFor member left right) {request : Request σ}
    (asks : request.member? = none) :
    SameFor member (left.step test request).1 (right.step test request).1 := by
  cases request with
  | count => exact same
  | emit events => exact ⟨congrArg (Log.emit · events) same.log, same.reader, same.waiter⟩
  | close => exact ⟨congrArg Log.close same.log, same.reader, same.waiter⟩
  | subscribe _ => cases asks
  | unsubscribe _ => cases asks
  | drain _ => cases asks
  | receive _ => cases asks
  | wait _ _ => cases asks
  | poll _ => cases asks

/-- Leaving out what other members ask changes no answer to a member. -/
theorem heard_alone (same : SameFor member left right) (requests : List (Request σ)) :
    heard member requests (follow (step test) left requests).2 =
      heard member (Audience.alone member requests)
        (follow (step test) right (Audience.alone member requests)).2 := by
  induction requests generalizing left right with
  | nil => rfl
  | cons request more ih =>
    match asks : request.member? with
    | none =>
      have kept : Audience.alone member (request :: more) =
          request :: Audience.alone member more :=
        List.filter_cons_of_pos (by simp [asks])
      rw [kept]
      simp only [follow, heard, asks]
      exact ih (same.step_of_nobody asks)
    | some other =>
      by_cases own : other = member
      · have kept : Audience.alone member (request :: more) =
            request :: Audience.alone member more :=
          List.filter_cons_of_pos (by simp [asks, own])
        obtain ⟨after, answer⟩ := same.step (own ▸ asks)
        rw [kept]
        simp only [follow, heard, asks, own, if_true]
        rw [answer, ih after]
      · have dropped : Audience.alone member (request :: more) = Audience.alone member more :=
          List.filter_cons_of_neg (by simp [asks, own])
        rw [dropped]
        simp only [follow, heard, asks, Option.some.injEq, own, if_false]
        exact ih ((sameFor_step_of_ne left asks own).trans same)

end Readership

end ClaimLedger
