/-
# The members of an audience

Members are filed by name, and no name is filed twice, so filing under a name replaces at most
one entry. A stream that is asked through its audience therefore counts its subscribers right:
they are the readers, and the waiters that have not left.
-/

import ClaimLedger.Progress.Audience
import Mathlib.Data.List.Nodup

namespace ClaimLedger

namespace Audience

/-! ## Names -/

section Names

variable {α : Type} {name other : String} {value : α} {items : List (String × α)}

theorem mem_of_lookup (found : items.lookup name = some value) : (name, value) ∈ items := by
  obtain ⟨before, after, rfl, -⟩ := List.lookup_eq_some_iff.mp found
  simp

theorem forall_mem_file {P : String × α → Prop} (here : P (name, value))
    (there : ∀ item ∈ items, P item) : ∀ item ∈ file name value items, P item :=
  List.forall_mem_cons.mpr ⟨here, fun item listed => there item (List.mem_filter.mp listed).1⟩

theorem lookup_filter_self (name : String) (items : List (String × α)) :
    (items.filter fun item => item.1 != name).lookup name = none := by
  refine List.lookup_eq_none_iff.mpr fun item listed => ?_
  have apart := bne_iff_ne.mp (List.mem_filter.mp listed).2
  exact bne_iff_ne.mpr apart.symm

theorem lookup_filter_of_ne (apart : other ≠ name) (items : List (String × α)) :
    (items.filter fun item => item.1 != name).lookup other = items.lookup other := by
  induction items with
  | nil => rfl
  | cons item more ih =>
    obtain ⟨here, value⟩ := item
    rw [List.filter_cons]
    split
    · rw [List.lookup_cons, List.lookup_cons, ih]
    · next same =>
      have isName : here = name := by simpa using same
      rw [ih, List.lookup_cons, isName, beq_false_of_ne apart]

@[simp] theorem lookup_file_self (name : String) (value : α) (items : List (String × α)) :
    (file name value items).lookup name = some value := by
  rw [file, List.lookup_cons_self]

theorem lookup_file_of_ne (apart : other ≠ name) (value : α) (items : List (String × α)) :
    (file name value items).lookup other = items.lookup other := by
  rw [file, List.lookup_cons, beq_false_of_ne apart]
  exact lookup_filter_of_ne apart items

theorem forall_mem_lookup_file {P : α → Prop} (own : name = other → P value)
    (others : name ≠ other → ∀ filed ∈ items.lookup other, P filed) :
    ∀ filed ∈ (file name value items).lookup other, P filed := by
  by_cases same : name = other
  · subst same
    intro filed isFiled
    rw [lookup_file_self, Option.mem_some] at isFiled
    exact isFiled ▸ own rfl
  · rw [lookup_file_of_ne (Ne.symm same)]
    exact others same

theorem nodup_names_filter (nodup : (items.map Prod.fst).Nodup) (keep : String × α → Bool) :
    ((items.filter keep).map Prod.fst).Nodup :=
  nodup.sublist (List.filter_sublist.map Prod.fst)

theorem nodup_names_file (nodup : (items.map Prod.fst).Nodup) (name : String) (value : α) :
    ((file name value items).map Prod.fst).Nodup := by
  refine List.nodup_cons.mpr ⟨fun listed => ?_, nodup_names_filter nodup _⟩
  obtain ⟨item, kept, same⟩ := List.mem_map.mp listed
  exact bne_iff_ne.mp (List.mem_filter.mp kept).2 same

/-- Taking a name away takes away what was filed under it, and nothing else. -/
theorem countP_filter_name (nodup : (items.map Prod.fst).Nodup) (name : String) (p : α → Bool) :
    items.countP (fun item => p item.2) =
      (items.filter fun item => item.1 != name).countP (fun item => p item.2) +
        ((items.lookup name).any p).toNat := by
  induction items with
  | nil => rfl
  | cons item more ih =>
    obtain ⟨here, value⟩ := item
    obtain ⟨new, nodup⟩ := List.nodup_cons.mp nodup
    rw [List.countP_cons, ih nodup, List.lookup_cons]
    by_cases same : here = name
    · subst same
      have gone : more.lookup here = none := by
        refine List.lookup_eq_none_iff.mpr fun item listed => bne_iff_ne.mpr fun same => ?_
        exact new (List.mem_map.mpr ⟨item, listed, same.symm⟩)
      rw [gone, List.filter_cons_of_neg (by simp), BEq.rfl, Option.any_none, Option.any_some,
        Bool.toNat_false, Nat.add_zero]
      cases p value <;> rfl
    · rw [List.filter_cons_of_pos (by simpa using same), List.countP_cons,
        beq_false_of_ne (Ne.symm same)]
      simp only
      omega

theorem length_filter_name (nodup : (items.map Prod.fst).Nodup) (name : String) :
    items.length = (items.filter fun item => item.1 != name).length +
      (items.lookup name).isSome.toNat := by
  have counted := countP_filter_name nodup name fun _ => true
  rw [Option.any_true] at counted
  simpa using counted

end Names

/-! ## Counting -/

variable {σ : Type} {audience : Audience σ}

/-- No name is filed twice, and the stream counts its subscribers right. -/
structure Counted (audience : Audience σ) : Prop where
  readers : (audience.readers.map Prod.fst).Nodup
  waiters : (audience.waiters.map Prod.fst).Nodup
  count : audience.stream.subscribers =
    audience.readers.length + audience.waiters.countP fun item => item.2.isSome

theorem counted_new (capacity : Nat) : (new capacity : Audience σ).Counted :=
  ⟨.nil, .nil, rfl⟩

theorem Counted.subscribers_of_reader (counted : audience.Counted) {item : String × Subscription}
    (listed : item ∈ audience.readers) : audience.stream.subscribers ≠ 0 := by
  have some := List.length_pos_of_mem listed
  have count := counted.count
  omega

theorem Counted.subscribers_of_waiter (counted : audience.Counted)
    {item : String × Option (Waiter σ)} (listed : item ∈ audience.waiters)
    (here : item.2.isSome = true) : audience.stream.subscribers ≠ 0 := by
  have some : 0 < audience.waiters.countP fun item => item.2.isSome :=
    List.countP_pos_iff.mpr ⟨item, listed, here⟩
  have count := counted.count
  omega

theorem subscribers_emit (stream : EventStream) (event : ProgressEvent) :
    (stream.emit event).subscribers = stream.subscribers := by
  rw [EventStream.emit]
  split <;> rfl

theorem subscribers_emitAll (stream : EventStream) (events : List ProgressEvent) :
    (stream.emitAll events).subscribers = stream.subscribers :=
  List.foldlRecOn (motive := fun now : EventStream => now.subscribers = stream.subscribers)
    _ _ rfl fun now same event _ => (subscribers_emit now event).trans same

/-- A reader whose place changes is counted as before. -/
theorem Counted.file_reader (counted : audience.Counted) {reader : String}
    (found : (audience.readers.lookup reader).isSome = true) (place : Subscription) :
    { audience with readers := file reader place audience.readers }.Counted where
  readers := nodup_names_file counted.readers reader place
  waiters := counted.waiters
  count := by
    have filed := length_filter_name counted.readers reader
    rw [found, Bool.toNat_true] at filed
    rw [counted.count, filed]
    rfl

theorem Counted.step (counted : audience.Counted) (test : σ → ProgressEvent → Bool × σ)
    (request : Request σ) : (audience.step test request).1.Counted := by
  have count := counted.count
  cases request with
  | subscribe reader =>
    refine ⟨nodup_names_file counted.readers reader _, counted.waiters, ?_⟩
    have filed := length_filter_name counted.readers reader
    cases found : (audience.readers.lookup reader).isSome <;>
      simp [Audience.step, Audience.subscribe, EventStream.subscribe, EventStream.unsubscribe, file,
        found, count] at filed ⊢ <;> omega
  | unsubscribe reader =>
    simp only [Audience.step, Audience.unsubscribe]
    split
    · exact counted
    · next found =>
      refine ⟨nodup_names_filter counted.readers _, counted.waiters, ?_⟩
      have filed := length_filter_name counted.readers reader
      simp [EventStream.unsubscribe, found, count] at filed ⊢
      omega
  | count => exact counted
  | emit events =>
    simp only [Audience.step, Audience.emit]
    split
    · exact ⟨counted.readers, counted.waiters, (subscribers_emitAll _ _).trans count⟩
    · exact counted
  | drain reader =>
    simp only [Audience.step]
    split
    · exact counted
    · next found => exact counted.file_reader (by rw [found]; rfl) _
  | receive reader =>
    simp only [Audience.step]
    split
    · exact counted
    · next found => exact counted.file_reader (by rw [found]; rfl) _
  | wait waiter memory =>
    refine ⟨counted.readers, nodup_names_file counted.waiters waiter _, ?_⟩
    have filed := countP_filter_name counted.waiters waiter Option.isSome
    cases found : (audience.waiters.lookup waiter).any Option.isSome <;>
      simp [Audience.step, Audience.wait, EventStream.subscribe, EventStream.unsubscribe, file,
        found, count] at filed ⊢ <;> omega
  | poll waiter =>
    have filed := countP_filter_name counted.waiters waiter Option.isSome
    simp only [Audience.step, Audience.poll]
    split
    · exact counted
    · exact counted
    · next found =>
      rw [found] at filed
      split
      · refine ⟨counted.readers, nodup_names_file counted.waiters waiter _, ?_⟩
        simp [file, count] at filed ⊢
        omega
      · refine ⟨counted.readers, nodup_names_file counted.waiters waiter _, ?_⟩
        simp [EventStream.unsubscribe, file, count] at filed ⊢
        omega
  | close => exact ⟨counted.readers, counted.waiters, counted.count⟩

end Audience

end ClaimLedger
