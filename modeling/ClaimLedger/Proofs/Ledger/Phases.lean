/-
# The phases of a block

What a block does before names are settled is a run of edits to the names that
it touches. This needs one thing of the chain: no two outputs of claim events
are the same. Then an output that an event produces holds nothing yet, in
whatever order the phases get to the events. `Reached` is the invariant of a
block on its way.
-/

import ClaimLedger.Proofs.Ledger.Edits
import ClaimLedger.Proofs.Ledger.Settlement

namespace ClaimLedger

namespace TxEvent

/-- The output in which an event creates a claim. -/
def createdIn? : TxEvent → Option OutPoint
  | create outpoint .. => some outpoint
  | _ => none

/-- The output to which an event moves a claim. -/
def movedTo? : TxEvent → Option OutPoint
  | update outpoint .. => some outpoint
  | _ => none

/-- The output in which an event adds a support. -/
def supportIn? : TxEvent → Option OutPoint
  | support outpoint .. => some outpoint
  | _ => none

/-- The output that an event produces. -/
def output? : TxEvent → Option OutPoint
  | spend _ => none
  | create outpoint .. => some outpoint
  | update outpoint .. => some outpoint
  | support outpoint .. => some outpoint

/-- The claim that an event creates. -/
def created? : TxEvent → Option ClaimHash
  | create _ _ claim .. => some claim
  | _ => none

end TxEvent

namespace BlockTx

/-- The outputs that the events of a block produce. -/
def allOutputs (txs : List BlockTx) : List OutPoint :=
  (allEvents txs).filterMap fun event => event.2.output?

/-- The claims that the events of a block create. -/
def allCreated (txs : List BlockTx) : List ClaimHash :=
  (allEvents txs).filterMap fun event => event.2.created?

theorem mem_allEvents {txs : List BlockTx} {tx : BlockTx} {event : TxEvent} :
    (tx, event) ∈ allEvents txs ↔ tx ∈ txs ∧ event ∈ tx.events := by
  simp only [allEvents, List.mem_flatMap, List.mem_map, Prod.mk.injEq]
  constructor
  · rintro ⟨tx, listed, event, isEvent, rfl, rfl⟩
    exact ⟨listed, isEvent⟩
  · rintro ⟨listed, isEvent⟩
    exact ⟨tx, listed, event, isEvent, rfl, rfl⟩

/-- The phases get to every output of a block once. -/
theorem perm_outputs (events : List (BlockTx × TxEvent)) :
    List.Perm
      ((events.filterMap fun event => event.2.createdIn?) ++
        ((events.filterMap fun event => event.2.movedTo?) ++
          events.filterMap fun event => event.2.supportIn?))
      (events.filterMap fun event => event.2.output?) := by
  induction events with
  | nil => exact .nil
  | cons event more ih =>
    obtain ⟨tx, event⟩ := event
    cases event with
    | spend outpoint => exact ih
    | create outpoint name claim amount owner => exact ih.cons outpoint
    | update outpoint name claim amount owner =>
      exact List.perm_middle.trans (ih.cons outpoint)
    | support outpoint name claim amount =>
      refine .trans ?_ (ih.cons outpoint)
      simp only [List.filterMap_cons, TxEvent.createdIn?, TxEvent.movedTo?, TxEvent.supportIn?,
        ← List.append_assoc]
      exact List.perm_middle

end BlockTx

namespace Ledger

/-- Everything live sits on one of the listed outputs, and no output holds both
a claim and a support. -/
structure Grounded (ledger : Ledger) (used : List OutPoint) : Prop where
  claims : ∀ {hash : ClaimHash} {claim : Claim},
    ledger.claims[hash]? = some claim → claim.outpoint ∈ used
  supports : ∀ {outpoint : OutPoint} {support : Support},
    ledger.supports[outpoint]? = some support → outpoint ∈ used
  apart : ∀ {outpoint : OutPoint} {support : Support},
    ledger.supports[outpoint]? = some support → ledger.holdings[outpoint]? = none

namespace Grounded

variable {ledger : Ledger} {used more : List OutPoint} {outpoint : OutPoint}

theorem mono (grounded : ledger.Grounded used) (subset : used ⊆ more) :
    ledger.Grounded more where
  claims := fun live => subset (grounded.claims live)
  supports := fun live => subset (grounded.supports live)
  apart := grounded.apart

theorem free (grounded : ledger.Grounded used) (indexed : ledger.Indexed)
    (fresh : outpoint ∉ used) : ledger.holdings[outpoint]? = none := by
  rw [Option.eq_none_iff_forall_ne_some]
  intro hash held
  obtain ⟨claim, live, rfl⟩ := indexed.holdings.mp held
  exact fresh (grounded.claims live)

theorem new (grounded : ledger.Grounded used) (fresh : outpoint ∉ used) :
    ledger.supports[outpoint]? = none := by
  rw [Option.eq_none_iff_forall_ne_some]
  intro support live
  exact fresh (grounded.supports live)

end Grounded

/-- The claim that a create event of the transaction at `index` brings in. -/
def newClaim (ledger : Ledger) (height : Height) (index : UInt32) (outpoint : OutPoint)
    (name : Bytes) (hash : ClaimHash) (amount : Amount) (owner : Bytes) : Claim where
  hash := hash
  name := name
  outpoint := outpoint
  amount := amount
  owner := owner
  created := height
  position := ⟨index, outpoint.vout⟩
  updated := height
  term := ⟨height + ledger.newcomerDelay name height, ledger.rules.expirationHeight height⟩
  effective := 0

/-- Whether the claim is the recorded controller of the name. -/
def controls (ledger : Ledger) (name : Bytes) (claim : ClaimHash) : Bool :=
  (ledger.takeover? name).any fun takeover => takeover.claim == claim

/-- The support that a support event brings in. -/
def newSupport (ledger : Ledger) (height : Height) (outpoint : OutPoint) (name : Bytes)
    (claim : ClaimHash) (amount : Amount) : Support where
  outpoint := outpoint
  name := name
  claim := claim
  amount := amount
  created := height
  term :=
    ⟨height + if ledger.controls name claim then 0 else ledger.newcomerDelay name height,
      ledger.rules.expirationHeight height⟩

end Ledger

namespace BlockWork

open Ledger

/-- How far a block has come: from where it started, by edits to touched names,
with every name touched that is due, and everything live on an output that was
produced by then. -/
structure Reached (height : Height) (base : Ledger) (used : List OutPoint) (work : BlockWork) :
    Prop where
  edits : Edits height work.touched (start base height).ledger work.ledger
  due : ∀ name ∈ base.dueAt height, name ∈ work.touched
  indexed : work.ledger.Indexed
  grounded : work.ledger.Grounded used

namespace Reached

variable {height : Height} {base : Ledger} {used : List OutPoint} {work : BlockWork}

theorem abandon (reached : Reached height base used work) (hash : ClaimHash) :
    Reached height base used (work.abandon hash) := by
  rw [BlockWork.abandon]
  split
  · exact reached
  · next claim live =>
    rw [← reached.indexed.claim_hash live] at live
    exact {
      edits := reached.edits.snoc (.removeClaim claim live)
      due := fun name listed => Std.ExtTreeSet.mem_insert.mpr (.inr (reached.due name listed))
      indexed := indexed_removeClaim reached.indexed live
      grounded.claims := by
        intro other row found
        rw [getElem?_claims_removeClaim] at found
        split at found
        · cases found
        · exact reached.grounded.claims found
      grounded.supports := reached.grounded.supports
      grounded.apart := by
        intro outpoint support found
        rw [getElem?_holdings_removeClaim]
        split
        · rfl
        · exact reached.grounded.apart found }

theorem spend (reached : Reached height base used work) (txs : List BlockTx)
    (outpoint : OutPoint) : Reached height base used (work.spend txs outpoint) := by
  rw [BlockWork.spend]
  split
  · next support live =>
    rw [← reached.indexed.support_outpoint live] at live
    exact {
      edits := reached.edits.snoc (.removeSupport support live)
      due := fun name listed => Std.ExtTreeSet.mem_insert.mpr (.inr (reached.due name listed))
      indexed := indexed_removeSupport reached.indexed live
      grounded.claims := reached.grounded.claims
      grounded.supports := by
        intro other row found
        rw [getElem?_supports_removeSupport] at found
        split at found
        · cases found
        · exact reached.grounded.supports found
      grounded.apart := by
        intro other row found
        rw [getElem?_supports_removeSupport] at found
        split at found
        · cases found
        · exact reached.grounded.apart found }
  · split
    · exact reached
    · split
      · exact ⟨reached.edits, reached.due, reached.indexed, reached.grounded⟩
      · exact reached.abandon _

theorem recheckClaim (reached : Reached height base used work)
    (spent : Std.ExtTreeSet OutPoint) (hash : ClaimHash) :
    Reached height base used (work.recheckClaim spent hash) := by
  rw [BlockWork.recheckClaim]
  split
  · exact reached
  · split
    · exact reached.abandon hash
    · exact reached

theorem create (reached : Reached height base used work) (event : BlockTx × TxEvent)
    (fresh : ∀ outpoint, event.2.createdIn? = some outpoint → outpoint ∉ used) :
    Reached height base (used ++ event.2.createdIn?.toList) (work.create height event) := by
  unfold BlockWork.create
  split
  · next tx outpoint name hash amount owner =>
    have fresh := fresh outpoint rfl
    have grows : used ⊆ used ++ [outpoint] := List.subset_append_left _ _
    simp only [TxEvent.createdIn?, Option.toList_some]
    split
    · exact ⟨reached.edits, reached.due, reached.indexed, reached.grounded.mono grows⟩
    · next unknown =>
      have new : work.ledger.claims[hash]? = none :=
        Std.ExtTreeMap.getElem?_eq_none fun known =>
          unknown (Std.ExtTreeMap.contains_iff_mem.mpr known)
      have free := reached.grounded.free reached.indexed fresh
      have edit : Edit height name work.ledger (work.ledger.addClaim
          (work.ledger.newClaim height tx.index outpoint name hash amount owner)) :=
        .addClaim (work.ledger.newClaim height tx.index outpoint name hash amount owner) new free
      exact {
        edits := reached.edits.snoc edit
        due := fun name listed => Std.ExtTreeSet.mem_insert.mpr (.inr (reached.due name listed))
        indexed := indexed_addClaim reached.indexed new free
        grounded.claims := by
          intro other row found
          rw [getElem?_claims_addClaim] at found
          split at found
          · cases found
            exact List.mem_append_right _ (List.mem_singleton_self outpoint)
          · exact grows (reached.grounded.claims found)
        grounded.supports := fun found => grows (reached.grounded.supports found)
        grounded.apart := by
          intro other row found
          rw [getElem?_holdings_addClaim, if_neg]
          · exact reached.grounded.apart found
          · rintro rfl
            exact fresh (reached.grounded.supports found) }
  · next other =>
    exact ⟨reached.edits, reached.due, reached.indexed,
      reached.grounded.mono (List.subset_append_left _ _)⟩

theorem update (reached : Reached height base used work) (event : BlockTx × TxEvent)
    (fresh : ∀ outpoint, event.2.movedTo? = some outpoint → outpoint ∉ used) :
    Reached height base (used ++ event.2.movedTo?.toList) (work.update height event) := by
  unfold BlockWork.update
  split
  · next tx outpoint name hash amount owner =>
    have fresh := fresh outpoint rfl
    have grows : used ⊆ used ++ [outpoint] := List.subset_append_left _ _
    simp only [TxEvent.movedTo?, Option.toList_some]
    split
    · exact ⟨reached.edits, reached.due, reached.indexed, reached.grounded.mono grows⟩
    · next claim live =>
      split
      · exact ⟨reached.edits, reached.due, reached.indexed, reached.grounded.mono grows⟩
      · next accepted =>
        have named : claim.name = name := by
          by_contra different
          exact accepted (.inl different)
        rw [← reached.indexed.claim_hash live] at live
        have free := reached.grounded.free reached.indexed fresh
        exact {
          edits := named ▸ reached.edits.snoc (.moveClaim claim outpoint amount owner live free)
          due := fun name listed =>
            Std.ExtTreeSet.mem_insert.mpr (.inr (reached.due name listed))
          indexed := indexed_moveClaim reached.indexed live free
          grounded.claims := by
            intro other row found
            rw [getElem?_claims_moveClaim] at found
            split at found
            · cases found
              exact List.mem_append_right _ (List.mem_singleton_self outpoint)
            · exact grows (reached.grounded.claims found)
          grounded.supports := fun found => grows (reached.grounded.supports found)
          grounded.apart := by
            intro other row found
            rw [getElem?_holdings_moveClaim, if_neg]
            · split
              · rfl
              · exact reached.grounded.apart found
            · rintro rfl
              exact fresh (reached.grounded.supports found) }
  · next other =>
    exact ⟨reached.edits, reached.due, reached.indexed,
      reached.grounded.mono (List.subset_append_left _ _)⟩

theorem support (reached : Reached height base used work) (spent : Std.ExtTreeSet OutPoint)
    (event : BlockTx × TxEvent)
    (fresh : ∀ outpoint, event.2.supportIn? = some outpoint → outpoint ∉ used) :
    Reached height base (used ++ event.2.supportIn?.toList)
      (work.support height spent event) := by
  unfold BlockWork.support
  split
  · next tx outpoint name claim amount =>
    have fresh := fresh outpoint rfl
    have new := reached.grounded.new fresh
    have grows : used ⊆ used ++ [outpoint] := List.subset_append_left _ _
    simp only [TxEvent.supportIn?, Option.toList_some]
    split
    · exact ⟨reached.edits, reached.due, reached.indexed, reached.grounded.mono grows⟩
    · have edit : Edit height name work.ledger (work.ledger.addSupport
          (work.ledger.newSupport height outpoint name claim amount)) :=
        .addSupport (work.ledger.newSupport height outpoint name claim amount) new
      exact {
        edits := reached.edits.snoc edit
        due := fun name listed => Std.ExtTreeSet.mem_insert.mpr (.inr (reached.due name listed))
        indexed := indexed_addSupport reached.indexed new
        grounded.claims := fun found => grows (reached.grounded.claims found)
        grounded.supports := by
          intro other row found
          rw [getElem?_supports_addSupport] at found
          by_cases same : outpoint = other
          · rw [← same]
            exact List.mem_append_right _ (List.mem_singleton_self outpoint)
          · rw [if_neg same] at found
            exact grows (reached.grounded.supports found)
        grounded.apart := by
          intro other row found
          rw [getElem?_supports_addSupport] at found
          by_cases same : outpoint = other
          · rw [← same]
            exact reached.grounded.free reached.indexed fresh
          · rw [if_neg same] at found
            exact reached.grounded.apart found }
  · next other =>
    exact ⟨reached.edits, reached.due, reached.indexed,
      reached.grounded.mono (List.subset_append_left _ _)⟩

theorem outputs_cons (used : List OutPoint) (output : TxEvent → Option OutPoint)
    (event : BlockTx × TxEvent) (more : List (BlockTx × TxEvent)) :
    (used ++ (event :: more).filterMap fun event => output event.2) =
      (used ++ (output event.2).toList) ++ more.filterMap fun event => output event.2 := by
  rw [List.append_assoc, List.filterMap_cons]
  cases output event.2 <;> rfl

theorem fresh_cons {output : TxEvent → Option OutPoint} {event : BlockTx × TxEvent}
    {more : List (BlockTx × TxEvent)}
    (fresh : (used ++ (event :: more).filterMap fun event => output event.2).Nodup) :
    (∀ outpoint, output event.2 = some outpoint → outpoint ∉ used) ∧
      ((used ++ (output event.2).toList) ++ more.filterMap fun event => output event.2).Nodup := by
  rw [outputs_cons] at fresh
  refine ⟨fun outpoint produced used => ?_, fresh⟩
  have disjoint := (List.nodup_append.mp (List.nodup_append.mp fresh).1).2.2
  exact disjoint outpoint used outpoint (by simp [produced]) rfl

/-- A phase goes through the events in order. Where each output is new when its
turn comes, the invariant holds to the end. -/
theorem foldl_events {step : BlockWork → BlockTx × TxEvent → BlockWork}
    {output : TxEvent → Option OutPoint}
    (next : ∀ {used : List OutPoint} {work : BlockWork}, Reached height base used work →
      ∀ event : BlockTx × TxEvent, (∀ outpoint, output event.2 = some outpoint → outpoint ∉ used) →
        Reached height base (used ++ (output event.2).toList) (step work event))
    (reached : Reached height base used work) (events : List (BlockTx × TxEvent))
    (fresh : (used ++ events.filterMap fun event => output event.2).Nodup) :
    Reached height base (used ++ events.filterMap fun event => output event.2)
      (events.foldl step work) := by
  induction events generalizing used work with
  | nil => simpa using reached
  | cons event more ih =>
    obtain ⟨new, fresh⟩ := fresh_cons fresh
    rw [outputs_cons]
    exact ih (next reached event new) fresh

theorem rules_eq (reached : Reached height base used work) :
    work.ledger.rules = base.rules := by
  obtain ⟨_, _, _, _, _, edited⟩ := reached.edits.rest
  rw [edited]
  rfl

/-- Whatever each step of a phase keeps in step with a value of its own, the
phase does. -/
theorem foldl_track {α : Type} {step : BlockWork → BlockTx × TxEvent → BlockWork}
    {output : TxEvent → Option OutPoint} {f : α → BlockTx × TxEvent → α}
    {P : α → BlockWork → Prop}
    (next : ∀ {used : List OutPoint} {work : BlockWork}, Reached height base used work →
      ∀ event : BlockTx × TxEvent, (∀ outpoint, output event.2 = some outpoint → outpoint ∉ used) →
        Reached height base (used ++ (output event.2).toList) (step work event))
    (tracks : ∀ {used : List OutPoint} {work : BlockWork} {a : α},
      Reached height base used work → P a work →
        ∀ event, P (f a event) (step work event))
    (reached : Reached height base used work) {a : α} (holds : P a work)
    (events : List (BlockTx × TxEvent))
    (fresh : (used ++ events.filterMap fun event => output event.2).Nodup) :
    P (events.foldl f a) (events.foldl step work) := by
  induction events generalizing used work a with
  | nil => exact holds
  | cons event more ih =>
    obtain ⟨new, fresh⟩ := fresh_cons fresh
    exact ih (next reached event new) (tracks reached holds event) fresh

end Reached

/-! ## The five phases -/

/-- A block after its spends. -/
def spends (work : BlockWork) (txs : List BlockTx) : BlockWork :=
  (BlockTx.allSpends txs).foldl (spend txs) work

/-- A block after its new claims. -/
def creates (work : BlockWork) (height : Height) (txs : List BlockTx) : BlockWork :=
  (BlockTx.allEvents txs).foldl (create height) (work.spends txs)

/-- A block after its updates. -/
def updates (work : BlockWork) (height : Height) (txs : List BlockTx) : BlockWork :=
  (BlockTx.allEvents txs).foldl (update height) (work.creates height txs)

/-- A block after the second look at what was created or moved in it. -/
def rechecks (work : BlockWork) (height : Height) (txs : List BlockTx) : BlockWork :=
  (work.updates height txs).recheck.foldl
    (recheckClaim (Std.ExtTreeSet.ofList (BlockTx.allSpends txs))) (work.updates height txs)

/-- The last phase takes in the supports. -/
theorem run_eq (work : BlockWork) (height : Height) (txs : List BlockTx) :
    work.run height txs =
      (BlockTx.allEvents txs).foldl
        (support height (Std.ExtTreeSet.ofList (BlockTx.allSpends txs)))
        (work.rechecks height txs) := rfl

/-- The schedule is no part of what the indexes say. -/
theorem indexed_start {ledger : Ledger} (indexed : ledger.Indexed) (height : Height) :
    (start ledger height).ledger.Indexed :=
  ⟨indexed.claim_hash, indexed.support_outpoint, indexed.mem_claims, indexed.mem_supports,
    indexed.holdings⟩

section Reached

variable {ledger : Ledger} {earlier : List OutPoint} {txs : List BlockTx}

/-- The outputs of a block, phase by phase. -/
theorem perm_phases (earlier : List OutPoint) (txs : List BlockTx) :
    List.Perm
      (earlier ++ ((BlockTx.allEvents txs).filterMap fun event => event.2.createdIn?) ++
        ((BlockTx.allEvents txs).filterMap fun event => event.2.movedTo?) ++
          (BlockTx.allEvents txs).filterMap fun event => event.2.supportIn?)
      (earlier ++ BlockTx.allOutputs txs) := by
  have order := (BlockTx.perm_outputs (BlockTx.allEvents txs)).append_left earlier
  rw [← List.append_assoc, ← List.append_assoc] at order
  exact order

variable (height : Height) (indexed : ledger.Indexed) (grounded : ledger.Grounded earlier)
variable (fresh : (earlier ++ BlockTx.allOutputs txs).Nodup)

include indexed grounded

theorem reached_start : Reached height ledger earlier (start ledger height) :=
  ⟨.refl, fun _ listed => listed, indexed_start indexed height,
    ⟨grounded.claims, grounded.supports, grounded.apart⟩⟩

theorem reached_spends :
    Reached height ledger earlier ((start ledger height).spends txs) :=
  List.foldlRecOn _ _ (reached_start height indexed grounded)
    fun _ reached outpoint _ => reached.spend txs outpoint

include fresh

theorem reached_creates :
    Reached height ledger
      (earlier ++ (BlockTx.allEvents txs).filterMap fun event => event.2.createdIn?)
      ((start ledger height).creates height txs) := by
  have distinct := (perm_phases earlier txs).nodup_iff.mpr fresh
  exact (reached_spends height indexed grounded).foldl_events Reached.create _
    (List.nodup_append.mp (List.nodup_append.mp distinct).1).1

theorem reached_updates :
    Reached height ledger
      (earlier ++ ((BlockTx.allEvents txs).filterMap fun event => event.2.createdIn?) ++
        (BlockTx.allEvents txs).filterMap fun event => event.2.movedTo?)
      ((start ledger height).updates height txs) := by
  have distinct := (perm_phases earlier txs).nodup_iff.mpr fresh
  exact (reached_creates height indexed grounded fresh).foldl_events Reached.update _
    (List.nodup_append.mp distinct).1

theorem reached_rechecks :
    Reached height ledger
      (earlier ++ ((BlockTx.allEvents txs).filterMap fun event => event.2.createdIn?) ++
        (BlockTx.allEvents txs).filterMap fun event => event.2.movedTo?)
      ((start ledger height).rechecks height txs) :=
  List.foldlRecOn _ _ (reached_updates height indexed grounded fresh)
    fun _ reached hash _ => reached.recheckClaim _ hash

/-- All phases of a block together are edits to the names that it touches. -/
theorem reached_run :
    Reached height ledger (earlier ++ BlockTx.allOutputs txs)
      ((start ledger height).run height txs) := by
  have distinct := (perm_phases earlier txs).nodup_iff.mpr fresh
  have supported := (reached_rechecks height indexed grounded fresh).foldl_events
    (fun reached event fresh =>
      reached.support (Std.ExtTreeSet.ofList (BlockTx.allSpends txs)) event fresh)
    (BlockTx.allEvents txs) distinct
  rw [run_eq]
  exact ⟨supported.edits, supported.due, supported.indexed,
    supported.grounded.mono (perm_phases earlier txs).subset⟩

end Reached

end BlockWork

end ClaimLedger
