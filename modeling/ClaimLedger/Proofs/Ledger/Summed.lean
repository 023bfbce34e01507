/-
# The summary of a block

The counts in the summary of a block balance: the claims that are live after it are those that
were live before, with the created ones and without the abandoned ones. This holds whatever the
events are, repeated or invalid ones included, since a claim is only counted as created when none
of its hash is live, and as abandoned when it is taken out. The same goes for supports, as long as
no support event puts a second one where one is live.

The changes of control in the summary are complete. Every name is settled at most once in a
block, and settling it reports another controller exactly when the recorded one becomes another.
-/

import ClaimLedger.Proofs.Ledger.Accepted
import ClaimLedger.Proofs.Ledger.Cells
import ClaimLedger.Proofs.Ledger.Changes
import ClaimLedger.Proofs.Maps

namespace ClaimLedger

/-! ## Counts -/

namespace BlockTx

/-- The outputs in which the events of a block add supports. -/
def allSupports (txs : List BlockTx) : List OutPoint :=
  (allEvents txs).filterMap fun event => event.2.supportIn?

end BlockTx

namespace BlockWork

open Ledger

/-- The tally of a block so far accounts for the rows, which are kept under their own keys, and
no record of control has changed. The supports are only accounted for where `apart` holds. -/
structure Counted (apart : Prop) (base : Ledger) (work : BlockWork) : Prop where
  keyed : work.ledger.Keyed
  claims : work.ledger.claims.size + work.tally.abandoned = base.claims.size + work.tally.created
  supports : apart → work.ledger.supports.size + work.tally.supportsSpent =
    base.supports.size + work.tally.supportsAdded
  control : ∀ name, work.ledger.takeover? name = base.takeover? name

namespace Counted

variable {apart : Prop} {base : Ledger} {work : BlockWork} {height : Height}
variable {event : BlockTx × TxEvent}

theorem start (keyed : base.Keyed) (height : Height) :
    Counted apart base (BlockWork.start base height) where
  keyed := keyed.congr rfl rfl
  claims := rfl
  supports _ := rfl
  control _ := rfl

theorem abandon (counted : Counted apart base work) (hash : ClaimHash) :
    Counted apart base (work.abandon hash) := by
  rw [BlockWork.abandon]
  split
  · exact counted
  · next claim live =>
    have here : claim.hash = hash := counted.keyed.claims live
    rw [← here] at live
    have before := counted.claims
    have fewer := size_erase_of_getElem?_eq_some live
    refine ⟨counted.keyed.removeClaim claim, ?_, counted.supports,
      fun name => (takeover?_removeClaim claim name).trans (counted.control name)⟩
    change (work.ledger.claims.erase claim.hash).size + (work.tally.abandoned + 1) =
      base.claims.size + work.tally.created
    omega

theorem spend (counted : Counted apart base work) (txs : List BlockTx) (outpoint : OutPoint) :
    Counted apart base (work.spend txs outpoint) := by
  rw [BlockWork.spend]
  split
  · next support live =>
    have here : support.outpoint = outpoint := counted.keyed.supports live
    rw [← here] at live
    refine ⟨counted.keyed.removeSupport support, counted.claims, fun sure => ?_,
      fun name => (takeover?_removeSupport support name).trans (counted.control name)⟩
    have before := counted.supports sure
    have fewer := size_erase_of_getElem?_eq_some live
    change (work.ledger.supports.erase support.outpoint).size + (work.tally.supportsSpent + 1) =
      base.supports.size + work.tally.supportsAdded
    omega
  · split
    · exact counted
    · split
      · exact ⟨counted.keyed, counted.claims, counted.supports, counted.control⟩
      · exact counted.abandon _

theorem recheckClaim (counted : Counted apart base work) (spent : Std.ExtTreeSet OutPoint)
    (hash : ClaimHash) : Counted apart base (work.recheckClaim spent hash) := by
  rw [BlockWork.recheckClaim]
  split
  · exact counted
  · split
    · exact counted.abandon hash
    · exact counted

theorem create (counted : Counted apart base work) (height : Height)
    (event : BlockTx × TxEvent) : Counted apart base (work.create height event) := by
  rw [BlockWork.create.eq_def]
  split
  · next tx outpoint name hash amount owner =>
    split
    · exact counted
    · next unknown =>
      have free : work.ledger.claims[hash]? = none :=
        Std.ExtTreeMap.getElem?_eq_none fun known =>
          unknown (Std.ExtTreeMap.contains_iff_mem.mpr known)
      have before := counted.claims
      have more := size_insert_of_getElem?_eq_none free
        (work.ledger.newClaim height tx.index outpoint name hash amount owner)
      refine ⟨(counted.keyed.putClaim rfl rfl).congr rfl rfl, ?_, counted.supports,
        fun other => (takeover?_addClaim _ other).trans (counted.control other)⟩
      change (work.ledger.claims.insert hash
          (work.ledger.newClaim height tx.index outpoint name hash amount owner)).size +
        work.tally.abandoned = base.claims.size + (work.tally.created + 1)
      omega
  · exact counted

theorem update (counted : Counted apart base work) (height : Height)
    (event : BlockTx × TxEvent) : Counted apart base (work.update height event) := by
  rw [BlockWork.update.eq_def]
  split
  · next tx outpoint name hash amount owner =>
    split
    · exact counted
    · next claim live =>
      split
      · exact counted
      · have here : claim.hash = hash := counted.keyed.claims live
        rw [← here] at live
        refine ⟨(counted.keyed.putClaim rfl rfl).congr rfl rfl, ?_, counted.supports,
          counted.control⟩
        change (work.ledger.claims.insert claim.hash
            (claim.moved work.ledger.rules height outpoint amount owner)).size +
          work.tally.abandoned = base.claims.size + work.tally.created
        rw [size_insert_of_getElem?_eq_some live]
        exact counted.claims
  · exact counted

theorem support (counted : Counted apart base work) (height : Height)
    (spent : Std.ExtTreeSet OutPoint) (event : BlockTx × TxEvent)
    (new : apart → ∀ outpoint, event.2.supportIn? = some outpoint →
      work.ledger.supports[outpoint]? = none) :
    Counted apart base (work.support height spent event) := by
  rw [BlockWork.support.eq_def]
  split
  · next tx outpoint name hash amount =>
    split
    · exact counted
    · refine ⟨(counted.keyed.putSupport rfl rfl).congr rfl rfl, counted.claims, fun sure => ?_,
        fun other => (takeover?_addSupport _ other).trans (counted.control other)⟩
      have before := counted.supports sure
      have more := size_insert_of_getElem?_eq_none (new sure outpoint rfl)
        (work.ledger.newSupport height outpoint name hash amount)
      change (work.ledger.supports.insert outpoint
          (work.ledger.newSupport height outpoint name hash amount)).size +
        work.tally.supportsSpent = base.supports.size + (work.tally.supportsAdded + 1)
      omega
  · exact counted

end Counted

/-- A support event leaves alone the outputs that it does not add a support in. -/
theorem getElem?_supports_support_of_ne (work : BlockWork) (height : Height)
    (spent : Std.ExtTreeSet OutPoint) (event : BlockTx × TxEvent) {outpoint : OutPoint}
    (elsewhere : event.2.supportIn? ≠ some outpoint) :
    (work.support height spent event).ledger.supports[outpoint]? =
      work.ledger.supports[outpoint]? := by
  rw [support.eq_def]
  split
  · next tx produced name hash amount =>
    split
    · rfl
    · have different : produced ≠ outpoint := fun same => elsewhere (congrArg some same)
      exact getElem?_insert_of_ne _ _ different
  · rfl

/-- Spending puts no support anywhere. -/
theorem getElem?_supports_foldl_spend (txs : List BlockTx) (outpoints : List OutPoint)
    {work : BlockWork} {outpoint : OutPoint}
    (free : work.ledger.supports[outpoint]? = none) :
    (outpoints.foldl (spend txs) work).ledger.supports[outpoint]? = none := by
  refine List.foldlRecOn (motive := fun now : BlockWork =>
    now.ledger.supports[outpoint]? = none) _ _ free fun now free spent _ => ?_
  rw [spend]
  split
  · exact (getElem?_supports_removeSupport _ _ _).trans (by rw [free, ite_self])
  · split
    · exact free
    · split
      · exact free
      · rw [supports_abandon]
        exact free

namespace Counted

variable {apart : Prop} {base : Ledger} {work : BlockWork}

theorem foldl_support (counted : Counted apart base work) (height : Height)
    (spent : Std.ExtTreeSet OutPoint) {events : List (BlockTx × TxEvent)}
    (once : apart → (events.filterMap fun event => event.2.supportIn?).Nodup)
    (new : apart → ∀ outpoint ∈ events.filterMap fun event => event.2.supportIn?,
      work.ledger.supports[outpoint]? = none) :
    Counted apart base (events.foldl (BlockWork.support height spent) work) := by
  induction events generalizing work with
  | nil => exact counted
  | cons event more ih =>
    have later : (more.filterMap fun event => event.2.supportIn?).Sublist
        ((event :: more).filterMap fun event => event.2.supportIn?) :=
      (List.sublist_cons_self event more).filterMap _
    rw [List.foldl_cons]
    refine ih (counted.support height spent event fun sure outpoint adds => ?_)
      (fun sure => (once sure).sublist later) fun sure outpoint listed => ?_
    · exact new sure outpoint (List.mem_filterMap.mpr ⟨event, List.mem_cons_self, adds⟩)
    · rw [getElem?_supports_support_of_ne]
      · exact new sure outpoint (later.subset listed)
      · intro adds
        have once := once sure
        rw [List.filterMap_cons, adds] at once
        exact (List.nodup_cons.mp once).1 listed

/-- The tally of a whole block accounts for the rows that its phases leave. -/
theorem run (keyed : base.Keyed) (height : Height) (txs : List BlockTx)
    (once : apart → (BlockTx.allSupports txs).Nodup)
    (new : apart → ∀ outpoint ∈ BlockTx.allSupports txs, base.supports[outpoint]? = none) :
    Counted apart base ((BlockWork.start base height).run height txs) := by
  have rechecks : Counted apart base ((BlockWork.start base height).rechecks height txs) := by
    refine List.foldlRecOn _ _ ?_ fun _ counted hash _ => counted.recheckClaim _ hash
    refine List.foldlRecOn _ _ ?_ fun _ counted event _ => counted.update height event
    refine List.foldlRecOn _ _ ?_ fun _ counted event _ => counted.create height event
    exact List.foldlRecOn _ _ (start keyed height) fun _ counted outpoint _ =>
      counted.spend txs outpoint
  rw [run_eq]
  refine rechecks.foldl_support height _ once fun sure outpoint listed => ?_
  rw [supports_rechecks]
  exact getElem?_supports_foldl_spend txs _ (new sure outpoint listed)

end Counted

end BlockWork

namespace Ledger

variable {ledger before between after : Ledger} {height : Height} {txs : List BlockTx}
variable {summary : BlockSummary}

/-- Settling names replaces rows but neither adds nor removes any. -/
theorem size_of_settles (settles : Settles height before after) (keyed : before.Keyed) :
    after.claims.size = before.claims.size ∧ after.supports.size = before.supports.size := by
  have kept : after.Keyed ∧
      after.claims.size = before.claims.size ∧ after.supports.size = before.supports.size := by
    refine settles.keep (P := fun now => now.Keyed ∧ now.claims.size = before.claims.size ∧
      now.supports.size = before.supports.size) ?_ ⟨keyed, rfl, rfl⟩
    rintro now next settling ⟨keyed, claims, supports⟩
    cases settling with
    | unseen sameClaims sameSupports =>
      refine ⟨keyed.congr sameClaims sameSupports, ?_, ?_⟩
      · rw [sameClaims, claims]
      · rw [sameSupports, supports]
    | @admitClaim hash claim live =>
      have here : claim.hash = hash := keyed.claims live
      rw [← here] at live
      exact ⟨keyed.putClaim rfl rfl, (size_insert_of_getElem?_eq_some live _).trans claims,
        supports⟩
    | @admitSupport outpoint support live =>
      have here : support.outpoint = outpoint := keyed.supports live
      rw [← here] at live
      exact ⟨keyed.putSupport rfl rfl, claims,
        (size_insert_of_getElem?_eq_some live _).trans supports⟩
    | @refreshClaim hash claim effective live =>
      have here : claim.hash = hash := keyed.claims live
      rw [← here] at live
      exact ⟨keyed.putClaim rfl rfl, (size_insert_of_getElem?_eq_some live _).trans claims,
        supports⟩
    | setTakeover name takeover => exact ⟨keyed.congr rfl rfl, claims, supports⟩
  exact kept.2

/-! ## Changes of control -/

/-- Names were settled one after the other, and the changes that were reported are those of
their records of control. -/
structure Handed (height : Height) (names : List Bytes) (before after : Ledger)
    (changes : List (Bytes × Option ClaimHash)) : Prop where
  names : (changes.map Prod.fst).Sublist names
  listed : ∀ {name : Bytes} {controller : Option ClaimHash}, (name, controller) ∈ changes →
    controller ≠ (before.takeover? name).map Takeover.claim ∧
      after.takeover? name = controller.map fun claim => ⟨claim, height⟩
  kept : ∀ {name : Bytes}, name ∉ changes.map Prod.fst →
    after.takeover? name = before.takeover? name

/-- Where nothing is reported, nothing has changed. -/
theorem Handed.nothing {names : List Bytes}
    (same : ∀ name, after.takeover? name = before.takeover? name) :
    Handed height names before after [] where
  names := List.nil_sublist names
  listed listed := absurd listed List.not_mem_nil
  kept _ := same _

theorem takeover?_refreshEffective (ledger : Ledger) (name other : Bytes) (height : Height) :
    (ledger.refreshEffective name height).takeover? other = ledger.takeover? other := by
  have refreshed (now : Ledger) (hash : ClaimHash) :
      (now.refreshClaim (ledger.entry name) height hash).names = now.names := by
    rw [refreshClaim]
    split
    · simp only
      split <;> rfl
    · rfl
  rw [takeover?, takeover?, refreshEffective, foldl_keeps Ledger.names _ refreshed]

theorem takeover?_scheduleNext (ledger : Ledger) (name other : Bytes) (height : Height) :
    (ledger.scheduleNext name height).takeover? other = ledger.takeover? other := by
  rw [scheduleNext]
  split <;> rfl

theorem takeover?_prune (ledger : Ledger) (name other : Bytes) :
    (ledger.prune name).takeover? other = ledger.takeover? other := by
  rw [takeover?_eq_entry, takeover?_eq_entry, entry_prune]

/-- Bringing control of a name up to date reports the controller that it records, if that is
another one. -/
theorem handed_updateControl (ledger : Ledger) (name : Bytes) (height : Height) :
    Handed height [name] ledger (ledger.updateControl name height).1
      (((ledger.updateControl name height).2.map fun controller =>
        (name, controller)).toList) := by
  rw [updateControl]
  simp only
  split
  · exact .nothing fun _ => rfl
  · split
    · exact .nothing fun other => takeover?_admitPending ledger name other height
    · next different =>
      refine ⟨List.Sublist.refl _, fun listed => ?_, fun unlisted => ?_⟩
      · obtain ⟨rfl, rfl⟩ := Prod.mk.inj (List.mem_singleton.mp listed)
        refine ⟨different, ?_⟩
        rw [takeover?_setTakeover, if_pos rfl]
      · have other := mt List.mem_singleton.mpr unlisted
        rw [takeover?_setTakeover, if_neg (Ne.symm other), takeover?_admitPending]

theorem handed_settle (ledger : Ledger) (name : Bytes) (height : Height) :
    Handed height [name] ledger ((ledger.settle name height).1.prune name)
      (((ledger.settle name height).2.map fun controller => (name, controller)).toList) := by
  by_cases used : name ∈ ledger.names
  · rw [settle_of_mem used]
    have handed := handed_updateControl ledger name height
    have same (now : Ledger) (other : Bytes) :
        (((now.refreshEffective name height).scheduleNext name height).prune name).takeover?
          other = now.takeover? other := by
      rw [takeover?_prune, takeover?_scheduleNext, takeover?_refreshEffective]
    refine ⟨handed.names, fun {other controller} listed => ?_, fun {other} unlisted => ?_⟩
    · rw [same]
      exact handed.listed listed
    · rw [same]
      exact handed.kept unlisted
  · rw [settle_of_not_mem used]
    exact .nothing fun other => takeover?_prune ledger name other

/-- Settling further names does not interfere. -/
theorem Handed.append {names more : List Bytes} {changes rest : List (Bytes × Option ClaimHash)}
    (handed : Handed height names before between changes)
    (further : Handed height more between after rest) (apart : names.Disjoint more) :
    Handed height (names ++ more) before after (changes ++ rest) where
  names := by
    rw [List.map_append]
    exact handed.names.append further.names
  listed := by
    intro name controller listed
    rcases List.mem_append.mp listed with listed | listed
    · have first := handed.names.subset (List.mem_map_of_mem listed)
      have unlisted : name ∉ rest.map Prod.fst := fun again =>
        apart first (further.names.subset again)
      rw [further.kept unlisted]
      exact handed.listed listed
    · have later := further.names.subset (List.mem_map_of_mem listed)
      have unlisted : name ∉ changes.map Prod.fst := fun before =>
        apart (handed.names.subset before) later
      rw [← handed.kept unlisted]
      exact further.listed listed
  kept := by
    intro name unlisted
    rw [List.map_append, List.mem_append, not_or] at unlisted
    exact (further.kept unlisted.2).trans (handed.kept unlisted.1)

theorem handed_settleAll {names : List Bytes} {changes : List (Bytes × Option ClaimHash)}
    (distinct : names.Nodup) (done : settleAll height names ledger = (after, .ok changes)) :
    Handed height names ledger after changes := by
  induction names generalizing ledger changes with
  | nil =>
    cases done
    exact .nothing fun _ => rfl
  | cons name more ih =>
    obtain ⟨notLater, distinct⟩ := List.nodup_cons.mp distinct
    obtain ⟨-, -, rest, further, rfl⟩ := settleAll_cons_ok done
    exact (handed_settle ledger name height).append (ih distinct further)
      (List.singleton_disjoint.mpr notLater)

/-! ## The whole summary -/

/-- The recorded controller of a name. -/
def controller? (ledger : Ledger) (name : Bytes) : Option ClaimHash :=
  (ledger.takeover? name).map Takeover.claim

/-- What the summary of a block says about the ledgers before and after it. -/
structure Summed (height : Height) (txs : List BlockTx) (before after : Ledger)
    (summary : BlockSummary) : Prop where
  dated : summary.height = height
  claims : after.claims.size + summary.abandoned = before.claims.size + summary.created
  supports : (BlockTx.allSupports txs).Nodup →
    (∀ outpoint ∈ BlockTx.allSupports txs, before.supports[outpoint]? = none) →
      after.supports.size + summary.supportsSpent = before.supports.size + summary.supportsAdded
  /-- The names with a change of control come in the order of their bytes, each once. -/
  ascending : (summary.takeovers.map Prod.fst).Pairwise fun name other => compare name other = .lt
  /-- They are all names whose controller is another one after the block. -/
  complete : ∀ (name : Bytes) (controller : Option ClaimHash),
    (name, controller) ∈ summary.takeovers ↔
      before.controller? name ≠ after.controller? name ∧ controller = after.controller? name
  /-- Whoever got in control did so at the height of the block. -/
  since : ∀ name ∈ summary.takeovers.map Prod.fst, ∀ takeover,
    after.takeover? name = some takeover → takeover.height = height
  kept : ∀ name ∉ summary.takeovers.map Prod.fst, after.takeover? name = before.takeover? name

/-- The summary of a block says what its phases tallied. -/
theorem summary_of_applyBlock (done : ledger.applyBlock height txs = (after, .ok summary)) :
    summary.height = height ∧
      summary.created = ((BlockWork.start ledger height).run height txs).tally.created ∧
      summary.abandoned = ((BlockWork.start ledger height).run height txs).tally.abandoned ∧
      summary.supportsAdded =
        ((BlockWork.start ledger height).run height txs).tally.supportsAdded ∧
      summary.supportsSpent =
        ((BlockWork.start ledger height).run height txs).tally.supportsSpent := by
  unfold applyBlock at done
  simp only at done
  split at done
  · cases done
  · split at done
    · cases done
    · split at done
      · cases done
      · split at done
        · cases done
        · cases done
          exact ⟨rfl, rfl, rfl, rfl, rfl⟩

/-- The summary of every block that a ledger takes in accounts for it exactly. -/
theorem summed_applyBlock (built : Built ledger)
    (done : ledger.applyBlock height txs = (after, .ok summary)) :
    Summed height txs ledger after summary := by
  have keyed : ledger.Keyed := Ordered.keyed built.timely
  obtain ⟨isHeight, created, abandoned, added, spent⟩ := summary_of_applyBlock done
  obtain ⟨-, -, -, settled, settling, rfl⟩ := applyBlock_ok done
  have counted : BlockWork.Counted
      ((BlockTx.allSupports txs).Nodup ∧
        ∀ outpoint ∈ BlockTx.allSupports txs, ledger.supports[outpoint]? = none)
      ledger ((BlockWork.start ledger height).run height txs) :=
    .run keyed height txs And.left And.right
  have settles :
      Settles height ((BlockWork.start ledger height).run height txs).ledger settled := by
    have settles : Settles height ((BlockWork.start ledger height).run height txs).ledger _ :=
      Settles.refl.settleAll ((BlockWork.start ledger height).run height txs).touched.toList
    rw [settling] at settles
    exact settles
  obtain ⟨sameClaims, sameSupports⟩ := size_of_settles settles counted.keyed
  have ascending := ((BlockWork.start ledger height).run height txs).touched.ordered_toList
  have distinct : ((BlockWork.start ledger height).run height txs).touched.toList.Nodup := by
    refine ascending.imp fun before same => ?_
    subst same
    exact Std.OrientedCmp.not_lt_of_lt before before
  have handed := handed_settleAll distinct settling
  have reported {name : Bytes} {controller : Option ClaimHash}
      (listed : (name, controller) ∈ summary.takeovers) :
      controller ≠ ledger.controller? name ∧
        settled.takeover? name = controller.map fun claim => ⟨claim, height⟩ := by
    rw [controller?, ← counted.control]
    exact handed.listed listed
  have kept {name : Bytes} (unlisted : name ∉ summary.takeovers.map Prod.fst) :
      settled.takeover? name = ledger.takeover? name :=
    (handed.kept unlisted).trans (counted.control name)
  exact {
    dated := isHeight
    claims := by
      rw [abandoned, created]
      exact (congrArg (· + _) sameClaims).trans counted.claims
    supports := fun once new => by
      rw [spent, added]
      exact (congrArg (· + _) sameSupports).trans (counted.supports ⟨once, new⟩)
    ascending := ascending.sublist handed.names
    complete := by
      intro name controller
      have recorded {controller : Option ClaimHash}
          (listed : (name, controller) ∈ summary.takeovers) :
          controller = settled.controller? name := by
        rw [controller?, (reported listed).2, Option.map_map]
        exact Option.map_id'.symm
      constructor
      · intro listed
        have now := recorded listed
        exact ⟨fun same => (reported listed).1 (now.trans same.symm), now⟩
      · rintro ⟨changed, rfl⟩
        have listed : name ∈ summary.takeovers.map Prod.fst := by
          by_contra unlisted
          apply changed
          change ledger.controller? name = settled.controller? name
          rw [controller?, controller?, kept unlisted]
        obtain ⟨⟨_, controller⟩, member, rfl⟩ := List.mem_map.mp listed
        have now := recorded member
        exact now ▸ member
    since := by
      intro name listed takeover inControl
      obtain ⟨⟨_, controller⟩, member, rfl⟩ := List.mem_map.mp listed
      have recorded : settled.takeover? _ = some takeover := inControl
      rw [(reported member).2] at recorded
      obtain ⟨claim, -, rfl⟩ := Option.map_eq_some_iff.mp recorded
      rfl
    kept := fun name unlisted => kept unlisted }

/-- On top of `crowded`: a double spend of the output of the two claims and one of the support;
a new claim that is created twice and moves on; another one that is spent right away; two
supports, one of them spent; and an update of a claim that is nowhere. -/
def bustle : List BlockTx :=
  let output (index : UInt32) : OutPoint := ⟨Digest.zero 32, index⟩
  let claim : UInt8 → ClaimHash := Digest.filled 20
  [⟨Digest.zero 32, 0, [.spend (output 0), .spend (output 0), .spend (output 1),
      .create (output 2) [0x62] (claim 7) 9 [], .create (output 3) [0x63] (claim 7) 9 [],
      .create (output 4) [0x61] (claim 8) 6 [],
      .support (output 5) [0x62] (claim 7) 1, .support (output 6) [0x63] (claim 7) 1]⟩,
    ⟨Digest.zero 32, 1, [.spend (output 2), .spend (output 4), .spend (output 6),
      .update (output 7) [0x62] (claim 7) 3 [], .update (output 8) [0x63] (claim 9) 2 []]⟩]

theorem summed_bustle :
    ∃ ledger summaries after summary,
      Engine.replay applyBlock Rules.regtest [crowded] = .ok (ledger, summaries) ∧
      ledger.applyBlock 1 bustle = (after, .ok summary) ∧
      (summary.created, summary.abandoned) = (2, 2) ∧
      (summary.supportsAdded, summary.supportsSpent) = (1, 1) ∧
      (summary.takeovers.map Prod.fst) = [[0x62]] ∧
      Summed 1 bustle ledger after summary := by
  have facts : (Engine.replay applyBlock Rules.regtest [crowded]).toOption.map (fun state =>
      (state.1.applyBlock 1 bustle).2.toOption.map fun summary =>
        ((summary.created, summary.abandoned), (summary.supportsAdded, summary.supportsSpent),
          summary.takeovers.map Prod.fst)) =
      some (some ((2, 2), (1, 1), [[0x62]])) := by decide +kernel
  obtain ⟨⟨ledger, summaries⟩, run, shown⟩ := exists_of_map_toOption facts
  obtain ⟨summary, answered, counts⟩ := exists_of_map_toOption shown
  obtain ⟨claims, counts⟩ := Prod.mk.inj counts
  obtain ⟨supports, takeovers⟩ := Prod.mk.inj counts
  have done : ledger.applyBlock 1 bustle = ((ledger.applyBlock 1 bustle).1, .ok summary) :=
    Prod.ext rfl answered
  exact ⟨ledger, summaries, _, summary, run, done, claims, supports, takeovers,
    summed_applyBlock (built_of_replay run) done⟩

end Ledger

end ClaimLedger
