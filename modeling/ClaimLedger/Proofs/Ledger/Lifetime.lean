/-
# How long claims live

A claim expires at the height that the rules give for the block that created it or moved it
last. The later that block, the later the height: before the fork and after it, across the fork
where the extended lifetime is the longer one, and where the sum stops at the largest height.
So whatever moves a claim leaves it at least the life that it had.

The height that a claim shows is always that one, whatever the events of the blocks are: in the
middle of a block, after a block that was refused, and after the ledger was rebuilt from its rows.
-/

import ClaimLedger.Proofs.Ledger.Accepted
import ClaimLedger.Proofs.Ledger.Cells

namespace ClaimLedger

/-! ## The rule -/

/-- The claim is kept under its hash, was moved or created within so many blocks or right after
them, and expires when the rules say. -/
structure Claim.Lasts (rules : Rules) (blocks : Nat) (hash : ClaimHash) (claim : Claim) : Prop where
  here : claim.hash = hash
  updated : claim.updated.toNat ≤ blocks
  expiration : claim.term.expiration = rules.expirationHeight claim.updated

namespace Ledger

/-! ## What is always true -/

/-- Every claim expires when the rules say, and an output that is on record as a claim's is where
that claim is. -/
structure Dated (rules : Rules) (blocks : Nat) (ledger : Ledger) : Prop where
  ruled : ledger.rules = rules
  counted : ledger.blocks = blocks
  rows : EachRow (Claim.Lasts rules blocks) (fun outpoint support => support.outpoint = outpoint)
    ledger
  held : ∀ {outpoint : OutPoint} {hash : ClaimHash}, ledger.holdings[outpoint]? = some hash →
    ∃ claim, ledger.claims[hash]? = some claim ∧ claim.outpoint = outpoint

namespace Dated

variable {rules : Rules} {blocks : Nat} {ledger after : Ledger} {claim : Claim}
variable {hash : ClaimHash} {height : Height} {txs : List BlockTx}

theorem keyed (dated : ledger.Dated rules blocks) : ledger.Keyed :=
  dated.rows.mono Claim.Lasts.here id

theorem empty (rules : Rules) : (empty rules).Dated rules 0 where
  ruled := rfl
  counted := rfl
  rows := EachRow.empty rules
  held := by simp [Ledger.empty]

/-- Only the rules, the height, the rows and the outputs on record count. -/
theorem congr (dated : ledger.Dated rules blocks) (ruled : after.rules = ledger.rules)
    (height : after.height = ledger.height) (claims : after.claims = ledger.claims)
    (supports : after.supports = ledger.supports) (holdings : after.holdings = ledger.holdings) :
    after.Dated rules blocks where
  ruled := ruled.trans dated.ruled
  counted := by rw [Ledger.blocks, height, ← dated.counted, Ledger.blocks]
  rows := dated.rows.congr claims supports
  held := by
    rw [holdings, claims]
    exact dated.held

theorem addClaim (dated : ledger.Dated rules blocks) (new : ledger.claims[claim.hash]? = none)
    (lasts : claim.Lasts rules blocks claim.hash) :
    (ledger.addClaim claim).Dated rules blocks where
  ruled := dated.ruled
  counted := dated.counted
  rows := (dated.rows.putClaim rfl lasts).congr rfl rfl
  held := by
    intro outpoint hash found
    rw [getElem?_holdings_addClaim] at found
    split at found
    · next sits =>
      cases found
      exact ⟨claim, by simp, sits⟩
    · obtain ⟨row, live, sits⟩ := dated.held found
      refine ⟨row, ?_, sits⟩
      rw [getElem?_claims_addClaim, if_neg, live]
      rintro rfl
      rw [new] at live
      cases live

theorem removeClaim (dated : ledger.Dated rules blocks)
    (live : ledger.claims[claim.hash]? = some claim) :
    (ledger.removeClaim claim).Dated rules blocks where
  ruled := dated.ruled
  counted := dated.counted
  rows := dated.rows.removeClaim claim
  held := by
    intro outpoint hash found
    rw [getElem?_holdings_removeClaim] at found
    split at found
    · cases found
    · next elsewhere =>
      obtain ⟨row, live', sits⟩ := dated.held found
      refine ⟨row, ?_, sits⟩
      rw [getElem?_claims_removeClaim, if_neg, live']
      rintro rfl
      rw [live, Option.some.injEq] at live'
      exact elsewhere (live' ▸ sits)

theorem moveClaim (dated : ledger.Dated rules blocks)
    (live : ledger.claims[claim.hash]? = some claim) (inOrder : height.toNat = blocks)
    (outpoint : OutPoint) (amount : Amount) (owner : Bytes) :
    (BlockWork.moveClaim ledger height claim outpoint amount owner).Dated rules blocks where
  ruled := dated.ruled
  counted := dated.counted
  rows := by
    have lasts : (claim.moved ledger.rules height outpoint amount owner).Lasts rules blocks
        claim.hash := ⟨rfl, Nat.le_of_eq inOrder, by rw [dated.ruled]; rfl⟩
    exact (dated.rows.putClaim rfl lasts).congr rfl rfl
  held := by
    intro other hash found
    rw [getElem?_holdings_moveClaim] at found
    split at found
    · next sits =>
      cases found
      exact ⟨_, getElem?_claims_moveClaim .. ▸ if_pos rfl, sits⟩
    · split at found
      · cases found
      · next elsewhere =>
        obtain ⟨row, live', sits⟩ := dated.held found
        refine ⟨row, ?_, sits⟩
        rw [getElem?_claims_moveClaim, if_neg, live']
        rintro rfl
        rw [live, Option.some.injEq] at live'
        exact elsewhere (live' ▸ sits)

theorem addSupport (dated : ledger.Dated rules blocks) (support : Support) :
    (ledger.addSupport support).Dated rules blocks where
  ruled := dated.ruled
  counted := dated.counted
  rows := (dated.rows.putSupport rfl rfl).congr rfl rfl
  held := dated.held

theorem removeSupport (dated : ledger.Dated rules blocks) (support : Support) :
    (ledger.removeSupport support).Dated rules blocks where
  ruled := dated.ruled
  counted := dated.counted
  rows := dated.rows.removeSupport support
  held := dated.held

end Dated

end Ledger

/-! ## The phases of a block -/

namespace BlockWork

open Ledger

/-- A block once the updates among some first events of it are in. -/
def updating (work : BlockWork) (height : Height) (txs : List BlockTx)
    (done : List (BlockTx × TxEvent)) : BlockWork :=
  done.foldl (update height) (work.creates height txs)

section Dated

variable {rules : Rules} {blocks : Nat} {work : BlockWork} {hash : ClaimHash} {height : Height}
variable {txs : List BlockTx} {ledger : Ledger}

theorem dated_abandon (dated : work.ledger.Dated rules blocks) (hash : ClaimHash) :
    (work.abandon hash).ledger.Dated rules blocks := by
  rw [abandon]
  split
  · exact dated
  · next claim live =>
    have here : claim.hash = hash := dated.keyed.claims live
    exact dated.removeClaim (here.symm ▸ live)

theorem dated_spend (dated : work.ledger.Dated rules blocks) (txs : List BlockTx)
    (outpoint : OutPoint) : (work.spend txs outpoint).ledger.Dated rules blocks := by
  rw [spend]
  split
  · next support live => exact dated.removeSupport support
  · split
    · exact dated
    · split
      · exact dated
      · exact dated_abandon dated _

theorem dated_create (dated : work.ledger.Dated rules blocks) (inOrder : height.toNat = blocks)
    (event : BlockTx × TxEvent) : (work.create height event).ledger.Dated rules blocks := by
  rw [create.eq_def]
  split
  · split
    · exact dated
    · next unknown =>
      refine dated.addClaim ?_ ⟨rfl, Nat.le_of_eq inOrder, by rw [dated.ruled]⟩
      exact Std.ExtTreeMap.getElem?_eq_none fun known =>
        unknown (Std.ExtTreeMap.contains_iff_mem.mpr known)
  · exact dated

theorem dated_update (dated : work.ledger.Dated rules blocks) (inOrder : height.toNat = blocks)
    (event : BlockTx × TxEvent) : (work.update height event).ledger.Dated rules blocks := by
  rw [update.eq_def]
  split
  · split
    · exact dated
    · next claim live =>
      split
      · exact dated
      · have here := dated.keyed.claims live
        exact dated.moveClaim (here.symm ▸ live) inOrder _ _ _
  · exact dated

theorem dated_recheckClaim (dated : work.ledger.Dated rules blocks)
    (spent : Std.ExtTreeSet OutPoint) (hash : ClaimHash) :
    (work.recheckClaim spent hash).ledger.Dated rules blocks := by
  rw [recheckClaim]
  split
  · exact dated
  · split
    · exact dated_abandon dated hash
    · exact dated

theorem dated_support (dated : work.ledger.Dated rules blocks) (spent : Std.ExtTreeSet OutPoint)
    (event : BlockTx × TxEvent) : (work.support height spent event).ledger.Dated rules blocks := by
  rw [support.eq_def]
  split
  · split
    · exact dated
    · exact dated.addSupport _
  · exact dated

theorem dated_start (dated : ledger.Dated rules blocks) (height : Height) :
    (start ledger height).ledger.Dated rules blocks :=
  dated.congr rfl rfl rfl rfl rfl

theorem dated_creates (dated : work.ledger.Dated rules blocks) (inOrder : height.toNat = blocks)
    (txs : List BlockTx) : (work.creates height txs).ledger.Dated rules blocks := by
  refine List.foldlRecOn (motive := fun now : BlockWork => now.ledger.Dated rules blocks) _ _ ?_
    fun _ dated event _ => dated_create dated inOrder event
  exact List.foldlRecOn (motive := fun now : BlockWork => now.ledger.Dated rules blocks) _ _
    dated fun _ dated outpoint _ => dated_spend dated txs outpoint

theorem dated_updating (dated : work.ledger.Dated rules blocks) (inOrder : height.toNat = blocks)
    (txs : List BlockTx) (done : List (BlockTx × TxEvent)) :
    (work.updating height txs done).ledger.Dated rules blocks :=
  List.foldlRecOn (motive := fun now : BlockWork => now.ledger.Dated rules blocks) _ _
    (dated_creates dated inOrder txs) fun _ dated event _ => dated_update dated inOrder event

theorem dated_run (dated : work.ledger.Dated rules blocks) (inOrder : height.toNat = blocks)
    (txs : List BlockTx) : (work.run height txs).ledger.Dated rules blocks := by
  rw [run_eq, rechecks]
  refine List.foldlRecOn (motive := fun now : BlockWork => now.ledger.Dated rules blocks) _ _ ?_
    fun _ dated event _ => dated_support dated _ event
  exact List.foldlRecOn (motive := fun now : BlockWork => now.ledger.Dated rules blocks) _ _
    (dated_updating dated inOrder txs _) fun _ dated hash _ => dated_recheckClaim dated _ hash

end Dated

end BlockWork

/-! ## Settling and the end of a block -/

namespace Ledger

section Settling

variable {rules : Rules} {blocks : Nat} {ledger : Ledger} {height : Height} {txs : List BlockTx}

/-- What settling names leaves alone besides the claims' outputs. -/
def frame (ledger : Ledger) : Rules × Option Height × Std.ExtTreeMap OutPoint ClaimHash :=
  (ledger.rules, ledger.height, ledger.holdings)

theorem frame_admitPending (ledger : Ledger) (name : Bytes) (height : Height) :
    (ledger.admitPending name height).frame = ledger.frame := by
  have claims (now : Ledger) (hash : ClaimHash) :
      (now.admitClaim height hash).frame = now.frame := by
    rw [admitClaim]
    split
    · split <;> rfl
    · rfl
  have supports (now : Ledger) (outpoint : OutPoint) :
      (now.admitSupport height outpoint).frame = now.frame := by
    rw [admitSupport]
    split
    · split <;> rfl
    · rfl
  rw [admitPending, foldl_keeps frame _ supports, foldl_keeps frame _ claims]

theorem frame_updateControl (ledger : Ledger) (name : Bytes) (height : Height) :
    (ledger.updateControl name height).1.frame = ledger.frame := by
  rw [updateControl]
  simp only
  split
  · rfl
  · split
    · exact ledger.frame_admitPending name height
    · exact ledger.frame_admitPending name height

theorem frame_refreshEffective (ledger : Ledger) (name : Bytes) (height : Height) :
    (ledger.refreshEffective name height).frame = ledger.frame := by
  refine foldl_keeps frame _ (fun now hash => ?_) _ _
  rw [refreshClaim]
  split
  · simp only
    split <;> rfl
  · rfl

theorem frame_settle (ledger : Ledger) (name : Bytes) (height : Height) :
    (ledger.settle name height).1.frame = ledger.frame := by
  rw [settle]
  split
  · obtain ⟨schedule, scheduled⟩ := rest_scheduleNext
      ((ledger.updateControl name height).1.refreshEffective name height) name height
    simp only [scheduled]
    exact (frame_refreshEffective _ name height).trans (ledger.frame_updateControl name height)
  · rfl

theorem frame_settleAll (height : Height) (names : List Bytes) (ledger : Ledger) :
    (settleAll height names ledger).1.frame = ledger.frame := by
  induction names generalizing ledger with
  | nil => rfl
  | cons name more ih =>
    have settled := ledger.frame_settle name height
    rw [settleAll]
    simp only
    split
    · exact settled
    · split
      · exact settled
      · obtain ⟨names, pruned⟩ := rest_prune (ledger.settle name height).1 name
        have rest := ih ((ledger.settle name height).1.prune name)
        rw [pruned] at rest ⊢
        exact rest.trans settled

/-- Settling changes neither when a claim was moved last nor when it expires. -/
theorem upheld_lasts (rules : Rules) (blocks : Nat) (height : Height) :
    Upheld False height [] (Claim.Lasts rules blocks)
      fun outpoint support => support.outpoint = outpoint where
  claim_hash := Claim.Lasts.here
  support_outpoint := id
  newClaim := by
    rintro _ _ _ _ _ _ _ ⟨⟩
  moved := by
    rintro _ _ _ _ _ _ _ _ ⟨⟩
  newSupport := by
    rintro _ _ _ _ _ _ ⟨⟩
  admittedClaim := by
    rintro hash claim ⟨here, updated, expiration⟩
    refine ⟨here, updated, ?_⟩
    rw [Claim.admitted, Term.activateBy]
    split <;> exact expiration
  admittedSupport := id
  refreshed := fun _ lasts => ⟨lasts.here, lasts.updated, lasts.expiration⟩

/-- Settling takes no claim away, brings none in, and leaves each in its output. -/
theorem outpoint_of_settles {after : Ledger} (keyed : ledger.Keyed)
    (settles : Settles height ledger after) (hash : ClaimHash) :
    after.claims[hash]?.map Claim.outpoint = ledger.claims[hash]?.map Claim.outpoint := by
  have both : after.Keyed ∧
      after.claims[hash]?.map Claim.outpoint = ledger.claims[hash]?.map Claim.outpoint := by
    refine settles.keep (P := fun now => now.Keyed ∧
      now.claims[hash]?.map Claim.outpoint = ledger.claims[hash]?.map Claim.outpoint)
      (fun {before after} step now => ?_) ⟨keyed, rfl⟩
    refine ⟨now.1.settling (upheld_keyed False height []) step, ?_⟩
    rw [← now.2]
    -- a row that is written replaces one in the same output
    have written {row claim : Claim} {other : ClaimHash} (found : before.claims[other]? = some row)
        (here : claim.hash = row.hash) (sits : claim.outpoint = row.outpoint) :
        (before.putClaim claim).claims[hash]?.map Claim.outpoint =
          before.claims[hash]?.map Claim.outpoint := by
      have key := now.1.claims found
      rw [getElem?_claims_putClaim]
      split
      · next same => rw [← same, here, key, found, Option.map_some, Option.map_some, sits]
      · rfl
    cases step with
    | unseen claims _ _ _ => rw [claims]
    | admitClaim found => exact written found rfl rfl
    | admitSupport _ => rfl
    | refreshClaim effective found => exact written found rfl rfl
    | setTakeover name takeover => rfl
  exact both.2

theorem Dated.settleAll (dated : ledger.Dated rules blocks) (height : Height)
    (names : List Bytes) :
    (Ledger.settleAll height names ledger).1.Dated rules blocks := by
  have frame := frame_settleAll height names ledger
  obtain ⟨ruled, frame⟩ := Prod.mk.inj frame
  obtain ⟨last, holdings⟩ := Prod.mk.inj frame
  refine ⟨ruled.trans dated.ruled, ?_,
    dated.rows.settleAll (upheld_lasts rules blocks height) names, fun {outpoint hash} found => ?_⟩
  · rw [Ledger.blocks, last, ← dated.counted, Ledger.blocks]
  · rw [holdings] at found
    obtain ⟨claim, live, sits⟩ := dated.held found
    have settles : Settles height ledger (Ledger.settleAll height names ledger).1 :=
      Settles.refl.settleAll names
    have same := outpoint_of_settles dated.keyed settles hash
    rw [live, Option.map_some, sits] at same
    exact Option.map_eq_some_iff.mp same

/-- Whatever becomes of a block, the ledger that it leaves is dated. -/
theorem Dated.applyBlock (dated : ledger.Dated rules blocks) (height : Height)
    (txs : List BlockTx) : ∃ blocks, (ledger.applyBlock height txs).1.Dated rules blocks := by
  rw [Ledger.applyBlock]
  split
  · exact ⟨blocks, dated⟩
  · next notTop =>
    simp only
    split
    · exact ⟨blocks, dated⟩
    · next next =>
      have inOrder : height.toNat = blocks := by
        rw [← dated.counted, not_not.mp next, toNat_next_blocks notTop]
      have ran := BlockWork.dated_run (BlockWork.dated_start dated height) inOrder txs
      split
      · exact ⟨blocks, ran⟩
      · have settled := ran.settleAll height
          ((BlockWork.start ledger height).run height txs).touched.toList
        split
        · next result =>
          rw [result] at settled
          exact ⟨blocks, settled⟩
        · next after takeovers result =>
          rw [result] at settled
          refine ⟨blocks + 1, settled.ruled, congrArg Nat.succ inOrder, ?_, settled.held⟩
          exact (settled.rows.mono (fun lasts =>
            ⟨lasts.here, Nat.le_succ_of_le lasts.updated, lasts.expiration⟩) id).congr rfl rfl

/-- Some of the given claims have been put back, and no others. -/
def PutBack (rules : Rules) (blocks : Nat) (claims : List Claim) (now : Ledger)
    (rows : List Claim) : Prop :=
  (∀ row ∈ rows, row ∈ claims) → now.Dated rules blocks ∧
    ∀ {hash : ClaimHash} {claim : Claim}, now.claims[hash]? = some claim →
      ∃ row ∈ rows, row.hash = hash

theorem PutBack.loadClaim {claims rows : List Claim}
    (putBack : PutBack rules blocks claims ledger rows)
    (lasts : ∀ claim ∈ claims, claim.Lasts rules blocks claim.hash) (claim : Claim)
    (new : ∀ row ∈ rows, row.hash ≠ claim.hash) :
    PutBack rules blocks claims (ledger.loadClaim claim) (rows ++ [claim]) := by
  intro listed
  obtain ⟨dated, known⟩ := putBack fun row member => listed row (List.mem_append_left _ member)
  have alike := alike_loadClaim ledger claim
  refine ⟨?_, fun {hash row} live => ?_⟩
  · refine (dated.addClaim ?_ (lasts claim (listed claim (by simp)))).congr alike.rules
      alike.height alike.claims alike.supports alike.holdings
    rw [Option.eq_none_iff_forall_ne_some]
    intro row live
    obtain ⟨other, member, same⟩ := known live
    exact new other member same
  · rw [alike.claims, getElem?_claims_addClaim] at live
    split at live
    · next here => exact ⟨claim, by simp, here⟩
    · obtain ⟨other, member, here⟩ := known live
      exact ⟨other, List.mem_append_left _ member, here⟩

/-- Rebuilt from its rows, in whatever order they come, the ledger is dated as it was. -/
theorem Dated.ofSnapshot (dated : ledger.Dated rules blocks) {snapshot : Snapshot}
    (same : ledger.snapshot.Same snapshot) :
    (Ledger.ofSnapshot rules snapshot).Dated rules blocks := by
  have lasts (claim : Claim) (listed : claim ∈ snapshot.claims) :
      claim.Lasts rules blocks claim.hash := by
    obtain ⟨hash, live⟩ := mem_values.mp (same.claims.mem_iff.mp listed)
    have here : claim.hash = hash := dated.keyed.claims live
    exact here.symm ▸ dated.rows.claims live
  have apart : snapshot.claims.Pairwise fun left right => left.hash ≠ right.hash :=
    (same.claims.pairwise_iff Ne.symm).mpr (pairwise_values_of_keyed dated.keyed.claims)
  have started : ({ rules, height := snapshot.height } : Ledger).Dated rules blocks := by
    refine ⟨rfl, ?_, ⟨by simp, by simp⟩, by simp⟩
    rw [Ledger.blocks, same.height, ← dated.counted, Ledger.blocks]
    rfl
  have none : PutBack rules blocks snapshot.claims { rules, height := snapshot.height } [] :=
    fun _ => ⟨started, by simp⟩
  have claims := Holds.foldl (fun putBack claim new => putBack.loadClaim lasts claim new) none
    snapshot.claims apart
  have loaded : (loaded rules snapshot).Dated rules blocks := by
    rw [Ledger.loaded]
    refine List.foldlRecOn (motive := Dated rules blocks) _ _ ?_
      fun _ dated row _ => dated.congr rfl rfl rfl rfl rfl
    refine List.foldlRecOn (motive := Dated rules blocks) _ _ (claims fun _ => id).1
      fun _ dated support _ => (dated.addSupport support).congr rfl rfl rfl rfl rfl
  have alike := alike_ofSnapshot False rules snapshot
  exact loaded.congr alike.rules alike.height alike.claims alike.supports alike.holdings

end Settling

/-! ## Every run -/

/-- A ledger that came from nothing by blocks, taken in or refused, whatever their events, with the
changed rows handed out and the whole ledger rebuilt from its rows any number of times in
between. -/
inductive Attained : Ledger → Prop
  | empty (rules : Rules) : Attained (empty rules)
  | block {ledger : Ledger} (attained : Attained ledger) (height : Height) (txs : List BlockTx) :
      Attained (ledger.applyBlock height txs).1
  | drained {ledger : Ledger} (attained : Attained ledger) : Attained ledger.takeChanges.2
  | restarted {ledger : Ledger} {snapshot : Snapshot} (attained : Attained ledger)
      (same : ledger.snapshot.Same snapshot) : Attained (ofSnapshot ledger.rules snapshot)

section Attained

variable {ledger : Ledger} {height : Height} {txs : List BlockTx}

theorem Attained.dated (attained : Attained ledger) : ledger.Dated ledger.rules ledger.blocks := by
  induction attained with
  | empty rules => exact .empty rules
  | block attained height txs dated =>
    obtain ⟨blocks, after⟩ := dated.applyBlock height txs
    rw [after.ruled, after.counted]
    exact after
  | drained attained dated => exact dated.congr rfl rfl rfl rfl rfl
  | @restarted ledger snapshot attained same dated =>
    have after := dated.ofSnapshot same
    rw [after.ruled, after.counted]
    exact after

end Attained

end Ledger

end ClaimLedger
