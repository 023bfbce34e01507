/-
# Ledgers that answer alike

The schedule only decides which names are looked at, and the marks of changed
rows only decide what is handed out. Nothing else reads them, so two ledgers
that differ in nothing else take every step of a block in the same way. `Alike`
relates such ledgers; `marks` says whether their marks have to be the same.
-/

import ClaimLedger.Ledger.Apply
import ClaimLedger.Proofs.Ledger.Settling

namespace ClaimLedger

namespace Ledger

/-- The ledgers differ at most in their schedules and, where `marks` does not
hold, in the marks of changed rows. -/
structure Alike (marks : Prop) (left right : Ledger) : Prop where
  rules : right.rules = left.rules
  height : right.height = left.height
  claims : right.claims = left.claims
  supports : right.supports = left.supports
  names : right.names = left.names
  holdings : right.holdings = left.holdings
  dirty : marks → right.dirty = left.dirty

/-- Two steps end with ledgers that are alike, and with the same answer. -/
structure SameOutcome {α : Type} (marks : Prop) (left right : Ledger × α) : Prop where
  ledger : Alike marks left.1 right.1
  answer : right.2 = left.2

theorem SameOutcome.of_alike {α : Type} {marks : Prop} {left right : Ledger} {answer answer' : α}
    (alike : Alike marks left right) (same : answer' = answer) :
    SameOutcome marks (left, answer) (right, answer') :=
  ⟨alike, same⟩

namespace Alike

variable {marks : Prop} {left right third : Ledger} {name : Bytes} {height : Height}

theorem refl (ledger : Ledger) : Alike marks ledger ledger :=
  ⟨rfl, rfl, rfl, rfl, rfl, rfl, fun _ => rfl⟩

theorem symm (alike : Alike marks left right) : Alike marks right left :=
  ⟨alike.rules.symm, alike.height.symm, alike.claims.symm, alike.supports.symm,
    alike.names.symm, alike.holdings.symm, fun marked => (alike.dirty marked).symm⟩

theorem trans (first : Alike marks left right) (second : Alike marks right third) :
    Alike marks left third :=
  ⟨second.rules.trans first.rules, second.height.trans first.height,
    second.claims.trans first.claims, second.supports.trans first.supports,
    second.names.trans first.names, second.holdings.trans first.holdings,
    fun marked => (second.dirty marked).trans (first.dirty marked)⟩

/-- The second ledger is the first one with another schedule and other marks. -/
theorem eq_with (alike : Alike marks left right) :
    ∃ schedule dirty, right = { left with schedule, dirty } ∧ (marks → dirty = left.dirty) := by
  obtain ⟨rules, height, claims, supports, names, holdings, dirty⟩ := alike
  obtain ⟨_, _, _, _, _, _, schedule, marked⟩ := right
  refine ⟨schedule, marked, ?_, dirty⟩
  rw [Ledger.mk.injEq]
  exact ⟨rules, height, claims, supports, names, holdings, rfl, rfl⟩

theorem of_schedule (ledger : Ledger)
    (schedule : Std.ExtTreeMap Height (Std.ExtTreeSet Bytes)) :
    Alike marks ledger { ledger with schedule } :=
  ⟨rfl, rfl, rfl, rfl, rfl, rfl, fun _ => rfl⟩

/-! ## Reading -/

theorem entry_eq (alike : Alike marks left right) (name : Bytes) :
    right.entry name = left.entry name := by
  unfold entry
  rw [alike.names]

theorem takeover?_eq (alike : Alike marks left right) (name : Bytes) :
    right.takeover? name = left.takeover? name := by
  unfold takeover?
  rw [alike.names]

theorem standing_eq (alike : Alike marks left right) (name : Bytes) :
    right.standing name = left.standing name := by
  obtain ⟨schedule, dirty, rfl, -⟩ := alike.eq_with
  rfl

theorem indexed (alike : Alike marks left right) (indexed : left.Indexed) : right.Indexed := by
  obtain ⟨schedule, dirty, rfl, -⟩ := alike.eq_with
  exact ⟨indexed.claim_hash, indexed.support_outpoint, indexed.mem_claims,
    indexed.mem_supports, indexed.holdings⟩

theorem newcomerDelay_eq (alike : Alike marks left right) (name : Bytes) (height : Height) :
    right.newcomerDelay name height = left.newcomerDelay name height := by
  obtain ⟨schedule, dirty, rfl, -⟩ := alike.eq_with
  rfl

theorem startFault?_eq (alike : Alike marks left right) (name : Bytes) (height : Height) :
    right.startFault? name height = left.startFault? name height := by
  obtain ⟨schedule, dirty, rfl, -⟩ := alike.eq_with
  rfl

theorem amountsFit_eq (alike : Alike marks left right) (name : Bytes) (height : Height) :
    right.amountsFit name height = left.amountsFit name height := by
  obtain ⟨schedule, dirty, rfl, -⟩ := alike.eq_with
  rfl

theorem verify_eq (alike : Alike marks left right) (name : Bytes) (height : Height) :
    right.verify name height = left.verify name height := by
  obtain ⟨schedule, dirty, rfl, -⟩ := alike.eq_with
  rfl

theorem bestClaim?_eq (alike : Alike marks left right) (name : Bytes) (height : Height) :
    right.bestClaim? name height = left.bestClaim? name height := by
  obtain ⟨schedule, dirty, rfl, -⟩ := alike.eq_with
  rfl

/-! ## Writing -/

theorem putClaim (alike : Alike marks left right) (claim : Claim) :
    Alike marks (left.putClaim claim) (right.putClaim claim) := by
  obtain ⟨schedule, dirty, rfl, same⟩ := alike.eq_with
  exact ⟨rfl, rfl, rfl, rfl, rfl, rfl, fun marked => by cases same marked; rfl⟩

theorem putSupport (alike : Alike marks left right) (support : Support) :
    Alike marks (left.putSupport support) (right.putSupport support) := by
  obtain ⟨schedule, dirty, rfl, same⟩ := alike.eq_with
  exact ⟨rfl, rfl, rfl, rfl, rfl, rfl, fun marked => by cases same marked; rfl⟩

theorem addClaim (alike : Alike marks left right) (claim : Claim) :
    Alike marks (left.addClaim claim) (right.addClaim claim) := by
  obtain ⟨schedule, dirty, rfl, same⟩ := alike.eq_with
  exact ⟨rfl, rfl, rfl, rfl, rfl, rfl, fun marked => by cases same marked; rfl⟩

theorem addSupport (alike : Alike marks left right) (support : Support) :
    Alike marks (left.addSupport support) (right.addSupport support) := by
  obtain ⟨schedule, dirty, rfl, same⟩ := alike.eq_with
  exact ⟨rfl, rfl, rfl, rfl, rfl, rfl, fun marked => by cases same marked; rfl⟩

theorem removeClaim (alike : Alike marks left right) (claim : Claim) :
    Alike marks (left.removeClaim claim) (right.removeClaim claim) := by
  obtain ⟨schedule, dirty, rfl, same⟩ := alike.eq_with
  exact ⟨rfl, rfl, rfl, rfl, rfl, rfl, fun marked => by cases same marked; rfl⟩

theorem removeSupport (alike : Alike marks left right) (support : Support) :
    Alike marks (left.removeSupport support) (right.removeSupport support) := by
  obtain ⟨schedule, dirty, rfl, same⟩ := alike.eq_with
  exact ⟨rfl, rfl, rfl, rfl, rfl, rfl, fun marked => by cases same marked; rfl⟩

theorem moveClaim (alike : Alike marks left right) (height : Height) (claim : Claim)
    (outpoint : OutPoint) (amount : Amount) (owner : Bytes) :
    Alike marks (BlockWork.moveClaim left height claim outpoint amount owner)
      (BlockWork.moveClaim right height claim outpoint amount owner) := by
  obtain ⟨schedule, dirty, rfl, same⟩ := alike.eq_with
  exact ⟨rfl, rfl, rfl, rfl, rfl, rfl, fun marked => by cases same marked; rfl⟩

theorem setTakeover (alike : Alike marks left right) (name : Bytes)
    (takeover : Option Takeover) :
    Alike marks (left.setTakeover name takeover) (right.setTakeover name takeover) := by
  obtain ⟨schedule, dirty, rfl, same⟩ := alike.eq_with
  exact ⟨rfl, rfl, rfl, rfl, rfl, rfl, fun marked => by cases same marked; rfl⟩

theorem prune (alike : Alike marks left right) (name : Bytes) :
    Alike marks (left.prune name) (right.prune name) := by
  unfold Ledger.prune
  rw [alike.names]
  split
  · split
    · exact { alike with names := rfl }
    · exact alike
  · exact alike

/-! ## Settling -/

theorem admitClaim (alike : Alike marks left right) (hash : ClaimHash) :
    Alike marks (left.admitClaim height hash) (right.admitClaim height hash) := by
  unfold Ledger.admitClaim
  rw [alike.claims]
  split
  · split
    · exact alike.putClaim _
    · exact alike
  · exact alike

theorem admitSupport (alike : Alike marks left right) (outpoint : OutPoint) :
    Alike marks (left.admitSupport height outpoint) (right.admitSupport height outpoint) := by
  unfold Ledger.admitSupport
  rw [alike.supports]
  split
  · split
    · exact alike.putSupport _
    · exact alike
  · exact alike

/-- Steps that keep ledgers alike do so one after the other. -/
theorem foldl {α : Type} {step step' : Ledger → α → Ledger}
    (next : ∀ {left right : Ledger}, Alike marks left right →
      ∀ item, Alike marks (step left item) (step' right item))
    (alike : Alike marks left right) (items : List α) :
    Alike marks (items.foldl step left) (items.foldl step' right) := by
  induction items generalizing left right with
  | nil => exact alike
  | cons item more ih => exact ih (next alike item)

theorem admitPending (alike : Alike marks left right) (name : Bytes) (height : Height) :
    Alike marks (left.admitPending name height) (right.admitPending name height) := by
  unfold Ledger.admitPending
  rw [alike.entry_eq]
  exact foldl admitSupport (foldl admitClaim alike _) _

theorem updateControl (alike : Alike marks left right) (name : Bytes) (height : Height) :
    SameOutcome marks (left.updateControl name height) (right.updateControl name height) := by
  have admitted := alike.admitPending name height
  unfold Ledger.updateControl
  simp only [alike.takeover?_eq, alike.bestClaim?_eq, admitted.bestClaim?_eq]
  split
  · exact ⟨alike, rfl⟩
  · split
    · exact ⟨admitted, rfl⟩
    · exact ⟨admitted.setTakeover name _, rfl⟩

theorem refreshClaim (alike : Alike marks left right) (entry : NameEntry) (height : Height)
    (hash : ClaimHash) :
    Alike marks (left.refreshClaim entry height hash)
      (right.refreshClaim entry height hash) := by
  have same (claim : Claim) :
      right.effectiveAmount entry height claim = left.effectiveAmount entry height claim := by
    obtain ⟨schedule, dirty, rfl, -⟩ := alike.eq_with
    rfl
  unfold Ledger.refreshClaim
  rw [alike.claims]
  split
  · simp only [same]
    split
    · exact alike
    · exact alike.putClaim _
  · exact alike

theorem refreshEffective (alike : Alike marks left right) (name : Bytes) (height : Height) :
    Alike marks (left.refreshEffective name height) (right.refreshEffective name height) := by
  unfold Ledger.refreshEffective
  rw [alike.entry_eq]
  exact foldl (fun alike hash => alike.refreshClaim _ height hash) alike _

/-- Putting a name on the schedule shows nowhere else. -/
theorem scheduleNext_self (ledger : Ledger) (name : Bytes) (height : Height) :
    Alike marks ledger (ledger.scheduleNext name height) := by
  unfold Ledger.scheduleNext
  simp only
  split
  · exact refl ledger
  · exact of_schedule ledger _

theorem settle (alike : Alike marks left right) (name : Bytes) (height : Height) :
    SameOutcome marks (left.settle name height) (right.settle name height) := by
  by_cases used : name ∈ left.names
  · have used' : name ∈ right.names := alike.names ▸ used
    simp only [settle_of_mem used, settle_of_mem used']
    obtain ⟨updated, same⟩ := alike.updateControl name height
    have refreshed := updated.refreshEffective name height
    exact .of_alike (((scheduleNext_self _ name height).symm.trans refreshed).trans
      (scheduleNext_self _ name height)) same
  · have unused : name ∉ right.names := alike.names ▸ used
    simp only [settle_of_not_mem used, settle_of_not_mem unused]
    exact ⟨alike, rfl⟩

/-- Settling the same names ends alike, or fails alike. -/
theorem settleAll (alike : Alike marks left right) (height : Height) (names : List Bytes) :
    SameOutcome marks (Ledger.settleAll height names left)
      (Ledger.settleAll height names right) := by
  induction names generalizing left right with
  | nil => exact ⟨alike, rfl⟩
  | cons name more ih =>
    obtain ⟨settled, same⟩ := alike.settle name height
    obtain ⟨rest, answers⟩ := ih (settled.prune name)
    rw [Ledger.settleAll, Ledger.settleAll]
    simp only [settled.amountsFit_eq, settled.verify_eq, same, answers]
    split
    · exact ⟨settled, rfl⟩
    · split
      · exact ⟨settled, rfl⟩
      · exact ⟨rest, rfl⟩

end Alike

namespace SameOutcome

variable {α : Type} {marks : Prop} {left right third : Ledger × α}

theorem refl (outcome : Ledger × α) : SameOutcome marks outcome outcome :=
  ⟨Alike.refl outcome.1, rfl⟩

theorem symm (same : SameOutcome marks left right) : SameOutcome marks right left :=
  ⟨same.ledger.symm, same.answer.symm⟩

theorem trans (first : SameOutcome marks left right) (second : SameOutcome marks right third) :
    SameOutcome marks left third :=
  ⟨first.ledger.trans second.ledger, second.answer.trans first.answer⟩

end SameOutcome

end Ledger

namespace BlockWork

open Ledger (Alike)

/-- Two blocks on their way are alike as ledgers, and have done the same. Which
names they touched is left open. -/
structure Alike (marks : Prop) (left right : BlockWork) : Prop where
  ledger : Ledger.Alike marks left.ledger right.ledger
  recheck : right.recheck = left.recheck
  tally : right.tally = left.tally
  fault : right.fault = left.fault

namespace Alike

variable {marks : Prop} {left right : BlockWork}

theorem abandon (alike : BlockWork.Alike marks left right) (hash : ClaimHash) :
    BlockWork.Alike marks (left.abandon hash) (right.abandon hash) := by
  unfold BlockWork.abandon
  rw [alike.ledger.claims]
  split
  · exact alike
  · exact ⟨alike.ledger.removeClaim _, alike.recheck, by rw [alike.tally], alike.fault⟩

theorem spend (alike : BlockWork.Alike marks left right) (txs : List BlockTx)
    (outpoint : OutPoint) :
    BlockWork.Alike marks (left.spend txs outpoint) (right.spend txs outpoint) := by
  unfold BlockWork.spend
  rw [alike.ledger.supports, alike.ledger.holdings]
  split
  · exact ⟨alike.ledger.removeSupport _, alike.recheck, by rw [alike.tally], alike.fault⟩
  · split
    · exact alike
    · split
      · exact ⟨alike.ledger, by rw [alike.recheck], alike.tally, alike.fault⟩
      · exact alike.abandon _

theorem create (alike : BlockWork.Alike marks left right) (height : Height)
    (event : BlockTx × TxEvent) :
    BlockWork.Alike marks (left.create height event) (right.create height event) := by
  unfold BlockWork.create
  split
  · rw [alike.ledger.claims]
    split
    · exact alike
    · simp only [alike.ledger.newcomerDelay_eq, alike.ledger.startFault?_eq, alike.ledger.rules]
      exact ⟨alike.ledger.addClaim _, by rw [alike.recheck], by rw [alike.tally],
        by rw [alike.fault]⟩
  · exact alike

theorem update (alike : BlockWork.Alike marks left right) (height : Height)
    (event : BlockTx × TxEvent) :
    BlockWork.Alike marks (left.update height event) (right.update height event) := by
  unfold BlockWork.update
  split
  · rw [alike.ledger.claims]
    split
    · exact alike
    · split
      · exact alike
      · exact ⟨alike.ledger.moveClaim _ _ _ _ _, by rw [alike.recheck], by rw [alike.tally],
          alike.fault⟩
  · exact alike

theorem recheckClaim (alike : BlockWork.Alike marks left right)
    (spent : Std.ExtTreeSet OutPoint) (hash : ClaimHash) :
    BlockWork.Alike marks (left.recheckClaim spent hash) (right.recheckClaim spent hash) := by
  unfold BlockWork.recheckClaim
  rw [alike.ledger.claims]
  split
  · exact alike
  · split
    · exact alike.abandon hash
    · exact alike

theorem support (alike : BlockWork.Alike marks left right) (height : Height)
    (spent : Std.ExtTreeSet OutPoint) (event : BlockTx × TxEvent) :
    BlockWork.Alike marks (left.support height spent event)
      (right.support height spent event) := by
  unfold BlockWork.support
  split
  · split
    · exact alike
    · simp only [alike.ledger.takeover?_eq, alike.ledger.newcomerDelay_eq,
        alike.ledger.startFault?_eq, alike.ledger.rules]
      exact ⟨alike.ledger.addSupport _, alike.recheck, by rw [alike.tally], by rw [alike.fault]⟩
  · exact alike

theorem foldl {α : Type} {step : BlockWork → α → BlockWork}
    (next : ∀ {left right : BlockWork}, BlockWork.Alike marks left right →
      ∀ item, BlockWork.Alike marks (step left item) (step right item))
    (alike : BlockWork.Alike marks left right) (items : List α) :
    BlockWork.Alike marks (items.foldl step left) (items.foldl step right) := by
  induction items generalizing left right with
  | nil => exact alike
  | cons item more ih => exact ih (next alike item)

/-- The phases of a block do the same to ledgers that are alike. -/
theorem run (alike : BlockWork.Alike marks left right) (height : Height) (txs : List BlockTx) :
    BlockWork.Alike marks (left.run height txs) (right.run height txs) := by
  have spent := foldl (fun alike outpoint => alike.spend txs outpoint) alike
    (BlockTx.allSpends txs)
  have created := foldl (fun alike event => alike.create height event) spent
    (BlockTx.allEvents txs)
  have updated := foldl (fun alike event => alike.update height event) created
    (BlockTx.allEvents txs)
  unfold BlockWork.run
  simp only [updated.recheck]
  exact foldl (fun alike event => alike.support height _ event)
    (foldl (fun alike hash => alike.recheckClaim _ hash) updated _) _

end Alike

theorem alike_start {marks : Prop} {left right : Ledger} (alike : Ledger.Alike marks left right)
    (height : Height) : BlockWork.Alike marks (start left height) (start right height) where
  ledger := ((Ledger.Alike.of_schedule _ _).symm.trans alike).trans
    (Ledger.Alike.of_schedule _ _)
  recheck := rfl
  tally := rfl
  fault := rfl

end BlockWork

end ClaimLedger
