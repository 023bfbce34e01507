/-
# What a block may do to a ledger

A block works on a ledger by a handful of changes: a claim or a support comes in, moves or
goes, settling lets a row in early, brings an amount up to date or hands control over, and the
schedule, the names in use and the height follow. `Change` is one of these, and every block is
a run of them, whatever its events are and whether or not it is accepted. So what each change
keeps, every block keeps.

Unlike the edits of a block on a sound ledger, a change asks nothing of the indexes, and it
covers settling as well.
-/

import Mathlib.Logic.Relation
import ClaimLedger.Ledger.Lemmas
import ClaimLedger.Proofs.Ledger.Phases

namespace ClaimLedger

namespace Ledger

open BlockWork (moveClaim)

/-! ## Changes of rows leave control alone -/

section Control

variable {ledger : Ledger}

theorem takeover?_editEntry (edit : NameEntry → NameEntry)
    (keeps : ∀ entry, (edit entry).takeover = entry.takeover) (name other : Bytes) :
    (ledger.editEntry name edit).takeover? other = ledger.takeover? other := by
  rw [takeover?_eq_entry, takeover?_eq_entry, entry_editEntry]
  by_cases here : name = other
  · rw [if_pos here, keeps, here]
  · rw [if_neg here]

theorem takeover?_editUsedEntry (edit : NameEntry → NameEntry)
    (keeps : ∀ entry, (edit entry).takeover = entry.takeover) (name other : Bytes) :
    (ledger.editUsedEntry name edit).takeover? other = ledger.takeover? other := by
  rw [takeover?, takeover?, getElem?_names_editUsedEntry]
  by_cases here : name = other
  · rw [if_pos here, here]
    cases ledger.names[other]? with
    | none => rfl
    | some entry => exact keeps entry
  · rw [if_neg here]

variable (claim : Claim) (support : Support) (name : Bytes)

theorem takeover?_addClaim : (ledger.addClaim claim).takeover? name = ledger.takeover? name :=
  takeover?_editEntry
    (fun entry => { entry with claims := entry.claims.insert claim.hash })
    (fun _ => rfl) claim.name name

theorem takeover?_addSupport :
    (ledger.addSupport support).takeover? name = ledger.takeover? name :=
  takeover?_editEntry
    (fun entry => { entry with supports := entry.supports.insert support.outpoint })
    (fun _ => rfl) support.name name

theorem takeover?_removeClaim :
    (ledger.removeClaim claim).takeover? name = ledger.takeover? name :=
  takeover?_editUsedEntry
    (fun entry => { entry with claims := entry.claims.erase claim.hash })
    (fun _ => rfl) claim.name name

theorem takeover?_removeSupport :
    (ledger.removeSupport support).takeover? name = ledger.takeover? name :=
  takeover?_editUsedEntry
    (fun entry => { entry with supports := entry.supports.erase support.outpoint })
    (fun _ => rfl) support.name name

end Control

/-! ## One change -/

/-- One change of a block at a height. -/
inductive Change (height : Height) (txs : List BlockTx) : Ledger → Ledger → Prop
  /-- The schedule, the names in use or the height change, which no row shows. -/
  | unseen {before after : Ledger}
      (claims : after.claims = before.claims) (supports : after.supports = before.supports)
      (dirty : after.dirty = before.dirty)
      (takeovers : ∀ name, after.takeover? name = before.takeover? name) :
      Change height txs before after
  | addClaim {ledger : Ledger} {tx : BlockTx} {outpoint : OutPoint} {name : Bytes}
      {hash : ClaimHash} {amount : Amount} {owner : Bytes}
      (listed : (tx, .create outpoint name hash amount owner) ∈ BlockTx.allEvents txs) :
      Change height txs ledger
        (ledger.addClaim (ledger.newClaim height tx.index outpoint name hash amount owner))
  | moveClaim {ledger : Ledger} {hash : ClaimHash} {claim : Claim} (outpoint : OutPoint)
      (amount : Amount) (owner : Bytes) (live : ledger.claims[hash]? = some claim) :
      Change height txs ledger (moveClaim ledger height claim outpoint amount owner)
  | removeClaim (ledger : Ledger) (claim : Claim) :
      Change height txs ledger (ledger.removeClaim claim)
  | addSupport {ledger : Ledger} {tx : BlockTx} {outpoint : OutPoint} {name : Bytes}
      {hash : ClaimHash} {amount : Amount}
      (listed : (tx, .support outpoint name hash amount) ∈ BlockTx.allEvents txs) :
      Change height txs ledger
        (ledger.addSupport (ledger.newSupport height outpoint name hash amount))
  | removeSupport (ledger : Ledger) (support : Support) :
      Change height txs ledger (ledger.removeSupport support)
  | admitClaim {ledger : Ledger} {hash : ClaimHash} {claim : Claim}
      (live : ledger.claims[hash]? = some claim) :
      Change height txs ledger (ledger.putClaim (claim.admitted height))
  | admitSupport {ledger : Ledger} {outpoint : OutPoint} {support : Support}
      (live : ledger.supports[outpoint]? = some support) :
      Change height txs ledger (ledger.putSupport (support.admitted height))
  | refreshClaim {ledger : Ledger} {hash : ClaimHash} {claim : Claim} (effective : Amount)
      (live : ledger.claims[hash]? = some claim) :
      Change height txs ledger (ledger.putClaim { claim with effective })
  | setTakeover (ledger : Ledger) (name : Bytes) (takeover : Option Takeover) :
      Change height txs ledger (ledger.setTakeover name takeover)

/-! ## Settling -/

/-- One change that settling names at a height makes. -/
inductive Settling (height : Height) : Ledger → Ledger → Prop
  /-- The schedule or the names in use change, which no row shows. -/
  | unseen {before after : Ledger}
      (claims : after.claims = before.claims) (supports : after.supports = before.supports)
      (dirty : after.dirty = before.dirty)
      (takeovers : ∀ name, after.takeover? name = before.takeover? name) :
      Settling height before after
  | admitClaim {ledger : Ledger} {hash : ClaimHash} {claim : Claim}
      (live : ledger.claims[hash]? = some claim) :
      Settling height ledger (ledger.putClaim (claim.admitted height))
  | admitSupport {ledger : Ledger} {outpoint : OutPoint} {support : Support}
      (live : ledger.supports[outpoint]? = some support) :
      Settling height ledger (ledger.putSupport (support.admitted height))
  | refreshClaim {ledger : Ledger} {hash : ClaimHash} {claim : Claim} (effective : Amount)
      (live : ledger.claims[hash]? = some claim) :
      Settling height ledger (ledger.putClaim { claim with effective })
  | setTakeover (ledger : Ledger) (name : Bytes) (takeover : Option Takeover) :
      Settling height ledger (ledger.setTakeover name takeover)

theorem Settling.change {height : Height} {before after : Ledger}
    (settling : Settling height before after) (txs : List BlockTx) :
    Change height txs before after := by
  cases settling with
  | unseen claims supports dirty takeovers => exact .unseen claims supports dirty takeovers
  | admitClaim live => exact .admitClaim live
  | admitSupport live => exact .admitSupport live
  | refreshClaim effective live => exact .refreshClaim effective live
  | setTakeover name takeover => exact .setTakeover before name takeover

/-- The second ledger comes from the first by settling names. -/
abbrev Settles (height : Height) : Ledger → Ledger → Prop :=
  Relation.ReflTransGen (Settling height)

namespace Settles

variable {height : Height} {base ledger after : Ledger}

theorem refl : Settles height base base :=
  Relation.ReflTransGen.refl

/-- What every change keeps is kept by a run of them. -/
theorem keep {P : Ledger → Prop} (settles : Settles height base ledger)
    (step : ∀ {before after : Ledger}, Settling height before after → P before → P after)
    (start : P base) : P ledger := by
  induction settles with
  | refl => exact start
  | tail _ last ih => exact step last ih

theorem unseen (settles : Settles height base ledger) (claims : after.claims = ledger.claims)
    (supports : after.supports = ledger.supports) (dirty : after.dirty = ledger.dirty)
    (takeovers : ∀ name, after.takeover? name = ledger.takeover? name) :
    Settles height base after :=
  settles.tail (.unseen claims supports dirty takeovers)

theorem admitClaim (settles : Settles height base ledger) (hash : ClaimHash) :
    Settles height base (ledger.admitClaim height hash) := by
  rw [Ledger.admitClaim]
  split
  · next claim live =>
    split
    · exact settles.tail (.admitClaim live)
    · exact settles
  · exact settles

theorem admitSupport (settles : Settles height base ledger) (outpoint : OutPoint) :
    Settles height base (ledger.admitSupport height outpoint) := by
  rw [Ledger.admitSupport]
  split
  · next support live =>
    split
    · exact settles.tail (.admitSupport live)
    · exact settles
  · exact settles

theorem admitPending (settles : Settles height base ledger) (name : Bytes) :
    Settles height base (ledger.admitPending name height) := by
  rw [Ledger.admitPending]
  apply List.foldlRecOn
  · apply List.foldlRecOn
    · exact settles
    · exact fun _ settles hash _ => settles.admitClaim hash
  · exact fun _ settles outpoint _ => settles.admitSupport outpoint

theorem updateControl (settles : Settles height base ledger) (name : Bytes) :
    Settles height base (ledger.updateControl name height).1 := by
  rw [Ledger.updateControl]
  simp only
  split
  · exact settles
  · split
    · exact settles.admitPending name
    · exact (settles.admitPending name).tail (.setTakeover _ name _)

theorem refreshClaim (settles : Settles height base ledger) (entry : NameEntry)
    (hash : ClaimHash) : Settles height base (ledger.refreshClaim entry height hash) := by
  rw [Ledger.refreshClaim]
  split
  · next claim live =>
    simp only
    split
    · exact settles
    · exact settles.tail (.refreshClaim _ live)
  · exact settles

theorem refreshEffective (settles : Settles height base ledger) (name : Bytes) :
    Settles height base (ledger.refreshEffective name height) := by
  rw [Ledger.refreshEffective]
  exact List.foldlRecOn (motive := fun now : Ledger => Settles height base now) _ _ settles
    fun _ settles hash _ => settles.refreshClaim _ hash

theorem scheduleNext (settles : Settles height base ledger) (name : Bytes) :
    Settles height base (ledger.scheduleNext name height) := by
  rw [Ledger.scheduleNext]
  split
  · exact settles
  · exact settles.unseen rfl rfl rfl fun _ => rfl

theorem settle (settles : Settles height base ledger) (name : Bytes) :
    Settles height base (ledger.settle name height).1 := by
  by_cases used : name ∈ ledger.names
  · rw [settle_of_mem used]
    dsimp only
    exact ((settles.updateControl name).refreshEffective name).scheduleNext name
  · rw [settle_of_not_mem used]
    exact settles

theorem prune (settles : Settles height base ledger) (name : Bytes) :
    Settles height base (ledger.prune name) := by
  obtain ⟨names, pruned⟩ := ledger.rest_prune name
  apply settles.unseen (ledger.claims_prune name) (ledger.supports_prune name)
  · rw [pruned]
  · intro other
    rw [takeover?_eq_entry, takeover?_eq_entry, entry_prune]

theorem settleAll (settles : Settles height base ledger) (names : List Bytes) :
    Settles height base (Ledger.settleAll height names ledger).1 := by
  induction names generalizing ledger with
  | nil => exact settles
  | cons name more ih =>
    rw [Ledger.settleAll]
    simp only
    split
    · exact settles.settle name
    · split
      · exact settles.settle name
      · exact ih ((settles.settle name).prune name)

end Settles

/-! ## All changes of a block -/

/-- The second ledger comes from the first by changes of a block. -/
abbrev Changed (height : Height) (txs : List BlockTx) : Ledger → Ledger → Prop :=
  Relation.ReflTransGen (Change height txs)

namespace Changed

variable {height : Height} {txs : List BlockTx} {base ledger after : Ledger}

/-- What every change keeps is kept by a run of them. -/
theorem keep {P : Ledger → Prop} (changed : Changed height txs base ledger)
    (step : ∀ {before after : Ledger}, Change height txs before after → P before → P after)
    (start : P base) : P ledger := by
  induction changed with
  | refl => exact start
  | tail _ last ih => exact step last ih

theorem unseen (changed : Changed height txs base ledger) (claims : after.claims = ledger.claims)
    (supports : after.supports = ledger.supports) (dirty : after.dirty = ledger.dirty)
    (takeovers : ∀ name, after.takeover? name = ledger.takeover? name) :
    Changed height txs base after :=
  changed.tail (.unseen claims supports dirty takeovers)

/-- Settling names makes changes. -/
theorem settleAll (changed : Changed height txs base ledger) (names : List Bytes) :
    Changed height txs base (Ledger.settleAll height names ledger).1 :=
  changed.trans (Relation.ReflTransGen.mono (fun _ _ settling => settling.change txs) _ _
    (Settles.refl.settleAll names))

/-! ## The phases of a block -/

variable {work : BlockWork} {event : BlockTx × TxEvent}

theorem abandon (changed : Changed height txs base work.ledger) (hash : ClaimHash) :
    Changed height txs base (work.abandon hash).ledger := by
  rw [BlockWork.abandon]
  split
  · exact changed
  · exact changed.tail (.removeClaim _ _)

theorem spend (changed : Changed height txs base work.ledger) (outpoint : OutPoint) :
    Changed height txs base (work.spend txs outpoint).ledger := by
  rw [BlockWork.spend]
  split
  · exact changed.tail (.removeSupport _ _)
  · split
    · exact changed
    · split
      · exact changed
      · exact changed.abandon _

theorem create (changed : Changed height txs base work.ledger)
    (listed : event ∈ BlockTx.allEvents txs) :
    Changed height txs base (work.create height event).ledger := by
  rw [BlockWork.create.eq_def]
  split
  · split
    · exact changed
    · exact changed.tail (.addClaim listed)
  · exact changed

theorem update (changed : Changed height txs base work.ledger) :
    Changed height txs base (work.update height event).ledger := by
  rw [BlockWork.update.eq_def]
  split
  · split
    · exact changed
    · next claim live =>
      split
      · exact changed
      · exact changed.tail (.moveClaim _ _ _ live)
  · exact changed

theorem recheckClaim (changed : Changed height txs base work.ledger)
    (spent : Std.ExtTreeSet OutPoint) (hash : ClaimHash) :
    Changed height txs base (work.recheckClaim spent hash).ledger := by
  rw [BlockWork.recheckClaim]
  split
  · exact changed
  · split
    · exact changed.abandon hash
    · exact changed

theorem support (changed : Changed height txs base work.ledger)
    (spent : Std.ExtTreeSet OutPoint) (listed : event ∈ BlockTx.allEvents txs) :
    Changed height txs base (work.support height spent event).ledger := by
  rw [BlockWork.support.eq_def]
  split
  · split
    · exact changed
    · exact changed.tail (.addSupport listed)
  · exact changed

/-- The phases of a block are changes. -/
theorem run (changed : Changed height txs base work.ledger) :
    Changed height txs base (work.run height txs).ledger := by
  rw [BlockWork.run]
  refine List.foldlRecOn (motive := fun now : BlockWork => Changed height txs base now.ledger)
    _ _ ?_ fun _ changed event listed => changed.support _ listed
  refine List.foldlRecOn (motive := fun now : BlockWork => Changed height txs base now.ledger)
    _ _ ?_ fun _ changed hash _ => changed.recheckClaim _ hash
  refine List.foldlRecOn (motive := fun now : BlockWork => Changed height txs base now.ledger)
    _ _ ?_ fun _ changed event _ => changed.update
  refine List.foldlRecOn (motive := fun now : BlockWork => Changed height txs base now.ledger)
    _ _ ?_ fun _ changed event listed => changed.create listed
  exact List.foldlRecOn (motive := fun now : BlockWork => Changed height txs base now.ledger)
    _ _ changed fun _ changed outpoint _ => changed.spend outpoint

end Changed

/-- Every block is a run of changes, whether or not it is accepted. -/
theorem changed_applyBlock (ledger : Ledger) (height : Height) (txs : List BlockTx) :
    Changed height txs ledger (ledger.applyBlock height txs).1 := by
  have started : Changed height txs ledger (BlockWork.start ledger height).ledger :=
    Relation.ReflTransGen.refl.tail (.unseen rfl rfl rfl fun _ => rfl)
  have ran := started.run
  have settled := ran.settleAll
    ((BlockWork.start ledger height).run height txs).touched.toList
  rw [applyBlock]
  split
  · exact .refl
  · simp only
    split
    · exact .refl
    · split
      · exact ran
      · split
        · next after failure result =>
          rw [result] at settled
          exact settled
        · next after takeovers result =>
          rw [result] at settled
          exact settled.unseen rfl rfl rfl fun _ => rfl

end Ledger

end ClaimLedger
