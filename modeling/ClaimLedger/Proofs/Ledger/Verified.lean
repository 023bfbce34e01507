/-
# Verification never fails

Every name is verified right after it was settled, so what verification asks for
has to come out of settling itself. That the best competing claim is the recorded
controller does, whatever the ledger looked like before. That nothing competes
before it was created is a property of every claim row. Neither needs the indexes
to follow from the rows, and so no list of events, however contrived, makes
verification fail: the only other thing that can stop the settling of names is a
sum that leaves its word.
-/

import ClaimLedger.Proofs.Ledger.EachRow
import ClaimLedger.Proofs.Ledger.Replay
import ClaimLedger.Proofs.Maps

namespace ClaimLedger

namespace Ledger

variable {ledger before after : Ledger} {name : Bytes} {height : Height}

/-- Every row is kept under its own key. -/
abbrev Keyed : Ledger → Prop :=
  EachRow (fun hash claim => claim.hash = hash) fun outpoint support => support.outpoint = outpoint

theorem upheld_keyed (faultless : Prop) (height : Height) (txs : List BlockTx) :
    Upheld faultless height txs
      (fun hash claim => claim.hash = hash)
      fun outpoint support => support.outpoint = outpoint where
  claim_hash := id
  support_outpoint := id
  newClaim := by
    intros
    rfl
  moved := by
    intro _ _ _ _ _ _ _ _ _ here
    exact here
  newSupport := by
    intros
    rfl
  admittedClaim := id
  admittedSupport := id
  refreshed := fun _ => id

/-! ## Settling puts the best claim in control -/

/-- Only the amounts that claims show, and the marks of changed rows, differ. -/
structure Repriced (before after : Ledger) : Prop where
  claims : ∀ hash : ClaimHash,
    after.claims[hash]?.map Claim.bare = before.claims[hash]?.map Claim.bare
  rest : ∃ claims dirty, after = { before with claims, dirty }

namespace Repriced

theorem refl (ledger : Ledger) : Repriced ledger ledger :=
  ⟨fun _ => rfl, ledger.claims, ledger.dirty, rfl⟩

theorem refreshClaim (repriced : Repriced before after) (keyed : after.Keyed) (entry : NameEntry)
    (hash : ClaimHash) : Repriced before (after.refreshClaim entry height hash) := by
  rw [Ledger.refreshClaim]
  split
  · next claim live =>
    simp only
    split
    · exact repriced
    · obtain ⟨claims, dirty, rest⟩ := repriced.rest
      refine ⟨fun other => ?_, ?_⟩
      · rw [getElem?_claims_putClaim, ← repriced.claims]
        split
        · next here =>
          have key : claim.hash = hash := keyed.claims live
          have same : other = hash := here.symm.trans key
          rw [same, live]
          rfl
        · rfl
      · rw [rest]
        exact ⟨_, _, rfl⟩
  · exact repriced

/-- Who is best under a name does not depend on the amounts that claims show. -/
theorem best?_eq (repriced : Repriced before after) (name : Bytes) (height : Height) :
    (after.standing name).best? height = (before.standing name).best? height := by
  obtain ⟨claims, dirty, rest⟩ := repriced.rest
  have entry : after.entry name = before.entry name := by rw [rest]; rfl
  refine Standing.best?_congr _ height ?_ ?_
  · unfold standing claimsOf
    simp only [entry, List.map_filterMap, repriced.claims]
  · rw [rest]
    rfl

theorem controller?_eq (repriced : Repriced before after) (name : Bytes) :
    (after.standing name).controller? = (before.standing name).controller? := by
  obtain ⟨claims, dirty, rest⟩ := repriced.rest
  rw [rest]
  rfl

end Repriced

theorem repriced_refreshEffective (keyed : ledger.Keyed) (name : Bytes) (height : Height) :
    Repriced ledger (ledger.refreshEffective name height) := by
  have both : Repriced ledger (ledger.refreshEffective name height) ∧
      (ledger.refreshEffective name height).Keyed := by
    rw [refreshEffective]
    refine List.foldlRecOn (motive := fun now : Ledger => Repriced ledger now ∧ now.Keyed) _ _
      ⟨Repriced.refl ledger, keyed⟩ fun now reached hash _ => ?_
    exact ⟨reached.1.refreshClaim reached.2 _ hash,
      reached.2.settles (upheld_keyed False height []) (Settles.refl.refreshClaim _ hash)⟩
  exact both.1

/-- Letting rows in leaves every record of control alone. -/
theorem takeover?_admitPending (ledger : Ledger) (name other : Bytes) (height : Height) :
    (ledger.admitPending name height).takeover? other = ledger.takeover? other := by
  have claims (now : Ledger) (hash : ClaimHash) :
      (now.admitClaim height hash).names = now.names := by
    rw [admitClaim]
    split
    · split <;> rfl
    · rfl
  have supports (now : Ledger) (outpoint : OutPoint) :
      (now.admitSupport height outpoint).names = now.names := by
    rw [admitSupport]
    split
    · split <;> rfl
    · rfl
  have names : (ledger.admitPending name height).names = ledger.names := by
    rw [admitPending, foldl_keeps Ledger.names _ supports, foldl_keeps Ledger.names _ claims]
  rw [takeover?, takeover?, names]

/-- Bringing control up to date makes the best claim the controller. -/
theorem control_updateControl (ledger : Ledger) (name : Bytes) (height : Height) :
    ((ledger.updateControl name height).1.standing name).best? height =
      ((ledger.updateControl name height).1.standing name).controller? := by
  have control (ledger : Ledger) : (ledger.standing name).controller? =
      (ledger.takeover? name).map Takeover.claim := by
    rw [takeover?_eq_standing, Standing.controller?]
  rw [control, ← bestClaim?_eq, updateControl]
  simp only
  split
  · next best => exact best
  · split
    · next best =>
      rw [takeover?_admitPending]
      exact best
    · rw [takeover?_setTakeover, if_pos rfl, bestClaim?_eq, standing_setTakeover, if_pos rfl,
        bestClaim?_eq, Option.map_map]
      exact Option.map_id'.symm

/-- After a name was settled its best claim is its controller. -/
theorem control_settle (keyed : ledger.Keyed) (name : Bytes) (height : Height) :
    ((ledger.settle name height).1.standing name).best? height =
      ((ledger.settle name height).1.standing name).controller? := by
  by_cases used : name ∈ ledger.names
  · have repriced := repriced_refreshEffective
      (keyed.settles (upheld_keyed False height []) (Settles.refl.updateControl name)) name height
    rw [settle_of_mem used]
    simp only [standing_scheduleNext]
    rw [repriced.best?_eq, repriced.controller?_eq]
    exact control_updateControl ledger name height
  · rw [settle_of_not_mem used, standing_of_not_mem used]
    rfl

/-! ## No claim competes before it was created -/

/-- No claim competes before it was created, and every claim was created within
so many blocks. -/
abbrev Ordered (blocks : Nat) : Ledger → Prop :=
  EachRow
    (fun hash claim =>
      claim.hash = hash ∧ claim.created ≤ claim.term.activation ∧ claim.created.toNat < blocks)
    fun outpoint support => support.outpoint = outpoint

theorem Ordered.keyed {blocks : Nat} (ordered : ledger.Ordered blocks) : ledger.Keyed :=
  ordered.mono And.left id

/-- The end of a wait that is a height is no earlier than its start. -/
theorem le_start_of_startFault? (none : ledger.startFault? name height = none) :
    height ≤ height + ledger.newcomerDelay name height := by
  rw [startFault?] at none
  split at none
  · cases none
  · split at none
    · cases none
    · next exact => exact UInt32.not_lt.mp exact

theorem upheld_ordered (height : Height) (txs : List BlockTx) : Upheld True height txs
    (fun hash claim => claim.hash = hash ∧ claim.created ≤ claim.term.activation ∧
      claim.created.toNat < height.toNat + 1)
    fun outpoint support => support.outpoint = outpoint where
  claim_hash := And.left
  support_outpoint := id
  newClaim := by
    intro now _ _ _ _ _ _ _ none
    exact ⟨rfl, le_start_of_startFault? (none trivial), Nat.lt_succ_self _⟩
  moved := by
    intro _ _ _ _ _ _ _ _ _ fine
    exact fine
  newSupport := by
    intros
    rfl
  admittedClaim := by
    rintro hash claim ⟨here, early, within⟩
    refine ⟨here, ?_, within⟩
    rw [Claim.admitted, Term.activateBy]
    split
    · exact UInt32.le_iff_toNat_le.mpr (Nat.le_of_lt_succ within)
    · exact early
  admittedSupport := id
  refreshed := fun _ => id

/-- A name that was just settled passes verification. -/
theorem verify_settle (ordered : ledger.Ordered (height.toNat + 1)) (name : Bytes) :
    (ledger.settle name height).1.verify name height = .ok () := by
  have settled := ordered.settle (upheld_ordered height []) name
  apply verify_of_control (Ordered.keyed settled).claims (control_settle ordered.keyed name height)
  intro claim member
  obtain ⟨hash, _, live⟩ := List.mem_filterMap.mp member
  exact (settled.claims live).2.1

/-! ## What can stop a block -/

section Refusal

variable {faultless : Prop} {txs : List BlockTx} {failure : SyncError}
variable {P : ClaimHash → Claim → Prop} {Q : OutPoint → Support → Prop}

/-- Nothing but a sum that leaves its word stops the settling of names. It stops
there with rows of which everything holds that the block upholds. -/
theorem error_of_settleAll (ordered : ledger.Ordered (height.toNat + 1))
    (upheld : Upheld faultless height txs P Q) (rows : EachRow P Q ledger) {names : List Bytes}
    (stopped : settleAll height names ledger = (after, .error failure)) :
    failure = .number .amountOverflow ∧
      ∃ now name, EachRow P Q now ∧ now.amountsFit name height = false := by
  induction names generalizing ledger with
  | nil => cases stopped
  | cons name more ih =>
    have settled := ordered.settle (upheld_ordered height []) name
    have rows' := rows.settle upheld name
    rw [settleAll] at stopped
    simp only [verify_settle ordered] at stopped
    split at stopped
    · next overflow =>
      cases stopped
      exact ⟨rfl, _, name, rows', by simpa using overflow⟩
    · cases result : settleAll height more ((ledger.settle name height).1.prune name) with
      | mk last answer =>
        rw [result] at stopped
        cases answer with
        | ok changes => cases stopped
        | error reason =>
          cases stopped
          exact ih (settled.prune name) (rows'.prune name) result

/-- Why a block is not taken in, and what is left of the ledger then. -/
inductive Refused (P : ClaimHash → Claim → Prop) (Q : OutPoint → Support → Prop)
    (ledger : Ledger) (height : Height) (txs : List BlockTx) : Ledger → SyncError → Prop
  | atTop : ledger.height = some Height.top →
      Refused P Q ledger height txs ledger (.number .heightOverflow)
  | outOfOrder : ledger.height ≠ some Height.top → height ≠ Height.next ledger.height →
      Refused P Q ledger height txs ledger
        (.consistencyViolation height [] (.outOfOrder (Height.next ledger.height)))
  | missing (after : Ledger) (fault : NumberFault) :
      ((BlockWork.start ledger height).run height txs).fault = some fault →
        Refused P Q ledger height txs after (.number fault)
  | overflow (after now : Ledger) (name : Bytes) : EachRow P Q now →
      now.amountsFit name height = false →
        Refused P Q ledger height txs after (.number .amountOverflow)

/-- The blocks that were taken in so far. -/
def blocks (ledger : Ledger) : Nat :=
  ledger.height.elim 0 fun last => last.toNat + 1

theorem toNat_next_blocks (notTop : ledger.height ≠ some Height.top) :
    (Height.next ledger.height).toNat = ledger.blocks :=
  toNat_next_height notTop

/-- Between blocks no claim competes before it was created, nor was it created
later than the last block. -/
abbrev Timely (ledger : Ledger) : Prop :=
  ledger.Ordered ledger.blocks

theorem ordered_run (timely : ledger.Timely) (notTop : ledger.height ≠ some Height.top)
    (next : height = Height.next ledger.height)
    (fine : ((BlockWork.start ledger height).run height txs).fault = none) :
    ((BlockWork.start ledger height).run height txs).ledger.Ordered (height.toNat + 1) := by
  have ordered : ledger.Ordered (height.toNat + 1) := by
    refine timely.mono (fun ⟨here, early, within⟩ => ⟨here, early, ?_⟩) id
    rw [next, toNat_next_blocks notTop]
    exact Nat.lt_succ_of_lt within
  exact ordered.run (upheld_ordered height txs) fun _ => fine

/-- A block that is not taken in was out of order, or a number was missing. -/
theorem refused_of_applyBlock (timely : ledger.Timely) (upheld : Upheld True height txs P Q)
    (rows : EachRow P Q ledger)
    (stopped : ledger.applyBlock height txs = (after, .error failure)) :
    Refused P Q ledger height txs after failure := by
  rw [applyBlock] at stopped
  simp only at stopped
  split at stopped
  · next top =>
    cases stopped
    exact .atTop top
  · next notTop =>
    split at stopped
    · next gap =>
      cases stopped
      exact .outOfOrder notTop gap
    · next inOrder =>
      split at stopped
      · next fault found =>
        cases stopped
        exact .missing _ fault found
      · next fine =>
        have ordered := ordered_run timely notTop (not_not.mp inOrder) fine
        split at stopped
        · next last reason result =>
          cases stopped
          obtain ⟨rfl, now, name, rows, overflow⟩ :=
            error_of_settleAll ordered upheld (rows.run upheld fun _ => fine) result
          exact .overflow _ now name rows overflow
        · cases stopped

/-- A block that is the next one can only be refused for want of a number. -/
theorem isNumeric_of_applyBlock (timely : ledger.Timely) (inOrder : height.toNat = ledger.blocks)
    (stopped : (ledger.applyBlock height txs).2 = .error failure) : failure.isNumeric = true := by
  cases outcome : ledger.applyBlock height txs with
  | mk after answer =>
    rw [outcome] at stopped
    cases stopped
    cases refused_of_applyBlock timely (upheld_keyed True height txs) (Ordered.keyed timely)
      outcome with
    | atTop top => rfl
    | outOfOrder notTop gap =>
      exact absurd (UInt32.toNat_inj.mp (inOrder.trans (toNat_next_blocks notTop).symm)) gap
    | missing _ fault found => rfl
    | overflow _ now name rows overflow => rfl

/-- A block keeps the order. -/
theorem Timely.applyBlock (timely : ledger.Timely) {summary : BlockSummary}
    (done : ledger.applyBlock height txs = (after, .ok summary)) : after.Timely := by
  obtain ⟨notTop, next, fine, settled, result, rfl⟩ := applyBlock_ok done
  have ordered := (ordered_run timely notTop next fine).settleAll (upheld_ordered height txs)
    ((BlockWork.start ledger height).run height txs).touched.toList
  rw [result] at ordered
  exact ordered.congr rfl rfl

end Refusal

end Ledger

end ClaimLedger
