/-
# The fate of a claim in a block

Read in order, a transaction that spends the output of a claim either carries
the claim on to its first update for it or ends it. `Claim.fate` follows one
claim through the transactions of a block in this way. The phases of a block
get there differently: they apply every update that fits, and look at the end
whether the last output of the claim is spent. Where every output is spent at
most once, and only by a later transaction than the one that produces it, both
come to the same.
-/

import ClaimLedger.Proofs.Ledger.Phases

namespace ClaimLedger

/-- Where an event would move a claim, if it updates that claim under its
name. -/
def TxEvent.carriesOn? (claim : Claim) : TxEvent → Option (OutPoint × Amount × Bytes)
  | update outpoint name hash amount owner =>
    if hash = claim.hash ∧ name = claim.name then some (outpoint, amount, owner) else none
  | _ => none

namespace BlockTx

/-- The events of a transaction, each with the transaction. -/
def ownEvents (tx : BlockTx) : List (BlockTx × TxEvent) :=
  tx.events.map fun event => (tx, event)

/-- Where the first update of a transaction for a claim, under the name of the
claim, would move it. -/
def successor? (tx : BlockTx) (claim : Claim) : Option (OutPoint × Amount × Bytes) :=
  tx.events.findSome? (TxEvent.carriesOn? claim)

/-- No transaction spends what it or a later one produces. -/
def Ordered : List BlockTx → Prop
  | [] => True
  | tx :: more => (∀ outpoint ∈ tx.spends, outpoint ∉ allOutputs (tx :: more)) ∧ Ordered more

instance : DecidablePred Ordered := fun txs => by
  induction txs with
  | nil => exact .isTrue trivial
  | cons tx more ih =>
    rw [Ordered]
    infer_instance

theorem allEvents_cons (tx : BlockTx) (more : List BlockTx) :
    allEvents (tx :: more) = tx.ownEvents ++ allEvents more := rfl

theorem allSpends_cons (tx : BlockTx) (more : List BlockTx) :
    allSpends (tx :: more) = tx.spends ++ allSpends more := rfl

theorem allOutputs_cons (tx : BlockTx) (more : List BlockTx) :
    allOutputs (tx :: more) = allOutputs [tx] ++ allOutputs more := by
  unfold allOutputs
  rw [allEvents_cons, List.filterMap_append]
  simp [allEvents, ownEvents]

theorem allCreated_cons (tx : BlockTx) (more : List BlockTx) :
    allCreated (tx :: more) = allCreated [tx] ++ allCreated more := by
  unfold allCreated
  rw [allEvents_cons, List.filterMap_append]
  simp [allEvents, ownEvents]

theorem mem_allOutputs_own {tx : BlockTx} {event : TxEvent} {outpoint : OutPoint}
    (listed : event ∈ tx.events) (produced : event.output? = some outpoint) :
    outpoint ∈ allOutputs [tx] :=
  List.mem_filterMap.mpr ⟨(tx, event), by simpa [allEvents] using listed, produced⟩

end BlockTx

namespace Claim

/-- What a claim keeps for good: its hash, its name, and the place where it was created. -/
def origin (claim : Claim) : ClaimHash × Bytes × Height × Position :=
  (claim.hash, claim.name, claim.created, claim.position)

variable (rules : Rules) (height : Height)

/-- What a transaction makes of a claim. -/
def after (tx : BlockTx) (claim : Claim) : Option Claim :=
  if tx.spends.contains claim.outpoint then
    if claim.term.isExpiredAt height then none
    else (tx.successor? claim).map fun (outpoint, amount, owner) =>
      claim.moved rules height outpoint amount owner
  else some claim

/-- What the transactions of a block make of a claim, one after the other. -/
def fate : List BlockTx → Claim → Option Claim
  | [], claim => some claim
  | tx :: more, claim => (claim.after rules height tx).bind (fate more)

/-- What an event makes of a claim in the phase of the updates. -/
def updatedBy (claim : Claim) : BlockTx × TxEvent → Claim
  | (tx, .update outpoint name hash amount owner) =>
    if hash = claim.hash ∧
        ¬ (claim.name ≠ name ∨ claim.term.isExpiredAt height ∨
          ¬ tx.spends.contains claim.outpoint) then
      claim.moved rules height outpoint amount owner
    else claim
  | _ => claim

variable {rules : Rules} {height : Height} {tx : BlockTx} {claim : Claim}

theorem updatedBy_of_not_spent {event : BlockTx × TxEvent}
    (kept : claim.outpoint ∉ event.1.spends) : claim.updatedBy rules height event = claim := by
  unfold updatedBy
  split
  · next tx outpoint name hash amount owner =>
    rw [if_neg]
    rintro ⟨-, accepted⟩
    exact accepted (.inr (.inr (by simpa using kept)))
  · rfl

/-- Updates of transactions that do not spend the output of a claim do not move
it. -/
theorem foldl_updatedBy_of_not_spent {events : List (BlockTx × TxEvent)}
    (kept : ∀ event ∈ events, claim.outpoint ∉ event.1.spends) :
    events.foldl (updatedBy rules height) claim = claim :=
  List.foldlRecOn (motive := fun now => now = claim) _ _ rfl fun now same event listed => by
    rw [same]
    exact updatedBy_of_not_spent (kept event listed)

/-- No update revives an expired claim. -/
theorem foldl_updatedBy_of_isExpiredAt (expired : claim.term.isExpiredAt height = true)
    (events : List (BlockTx × TxEvent)) :
    events.foldl (updatedBy rules height) claim = claim := by
  refine List.foldlRecOn (motive := fun now => now = claim) _ _ rfl fun now same event _ => ?_
  rw [same, updatedBy.eq_def]
  split
  · rw [if_neg]
    rintro ⟨-, accepted⟩
    exact accepted (.inr (.inl expired))
  · rfl

/-- An update moves a claim to an output and renews it; it changes neither its origin nor when
it starts to compete. -/
theorem updatedBy_keeps (rules : Rules) (height : Height) (claim : Claim)
    (event : BlockTx × TxEvent) :
    (claim.updatedBy rules height event).origin = claim.origin ∧
      (claim.updatedBy rules height event).term.activation = claim.term.activation := by
  unfold updatedBy
  split
  · split <;> exact ⟨rfl, rfl⟩
  · exact ⟨rfl, rfl⟩

theorem foldl_updatedBy_keeps (rules : Rules) (height : Height) (claim : Claim)
    (events : List (BlockTx × TxEvent)) :
    (events.foldl (updatedBy rules height) claim).origin = claim.origin ∧
      (events.foldl (updatedBy rules height) claim).term.activation = claim.term.activation :=
  List.foldlRecOn
    (motive := fun now : Claim =>
      now.origin = claim.origin ∧ now.term.activation = claim.term.activation)
    _ _ ⟨rfl, rfl⟩ fun now kept event _ =>
      ⟨(updatedBy_keeps rules height now event).1.trans kept.1,
        (updatedBy_keeps rules height now event).2.trans kept.2⟩

/-- An update moves a claim to the output that it produces, or not at all. -/
theorem updatedBy_outpoint (rules : Rules) (height : Height) (claim : Claim)
    (event : BlockTx × TxEvent) :
    claim.updatedBy rules height event = claim ∨
      event.2.output? = some (claim.updatedBy rules height event).outpoint := by
  unfold updatedBy
  split
  · split
    · exact .inr rfl
    · exact .inl rfl
  · exact .inl rfl

theorem foldl_updatedBy_outpoint (rules : Rules) (height : Height) (claim : Claim)
    (events : List (BlockTx × TxEvent)) :
    (events.foldl (updatedBy rules height) claim).outpoint = claim.outpoint ∨
      (events.foldl (updatedBy rules height) claim).outpoint ∈
        events.filterMap fun event => event.2.output? := by
  induction events generalizing claim with
  | nil => exact .inl rfl
  | cons event more ih =>
    rw [List.foldl_cons]
    have later : more.filterMap (fun event => event.2.output?) ⊆
        (event :: more).filterMap fun event => event.2.output? := by
      intro outpoint listed
      obtain ⟨other, member, produced⟩ := List.mem_filterMap.mp listed
      exact List.mem_filterMap.mpr ⟨other, List.mem_cons_of_mem _ member, produced⟩
    rcases ih (claim.updatedBy rules height event) with same | moved
    · rcases updatedBy_outpoint rules height claim event with unmoved | produced
      · rw [same, unmoved]
        exact .inl rfl
      · rw [same]
        exact .inr (List.mem_filterMap.mpr ⟨event, List.mem_cons_self, produced⟩)
    · exact .inr (later moved)

/-- A claim that its transaction may carry on goes to the first update for it,
and further updates in the same transaction leave it there. -/
theorem foldl_updatedBy_of_spent (spent : claim.outpoint ∈ tx.spends)
    (unexpired : ¬ claim.term.isExpiredAt height = true) {events : List TxEvent}
    (own : ∀ event ∈ events, ∀ outpoint, event.output? = some outpoint →
      outpoint ∉ tx.spends) :
    (events.map fun event => (tx, event)).foldl (updatedBy rules height) claim =
      ((events.findSome? (TxEvent.carriesOn? claim)).map fun (outpoint, amount, owner) =>
        claim.moved rules height outpoint amount owner).getD claim := by
  induction events with
  | nil => rfl
  | cons event more ih =>
    have ih := ih fun other listed => own other (List.mem_cons_of_mem _ listed)
    rw [List.map_cons, List.foldl_cons, List.findSome?_cons]
    cases found : event.carriesOn? claim with
    | none =>
      have unmoved : claim.updatedBy rules height (tx, event) = claim := by
        unfold updatedBy
        split
        · next same =>
          cases same
          rw [if_neg]
          rintro ⟨isHash, accepted⟩
          have named := not_not.mp fun different => accepted (.inl different)
          rw [TxEvent.carriesOn?, if_pos ⟨isHash, named.symm⟩] at found
          cases found
        · rfl
      rw [unmoved]
      exact ih
    | some target =>
      obtain ⟨outpoint, amount, owner⟩ := target
      cases event with
      | update produced name hash value script =>
        rw [TxEvent.carriesOn?] at found
        split at found
        · next fits =>
          cases found
          have moved : claim.updatedBy rules height
              (tx, .update outpoint name hash amount owner) =
                claim.moved rules height outpoint amount owner := by
            have accepted : ¬ (claim.name ≠ name ∨ claim.term.isExpiredAt height = true ∨
                ¬ tx.spends.contains claim.outpoint = true) := by
              rintro (different | expired | kept)
              · exact different fits.2.symm
              · exact unexpired expired
              · exact kept (List.contains_iff_mem.mpr spent)
            rw [updatedBy, if_pos ⟨fits.1, accepted⟩]
          rw [moved]
          apply foldl_updatedBy_of_not_spent
          intro other listed
          obtain ⟨_, _, rfl⟩ := List.mem_map.mp listed
          exact own _ List.mem_cons_self outpoint rfl
        · cases found
      | spend produced => cases found
      | create produced name hash value script => cases found
      | support produced name hash value => cases found

/-- The updates of one transaction make of a claim what the transaction makes of
it, and leave alone a claim that the transaction ends. -/
theorem foldl_updatedBy_ownEvents
    (own : ∀ outpoint ∈ tx.spends, outpoint ∉ BlockTx.allOutputs [tx]) :
    tx.ownEvents.foldl (updatedBy rules height) claim =
      (claim.after rules height tx).getD claim := by
  rw [after]
  by_cases spent : claim.outpoint ∈ tx.spends
  · rw [if_pos (List.contains_iff_mem.mpr spent)]
    by_cases expired : claim.term.isExpiredAt height = true
    · rw [if_pos expired]
      apply List.foldlRecOn (motive := fun now => now = claim) _ _ rfl
      intro now same event _
      rw [same]
      unfold updatedBy
      split
      · exact if_neg fun accepted => accepted.2 (.inr (.inl expired))
      · rfl
    · rw [if_neg expired]
      apply foldl_updatedBy_of_spent spent expired
      intro event listed outpoint produced spends
      exact own outpoint spends (BlockTx.mem_allOutputs_own listed produced)
  · rw [if_neg (mt List.contains_iff_mem.mp spent)]
    apply foldl_updatedBy_of_not_spent
    intro event listed
    obtain ⟨_, _, rfl⟩ := List.mem_map.mp listed
    exact spent

/-! ## A whole block -/

/-- A claim that a transaction carries on is where it was, if the transaction
leaves its output alone, and else in an output of the transaction. -/
theorem after_eq_some {moved : Claim} (carried : claim.after rules height tx = some moved) :
    claim.outpoint ∉ tx.spends ∧ moved = claim ∨ moved.outpoint ∈ BlockTx.allOutputs [tx] := by
  unfold after at carried
  split at carried
  · split at carried
    · cases carried
    · obtain ⟨⟨outpoint, amount, owner⟩, found, rfl⟩ := Option.map_eq_some_iff.mp carried
      obtain ⟨event, listed, goes⟩ := List.exists_of_findSome?_eq_some found
      refine .inr (BlockTx.mem_allOutputs_own listed ?_)
      unfold TxEvent.carriesOn? at goes
      split at goes
      · split at goes
        · cases goes
          rfl
        · cases goes
      · cases goes
  · next kept =>
    cases carried
    exact .inl ⟨mt List.contains_iff_mem.mpr kept, rfl⟩

theorem after_of_not_spent (kept : claim.outpoint ∉ tx.spends) :
    claim.after rules height tx = some claim :=
  if_neg (mt List.contains_iff_mem.mp kept)

/-- The phases come to the same as reading the transactions in order: every
update that fits is applied, and a claim ends whose last output is spent. -/
theorem fate_eq {txs : List BlockTx} (ordered : BlockTx.Ordered txs)
    (once : (BlockTx.allSpends txs).Nodup) (claim : Claim) :
    claim.fate rules height txs =
      if ((BlockTx.allEvents txs).foldl (updatedBy rules height) claim).outpoint ∈
        BlockTx.allSpends txs then none
      else some ((BlockTx.allEvents txs).foldl (updatedBy rules height) claim) := by
  induction txs generalizing claim with
  | nil => rfl
  | cons tx more ih =>
    obtain ⟨own, ordered⟩ := ordered
    rw [BlockTx.allSpends_cons] at once ⊢
    obtain ⟨-, once, apart⟩ := List.nodup_append.mp once
    have ownOutputs : ∀ outpoint ∈ tx.spends, outpoint ∉ BlockTx.allOutputs [tx] := by
      intro outpoint spends produced
      apply own outpoint spends
      rw [BlockTx.allOutputs_cons]
      exact List.mem_append_left _ produced
    have laterOutputs : ∀ outpoint ∈ tx.spends, outpoint ∉ BlockTx.allOutputs more := by
      intro outpoint spends produced
      apply own outpoint spends
      rw [BlockTx.allOutputs_cons]
      exact List.mem_append_right _ produced
    rw [BlockTx.allEvents_cons, List.foldl_append, foldl_updatedBy_ownEvents ownOutputs, fate]
    cases carried : claim.after rules height tx with
    | none =>
      -- the transaction spends the claim, so no later one does
      have spent : claim.outpoint ∈ tx.spends := by
        by_contra kept
        rw [after_of_not_spent kept] at carried
        cases carried
      rw [Option.getD_none, foldl_updatedBy_of_not_spent, Option.bind_none, if_pos]
      · exact List.mem_append_left _ spent
      · intro event listed spends
        obtain ⟨tx', isLater, own'⟩ := List.mem_flatMap.mp listed
        obtain ⟨_, _, rfl⟩ := List.mem_map.mp own'
        exact apart claim.outpoint spent claim.outpoint
          (List.mem_flatMap.mpr ⟨tx', isLater, spends⟩) rfl
    | some moved =>
      rw [Option.getD_some, Option.bind_some, ih ordered once]
      have kept : ((BlockTx.allEvents more).foldl (updatedBy rules height) moved).outpoint ∉
          tx.spends := by
        intro spends
        rcases foldl_updatedBy_outpoint rules height moved (BlockTx.allEvents more) with
          same | produced
        · rw [same] at spends
          rcases after_eq_some carried with ⟨unspent, rfl⟩ | produced
          · exact unspent spends
          · exact ownOutputs _ spends produced
        · exact laterOutputs _ spends produced
      simp only [List.mem_append, kept, false_or]

/-- If no transaction that spends the output of a claim also updates the claim,
the claim stays where it is. -/
theorem foldl_updatedBy_of_not_carriesOn {txs : List BlockTx}
    (ended : ¬ BlockTx.carriesOn txs claim.hash claim.outpoint = true) :
    (BlockTx.allEvents txs).foldl (updatedBy rules height) claim = claim := by
  refine List.foldlRecOn (motive := fun now => now = claim) _ _ rfl
    fun now same event listed => ?_
  rw [same]
  unfold updatedBy
  split
  · next tx outpoint name hash amount owner =>
    rw [if_neg]
    rintro ⟨isHash, accepted⟩
    apply ended
    obtain ⟨tx', isTx, own⟩ := List.mem_flatMap.mp listed
    obtain ⟨event, isEvent, same⟩ := List.mem_map.mp own
    cases same
    refine List.any_eq_true.mpr ⟨tx, isTx, ?_⟩
    rw [Bool.and_eq_true]
    constructor
    · exact List.any_eq_true.mpr ⟨_, isEvent, beq_iff_eq.mpr isHash⟩
    · by_contra kept
      exact accepted (.inr (.inr kept))
  · rfl

end Claim

end ClaimLedger
