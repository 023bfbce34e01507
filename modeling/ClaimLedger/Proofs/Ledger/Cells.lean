/-
# What a block does to one row

Each phase of a block treats every row on its own. For a claim hash the phases
come down to this: a live claim, or one that the block creates, goes through
the updates that fit it, and is kept if its last output is not spent. So the
row after all phases is the fate of the claim. For an output the phases take in
the supports that the block adds there, unless the output is spent.
-/

import ClaimLedger.Proofs.Ledger.Fate

namespace ClaimLedger

namespace Ledger

/-- The claim with the given hash that an event brings in. -/
def born? (ledger : Ledger) (height : Height) (hash : ClaimHash) :
    BlockTx × TxEvent → Option Claim
  | (tx, .create outpoint name claim amount owner) =>
    if claim = hash then
      some (ledger.newClaim height tx.index outpoint name claim amount owner)
    else none
  | _ => none

/-- The support in the given output that an event brings in. -/
def pledged? (ledger : Ledger) (height : Height) (outpoint : OutPoint) :
    TxEvent → Option Support
  | .support produced name claim amount =>
    if produced = outpoint then some (ledger.newSupport height produced name claim amount)
    else none
  | _ => none

section Born

variable {before : Ledger} {height : Height} {hash : ClaimHash} {claim : Claim}
variable {event : BlockTx × TxEvent} {events : List (BlockTx × TxEvent)}

/-- A claim is born of an event that creates it, in the output of the event. -/
theorem of_born?_eq_some (born : before.born? height hash event = some claim) :
    event.2.created? = some hash ∧ event.2.output? = some claim.outpoint := by
  obtain ⟨tx, event⟩ := event
  cases event with
  | create outpoint name created amount owner =>
    rw [born?] at born
    split at born
    · next same =>
      cases born
      exact ⟨congrArg some same, rfl⟩
    · cases born
  | spend outpoint => cases born
  | update outpoint name updated amount owner => cases born
  | support outpoint name supported amount => cases born

theorem findSome?_born?_eq_none
    (uncreated : hash ∉ events.filterMap fun event => event.2.created?) :
    events.findSome? (before.born? height hash) = none := by
  rw [List.findSome?_eq_none_iff]
  intro event listed
  rw [Option.eq_none_iff_forall_ne_some]
  intro claim born
  exact uncreated (List.mem_filterMap.mpr ⟨event, listed, (of_born?_eq_some born).1⟩)

theorem mem_of_findSome?_born? (born : events.findSome? (before.born? height hash) = some claim) :
    claim.outpoint ∈ events.filterMap fun event => event.2.output? := by
  obtain ⟨event, listed, born⟩ := List.exists_of_findSome?_eq_some born
  exact List.mem_filterMap.mpr ⟨event, listed, (of_born?_eq_some born).2⟩

end Born

end Ledger

namespace BlockWork

open Ledger

namespace Reached

variable {height : Height} {base : Ledger} {used : List OutPoint} {work : BlockWork}

/-! ## What newcomers get does not change within a block -/

theorem takeover?_eq (reached : Reached height base used work) (indexed : base.Indexed)
    (name : Bytes) : work.ledger.takeover? name = base.takeover? name := by
  rw [takeover?_eq_entry, reached.edits.takeover_eq (indexed_start indexed height),
    ← takeover?_eq_entry]
  rfl

theorem newcomerDelay_eq (reached : Reached height base used work) (indexed : base.Indexed)
    (name : Bytes) (at' : Height) :
    work.ledger.newcomerDelay name at' = base.newcomerDelay name at' := by
  unfold newcomerDelay
  rw [reached.takeover?_eq indexed, reached.rules_eq]

theorem newClaim_eq (reached : Reached height base used work) (indexed : base.Indexed) :
    work.ledger.newClaim height = base.newClaim height := by
  funext index outpoint name hash amount owner
  unfold newClaim
  rw [reached.newcomerDelay_eq indexed, reached.rules_eq]

theorem newSupport_eq (reached : Reached height base used work) (indexed : base.Indexed) :
    work.ledger.newSupport height = base.newSupport height := by
  funext outpoint name claim amount
  unfold newSupport controls
  rw [reached.newcomerDelay_eq indexed, reached.takeover?_eq indexed, reached.rules_eq]

end Reached

/-! ## One step and one claim -/

section Steps

variable {height : Height} {base : Ledger} {used : List OutPoint} {work : BlockWork}
variable {txs : List BlockTx} {outpoint : OutPoint} {hash other : ClaimHash}

theorem getElem?_claims_abandon
    (keyed : ∀ {hash : ClaimHash} {claim : Claim},
      work.ledger.claims[hash]? = some claim → claim.hash = hash) :
    (work.abandon hash).ledger.claims[other]? =
      if hash = other then none else work.ledger.claims[other]? := by
  rw [abandon]
  split
  · next missing =>
    split
    · next same => rw [← same, missing]
    · rfl
  · next claim live =>
    simp only [getElem?_claims_removeClaim, keyed live]

theorem getElem?_claims_spend (reached : Reached height base used work) :
    (work.spend txs outpoint).ledger.claims[hash]? =
      work.ledger.claims[hash]?.filter fun claim =>
        claim.outpoint ≠ outpoint || BlockTx.carriesOn txs hash outpoint := by
  have held (claim : Claim) (live : work.ledger.claims[hash]? = some claim)
      (sits : claim.outpoint = outpoint) : work.ledger.holdings[outpoint]? = some hash :=
    reached.indexed.holdings.mpr ⟨claim, live, sits⟩
  rw [spend]
  split
  · next support found =>
    -- an output that holds a support holds no claim
    have none := reached.grounded.apart found
    cases live : work.ledger.claims[hash]? with
    | none => exact live
    | some claim =>
      have elsewhere : claim.outpoint ≠ outpoint := fun sits => by
        rw [held claim live sits] at none
        cases none
      rw [Option.filter_some, if_pos (by simp [elsewhere])]
      exact live
  · split
    · next nothing =>
      cases live : work.ledger.claims[hash]? with
      | none => rfl
      | some claim =>
        have elsewhere : claim.outpoint ≠ outpoint := fun sits => by
          rw [held claim live sits] at nothing
          cases nothing
        rw [Option.filter_some, if_pos (by simp [elsewhere])]
    · next holder isHolder =>
      obtain ⟨row, rowLive, rowSits⟩ := reached.indexed.holdings.mp isHolder
      have filtered (claim : Claim) (live : work.ledger.claims[hash]? = some claim) :
          claim.outpoint = outpoint ↔ holder = hash := by
        constructor
        · intro sits
          rw [held claim live sits, Option.some.injEq] at isHolder
          exact isHolder.symm
        · rintro rfl
          rw [live, Option.some.injEq] at rowLive
          rw [rowLive, rowSits]
      split
      · next carried =>
        cases live : work.ledger.claims[hash]? with
        | none => rfl
        | some claim =>
          rw [Option.filter_some, if_pos]
          by_cases isHolder : holder = hash
          · simp [← isHolder, carried]
          · simp [filtered claim live, isHolder]
      · next ended =>
        rw [getElem?_claims_abandon reached.indexed.claim_hash]
        cases live : work.ledger.claims[hash]? with
        | none => simp
        | some claim =>
          by_cases isHolder : holder = hash
          · rw [if_pos isHolder, Option.filter_some, if_neg]
            have sits := (filtered claim live).mpr isHolder
            simpa [sits, ← isHolder] using ended
          · rw [if_neg isHolder, Option.filter_some, if_pos]
            simp [filtered claim live, isHolder]

theorem getElem?_claims_create (reached : Reached height base used work)
    (indexed : base.Indexed) (event : BlockTx × TxEvent) :
    (work.create height event).ledger.claims[hash]? =
      work.ledger.claims[hash]?.or (base.born? height hash event) := by
  obtain ⟨tx, event⟩ := event
  cases event with
  | create outpoint name claim amount owner =>
    rw [BlockWork.create, born?, ← reached.newClaim_eq indexed]
    split
    · next known =>
      rw [Std.ExtTreeMap.contains_iff_mem, Std.ExtTreeMap.mem_iff_isSome_getElem?] at known
      split
      · next same =>
        subst same
        obtain ⟨row, live⟩ := Option.isSome_iff_exists.mp known
        rw [live, Option.some_or]
      · rw [Option.or_none]
    · next unknown =>
      have new : work.ledger.claims[claim]? = none :=
        Std.ExtTreeMap.getElem?_eq_none fun known =>
          unknown (Std.ExtTreeMap.contains_iff_mem.mpr known)
      simp only [getElem?_claims_addClaim]
      by_cases same : claim = hash
      · subst same
        rw [if_pos rfl, if_pos rfl, new, Option.none_or]
        rfl
      · rw [if_neg same, if_neg same, Option.or_none]
  | spend outpoint => exact (Option.or_none).symm
  | update outpoint name claim amount owner => exact (Option.or_none).symm
  | support outpoint name claim amount => exact (Option.or_none).symm

theorem getElem?_claims_update {rules : Rules} (ruled : work.ledger.rules = rules)
    (keyed : ∀ {hash : ClaimHash} {claim : Claim},
      work.ledger.claims[hash]? = some claim → claim.hash = hash)
    (event : BlockTx × TxEvent) :
    (work.update height event).ledger.claims[hash]? =
      work.ledger.claims[hash]?.map fun claim => claim.updatedBy rules height event := by
  obtain ⟨tx, event⟩ := event
  cases event with
  | update outpoint name target amount owner =>
    rw [BlockWork.update]
    simp only [Claim.updatedBy, ← ruled]
    split
    · next missing =>
      cases live : work.ledger.claims[hash]? with
      | none => rfl
      | some claim =>
        rw [Option.map_some, if_neg]
        rintro ⟨same, -⟩
        rw [same, keyed live, live] at missing
        cases missing
    · next row found =>
      have isTarget := keyed found
      split
      · next refused =>
        cases live : work.ledger.claims[hash]? with
        | none => rfl
        | some claim =>
          rw [Option.map_some, if_neg]
          rintro ⟨same, accepted⟩
          rw [same, keyed live, live, Option.some.injEq] at found
          exact accepted (found ▸ refused)
      · next accepted =>
        simp only [getElem?_claims_moveClaim, isTarget]
        by_cases same : target = hash
        · subst same
          rw [if_pos rfl, found, Option.map_some, if_pos ⟨isTarget.symm, accepted⟩]
        · rw [if_neg same]
          cases live : work.ledger.claims[hash]? with
          | none => rfl
          | some claim =>
            rw [Option.map_some, if_neg]
            rintro ⟨isClaim, -⟩
            rw [keyed live] at isClaim
            exact same isClaim
  | spend outpoint => exact Option.map_id'.symm
  | create outpoint name claim amount owner => exact Option.map_id'.symm
  | support outpoint name claim amount => exact Option.map_id'.symm

theorem getElem?_claims_recheckClaim
    (keyed : ∀ {hash : ClaimHash} {claim : Claim},
      work.ledger.claims[hash]? = some claim → claim.hash = hash)
    (spent : Std.ExtTreeSet OutPoint) :
    (work.recheckClaim spent hash).ledger.claims[other]? =
      if hash = other then
        work.ledger.claims[other]?.filter fun claim => !spent.contains claim.outpoint
      else work.ledger.claims[other]? := by
  rw [recheckClaim]
  by_cases same : hash = other
  · subst same
    rw [if_pos rfl]
    split
    · next missing => rw [missing]; rfl
    · next claim live =>
      split
      · next isSpent =>
        rw [getElem?_claims_abandon keyed, if_pos rfl, live, Option.filter_some,
          if_neg (by simp [isSpent])]
      · next kept => rw [live, Option.filter_some, if_pos (by simp [kept])]
  · rw [if_neg same]
    split
    · rfl
    · split
      · rw [getElem?_claims_abandon keyed, if_neg same]
      · rfl

theorem getElem?_claims_foldl_recheckClaim
    (keyed : ∀ {hash : ClaimHash} {claim : Claim},
      work.ledger.claims[hash]? = some claim → claim.hash = hash)
    (spent : Std.ExtTreeSet OutPoint) (hashes : List ClaimHash) :
    (hashes.foldl (recheckClaim spent) work).ledger.claims[hash]? =
      if hash ∈ hashes then
        work.ledger.claims[hash]?.filter fun claim => !spent.contains claim.outpoint
      else work.ledger.claims[hash]? := by
  induction hashes generalizing work with
  | nil => rw [List.foldl_nil, if_neg List.not_mem_nil]
  | cons head more ih =>
    have next {other : ClaimHash} {claim : Claim}
        (live : (work.recheckClaim spent head).ledger.claims[other]? = some claim) :
        claim.hash = other := by
      rw [getElem?_claims_recheckClaim keyed] at live
      split at live
      · exact keyed (Option.filter_eq_some_iff.mp live).1
      · exact keyed live
    rw [List.foldl_cons, ih next, getElem?_claims_recheckClaim keyed]
    simp only [List.mem_cons]
    by_cases here : head = hash
    · simp [here]
    · simp [here, Ne.symm here]

end Steps

/-! ## One step and one support -/

section Supports

variable {height : Height} {base : Ledger} {used : List OutPoint} {work : BlockWork}
variable {txs : List BlockTx} {outpoint other : OutPoint}

theorem supports_abandon (work : BlockWork) (hash : ClaimHash) :
    (work.abandon hash).ledger.supports = work.ledger.supports := by
  rw [abandon]
  split <;> rfl

theorem getElem?_supports_spend (reached : Reached height base used work) :
    (work.spend txs outpoint).ledger.supports[other]? =
      if outpoint = other then none else work.ledger.supports[other]? := by
  rw [spend]
  split
  · next support found =>
    simp only [getElem?_supports_removeSupport, reached.indexed.support_outpoint found]
  · next missing =>
    have unchanged : work.ledger.supports[other]? =
        if outpoint = other then none else work.ledger.supports[other]? := by
      split
      · next same => rw [← same, missing]
      · rfl
    split
    · exact unchanged
    · split
      · exact unchanged
      · rw [supports_abandon]
        exact unchanged

theorem supports_create (work : BlockWork) (height : Height) (event : BlockTx × TxEvent) :
    (work.create height event).ledger.supports = work.ledger.supports := by
  unfold create
  split
  · split <;> rfl
  · rfl

theorem supports_update (work : BlockWork) (height : Height) (event : BlockTx × TxEvent) :
    (work.update height event).ledger.supports = work.ledger.supports := by
  unfold update
  split
  · split
    · rfl
    · split <;> rfl
  · rfl

theorem supports_recheckClaim (work : BlockWork) (spent : Std.ExtTreeSet OutPoint)
    (hash : ClaimHash) :
    (work.recheckClaim spent hash).ledger.supports = work.ledger.supports := by
  rw [recheckClaim]
  split
  · rfl
  · split
    · exact supports_abandon work hash
    · rfl

theorem claims_support (work : BlockWork) (height : Height) (spent : Std.ExtTreeSet OutPoint)
    (event : BlockTx × TxEvent) :
    (work.support height spent event).ledger.claims = work.ledger.claims := by
  unfold support
  split
  · split <;> rfl
  · rfl

theorem getElem?_supports_support (reached : Reached height base used work)
    (indexed : base.Indexed) (spent : Std.ExtTreeSet OutPoint) (event : BlockTx × TxEvent) :
    (work.support height spent event).ledger.supports[other]? =
      if spent.contains other then work.ledger.supports[other]?
      else (base.pledged? height other event.2).or work.ledger.supports[other]? := by
  obtain ⟨tx, event⟩ := event
  have unchanged : work.ledger.supports[other]? =
      if spent.contains other then work.ledger.supports[other]?
      else (none : Option Support).or work.ledger.supports[other]? := by
    rw [Option.none_or, ite_self]
  cases event with
  | support outpoint name claim amount =>
    rw [BlockWork.support]
    simp only [pledged?, ← reached.newSupport_eq indexed]
    by_cases same : outpoint = other
    · subst same
      split
      · rfl
      · rw [getElem?_supports_addSupport, if_pos rfl, if_pos rfl, Option.some_or]
        rfl
    · rw [if_neg same]
      split
      · exact unchanged
      · rw [getElem?_supports_addSupport, if_neg same]
        exact unchanged
  | spend outpoint => exact unchanged
  | create outpoint name claim amount owner => exact unchanged
  | update outpoint name claim amount owner => exact unchanged

end Supports

/-! ## The phases and one claim -/

/-- Every live claim on one of the listed outputs will be looked at again. -/
def Watched (spent : List OutPoint) (work : BlockWork) : Prop :=
  ∀ (hash : ClaimHash) (claim : Claim), work.ledger.claims[hash]? = some claim →
    claim.outpoint ∈ spent → hash ∈ work.recheck

section Watched

variable {height : Height} {base : Ledger} {used : List OutPoint} {work : BlockWork}
variable {txs : List BlockTx}

theorem recheck_abandon (work : BlockWork) (hash : ClaimHash) :
    (work.abandon hash).recheck = work.recheck := by
  rw [abandon]
  split <;> rfl

/-- A live claim whose output is spent is either given up or remembered. -/
theorem watched_spend (reached : Reached height base used work) {done : List OutPoint}
    (watched : Watched done work) (outpoint : OutPoint) :
    Watched (outpoint :: done) (work.spend txs outpoint) := by
  intro hash claim live sits
  rw [getElem?_claims_spend reached, Option.filter_eq_some_iff] at live
  obtain ⟨live, passes⟩ := live
  have old (listed : claim.outpoint ∈ done) : hash ∈ (work.spend txs outpoint).recheck := by
    have known := watched hash claim live listed
    rw [spend]
    split
    · exact known
    · split
      · exact known
      · split
        · exact List.mem_append_left _ known
        · rw [recheck_abandon]
          exact known
  rcases List.mem_cons.mp sits with here | listed
  · have held := reached.indexed.holdings.mpr ⟨claim, live, here⟩
    have carried : BlockTx.carriesOn txs hash outpoint = true := by simpa [here] using passes
    rw [spend]
    split
    · next support found =>
      rw [reached.grounded.apart found] at held
      cases held
    · rw [held]
      simp only
      rw [if_pos carried]
      exact List.mem_append_right _ (List.mem_singleton_self hash)
  · exact old listed

theorem watched_create (reached : Reached height base used work) (indexed : base.Indexed)
    {spent : List OutPoint} (watched : Watched spent work) (event : BlockTx × TxEvent) :
    Watched spent (work.create height event) := by
  intro hash claim live sits
  rw [getElem?_claims_create reached indexed] at live
  obtain ⟨tx, event⟩ := event
  cases event with
  | create outpoint name created amount owner =>
    rw [BlockWork.create]
    split
    · next known =>
      rw [Std.ExtTreeMap.contains_iff_mem, Std.ExtTreeMap.mem_iff_isSome_getElem?] at known
      rcases Option.or_eq_some_iff.mp live with live | ⟨missing, born⟩
      · exact watched hash claim live sits
      · rw [born?] at born
        split at born
        · next same =>
          rw [same, missing] at known
          cases known
        · cases born
    · rcases Option.or_eq_some_iff.mp live with live | ⟨-, born⟩
      · exact List.mem_append_left _ (watched hash claim live sits)
      · rw [born?] at born
        split at born
        · next same =>
          rw [same]
          exact List.mem_append_right _ (List.mem_singleton_self hash)
        · cases born
  | spend outpoint => exact watched hash claim (by simpa [born?] using live) sits
  | update outpoint name updated amount owner =>
    exact watched hash claim (by simpa [born?] using live) sits
  | support outpoint name supported amount =>
    exact watched hash claim (by simpa [born?] using live) sits

theorem watched_update (reached : Reached height base used work) {spent : List OutPoint}
    (watched : Watched spent work) (event : BlockTx × TxEvent) :
    Watched spent (work.update height event) := by
  intro hash claim live sits
  obtain ⟨tx, event⟩ := event
  cases event with
  | update outpoint name updated amount owner =>
    rw [BlockWork.update] at live ⊢
    split at live
    · exact watched hash claim live sits
    · next row found =>
      split at live
      · next refused =>
        rw [if_pos refused]
        exact watched hash claim live sits
      · next accepted =>
        rw [if_neg accepted]
        simp only [getElem?_claims_moveClaim, reached.indexed.claim_hash found] at live
        split at live
        · next same =>
          rw [same]
          exact List.mem_append_right _ (List.mem_singleton_self hash)
        · exact List.mem_append_left _ (watched hash claim live sits)
  | spend outpoint => exact watched hash claim live sits
  | create outpoint name created amount owner => exact watched hash claim live sits
  | support outpoint name supported amount => exact watched hash claim live sits

end Watched

section Phases

variable {height : Height} {ledger : Ledger} {earlier : List OutPoint} {txs : List BlockTx}

theorem getElem?_claims_foldl_spend {used : List OutPoint} {work : BlockWork}
    (reached : Reached height ledger used work) (outpoints : List OutPoint) (hash : ClaimHash) :
    (outpoints.foldl (spend txs) work).ledger.claims[hash]? =
      work.ledger.claims[hash]?.filter fun claim =>
        !outpoints.contains claim.outpoint || BlockTx.carriesOn txs hash claim.outpoint := by
  induction outpoints generalizing work with
  | nil =>
    rw [List.foldl_nil]
    cases work.ledger.claims[hash]? <;> rfl
  | cons outpoint more ih =>
    rw [List.foldl_cons, ih (reached.spend txs outpoint), getElem?_claims_spend reached,
      Option.filter_filter]
    congr 1
    funext claim
    by_cases sits : claim.outpoint = outpoint
    · simp only [sits, List.contains_cons, BEq.rfl, Bool.true_or, Bool.not_true, Bool.false_or,
        ne_eq, not_true_eq_false, decide_false]
      cases BlockTx.carriesOn txs hash outpoint <;> simp
    · simp [sits]

theorem watched_foldl_spend {used : List OutPoint} {work : BlockWork} {done : List OutPoint}
    (reached : Reached height ledger used work) (watched : Watched done work)
    (outpoints : List OutPoint) :
    Watched (outpoints.reverse ++ done) (outpoints.foldl (spend txs) work) := by
  induction outpoints generalizing work done with
  | nil => exact watched
  | cons outpoint more ih =>
    rw [List.foldl_cons, List.reverse_cons, List.append_assoc]
    exact ih (reached.spend txs outpoint) (watched_spend reached watched outpoint)

variable (indexed : ledger.Indexed) (grounded : ledger.Grounded earlier)
variable (fresh : (earlier ++ BlockTx.allOutputs txs).Nodup)

include indexed grounded

theorem getElem?_claims_spends (hash : ClaimHash) :
    ((start ledger height).spends txs).ledger.claims[hash]? =
      ledger.claims[hash]?.filter fun claim =>
        !(BlockTx.allSpends txs).contains claim.outpoint ||
          BlockTx.carriesOn txs hash claim.outpoint :=
  getElem?_claims_foldl_spend (reached_start height indexed grounded) (BlockTx.allSpends txs) hash

theorem watched_spends :
    Watched (BlockTx.allSpends txs) ((start ledger height).spends txs) := by
  have watched : Watched ((BlockTx.allSpends txs).reverse ++ [])
      ((start ledger height).spends txs) :=
    watched_foldl_spend (reached_start height indexed grounded) (by rintro _ _ _ ⟨⟩) _
  intro hash claim live sits
  exact watched hash claim live (by simpa using sits)

include fresh

theorem getElem?_claims_creates (hash : ClaimHash) :
    ((start ledger height).creates height txs).ledger.claims[hash]? =
      (((start ledger height).spends txs).ledger.claims[hash]?).or
        ((BlockTx.allEvents txs).findSome? (ledger.born? height hash)) := by
  have distinct := (perm_phases earlier txs).nodup_iff.mpr fresh
  have folded : ((start ledger height).creates height txs).ledger.claims[hash]? =
      (BlockTx.allEvents txs).foldl (fun cell event => cell.or (ledger.born? height hash event))
        (((start ledger height).spends txs).ledger.claims[hash]?) :=
    Reached.foldl_track (P := fun cell work => work.ledger.claims[hash]? = cell)
      Reached.create (fun reached same event => by
        rw [getElem?_claims_create reached indexed, same])
      (reached_spends height indexed grounded) rfl (BlockTx.allEvents txs)
      (List.nodup_append.mp (List.nodup_append.mp distinct).1).1
  rw [folded]
  generalize ((start ledger height).spends txs).ledger.claims[hash]? = cell
  clear folded distinct fresh
  induction BlockTx.allEvents txs generalizing cell with
  | nil => exact Option.or_none.symm
  | cons event more ih =>
    rw [List.foldl_cons, ih, List.findSome?_cons, Option.or_assoc]
    cases ledger.born? height hash event <;> rfl

theorem watched_creates :
    Watched (BlockTx.allSpends txs) ((start ledger height).creates height txs) := by
  have distinct := (perm_phases earlier txs).nodup_iff.mpr fresh
  exact Reached.foldl_track (f := fun _ _ => ()) (a := ()) (P := fun _ work => Watched _ work)
    Reached.create (fun reached watched event => watched_create reached indexed watched event)
    (reached_spends height indexed grounded)
    (watched_spends indexed grounded) (BlockTx.allEvents txs)
    (List.nodup_append.mp (List.nodup_append.mp distinct).1).1

theorem getElem?_claims_updates (hash : ClaimHash) :
    ((start ledger height).updates height txs).ledger.claims[hash]? =
      (((start ledger height).creates height txs).ledger.claims[hash]?).map fun claim =>
        (BlockTx.allEvents txs).foldl (Claim.updatedBy ledger.rules height) claim := by
  have distinct := (perm_phases earlier txs).nodup_iff.mpr fresh
  have folded : ((start ledger height).updates height txs).ledger.claims[hash]? =
      (BlockTx.allEvents txs).foldl
        (fun cell event => cell.map fun claim => claim.updatedBy ledger.rules height event)
        (((start ledger height).creates height txs).ledger.claims[hash]?) :=
    Reached.foldl_track (P := fun cell work => work.ledger.claims[hash]? = cell)
      Reached.update (fun reached same event => by
        rw [getElem?_claims_update reached.rules_eq reached.indexed.claim_hash, same])
      (reached_creates height indexed grounded fresh) rfl (BlockTx.allEvents txs)
      (List.nodup_append.mp distinct).1
  rw [folded]
  generalize ((start ledger height).creates height txs).ledger.claims[hash]? = cell
  clear folded distinct fresh
  induction BlockTx.allEvents txs generalizing cell with
  | nil => exact Option.map_id'.symm
  | cons event more ih =>
    rw [List.foldl_cons, ih, Option.map_map]
    rfl

theorem watched_updates :
    Watched (BlockTx.allSpends txs) ((start ledger height).updates height txs) := by
  have distinct := (perm_phases earlier txs).nodup_iff.mpr fresh
  exact Reached.foldl_track (f := fun _ _ => ()) (a := ()) (P := fun _ work => Watched _ work)
    Reached.update (fun reached watched event => watched_update reached watched event)
    (reached_creates height indexed grounded fresh)
    (watched_creates indexed grounded fresh) (BlockTx.allEvents txs)
    (List.nodup_append.mp distinct).1

/-- The second look finds every claim whose last output is spent. -/
theorem getElem?_claims_rechecks (hash : ClaimHash) :
    ((start ledger height).rechecks height txs).ledger.claims[hash]? =
      (((start ledger height).updates height txs).ledger.claims[hash]?).filter fun claim =>
        !(BlockTx.allSpends txs).contains claim.outpoint := by
  have reached := reached_updates height indexed grounded fresh
  rw [rechecks]
  rw [getElem?_claims_foldl_recheckClaim reached.indexed.claim_hash]
  simp only [Std.ExtTreeSet.contains_ofList]
  split
  · rfl
  · next unwatched =>
    cases live : ((start ledger height).updates height txs).ledger.claims[hash]? with
    | none => rfl
    | some claim =>
      have kept : claim.outpoint ∉ BlockTx.allSpends txs := fun spent =>
        unwatched (watched_updates indexed grounded fresh hash claim live spent)
      rw [Option.filter_some, if_pos (by simpa using kept)]

omit indexed grounded fresh in
theorem claims_run {work : BlockWork} :
    (work.run height txs).ledger.claims = (work.rechecks height txs).ledger.claims := by
  rw [run_eq]
  exact List.foldlRecOn (motive := fun work : BlockWork => work.ledger.claims = _) _ _ rfl
    fun work same event _ => (claims_support work height _ event).trans same

/-- After all phases of a block a claim hash names the claim that was live before
or that the block creates, as the updates leave it, unless its output is spent
then. -/
theorem getElem?_claims_run_eq (hash : ClaimHash)
    (new : ∀ claim, ledger.claims[hash]? = some claim →
      (BlockTx.allEvents txs).findSome? (ledger.born? height hash) = none) :
    ((start ledger height).run height txs).ledger.claims[hash]? =
      ((ledger.claims[hash]?.or
        ((BlockTx.allEvents txs).findSome? (ledger.born? height hash))).map fun claim =>
          (BlockTx.allEvents txs).foldl (Claim.updatedBy ledger.rules height) claim).filter
        fun claim => !(BlockTx.allSpends txs).contains claim.outpoint := by
  rw [claims_run, getElem?_claims_rechecks indexed grounded fresh,
    getElem?_claims_updates indexed grounded fresh, getElem?_claims_creates indexed grounded fresh,
    getElem?_claims_spends indexed grounded]
  cases live : ledger.claims[hash]? with
  | none => rfl
  | some claim =>
    rw [new claim live, Option.or_none, Option.or_none, Option.filter_some]
    split
    · rfl
    · next ended =>
      -- given up at once, the claim would be where it was at the end
      simp only [Bool.or_eq_true, Bool.not_eq_true', List.contains_eq_mem, decide_eq_false_iff_not,
        not_or, not_not] at ended
      rw [← indexed.claim_hash live] at ended
      rw [Option.map_some, Claim.foldl_updatedBy_of_not_carriesOn ended.2, Option.filter_some,
        if_neg (by simpa using ended.1)]
      rfl

/-- In a block whose transactions spend every output at most once, and only by a
later transaction than the one that produces it, that is the fate of the claim. -/
theorem getElem?_claims_run (ordered : BlockTx.Ordered txs)
    (once : (BlockTx.allSpends txs).Nodup) (hash : ClaimHash)
    (new : ∀ claim, ledger.claims[hash]? = some claim →
      (BlockTx.allEvents txs).findSome? (ledger.born? height hash) = none) :
    ((start ledger height).run height txs).ledger.claims[hash]? =
      (ledger.claims[hash]?.or
        ((BlockTx.allEvents txs).findSome? (ledger.born? height hash))).bind
          (Claim.fate ledger.rules height txs) := by
  rw [getElem?_claims_run_eq indexed grounded fresh hash new]
  generalize ledger.claims[hash]?.or _ = cell
  cases cell with
  | none => rfl
  | some claim =>
    rw [Option.bind_some, Claim.fate_eq ordered once, Option.map_some, Option.filter_some]
    split
    · next unspent => rw [if_neg (by simpa using unspent)]
    · next spent => rw [if_pos (by simpa using spent)]

/-- After all phases of a block every live claim was there before or was created
in the block. -/
theorem mem_created_of_run {created : List ClaimHash}
    (known : ∀ {hash : ClaimHash} {claim : Claim},
      ledger.claims[hash]? = some claim → hash ∈ created)
    {hash : ClaimHash} {claim : Claim}
    (live : ((start ledger height).run height txs).ledger.claims[hash]? = some claim) :
    hash ∈ created ++ BlockTx.allCreated txs := by
  rw [claims_run, getElem?_claims_rechecks indexed grounded fresh,
    getElem?_claims_updates indexed grounded fresh, Option.filter_eq_some_iff] at live
  obtain ⟨moved, live, -⟩ := Option.map_eq_some_iff.mp live.1
  rw [getElem?_claims_creates indexed grounded fresh, Option.or_eq_some_iff,
    getElem?_claims_spends indexed grounded, Option.filter_eq_some_iff] at live
  rw [List.mem_append]
  rcases live with ⟨live, -⟩ | ⟨-, born⟩
  · exact .inl (known live)
  · obtain ⟨event, listed, born⟩ := List.exists_of_findSome?_eq_some born
    exact .inr (List.mem_filterMap.mpr ⟨event, listed, (of_born?_eq_some born).1⟩)

/-! ## The phases and one support -/

omit indexed grounded fresh in
/-- The phases of claims leave alone whatever no step of theirs changes. -/
theorem supports_rechecks :
    ((start ledger height).rechecks height txs).ledger.supports =
      ((start ledger height).spends txs).ledger.supports := by
  rw [rechecks, updates, creates]
  refine List.foldlRecOn (motive := fun work : BlockWork => work.ledger.supports = _) _ _ ?_
    fun work same hash _ => (supports_recheckClaim work _ hash).trans same
  refine List.foldlRecOn (motive := fun work : BlockWork => work.ledger.supports = _) _ _ ?_
    fun work same event _ => (supports_update work height event).trans same
  exact List.foldlRecOn (motive := fun work : BlockWork => work.ledger.supports = _) _ _ rfl
    fun work same event _ => (supports_create work height event).trans same

omit fresh in
theorem getElem?_supports_spends (outpoint : OutPoint) :
    ((start ledger height).spends txs).ledger.supports[outpoint]? =
      if outpoint ∈ BlockTx.allSpends txs then none else ledger.supports[outpoint]? := by
  have folded (outpoints : List OutPoint) {used : List OutPoint} {work : BlockWork}
      (reached : Reached height ledger used work) :
      (outpoints.foldl (spend txs) work).ledger.supports[outpoint]? =
        if outpoint ∈ outpoints then none else work.ledger.supports[outpoint]? := by
    induction outpoints generalizing work with
    | nil => rw [List.foldl_nil, if_neg List.not_mem_nil]
    | cons head more ih =>
      rw [List.foldl_cons, ih (reached.spend txs head), getElem?_supports_spend reached]
      simp only [List.mem_cons]
      by_cases here : head = outpoint
      · simp [here]
      · simp [here, Ne.symm here]
  exact folded (BlockTx.allSpends txs) (reached_start height indexed grounded)

/-- After all phases of a block an output that is not spent in it holds the
support that was there, or one that the block adds. -/
theorem getElem?_supports_run (outpoint : OutPoint) :
    ((start ledger height).run height txs).ledger.supports[outpoint]? =
      if outpoint ∈ BlockTx.allSpends txs then none
      else (BlockTx.allEvents txs).foldl
        (fun cell event => (ledger.pledged? height outpoint event.2).or cell)
        ledger.supports[outpoint]? := by
  have distinct := (perm_phases earlier txs).nodup_iff.mpr fresh
  have folded : ((start ledger height).run height txs).ledger.supports[outpoint]? =
      (BlockTx.allEvents txs).foldl
        (fun cell event =>
          if outpoint ∈ BlockTx.allSpends txs then cell
          else (ledger.pledged? height outpoint event.2).or cell)
        (((start ledger height).rechecks height txs).ledger.supports[outpoint]?) := by
    rw [run_eq]
    refine Reached.foldl_track (P := fun cell work => work.ledger.supports[outpoint]? = cell)
      (fun reached event new => reached.support _ event new) (fun reached same event => ?_)
      (reached_rechecks height indexed grounded fresh) rfl (BlockTx.allEvents txs) distinct
    rw [getElem?_supports_support reached indexed, same]
    simp only [Std.ExtTreeSet.contains_ofList, List.contains_iff_mem]
  rw [folded, supports_rechecks, getElem?_supports_spends indexed grounded]
  split
  · exact List.foldlRecOn (motive := fun cell => cell = none) _ _ rfl fun _ same _ _ => same
  · rfl

end Phases

end BlockWork

end ClaimLedger
