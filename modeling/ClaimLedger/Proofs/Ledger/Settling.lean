/-
# What settling does to a ledger

Settling a name is a fixed order of writes to the rows under it. Read through
the standings of names, it is one function: the settled name goes from its
standing to `Standing.settled`, and every other name keeps its own. The marks
of changed rows and the schedule are the only other things that it writes.
-/

import ClaimLedger.Proofs.Ledger.Indexed

namespace ClaimLedger

namespace Term

theorem activateBy_of_not_isPendingAt {term : Term} {height : Height}
    (notPending : ¬ term.isPendingAt height = true) : term.activateBy height = term := by
  rw [activateBy, if_neg notPending]

theorem isPendingAt_activateBy (term : Term) (height : Height) :
    ¬ (term.activateBy height).isPendingAt height = true := by
  rw [activateBy]
  split
  · simp [isPendingAt]
  · next notPending => exact notPending

/-- What was let in no longer waits, so letting it in again changes nothing. -/
theorem activateBy_activateBy (term : Term) (height : Height) :
    (term.activateBy height).activateBy height = term.activateBy height :=
  activateBy_of_not_isPendingAt (isPendingAt_activateBy term height)

end Term

/-- Change a claim under one name only. -/
def Claim.mapUnder (name : Bytes) (change : Claim → Claim) (claim : Claim) : Claim :=
  if claim.name = name then change claim else claim

/-- Change a support under one name only. -/
def Support.mapUnder (name : Bytes) (change : Support → Support) (support : Support) : Support :=
  if support.name = name then change support else support

theorem Claim.mapUnder_of_eq {name : Bytes} {change : Claim → Claim} {claim : Claim}
    (named : claim.name = name) : claim.mapUnder name change = change claim :=
  if_pos named

theorem Claim.mapUnder_of_ne {name : Bytes} {change : Claim → Claim} {claim : Claim}
    (named : claim.name ≠ name) : claim.mapUnder name change = claim :=
  if_neg named

theorem Support.mapUnder_of_eq {name : Bytes} {change : Support → Support} {support : Support}
    (named : support.name = name) : support.mapUnder name change = change support :=
  if_pos named

theorem Support.mapUnder_of_ne {name : Bytes} {change : Support → Support} {support : Support}
    (named : support.name ≠ name) : support.mapUnder name change = support :=
  if_neg named

namespace Ledger

variable {ledger : Ledger}

/-! ## Folding over the rows of a name -/

namespace Rewrites

variable {f f' : Claim → Claim} {g g' : Support → Support} {first second third : Ledger}

theorem refl (ledger : Ledger) : Rewrites id id ledger ledger where
  claims := by simp
  supports := by simp
  rest := ⟨_, _, _, rfl⟩

theorem trans (left : Rewrites f g first second) (right : Rewrites f' g' second third) :
    Rewrites (f' ∘ f) (g' ∘ g) first third where
  claims := fun hash => by rw [right.claims, left.claims, Option.map_map]
  supports := fun outpoint => by rw [right.supports, left.supports, Option.map_map]
  rest := by
    obtain ⟨_, _, _, rfl⟩ := left.rest
    obtain ⟨_, _, _, rfl⟩ := right.rest
    exact ⟨_, _, _, rfl⟩

/-- What is written to no row does not matter. -/
theorem congr (rewrites : Rewrites f g first second)
    (claims : ∀ (hash : ClaimHash) (claim : Claim),
      first.claims[hash]? = some claim → f claim = f' claim)
    (supports : ∀ (outpoint : OutPoint) (support : Support),
      first.supports[outpoint]? = some support → g support = g' support) :
    Rewrites f' g' first second where
  claims := by
    intro hash
    rw [rewrites.claims]
    exact Option.map_congr fun claim live => claims hash claim live
  supports := by
    intro outpoint
    rw [rewrites.supports]
    exact Option.map_congr fun support live => supports outpoint support live
  rest := rewrites.rest

theorem supports_eq (rewrites : Rewrites f id first second) : second.supports = first.supports :=
  Std.ExtTreeMap.ext_getElem? fun outpoint => by rw [rewrites.supports, Option.map_id, id]

/-! Rewriting the listed rows asks of a ledger only that every row is kept under its own key. -/

section Keys

variable
  (claim_hash : ∀ {hash : ClaimHash} {claim : Claim},
    ledger.claims[hash]? = some claim → claim.hash = hash)
  (support_outpoint : ∀ {outpoint : OutPoint} {support : Support},
    ledger.supports[outpoint]? = some support → support.outpoint = outpoint)

include claim_hash

/-- Rewriting claims one by one, each at most to the same effect, rewrites
exactly the listed ones. -/
theorem foldl_claims (step : Ledger → ClaimHash → Ledger) (change : Claim → Claim)
    (kept : ∀ claim, (change claim).hash = claim.hash)
    (again : ∀ claim, change (change claim) = change claim)
    (once : ∀ now : Ledger,
      (∀ {hash : ClaimHash} {claim : Claim},
        now.claims[hash]? = some claim → claim.hash = hash) →
      now.supports = ledger.supports → ∀ hash,
        Rewrites (fun claim => if claim.hash = hash then change claim else claim) id
          now (step now hash))
    (hashes : List ClaimHash) :
    Rewrites (fun claim => if claim.hash ∈ hashes then change claim else claim) id
      ledger (hashes.foldl step ledger) := by
  induction hashes generalizing ledger with
  | nil => exact (refl ledger).congr (by simp) fun _ _ _ => rfl
  | cons hash more ih =>
    have head := once ledger claim_hash rfl hash
    have claim_hash' {other : ClaimHash} {claim : Claim}
        (live : (step ledger hash).claims[other]? = some claim) : claim.hash = other := by
      rw [head.claims, Option.map_eq_some_iff] at live
      obtain ⟨old, live, rfl⟩ := live
      split
      · exact (kept old).trans (claim_hash live)
      · exact claim_hash live
    have tail := ih claim_hash' fun now known same =>
      once now known (same.trans head.supports_eq)
    refine (head.trans tail).congr (fun _ claim _ => ?_) fun _ _ _ => rfl
    simp only [Function.comp_apply, List.mem_cons]
    by_cases isHead : claim.hash = hash
    · simp only [isHead, if_true, true_or, kept, again, ite_self]
    · simp only [isHead, if_false, false_or]

/-- Putting back a live claim with new contents. -/
theorem putClaim {change : Claim → Claim} {hash : ClaimHash} {claim : Claim}
    (live : ledger.claims[hash]? = some claim) (kept : (change claim).hash = claim.hash) :
    Rewrites (fun claim => if claim.hash = hash then change claim else claim) id
      ledger (ledger.putClaim (change claim)) where
  claims := by
    intro other
    rw [getElem?_claims_putClaim, kept, claim_hash live]
    by_cases same : hash = other
    · subst same
      simp [live, claim_hash live]
    · rw [if_neg same]
      cases found : ledger.claims[other]? with
      | none => rfl
      | some row =>
        rw [Option.map_some, if_neg]
        rw [claim_hash found]
        exact fun h => same h.symm
  supports := by simp [Ledger.putClaim]
  rest := ⟨_, _, _, rfl⟩

/-- Nothing has to be written where the contents would stay the same. -/
theorem skipClaim {change : Claim → Claim} {hash : ClaimHash}
    (same : ∀ claim, ledger.claims[hash]? = some claim → change claim = claim) :
    Rewrites (fun claim => if claim.hash = hash then change claim else claim) id
      ledger ledger := by
  refine (refl ledger).congr (fun other claim live => ?_) fun _ _ _ => rfl
  by_cases isHash : claim.hash = hash
  · rw [if_pos isHash, same claim (by rw [← isHash, claim_hash live]; exact live), id]
  · rw [if_neg isHash, id]

omit claim_hash
include support_outpoint

/-- Rewriting supports one by one, each at most to the same effect, rewrites
exactly the listed ones. -/
theorem foldl_supports (step : Ledger → OutPoint → Ledger) (change : Support → Support)
    (kept : ∀ support, (change support).outpoint = support.outpoint)
    (again : ∀ support, change (change support) = change support)
    (once : ∀ now : Ledger,
      (∀ {outpoint : OutPoint} {support : Support},
        now.supports[outpoint]? = some support → support.outpoint = outpoint) →
      ∀ outpoint,
        Rewrites id
          (fun support => if support.outpoint = outpoint then change support else support)
          now (step now outpoint))
    (outpoints : List OutPoint) :
    Rewrites id
      (fun support => if support.outpoint ∈ outpoints then change support else support)
      ledger (outpoints.foldl step ledger) := by
  induction outpoints generalizing ledger with
  | nil => exact (refl ledger).congr (fun _ _ _ => rfl) (by simp)
  | cons outpoint more ih =>
    have head := once ledger support_outpoint outpoint
    have support_outpoint' {other : OutPoint} {support : Support}
        (live : (step ledger outpoint).supports[other]? = some support) :
        support.outpoint = other := by
      rw [head.supports, Option.map_eq_some_iff] at live
      obtain ⟨old, live, rfl⟩ := live
      split
      · exact (kept old).trans (support_outpoint live)
      · exact support_outpoint live
    refine (head.trans (ih support_outpoint')).congr (fun _ _ _ => rfl) fun _ support _ => ?_
    simp only [Function.comp_apply, List.mem_cons]
    by_cases isHead : support.outpoint = outpoint
    · simp only [isHead, if_true, true_or, kept, again, ite_self]
    · simp only [isHead, if_false, false_or]

/-- Putting back a live support with new contents. -/
theorem putSupport {change : Support → Support} {outpoint : OutPoint} {support : Support}
    (live : ledger.supports[outpoint]? = some support)
    (kept : (change support).outpoint = support.outpoint) :
    Rewrites id (fun support => if support.outpoint = outpoint then change support else support)
      ledger (ledger.putSupport (change support)) where
  claims := by simp [Ledger.putSupport]
  supports := by
    intro other
    rw [getElem?_supports_putSupport, kept, support_outpoint live]
    by_cases same : outpoint = other
    · subst same
      simp [live, support_outpoint live]
    · rw [if_neg same]
      cases found : ledger.supports[other]? with
      | none => rfl
      | some row =>
        rw [Option.map_some, if_neg]
        rw [support_outpoint found]
        exact fun h => same h.symm
  rest := ⟨_, _, _, rfl⟩

theorem skipSupport {change : Support → Support} {outpoint : OutPoint}
    (same : ∀ support, ledger.supports[outpoint]? = some support → change support = support) :
    Rewrites id (fun support => if support.outpoint = outpoint then change support else support)
      ledger ledger := by
  apply (refl ledger).congr (fun _ _ _ => rfl)
  intro other support live
  by_cases isOutpoint : support.outpoint = outpoint
  · rw [if_pos isOutpoint,
      same support (by rw [← isOutpoint, support_outpoint live]; exact live), id]
  · rw [if_neg isOutpoint, id]

end Keys

/-- A rewriting of the rows under one name leaves the other names alone. -/
theorem standing_under {name : Bytes}
    (rewrites : Rewrites (Claim.mapUnder name f) (Support.mapUnder name g) first second)
    (indexed : first.Indexed) (other : Bytes) :
    second.standing other =
      if name = other then
        { claims := (first.standing name).claims.map f
          supports := (first.standing name).supports.map g
          takeover := (first.standing name).takeover }
      else first.standing other := by
  have claims (claim : Claim) (member : claim ∈ (first.standing other).claims) :
      claim.name = other :=
    ((mem_standing_claims indexed).mp member).2
  have supports (support : Support) (member : support ∈ (first.standing other).supports) :
      support.name = other :=
    ((mem_standing_supports indexed).mp member).2
  rw [rewrites.standing_eq]
  split
  · next same =>
    subst same
    rw [List.map_congr_left fun claim member => Claim.mapUnder_of_eq (claims claim member),
      List.map_congr_left fun support member =>
        Support.mapUnder_of_eq (supports support member)]
  · next different =>
    rw [List.map_congr_left fun claim member => Claim.mapUnder_of_ne fun named =>
        different (named.symm.trans (claims claim member)),
      List.map_congr_left fun support member => Support.mapUnder_of_ne fun named =>
        different (named.symm.trans (supports support member)),
      List.map_id', List.map_id']

end Rewrites

/-! ## Letting waiting rows in -/

section Keys

variable
  (claim_hash : ∀ {hash : ClaimHash} {claim : Claim},
    ledger.claims[hash]? = some claim → claim.hash = hash)
  (support_outpoint : ∀ {outpoint : OutPoint} {support : Support},
    ledger.supports[outpoint]? = some support → support.outpoint = outpoint)

include claim_hash in
theorem rewrites_admitClaim (height : Height) (hash : ClaimHash) :
    Rewrites (fun claim => if claim.hash = hash then claim.admitted height else claim) id
      ledger (ledger.admitClaim height hash) := by
  rw [admitClaim]
  split
  · next claim live =>
    split
    · exact Rewrites.putClaim claim_hash live rfl
    · next notPending =>
      apply Rewrites.skipClaim claim_hash
      intro row found
      rw [live, Option.some.injEq] at found
      rw [← found, Claim.admitted, Term.activateBy_of_not_isPendingAt notPending]
  · next missing =>
    apply Rewrites.skipClaim claim_hash
    intro row found
    rw [missing] at found
    cases found

include support_outpoint in
theorem rewrites_admitSupport (height : Height) (outpoint : OutPoint) :
    Rewrites id
      (fun support => if support.outpoint = outpoint then support.admitted height else support)
      ledger (ledger.admitSupport height outpoint) := by
  rw [admitSupport]
  split
  · next support live =>
    split
    · exact Rewrites.putSupport support_outpoint live rfl
    · next notPending =>
      apply Rewrites.skipSupport support_outpoint
      intro row found
      rw [live, Option.some.injEq] at found
      rw [← found, Support.admitted, Term.activateBy_of_not_isPendingAt notPending]
  · next missing =>
    apply Rewrites.skipSupport support_outpoint
    intro row found
    rw [missing] at found
    cases found

include claim_hash support_outpoint in
/-- Letting everything under a name in touches what the entry of the name
lists. -/
theorem rewrites_admitPending_listed (name : Bytes) (height : Height) :
    Rewrites
      (fun claim =>
        if claim.hash ∈ (ledger.entry name).claims.toList then claim.admitted height else claim)
      (fun support =>
        if support.outpoint ∈ (ledger.entry name).supports.toList then support.admitted height
        else support)
      ledger (ledger.admitPending name height) := by
  have claims := Rewrites.foldl_claims claim_hash (admitClaim height) (Claim.admitted height)
    (fun _ => rfl) (fun claim => by simp [Claim.admitted, Term.activateBy_activateBy])
    (fun _ known _ hash => rewrites_admitClaim known height hash)
    (ledger.entry name).claims.toList
  have support_outpoint' {outpoint : OutPoint} {support : Support}
      (live : ((ledger.entry name).claims.toList.foldl (admitClaim height)
        ledger).supports[outpoint]? = some support) : support.outpoint = outpoint := by
    rw [claims.supports_eq] at live
    exact support_outpoint live
  have supports := Rewrites.foldl_supports support_outpoint' (admitSupport height)
    (Support.admitted height) (fun _ => rfl)
    (fun support => by simp [Support.admitted, Term.activateBy_activateBy])
    (fun _ known outpoint => rewrites_admitSupport known height outpoint)
    (ledger.entry name).supports.toList
  exact claims.trans supports

end Keys

/-- Letting everything under a name in touches the rows of that name only. -/
theorem rewrites_admitPending (indexed : ledger.Indexed) (name : Bytes) (height : Height) :
    Rewrites (Claim.mapUnder name (Claim.admitted height))
      (Support.mapUnder name (Support.admitted height))
      ledger (ledger.admitPending name height) := by
  have listed :=
    rewrites_admitPending_listed indexed.claim_hash indexed.support_outpoint name height
  refine listed.congr (fun hash claim live => ?_) fun outpoint support live => ?_
  · have member : claim.hash ∈ (ledger.entry name).claims.toList ↔ claim.name = name := by
      rw [Std.ExtTreeSet.mem_toList, indexed.mem_claims, indexed.claim_hash live, live]
      simp
    simp only [Claim.mapUnder, member]
  · have member : support.outpoint ∈ (ledger.entry name).supports.toList ↔
        support.name = name := by
      rw [Std.ExtTreeSet.mem_toList, indexed.mem_supports, indexed.support_outpoint live, live]
      simp
    simp only [Support.mapUnder, member]

/-! ## Bringing effective amounts up to date -/

theorem rewrites_refreshClaim {now : Ledger} (name : Bytes) (height : Height) (hash : ClaimHash)
    (claim_hash : ∀ {hash : ClaimHash} {claim : Claim},
      now.claims[hash]? = some claim → claim.hash = hash)
    (supports : now.supports = ledger.supports) :
    Rewrites (fun claim =>
        if claim.hash = hash then (ledger.standing name).refreshedClaim height claim else claim)
      id now (now.refreshClaim (ledger.entry name) height hash) := by
  have same (claim : Claim) : now.effectiveAmount (ledger.entry name) height claim =
      (ledger.standing name).effective height claim := by
    rw [effectiveAmount, supportTotal, supportAmounts, supportsOf]
    rw [supports]
    rfl
  rw [refreshClaim]
  split
  · next claim live =>
    simp only [same]
    split
    · next upToDate =>
      apply Rewrites.skipClaim claim_hash
      intro row found
      rw [live, Option.some.injEq] at found
      rw [← found, Standing.refreshedClaim, ← upToDate]
    · have kept : ((ledger.standing name).refreshedClaim height claim).hash = claim.hash := rfl
      exact Rewrites.putClaim claim_hash live kept
  · next missing =>
    apply Rewrites.skipClaim claim_hash
    intro row found
    rw [missing] at found
    cases found

/-- Bringing the effective amounts under a name up to date touches the claims
that the entry of the name lists. -/
theorem rewrites_refreshEffective_listed
    (claim_hash : ∀ {hash : ClaimHash} {claim : Claim},
      ledger.claims[hash]? = some claim → claim.hash = hash)
    (name : Bytes) (height : Height) :
    Rewrites
      (fun claim =>
        if claim.hash ∈ (ledger.entry name).claims.toList then
          (ledger.standing name).refreshedClaim height claim
        else claim)
      id ledger (ledger.refreshEffective name height) :=
  Rewrites.foldl_claims claim_hash (refreshClaim (ledger.entry name) height)
    ((ledger.standing name).refreshedClaim height) (fun _ => rfl) (fun _ => rfl)
    (fun _ known same hash => rewrites_refreshClaim name height hash known same)
    (ledger.entry name).claims.toList

/-- Bringing the effective amounts under a name up to date touches the claims
of that name only. -/
theorem rewrites_refreshEffective (indexed : ledger.Indexed) (name : Bytes) (height : Height) :
    Rewrites (Claim.mapUnder name ((ledger.standing name).refreshedClaim height)) id
      ledger (ledger.refreshEffective name height) := by
  refine (rewrites_refreshEffective_listed indexed.claim_hash name height).congr
    (fun hash claim live => ?_) fun _ _ _ => rfl
  have member : claim.hash ∈ (ledger.entry name).claims.toList ↔ claim.name = name := by
    rw [Std.ExtTreeSet.mem_toList, indexed.mem_claims, indexed.claim_hash live, live]
    simp
  simp only [Claim.mapUnder, member]

/-! ## Control -/

theorem standing_setTakeover (name other : Bytes) (takeover : Option Takeover) :
    (ledger.setTakeover name takeover).standing other =
      if name = other then { ledger.standing name with takeover } else ledger.standing other := by
  have entry : (ledger.setTakeover name takeover).entry other =
      if name = other then { ledger.entry name with takeover } else ledger.entry other :=
    ledger.entry_editEntry name other fun entry => { entry with takeover }
  rw [standing]
  rw [entry]
  split <;> rfl

theorem indexed_setTakeover (indexed : ledger.Indexed) (name : Bytes)
    (takeover : Option Takeover) : (ledger.setTakeover name takeover).Indexed := by
  have entry (other : Bytes) : (ledger.setTakeover name takeover).entry other =
      if name = other then { ledger.entry name with takeover } else ledger.entry other :=
    ledger.entry_editEntry name other fun entry => { entry with takeover }
  refine ⟨indexed.claim_hash, indexed.support_outpoint, ?_, ?_, indexed.holdings⟩
  · intro other hash
    rw [entry]
    split
    · next same => subst same; exact indexed.mem_claims
    · exact indexed.mem_claims
  · intro other outpoint
    rw [entry]
    split
    · next same => subst same; exact indexed.mem_supports
    · exact indexed.mem_supports

theorem indexed_admitPending (indexed : ledger.Indexed) (name : Bytes) (height : Height) :
    (ledger.admitPending name height).Indexed := by
  refine (rewrites_admitPending indexed name height).indexed indexed (fun claim => ?_)
    fun support => ?_
  · rw [Claim.mapUnder]
    split <;> exact ⟨rfl, rfl, rfl⟩
  · rw [Support.mapUnder]
    split <;> exact ⟨rfl, rfl⟩

theorem standing_admitPending (indexed : ledger.Indexed) (name other : Bytes)
    (height : Height) :
    (ledger.admitPending name height).standing other =
      if name = other then (ledger.standing name).admitted height else ledger.standing other :=
  (rewrites_admitPending indexed name height).standing_under indexed other

/-- Who is best is a matter of the standing of the name. -/
theorem bestClaim?_eq (name : Bytes) (height : Height) :
    ledger.bestClaim? name height = (ledger.standing name).best? height := rfl

theorem takeover?_eq_standing (name : Bytes) :
    ledger.takeover? name = (ledger.standing name).takeover :=
  ledger.takeover?_eq_entry name

theorem indexed_updateControl (indexed : ledger.Indexed) (name : Bytes) (height : Height) :
    (ledger.updateControl name height).1.Indexed := by
  rw [updateControl]
  simp only
  split
  · exact indexed
  · split
    · exact indexed_admitPending indexed name height
    · exact indexed_setTakeover (indexed_admitPending indexed name height) name _

theorem standing_updateControl (indexed : ledger.Indexed) (name other : Bytes)
    (height : Height) :
    (ledger.updateControl name height).1.standing other =
      if name = other then ((ledger.standing name).decided height).1
      else ledger.standing other := by
  rw [updateControl, Standing.decided, Standing.controller?]
  simp only [takeover?_eq_standing, bestClaim?_eq, standing_admitPending indexed, if_true]
  split
  · split
    · next same => rw [same]
    · rfl
  · split
    · exact standing_admitPending indexed name other height
    · simp only [standing_setTakeover, standing_admitPending indexed, if_true]
      split <;> rfl

theorem updateControl_change (indexed : ledger.Indexed) (name : Bytes) (height : Height) :
    (ledger.updateControl name height).2 = ((ledger.standing name).decided height).2 := by
  rw [updateControl, Standing.decided, Standing.controller?]
  simp only [takeover?_eq_standing, bestClaim?_eq, standing_admitPending indexed, if_true]
  split
  · rfl
  · split <;> rfl

/-! ## The schedule -/

/-- The names that are due at a height. -/
def dueAt (ledger : Ledger) (height : Height) : Std.ExtTreeSet Bytes :=
  ledger.schedule[height]?.getD ∅

theorem standing_scheduleNext (name other : Bytes) (height : Height) :
    (ledger.scheduleNext name height).standing other = ledger.standing other := by
  unfold scheduleNext
  simp only
  split <;> rfl

theorem indexed_scheduleNext (indexed : ledger.Indexed) (name : Bytes) (height : Height) :
    (ledger.scheduleNext name height).Indexed := by
  unfold scheduleNext
  simp only
  split
  · exact indexed
  · exact ⟨indexed.claim_hash, indexed.support_outpoint, indexed.mem_claims,
      indexed.mem_supports, indexed.holdings⟩

theorem turningPoints_eq_dates (name : Bytes) :
    ledger.turningPoints (ledger.entry name) = (ledger.standing name).dates := rfl

/-- A name goes on the schedule for its next date, and nothing comes off. -/
theorem mem_dueAt_scheduleNext {name other : Bytes} {height date : Height} :
    other ∈ (ledger.scheduleNext name height).dueAt date ↔
      other ∈ ledger.dueAt date ∨
        other = name ∧
          ((ledger.standing name).dates.filter fun h => height < h).min? = some date := by
  unfold scheduleNext
  rw [turningPoints_eq_dates]
  simp only
  split
  · next none =>
    rw [none]
    simp
  · next next found =>
    rw [found]
    simp only [dueAt, Std.ExtTreeMap.getElem?_insert, Std.compare_eq_iff_eq, Option.some.injEq]
    split
    · next same =>
      subst same
      simp only [Option.getD_some, Std.ExtTreeSet.mem_insert, Std.compare_eq_iff_eq, and_true]
      constructor
      · rintro (same | listed)
        · exact .inr same.symm
        · exact .inl listed
      · rintro (listed | same)
        · exact .inr listed
        · exact .inl same.symm
    · next different => simp only [different, and_false, or_false]

/-- After a name was put on the schedule, it is listed no later than any of its
coming dates. -/
theorem exists_dueAt_scheduleNext {name : Bytes} {height date : Height}
    (coming : date ∈ (ledger.standing name).dates) (later : height < date) :
    ∃ key, height < key ∧ key ≤ date ∧ name ∈ (ledger.scheduleNext name height).dueAt key := by
  have member : date ∈ (ledger.standing name).dates.filter fun h => height < h := by
    simp [coming, later]
  cases found : ((ledger.standing name).dates.filter fun h => height < h).min? with
  | none =>
    rw [List.min?_eq_none_iff] at found
    rw [found] at member
    cases member
  | some next =>
    obtain ⟨listed, least⟩ := List.min?_eq_some_iff.mp found
    simp only [List.mem_filter, decide_eq_true_eq] at listed
    exact ⟨next, listed.2, least date member, mem_dueAt_scheduleNext.mpr (.inr ⟨rfl, found⟩)⟩

/-! ## Settling one name -/

theorem standing_of_not_mem {name : Bytes} (unused : name ∉ ledger.names) :
    ledger.standing name = {} := by
  have nothing : ledger.entry name = {} := by
    rw [entry]
    rw [Std.ExtTreeMap.getElem?_eq_none unused]
    rfl
  rw [standing]
  rw [nothing]
  rfl

theorem settle_of_mem {name : Bytes} (used : name ∈ ledger.names) (height : Height) :
    ledger.settle name height =
      (((ledger.updateControl name height).1.refreshEffective name height).scheduleNext name height,
        (ledger.updateControl name height).2) := by
  rw [settle]
  rw [if_pos (Std.ExtTreeMap.contains_iff_mem.mpr used)]

theorem settle_of_not_mem {name : Bytes} (unused : name ∉ ledger.names) (height : Height) :
    ledger.settle name height = (ledger, none) := by
  rw [settle]
  rw [if_neg fun used => unused (Std.ExtTreeMap.contains_iff_mem.mp used)]

theorem indexed_refreshEffective (indexed : ledger.Indexed) (name : Bytes) (height : Height) :
    (ledger.refreshEffective name height).Indexed := by
  refine (rewrites_refreshEffective indexed name height).indexed indexed (fun claim => ?_)
    fun _ => ⟨rfl, rfl⟩
  rw [Claim.mapUnder]
  split <;> exact ⟨rfl, rfl, rfl⟩

theorem standing_refreshEffective (indexed : ledger.Indexed) (name other : Bytes)
    (height : Height) :
    (ledger.refreshEffective name height).standing other =
      if name = other then (ledger.standing name).refreshed height else ledger.standing other := by
  have rewrites := (rewrites_refreshEffective indexed name height).congr (fun _ _ _ => rfl)
    fun _ support _ => (show id support = support.mapUnder name id by simp [Support.mapUnder])
  rw [rewrites.standing_under indexed other, List.map_id]
  rfl

theorem indexed_settle (indexed : ledger.Indexed) (name : Bytes) (height : Height) :
    (ledger.settle name height).1.Indexed := by
  by_cases used : name ∈ ledger.names
  · simp only [settle_of_mem used]
    apply indexed_scheduleNext
    apply indexed_refreshEffective
    exact indexed_updateControl indexed name height
  · rw [settle_of_not_mem used]
    exact indexed

/-- Settling a name settles its standing and leaves the others alone. -/
theorem standing_settle (indexed : ledger.Indexed) (name other : Bytes) (height : Height) :
    (ledger.settle name height).1.standing other =
      if name = other then (ledger.standing name).settled height else ledger.standing other := by
  by_cases used : name ∈ ledger.names
  · rw [settle_of_mem used]
    simp only [standing_scheduleNext,
      standing_refreshEffective (indexed_updateControl indexed name height),
      standing_updateControl indexed, if_true]
    split
    · rfl
    · next different => rfl
  · rw [settle_of_not_mem used]
    split
    · next same =>
      subst same
      rw [standing_of_not_mem used, (Standing.settled_empty height).settled_eq]
    · rfl

/-- Settling a name reports what its standing decides. -/
theorem settle_change (indexed : ledger.Indexed) (name : Bytes) (height : Height) :
    (ledger.settle name height).2 = ((ledger.standing name).decided height).2 := by
  by_cases used : name ∈ ledger.names
  · rw [settle_of_mem used]
    exact updateControl_change indexed name height
  · rw [settle_of_not_mem used, standing_of_not_mem used,
      (Standing.settled_empty height).decided_eq]

end Ledger

end ClaimLedger
