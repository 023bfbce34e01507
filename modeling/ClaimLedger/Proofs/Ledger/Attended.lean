/-
# No name is left unattended

A name has a controller exactly while some claim on it is not expired. Nobody may wait in vain:
a newcomer under a name without a controller does not wait at all, and when the controller goes,
everything that waits is let in before control is given up. This holds for every lifetime, also
for one that is over before the wait would be.

Most blocks leave a name alone, and a claim may expire in any of them. What carries the proof is
that a name without a controller holds expired claims only, which time alone cannot change.
-/

import ClaimLedger.Proofs.Ledger.Accounted
import ClaimLedger.Proofs.Ledger.Admission
import ClaimLedger.Proofs.Ledger.Control

namespace ClaimLedger

/-- Where nobody is in control, only expired claims are left. -/
def Standing.Abandoned (standing : Standing) (height : Height) : Prop :=
  standing.takeover = none → ∀ claim ∈ standing.claims, claim.term.isExpiredAt height = true

namespace Ledger

/-- Some claim on the name is not expired. -/
def Occupied (ledger : Ledger) (name : Bytes) (height : Height) : Prop :=
  ∃ (hash : ClaimHash) (claim : Claim), ledger.claims[hash]? = some claim ∧ claim.name = name ∧
    claim.term.isExpiredAt height = false

/-! ## Through one block -/

section Block

variable {before after : Ledger} {earlier : List OutPoint} {created : List ClaimHash}
variable {txs : List BlockTx} {height : Height} {name : Bytes} {claim : Claim}

/-- Nothing is waiting under an uncontrolled name when the phases of a block are over: what was
there is expired, and what is new competes at once. -/
theorem Adds.not_isPendingAt_run (adds : Adds height earlier created txs before after)
    (abandoned : ∀ last, before.height = some last → (before.standing name).Abandoned last)
    (nobody : (before.standing name).takeover = none)
    (listed : claim ∈
      (((BlockWork.start before height).run height txs).ledger.standing name).claims) :
    ¬ claim.term.isPendingAt height = true := by
  have sound := adds.extended.sound
  obtain ⟨live, named⟩ := (mem_standing_claims adds.taken.reached.indexed).mp listed
  obtain ⟨old, origin, moved, -⟩ := (adds.extended.getElem?_claims_run_iff height).mp live
  obtain ⟨sameOrigin, sameStart⟩ :=
    Claim.foldl_updatedBy_keeps before.rules height old (BlockTx.allEvents txs)
  have named : old.name = name :=
    (congrArg (fun origin => origin.2.1) sameOrigin).symm.trans (moved ▸ named)
  rw [← moved]
  rcases origin with live | ⟨event, -, born⟩
  · have listed := ((getElem?_claims_eq_some_iff sound.indexed).mp live).2
    rw [named] at listed
    cases reached : before.height with
    | none =>
      rw [standing_of_not_mem (sound.unused reached name)] at listed
      cases listed
    | some last =>
      have past : last ≤ height := by
        have notTop := adds.taken.notTop
        rw [reached, Ne, Option.some.injEq] at notTop
        rw [adds.taken.next, reached, UInt32.le_iff_toNat_le, toNat_next notTop]
        exact Nat.le_succ _
      have expired := Term.isExpiredAt_of_le (abandoned last reached nobody old listed) past
      rw [Claim.foldl_updatedBy_of_isExpiredAt expired]
      exact Term.not_isPendingAt_of_isExpiredAt expired
  · obtain ⟨outpoint, bytes, amount, owner, -, rfl⟩ := born?_eq_some_iff.mp born
    change bytes = name at named
    subst named
    have noWait : before.newcomerDelay bytes height = 0 := by
      rw [newcomerDelay, takeover?_eq_standing, nobody]
    apply Term.not_isPendingAt_of_le
    rw [sameStart, newClaim, noWait, UInt32.add_zero]
    exact UInt32.le_refl height

/-- A block leaves nothing but expired claims where it leaves nobody in control. -/
theorem Adds.abandoned (adds : Adds height earlier created txs before after)
    (abandoned : ∀ last, before.height = some last → (before.standing name).Abandoned last) :
    (after.standing name).Abandoned height := by
  intro nobody claim listed
  have sound := adds.extended.sound
  have settled := adds.taken.settled sound name
  have noBest : (after.standing name).best? height = none := by
    rw [settled.control, Standing.controller?, nobody]
    rfl
  have inactive := (Standing.best?_eq_none_iff _ _).mp noBest claim listed
  refine Term.isExpiredAt_of_not inactive ?_
  rw [adds.taken.standing_eq sound] at nobody listed
  obtain ⟨effective, claims⟩ := Standing.exists_claims_settled
    (((BlockWork.start before height).run height txs).ledger.standing name) height
  rw [claims] at listed
  obtain ⟨old, member, rfl⟩ := List.mem_map.mp listed
  by_cases contested :
      (((BlockWork.start before height).run height txs).ledger.standing name).Contested height
  · rw [Standing.settledTerm_of_contested contested]
    exact Term.isPendingAt_activateBy _ _
  · rw [Standing.settledTerm_of_not_contested contested]
    rw [Standing.takeover_settled_of_not_contested contested] at nobody
    have unattended : (before.standing name).takeover = none := by
      rw [← nobody]
      exact (adds.taken.reached.edits.takeover_eq
        (BlockWork.indexed_start sound.indexed height) name).symm
    change ¬ old.term.isPendingAt height = true
    exact adds.not_isPendingAt_run abandoned unattended member

end Block

/-! ## Along a chain -/

variable {rules : Rules} {blocks : List (List BlockTx)} {txs : List BlockTx} {ledger : Ledger}
variable {summaries : List BlockSummary} {height : Height}

theorem abandoned_of_replay (fresh : Fresh blocks)
    (run : Engine.replay applyBlock rules blocks = .ok (ledger, summaries))
    (reached : ledger.height = some height) (name : Bytes) :
    (ledger.standing name).Abandoned height := by
  induction blocks using List.reverseRecOn generalizing ledger summaries height with
  | nil =>
    cases run
    cases reached
  | append_singleton blocks txs ih =>
    obtain ⟨before, earlier, last, start, adds⟩ := adds_of_replay fresh run
    obtain rfl : last = height := Option.some.inj (adds.height_eq.symm.trans reached)
    exact adds.abandoned fun _ reached => ih fresh.init start reached

/-- Somebody controls a name exactly while some claim on it is not expired. -/
theorem isSome_takeover?_iff_occupied (fresh : Fresh blocks)
    (run : Engine.replay applyBlock rules blocks = .ok (ledger, summaries))
    (reached : ledger.height = some height) (name : Bytes) :
    (ledger.takeover? name).isSome = true ↔ ledger.Occupied name height := by
  have sound := (sound_and_grounded_of_replay fresh run).1
  constructor
  · intro controlled
    obtain ⟨hash, claim, live, named, active⟩ :=
      (contested_of_settled sound.indexed (sound.settled reached name)).mp controlled
    refine ⟨hash, claim, live, named, Bool.eq_false_iff.mpr fun expired => ?_⟩
    exact Term.not_isActiveAt_of_isExpiredAt expired active
  · rintro ⟨hash, claim, live, rfl, unexpired⟩
    rw [Option.isSome_iff_ne_none, takeover?_eq_standing]
    intro nobody
    have listed := ((getElem?_claims_eq_some_iff sound.indexed).mp live).2
    rw [abandoned_of_replay fresh run reached claim.name nobody claim listed] at unexpired
    cases unexpired

/-- What control of a name says about the claims on it, before and after a block at the
height. -/
structure Attended (before after : Ledger) (height : Height) (name : Bytes) : Prop where
  /-- Somebody is in control exactly while some claim is not expired. -/
  controlled : (after.takeover? name).isSome = true ↔ after.Occupied name height
  /-- Where nobody is in control, every claim is expired. -/
  expired : after.takeover? name = none →
    ∀ (hash : ClaimHash) (claim : Claim), after.claims[hash]? = some claim → claim.name = name →
      claim.term.isExpiredAt height = true
  /-- Where nobody is in control, no claim waits. -/
  waiting : after.takeover? name = none →
    ∀ (hash : ClaimHash) (claim : Claim), after.claims[hash]? = some claim → claim.name = name →
      claim.term.isPendingAt height = false
  /-- Control is given up only with the last claim that is not expired. -/
  cleared : ∀ takeover, before.takeover? name = some takeover → after.takeover? name = none →
    (∃ last, before.height = some last ∧ before.Occupied name last) ∧ ¬ after.Occupied name height

/-- After every block of a chain that never repeats an output or a claim, and for every name,
only expired claims are left where nobody is in control. -/
theorem attended_of_replay (fresh : Fresh (blocks ++ [txs]))
    (run : Engine.replay applyBlock rules (blocks ++ [txs]) = .ok (ledger, summaries))
    (name : Bytes) :
    ∃ before earlier height,
      Engine.replay applyBlock rules blocks = .ok (before, earlier) ∧
        ledger.height = some height ∧ Attended before ledger height name := by
  obtain ⟨before, earlier, height, start, adds⟩ := adds_of_replay fresh run
  have reached := adds.height_eq
  have controlled := isSome_takeover?_iff_occupied fresh run reached name
  have vacant (nobody : ledger.takeover? name = none) : ¬ ledger.Occupied name height := by
    rw [← controlled, nobody]
    exact Bool.false_ne_true
  have expired (nobody : ledger.takeover? name = none) (hash : ClaimHash) (claim : Claim)
      (live : ledger.claims[hash]? = some claim) (named : claim.name = name) :
      claim.term.isExpiredAt height = true := by
    by_contra unexpired
    exact vacant nobody ⟨hash, claim, live, named, Bool.eq_false_iff.mpr unexpired⟩
  refine ⟨before, earlier, height, start, reached, controlled, expired, ?_, ?_⟩
  · intro nobody hash claim live named
    exact Bool.eq_false_iff.mpr
      (Term.not_isPendingAt_of_isExpiredAt (expired nobody hash claim live named))
  · intro takeover recorded nobody
    refine ⟨?_, vacant nobody⟩
    cases last : before.height with
    | none =>
      have unused := (sound_and_grounded_of_replay fresh.init start).1.unused last name
      rw [takeover?_eq_standing, standing_of_not_mem unused] at recorded
      cases recorded
    | some last' =>
      refine ⟨last', rfl, (isSome_takeover?_iff_occupied fresh.init start last name).mp ?_⟩
      rw [recorded]
      rfl

/-- Rules under which a newcomer waits as long as the controller has been in place, and expires
after two blocks. -/
def hastyRules : Rules :=
  { Rules.regtest with delayFactor := 1, baseLifetime := 2 }

/-- Three claims on one name, one in each block. The wait of the third would be over when it
expires; it is let in when the second one takes control from the first. -/
def relay : List (List BlockTx) :=
  let output (index : UInt32) : OutPoint := ⟨Digest.zero 32, index⟩
  let claim : UInt8 → ClaimHash := Digest.filled 20
  [[⟨Digest.zero 32, 0, [.create (output 0) [0x61] (claim 1) 5 []]⟩],
    [⟨Digest.zero 32, 0, [.create (output 1) [0x61] (claim 2) 8 []]⟩],
    [⟨Digest.zero 32, 0, [.create (output 2) [0x61] (claim 3) 3 []]⟩], []]

/-- When the third one has expired as well, control is given up. -/
theorem attended_relay :
    ∃ before after earlier summaries,
      Engine.replay applyBlock hastyRules relay = .ok (before, earlier) ∧
      Engine.replay applyBlock hastyRules (relay ++ [[]]) = .ok (after, summaries) ∧
        (before.takeover? [0x61]).isSome = true ∧ after.takeover? [0x61] = none ∧
        after.claims.size = 3 ∧ Attended before after 4 [0x61] := by
  have start : (Engine.replay applyBlock hastyRules relay).toOption.map (fun state =>
      (state.1.takeover? [0x61]).isSome) = some true := by decide +kernel
  have ending : (Engine.replay applyBlock hastyRules (relay ++ [[]])).toOption.map (fun state =>
      (state.1.height, state.1.takeover? [0x61], state.1.claims.size)) =
      some (some 4, none, 3) := by decide +kernel
  obtain ⟨⟨before, earlier⟩, start, controlled⟩ := exists_of_map_toOption start
  obtain ⟨⟨after, summaries⟩, run, shown⟩ := exists_of_map_toOption ending
  obtain ⟨reached, shown⟩ := Prod.mk.inj shown
  obtain ⟨nobody, size⟩ := Prod.mk.inj shown
  obtain ⟨_, _, height, start', reached', attended⟩ :=
    attended_of_replay ⟨by decide +kernel, by decide +kernel⟩ run [0x61]
  rw [start, Except.ok.injEq, Prod.mk.injEq] at start'
  obtain ⟨rfl, rfl⟩ := start'
  have isHeight : height = 4 := Option.some.inj (reached'.symm.trans reached)
  rw [isHeight] at attended
  exact ⟨before, after, earlier, summaries, start, run, controlled, nobody, size, attended⟩

end Ledger

end ClaimLedger
