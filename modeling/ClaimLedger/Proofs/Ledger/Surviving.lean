/-
# What a block may change in a row

A row that a block leaves live says the same about where it comes from as before. When it starts
to count may be brought forward, but only to the height of the block, and only under a name whose
best competing claim, once all events of the block are in, is not the recorded controller. Then
everything that waits under the name is brought forward, also where the controller turns out to
be confirmed. A row whose time is over is not touched any more, up to the block that spends its
output.
-/

import ClaimLedger.Proofs.Ledger.Accounted
import ClaimLedger.Proofs.Ledger.Admission
import ClaimLedger.Proofs.Ledger.Defined
import ClaimLedger.Proofs.Ledger.Lasting
import ClaimLedger.Proofs.Ledger.Verified

namespace ClaimLedger

/-- How a block may change the height at which something that was created starts to count. -/
structure Advanced (contested : Prop) (height created old new : Height) : Prop where
  notBeforeCreation : created ≤ new
  notLater : new ≤ old
  changed : new ≠ old → contested ∧ new = height

/-- Settling a name brings a start forward or leaves it alone. -/
theorem Standing.advanced_settledTerm {standing : Standing} {height created : Height} {term : Term}
    (early : created ≤ (standing.settledTerm height term).activation) :
    Advanced (standing.Contested height) height created term.activation
      (standing.settledTerm height term).activation := by
  refine ⟨early, ?_, ?_⟩
  · rw [settledTerm]
    split
    · exact term.activation_activateBy_le height
    · exact UInt32.le_refl _
  · intro moved
    by_cases contested : standing.Contested height
    · rw [settledTerm_of_contested contested] at moved ⊢
      refine ⟨contested, ?_⟩
      by_cases waits : term.isPendingAt height = true
      · rw [Term.activateBy_of_isPendingAt waits]
      · rw [Term.activateBy_of_not_isPendingAt waits] at moved
        exact absurd rfl moved
    · rw [settledTerm_of_not_contested contested] at moved
      exact absurd rfl moved

namespace Ledger

/-- What the events of a block make of a ledger, before any name is settled. -/
def unsettled (before : Ledger) (height : Height) (txs : List BlockTx) : Ledger :=
  ((BlockWork.start before height).run height txs).ledger

/-- The best competing claim on the name is not the recorded controller. -/
def Contested (ledger : Ledger) (name : Bytes) (height : Height) : Prop :=
  ledger.bestClaim? name height ≠ (ledger.takeover? name).map Takeover.claim

theorem contested_iff (ledger : Ledger) (name : Bytes) (height : Height) :
    (ledger.standing name).Contested height ↔ ledger.Contested name height := by
  rw [Standing.Contested, Contested, bestClaim?_eq, takeover?_eq_standing]
  rfl

/-- What a block at a height may change in the rows that are live before and after it. -/
structure Framed (height : Height) (txs : List BlockTx) (before after : Ledger) : Prop where
  /-- A claim keeps its hash, its name, and when and where it was created. -/
  claims : ∀ (hash : ClaimHash) (old claim : Claim), before.claims[hash]? = some old →
    after.claims[hash]? = some claim →
      claim.origin = old.origin ∧
        Advanced ((before.unsettled height txs).Contested claim.name height) height
          claim.created old.term.activation claim.term.activation
  /-- A support keeps everything but when it starts to count. -/
  supports : ∀ (outpoint : OutPoint) (old support : Support),
    before.supports[outpoint]? = some old → after.supports[outpoint]? = some support →
      support = { old with term.activation := support.term.activation } ∧
        Advanced ((before.unsettled height txs).Contested support.name height) height
          support.created old.term.activation support.term.activation
  /-- Where control is contested, everything that waits starts to count. -/
  admitted : ∀ name : Bytes, (before.unsettled height txs).Contested name height →
    (∀ (hash : ClaimHash) (claim : Claim),
      (before.unsettled height txs).claims[hash]? = some claim → claim.name = name →
        claim.term.isPendingAt height = true → ∃ effective, after.claims[hash]? =
          some { claim with term.activation := height, effective }) ∧
    ∀ (outpoint : OutPoint) (support : Support),
      (before.unsettled height txs).supports[outpoint]? = some support → support.name = name →
        support.term.isPendingAt height = true →
          after.supports[outpoint]? = some { support with term.activation := height }
  /-- Where control changed, nothing is left waiting. -/
  cleared : ∀ name : Bytes, after.takeover? name ≠ before.takeover? name →
    (∀ (hash : ClaimHash) (claim : Claim), after.claims[hash]? = some claim → claim.name = name →
      claim.term.isPendingAt height = false) ∧
    ∀ (outpoint : OutPoint) (support : Support), after.supports[outpoint]? = some support →
      support.name = name → support.term.isPendingAt height = false

/-- What is expired at a height stays as it is through the blocks that do not spend it. -/
structure Frozen (height : Height) (more : List (List BlockTx)) (before after : Ledger) :
    Prop where
  claims : ∀ (hash : ClaimHash) (claim : Claim), before.claims[hash]? = some claim →
    claim.term.isExpiredAt height = true → claim.outpoint ∉ more.flatMap BlockTx.allSpends →
      after.claims[hash]? = some claim
  supports : ∀ (outpoint : OutPoint) (support : Support),
    before.supports[outpoint]? = some support → support.term.isExpiredAt height = true →
      outpoint ∉ more.flatMap BlockTx.allSpends → after.supports[outpoint]? = some support

/-! ## Supports count from their creation on -/

/-- No support counts before it was created, and every support was created within so many
blocks. -/
abbrev Seasoned (blocks : Nat) : Ledger → Prop :=
  EachRow (fun hash claim => claim.hash = hash) fun outpoint support =>
    support.outpoint = outpoint ∧ support.created ≤ support.term.activation ∧
      support.created.toNat < blocks

theorem upheld_seasoned {height : Height} (low : height.toNat < 0x80000000)
    (txs : List BlockTx) : Upheld False height txs
      (fun hash claim => claim.hash = hash) fun outpoint support =>
        support.outpoint = outpoint ∧ support.created ≤ support.term.activation ∧
          support.created.toNat < height.toNat + 1 where
  claim_hash := id
  support_outpoint := And.left
  newClaim := by
    intros
    rfl
  moved := by
    intro _ _ _ _ _ _ _ _ _ here
    exact here
  newSupport := by
    intro ledger tx outpoint name hash amount _
    refine ⟨rfl, ?_, Nat.lt_succ_self _⟩
    have short := ledger.toNat_newcomerDelay_le name height
    rw [newSupport, UInt32.le_iff_toNat_le]
    simp only
    split
    · simp
    · rw [UInt32.toNat_add]
      omega
  admittedClaim := id
  admittedSupport := by
    rintro outpoint support ⟨here, early, within⟩
    refine ⟨here, ?_, within⟩
    rw [Support.admitted, Term.activateBy]
    split
    · exact UInt32.le_iff_toNat_le.mpr (Nat.le_of_lt_succ within)
    · exact early
  refreshed := fun _ => id

variable {rules : Rules} {blocks more : List (List BlockTx)} {txs : List BlockTx}
variable {ledger : Ledger} {summaries : List BlockSummary}

theorem seasoned_of_replay (low : blocks.length ≤ 0x80000000)
    (run : Engine.replay applyBlock rules blocks = .ok (ledger, summaries)) :
    ledger.Seasoned blocks.length := by
  induction blocks using List.reverseRecOn generalizing ledger summaries with
  | nil =>
    cases run
    exact EachRow.empty rules
  | append_singleton blocks txs ih =>
    obtain ⟨before, earlier, summary, run, done, -⟩ := Engine.replay_concat_eq_ok.mp run
    have isHeight := toNat_next_of_replay run (applyBlock_ok done).1
    rw [List.length_append, List.length_singleton] at low ⊢
    have seasoned := ih (Nat.le_of_succ_le low) run
    rw [← isHeight] at seasoned low ⊢
    have seasoned : before.Seasoned ((Height.next before.height).toNat + 1) :=
      seasoned.mono id fun ⟨here, early, within⟩ => ⟨here, early, Nat.lt_succ_of_lt within⟩
    have after := EachRow.applyBlock (upheld_seasoned low txs) seasoned False.elim
    rw [done] at after
    exact after

/-! ## Through one block -/

section Block

variable {before after : Ledger} {earlier : List OutPoint} {created : List ClaimHash}
variable {height : Height} {hash : ClaimHash} {claim : Claim} {outpoint : OutPoint}
variable {support : Support}

/-- What is expired shows no amount after a block. -/
theorem Sound.effective_eq_zero (sound : ledger.Sound) (reached : ledger.height = some height)
    (live : ledger.claims[hash]? = some claim) (expired : claim.term.isExpiredAt height = true) :
    claim.effective = 0 := by
  have listed := ((getElem?_claims_eq_some_iff sound.indexed).mp live).2
  rw [(sound.settled reached claim.name).effective claim listed, Standing.effective,
    if_neg (Term.not_isActiveAt_of_isExpiredAt expired)]

namespace Adds

variable (adds : Adds height earlier created txs before after)

include adds

/-- The events of a block change no record of control. -/
theorem takeover?_unsettled (name : Bytes) :
    ((before.unsettled height txs).standing name).takeover = (before.standing name).takeover :=
  adds.taken.reached.edits.takeover_eq
    (BlockWork.indexed_start adds.extended.sound.indexed height) name

theorem getElem?_claims (hash : ClaimHash) : ∃ effective,
    after.claims[hash]? = (before.unsettled height txs).claims[hash]?.map fun claim =>
      { claim with
        term := ((before.unsettled height txs).standing claim.name).settledTerm height claim.term
        effective } :=
  adds.taken.getElem?_claims adds.extended.sound hash

theorem getElem?_supports (outpoint : OutPoint) :
    after.supports[outpoint]? = (before.unsettled height txs).supports[outpoint]?.map fun support =>
      { support with
        term := ((before.unsettled height txs).standing support.name).settledTerm height
          support.term } :=
  adds.taken.getElem?_supports adds.extended.sound outpoint

/-- A claim that outlives a block was moved by its updates before the name was settled. -/
theorem claim_kept {old : Claim} (was : before.claims[hash]? = some old)
    (live : after.claims[hash]? = some claim) :
    ∃ moved effective,
      moved = (BlockTx.allEvents txs).foldl (Claim.updatedBy before.rules height) old ∧
      claim =
        { moved with
          term := ((before.unsettled height txs).standing moved.name).settledTerm height
            moved.term
          effective } := by
  obtain ⟨effective, settled⟩ := adds.getElem?_claims hash
  rw [settled] at live
  obtain ⟨moved, phases, rfl⟩ := Option.map_eq_some_iff.mp live
  obtain ⟨source, origin, isMoved, -⟩ := (adds.extended.getElem?_claims_run_iff height).mp phases
  refine ⟨moved, effective, ?_, rfl⟩
  rcases origin with live | ⟨event, listed, born⟩
  · rw [was, Option.some.injEq] at live
    rw [← isMoved, live]
  · exact absurd (List.mem_filterMap.mpr ⟨event, listed, (of_born?_eq_some born).1⟩)
      (adds.extended.uncreated was)

theorem support_kept {old : Support} (was : before.supports[outpoint]? = some old)
    (live : after.supports[outpoint]? = some support) :
    support = { old with
      term := ((before.unsettled height txs).standing old.name).settledTerm height old.term } := by
  rw [adds.getElem?_supports] at live
  obtain ⟨same, phases, rfl⟩ := Option.map_eq_some_iff.mp live
  obtain ⟨-, live | ⟨event, listed, pledged⟩⟩ :=
    (adds.extended.getElem?_supports_run_iff height).mp phases
  · rw [was, Option.some.injEq] at live
    rw [live]
  · exact absurd (List.mem_filterMap.mpr ⟨event, listed, of_pledged?_eq_some pledged⟩)
      (adds.extended.unproduced was)

/-- Control of a name only changes where it is contested. -/
theorem contested_of_ne {name : Bytes} (changed : after.takeover? name ≠ before.takeover? name) :
    ((before.unsettled height txs).standing name).Contested height := by
  by_contra agreed
  apply changed
  rw [takeover?_eq_standing, takeover?_eq_standing, adds.taken.standing_eq adds.extended.sound,
    ← adds.takeover?_unsettled]
  exact Standing.takeover_settled_of_not_contested agreed

/-- A block changes no more than it may. -/
theorem framed {count : Nat} (seasoned : after.Seasoned count) :
    Framed height txs before after where
  claims := by
    intro hash old claim was live
    have listed := ((getElem?_claims_eq_some_iff adds.sound.indexed).mp live).2
    have early := (adds.sound.settled adds.height_eq claim.name).early claim listed
    obtain ⟨moved, effective, isMoved, rfl⟩ := adds.claim_kept was live
    obtain ⟨sameOrigin, sameStart⟩ :=
      Claim.foldl_updatedBy_keeps before.rules height old (BlockTx.allEvents txs)
    rw [← isMoved] at sameOrigin sameStart
    refine ⟨sameOrigin, ?_⟩
    rw [← contested_iff, ← sameStart]
    exact Standing.advanced_settledTerm early
  supports := by
    intro outpoint old support was live
    have early := (seasoned.supports live).2.1
    obtain rfl := adds.support_kept was live
    refine ⟨congrArg (fun term => { old with term }) (Standing.settledTerm_eq old.term), ?_⟩
    rw [← contested_iff]
    exact Standing.advanced_settledTerm early
  admitted := by
    intro name contested
    rw [← contested_iff] at contested
    refine ⟨fun hash claim phases named waits => ?_, fun outpoint support phases named waits => ?_⟩
    · subst named
      obtain ⟨effective, settled⟩ := adds.getElem?_claims hash
      refine ⟨effective, ?_⟩
      rw [settled, phases, Option.map_some, Standing.settledTerm_of_contested contested,
        Term.activateBy_of_isPendingAt waits]
    · subst named
      rw [adds.getElem?_supports, phases, Option.map_some,
        Standing.settledTerm_of_contested contested, Term.activateBy_of_isPendingAt waits]
  cleared := by
    intro name changed
    have contested := adds.contested_of_ne changed
    have begun (term : Term) : (((before.unsettled height txs).standing name).settledTerm height
        term).isPendingAt height = false := by
      rw [Standing.settledTerm_of_contested contested]
      exact Bool.eq_false_iff.mpr (Term.isPendingAt_activateBy term height)
    refine ⟨fun hash claim live named => ?_, fun outpoint support live named => ?_⟩
    · obtain ⟨effective, settled⟩ := adds.getElem?_claims hash
      rw [settled] at live
      obtain ⟨moved, -, rfl⟩ := Option.map_eq_some_iff.mp live
      subst named
      exact begun moved.term
    · rw [adds.getElem?_supports] at live
      obtain ⟨old, -, rfl⟩ := Option.map_eq_some_iff.mp live
      subst named
      exact begun old.term

/-- A claim that has expired, and shows no amount any more, is left as it is. -/
theorem claim_frozen (live : before.claims[hash]? = some claim)
    (expired : claim.term.isExpiredAt height = true) (silent : claim.effective = 0)
    (unspent : claim.outpoint ∉ BlockTx.allSpends txs) : after.claims[hash]? = some claim := by
  have phases : (before.unsettled height txs).claims[hash]? = some claim :=
    (adds.extended.getElem?_claims_run_iff height).mpr
      ⟨claim, .inl live, Claim.foldl_updatedBy_of_isExpiredAt expired _, unspent⟩
  obtain ⟨effective, settled⟩ := adds.getElem?_claims hash
  rw [phases, Option.map_some, Standing.settledTerm_of_isExpiredAt expired] at settled
  have none : effective = 0 := adds.sound.effective_eq_zero adds.height_eq settled expired
  rw [settled, none, ← silent]

theorem support_frozen (live : before.supports[outpoint]? = some support)
    (expired : support.term.isExpiredAt height = true)
    (unspent : outpoint ∉ BlockTx.allSpends txs) : after.supports[outpoint]? = some support := by
  have phases : (before.unsettled height txs).supports[outpoint]? = some support :=
    (adds.extended.getElem?_supports_run_iff height).mpr ⟨unspent, .inl live⟩
  rw [adds.getElem?_supports, phases, Option.map_some,
    Standing.settledTerm_of_isExpiredAt expired]

end Adds

end Block

/-! ## Along a chain -/

/-- What has expired after some blocks stays as it is through all further ones. -/
theorem frozen_of_replay {before : Ledger} {earlier : List BlockSummary} {height : Height}
    (fresh : Fresh (blocks ++ more))
    (start : Engine.replay applyBlock rules blocks = .ok (before, earlier))
    (reached : before.height = some height)
    (run : Engine.replay applyBlock rules (blocks ++ more) = .ok (ledger, summaries)) :
    Frozen height more before ledger := by
  have sound := (sound_and_grounded_of_replay fresh.left start).1
  have past := height_of_replay start
  rw [reached, Option.elim_some] at past
  induction more using List.reverseRecOn generalizing ledger summaries with
  | nil =>
    rw [List.append_nil, start] at run
    cases run
    exact ⟨fun _ _ live _ _ => live, fun _ _ live _ _ => live⟩
  | append_singleton more txs ih =>
    rw [← List.append_assoc] at fresh run
    obtain ⟨between, _, last, run, adds⟩ := adds_of_replay fresh run
    have frozen := ih fresh.init run
    have later : height ≤ last := by
      have isNext := toNat_next_of_replay run adds.taken.notTop
      rw [← adds.taken.next, List.length_append] at isNext
      rw [UInt32.le_iff_toNat_le]
      omega
    refine ⟨fun hash claim live expired unspent => ?_,
      fun outpoint support live expired unspent => ?_⟩
    · obtain ⟨unspent, kept⟩ := BlockTx.unspent_concat_iff.mp unspent
      exact adds.claim_frozen (frozen.claims hash claim live expired unspent)
        (Term.isExpiredAt_of_le expired later) (sound.effective_eq_zero reached live expired) kept
    · obtain ⟨unspent, kept⟩ := BlockTx.unspent_concat_iff.mp unspent
      exact adds.support_frozen (frozen.supports outpoint support live expired unspent)
        (Term.isExpiredAt_of_le expired later) kept

/-- A block in a chain that never repeats an output or a claim changes no more than it may in
the rows that it leaves, and what has expired by its height is left alone by all later blocks
that do not spend it. -/
theorem framed_of_replay (fresh : Fresh (blocks ++ [txs] ++ more))
    (low : (blocks ++ [txs] ++ more).length ≤ 0x80000000)
    (run : Engine.replay applyBlock rules (blocks ++ [txs] ++ more) = .ok (ledger, summaries)) :
    ∃ before after earlier between height,
      Engine.replay applyBlock rules blocks = .ok (before, earlier) ∧
      Engine.replay applyBlock rules (blocks ++ [txs]) = .ok (after, between) ∧
      after.height = some height ∧ Framed height txs before after ∧
      Frozen height more after ledger := by
  obtain ⟨after, between, middle, -⟩ := outlasts_of_replay fresh run
  obtain ⟨before, earlier, height, start, adds⟩ := adds_of_replay fresh.left middle
  rw [List.length_append] at low
  have seasoned := seasoned_of_replay (Nat.le_of_add_right_le low) middle
  exact ⟨before, after, earlier, between, height, start, middle, adds.height_eq,
    adds.framed seasoned, frozen_of_replay fresh middle adds.height_eq run⟩

/-- Rules under which a newcomer waits as long as the controller has been in place, and expires
after three blocks. -/
def shortRules : Rules :=
  { Rules.regtest with delayFactor := 1, baseLifetime := 3 }

/-- A claim, and two blocks later another one on the name that waits, with its support, for
longer than the first one lasts. -/
def successor : List (List BlockTx) :=
  let output (index : UInt32) : OutPoint := ⟨Digest.zero 32, index⟩
  let claim : UInt8 → ClaimHash := Digest.filled 20
  [[⟨Digest.zero 32, 0, [.create (output 0) [0x61] (claim 1) 5 []]⟩], [],
    [⟨Digest.zero 32, 0, [.create (output 1) [0x61] (claim 2) 3 [],
      .support (output 2) [0x61] (claim 2) 1]⟩]]

/-- The empty block in which the first claim expires brings the second one and its support
forward, and the first one is left alone from there on. -/
theorem framed_successor :
    ∃ before after ledger earlier between summaries,
      Engine.replay applyBlock shortRules successor = .ok (before, earlier) ∧
      Engine.replay applyBlock shortRules (successor ++ [[]]) = .ok (after, between) ∧
      Engine.replay applyBlock shortRules (successor ++ [[]] ++ [[], []]) =
        .ok (ledger, summaries) ∧
      (before.claims.values.map fun claim => claim.term.activation) = [0, 4] ∧
      (before.supports.values.map fun support => support.term.activation) = [4] ∧
      (after.claims.values.map fun claim => claim.term.activation) = [0, 3] ∧
      (after.supports.values.map fun support => support.term.activation) = [3] ∧
      (after.claims.values.map fun claim => claim.term.isExpiredAt 3) = [true, false] ∧
      Framed 3 [] before after ∧ Frozen 3 [[], []] after ledger := by
  have start : (Engine.replay applyBlock shortRules successor).toOption.map (fun state =>
      (state.1.claims.values.map fun claim => claim.term.activation,
        state.1.supports.values.map fun support => support.term.activation)) =
      some ([0, 4], [4]) := by decide +kernel
  have middle : (Engine.replay applyBlock shortRules (successor ++ [[]])).toOption.map
      (fun state => (state.1.height, state.1.claims.values.map fun claim => claim.term.activation,
        state.1.supports.values.map fun support => support.term.activation,
        state.1.claims.values.map fun claim => claim.term.isExpiredAt 3)) =
      some (some 3, [0, 3], [3], [true, false]) := by decide +kernel
  have ending : (Engine.replay applyBlock shortRules (successor ++ [[]] ++ [[], []])).toOption.map
      (fun state => state.1.height) = some (some 5) := by decide +kernel
  obtain ⟨⟨before, earlier⟩, start, waiting⟩ := exists_of_map_toOption start
  obtain ⟨⟨after, between⟩, middle, shown⟩ := exists_of_map_toOption middle
  obtain ⟨⟨ledger, summaries⟩, run, -⟩ := exists_of_map_toOption ending
  obtain ⟨oldClaims, oldSupports⟩ := Prod.mk.inj waiting
  obtain ⟨reached, shown⟩ := Prod.mk.inj shown
  obtain ⟨claims, shown⟩ := Prod.mk.inj shown
  obtain ⟨supports, expired⟩ := Prod.mk.inj shown
  obtain ⟨_, _, _, _, height, start', middle', reached', framed, frozen⟩ :=
    framed_of_replay ⟨by decide +kernel, by decide +kernel⟩ (by decide) run
  rw [start, Except.ok.injEq, Prod.mk.injEq] at start'
  rw [middle, Except.ok.injEq, Prod.mk.injEq] at middle'
  obtain ⟨rfl, rfl⟩ := start'
  obtain ⟨rfl, rfl⟩ := middle'
  have isHeight : height = 3 := Option.some.inj (reached'.symm.trans reached)
  rw [isHeight] at framed frozen
  exact ⟨before, after, ledger, earlier, between, summaries, start, middle, run, oldClaims,
    oldSupports, claims, supports, expired, framed, frozen⟩

end Ledger

end ClaimLedger
