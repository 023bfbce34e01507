/-
# Rows and the events of a chain

What is live after a chain can be told from its events, without going through the blocks.
The supports are those whose outputs were not spent. A claim is in an output that was not
spent and that was produced for it, by its creation or by an update under its name; the one
that it was created in, as long as that output is not spent. Nothing but spending ends a row:
settling may let it in early, and an expired row stays where it is.

An output may be spent in the block that produces it, on either side of its transaction, but
not in an earlier block.
-/

import ClaimLedger.Proofs.Ledger.Admission
import ClaimLedger.Proofs.Ledger.Extended

namespace ClaimLedger

/-- Where updates move a claim, one of them says so, under the name of the claim. -/
theorem Claim.foldl_updatedBy_cases (rules : Rules) (height : Height) (claim : Claim)
    (events : List (BlockTx × TxEvent)) :
    let now := events.foldl (updatedBy rules height) claim
    now.hash = claim.hash ∧ (now = claim ∨
      ∃ tx, (tx, .update now.outpoint now.name now.hash now.amount now.owner) ∈ events) := by
  induction events generalizing claim with
  | nil => exact ⟨rfl, .inl rfl⟩
  | cons event more ih =>
    have step : (claim.updatedBy rules height event).hash = claim.hash ∧
        (claim.updatedBy rules height event = claim ∨
          event.2 = .update (claim.updatedBy rules height event).outpoint
            (claim.updatedBy rules height event).name (claim.updatedBy rules height event).hash
            (claim.updatedBy rules height event).amount
            (claim.updatedBy rules height event).owner) := by
      unfold updatedBy
      split
      · next tx outpoint name hash amount owner =>
        split
        · next accepted =>
          obtain ⟨rfl, fits⟩ := accepted
          have named : claim.name = name := not_not.mp fun different => fits (.inl different)
          exact ⟨rfl, .inr (by rw [← named]; rfl)⟩
        · exact ⟨rfl, .inl rfl⟩
      · exact ⟨rfl, .inl rfl⟩
    obtain ⟨sameHash, moved⟩ := step
    obtain ⟨sameHash', moved'⟩ := ih (claim.updatedBy rules height event)
    refine ⟨sameHash'.trans sameHash, ?_⟩
    rw [List.foldl_cons]
    rcases moved' with same | ⟨tx, listed⟩
    · rw [same]
      rcases moved with unmoved | isUpdate
      · exact .inl unmoved
      · exact .inr ⟨event.1, isUpdate ▸ List.mem_cons_self⟩
    · exact .inr ⟨tx, List.mem_cons_of_mem event listed⟩

namespace BlockTx

/-- The events of a chain in order. -/
def history (blocks : List (List BlockTx)) : List TxEvent :=
  blocks.flatMap fun txs => txs.flatMap events

theorem mem_history_concat {blocks : List (List BlockTx)} {txs : List BlockTx} {event : TxEvent} :
    event ∈ history (blocks ++ [txs]) ↔
      event ∈ history blocks ∨ ∃ tx, (tx, event) ∈ allEvents txs := by
  have own : event ∈ txs.flatMap events ↔ ∃ tx, (tx, event) ∈ allEvents txs := by
    simp only [allEvents, List.mem_flatMap, List.mem_map, Prod.mk.injEq]
    constructor
    · rintro ⟨tx, isTx, listed⟩
      exact ⟨tx, tx, isTx, event, listed, rfl, rfl⟩
    · rintro ⟨_, tx, isTx, _, listed, rfl, rfl⟩
      exact ⟨tx, isTx, listed⟩
  rw [history, List.flatMap_append, List.flatMap_singleton, List.mem_append, own]
  rfl

/-- What a longer chain does not spend, neither its beginning nor its last block spends. -/
theorem unspent_concat_iff {blocks : List (List BlockTx)} {txs : List BlockTx}
    {outpoint : OutPoint} :
    outpoint ∉ (blocks ++ [txs]).flatMap allSpends ↔
      outpoint ∉ blocks.flatMap allSpends ∧ outpoint ∉ allSpends txs := by
  rw [List.flatMap_append, List.flatMap_singleton, List.mem_append, not_or]

end BlockTx

/-- No output is spent in a block before the one that produces it. -/
def Forward (blocks : List (List BlockTx)) : Prop :=
  blocks.Pairwise fun earlier later =>
    ∀ outpoint ∈ BlockTx.allSpends earlier, outpoint ∉ BlockTx.allOutputs later

instance (blocks : List (List BlockTx)) : Decidable (Forward blocks) :=
  inferInstanceAs (Decidable (List.Pairwise _ _))

namespace Forward

variable {blocks : List (List BlockTx)} {txs : List BlockTx}

theorem init (forward : Forward (blocks ++ [txs])) : Forward blocks :=
  (List.pairwise_append.mp forward).1

theorem unspent (forward : Forward (blocks ++ [txs])) {outpoint : OutPoint}
    (produced : outpoint ∈ BlockTx.allOutputs txs) :
    outpoint ∉ blocks.flatMap BlockTx.allSpends := by
  intro spent
  obtain ⟨earlier, isBlock, spent⟩ := List.mem_flatMap.mp spent
  exact (List.pairwise_append.mp forward).2.2 earlier isBlock txs (List.mem_singleton_self txs)
    outpoint spent produced

end Forward

namespace Ledger

section Block

variable {before after : Ledger} {earlier : List OutPoint} {created : List ClaimHash}
variable {txs : List BlockTx} {height : Height} {used : List OutPoint}
variable {hash : ClaimHash} {claim : Claim} {outpoint : OutPoint} {support : Support}

/-! ## What settling leaves of the rows -/

namespace Taken

variable {work : BlockWork}

/-- Settling keeps a claim that the phases leave, but for when it competes. -/
theorem claim_kept (taken : Taken height used before work after) (sound : before.Sound)
    (live : work.ledger.claims[hash]? = some claim) :
    ∃ term effective, after.claims[hash]? = some { claim with term, effective } := by
  obtain ⟨effective, settled⟩ := taken.getElem?_claims sound hash
  rw [settled, live]
  exact ⟨_, effective, rfl⟩

theorem support_kept (taken : Taken height used before work after) (sound : before.Sound)
    (live : work.ledger.supports[outpoint]? = some support) :
    ∃ term, after.supports[outpoint]? = some { support with term } := by
  rw [taken.getElem?_supports sound, live]
  exact ⟨_, rfl⟩

end Taken

/-! ## What a block leaves of the rows -/

theorem born?_eq_some_iff {event : BlockTx × TxEvent} :
    before.born? height hash event = some claim ↔
      ∃ outpoint name amount owner, event.2 = .create outpoint name hash amount owner ∧
        before.newClaim height event.1.index outpoint name hash amount owner = claim := by
  obtain ⟨tx, event⟩ := event
  constructor
  · intro born
    cases event with
    | create outpoint name other amount owner =>
      rw [born?] at born
      split at born
      · next same =>
        subst same
        exact ⟨outpoint, name, amount, owner, rfl, Option.some.inj born⟩
      · cases born
    | spend outpoint => cases born
    | update outpoint name other amount owner => cases born
    | support outpoint name other amount => cases born
  · rintro ⟨outpoint, name, amount, owner, rfl, rfl⟩
    exact if_pos rfl

theorem pledged?_eq_some_iff {event : TxEvent} :
    before.pledged? height outpoint event = some support ↔
      ∃ name claim amount, event = .support outpoint name claim amount ∧
        before.newSupport height outpoint name claim amount = support := by
  constructor
  · intro pledged
    cases event with
    | support produced name claim amount =>
      rw [pledged?] at pledged
      split at pledged
      · next same =>
        subst same
        exact ⟨name, claim, amount, rfl, Option.some.inj pledged⟩
      · cases pledged
    | spend produced => cases pledged
    | create produced name claim amount owner => cases pledged
    | update produced name claim amount owner => cases pledged
  · rintro ⟨name, claim, amount, rfl, rfl⟩
    exact if_pos rfl

/-- A block was taken in that extends a chain. -/
structure Adds (height : Height) (earlier : List OutPoint) (created : List ClaimHash)
    (txs : List BlockTx) (before after : Ledger) : Prop where
  extended : before.ExtendedBy earlier created txs
  taken : Taken height (earlier ++ BlockTx.allOutputs txs) before
    ((BlockWork.start before height).run height txs) after

namespace Adds

theorem height_eq (adds : Adds height earlier created txs before after) :
    after.height = some height := by
  obtain ⟨settled, -, rfl⟩ := adds.taken.settlement
  rfl

theorem sound (adds : Adds height earlier created txs before after) : after.Sound :=
  adds.taken.sound adds.extended.sound

/-- A claim stays in an output that the block does not spend, whether it was there or comes
with the block. -/
theorem claim_stays (adds : Adds height earlier created txs before after)
    (origin : before.claims[hash]? = some claim ∨
      ∃ event ∈ BlockTx.allEvents txs, before.born? height hash event = some claim)
    (unspent : claim.outpoint ∉ BlockTx.allSpends txs) :
    ∃ term effective, after.claims[hash]? = some { claim with term, effective } := by
  apply adds.taken.claim_kept adds.extended.sound
  rw [adds.extended.getElem?_claims_run_iff]
  have unmoved : (BlockTx.allEvents txs).foldl (Claim.updatedBy before.rules height) claim =
      claim := by
    apply Claim.foldl_updatedBy_of_not_spent
    rintro ⟨tx, event⟩ listed spends
    obtain ⟨tx', isTx, own⟩ := List.mem_flatMap.mp listed
    obtain ⟨_, _, same⟩ := List.mem_map.mp own
    cases same
    exact unspent (List.mem_flatMap.mpr ⟨tx, isTx, spends⟩)
  exact ⟨claim, origin, unmoved, unspent⟩

/-- A support stays in an output that the block does not spend. -/
theorem support_stays (adds : Adds height earlier created txs before after)
    (origin : before.supports[outpoint]? = some support ∨
      ∃ event ∈ BlockTx.allEvents txs, before.pledged? height outpoint event.2 = some support)
    (unspent : outpoint ∉ BlockTx.allSpends txs) :
    ∃ term, after.supports[outpoint]? = some { support with term } := by
  apply adds.taken.support_kept adds.extended.sound
  rw [adds.extended.getElem?_supports_run_iff]
  exact ⟨unspent, origin⟩

/-- A claim that is live was there, or an event of the block brings it to its output. In
either case the block does not spend that output. -/
theorem claim_origin (adds : Adds height earlier created txs before after)
    (live : after.claims[hash]? = some claim) :
    claim.outpoint ∉ BlockTx.allSpends txs ∧
      ((∃ old term effective, before.claims[hash]? = some old ∧
          claim = { old with term, effective }) ∨
        (∃ tx, (tx, .create claim.outpoint claim.name hash claim.amount claim.owner) ∈
          BlockTx.allEvents txs) ∨
        ∃ tx, (tx, .update claim.outpoint claim.name hash claim.amount claim.owner) ∈
          BlockTx.allEvents txs) := by
  obtain ⟨moved, phases, term, effective, rfl⟩ :=
    adds.taken.claim_before adds.extended.sound live
  obtain ⟨old, origin, rfl, unspent⟩ :=
    (adds.extended.getElem?_claims_run_iff height).mp phases
  refine ⟨unspent, ?_⟩
  have isHash := adds.taken.reached.indexed.claim_hash phases
  obtain ⟨sameHash, same | ⟨tx, listed⟩⟩ :=
    Claim.foldl_updatedBy_cases before.rules height old (BlockTx.allEvents txs)
  · rw [same]
    rcases origin with before | ⟨event, listed, born⟩
    · exact .inl ⟨old, term, effective, before, rfl⟩
    · obtain ⟨outpoint, name, amount, owner, isCreate, rfl⟩ := born?_eq_some_iff.mp born
      exact .inr (.inl ⟨event.1, isCreate ▸ listed⟩)
  · rw [isHash] at listed
    exact .inr (.inr ⟨tx, listed⟩)

/-- A support that is live was there, or an event of the block pledges it. In either case
the block does not spend its output. -/
theorem support_origin (adds : Adds height earlier created txs before after)
    (live : after.supports[outpoint]? = some support) :
    outpoint ∉ BlockTx.allSpends txs ∧
      ((∃ old term, before.supports[outpoint]? = some old ∧ support = { old with term }) ∨
        ∃ tx, (tx, .support outpoint support.name support.claim support.amount) ∈
          BlockTx.allEvents txs) := by
  obtain ⟨old, phases, term, rfl⟩ := adds.taken.support_before adds.extended.sound live
  obtain ⟨unspent, origin⟩ := (adds.extended.getElem?_supports_run_iff height).mp phases
  refine ⟨unspent, ?_⟩
  rcases origin with before | ⟨event, listed, pledged⟩
  · exact .inl ⟨old, term, before, rfl⟩
  · obtain ⟨name, claim, amount, isSupport, rfl⟩ := pledged?_eq_some_iff.mp pledged
    exact .inr ⟨event.1, isSupport ▸ listed⟩

end Adds

end Block

/-! ## What a chain leaves of the rows -/

variable {rules : Rules} {blocks : List (List BlockTx)} {txs : List BlockTx} {ledger : Ledger}
variable {summaries : List BlockSummary}

/-- The last block of a fresh chain was taken in by the ledger before it. -/
theorem adds_of_replay (fresh : Fresh (blocks ++ [txs]))
    (run : Engine.replay applyBlock rules (blocks ++ [txs]) = .ok (ledger, summaries)) :
    ∃ before earlier height, Engine.replay applyBlock rules blocks = .ok (before, earlier) ∧
      Adds height (blocks.flatMap BlockTx.allOutputs) (blocks.flatMap BlockTx.allCreated) txs
        before ledger := by
  obtain ⟨before, earlier, summary, run, done, -⟩ := Engine.replay_concat_eq_ok.mp run
  have extended := extendedBy_of_replay fresh run
  exact ⟨before, earlier, _, run, extended,
    taken_of_applyBlock extended.sound.indexed extended.grounded extended.outputs done⟩

/-- The rows that are live after a chain are those that its events and spends leave. -/
structure Accounted (blocks : List (List BlockTx)) (ledger : Ledger) : Prop where
  supports : ∀ (outpoint : OutPoint) (name : Bytes) (hash : ClaimHash) (amount : Amount),
    (∃ support, ledger.supports[outpoint]? = some support ∧ support.outpoint = outpoint ∧
        support.name = name ∧ support.claim = hash ∧ support.amount = amount) ↔
      .support outpoint name hash amount ∈ BlockTx.history blocks ∧
        outpoint ∉ blocks.flatMap BlockTx.allSpends
  claims : ∀ (hash : ClaimHash) (claim : Claim), ledger.claims[hash]? = some claim →
    claim.hash = hash ∧ claim.outpoint ∉ blocks.flatMap BlockTx.allSpends ∧
      (.create claim.outpoint claim.name hash claim.amount claim.owner ∈
          BlockTx.history blocks ∨
        .update claim.outpoint claim.name hash claim.amount claim.owner ∈
          BlockTx.history blocks)
  apart : ∀ (hash other : ClaimHash) (claim claim' : Claim), ledger.claims[hash]? = some claim →
    ledger.claims[other]? = some claim' → claim.outpoint = claim'.outpoint → hash = other
  created : ∀ (outpoint : OutPoint) (name : Bytes) (hash : ClaimHash) (amount : Amount)
      (owner : Bytes), .create outpoint name hash amount owner ∈ BlockTx.history blocks →
      outpoint ∉ blocks.flatMap BlockTx.allSpends →
        ∃ claim, ledger.claims[hash]? = some claim ∧ claim.outpoint = outpoint ∧
          claim.name = name ∧ claim.amount = amount ∧ claim.owner = owner

/-- What was live before some blocks and is not spent by them is live after them, where it
was: only when it competes may be different. -/
structure Outlasts (more : List (List BlockTx)) (before after : Ledger) : Prop where
  claims : ∀ (hash : ClaimHash) (claim : Claim), before.claims[hash]? = some claim →
    claim.outpoint ∉ more.flatMap BlockTx.allSpends →
      ∃ term effective, after.claims[hash]? = some { claim with term, effective }
  supports : ∀ (outpoint : OutPoint) (support : Support),
    before.supports[outpoint]? = some support → outpoint ∉ more.flatMap BlockTx.allSpends →
      ∃ term, after.supports[outpoint]? = some { support with term }

theorem accounted_empty (rules : Rules) : Accounted [] (empty rules) where
  supports := by simp [empty, BlockTx.history]
  claims := by simp [empty]
  apart := by simp [empty]
  created := by simp [BlockTx.history]

/-- One more block keeps the account. -/
theorem Accounted.concat {before after : Ledger} {height : Height}
    (accounted : Accounted blocks before) (forward : Forward (blocks ++ [txs]))
    (adds : Adds height (blocks.flatMap BlockTx.allOutputs) (blocks.flatMap BlockTx.allCreated) txs
      before after) : Accounted (blocks ++ [txs]) after := by
  have sound := adds.sound
  have new {tx : BlockTx} {event : TxEvent} {outpoint : OutPoint}
      (listed : (tx, event) ∈ BlockTx.allEvents txs) (produces : event.output? = some outpoint) :
      outpoint ∉ blocks.flatMap BlockTx.allSpends :=
    forward.unspent (List.mem_filterMap.mpr ⟨_, listed, produces⟩)
  refine ⟨fun outpoint name hash amount => ?_, fun hash claim live => ?_,
    fun hash other claim claim' live live' same => ?_,
    fun outpoint name hash amount owner listed unspent => ?_⟩
  · rw [BlockTx.mem_history_concat, BlockTx.unspent_concat_iff]
    constructor
    · rintro ⟨support, live, rfl, rfl, rfl, rfl⟩
      obtain ⟨kept, ⟨old, term, before, rfl⟩ | ⟨tx, listed⟩⟩ := adds.support_origin live
      · obtain ⟨listed, unspent⟩ :=
          (accounted.supports _ _ _ _).mp ⟨old, before, rfl, rfl, rfl, rfl⟩
        exact ⟨.inl listed, unspent, kept⟩
      · exact ⟨.inr ⟨tx, listed⟩, new listed rfl, kept⟩
    · rintro ⟨earlier | ⟨tx, listed⟩, unspent, kept⟩
      · obtain ⟨support, before, rfl, rfl, rfl, rfl⟩ :=
          (accounted.supports _ _ _ _).mpr ⟨earlier, unspent⟩
        obtain ⟨term, live⟩ := adds.support_stays (.inl before) kept
        exact ⟨_, live, rfl, rfl, rfl, rfl⟩
      · have pledged : before.pledged? height outpoint (.support outpoint name hash amount) =
            some (before.newSupport height outpoint name hash amount) := if_pos rfl
        obtain ⟨term, live⟩ := adds.support_stays (.inr ⟨_, listed, pledged⟩) kept
        exact ⟨_, live, rfl, rfl, rfl, rfl⟩
  · obtain ⟨kept, origin⟩ := adds.claim_origin live
    rw [BlockTx.mem_history_concat, BlockTx.mem_history_concat, BlockTx.unspent_concat_iff]
    refine ⟨sound.indexed.claim_hash live, ?_⟩
    rcases origin with ⟨old, term, effective, before, rfl⟩ | ⟨tx, listed⟩ | ⟨tx, listed⟩
    · obtain ⟨-, unspent, created | updated⟩ := accounted.claims hash old before
      · exact ⟨⟨unspent, kept⟩, .inl (.inl created)⟩
      · exact ⟨⟨unspent, kept⟩, .inr (.inl updated)⟩
    · exact ⟨⟨new listed rfl, kept⟩, .inl (.inr ⟨tx, listed⟩)⟩
    · exact ⟨⟨new listed rfl, kept⟩, .inr (.inr ⟨tx, listed⟩)⟩
  · have held := sound.indexed.holdings.mpr ⟨claim, live, rfl⟩
    have held' := sound.indexed.holdings.mpr ⟨claim', live', same.symm⟩
    exact Option.some.inj (held.symm.trans held')
  · obtain ⟨unspent, kept⟩ := BlockTx.unspent_concat_iff.mp unspent
    rcases BlockTx.mem_history_concat.mp listed with earlier | ⟨tx, listed⟩
    · obtain ⟨claim, before, rfl, rfl, rfl, rfl⟩ :=
        accounted.created outpoint name hash amount owner earlier unspent
      obtain ⟨term, effective, live⟩ := adds.claim_stays (.inl before) kept
      exact ⟨_, live, rfl, rfl, rfl, rfl⟩
    · have born : before.born? height hash (tx, .create outpoint name hash amount owner) =
          some (before.newClaim height tx.index outpoint name hash amount owner) := if_pos rfl
      obtain ⟨term, effective, live⟩ := adds.claim_stays (.inr ⟨_, listed, born⟩) kept
      exact ⟨_, live, rfl, rfl, rfl, rfl⟩

theorem outlasts_nil (ledger : Ledger) : Outlasts [] ledger ledger where
  claims _ claim live _ := ⟨claim.term, claim.effective, live⟩
  supports _ support live _ := ⟨support.term, live⟩

/-- What outlasts some blocks outlasts one more, if it is not spent there. -/
theorem Outlasts.concat {more : List (List BlockTx)} {before between after : Ledger}
    {height : Height} {earlier : List OutPoint} {created : List ClaimHash}
    (outlasts : Outlasts more before between)
    (adds : Adds height earlier created txs between after) :
    Outlasts (more ++ [txs]) before after := by
  refine ⟨fun hash claim live unspent => ?_, fun outpoint support live unspent => ?_⟩
  · obtain ⟨unspent, kept⟩ := BlockTx.unspent_concat_iff.mp unspent
    obtain ⟨_, _, live⟩ := outlasts.claims hash claim live unspent
    obtain ⟨term, effective, live⟩ := adds.claim_stays (.inl live) kept
    exact ⟨term, effective, live⟩
  · obtain ⟨unspent, kept⟩ := BlockTx.unspent_concat_iff.mp unspent
    obtain ⟨_, live⟩ := outlasts.supports outpoint support live unspent
    obtain ⟨term, live⟩ := adds.support_stays (.inl live) kept
    exact ⟨term, live⟩

theorem outlasts_of_replay {more : List (List BlockTx)} (fresh : Fresh (blocks ++ more))
    (run : Engine.replay applyBlock rules (blocks ++ more) = .ok (ledger, summaries)) :
    ∃ before earlier, Engine.replay applyBlock rules blocks = .ok (before, earlier) ∧
      Outlasts more before ledger := by
  induction more using List.reverseRecOn generalizing ledger summaries with
  | nil =>
    rw [List.append_nil] at run
    exact ⟨ledger, summaries, run, outlasts_nil ledger⟩
  | append_singleton more txs ih =>
    rw [← List.append_assoc] at fresh run
    obtain ⟨between, _, _, run, adds⟩ := adds_of_replay fresh run
    obtain ⟨before, earlier, start, outlasts⟩ := ih fresh.init run
    exact ⟨before, earlier, start, outlasts.concat adds⟩

theorem accounted_of_forward (fresh : Fresh blocks) (forward : Forward blocks)
    (run : Engine.replay applyBlock rules blocks = .ok (ledger, summaries)) :
    Accounted blocks ledger := by
  induction blocks using List.reverseRecOn generalizing ledger summaries with
  | nil =>
    cases run
    exact accounted_empty rules
  | append_singleton blocks txs ih =>
    obtain ⟨before, _, _, run, adds⟩ := adds_of_replay fresh run
    exact (ih fresh.init forward.init run).concat forward adds

/-- After every block of a chain that produces no output and creates no claim twice, and
spends no output before the block that produces it, the rows are those that the events and
spends so far leave. From there on each of them lasts until its output is spent, expired or
not. -/
theorem accounted_of_replay (fresh : Fresh blocks) (forward : Forward blocks)
    (run : Engine.replay applyBlock rules blocks = .ok (ledger, summaries)) (count : Nat) :
    ∃ before earlier, Engine.replay applyBlock rules (blocks.take count) = .ok (before, earlier) ∧
      Accounted (blocks.take count) before ∧ Outlasts (blocks.drop count) before ledger := by
  rw [← List.take_append_drop count blocks] at fresh forward run
  obtain ⟨before, earlier, start, outlasts⟩ := outlasts_of_replay fresh run
  have forward : Forward (blocks.take count) := (List.pairwise_append.mp forward).1
  exact ⟨before, earlier, start, accounted_of_forward fresh.left forward start, outlasts⟩

/-- Rules under which a row expires after two blocks. -/
def briefRules : Rules :=
  { Rules.regtest with baseLifetime := 2 }

/-- A claim with a support; the claim moves, while another one is created and given up; then
nothing happens until both rows have expired. -/
def neglected : List (List BlockTx) :=
  let output (index : UInt32) : OutPoint := ⟨Digest.zero 32, index⟩
  let other : ClaimHash := ⟨List.replicate 20 8, List.length_replicate⟩
  [[⟨Digest.zero 32, 0, [.create (output 0) [0x61] (Digest.zero 20) 5 [],
      .support (output 1) [0x61] (Digest.zero 20) 4]⟩],
    [⟨Digest.zero 32, 0, [.spend (output 0),
        .update (output 2) [0x61] (Digest.zero 20) 6 [],
        .create (output 3) [0x62] other 9 []]⟩,
      ⟨Digest.zero 32, 1, [.spend (output 3)]⟩],
    [], []]

theorem accounted_neglected :
    ∃ ledger summaries, Engine.replay applyBlock briefRules neglected = .ok (ledger, summaries) ∧
      (ledger.claims.values.map fun claim => claim.term.isExpiredAt 3) = [true] ∧
      (ledger.supports.values.map fun support => support.term.isExpiredAt 3) = [true] ∧
      Accounted neglected ledger := by
  have expired : (Engine.replay applyBlock briefRules neglected).toOption.map (fun state =>
      (state.1.claims.values.map fun claim => claim.term.isExpiredAt 3,
        state.1.supports.values.map fun support => support.term.isExpiredAt 3)) =
      some ([true], [true]) := by
    decide +kernel
  cases run : Engine.replay applyBlock briefRules neglected with
  | error failure =>
    rw [run] at expired
    cases expired
  | ok state =>
    rw [run] at expired
    obtain ⟨claims, supports⟩ := Prod.mk.inj (Option.some.inj expired)
    obtain ⟨ledger, _, same, accounted, -⟩ := accounted_of_replay
      ⟨by decide +kernel, by decide +kernel⟩ (by decide +kernel) run neglected.length
    rw [List.take_length, run] at same
    cases same
    rw [List.take_length] at accounted
    exact ⟨ledger, _, rfl, claims, supports, accounted⟩

end Ledger

end ClaimLedger
