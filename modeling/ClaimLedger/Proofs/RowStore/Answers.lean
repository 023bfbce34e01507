/-
# What the store answers about a name

The store keeps one record of control for each name, and of each claim the row of today. From
these it answers who controlled a name at an earlier height, which claims compete for it and
which wait. On a chain that never repeats an output or a claim these answers are the truth:
those about the past, as far back as the record goes, are what replaying fewer blocks leads to,
and those about the coming heights are the state of the name in memory.
-/

import Mathlib.Data.List.Sort
import ClaimLedger.Proofs.Ledger.Lookup
import ClaimLedger.Proofs.Ledger.Places
import ClaimLedger.Proofs.Ledger.Tenure
import ClaimLedger.Proofs.RowStore.Batches

namespace ClaimLedger

variable {rules : Rules} {blocks : List (List BlockTx)} {ledger replica : Ledger}
variable {store : RowStore} {tables : Tables} {last : Option Height} {tip height : Height}
variable {summaries : List BlockSummary} {name : Bytes} {takeover : Takeover} {claim : Claim}

/-! ## Blocks that are taken in -/

/-- A ledger that takes in the blocks of an accepted chain, with batches in between, stands where
these blocks lead. -/
theorem Followed.stands (followed : Followed rules blocks last ledger store tables)
    (fresh : Fresh blocks)
    (run : Engine.replay Ledger.applyBlock rules blocks = .ok (replica, summaries)) :
    Ledger.Stands rules blocks ledger := by
  induction followed generalizing replica summaries with
  | start =>
    cases run
    exact ⟨⟨_, _, rfl, .refl _⟩, Ledger.sound_empty rules⟩
  | block _ txs ih =>
    obtain ⟨before, earlier, summary, run, done, -⟩ := Engine.replay_concat_eq_ok.mp run
    have stands := ih fresh.init run
    obtain ⟨same, began, run', alike⟩ := stands.replayed
    rw [run, Except.ok.injEq, Prod.mk.injEq] at run'
    obtain ⟨rfl, -⟩ := run'
    obtain ⟨sound, grounded⟩ := Ledger.sound_and_grounded_of_replay fresh.init run
    have outcome := Ledger.sameOutcome_applyBlock sound stands.sound grounded
      fresh.outputs_concat alike (Height.next before.height)
    rw [done, ← alike.height] at outcome
    exact stands.concat fresh (Prod.ext rfl outcome.answer)
  | gap _ gap txs ih =>
    rw [Ledger.applyBlock_of_ne_next _ gap txs]
    exact ih fresh run
  | batch _ _ _ ih => exact (ih fresh run).takeChanges

/-- On a fresh chain a batch leaves the rows of the ledger. -/
theorem Followed.mirrors_commit (followed : Followed rules blocks last ledger store tables)
    (fresh : Fresh blocks) (file : UInt32) (height : Height) :
    (store.commit ⟨file, height, ledger.takeChanges.1⟩).Mirrors ledger :=
  (followed.following fresh).tracked.mirrors_commit file height

namespace Ledger.Stands

theorem length_blocks (stands : Stands rules blocks ledger) (reached : ledger.height = some tip) :
    blocks.length = tip.toNat + 1 := by
  obtain ⟨replica, summaries, run, alike⟩ := stands.replayed
  rw [← height_of_replay run, ← alike.height, reached, Option.elim_some]

/-- The record of a name tells since when it has been controlled. -/
theorem since (stands : Stands rules blocks ledger) (fresh : Fresh blocks)
    (recorded : ledger.takeover? name = some takeover) :
    takeover.height.toNat < blocks.length ∧
    ∀ count, takeover.height.toNat < count → count ≤ blocks.length →
      ControlledBy rules (blocks.take count) name (some takeover.claim) := by
  obtain ⟨replica, summaries, run, alike⟩ := stands.replayed
  rw [alike.takeover?_eq] at recorded
  obtain ⟨within, -, after⟩ := since_of_replay fresh run recorded
  exact ⟨within, after⟩

/-- The recorded controller is there, and has competed for the name since it took control. -/
theorem reigns (stands : Stands rules blocks ledger) (fresh : Fresh blocks)
    (recorded : ledger.takeover? name = some takeover) :
    ∃ tip controller, ledger.height = some tip ∧ takeover.height ≤ tip ∧
      ledger.claims[takeover.claim]? = some controller ∧ controller.hash = takeover.claim ∧
      Reigns name takeover.height tip controller := by
  have within := (stands.since fresh recorded).1
  obtain ⟨replica, summaries, run, alike⟩ := stands.replayed
  have count := height_of_replay run
  cases reached : replica.height with
  | none =>
    rw [reached, Option.elim_none] at count
    omega
  | some tip =>
    rw [reached, Option.elim_some] at count
    rw [alike.takeover?_eq] at recorded
    obtain ⟨controller, live, isHash, reigns⟩ := reigns_of_replay fresh run reached recorded
    refine ⟨tip, controller, alike.height.trans reached, ?_, alike.claims ▸ live, isHash, reigns⟩
    rw [UInt32.le_iff_toNat_le]
    omega

/-- The recorded controller is a claim on the name. -/
theorem named (stands : Stands rules blocks ledger) (fresh : Fresh blocks)
    (controls : ledger.controlling? name = some claim) : claim.name = name := by
  obtain ⟨takeover, recorded, live⟩ := Option.bind_eq_some_iff.mp controls
  obtain ⟨tip, controller, -, -, live', -, reigns⟩ := stands.reigns fresh recorded
  rw [live, Option.some.injEq] at live'
  exact live' ▸ reigns.named

/-- Claims of one age are one claim, where events come from transactions. -/
theorem eq_of_compareAge (stands : Stands rules blocks ledger) (fresh : Fresh blocks)
    (decoded : ∀ txs ∈ blocks, BlockTx.Decoded txs) {other : Claim}
    (live : claim ∈ ledger.claims.values) (live' : other ∈ ledger.claims.values)
    (sameAge : Claim.compareAge claim other = .eq) : claim = other := by
  obtain ⟨replica, summaries, run, alike⟩ := stands.replayed
  obtain ⟨hash, found⟩ := mem_values.mp live
  obtain ⟨hash', found'⟩ := mem_values.mp live'
  rw [alike.claims] at found found'
  obtain ⟨isHash, born⟩ := (born_of_replay run).claims found
  obtain ⟨isHash', born'⟩ := (born_of_replay run).claims found'
  obtain ⟨height, place⟩ := compareLex_eq_eq.mp sameAge
  have same := fresh.hash_eq decoded born born' (Std.LawfulEqCmp.eq_of_compare height)
    (Std.LawfulEqCmp.eq_of_compare place)
  rw [isHash, isHash'] at same
  rw [same, found', Option.some.injEq] at found
  exact found.symm

end Ledger.Stands

/-! ## Control at an earlier height -/

namespace RowStore

theorem controllingClaim?_eq_some : store.controllingClaim? name height = some claim ↔
    ∃ takeover, store.takeovers[name]? = some takeover ∧ takeover.height ≤ height ∧
      store.claims[takeover.claim]? = some claim ∧ claim.term.isActiveAt height = true := by
  simp [controllingClaim?, Option.bind_eq_some_iff, guard]

/-- A store with the rows of a ledger answers from the record of the ledger. -/
theorem Mirrors.controllingClaim?_eq_some (mirrors : store.Mirrors ledger) :
    store.controllingClaim? name height = some claim ↔
      ∃ takeover, ledger.takeover? name = some takeover ∧ takeover.height ≤ height ∧
        ledger.claims[takeover.claim]? = some claim ∧
        claim.term.isActiveAt height = true := by
  rw [RowStore.controllingClaim?_eq_some, mirrors.claims]
  simp only [mirrors.takeovers]

/-- What the store answers about who controlled a name at an earlier height. -/
structure Recounts (rules : Rules) (blocks : List (List BlockTx)) (ledger : Ledger)
    (store : RowStore) (name : Bytes) (height : Height) : Prop where
  /-- It has the record of the ledger. -/
  recorded : store.takeover? name = ledger.takeover? name
  /-- It answers exactly if the record is no younger than the height. -/
  answers : (store.controllingClaim? name height).isSome = true ↔
    ∃ takeover, ledger.takeover? name = some takeover ∧ takeover.height ≤ height
  /-- The answer is the recorded controller, as it is today. -/
  row : ∀ claim, store.controllingClaim? name height = some claim →
    ledger.controlling? name = some claim
  /-- It was in control right after the block of the height. -/
  truthful : ∀ claim, store.controllingClaim? name height = some claim →
    Ledger.ControlledBy rules (blocks.take (height.toNat + 1)) name (some claim.hash)
  /-- It was so after every block from the recorded height on. -/
  throughout : ∀ claim takeover, store.controllingClaim? name height = some claim →
    ledger.takeover? name = some takeover →
      ∀ count, takeover.height.toNat < count → count ≤ blocks.length →
        Ledger.ControlledBy rules (blocks.take count) name (some claim.hash)

/-- A store with the rows of a ledger tells the truth about the heights that the ledger has
reached. -/
theorem Mirrors.recounts (mirrors : store.Mirrors ledger)
    (stands : Ledger.Stands rules blocks ledger) (fresh : Fresh blocks)
    (reached : ledger.height = some tip) (past : height ≤ tip) (name : Bytes) :
    Recounts rules blocks ledger store name height := by
  have within : height.toNat < blocks.length := by
    rw [stands.length_blocks reached]
    exact Nat.lt_succ_of_le (UInt32.le_iff_toNat_le.mp past)
  -- an answer is the recorded controller
  have isRecorded {claim : Claim} {takeover : Takeover}
      (answer : store.controllingClaim? name height = some claim)
      (recorded : ledger.takeover? name = some takeover) :
      claim.hash = takeover.claim ∧ takeover.height ≤ height := by
    obtain ⟨same, recorded', begun, live, -⟩ := mirrors.controllingClaim?_eq_some.mp answer
    rw [recorded, Option.some.injEq] at recorded'
    subst recorded'
    exact ⟨stands.sound.indexed.claim_hash live, begun⟩
  refine ⟨mirrors.takeovers name, ⟨fun answers => ?answered, ?answers⟩, fun claim answer => ?row,
    fun claim answer => ?truthful, fun claim takeover answer recorded => ?throughout⟩
  case answered =>
    obtain ⟨claim, answer⟩ := Option.isSome_iff_exists.mp answers
    obtain ⟨takeover, recorded, begun, -⟩ := mirrors.controllingClaim?_eq_some.mp answer
    exact ⟨takeover, recorded, begun⟩
  case answers =>
    rintro ⟨takeover, recorded, begun⟩
    obtain ⟨same, controller, reached', -, live, -, reigns⟩ := stands.reigns fresh recorded
    rw [reached, Option.some.injEq] at reached'
    subst reached'
    have active := (reigns.isActiveAt_iff past).mpr (UInt32.le_trans reigns.activation begun)
    exact Option.isSome_iff_exists.mpr ⟨controller,
      mirrors.controllingClaim?_eq_some.mpr ⟨takeover, recorded, begun, live, active⟩⟩
  case row =>
    obtain ⟨takeover, recorded, -, live, -⟩ := mirrors.controllingClaim?_eq_some.mp answer
    exact Option.bind_eq_some_iff.mpr ⟨takeover, recorded, live⟩
  case truthful =>
    obtain ⟨takeover, recorded, -⟩ := mirrors.controllingClaim?_eq_some.mp answer
    obtain ⟨isHash, begun⟩ := isRecorded answer recorded
    rw [isHash]
    exact (stands.since fresh recorded).2 _
      (Nat.lt_succ_of_le (UInt32.le_iff_toNat_le.mp begun)) within
  case throughout =>
    rw [(isRecorded answer recorded).1]
    exact (stands.since fresh recorded).2

end RowStore

/-- After a batch the store tells the truth about who controlled a name at the heights so far. -/
theorem Followed.recounts_commit (followed : Followed rules blocks last ledger store tables)
    (fresh : Fresh blocks)
    (run : Engine.replay Ledger.applyBlock rules blocks = .ok (replica, summaries))
    (reached : ledger.height = some tip) (past : height ≤ tip) (name : Bytes) (file : UInt32)
    (written : Height) :
    RowStore.Recounts rules blocks ledger
      (store.commit ⟨file, written, ledger.takeChanges.1⟩) name height :=
  (followed.mirrors_commit fresh file written).recounts (followed.stands fresh run) fresh reached
    past name

/-- The heir of a name that was forfeited is known to be in control since it is, and not
before. -/
theorem Followed.recounts_forfeited :
    ∃ ledger store tables,
      Followed Rules.regtest Ledger.forfeited (some 0) ledger store tables ∧
      RowStore.Recounts Rules.regtest Ledger.forfeited ledger
        (store.commit ⟨0, 2, ledger.takeChanges.1⟩) [0x61] 1 ∧
      ((store.commit ⟨0, 2, ledger.takeChanges.1⟩).controllingClaim? [0x61] 1).map
        Claim.amount = some 5 ∧
      (store.commit ⟨0, 2, ledger.takeChanges.1⟩).controllingClaim? [0x61] 0 = none := by
  have empty : Followed Rules.regtest _ _ _ _ _ := .start
  have first (earlier : Height) (reached : none = some earlier) : earlier ≤ 0 := nomatch reached
  have saved := (empty.block (Ledger.forfeited.getD 0 [])).batch 0 first
  have followed := (saved.block (Ledger.forfeited.getD 1 [])).block (Ledger.forfeited.getD 2 [])
  have replayed : (Engine.replay Ledger.applyBlock Rules.regtest
      Ledger.forfeited).toOption.map (fun state => state.1.height) = some (some 2) := by
    decide +kernel
  obtain ⟨⟨replica, summaries⟩, run, -⟩ := Ledger.exists_of_map_toOption replayed
  have past : (1 : Height) ≤ 2 := by decide
  exact ⟨_, _, _, followed, followed.recounts_commit ⟨by decide +kernel, by decide +kernel⟩ run
    (by decide +kernel) past [0x61] 0 2, by decide +kernel, by decide +kernel⟩

/-! ## The claims on a name -/

instance : Std.Total Claim.Older where
  total := isLE_or_isLE

instance : IsTrans Claim Claim.Older where
  trans _ _ _ := Std.TransCmp.isLE_trans

namespace RowStore

instance : Std.TransCmp compareListed :=
  inferInstanceAs (Std.TransCmp (compareLex Claim.compareAge
    (compareOn fun claim => claim.hash.reverse)))

/-- The store lists rows in the order of their ages. -/
theorem pairwise_listClaims (test : Claim → Bool) :
    (store.listClaims test).Pairwise Claim.Older := by
  have sorted : (store.listClaims test).Pairwise fun a b => (compareListed a b).isLE = true :=
    pairwise_mergeSort_isLE _
  exact sorted.imp Ordering.isLE_left_of_isLE_then

/-- A list of the rows that pass a test, in the order of their ages, is what the store lists, if
no two rows have one age. -/
theorem listClaims_eq {test : Claim → Bool} {list : List Claim}
    (apart : ∀ a ∈ store.claims.values, ∀ b ∈ store.claims.values,
      Claim.compareAge a b = .eq → a = b)
    (rows : list.Perm (store.claims.values.filter test)) (sorted : list.Pairwise Claim.Older) :
    store.listClaims test = list := by
  refine List.Perm.eq_of_pairwise (fun a b isA isB before after => ?_) (pairwise_listClaims test)
    sorted ((List.mergeSort_perm _ _).trans rows.symm)
  have isA := List.mem_filter.mp (List.mem_mergeSort.mp isA)
  have isB := List.mem_filter.mp (rows.mem_iff.mp isB)
  exact apart a isA.1 b isB.1 (Std.OrientedCmp.isLE_antisymm before after)

/-- What the store answers about a name at a height is its state in memory. -/
structure Agrees (ledger : Ledger) (store : RowStore) (name : Bytes) (height : Height) :
    Prop where
  controlling : (ledger.nameState name height).controlling = store.controllingClaim? name height
  accepted : (ledger.nameState name height).accepted = store.pendingForName name height
  /-- The store lists the controller among those that compete, at its age. -/
  active : store.activeForName name height =
    (ledger.nameState name height).controlling.elim (ledger.nameState name height).active
      fun controller => (ledger.nameState name height).active.orderedInsert Claim.Older controller

/-- A store with the rows of a ledger agrees with it at every height that no record of control is
ahead of, if no two claims have one age. -/
theorem Mirrors.agrees (mirrors : store.Mirrors ledger) (indexed : ledger.Indexed)
    (named : ∀ claim, ledger.controlling? name = some claim → claim.name = name)
    (apart : ∀ a ∈ ledger.claims.values, ∀ b ∈ ledger.claims.values,
      Claim.compareAge a b = .eq → a = b)
    (begun : ∀ takeover, ledger.takeover? name = some takeover → takeover.height ≤ height) :
    Agrees ledger store name height := by
  rw [← mirrors.claims] at apart
  have parts := Ledger.partitioned indexed named height
  refine ⟨?controlling, ?accepted, ?active⟩
  case controlling =>
    ext claim
    rw [Ledger.controlling_nameState_eq_some, mirrors.controllingClaim?_eq_some,
      Ledger.controlling?, Option.bind_eq_some_iff]
    constructor
    · rintro ⟨⟨takeover, recorded, live⟩, active⟩
      exact ⟨takeover, recorded, begun takeover recorded, live, active⟩
    · rintro ⟨takeover, recorded, -, live, active⟩
      exact ⟨⟨takeover, recorded, live⟩, active⟩
  case accepted =>
    have rows := Ledger.perm_accepted indexed name height
    rw [← mirrors.claims] at rows
    exact (listClaims_eq apart rows parts.accepted).symm
  case active =>
    have rows := Ledger.perm_competing indexed named height
    rw [← mirrors.claims] at rows
    cases controls : (ledger.nameState name height).controlling with
    | none =>
      rw [controls] at rows
      exact listClaims_eq apart rows parts.active
    | some controller =>
      rw [controls] at rows
      exact listClaims_eq apart ((List.perm_orderedInsert _ _ _).trans rows)
        (parts.active.orderedInsert controller _)

end RowStore

/-- At every height the state of a name has each claim on it that is not expired in one place.
Once all is written, and from the height of the ledger on, the store answers the same, if the
events come from transactions. -/
theorem Followed.agrees_commit (followed : Followed rules blocks last ledger store tables)
    (fresh : Fresh blocks)
    (run : Engine.replay Ledger.applyBlock rules blocks = .ok (replica, summaries))
    (name : Bytes) (height : Height) (file : UInt32) (written : Height) :
    Ledger.Partitioned ledger name height ∧
      ((∀ txs ∈ blocks, BlockTx.Decoded txs) →
        (∀ tip, ledger.height = some tip → tip ≤ height) →
          RowStore.Agrees ledger (store.commit ⟨file, written, ledger.takeChanges.1⟩) name
            height) := by
  have stands := followed.stands fresh run
  have named (claim : Claim) (controls : ledger.controlling? name = some claim) :
      claim.name = name := stands.named fresh controls
  refine ⟨Ledger.partitioned stands.sound.indexed named height, fun decoded later => ?_⟩
  have mirrors := followed.mirrors_commit fresh file written
  refine mirrors.agrees stands.sound.indexed named
    (fun a live b live' => stands.eq_of_compareAge fresh decoded live live')
    fun takeover recorded => ?_
  obtain ⟨tip, -, reached, past, -⟩ := stands.reigns fresh recorded
  exact UInt32.le_trans past (later tip reached)

/-- A transaction with two claims on one name, the second of them larger. -/
def twinTransaction : Transaction :=
  let script : Bytes := [0xb5, 1, 0x61, 1, 0x76, 0x6d, 0x75]
  ⟨1, [], [⟨5, script⟩, ⟨7, script⟩], 0⟩

/-- A block with nothing else. -/
def twinBlock : Block :=
  ⟨⟨1, Digest.zero 32, Digest.zero 32, Digest.zero 32, 0, 0, 0⟩, [twinTransaction]⟩

/-- What the transaction does there, with its hashes worked out. -/
def twinTx : BlockTx :=
  let txid : Txid := ⟨[0x9b, 0x64, 0xf7, 0xaa, 0xf2, 0x3b, 0x6c, 0x84, 0x9a, 0xee, 0x69, 0x76, 0x02,
    0xc4, 0xbe, 0xbb, 0x55, 0xcb, 0x5a, 0x99, 0x28, 0x22, 0x35, 0x09, 0x04, 0x95, 0x99, 0xc2, 0xab,
    0x9f, 0x71, 0x5b], rfl⟩
  let first : ClaimHash := ⟨[0x0b, 0x6b, 0x42, 0x6c, 0x5d, 0x8c, 0xcf, 0x16, 0x50, 0xd1, 0xd0, 0xdd,
    0x78, 0x5b, 0xb2, 0xe1, 0xc2, 0x67, 0x69, 0x5c], rfl⟩
  let second : ClaimHash := ⟨[0x2a, 0x93, 0xf7, 0x2f, 0x60, 0xcf, 0x71, 0xf3, 0xe8, 0xf0, 0x69,
    0x2d, 0x83, 0xa8, 0xa1, 0xef, 0x2b, 0x5a, 0xf1, 0xd4], rfl⟩
  ⟨txid, 0, [.create ⟨txid, 0⟩ [0x61] first 5 [], .create ⟨txid, 1⟩ [0x61] second 7 []]⟩

theorem ofBlock_twinBlock : BlockTx.ofBlock twinBlock = [twinTx] := by
  decide +kernel

/-- At the height of the ledger the larger claim is in control, in memory and in the store. -/
theorem Followed.agrees_twins :
    ∃ ledger store tables, Followed Rules.regtest [[twinTx]] none ledger store tables ∧
      Ledger.Partitioned ledger [0x61] 0 ∧
      RowStore.Agrees ledger (store.commit ⟨0, 0, ledger.takeChanges.1⟩) [0x61] 0 ∧
      (ledger.nameState [0x61] 0).controlling.map Claim.amount = some 7 ∧
      ((store.commit ⟨0, 0, ledger.takeChanges.1⟩).controllingClaim? [0x61] 0).map
        Claim.amount = some 7 := by
  have empty : Followed Rules.regtest _ _ _ _ _ := .start
  have followed := empty.block [twinTx]
  have replayed : (Engine.replay Ledger.applyBlock Rules.regtest [[twinTx]]).toOption.map
      (fun state => state.1.height) = some (some 0) := by
    decide +kernel
  obtain ⟨⟨replica, summaries⟩, run, -⟩ := Ledger.exists_of_map_toOption replayed
  have decoded (txs : List BlockTx) (listed : txs ∈ [[twinTx]]) : BlockTx.Decoded txs := by
    rw [List.mem_singleton.mp listed, ← ofBlock_twinBlock]
    exact BlockTx.decoded_ofBlock twinBlock (by decide)
  obtain ⟨parts, agrees⟩ :=
    followed.agrees_commit ⟨by decide +kernel, by decide +kernel⟩ run [0x61] 0 0 0
  refine ⟨_, _, _, followed, parts, agrees decoded fun tip reached => ?_, by decide +kernel,
    by decide +kernel⟩
  have isFirst : ((Ledger.empty Rules.regtest).applyBlock (Height.next none) [twinTx]).1.height =
      some 0 := by decide +kernel
  cases reached.symm.trans isFirst
  exact UInt32.le_refl 0

end ClaimLedger
