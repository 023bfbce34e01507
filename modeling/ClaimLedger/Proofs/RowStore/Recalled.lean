/-
# Rows that come back

A write leaves some columns of a stored row alone: of a claim its name and where it was created,
of a support everything but its term. None of them changes while the row is live. But a row may
go and come back between two batches. It is marked as changed then, and no longer as deleted, so
the stored row is never dropped, and keeps those columns from its former life.

So a batch leaves the live rows written over the stored ones, whatever the blocks were and
however they were split into batches. What the blocks bring in no more than once is stored as it
is in memory.
-/

import ClaimLedger.Proofs.RowStore.Batches

namespace ClaimLedger

/-! ## Writing over what is stored -/

section Writing

variable {κ ρ : Type} [Ord κ] [Std.TransOrd κ] {merge merge' : ρ → ρ → ρ}

/-- What is stored under a key once the live row, if there is one, is written over the stored
one. -/
def writtenOver (merge : ρ → ρ → ρ) (stored live : Option ρ) : Option ρ :=
  live.map fun row => (stored.map fun old => merge old row).getD row

theorem writtenOver_eq_some {stored live : Option ρ} {after : ρ}
    (found : writtenOver merge stored live = some after) :
    ∃ row, live = some row ∧ (after = row ∨ ∃ old, stored = some old ∧ after = merge old row) := by
  obtain ⟨row, isLive, rfl⟩ := Option.map_eq_some_iff.mp found
  refine ⟨row, isLive, ?_⟩
  cases stored with
  | none => exact .inl rfl
  | some old => exact .inr ⟨old, rfl, rfl⟩

/-- Writing over it once more changes nothing. -/
theorem writtenOver_writtenOver (self : ∀ row, merge row row = row)
    (again : ∀ old row, merge (merge old row) row = merge old row) (stored live : Option ρ) :
    writtenOver merge (writtenOver merge stored live) live = writtenOver merge stored live := by
  cases live with
  | none => rfl
  | some row =>
    cases stored with
    | none => exact congrArg some (self row)
    | some old => exact congrArg some (again old row)

/-- The stored rows are the live ones but for columns that a write leaves alone. -/
def Recalls (merge : ρ → ρ → ρ) (stored live : Std.ExtTreeMap κ ρ) : Prop :=
  ∀ key : κ, stored[key]? = writtenOver merge stored[key]? live[key]?

/-- The marks since the rows that are recalled are enough to write all live rows over the stored
ones. -/
theorem Recalls.getElem?_writeTable [Std.LawfulEqOrd κ] {stored earlier live : Std.ExtTreeMap κ ρ}
    {changed deleted : Std.ExtTreeSet κ} {key : ρ → κ} (recalls : Recalls merge stored earlier)
    (marked : Marked merge' earlier live changed deleted)
    (keyed : ∀ {k : κ} {row : ρ}, live[k]? = some row → key row = k) (k : κ) :
    (writeTable merge key stored deleted.toList
      (changed.toList.filterMap fun k => live[k]?))[k]? =
      writtenOver merge stored[k]? live[k]? := by
  rw [marked.getElem?_writeTable keyed]
  by_cases listed : k ∈ changed
  · rw [if_pos listed]
    rfl
  · rw [if_neg listed]
    by_cases dropped : k ∈ deleted
    · rw [if_pos dropped, marked.gone dropped]
      rfl
    · rw [if_neg dropped, ← marked.same listed dropped]
      exact recalls k

end Writing

variable {blocks : List (List BlockTx)} {txs : List BlockTx} {height : Height}
variable {ledger : Ledger} {store : RowStore}

/-! ## Rows that are brought in once -/

theorem two_le_count_concat {α β : Type} [DecidableEq β] {list : List α} {last : α}
    {f : α → List β} {item : β} (before : item ∈ list.flatMap f) (now : item ∈ f last) :
    2 ≤ ((list ++ [last]).flatMap f).count item := by
  rw [List.flatMap_append, List.flatMap_singleton, List.count_append]
  exact Nat.add_le_add (List.count_pos_iff.mpr before) (List.count_pos_iff.mpr now)

/-- Whatever the blocks brought in no more than once agrees with its stored row in the columns
that a write leaves alone. -/
abbrev Ledger.Keeps (blocks : List (List BlockTx)) (store : RowStore) : Ledger → Prop :=
  EachRow
    (fun hash claim => claim.hash = hash ∧
      ((blocks.flatMap BlockTx.allCreated).count hash ≤ 1 →
        ∀ old, store.claims[hash]? = some old → old.merge claim = claim))
    fun outpoint support => support.outpoint = outpoint ∧
      ((blocks.flatMap BlockTx.allOutputs).count outpoint ≤ 1 →
        ∀ old, store.supports[outpoint]? = some old → old.merge support = support)

/-- All that is stored stands under its own key and comes from the blocks. -/
structure RowStore.ComesFrom (blocks : List (List BlockTx)) (store : RowStore) : Prop where
  claims : ∀ {hash : ClaimHash} {claim : Claim}, store.claims[hash]? = some claim →
    claim.hash = hash ∧ hash ∈ blocks.flatMap BlockTx.allCreated
  supports : ∀ {outpoint : OutPoint} {support : Support},
    store.supports[outpoint]? = some support →
      support.outpoint = outpoint ∧ outpoint ∈ blocks.flatMap BlockTx.allOutputs

namespace Ledger

theorem upheld_keeps (stored : store.ComesFrom blocks) (height : Height) (txs : List BlockTx) :
    Upheld False height txs
      (fun hash claim => claim.hash = hash ∧
        (((blocks ++ [txs]).flatMap BlockTx.allCreated).count hash ≤ 1 →
          ∀ old, store.claims[hash]? = some old → old.merge claim = claim))
      fun outpoint support => support.outpoint = outpoint ∧
        (((blocks ++ [txs]).flatMap BlockTx.allOutputs).count outpoint ≤ 1 →
          ∀ old, store.supports[outpoint]? = some old → old.merge support = support) where
  claim_hash := And.left
  support_outpoint := And.left
  newClaim := by
    intro _ _ _ _ hash _ _ listed _
    refine ⟨rfl, fun once old found => ?_⟩
    have now : hash ∈ BlockTx.allCreated txs := List.mem_filterMap.mpr ⟨_, listed, rfl⟩
    exact absurd once (Nat.not_le.mpr (two_le_count_concat (stored.claims found).2 now))
  moved := by
    intro _ _ _ _ _ _ _ _ _ ⟨isHash, kept⟩
    exact ⟨isHash, fun once old found => congrArg (Claim.moved _ _ _ _ _) (kept once old found)⟩
  newSupport := by
    intro _ _ outpoint _ _ _ listed
    refine ⟨rfl, fun once old found => ?_⟩
    have now : outpoint ∈ BlockTx.allOutputs txs := List.mem_filterMap.mpr ⟨_, listed, rfl⟩
    exact absurd once (Nat.not_le.mpr (two_le_count_concat (stored.supports found).2 now))
  admittedClaim := by
    intro hash claim ⟨isHash, kept⟩
    exact ⟨isHash, fun once old found => congrArg (Claim.admitted _) (kept once old found)⟩
  admittedSupport := by
    intro outpoint support ⟨isOutpoint, kept⟩
    exact ⟨isOutpoint, fun once old found =>
      congrArg (Support.admitted _) (kept once old found)⟩
  refreshed := by
    intro hash claim effective ⟨isHash, kept⟩
    exact ⟨isHash, fun once old found =>
      congrArg (fun claim : Claim => { claim with effective }) (kept once old found)⟩

theorem Keeps.applyBlock (keeps : ledger.Keeps blocks store) (stored : store.ComesFrom blocks)
    (height : Height) (txs : List BlockTx) :
    (ledger.applyBlock height txs).1.Keeps (blocks ++ [txs]) store := by
  have keeps : ledger.Keeps (blocks ++ [txs]) store := by
    refine keeps.mono (And.imp_right fun kept once => kept ?_)
      (And.imp_right fun kept once => kept ?_)
    all_goals
      rw [List.flatMap_append, List.count_append] at once
      exact (Nat.le_add_right _ _).trans once
  exact EachRow.applyBlock (upheld_keeps stored height txs) keeps False.elim

end Ledger

/-! ## From batch to batch -/

/-- Between two batches the marks of the ledger account for everything in which it differs from
the rows that the last batch was taken from, and the store has these but for columns that a write
leaves alone. -/
structure Recalling (blocks : List (List BlockTx)) (ledger : Ledger) (store : RowStore) :
    Prop where
  known : ledger.Known blocks
  stored : store.ComesFrom blocks
  keeps : ledger.Keeps blocks store
  recalls : ∃ claims supports,
    TrackedBy (fun _ claim => claim) (fun _ support => support) { store with claims, supports }
      ledger ∧
    Recalls Claim.merge store.claims claims ∧ Recalls Support.merge store.supports supports

/-- What a batch leaves of every row. -/
structure Rewritten (blocks : List (List BlockTx)) (ledger : Ledger) (store written : RowStore) :
    Prop where
  /-- A stored claim is the live one, with the name and the place of creation of the row that was
  stored before, if there was one. -/
  claims : ∀ hash : ClaimHash, written.claims[hash]? =
    writtenOver Claim.merge store.claims[hash]? ledger.claims[hash]?
  /-- A stored support is the live one, or the row that was stored before with the term of the
  live one. -/
  supports : ∀ outpoint : OutPoint, written.supports[outpoint]? =
    writtenOver Support.merge store.supports[outpoint]? ledger.supports[outpoint]?
  takeovers : ∀ name : Bytes, written.takeovers[name]? = ledger.takeover? name
  /-- A claim that was created no more than once is stored as it is. -/
  onceClaims : ∀ hash : ClaimHash, (blocks.flatMap BlockTx.allCreated).count hash ≤ 1 →
    written.claims[hash]? = ledger.claims[hash]?
  /-- So is a support that was added no more than once. -/
  onceSupports : ∀ outpoint : OutPoint, (blocks.flatMap BlockTx.allOutputs).count outpoint ≤ 1 →
    written.supports[outpoint]? = ledger.supports[outpoint]?

namespace Recalling

theorem start (rules : Rules) : Recalling [] (Ledger.empty rules) RowStore.empty where
  known := Ledger.EachRow.empty rules
  stored := ⟨by simp [RowStore.empty], by simp [RowStore.empty]⟩
  keeps := Ledger.EachRow.empty rules
  recalls := by
    refine ⟨∅, ∅, TrackedBy.of_mirrors ⟨rfl, rfl, fun name => ?_⟩ ?_ ?_ rfl, ?_, ?_⟩
    · rw [Ledger.takeover?, Ledger.empty, RowStore.empty, Std.ExtTreeMap.getElem?_empty,
        Std.ExtTreeMap.getElem?_empty]
      rfl
    · simp [Ledger.empty]
    · simp [Ledger.empty]
    · intro hash
      rw [Std.ExtTreeMap.getElem?_empty]
      rfl
    · intro outpoint
      rw [Std.ExtTreeMap.getElem?_empty]
      rfl

/-- A block keeps account of what it does, even if it is refused half way. -/
theorem block (recalling : Recalling blocks ledger store) (height : Height) (txs : List BlockTx) :
    Recalling (blocks ++ [txs]) (ledger.applyBlock height txs).1 store where
  known := recalling.known.applyBlock height txs
  stored := by
    constructor
    all_goals
      intro _ _ found
      rw [List.flatMap_append]
    · exact (recalling.stored.claims found).imp_right (List.mem_append_left _)
    · exact (recalling.stored.supports found).imp_right (List.mem_append_left _)
  keeps := recalling.keeps.applyBlock recalling.stored height txs
  recalls := by
    obtain ⟨claims, supports, tracked, recalled⟩ := recalling.recalls
    exact ⟨claims, supports, tracked.applyBlock_overwrite height txs, recalled⟩

/-- The batch writes every live row over the stored one. -/
theorem rewritten (recalling : Recalling blocks ledger store) (file : UInt32) (height : Height) :
    Rewritten blocks ledger store (store.commit ⟨file, height, ledger.takeChanges.1⟩) := by
  obtain ⟨claims, supports, tracked, recallsClaims, recallsSupports⟩ := recalling.recalls
  have writtenClaims (hash : ClaimHash) :
      (store.commit ⟨file, height, ledger.takeChanges.1⟩).claims[hash]? =
        writtenOver Claim.merge store.claims[hash]? ledger.claims[hash]? := by
    rw [RowStore.claims_commit]
    exact recallsClaims.getElem?_writeTable tracked.claims tracked.claim_hash hash
  have writtenSupports (outpoint : OutPoint) :
      (store.commit ⟨file, height, ledger.takeChanges.1⟩).supports[outpoint]? =
        writtenOver Support.merge store.supports[outpoint]? ledger.supports[outpoint]? := by
    rw [RowStore.supports_commit]
    exact recallsSupports.getElem?_writeTable tracked.supports tracked.support_outpoint outpoint
  refine ⟨writtenClaims, writtenSupports, ?takeovers, fun hash once => ?claims,
    fun outpoint once => ?supports⟩
  case takeovers =>
    intro name
    rw [RowStore.takeovers_commit]
    have same := tracked.takeovers_commit file height name
    rw [RowStore.takeovers_commit] at same
    exact same
  case claims =>
    rw [writtenClaims]
    cases live : ledger.claims[hash]? with
    | none => rfl
    | some claim =>
      cases found : store.claims[hash]? with
      | none => rfl
      | some old => exact congrArg some ((recalling.keeps.claims live).2 once old found)
  case supports =>
    rw [writtenSupports]
    cases live : ledger.supports[outpoint]? with
    | none => rfl
    | some support =>
      cases found : store.supports[outpoint]? with
      | none => rfl
      | some old => exact congrArg some ((recalling.keeps.supports live).2 once old found)

/-- All that a batch leaves comes from the blocks. -/
theorem comesFrom_commit (recalling : Recalling blocks ledger store) (file : UInt32)
    (height : Height) : (store.commit ⟨file, height, ledger.takeChanges.1⟩).ComesFrom blocks := by
  have rewritten := recalling.rewritten file height
  constructor
  · intro hash claim found
    rw [rewritten.claims] at found
    obtain ⟨row, live, origin⟩ := writtenOver_eq_some found
    have known := recalling.known.claims live
    rcases origin with rfl | ⟨old, -, rfl⟩
    · exact known
    · exact known
  · intro outpoint support found
    rw [rewritten.supports] at found
    obtain ⟨row, live, rfl | ⟨old, before, rfl⟩⟩ := writtenOver_eq_some found
    · exact recalling.known.supports live
    · have stored := recalling.stored.supports before
      exact stored

/-- Once the changes are written, all starts again from the rows of the ledger. -/
theorem batch (recalling : Recalling blocks ledger store) (file : UInt32) (height : Height) :
    Recalling blocks ledger.takeChanges.2
      (store.commit ⟨file, height, ledger.takeChanges.1⟩) := by
  have rewritten := recalling.rewritten file height
  obtain ⟨_, _, tracked, -⟩ := recalling.recalls
  refine ⟨recalling.known.congr rfl rfl, recalling.comesFrom_commit file height,
    ⟨?claims, ?supports⟩, ledger.claims, ledger.supports, ?tracked, fun hash => ?recallsClaims,
    fun outpoint => ?recallsSupports⟩
  case claims =>
    intro hash claim live
    refine ⟨tracked.claim_hash live, fun once old found => ?_⟩
    rw [rewritten.onceClaims _ once] at found
    cases found.symm.trans live
    rfl
  case supports =>
    intro outpoint support live
    refine ⟨tracked.support_outpoint live, fun once old found => ?_⟩
    rw [rewritten.onceSupports _ once] at found
    cases found.symm.trans live
    rfl
  case tracked =>
    exact TrackedBy.of_mirrors ⟨rfl, rfl, rewritten.takeovers⟩ tracked.claim_hash
      tracked.support_outpoint rfl
  case recallsClaims =>
    rw [rewritten.claims]
    exact (writtenOver_writtenOver Claim.merge_self Claim.merge_merge _ _).symm
  case recallsSupports =>
    rw [rewritten.supports]
    exact (writtenOver_writtenOver Support.merge_self Support.merge_merge _ _).symm

end Recalling

namespace Followed

variable {rules : Rules} {last : Option Height} {tables : Tables}

theorem recalling (followed : Followed rules blocks last ledger store tables) :
    Recalling blocks ledger store := by
  induction followed with
  | start => exact Recalling.start rules
  | block _ txs ih => exact ih.block _ txs
  | gap _ gap txs ih =>
    rw [Ledger.applyBlock_of_ne_next _ gap txs]
    exact ih
  | batch _ file _ ih => exact ih.batch file _

/-- Whatever the blocks were, and however they were split into batches, a batch leaves the live
rows written over the stored ones, and the tables load what it leaves. -/
theorem rewritten_commit (followed : Followed rules blocks last ledger store tables)
    (file : UInt32) (height : Height) :
    Rewritten blocks ledger store (store.commit ⟨file, height, ledger.takeChanges.1⟩) ∧
      (tables.commit ⟨file, height, ledger.takeChanges.1⟩).load =
        some (store.commit ⟨file, height, ledger.takeChanges.1⟩).snapshot := by
  have recalling := followed.recalling
  have stored := recalling.comesFrom_commit file height
  refine ⟨recalling.rewritten file height, ?_⟩
  rw [followed.tables_eq, ← RowStore.tables_commit]
  exact RowStore.load_tables _ (fun found => (stored.claims found).1) fun found =>
    (stored.supports found).1

/-- A claim and a support that are spent, and then come again by the same transaction at another
place. -/
def reissued : List (List BlockTx) :=
  let output (index : UInt32) : OutPoint := ⟨Digest.zero 32, index⟩
  let events : List TxEvent := [.create (output 0) [0x61] (Digest.zero 20) 5 [],
    .support (output 1) [0x61] (Digest.zero 20) 7]
  [[⟨Digest.zero 32, 0, events⟩],
    [⟨Digest.zero 32, 0, [.spend (output 0), .spend (output 1)]⟩],
    [⟨Digest.zero 32, 3, events⟩]]

/-- The first block is written before the other two come, and these are written together. -/
theorem exists_followed_reissued :
    ∃ ledger store tables, Followed Rules.regtest reissued (some 0) ledger store tables ∧
      ledger.height = some 2 ∧
      (ledger.claims.values.map fun claim => (claim.created, claim.position.txIndex)) =
        [(2, 3)] ∧
      ((store.commit ⟨0, 2, ledger.takeChanges.1⟩).claims.values.map fun claim =>
        (claim.created, claim.position.txIndex)) = [(0, 0)] ∧
      ledger.supports.values.map Support.created = [2] ∧
      (store.commit ⟨0, 2, ledger.takeChanges.1⟩).supports.values.map Support.created = [0] := by
  have empty : Followed Rules.regtest _ _ _ _ _ := .start
  have first (earlier : Height) (reached : none = some earlier) : earlier ≤ 0 := nomatch reached
  have saved := (empty.block (reissued.getD 0 [])).batch 0 first
  have followed := (saved.block (reissued.getD 1 [])).block (reissued.getD 2 [])
  exact ⟨_, _, _, followed, by decide +kernel, by decide +kernel, by decide +kernel,
    by decide +kernel, by decide +kernel⟩

theorem rewritten_commit_reissued :
    ∃ ledger store tables, Followed Rules.regtest reissued (some 0) ledger store tables ∧
      Rewritten reissued ledger store (store.commit ⟨0, 2, ledger.takeChanges.1⟩) ∧
      (tables.commit ⟨0, 2, ledger.takeChanges.1⟩).load =
        some (store.commit ⟨0, 2, ledger.takeChanges.1⟩).snapshot := by
  obtain ⟨ledger, store, tables, followed, -⟩ := exists_followed_reissued
  exact ⟨ledger, store, tables, followed, followed.rewritten_commit 0 2⟩

/-- Once all is written, the stored claim and the stored support still say that they are from
the first block, while in memory they are from the last one. -/
theorem stale_reissued :
    ∃ ledger store tables, Followed Rules.regtest reissued (some 0) ledger store tables ∧
      ledger.height = some 2 ∧
      (store.commit ⟨0, 2, ledger.takeChanges.1⟩).claims ≠ ledger.claims ∧
      (store.commit ⟨0, 2, ledger.takeChanges.1⟩).supports ≠ ledger.supports := by
  obtain ⟨ledger, store, tables, followed, reached, claims, written, supports, written'⟩ :=
    exists_followed_reissued
  refine ⟨ledger, store, tables, followed, reached, fun same => ?_, fun same => ?_⟩
  · rw [same, claims] at written
    exact absurd written (by decide)
  · rw [same, supports] at written'
    exact absurd written' (by decide)

end Followed

end ClaimLedger
