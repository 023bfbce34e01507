/-
# One transaction after the other

Applied in phases, a block comes to the same as its transactions read one after
the other. In this reading a transaction first deletes the supports that it
spends, and carries on or deletes the claims that it spends; then its own claims
and supports come in; and when all transactions are read every name is settled.

Two properties of the chain are behind this. A transaction spends no output
that it or a later one produces, and every output is spent at most once in a
block. The phases reach a claim in another order then, but with the same fate.
-/

import ClaimLedger.Proofs.Ledger.Defined
import ClaimLedger.Proofs.Ledger.Extended
import ClaimLedger.Proofs.Ledger.Rebuild

namespace ClaimLedger

/-- The live claims and supports. -/
structure Rows where
  claims : Std.ExtTreeMap ClaimHash Claim
  supports : Std.ExtTreeMap OutPoint Support

namespace Rows

/-- What is left when a transaction has spent its outputs: no support that it
spends, and of a claim that it spends what it carries on. -/
def spend (rules : Rules) (height : Height) (tx : BlockTx) (rows : Rows) : Rows where
  claims := rows.claims.filterMap fun _ claim => claim.after rules height tx
  supports := rows.supports.filter fun outpoint _ => !tx.spends.contains outpoint

/-- Take in what one event adds. Newcomers wait under whoever was in control
before the block. -/
def add (before : Ledger) (height : Height) (rows : Rows) : BlockTx × TxEvent → Rows
  | (tx, .create outpoint name hash amount owner) =>
    { rows with
      claims := rows.claims.insert hash
        (before.newClaim height tx.index outpoint name hash amount owner) }
  | (_, .support outpoint name claim amount) =>
    { rows with
      supports := rows.supports.insert outpoint
        (before.newSupport height outpoint name claim amount) }
  | _ => rows

/-- Read one transaction. -/
def read (before : Ledger) (height : Height) (rows : Rows) (tx : BlockTx) : Rows :=
  tx.ownEvents.foldl (add before height) (rows.spend before.rules height tx)

end Rows

namespace Ledger

/-- The ledger with the transactions of a block read one after the other, before
any name is settled. -/
def readInTurn (ledger : Ledger) (height : Height) (txs : List BlockTx) : Ledger :=
  let rows := txs.foldl (Rows.read ledger height) ⟨ledger.claims, ledger.supports⟩
  ofSnapshot ledger.rules
    { ledger.snapshot with claims := rows.claims.values, supports := rows.supports.values }

/-- Read the transactions of a block one after the other, and settle every
name. -/
def applyInTurn (ledger : Ledger) (height : Height) (txs : List BlockTx) :
    Ledger × Except SyncError (List (Bytes × Option ClaimHash)) :=
  match settleAll height (ledger.readInTurn height txs).names.keys
      (ledger.readInTurn height txs) with
  | (after, .ok takeovers) => ({ after with height := some height }, .ok takeovers)
  | (after, .error failure) => (after, .error failure)

/-- Every row after a step that was accepted. -/
def rows? {α : Type} : Ledger × Except SyncError α → Option Snapshot
  | (after, .ok _) => some after.snapshot
  | (_, .error _) => none

end Ledger

/-! ## What the reading does to one row -/

namespace Rows

open Ledger

section Claims

variable (before : Ledger) (height : Height) (hash : ClaimHash)

theorem getElem?_claims_add (rows : Rows) (event : BlockTx × TxEvent) :
    (rows.add before height event).claims[hash]? =
      (before.born? height hash event).or rows.claims[hash]? := by
  obtain ⟨tx, event⟩ := event
  cases event with
  | create outpoint name created amount owner =>
    rw [add, born?]
    simp only [Std.ExtTreeMap.getElem?_insert, Std.compare_eq_iff_eq]
    split <;> rfl
  | spend outpoint => rfl
  | update outpoint name updated amount owner => rfl
  | support outpoint name supported amount => rfl

theorem getElem?_claims_foldl_add (rows : Rows) {events : List (BlockTx × TxEvent)}
    (distinct : (events.filterMap fun event => event.2.created?).Nodup) :
    (events.foldl (add before height) rows).claims[hash]? =
      (events.findSome? (before.born? height hash)).or rows.claims[hash]? := by
  induction events generalizing rows with
  | nil => rfl
  | cons event more ih =>
    have later : (more.filterMap fun event => event.2.created?).Nodup :=
      distinct.sublist ((List.sublist_cons_self event more).filterMap _)
    rw [List.foldl_cons, ih _ later, getElem?_claims_add, List.findSome?_cons]
    cases born : before.born? height hash event with
    | none => rfl
    | some claim =>
      -- no later event creates the claim once more
      have created := (of_born?_eq_some born).1
      rw [List.filterMap_cons, created] at distinct
      rw [findSome?_born?_eq_none (List.nodup_cons.mp distinct).1]
      rfl

theorem getElem?_claims_read (rows : Rows) {tx : BlockTx}
    (distinct : (BlockTx.allCreated [tx]).Nodup) :
    (rows.read before height tx).claims[hash]? =
      (tx.ownEvents.findSome? (before.born? height hash)).or
        (rows.claims[hash]?.bind (Claim.after before.rules height tx)) := by
  have isOwn : BlockTx.allEvents [tx] = tx.ownEvents := List.append_nil _
  rw [BlockTx.allCreated, isOwn] at distinct
  rw [read, getElem?_claims_foldl_add before height hash _ distinct]
  congr 1
  exact Std.ExtTreeMap.getElem?_filterMap'

/-- A transaction leaves alone a claim that only it or a later one creates. -/
theorem fate_of_born {tx : BlockTx} {more : List BlockTx} {claim : Claim}
    (ordered : BlockTx.Ordered (tx :: more)) {events : List (BlockTx × TxEvent)}
    (listed : events ⊆ BlockTx.allEvents (tx :: more))
    (born : events.findSome? (before.born? height hash) = some claim) :
    claim.fate before.rules height (tx :: more) = claim.fate before.rules height more := by
  rw [Claim.fate, Claim.after_of_not_spent, Option.bind_some]
  intro spent
  obtain ⟨event, member, produced⟩ := List.mem_filterMap.mp (mem_of_findSome?_born? born)
  exact ordered.1 claim.outpoint spent
    (List.mem_filterMap.mpr ⟨event, listed member, produced⟩)

/-- Read in turn, a claim that was there or that one of the transactions creates
meets its fate. -/
theorem getElem?_claims_foldl_read {rows : Rows} {txs : List BlockTx}
    (ordered : BlockTx.Ordered txs) (distinct : (BlockTx.allCreated txs).Nodup)
    (new : ∀ claim, rows.claims[hash]? = some claim → hash ∉ BlockTx.allCreated txs) :
    (txs.foldl (Rows.read before height) rows).claims[hash]? =
      (rows.claims[hash]?.or
        ((BlockTx.allEvents txs).findSome? (before.born? height hash))).bind
          (Claim.fate before.rules height txs) := by
  induction txs generalizing rows with
  | nil =>
    cases live : rows.claims[hash]? with
    | none => exact live
    | some claim => exact live
  | cons tx more ih =>
    have fate {claim : Claim} {events : List (BlockTx × TxEvent)}
        (listed : events ⊆ BlockTx.allEvents (tx :: more))
        (born : events.findSome? (before.born? height hash) = some claim) :
        claim.fate before.rules height (tx :: more) = claim.fate before.rules height more :=
      fate_of_born before height hash ordered listed born
    rw [BlockTx.allCreated_cons] at distinct new
    obtain ⟨first, rest, apart⟩ := List.nodup_append.mp distinct
    have now := getElem?_claims_read before height hash rows first
    rw [List.foldl_cons, BlockTx.allEvents_cons, List.findSome?_append]
    rw [BlockTx.allEvents_cons] at fate
    cases born : tx.ownEvents.findSome? (before.born? height hash) with
    | some claim =>
      have created : hash ∈ BlockTx.allCreated [tx] := by
        by_contra uncreated
        have isOwn : BlockTx.allEvents [tx] = tx.ownEvents := List.append_nil _
        rw [BlockTx.allCreated, isOwn] at uncreated
        rw [findSome?_born?_eq_none uncreated] at born
        cases born
      have uncreated : hash ∉ BlockTx.allCreated more := fun again =>
        apart hash created hash again rfl
      have missing : rows.claims[hash]? = none := by
        rw [Option.eq_none_iff_forall_ne_some]
        intro old live
        exact new old live (List.mem_append_left _ created)
      rw [born, Option.some_or] at now
      rw [ih ordered.2 rest fun _ _ => uncreated, now, missing, Option.some_or,
        Option.none_or, Option.bind_some, Option.bind_some, fate (List.subset_append_left _ _) born]
    | none =>
      rw [born, Option.none_or] at now
      have new' (claim : Claim)
          (live : (rows.read before height tx).claims[hash]? = some claim) :
          hash ∉ BlockTx.allCreated more := by
        rw [now] at live
        obtain ⟨old, live, -⟩ := Option.bind_eq_some_iff.mp live
        exact fun created => new old live (List.mem_append_right _ created)
      rw [ih ordered.2 rest new', now, Option.none_or]
      cases live : rows.claims[hash]? with
      | some claim =>
        have uncreated : hash ∉ BlockTx.allCreated more := fun created =>
          new claim live (List.mem_append_right _ created)
        have none : (BlockTx.allEvents more).findSome? (before.born? height hash) = none :=
          findSome?_born?_eq_none uncreated
        rw [none, Option.or_none, Option.or_none, Option.bind_some, Option.bind_some]
        rfl
      | none =>
        rw [Option.bind_none, Option.none_or]
        cases later : (BlockTx.allEvents more).findSome? (before.born? height hash) with
        | none => rfl
        | some claim =>
          rw [Option.bind_some, Option.bind_some, fate (List.subset_append_right _ _) later]

end Claims

section Supports

variable (before : Ledger) (height : Height) (outpoint : OutPoint)

theorem getElem?_supports_add (rows : Rows) (event : BlockTx × TxEvent) :
    (rows.add before height event).supports[outpoint]? =
      (before.pledged? height outpoint event.2).or rows.supports[outpoint]? := by
  obtain ⟨tx, event⟩ := event
  cases event with
  | support produced name supported amount =>
    rw [add, pledged?]
    simp only [Std.ExtTreeMap.getElem?_insert, Std.compare_eq_iff_eq]
    split <;> rfl
  | spend produced => rfl
  | create produced name created amount owner => rfl
  | update produced name updated amount owner => rfl

theorem getElem?_supports_foldl_add (rows : Rows) (events : List (BlockTx × TxEvent)) :
    (events.foldl (add before height) rows).supports[outpoint]? =
      events.foldl (fun cell event => (before.pledged? height outpoint event.2).or cell)
        rows.supports[outpoint]? := by
  induction events generalizing rows with
  | nil => rfl
  | cons event more ih => rw [List.foldl_cons, ih, getElem?_supports_add, List.foldl_cons]

theorem getElem?_supports_read (rows : Rows) (tx : BlockTx) :
    (rows.read before height tx).supports[outpoint]? =
      tx.ownEvents.foldl (fun cell event => (before.pledged? height outpoint event.2).or cell)
        (if outpoint ∈ tx.spends then none else rows.supports[outpoint]?) := by
  rw [read, getElem?_supports_foldl_add]
  congr 1
  refine Std.ExtTreeMap.getElem?_filter'.trans ?_
  cases live : rows.supports[outpoint]? with
  | none => rw [ite_self]; rfl
  | some support => by_cases spent : outpoint ∈ tx.spends <;> simp [Option.filter_some, spent]

/-- Read in turn, an output that some transaction spends is empty at the end, and
any other one holds the support that was there or that was added. -/
theorem getElem?_supports_foldl_read {rows : Rows} {txs : List BlockTx}
    (ordered : BlockTx.Ordered txs) :
    (txs.foldl (Rows.read before height) rows).supports[outpoint]? =
      if outpoint ∈ BlockTx.allSpends txs then none
      else (BlockTx.allEvents txs).foldl
        (fun cell event => (before.pledged? height outpoint event.2).or cell)
        rows.supports[outpoint]? := by
  induction txs generalizing rows with
  | nil => rfl
  | cons tx more ih =>
    obtain ⟨own, ordered⟩ := ordered
    rw [List.foldl_cons, ih ordered, getElem?_supports_read, BlockTx.allSpends_cons,
      BlockTx.allEvents_cons, List.foldl_append]
    simp only [List.mem_append]
    by_cases here : outpoint ∈ tx.spends
    · have elsewhere := own outpoint here
      rw [BlockTx.allOutputs, BlockTx.allEvents_cons, List.filterMap_append, List.mem_append,
        not_or] at elsewhere
      simp only [here, if_true, true_or]
      rw [foldl_pledged?_of_not_mem elsewhere.1,
        foldl_pledged?_of_not_mem elsewhere.2, ite_self]
    · simp only [here, false_or, if_false]

end Supports

end Rows

/-! ## Both ways to take in a block -/

namespace Ledger

/-- A block continues the chain that led to a ledger: it extends it, and its
transactions spend every output at most once, and only after it was produced. -/
structure Continues (ledger : Ledger) (earlier : List OutPoint) (created : List ClaimHash)
    (txs : List BlockTx) : Prop extends ledger.ExtendedBy earlier created txs where
  ordered : BlockTx.Ordered txs
  once : (BlockTx.allSpends txs).Nodup

namespace Continues

variable {ledger : Ledger} {earlier : List OutPoint} {created : List ClaimHash}
variable {txs : List BlockTx} (height : Height)

/-- The phases end with the rows that the transactions leave one after the
other. -/
theorem rows_eq (continues : ledger.Continues earlier created txs) :
    txs.foldl (Rows.read ledger height) ⟨ledger.claims, ledger.supports⟩ =
      ⟨((BlockWork.start ledger height).run height txs).ledger.claims,
        ((BlockWork.start ledger height).run height txs).ledger.supports⟩ := by
  have indexed := continues.sound.indexed
  rw [Rows.mk.injEq]
  constructor
  · apply Std.ExtTreeMap.ext_getElem?
    intro hash
    rw [Rows.getElem?_claims_foldl_read ledger height hash continues.ordered
        (List.nodup_append.mp continues.hashes).2.1 fun _ => continues.uncreated,
      BlockWork.getElem?_claims_run indexed continues.grounded continues.outputs
        continues.ordered continues.once hash fun _ live =>
          findSome?_born?_eq_none (continues.uncreated live)]
  · apply Std.ExtTreeMap.ext_getElem?
    intro outpoint
    rw [Rows.getElem?_supports_foldl_read ledger height outpoint continues.ordered,
      BlockWork.getElem?_supports_run indexed continues.grounded continues.outputs]

/-- The ledger that was read in turn holds the rows that the phases leave, with
control as it was before the block. -/
theorem holds_readInTurn (continues : ledger.Continues earlier created txs) :
    (ledger.readInTurn height txs).Holds
      ((BlockWork.start ledger height).run height txs).ledger.claims.values
      ((BlockWork.start ledger height).run height txs).ledger.supports.values
      ledger.snapshot.takeovers := by
  have reached := continues.reached height
  have distinct := distinct_snapshot reached.indexed
  have before := distinct_snapshot continues.sound.indexed
  rw [readInTurn]
  simp only [continues.rows_eq]
  exact holds_ofSnapshot ledger.rules ⟨distinct.claims, distinct.supports, before.takeovers⟩

theorem standing_readInTurn (continues : ledger.Continues earlier created txs) (name : Bytes) :
    (ledger.readInTurn height txs).standing name =
      ((BlockWork.start ledger height).run height txs).ledger.standing name := by
  have reached := continues.reached height
  have holds := continues.holds_readInTurn height
  apply standing_eq_of_rows reached.indexed holds.indexed
  · exact holds.claims_eq reached.indexed.claim_hash fun _ => Iff.rfl
  · exact holds.supports_eq reached.indexed.support_outpoint fun _ => Iff.rfl
  · rw [holds.takeover?_eq, reached.takeover?_eq continues.sound.indexed]

/-- Settling what a block touched and settling every name succeed together. -/
theorem settles_iff (continues : ledger.Continues earlier created txs)
    (notTop : ledger.height ≠ some Height.top) (next : height = Height.next ledger.height) :
    (settleAll height (ledger.readInTurn height txs).names.keys
        (ledger.readInTurn height txs)).2.isOk = true ↔
      (settleAll height ((BlockWork.start ledger height).run height txs).touched.toList
        ((BlockWork.start ledger height).run height txs).ledger).2.isOk = true := by
  have reached := continues.reached height
  rw [settleAll_isOk_iff reached.indexed,
    settleAll_isOk_iff (continues.holds_readInTurn height).indexed]
  simp only [Std.ExtTreeMap.mem_keys, Std.ExtTreeSet.mem_toList,
    ← continues.standing_readInTurn height]
  constructor
  · intro passes name _
    by_cases used : name ∈ (ledger.readInTurn height txs).names
    · exact passes name used
    · rw [standing_of_not_mem used, (Standing.settled_empty height).settled_eq]
      exact Standing.settled_empty height
  · intro passes name _
    by_cases touched : name ∈ ((BlockWork.start ledger height).run height txs).touched
    · exact passes name touched
    · have quiet := (continues.sound.quiet notTop next reached touched).settled
      rw [← continues.standing_readInTurn height] at quiet
      rw [quiet.settled_eq]
      exact quiet

theorem rules_readInTurn (ledger : Ledger) (height : Height) (txs : List BlockTx) :
    (ledger.readInTurn height txs).rules = ledger.rules :=
  (alike_ofSnapshot False _ _).rules.trans (rules_loaded _ _)

variable {height}

/-- What the phases of a block come to, its transactions come to in turn. -/
theorem rows?_of_applyBlock (continues : ledger.Continues earlier created txs) {after : Ledger}
    {summary : BlockSummary} (done : ledger.applyBlock height txs = (after, .ok summary)) :
    rows? (ledger.applyInTurn height txs) = some after.snapshot := by
  have sound := continues.sound
  have taken := taken_of_applyBlock sound.indexed continues.grounded continues.outputs done
  obtain ⟨notTop, next, -, settled, settling, isAfter⟩ := applyBlock_ok done
  have passes := (continues.settles_iff height notTop next).mpr (by rw [settling]; rfl)
  cases result : settleAll height (ledger.readInTurn height txs).names.keys
      (ledger.readInTurn height txs) with
  | mk mid answer =>
    rw [result] at passes
    cases answer with
    | error failure => cases passes
    | ok changes =>
      have settlement :=
        settlement_of_settleAll (continues.holds_readInTurn height).indexed result
      have indexed := settlement.indexed
      have standing (name : Bytes) : mid.standing name = after.standing name := by
        rw [taken.standing_eq sound, ← continues.standing_readInTurn, settlement.standing]
        split
        · rfl
        · next unused =>
          rw [Std.ExtTreeMap.mem_keys] at unused
          rw [standing_of_not_mem unused, (Standing.settled_empty height).settled_eq]
      have inUse (name : Bytes) (used : name ∈ mid.names) : mid.standing name ≠ {} := by
        obtain ⟨listed, something⟩ := (settlement.used name).mp used
        exact something (Std.ExtTreeMap.mem_keys.mpr listed)
      have rules : mid.rules = after.rules := by
        obtain ⟨_, _, _, _, _, isMid⟩ := settlement.rest
        rw [isMid, taken.rules_eq]
        exact rules_readInTurn ledger height txs
      have alike : Alike False after { mid with height := some height } :=
        alike_of_standing (taken.sound sound).indexed
          ⟨indexed.claim_hash, indexed.support_outpoint, indexed.mem_claims,
            indexed.mem_supports, indexed.holdings⟩
          (taken.sound sound).inUse inUse standing rules (by rw [isAfter])
      rw [applyInTurn]
      rw [result]
      exact congrArg some alike.snapshot_eq

/-- A block that finds every number it needs is accepted in phases if it is
accepted in turn. -/
theorem isOk_applyBlock (continues : ledger.Continues earlier created txs)
    (notTop : ledger.height ≠ some Height.top) (next : height = Height.next ledger.height)
    (faultless : ((BlockWork.start ledger height).run height txs).fault = none)
    (accepted : (rows? (ledger.applyInTurn height txs)).isSome = true) :
    (ledger.applyBlock height txs).2.isOk = true := by
  have passes : (settleAll height (ledger.readInTurn height txs).names.keys
      (ledger.readInTurn height txs)).2.isOk = true := by
    unfold applyInTurn at accepted
    split at accepted
    · next result => rw [result]; rfl
    · cases accepted
  rw [continues.settles_iff height notTop next] at passes
  rw [applyBlock]
  rw [if_neg notTop, if_neg (not_not.mpr next)]
  simp only [faultless]
  split
  · next result =>
    rw [result] at passes
    cases passes
  · rfl

end Continues

variable {rules : Rules} {blocks : List (List BlockTx)} {txs : List BlockTx} {ledger : Ledger}
variable {summaries : List BlockSummary}

/-- What a chain leads to is continued by every further block that fits it. -/
theorem continues_of_replay (fresh : Fresh (blocks ++ [txs])) (ordered : BlockTx.Ordered txs)
    (once : (BlockTx.allSpends txs).Nodup)
    (run : Engine.replay applyBlock rules blocks = .ok (ledger, summaries)) :
    ledger.Continues (blocks.flatMap BlockTx.allOutputs) (blocks.flatMap BlockTx.allCreated)
      txs where
  toExtendedBy := extendedBy_of_replay fresh run
  ordered := ordered
  once := once

/-- Whatever rows a block leaves, its transactions leave when they are read one
after the other. Where the rules have a value, a block is also refused only if it
is refused in turn. -/
theorem rows?_applyInTurn (fresh : Fresh (blocks ++ [txs])) (ordered : BlockTx.Ordered txs)
    (once : (BlockTx.allSpends txs).Nodup)
    (run : Engine.replay applyBlock rules blocks = .ok (ledger, summaries)) :
    (∀ rows, rows? (ledger.applyBlock (Height.next ledger.height) txs) = some rows →
      rows? (ledger.applyInTurn (Height.next ledger.height) txs) = some rows) ∧
    (rules.delayFactor ≠ 0 → blocks.length < 0x80000000 →
      rows? (ledger.applyInTurn (Height.next ledger.height) txs) =
        rows? (ledger.applyBlock (Height.next ledger.height) txs)) := by
  have continues := continues_of_replay fresh ordered once run
  have agree (rows : Snapshot)
      (left : rows? (ledger.applyBlock (Height.next ledger.height) txs) = some rows) :
      rows? (ledger.applyInTurn (Height.next ledger.height) txs) = some rows := by
    cases result : ledger.applyBlock (Height.next ledger.height) txs with
    | mk after answer =>
      rw [result] at left
      cases answer with
      | error failure => cases left
      | ok summary => exact (continues.rows?_of_applyBlock result).trans left
  refine ⟨agree, fun defined low => ?_⟩
  cases left : rows? (ledger.applyBlock (Height.next ledger.height) txs) with
  | some rows => exact agree rows left
  | none =>
    have count := height_of_replay run
    have notTop : ledger.height ≠ some Height.top := by
      intro isTop
      have top : Height.top.toNat = 4294967295 := rfl
      rw [isTop, Option.elim_some] at count
      omega
    have isRules : ledger.rules = rules := rules_of_replay fresh.init run
    rw [← Option.not_isSome_iff_eq_none]
    intro accepted
    have isOk := continues.isOk_applyBlock notTop rfl
      (BlockWork.fault_run (isRules ▸ defined)
        (by rw [toNat_next_height notTop, count]; exact low) txs) accepted
    cases result : ledger.applyBlock (Height.next ledger.height) txs with
    | mk after answer =>
      rw [result] at isOk left
      cases answer with
      | error failure => cases isOk
      | ok summary => cases left

/-- A claim with a support. -/
def backed : List (List BlockTx) :=
  let output (index : UInt32) : OutPoint := ⟨Digest.zero 32, index⟩
  [[⟨Digest.zero 32, 0, [.create (output 0) [0x61] (Digest.zero 20) 5 [],
    .support (output 1) [0x61] (Digest.zero 20) 4]⟩]]

/-- Three transactions of one block: the claim moves twice, past an update under
another name, its support is spent, and a new claim is given up again. -/
def hurried : List BlockTx :=
  let output (index : UInt32) : OutPoint := ⟨Digest.zero 32, index⟩
  let other : ClaimHash := ⟨List.replicate 20 3, List.length_replicate⟩
  [⟨Digest.zero 32, 0, [.spend (output 0),
      .update (output 2) [0x61] (Digest.zero 20) 6 []]⟩,
    ⟨Digest.zero 32, 1, [.spend (output 2), .spend (output 1),
      .update (output 3) [0x62] (Digest.zero 20) 7 [],
      .update (output 4) [0x61] (Digest.zero 20) 8 [],
      .create (output 5) [0x62] other 9 []]⟩,
    ⟨Digest.zero 32, 2, [.spend (output 5)]⟩]

theorem rows?_hurried :
    ∃ ledger summaries, Engine.replay applyBlock Rules.regtest backed = .ok (ledger, summaries) ∧
      (rows? (ledger.applyBlock (Height.next ledger.height) hurried)).isSome = true ∧
      rows? (ledger.applyInTurn (Height.next ledger.height) hurried) =
        rows? (ledger.applyBlock (Height.next ledger.height) hurried) := by
  have accepted : (Engine.replay applyBlock Rules.regtest backed).toOption.map (fun state =>
      (rows? (state.1.applyBlock (Height.next state.1.height) hurried)).isSome) = some true := by
    decide +kernel
  cases run : Engine.replay applyBlock Rules.regtest backed with
  | error failure =>
    rw [run] at accepted
    cases accepted
  | ok state =>
    rw [run] at accepted
    exact ⟨state.1, state.2, rfl, Option.some.inj accepted,
      (rows?_applyInTurn ⟨by decide +kernel, by decide +kernel⟩ (by decide +kernel)
        (by decide +kernel) run).2 (by decide +kernel) (by decide +kernel)⟩

end Ledger

end ClaimLedger
