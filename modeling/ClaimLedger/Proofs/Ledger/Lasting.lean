/-
# Claims over the heights

A claim says when it was created, and that is the height of a block with the event that brought
it in. As long as it stays it keeps its name, its height and its place there, and it never
starts to compete later than it did. So a claim that says that it is from before some height
was there at that height. None of this asks anything of the events.

Where no claim is created twice, the hash alone tells when a claim was created.
-/

import ClaimLedger.Proofs.Ledger.EachRow
import ClaimLedger.Proofs.Ledger.Replay

namespace ClaimLedger

/-! ## Where a claim comes from -/

/-- The claim was created by an event in the block of its height, at its place there. -/
def Claim.BornIn (blocks : List (List BlockTx)) (claim : Claim) : Prop :=
  ∃ txs, blocks[claim.created.toNat]? = some txs ∧ ∃ tx outpoint amount owner,
    (tx, .create outpoint claim.name claim.hash amount owner) ∈ BlockTx.allEvents txs ∧
      claim.position = ⟨tx.index, outpoint.vout⟩

section BornIn

variable {blocks more : List (List BlockTx)} {claim : Claim}

theorem Claim.BornIn.append (born : claim.BornIn blocks) : claim.BornIn (blocks ++ more) := by
  obtain ⟨txs, found, event⟩ := born
  exact ⟨txs, by rw [List.getElem?_append_left (List.getElem?_eq_some_iff.mp found).1, found],
    event⟩

theorem Claim.BornIn.lt_length (born : claim.BornIn blocks) :
    claim.created.toNat < blocks.length := by
  obtain ⟨txs, found, -⟩ := born
  exact (List.getElem?_eq_some_iff.mp found).1

/-- Something that no two blocks bring in comes from one height only. -/
theorem index_eq_of_nodup_flatMap {α β : Type} {list : List α} {f : α → List β}
    (once : (list.flatMap f).Nodup) {i j : Nat} {a b : α} (isA : list[i]? = some a)
    (isB : list[j]? = some b) {item : β} (inA : item ∈ f a) (inB : item ∈ f b) : i = j := by
  obtain ⟨_, apart⟩ := List.nodup_flatMap.mp once
  rw [List.pairwise_iff_getElem] at apart
  obtain ⟨boundI, rfl⟩ := List.getElem?_eq_some_iff.mp isA
  obtain ⟨boundJ, rfl⟩ := List.getElem?_eq_some_iff.mp isB
  rcases Nat.lt_trichotomy i j with before | same | after
  · exact absurd inB (apart i j boundI boundJ before inA)
  · exact same
  · exact absurd inA (apart j i boundJ boundI after inB)

/-- On a fresh chain a claim is created at one height. -/
theorem Fresh.created_eq (fresh : Fresh blocks) {other : Claim} (born : claim.BornIn blocks)
    (born' : other.BornIn blocks) (same : claim.hash = other.hash) :
    claim.created = other.created := by
  obtain ⟨txs, found, tx, outpoint, amount, owner, listed, -⟩ := born
  obtain ⟨txs', found', tx', outpoint', amount', owner', listed', -⟩ := born'
  have isIn : claim.hash ∈ BlockTx.allCreated txs := List.mem_filterMap.mpr ⟨_, listed, rfl⟩
  have isIn' : claim.hash ∈ BlockTx.allCreated txs' :=
    List.mem_filterMap.mpr ⟨_, listed', congrArg some same.symm⟩
  exact UInt32.toNat_inj.mp (index_eq_of_nodup_flatMap fresh.hashes found found' isIn isIn')

end BornIn

/-- An activation is never moved later. -/
theorem Term.activation_activateBy_le (term : Term) (height : Height) :
    (term.activateBy height).activation ≤ term.activation := by
  rw [activateBy]
  split
  · next waits =>
    simp only [isPendingAt, Bool.and_eq_true, decide_eq_true_eq] at waits
    exact UInt32.le_of_lt waits.1
  · exact UInt32.le_refl _

namespace Ledger

variable {blocks more : List (List BlockTx)} {txs : List BlockTx} {ledger earlier : Ledger}
variable {height : Height} {count : Nat} {rules : Rules} {summaries : List BlockSummary}

/-! ## Through one block -/

/-- Every claim comes from the block of its height. -/
abbrev Born (blocks : List (List BlockTx)) : Ledger → Prop :=
  EachRow (fun hash claim => claim.hash = hash ∧ claim.BornIn blocks)
    fun outpoint support => support.outpoint = outpoint

/-- The claims of the earlier ledger last into the later one: whatever says that it is from one
of the first blocks was there, and competes from no later on. -/
abbrev LastsInto (count : Nat) (earlier : Ledger) : Ledger → Prop :=
  EachRow
    (fun hash claim => claim.hash = hash ∧ (claim.created.toNat < count →
      ∃ old, earlier.claims[hash]? = some old ∧ claim.term.activation ≤ old.term.activation))
    fun outpoint support => support.outpoint = outpoint

theorem upheld_born (isHeight : height.toNat = blocks.length) (txs : List BlockTx) :
    Upheld False height txs
      (fun hash claim => claim.hash = hash ∧ claim.BornIn (blocks ++ [txs]))
      fun outpoint support => support.outpoint = outpoint where
  claim_hash := And.left
  support_outpoint := id
  newClaim := by
    intro ledger tx outpoint name hash amount owner listed _
    have here : (blocks ++ [txs])[height.toNat]? = some txs := by simp [isHeight]
    exact ⟨rfl, txs, here, tx, outpoint, amount, owner, listed, rfl⟩
  moved := by
    intro _ _ _ _ _ _ _ _ _ fine
    exact fine
  newSupport := by
    intro _ _ _ _ _ _ _
    rfl
  admittedClaim := id
  admittedSupport := id
  refreshed := fun _ => id

/-- A block brings its own claims in, whether or not it is accepted. -/
theorem Born.applyBlock (born : ledger.Born blocks) (isHeight : height.toNat = blocks.length)
    (txs : List BlockTx) : (ledger.applyBlock height txs).1.Born (blocks ++ [txs]) := by
  have born : ledger.Born (blocks ++ [txs]) :=
    born.mono (And.imp_right Claim.BornIn.append) id
  exact EachRow.applyBlock (upheld_born isHeight txs) born False.elim

theorem upheld_lastsInto (later : count ≤ height.toNat) (earlier : Ledger)
    (txs : List BlockTx) :
    Upheld False height txs
      (fun hash claim => claim.hash = hash ∧ (claim.created.toNat < count →
        ∃ old, earlier.claims[hash]? = some old ∧ claim.term.activation ≤ old.term.activation))
      fun outpoint support => support.outpoint = outpoint where
  claim_hash := And.left
  support_outpoint := id
  newClaim := by
    intro ledger tx outpoint name hash amount owner _ _
    exact ⟨rfl, fun early => absurd early (Nat.not_lt.mpr later)⟩
  moved := by
    intro _ _ _ _ _ _ _ _ _ fine
    exact fine
  newSupport := by
    intro _ _ _ _ _ _ _
    rfl
  admittedClaim := by
    intro hash claim ⟨isHash, kept⟩
    refine ⟨isHash, fun early => ?_⟩
    obtain ⟨old, live, noLater⟩ := kept early
    exact ⟨old, live, UInt32.le_trans (claim.term.activation_activateBy_le height) noLater⟩
  admittedSupport := id
  refreshed := fun _ => id

/-- Every claim lasts into the ledger that it is in. -/
theorem lastsInto_self (born : ledger.Born blocks) (count : Nat) :
    ledger.LastsInto count ledger where
  claims {_ claim} live := ⟨(born.claims live).1, fun _ => ⟨claim, live, UInt32.le_refl _⟩⟩
  supports live := born.supports live

/-- What has lasted lasts through one more block. -/
theorem LastsInto.applyBlock (lasts : earlier.LastsInto count ledger)
    (later : count ≤ height.toNat) (txs : List BlockTx) :
    earlier.LastsInto count (ledger.applyBlock height txs).1 :=
  EachRow.applyBlock (upheld_lastsInto later earlier txs) lasts False.elim

/-! ## Along a chain -/

/-- The next block comes at the height that counts the blocks before it. -/
theorem toNat_next_of_replay (run : Engine.replay applyBlock rules blocks = .ok (ledger, summaries))
    (notTop : ledger.height ≠ some Height.top) :
    (Height.next ledger.height).toNat = blocks.length :=
  (toNat_next_height notTop).trans (height_of_replay run)

theorem born_of_replay (run : Engine.replay applyBlock rules blocks = .ok (ledger, summaries)) :
    ledger.Born blocks := by
  induction blocks using List.reverseRecOn generalizing ledger summaries with
  | nil =>
    cases run
    exact EachRow.empty rules
  | append_singleton blocks txs ih =>
    obtain ⟨before, earlier, summary, run, done, -⟩ := Engine.replay_concat_eq_ok.mp run
    have isHeight := toNat_next_of_replay run (applyBlock_ok done).1
    have born := (ih run).applyBlock isHeight txs
    rw [done] at born
    exact born

/-- The claims after some blocks last into the ledger that further blocks lead to. -/
theorem lastsInto_of_replay
    (run : Engine.replay applyBlock rules (blocks ++ more) = .ok (ledger, summaries)) :
    ∃ before earlier, Engine.replay applyBlock rules blocks = .ok (before, earlier) ∧
      before.LastsInto blocks.length ledger := by
  induction more using List.reverseRecOn generalizing ledger summaries with
  | nil =>
    rw [List.append_nil] at run
    exact ⟨ledger, summaries, run, lastsInto_self (born_of_replay run) blocks.length⟩
  | append_singleton more txs ih =>
    rw [← List.append_assoc] at run
    obtain ⟨between, _, summary, run, done, -⟩ := Engine.replay_concat_eq_ok.mp run
    obtain ⟨before, earlier, start, lasts⟩ := ih run
    have isHeight := toNat_next_of_replay run (applyBlock_ok done).1
    have later : blocks.length ≤ (Height.next between.height).toNat := by
      rw [isHeight, List.length_append]
      exact Nat.le_add_right _ _
    have lasts := lasts.applyBlock later txs
    rw [done] at lasts
    exact ⟨before, earlier, start, lasts⟩

/-- On a fresh chain a claim that was there after some blocks, and is there after more of them,
competes from no later on. -/
theorem activation_le_of_replay {before : Ledger} {began : List BlockSummary} {hash : ClaimHash}
    {old claim : Claim} (fresh : Fresh (blocks ++ more))
    (start : Engine.replay applyBlock rules blocks = .ok (before, began))
    (run : Engine.replay applyBlock rules (blocks ++ more) = .ok (ledger, summaries))
    (liveThen : before.claims[hash]? = some old) (live : ledger.claims[hash]? = some claim) :
    claim.term.activation ≤ old.term.activation := by
  obtain ⟨isHash, born⟩ := (born_of_replay run).claims live
  obtain ⟨isHash', bornThen⟩ := (born_of_replay start).claims liveThen
  have early : claim.created.toNat < blocks.length := by
    rw [fresh.created_eq born bornThen.append (isHash.trans isHash'.symm)]
    exact bornThen.lt_length
  obtain ⟨same, earlier, start', lasts⟩ := lastsInto_of_replay run
  rw [start, Except.ok.injEq, Prod.mk.injEq] at start'
  obtain ⟨rfl, -⟩ := start'
  obtain ⟨was, liveThen', noLater⟩ := (lasts.claims live).2 early
  rw [liveThen, Option.some.injEq] at liveThen'
  subst liveThen'
  exact noLater

end Ledger

end ClaimLedger
