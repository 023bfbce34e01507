/-
# A run of blocks on its way to the rows

What a source hands out for a height may be corrupt. What passes the first stage
is not: its blocks are those of the chain, at the heights of the run. So the
second stage takes the ledger along the chain, up to the last height of the run.
-/

import ClaimLedger.Proofs.Sync.Carried
import ClaimLedger.Sync.Coverage

namespace ClaimLedger

/-! ## The heights of a run -/

theorem head?_heightsFrom {first last height : Height}
    (isHead : (heightsFrom first last).head? = some height) : height = first := by
  rw [heightsFrom, List.head?_map, List.head?_range'] at isHead
  split at isHead
  · cases isHead
  · cases isHead
    exact UInt32.ofNat_toNat

theorem getLast?_heightsFrom {first last : Height} (inOrder : first ≤ last) :
    (heightsFrom first last).getLast? = some last := by
  have inOrder := UInt32.le_iff_toNat_le.mp inOrder
  have ending : first.toNat + (last.toNat + 1 - first.toNat) - 1 = last.toNat := by
    omega
  rw [heightsFrom, List.getLast?_map, List.getLast?_range', if_neg (by omega), ending]
  exact congrArg some UInt32.ofNat_toNat

/-! ## Runs that cover what is asked for -/

namespace Coverage

variable {tip first : Height} {run : BlockRun} {runs : List BlockRun}

theorem check_nil (covered : check tip first [] = .ok ()) :
    tip ≠ Height.top ∧ first = tip + 1 := by
  rw [check] at covered
  split at covered
  · cases covered
  · next notTop =>
    split at covered
    · next isNext => exact ⟨notTop, isNext⟩
    · cases covered

theorem check_cons (covered : check tip first (run :: runs) = .ok ()) :
    run.first = first ∧ run.first ≤ run.last ∧ run.last ≠ Height.top ∧
      check tip (run.last + 1) runs = .ok () := by
  rw [check] at covered
  split at covered
  · cases covered
  · next fits =>
    obtain ⟨isFirst, inOrder⟩ := not_or.mp fits
    split at covered
    · cases covered
    · next notTop => exact ⟨not_not.mp isFirst, UInt32.not_lt.mp inOrder, notTop, covered⟩

/-- They go upwards. -/
theorem inOrder_of_check (covered : check tip first runs = .ok ()) :
    ∀ run ∈ runs, run.first ≤ run.last := by
  induction runs generalizing first with
  | nil => exact List.forall_mem_nil _
  | cons run more ih =>
    obtain ⟨-, inOrder, -, covered⟩ := check_cons covered
    exact List.forall_mem_cons.mpr ⟨inOrder, ih covered⟩

/-- They come one behind the other. -/
theorem ordered_of_check (covered : check tip first runs = .ok ()) :
    (∀ run ∈ runs, first ≤ run.first) ∧
      runs.Pairwise fun earlier later => earlier.last < later.first := by
  induction runs generalizing first with
  | nil => exact ⟨List.forall_mem_nil _, .nil⟩
  | cons run more ih =>
    obtain ⟨rfl, inOrder, notTop, covered⟩ := check_cons covered
    obtain ⟨behind, ordered⟩ := ih covered
    have next : (run.last + 1).toNat = run.last.toNat + 1 := Ledger.toNat_next notTop
    have behind (other : BlockRun) (listed : other ∈ more) : run.last < other.first := by
      have behind := UInt32.le_iff_toNat_le.mp (behind other listed)
      exact UInt32.lt_iff_toNat_lt.mpr (by omega)
    refine ⟨List.forall_mem_cons.mpr ⟨UInt32.le_refl _, fun other listed => ?_⟩,
      List.pairwise_cons.mpr ⟨behind, ordered⟩⟩
    exact UInt32.le_of_lt (UInt32.lt_of_le_of_lt inOrder (behind other listed))

/-- The last of them ends at the tip. -/
theorem reaches_of_check (covered : check tip first runs = .ok ()) (behind : first ≤ tip) :
    (runs.map BlockRun.last).getLast? = some tip := by
  cases runs with
  | nil =>
    obtain ⟨notTop, rfl⟩ := check_nil covered
    have next : (tip + 1).toNat = tip.toNat + 1 := Ledger.toNat_next notTop
    have behind := UInt32.le_iff_toNat_le.mp behind
    omega
  | cons run more =>
    clear behind
    induction more generalizing first run with
    | nil =>
      obtain ⟨-, -, -, covered⟩ := check_cons covered
      exact congrArg some ((UInt32.add_left_inj 1).mp (check_nil covered).2)
    | cons other more ih =>
      obtain ⟨-, -, -, covered⟩ := check_cons covered
      rw [List.map_cons, List.map_cons, List.getLast?_cons_cons]
      exact ih other covered

end Coverage

/-- Bytes that a source may hand out for a height of a chain: those of the block,
or corrupt ones. Corrupt bytes hold no block or, behind the first height of a
run, one that does not follow the block before. -/
def RawBlock.Shows (raw : RawBlock) (chain : List Block) (first : Height) : Prop :=
  ∀ block, Block.parse raw.bytes = .ok block →
    chain[raw.height.toNat]? = some block ∨
      raw.height ≠ first ∧ ∀ before, chain[raw.height.toNat - 1]? = some before →
        block.header.previous ≠ before.hash

namespace Stage

variable {chain : List Block} {file : UInt32} {every total : Nat} {raws : List RawBlock}
variable {blocks : LinkedBlocks} {first last : Height}

theorem map_eq_ok_iff {ε α β : Type} {f : α → β} {result : Except ε α} {value : β} :
    result.map f = .ok value ↔ ∃ before, result = .ok before ∧ f before = value := by
  cases result with
  | error failure =>
    constructor
    · intro impossible
      cases impossible
    · rintro ⟨_, impossible, -⟩
      cases impossible
  | ok before =>
    constructor
    · intro same
      cases same
      exact ⟨before, rfl, rfl⟩
    · rintro ⟨_, same, rfl⟩
      cases same
      rfl

theorem checkLink_eq_ok_iff {height lastHeight : Height} {block : Block} {lastHash : BlockHash} :
    checkLink file (some (lastHeight, lastHash)) height block = .ok () ↔
      height.toNat = lastHeight.toNat + 1 ∧ block.header.previous = lastHash := by
  rw [checkLink]
  by_cases top : lastHeight = Height.top
  · have beyond : height.toNat ≠ lastHeight.toNat + 1 := by
      rw [top]
      exact Nat.ne_of_lt height.toNat_lt
    rw [if_pos top]
    constructor
    · intro impossible
      cases impossible
    · rintro ⟨follows, -⟩
      exact absurd follows beyond
  · have next : height = lastHeight + 1 ↔ height.toNat = lastHeight.toNat + 1 := by
      rw [← Ledger.toNat_next top, UInt32.toNat_inj]
      rfl
    simp [top, next]

/-- Blocks that parse and link are those of the chain, if what came before them
was. -/
theorem of_parseBlocks {done : Nat} {before : Option (Height × BlockHash)}
    (shows : ∀ raw ∈ raws, raw.Shows chain first)
    (start : before = none → ∀ height, (raws.map RawBlock.height).head? = some height →
      height = first)
    (known : ∀ height hash, before = some (height, hash) →
      ∃ block, chain[height.toNat]? = some block ∧ block.hash = hash)
    (parsed : (parseBlocks file every total done before raws).2 = .ok blocks) :
    blocks.map Prod.fst = raws.map RawBlock.height ∧
      ∀ entry ∈ blocks, chain[entry.1.toNat]? = some entry.2 := by
  induction raws generalizing done before blocks with
  | nil =>
    cases parsed
    exact ⟨rfl, fun _ listed => by cases listed⟩
  | cons raw more ih =>
    rw [parseBlocks] at parsed
    split at parsed
    · cases parsed
    · next block isBlock =>
      split at parsed
      · cases parsed
      · next linked =>
        have here : chain[raw.height.toNat]? = some block := by
          rcases shows raw List.mem_cons_self block isBlock with here | ⟨behind, corrupt⟩
          · exact here
          · cases before with
            | none => exact absurd (start rfl raw.height rfl) behind
            | some last =>
              obtain ⟨lastHeight, lastHash⟩ := last
              obtain ⟨lastBlock, isLast, isHash⟩ := known lastHeight lastHash rfl
              obtain ⟨next, follows⟩ := checkLink_eq_ok_iff.mp linked
              have place : raw.height.toNat - 1 = lastHeight.toNat := by
                omega
              rw [place] at corrupt
              exact absurd (follows.trans isHash.symm) (corrupt lastBlock isLast)
        simp only at parsed
        obtain ⟨rest, isRest, rfl⟩ := map_eq_ok_iff.mp parsed
        obtain ⟨heights, listed⟩ := ih
          (fun raw listed => shows raw (List.mem_cons_of_mem _ listed))
          (fun isNone => by cases isNone)
          (fun height hash isLast => by
            cases isLast
            exact ⟨block, here, rfl⟩)
          isRest
        refine ⟨congrArg (raw.height :: ·) heights, fun entry member => ?_⟩
        rcases List.mem_cons.mp member with rfl | member
        · exact here
        · exact listed entry member

/-- The first stage lets only blocks of the chain pass. -/
theorem of_readBlocks (heights : raws.map RawBlock.height = heightsFrom first last)
    (shows : ∀ raw ∈ raws, raw.Shows chain first)
    (read : (readBlocks file every raws).2 = .ok blocks) :
    blocks.map Prod.fst = heightsFrom first last ∧
      ∀ entry ∈ blocks, chain[entry.1.toNat]? = some entry.2 := by
  rw [← heights]
  have parsed : (parseBlocks file (max every 1) raws.length 0 none raws).2 = .ok blocks := by
    rw [readBlocks] at read
    split at read
    · cases read
    · next result =>
      cases read
      rw [result]
  apply of_parseBlocks shows _ _ parsed
  · intro _ height isHead
    rw [heights] at isHead
    exact head?_heightsFrom isHead
  · intro _ _ isSome
    cases isSome

theorem reached_eq {run : BlockRun} (heights : blocks.map Prod.fst = heightsFrom run.first run.last)
    (inOrder : run.first ≤ run.last) : reached run blocks = run.last := by
  have isLast := getLast?_heightsFrom inOrder
  rw [← heights, List.getLast?_map] at isLast
  rw [reached]
  split
  · rfl
  · next result =>
    rw [result] at isLast
    cases isLast
    rfl

/-! ## Applying the blocks -/

section Applied

variable {ledger after : Ledger} {done reported : Nat}

/-- What the second stage does with the first of some blocks. -/
theorem of_applyBlocks_cons {height : Height} {block : Block}
    (applied : (applyBlocks file every total done reported ledger
      ((height, block) :: blocks)).2 = .ok after) :
    ∃ further summary, ledger.applyBlock height (BlockTx.ofBlock block) = (further, .ok summary) ∧
      ∃ done reported, (applyBlocks file every total done reported further blocks).2 =
        .ok after := by
  rw [applyBlocks] at applied
  simp only at applied
  split at applied
  · cases applied
  · next further summary result =>
    refine ⟨further, summary, result, ?_⟩
    split at applied
    · exact ⟨_, _, applied⟩
    · exact ⟨_, _, applied⟩

theorem applyBlocks_of_saveBlocks (saved : (saveBlocks file every ledger blocks).2 = .ok after) :
    (applyBlocks file (max every 1) (countTransactions blocks) 0 0 ledger blocks).2 =
      .ok after := by
  rw [saveBlocks] at saved
  split at saved
  · cases saved
  · next result =>
    cases saved
    rw [result]

/-- A block is applied only right behind the last height of the ledger, so the
blocks that are applied go on from there one by one. -/
theorem heights_of_applyBlocks
    (applied : (applyBlocks file every total done reported ledger blocks).2 = .ok after) :
    blocks.map (fun entry => entry.1.toNat) =
        List.range' (Height.count ledger.height) blocks.length ∧
      Height.count after.height = Height.count ledger.height + blocks.length ∧
      after.height = (blocks.map Prod.fst).getLast?.or ledger.height := by
  induction blocks generalizing done reported ledger with
  | nil =>
    cases applied
    exact ⟨rfl, rfl, rfl⟩
  | cons entry more ih =>
    obtain ⟨height, block⟩ := entry
    obtain ⟨further, summary, result, _, _, applied⟩ := of_applyBlocks_cons applied
    obtain ⟨notTop, next, -, settled, -, isFurther⟩ := Ledger.applyBlock_ok result
    have isHeight : further.height = some height := by rw [isFurther]
    have isNext : height.toNat = Height.count ledger.height := by
      rw [next]
      exact Ledger.toNat_next_height notTop
    have further : Height.count further.height = Height.count ledger.height + 1 := by
      rw [isHeight, ← isNext]
      rfl
    obtain ⟨heights, count, reached⟩ := ih applied
    rw [further] at heights count
    refine ⟨?_, ?_, ?_⟩
    · rw [List.map_cons, heights, List.length_cons, List.range'_succ, isNext]
    · rw [count, List.length_cons]
      omega
    · rw [reached, isHeight, List.map_cons, List.getLast?_cons]
      cases (more.map Prod.fst).getLast? <;> rfl

/-- The second stage takes the ledger along the chain, block by block. -/
theorem carried_applyBlocks {rules : Rules} {store : RowStore}
    (fresh : Fresh (chain.map BlockTx.ofBlock))
    (carried : Carried rules (chain.map BlockTx.ofBlock) store ledger)
    (listed : ∀ entry ∈ blocks, chain[entry.1.toNat]? = some entry.2)
    (applied : (applyBlocks file every total done reported ledger blocks).2 = .ok after) :
    Carried rules (chain.map BlockTx.ofBlock) store after := by
  induction blocks generalizing done reported ledger with
  | nil =>
    cases applied
    exact carried
  | cons entry more ih =>
    obtain ⟨height, block⟩ := entry
    obtain ⟨further, summary, result, _, _, applied⟩ := of_applyBlocks_cons applied
    have here : (chain.map BlockTx.ofBlock)[height.toNat]? = some (BlockTx.ofBlock block) := by
      rw [List.getElem?_map, listed _ List.mem_cons_self]
      rfl
    exact ih (carried.applyBlock fresh here result).1
      (fun entry member => listed entry (List.mem_cons_of_mem _ member)) applied

/-- Through both stages, a run takes the ledger to its last height. -/
theorem carried_saveBlocks {rules : Rules} {store : RowStore}
    (fresh : Fresh (chain.map BlockTx.ofBlock))
    (carried : Carried rules (chain.map BlockTx.ofBlock) store ledger)
    (heights : blocks.map Prod.fst = heightsFrom first last) (inOrder : first ≤ last)
    (listed : ∀ entry ∈ blocks, chain[entry.1.toNat]? = some entry.2)
    (saved : (saveBlocks file every ledger blocks).2 = .ok after) :
    Carried rules (chain.map BlockTx.ofBlock) store after ∧ after.height = some last := by
  have applied := applyBlocks_of_saveBlocks saved
  have reached := (heights_of_applyBlocks applied).2.2
  rw [heights, getLast?_heightsFrom inOrder] at reached
  exact ⟨carried_applyBlocks fresh carried listed applied, reached⟩

end Applied

end Stage

end ClaimLedger
