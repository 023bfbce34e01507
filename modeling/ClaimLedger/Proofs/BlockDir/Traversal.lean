/-
# Searching the tree of blocks

The tree of blocks can also be searched with a stack: a block is taken from it and gets its
height, and the blocks that follow it are put on it, in any order. Nothing is remembered about
where the search was. It is enough that every block names only one block before it: what is put
on the stack was never there before, because only the block that is being visited can put it
there. So no block is visited twice, the stack is empty after as many visits as there are blocks
at most, and what does not lead back to the first block, round a circle or not, is never met.

The first of the highest blocks is remembered, and the chain is filled in from there backwards.
The way back is exactly as long as the height says, so no place of the chain is left blank.
-/

import Mathlib.Data.List.Nodup
import ClaimLedger.Proofs.BlockDir.Linking

namespace ClaimLedger

namespace BlockIndex

/-- A search on its way through the tree. Rows are blocks with their heights. -/
structure Search where
  /-- The blocks on the stack, the top first. -/
  waiting : List (BlockHash × Nat)
  /-- The blocks that were visited, the latest first. -/
  visited : List (BlockHash × Nat) := []
  heights : Std.ExtTreeMap BlockHash Height := ∅
  /-- The first of the highest blocks so far. -/
  tip : Option (BlockHash × Nat) := none

namespace Search

/-- Before the first block is visited. -/
def start (genesis : Option BlockHash) : Search where
  waiting := genesis.toList.map fun hash => (hash, 0)

/-- Visit the block on top of the stack, and put the blocks that follow it there. -/
def step (next : BlockHash → List BlockHash) (search : Search) : Search :=
  match search.waiting with
  | [] => search
  | (hash, height) :: others => {
      waiting := (next hash).map (fun child => (child, height + 1)) ++ others
      visited := (hash, height) :: search.visited
      heights := search.heights.insert hash (UInt32.ofNat height)
      tip := if search.tip.all fun highest => highest.2 < height then some (hash, height)
        else search.tip }

/-- Fill a chain in from a place downwards, with a block and those on the way back from it. The
answer says whether the way back broke off before the lowest place. -/
def fill (blocks : Std.ExtTreeMap BlockHash Location) :
    Nat → BlockHash → Array BlockHash → Array BlockHash × Bool
  | 0, _, chain => (chain, false)
  | place + 1, hash, chain =>
    match blocks[hash]? with
    | some location => fill blocks place location.previous (chain.setIfInBounds place hash)
    | none => (chain.setIfInBounds place hash, true)

/-- The chain that ends in the highest block, filled into blank places, and whether it broke
off. -/
def chain (blocks : Std.ExtTreeMap BlockHash Location) (search : Search) :
    Array BlockHash × Bool :=
  match search.tip with
  | none => (#[], false)
  | some (hash, height) =>
    fill blocks (height + 1) hash (Array.replicate (height + 1) (Digest.zero 32))

variable {blocks : Std.ExtTreeMap BlockHash Location} {search : Search}
variable {next : BlockHash → List BlockHash} {hash : BlockHash}

/-! ## What a search keeps -/

/-- What holds of a search all the way: the blocks that it met are different ones of the tree at
their heights, each put on the stack by a visited block or the first one, and those that follow a
visited block are among them. -/
structure Explored (blocks : Std.ExtTreeMap BlockHash Location) (search : Search) : Prop where
  distinct : ((search.visited ++ search.waiting).map Prod.fst).Nodup
  stands : ∀ row ∈ search.visited ++ search.waiting, StandsAt blocks row.2 row.1
  root : ∀ hash, IsGenesis blocks hash → (hash, 0) ∈ search.visited ++ search.waiting
  origin : ∀ row ∈ search.visited ++ search.waiting, IsGenesis blocks row.1 ∨
    ∃ before ∈ search.visited, Precedes blocks before.1 row.1
  closed : ∀ row ∈ search.visited, ∀ child, Precedes blocks row.1 child →
    (child, row.2 + 1) ∈ search.visited ++ search.waiting
  heights : ∀ (hash : BlockHash) (height : Height), search.heights[hash]? = some height ↔
    ∃ n, (hash, n) ∈ search.visited ∧ height = UInt32.ofNat n
  highest : ∀ tip, search.tip = some tip → tip ∈ search.visited ∧
    ∀ row ∈ search.visited, row.2 ≤ tip.2
  nowhere : search.tip = none → search.visited = []

/-- Only the first block is on the stack at the start, with height zero. -/
theorem isGenesis_of_mem_start {row : BlockHash × Nat}
    (listed : row ∈ (start (genesis? blocks)).visited ++ (start (genesis? blocks)).waiting) :
    row.2 = 0 ∧ IsGenesis blocks row.1 := by
  rcases genesis?_cases blocks with ⟨genesis, found, isGenesis⟩ | ⟨found, -⟩
  · rw [start, found] at listed
    rw [List.mem_singleton.mp listed]
    exact ⟨rfl, isGenesis⟩
  · rw [start, found] at listed
    cases listed

theorem explored_start
    (single : ∀ {hash other : BlockHash}, IsGenesis blocks hash → IsGenesis blocks other →
      hash = other) : Explored blocks (start (genesis? blocks)) where
  distinct := by
    cases genesis? blocks with
    | none => exact List.nodup_nil
    | some genesis => exact List.nodup_singleton genesis
  stands := by
    intro row listed
    obtain ⟨isZero, isGenesis⟩ := isGenesis_of_mem_start listed
    rw [isZero]
    exact .genesis isGenesis
  root := by
    intro hash isGenesis
    rcases genesis?_cases blocks with ⟨genesis, found, isGenesis'⟩ | ⟨-, none⟩
    · rw [start, found, single isGenesis isGenesis']
      exact List.mem_singleton_self _
    · exact absurd isGenesis (none hash)
  origin := fun _ listed => .inl (isGenesis_of_mem_start listed).2
  closed := by
    rintro row ⟨⟩
  heights := by simp [start]
  highest := by
    rintro tip ⟨⟩
  nowhere := fun _ => rfl

section Visit

variable {height : Nat} {others : List (BlockHash × Nat)}

/-- The block on top of the stack is visited. -/
theorem step_eq (top : search.waiting = (hash, height) :: others) :
    step next search = {
      waiting := (next hash).map (fun child => (child, height + 1)) ++ others
      visited := (hash, height) :: search.visited
      heights := search.heights.insert hash (UInt32.ofNat height)
      tip := if search.tip.all fun highest => highest.2 < height then some (hash, height)
        else search.tip } := by
  rw [step, top]

/-- A visit leaves the blocks that were met and adds those that follow. -/
theorem perm_step (next : BlockHash → List BlockHash)
    (top : search.waiting = (hash, height) :: others) :
    ((step next search).visited ++ (step next search).waiting).Perm
      ((next hash).map (fun child => (child, height + 1)) ++
        (search.visited ++ search.waiting)) := by
  rw [step_eq top, top]
  have moved : (search.visited ++ (hash, height) :: others).Perm
      ((hash, height) :: search.visited ++ others) := List.perm_middle
  refine .trans ?_ (moved.symm.append_left _)
  rw [← List.append_assoc, ← List.append_assoc]
  exact List.perm_append_comm.append_right others

/-- The block on top of the stack was not visited before. -/
theorem Explored.not_mem_visited (explored : Explored blocks search)
    (top : search.waiting = (hash, height) :: others) : hash ∉ search.visited.map Prod.fst := by
  have distinct := explored.distinct
  rw [List.map_append, top, List.map_cons] at distinct
  exact fun listed => (List.nodup_append.mp distinct).2.2 _ listed _ List.mem_cons_self rfl

theorem Explored.heights_step (explored : Explored blocks search)
    (top : search.waiting = (hash, height) :: others) (other : BlockHash) (found : Height) :
    (step next search).heights[other]? = some found ↔
      ∃ n, (other, n) ∈ (step next search).visited ∧ found = UInt32.ofNat n := by
  have unvisited := explored.not_mem_visited top
  simp only [step_eq top, Std.ExtTreeMap.getElem?_insert, Std.compare_eq_iff_eq]
  split
  · next same =>
    subst same
    constructor
    · rintro ⟨⟩
      exact ⟨height, List.mem_cons_self, rfl⟩
    · rintro ⟨n, listed, rfl⟩
      rcases List.mem_cons.mp listed with same | wasVisited
      · rw [(Prod.mk.inj same).2]
      · exact absurd (List.mem_map_of_mem wasVisited) unvisited
  · next different =>
    rw [explored.heights]
    refine exists_congr fun n => and_congr_left fun _ => ?_
    rw [List.mem_cons]
    exact (or_iff_right fun same => different (Prod.mk.inj same).1.symm).symm

theorem Explored.highest_step (explored : Explored blocks search)
    (top : search.waiting = (hash, height) :: others) {tip : BlockHash × Nat}
    (isTip : (step next search).tip = some tip) :
    tip ∈ (step next search).visited ∧ ∀ row ∈ (step next search).visited, row.2 ≤ tip.2 := by
  simp only [step_eq top] at isTip ⊢
  split at isTip
  · next beaten =>
    cases isTip
    refine ⟨List.mem_cons_self, fun row listed => ?_⟩
    rcases List.mem_cons.mp listed with rfl | wasVisited
    · exact Nat.le_refl _
    · cases before : search.tip with
      | none =>
        rw [explored.nowhere before] at wasVisited
        cases wasVisited
      | some highest =>
        rw [before, Option.all_some, decide_eq_true_eq] at beaten
        exact Nat.le_trans ((explored.highest highest before).2 row wasVisited)
          (Nat.le_of_lt beaten)
  · next unbeaten =>
    obtain ⟨isVisited, isHighest⟩ := explored.highest tip isTip
    rw [isTip, Option.all_some, decide_eq_true_eq] at unbeaten
    refine ⟨List.mem_cons_of_mem _ isVisited, fun row listed => ?_⟩
    rcases List.mem_cons.mp listed with rfl | wasVisited
    · exact Nat.le_of_not_lt unbeaten
    · exact isHighest row wasVisited

end Visit

section Follows

variable (nodup : ∀ hash, (next hash).Nodup)
variable (follows : ∀ hash child, child ∈ next hash ↔ Precedes blocks hash child)

include nodup follows

/-- What a visit puts on the stack was never there. -/
theorem Explored.distinct_step (explored : Explored blocks search) {height : Nat}
    {others : List (BlockHash × Nat)} (top : search.waiting = (hash, height) :: others) :
    (((step next search).visited ++ (step next search).waiting).map Prod.fst).Nodup := by
  rw [((perm_step next top).map Prod.fst).nodup_iff, List.map_append, List.map_map,
    List.nodup_append]
  refine ⟨?_, explored.distinct, ?_⟩
  · have children : (next hash).map (Prod.fst ∘ fun child => (child, height + 1)) = next hash :=
      List.map_id' _
    rw [children]
    exact nodup hash
  · rintro child isNew other isOld rfl
    obtain ⟨_, isNext, rfl⟩ := List.mem_map.mp isNew
    have precedes := (follows hash _).mp isNext
    obtain ⟨row, listed, same⟩ := List.mem_map.mp isOld
    -- only a visit of the block before it could have put it there
    rcases explored.origin row listed with isGenesis | ⟨before, wasVisited, precedes'⟩
    · rw [same] at isGenesis
      exact not_isGenesis_of_precedes precedes isGenesis
    · rw [same] at precedes'
      exact explored.not_mem_visited top (precedes_unique precedes' precedes ▸
        List.mem_map_of_mem wasVisited)

theorem Explored.step (explored : Explored blocks search) :
    Explored blocks (step next search) := by
  cases top : search.waiting with
  | nil =>
    rw [Search.step, top]
    exact explored
  | cons row others =>
    obtain ⟨hash, height⟩ := row
    have perm := perm_step next top
    have visited : (Search.step next search).visited = (hash, height) :: search.visited := by
      rw [step_eq top]
    have known {row : BlockHash × Nat} (listed : row ∈ search.visited ++ search.waiting) :
        row ∈ (Search.step next search).visited ++ (Search.step next search).waiting :=
      perm.mem_iff.mpr (List.mem_append_right _ listed)
    have new_or_known {row : BlockHash × Nat}
        (listed : row ∈ (Search.step next search).visited ++ (Search.step next search).waiting) :
        (Precedes blocks hash row.1 ∧ row.2 = height + 1) ∨
          row ∈ search.visited ++ search.waiting := by
      rcases List.mem_append.mp (perm.mem_iff.mp listed) with new | old
      · obtain ⟨child, isNext, rfl⟩ := List.mem_map.mp new
        exact .inl ⟨(follows hash child).mp isNext, rfl⟩
      · exact .inr old
    refine ⟨explored.distinct_step nodup follows top, ?stands,
      fun genesis isGenesis => known (explored.root genesis isGenesis), ?origin, ?closed,
      explored.heights_step top, fun _ isTip => explored.highest_step top isTip, ?nowhere⟩
    case stands =>
      intro row listed
      rcases new_or_known listed with ⟨precedes, isHeight⟩ | old
      · rw [isHeight]
        exact (explored.stands (hash, height) (by simp [top])).next precedes
      · exact explored.stands row old
    case origin =>
      intro row listed
      rw [visited]
      rcases new_or_known listed with ⟨precedes, -⟩ | old
      · exact .inr ⟨_, List.mem_cons_self, precedes⟩
      · exact (explored.origin row old).imp_right fun ⟨before, wasVisited, precedes⟩ =>
          ⟨before, List.mem_cons_of_mem _ wasVisited, precedes⟩
    case closed =>
      intro row listed child precedes
      rw [visited] at listed
      rcases List.mem_cons.mp listed with rfl | wasVisited
      · refine perm.mem_iff.mpr (List.mem_append_left _ (List.mem_map.mpr ⟨child, ?_, rfl⟩))
        exact (follows _ _).mpr precedes
      · exact known (explored.closed row wasVisited child precedes)
    case nowhere =>
      intro isNone
      simp only [step_eq top] at isNone
      split at isNone
      · cases isNone
      · next unbeaten =>
        rw [isNone] at unbeaten
        exact absurd rfl unbeaten

end Follows

/-! ## The end of a search -/

/-- Everything that was met is a block, and no block was met twice. -/
theorem Explored.length_le (explored : Explored blocks search) :
    search.visited.length + search.waiting.length ≤ blocks.size := by
  have listed : (search.visited ++ search.waiting).map Prod.fst ⊆ blocks.keys := by
    intro hash member
    obtain ⟨row, met, rfl⟩ := List.mem_map.mp member
    obtain ⟨location, found⟩ := (explored.stands row met).isBlock
    rw [Std.ExtTreeMap.mem_keys, Std.ExtTreeMap.mem_iff_isSome_getElem?, found]
    rfl
  have bound := (explored.distinct.subperm listed).length_le
  rw [List.length_map, List.length_append, Std.ExtTreeMap.length_keys] at bound
  exact bound

/-- Every step visits a block, as long as one is waiting. -/
theorem waiting_or_length (next : BlockHash → List BlockHash) (search : Search) (steps : Nat) :
    ((step next)^[steps] search).waiting = [] ∨
      ((step next)^[steps] search).visited.length = search.visited.length + steps := by
  induction steps with
  | zero => exact .inr rfl
  | succ steps ih =>
    rw [Function.iterate_succ_apply']
    cases top : ((step next)^[steps] search).waiting with
    | nil =>
      rw [step, top]
      exact .inl top
    | cons row others =>
      rw [step_eq top]
      rw [top] at ih
      refine .inr ?_
      rw [List.length_cons, ih.resolve_left (List.cons_ne_nil row others)]
      rfl

/-- When no block is waiting any more the whole tree was visited. -/
theorem Explored.mem_visited (explored : Explored blocks search) (done : search.waiting = [])
    {n : Nat} : (hash, n) ∈ search.visited ↔ StandsAt blocks n hash := by
  have met (row : BlockHash × Nat) : row ∈ search.visited ++ search.waiting ↔
      row ∈ search.visited := by rw [done, List.append_nil]
  constructor
  · exact fun listed => explored.stands (hash, n) ((met _).mpr listed)
  · intro stands
    induction stands with
    | genesis isGenesis => exact (met _).mp (explored.root _ isGenesis)
    | next _ precedes ih => exact (met _).mp (explored.closed _ ih _ precedes)

end Search

/-- The search from the first block on, with as many steps as there are blocks. -/
def search (blocks : Std.ExtTreeMap BlockHash Location) (next : BlockHash → List BlockHash) :
    Search :=
  (Search.step next)^[blocks.size] (Search.start (genesis? blocks))

/-- What is written at a place comes first from there on. -/
theorem drop_setIfInBounds {chain : Array BlockHash} {place : Nat} (room : place < chain.size)
    (hash : BlockHash) :
    (chain.setIfInBounds place hash).toList.drop place = hash :: chain.toList.drop (place + 1) := by
  have inside : place < (chain.toList.set place hash).length := by
    rw [List.length_set]
    exact room
  rw [Array.toList_setIfInBounds, List.drop_eq_getElem_cons inside, List.getElem_set_self,
    List.drop_set_of_lt (Nat.lt_succ_self place)]

/-- From a block of the tree the way back does not break off, and fills in what leads to the
block. -/
theorem StandsAt.fill {blocks : Std.ExtTreeMap BlockHash Location} {n : Nat} {hash : BlockHash}
    (stands : StandsAt blocks n hash) {chain : Array BlockHash} (room : n < chain.size) :
    Search.fill blocks (n + 1) hash chain =
      ((BlockIndex.chainTo blocks (n + 1) hash (chain.toList.drop (n + 1))).toArray, false) := by
  induction stands generalizing chain with
  | @genesis hash isGenesis =>
    obtain ⟨location, found, -⟩ := isGenesis
    rw [Search.fill, BlockIndex.chainTo, found]
    simp only [Search.fill, BlockIndex.chainTo]
    rw [← drop_setIfInBounds room, List.drop_zero]
  | @next n before hash stands precedes ih =>
    obtain ⟨-, location, found, rfl⟩ := precedes
    rw [Search.fill, BlockIndex.chainTo, found]
    simp only
    rw [ih (by rw [Array.size_setIfInBounds]; omega), drop_setIfInBounds room]

/-! ## No block comes twice -/

section Children

variable {blocks : Std.ExtTreeMap BlockHash Location}

theorem nodup_children (before : BlockHash) : ((children blocks)[before]?.getD []).Nodup := by
  have folded (rows : List (BlockHash × Location)) (distinct : (rows.map Prod.fst).Nodup)
      (map : Std.ExtTreeMap BlockHash (List BlockHash)) (nodup : (map[before]?.getD []).Nodup)
      (new : ∀ row ∈ rows, row.1 ∉ map[before]?.getD []) :
      ((rows.foldl (fun children row =>
          if row.2.previous = Digest.zero 32 then children
          else children.insert row.2.previous (row.1 :: children[row.2.previous]?.getD []))
          map)[before]?.getD []).Nodup := by
    induction rows generalizing map with
    | nil => exact nodup
    | cons row more ih =>
      rw [List.map_cons, List.nodup_cons] at distinct
      rw [List.foldl_cons]
      apply ih distinct.2
      · split
        · exact nodup
        · rw [Std.ExtTreeMap.getElem?_insert]
          split
          · next same =>
            rw [Std.compare_eq_iff_eq.mp same]
            exact List.nodup_cons.mpr ⟨new row List.mem_cons_self, nodup⟩
          · exact nodup
      · intro other listed
        have old := new other (List.mem_cons_of_mem _ listed)
        split
        · exact old
        · rw [Std.ExtTreeMap.getElem?_insert]
          split
          · next same =>
            rw [Std.compare_eq_iff_eq.mp same, Option.getD_some, List.mem_cons, not_or]
            exact ⟨fun same => distinct.1 (same ▸ List.mem_map_of_mem listed), old⟩
          · exact old
  rw [children, Std.ExtTreeMap.foldl_eq_foldl_toList]
  refine folded _ ?_ ∅ (by simp) (by simp)
  rw [Std.ExtTreeMap.map_fst_toList_eq_keys]
  exact Std.ExtTreeMap.nodup_keys

/-- From a level without repetitions on, no level repeats a block: what follows different blocks is
different. -/
theorem nodup_of_mem_levels {level other : List BlockHash} {rounds : Nat} (nodup : level.Nodup)
    (listed : other ∈ levels (children blocks) rounds level) : other.Nodup := by
  induction rounds generalizing level with
  | zero => cases listed
  | succ rounds ih =>
    cases level with
    | nil => cases listed
    | cons first more =>
      rw [levels_cons] at listed
      rcases List.mem_cons.mp listed with rfl | listed
      · exact nodup
      · refine ih (List.nodup_flatMap.mpr ⟨fun hash _ => nodup_children hash, ?_⟩) listed
        refine nodup.imp fun {left right} different child isLeft isRight => different ?_
        exact precedes_unique (mem_children.mp isLeft) (mem_children.mp isRight)

end Children

/-! ## The longest chain -/

/-- The heights and the chain are what the blocks lead to: every block of the tree has the length
of its way back as its height, and the chain is a longest way. -/
structure Longest (blocks : Std.ExtTreeMap BlockHash Location)
    (heights : Std.ExtTreeMap BlockHash Height) (mainChain : Array BlockHash) : Prop where
  ranked : ∀ (hash : BlockHash) (height : Height), heights[hash]? = some height ↔
    ∃ n, StandsAt blocks n hash ∧ height = UInt32.ofNat n
  /-- There is a chain wherever there is a first block. -/
  empty : mainChain = #[] ↔ ∀ hash, ¬ IsGenesis blocks hash
  first : ∀ hash, mainChain[0]? = some hash ↔ IsGenesis blocks hash
  linked : ∀ (i : Nat) (before after : BlockHash), mainChain[i]? = some before →
    mainChain[i + 1]? = some after → Precedes blocks before after
  /-- What stands in the chain is a block, and never a blank. -/
  placed : ∀ (i : Nat) (hash : BlockHash), mainChain[i]? = some hash →
    (∃ location, blocks[hash]? = some location) ∧ heights[hash]? = some (UInt32.ofNat i)
  /-- No way back is longer. -/
  highest : ∀ (n : Nat) (hash : BlockHash), StandsAt blocks n hash → n < mainChain.size
  /-- As long as the heights are exact the last one is the largest. -/
  largest : mainChain.size ≤ UInt32.size → ∀ tip, mainChain.back? = some tip →
    ∃ top, heights[tip]? = some top ∧
      ∀ (hash : BlockHash) (height : Height), heights[hash]? = some height → height ≤ top

section Longest

variable {blocks : Std.ExtTreeMap BlockHash Location} {hashes : List BlockHash}
variable {heights : Std.ExtTreeMap BlockHash Height}

theorem longest_of_line
    (single : ∀ {hash other : BlockHash}, IsGenesis blocks hash → IsGenesis blocks other →
      hash = other)
    (ranked : ∀ (hash : BlockHash) (height : Height), heights[hash]? = some height ↔
      ∃ n, StandsAt blocks n hash ∧ height = UInt32.ofNat n)
    (isLine : Line blocks hashes)
    (highest : ∀ (n : Nat) (hash : BlockHash), StandsAt blocks n hash → n < hashes.length) :
    Longest blocks heights hashes.toArray := by
  have stands {i : Nat} {hash : BlockHash} (found : hashes.toArray[i]? = some hash) :
      StandsAt blocks i hash := isLine.standsAt (by rwa [List.getElem?_toArray] at found)
  refine ⟨ranked, ?empty, ?first, ?linked,
    fun i hash found => ⟨(stands found).isBlock, (ranked hash _).mpr ⟨i, stands found, rfl⟩⟩,
    highest, ?largest⟩
  case empty =>
    constructor
    · intro isEmpty hash isGenesis
      have inside := highest 0 hash (.genesis isGenesis)
      rw [← List.size_toArray, isEmpty] at inside
      exact absurd inside (Nat.not_lt_zero 0)
    · intro none
      cases hashes with
      | nil => rfl
      | cons first more => exact absurd (isLine.start first rfl) (none first)
  case first =>
    intro hash
    constructor
    · intro found
      rw [List.getElem?_toArray, ← List.head?_eq_getElem?] at found
      exact isLine.start hash found
    · intro isGenesis
      obtain ⟨first, found⟩ : ∃ first, hashes[0]? = some first :=
        ⟨_, List.getElem?_eq_getElem (highest 0 hash (.genesis isGenesis))⟩
      have isFirst := isLine.start first (by rw [List.head?_eq_getElem?, found]; rfl)
      rw [List.getElem?_toArray, found, single isFirst isGenesis]
  case linked =>
    intro i before after isBefore isAfter
    rw [List.getElem?_toArray] at isBefore isAfter
    obtain ⟨inside, rfl⟩ := List.getElem?_eq_some_iff.mp isBefore
    obtain ⟨inside', rfl⟩ := List.getElem?_eq_some_iff.mp isAfter
    exact isLine.linked.getElem i inside'
  case largest =>
    intro exact' tip isTip
    rw [List.size_toArray] at exact'
    rw [Array.back?_eq_getElem?, List.size_toArray] at isTip
    have atTip := stands isTip
    refine ⟨_, (ranked tip _).mpr ⟨_, atTip, rfl⟩, fun hash height found => ?_⟩
    obtain ⟨n, atHash, rfl⟩ := (ranked hash height).mp found
    have below := highest n hash atHash
    have words : UInt32.size = 2 ^ 32 := rfl
    rw [UInt32.le_iff_toNat_le, UInt32.toNat_ofNat_of_lt' (by omega),
      UInt32.toNat_ofNat_of_lt' (by omega)]
    omega

end Longest

/-- What a search with a stack does for an index, if the blocks that follow a block come up in the
given order. -/
structure Searched (index : BlockIndex) (next : BlockHash → List BlockHash) : Prop where
  /-- After as many steps as there are blocks, or fewer, none is waiting any more. -/
  done : (search index.blocks next).waiting = []
  /-- No block is visited twice. -/
  once : ((search index.blocks next).visited.map Prod.fst).Nodup
  /-- It visits the blocks that lead back to the first one. -/
  tree : ∀ (hash : BlockHash) (n : Nat),
    (hash, n) ∈ (search index.blocks next).visited ↔ StandsAt index.blocks n hash
  heights : (search index.blocks next).heights = index.relink.heights
  /-- The way back from the highest block never breaks off. -/
  unbroken : ((search index.blocks next).chain index.blocks).2 = false
  longest : Longest index.blocks (search index.blocks next).heights
    ((search index.blocks next).chain index.blocks).1

section Relink

variable {index : BlockIndex} {next : BlockHash → List BlockHash}
variable (single : ∀ {hash other : BlockHash}, IsGenesis index.blocks hash →
  IsGenesis index.blocks other → hash = other)

include single

theorem longest_relink_mainChain :
    Longest index.blocks index.relink.heights index.relink.mainChain := by
  obtain ⟨isLine, highest⟩ := mainChain_relink single
  have inside (n : Nat) (hash : BlockHash) (stands : StandsAt index.blocks n hash) :
      n < index.relink.mainChain.toList.length := by
    obtain ⟨hashes, isLine', length, -, -⟩ := stands.chainTo []
    have bound := highest isLine'
    omega
  have longest := longest_of_line single (fun _ _ => heights_relink single) isLine inside
  rwa [Array.toArray_toList] at longest

theorem explored_iterate (nodup : ∀ hash, (next hash).Nodup)
    (follows : ∀ hash child, child ∈ next hash ↔ Precedes index.blocks hash child) (steps : Nat) :
    Search.Explored index.blocks
      ((Search.step next)^[steps] (Search.start (genesis? index.blocks))) := by
  induction steps with
  | zero => exact Search.explored_start single
  | succ steps ih =>
    rw [Function.iterate_succ_apply']
    exact ih.step nodup follows

theorem searched (nodup : ∀ hash, (next hash).Nodup)
    (follows : ∀ hash child, child ∈ next hash ↔ Precedes index.blocks hash child) :
    Searched index next := by
  have explored : Search.Explored index.blocks (search index.blocks next) :=
    explored_iterate single nodup follows index.blocks.size
  have done : (search index.blocks next).waiting = [] := by
    -- if a block were still waiting, more blocks than there are would have been met
    rcases Search.waiting_or_length next (Search.start (genesis? index.blocks))
      index.blocks.size with none | all
    · exact none
    · have bound := explored.length_le
      have visited : (search index.blocks next).visited.length = index.blocks.size :=
        all.trans (Nat.zero_add _)
      rw [visited] at bound
      exact List.eq_nil_of_length_eq_zero (by omega)
  have once : ((search index.blocks next).visited.map Prod.fst).Nodup := by
    have distinct := explored.distinct
    rwa [done, List.append_nil] at distinct
  have tree (hash : BlockHash) (n : Nat) :
      (hash, n) ∈ (search index.blocks next).visited ↔ StandsAt index.blocks n hash :=
    explored.mem_visited done
  have ranked (hash : BlockHash) (height : Height) :
      (search index.blocks next).heights[hash]? = some height ↔
        ∃ n, StandsAt index.blocks n hash ∧ height = UInt32.ofNat n := by
    simp only [explored.heights, tree]
  have heights : (search index.blocks next).heights = index.relink.heights := by
    apply Std.ExtTreeMap.ext_getElem?
    intro hash
    rw [Option.ext_iff]
    intro height
    rw [ranked, heights_relink single]
  cases isTip : (search index.blocks next).tip with
  | none =>
    have nobody (n : Nat) (hash : BlockHash) : ¬ StandsAt index.blocks n hash := by
      rw [← tree, explored.nowhere isTip]
      exact List.not_mem_nil
    refine ⟨done, once, tree, heights, ?_, ?_⟩
    · rw [Search.chain, isTip]
    · rw [Search.chain, isTip]
      exact longest_of_line single ranked ⟨by rintro _ ⟨⟩, List.isChain_nil⟩
        fun n hash stands => absurd stands (nobody n hash)
  | some tip =>
    obtain ⟨hash, height⟩ := tip
    obtain ⟨isVisited, isHighest⟩ := explored.highest _ isTip
    have stands := (tree hash height).mp isVisited
    obtain ⟨hashes, isLine, length, -, back⟩ := stands.chainTo []
    have filled : (search index.blocks next).chain index.blocks = (hashes.toArray, false) := by
      rw [Search.chain, isTip]
      simp only
      rw [stands.fill (by rw [Array.size_replicate]; exact Nat.lt_succ_self _)]
      rw [Array.toList_replicate, List.drop_replicate, Nat.sub_self, List.replicate_zero, back,
        List.append_nil]
    refine ⟨done, once, tree, heights, by rw [filled], ?_⟩
    rw [filled]
    refine longest_of_line single ranked isLine fun n other stands' => ?_
    have lower := isHighest _ ((tree other n).mpr stands')
    rw [length]
    exact Nat.lt_succ_of_le lower

/-- The levels that linking goes through have no block in common, and none twice. -/
theorem nodup_flatten_allLevels : index.allLevels.flatten.Nodup := by
  rw [List.nodup_flatten]
  constructor
  · have roots : ((genesis? index.blocks).toList).Nodup := by
      cases genesis? index.blocks with
      | none => exact List.nodup_nil
      | some genesis => exact List.nodup_singleton genesis
    exact fun level listed => nodup_of_mem_levels roots listed
  · rw [List.pairwise_iff_getElem]
    intro i j insideI insideJ before hash inLeft inRight
    have atLeft := (mem_allLevels single).mp ⟨_, List.getElem?_eq_getElem insideI, inLeft⟩
    have atRight := (mem_allLevels single).mp ⟨_, List.getElem?_eq_getElem insideJ, inRight⟩
    exact Nat.ne_of_lt before (atLeft.unique atRight)

/-- Where at most one block follows nothing, linking visits no block twice and finds a longest
chain. So does a search with a stack, in whatever order the blocks that follow a block come up; it
ends with the same heights, and its way back from the highest block never breaks off. -/
theorem longest_relink :
    Longest index.blocks index.relink.heights index.relink.mainChain ∧
      index.allLevels.flatten.Nodup ∧
      ∀ next : BlockHash → List BlockHash, (∀ hash, (next hash).Nodup) →
        (∀ hash child, child ∈ next hash ↔ Precedes index.blocks hash child) →
        Searched index next :=
  ⟨longest_relink_mainChain single, nodup_flatten_allLevels single,
    fun _ nodup follows => searched single nodup follows⟩

end Relink

/-- A first block with two branches, a block that follows none that is there, and two blocks that
follow each other. -/
def thicket : BlockIndex where
  blocks :=
    let row (hash previous : UInt8) : BlockHash × Location :=
      (Digest.filled 32 hash, ⟨0, 0, 0, Digest.filled 32 previous, 1⟩)
    Std.ExtTreeMap.ofList [row 1 0, row 2 1, row 3 1, row 4 2, row 5 9, row 6 7, row 7 6]

theorem longest_thicket :
    Longest thicket.blocks thicket.relink.heights thicket.relink.mainChain ∧
      Searched thicket (fun hash => (children thicket.blocks)[hash]?.getD []) ∧
      thicket.relink.mainChain = #[Digest.filled 32 1, Digest.filled 32 2, Digest.filled 32 4] ∧
      thicket.relink.heights.toList =
        [(Digest.filled 32 1, 0), (Digest.filled 32 2, 1), (Digest.filled 32 3, 1),
          (Digest.filled 32 4, 2)] := by
  have first {hash : BlockHash} (isGenesis : IsGenesis thicket.blocks hash) :
      hash = Digest.filled 32 1 := by
    have rows : ∀ row ∈ thicket.blocks.toList, row.2.previous = Digest.zero 32 →
        row.1 = Digest.filled 32 1 := by decide +kernel
    obtain ⟨location, found, isZero⟩ := isGenesis
    exact rows (hash, location) (Std.ExtTreeMap.mem_toList_iff_getElem?_eq_some.mpr found) isZero
  have single {hash other : BlockHash} (isGenesis : IsGenesis thicket.blocks hash)
      (isOther : IsGenesis thicket.blocks other) : hash = other :=
    (first isGenesis).trans (first isOther).symm
  obtain ⟨longest, -, searched⟩ := longest_relink single
  exact ⟨longest, searched _ nodup_children fun _ _ => mem_children, by decide +kernel,
    by decide +kernel⟩

end BlockIndex

end ClaimLedger
