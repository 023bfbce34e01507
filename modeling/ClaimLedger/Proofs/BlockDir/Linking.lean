/-
# Linking the index

Every block names the one before it, so the block that follows nothing is the
root of a tree. Linking goes through that tree level by level. A block is on the
level that its way back to the root is long, which makes the levels disjoint and
bounds their number; so all of the tree is visited, and the way back from any
block on the last level is a longest line of blocks. What does not lead back to
the root gets no height.
-/

import Mathlib.Data.List.Chain
import Mathlib.Data.List.Perm.Subperm
import ClaimLedger.BlockDir.Index
import ClaimLedger.Proofs.Maps

namespace ClaimLedger

namespace BlockIndex

/-- The block follows nothing. -/
def IsGenesis (blocks : Std.ExtTreeMap BlockHash Location) (hash : BlockHash) : Prop :=
  ∃ location, blocks[hash]? = some location ∧ location.previous = Digest.zero 32

/-- The one block follows the other. -/
def Precedes (blocks : Std.ExtTreeMap BlockHash Location) (before after : BlockHash) : Prop :=
  before ≠ Digest.zero 32 ∧ ∃ location, blocks[after]? = some location ∧
    location.previous = before

/-- Blocks from one that follows nothing on, each followed by the next. -/
structure Line (blocks : Std.ExtTreeMap BlockHash Location) (hashes : List BlockHash) : Prop where
  start : ∀ first ∈ hashes.head?, IsGenesis blocks first
  linked : hashes.IsChain (Precedes blocks)

/-- So many steps lead from the block back to one that follows nothing. -/
inductive StandsAt (blocks : Std.ExtTreeMap BlockHash Location) : Nat → BlockHash → Prop
  | genesis {hash : BlockHash} : IsGenesis blocks hash → StandsAt blocks 0 hash
  | next {n : Nat} {before after : BlockHash} :
      StandsAt blocks n before → Precedes blocks before after → StandsAt blocks (n + 1) after

variable {blocks : Std.ExtTreeMap BlockHash Location} {hash : BlockHash} {hashes : List BlockHash}
variable {n : Nat}

theorem StandsAt.isBlock (stands : StandsAt blocks n hash) :
    ∃ location, blocks[hash]? = some location := by
  cases stands with
  | genesis isGenesis =>
    obtain ⟨location, found, -⟩ := isGenesis
    exact ⟨location, found⟩
  | next _ precedes =>
    obtain ⟨-, location, found, -⟩ := precedes
    exact ⟨location, found⟩

theorem not_isGenesis_of_precedes {before : BlockHash} (precedes : Precedes blocks before hash) :
    ¬ IsGenesis blocks hash := by
  rintro ⟨location, found, isZero⟩
  obtain ⟨notZero, location', found', rfl⟩ := precedes
  cases found.symm.trans found'
  exact notZero isZero

theorem precedes_unique {left right : BlockHash} (isLeft : Precedes blocks left hash)
    (isRight : Precedes blocks right hash) : left = right := by
  obtain ⟨-, location, found, rfl⟩ := isLeft
  obtain ⟨-, location', found', rfl⟩ := isRight
  cases found.symm.trans found'
  rfl

/-- There is only one way back. -/
theorem StandsAt.unique {m : Nat} (stands : StandsAt blocks n hash)
    (stands' : StandsAt blocks m hash) : n = m := by
  induction stands generalizing m with
  | genesis isGenesis =>
    cases stands' with
    | genesis _ => rfl
    | next _ precedes => exact absurd isGenesis (not_isGenesis_of_precedes precedes)
  | next _ precedes ih =>
    cases stands' with
    | genesis isGenesis => exact absurd isGenesis (not_isGenesis_of_precedes precedes)
    | next stands' precedes' =>
      cases precedes_unique precedes precedes'
      rw [ih stands']

/-- A block of every smaller height is on the way back. -/
theorem StandsAt.exists_lower {m : Nat} (stands : StandsAt blocks n hash) (le : m ≤ n) :
    ∃ other, StandsAt blocks m other := by
  induction stands with
  | genesis isGenesis =>
    rw [Nat.le_zero.mp le]
    exact ⟨_, .genesis isGenesis⟩
  | @next n _ after stands precedes ih =>
    rcases Nat.lt_or_eq_of_le le with lt | rfl
    · exact ih (Nat.le_of_lt_succ lt)
    · exact ⟨after, stands.next precedes⟩

/-! ## Lines -/

namespace Line

/-- The place of a block in a line is its height. -/
theorem standsAt (isLine : Line blocks hashes) {i : Nat} (found : hashes[i]? = some hash) :
    StandsAt blocks i hash := by
  induction i generalizing hash with
  | zero =>
    rw [← List.head?_eq_getElem?] at found
    exact .genesis (isLine.start hash found)
  | succ i ih =>
    obtain ⟨inside, rfl⟩ := List.getElem?_eq_some_iff.mp found
    have before := ih (List.getElem?_eq_getElem (Nat.lt_of_succ_lt inside))
    exact before.next (isLine.linked.getElem i inside)

theorem nodup (isLine : Line blocks hashes) : hashes.Nodup := by
  rw [List.Nodup, List.pairwise_iff_getElem]
  intro i j inside inside' lt same
  have atLeft := isLine.standsAt (List.getElem?_eq_getElem inside)
  have atRight := isLine.standsAt (List.getElem?_eq_getElem inside')
  rw [same] at atLeft
  exact Nat.ne_of_lt lt (atLeft.unique atRight)

theorem length_le (isLine : Line blocks hashes) : hashes.length ≤ blocks.size := by
  have listed : hashes ⊆ blocks.keys := by
    intro hash member
    obtain ⟨i, inside, rfl⟩ := List.mem_iff_getElem.mp member
    obtain ⟨location, found⟩ := (isLine.standsAt (List.getElem?_eq_getElem inside)).isBlock
    rw [Std.ExtTreeMap.mem_keys, Std.ExtTreeMap.mem_iff_isSome_getElem?, found]
    rfl
  rw [← Std.ExtTreeMap.length_keys]
  exact (isLine.nodup.subperm listed).length_le

theorem snoc (isLine : Line blocks hashes) {before : BlockHash}
    (isLast : hashes.getLast? = some before) (precedes : Precedes blocks before hash) :
    Line blocks (hashes ++ [hash]) where
  start := by
    intro first isFirst
    cases hashes with
    | nil => cases isLast
    | cons _ _ => exact isLine.start first isFirst
  linked := by
    rw [List.isChain_append]
    refine ⟨isLine.linked, List.isChain_singleton hash, ?_⟩
    intro last isLast' first isFirst
    cases isLast.symm.trans isLast'
    cases isFirst
    exact precedes

end Line

/-- The way back from a block, the other way round. -/
theorem StandsAt.chainTo (stands : StandsAt blocks n hash) (after : List BlockHash) :
    ∃ hashes, Line blocks hashes ∧ hashes.length = n + 1 ∧ hashes.getLast? = some hash ∧
      chainTo blocks (n + 1) hash after = hashes ++ after := by
  induction stands generalizing after with
  | @genesis hash isGenesis =>
    obtain ⟨location, found, isZero⟩ := isGenesis
    refine ⟨[hash], ⟨?_, List.isChain_singleton hash⟩, rfl, rfl, ?_⟩
    · rintro first ⟨⟩
      exact ⟨location, found, isZero⟩
    · rw [BlockIndex.chainTo, found]
      rfl
  | @next n before hash stands precedes ih =>
    obtain ⟨hashes, isLine, length, isLast, back⟩ := ih (hash :: after)
    refine ⟨hashes ++ [hash], isLine.snoc isLast precedes, ?_, List.getLast?_concat, ?_⟩
    · rw [List.length_append, length, List.length_singleton]
    · obtain ⟨-, location, found, rfl⟩ := precedes
      rw [BlockIndex.chainTo, found]
      exact back.trans (List.append_cons hashes hash after)

theorem StandsAt.lt_size (stands : StandsAt blocks n hash) : n < blocks.size := by
  obtain ⟨hashes, isLine, length, -, -⟩ := stands.chainTo []
  have bound := isLine.length_le
  omega

/-! ## Levels -/

theorem mem_children {before : BlockHash} :
    hash ∈ (children blocks)[before]?.getD [] ↔ Precedes blocks before hash := by
  have folded (rows : List (BlockHash × Location))
      (map : Std.ExtTreeMap BlockHash (List BlockHash)) :
      hash ∈ (rows.foldl (fun children row =>
          if row.2.previous = Digest.zero 32 then children
          else children.insert row.2.previous (row.1 :: children[row.2.previous]?.getD []))
          map)[before]?.getD [] ↔
        hash ∈ map[before]?.getD [] ∨ before ≠ Digest.zero 32 ∧
          ∃ location, (hash, location) ∈ rows ∧ location.previous = before := by
    induction rows generalizing map with
    | nil => simp
    | cons row more ih =>
      obtain ⟨other, location⟩ := row
      simp only [List.foldl_cons, ih, List.mem_cons, Prod.mk.injEq]
      by_cases isZero : location.previous = Digest.zero 32
      · rw [if_pos isZero]
        grind
      · rw [if_neg isZero, Std.ExtTreeMap.getElem?_insert]
        by_cases same : location.previous = before
        · rw [if_pos (Std.compare_eq_iff_eq.mpr same)]
          grind
        · rw [if_neg (mt Std.compare_eq_iff_eq.mp same)]
          grind
  rw [children, Std.ExtTreeMap.foldl_eq_foldl_toList, folded, Std.ExtTreeMap.getElem?_empty,
    Precedes]
  simp only [Std.ExtTreeMap.mem_toList_iff_getElem?_eq_some, Option.getD_none, List.not_mem_nil,
    false_or]

theorem genesis?_cases (blocks : Std.ExtTreeMap BlockHash Location) :
    (∃ genesis, genesis? blocks = some genesis ∧ IsGenesis blocks genesis) ∨
      genesis? blocks = none ∧ ∀ hash, ¬ IsGenesis blocks hash := by
  have folded (rows : List (BlockHash × Location)) (found : Option BlockHash) :
      let result := rows.foldl (fun genesis row =>
        if row.2.previous = Digest.zero 32 then some row.1 else genesis) found
      (∃ row ∈ rows, row.2.previous = Digest.zero 32 ∧ result = some row.1) ∨
        result = found ∧ ∀ row ∈ rows, row.2.previous ≠ Digest.zero 32 := by
    induction rows generalizing found with
    | nil => exact .inr ⟨rfl, by simp⟩
    | cons row more ih =>
      have later := ih (if row.2.previous = Digest.zero 32 then some row.1 else found)
      simp only [List.foldl_cons, List.mem_cons]
      grind
  rw [genesis?, Std.ExtTreeMap.foldl_eq_foldl_toList]
  rcases folded blocks.toList none with ⟨⟨hash, location⟩, listed, isZero, found⟩ | ⟨found, none⟩
  · rw [Std.ExtTreeMap.mem_toList_iff_getElem?_eq_some] at listed
    exact .inl ⟨hash, found, location, listed, isZero⟩
  · refine .inr ⟨found, ?_⟩
    rintro hash ⟨location, listed, isZero⟩
    exact none (hash, location) (Std.ExtTreeMap.mem_toList_iff_getElem?_eq_some.mpr listed) isZero

theorem levels_cons (children : Std.ExtTreeMap BlockHash (List BlockHash)) (rounds : Nat)
    (first : BlockHash) (more : List BlockHash) :
    levels children (rounds + 1) (first :: more) =
      (first :: more) :: levels children rounds
        ((first :: more).flatMap fun hash => children[hash]?.getD []) :=
  rfl

/-- From a level with all blocks of one height, each further level has all blocks
of the next height. -/
theorem mem_levels {level : List BlockHash} {rounds height : Nat}
    (isLevel : ∀ hash, hash ∈ level ↔ StandsAt blocks height hash) :
    (∃ other, (levels (children blocks) rounds level)[n]? = some other ∧ hash ∈ other) ↔
      n < rounds ∧ StandsAt blocks (height + n) hash := by
  induction rounds generalizing level height n with
  | zero => simp [levels]
  | succ rounds ih =>
    cases level with
    | nil =>
      have nobody : ¬ StandsAt blocks (height + n) hash := by
        intro stands
        obtain ⟨other, stands⟩ := stands.exists_lower (Nat.le_add_right height n)
        cases (isLevel other).mpr stands
      simp [levels, nobody]
    | cons first more =>
      cases n with
      | zero => simpa [levels] using isLevel hash
      | succ n =>
        have next (after : BlockHash) :
            after ∈ (first :: more).flatMap (fun hash => (children blocks)[hash]?.getD []) ↔
              StandsAt blocks (height + 1) after := by
          simp only [List.mem_flatMap, isLevel, mem_children]
          constructor
          · rintro ⟨before, stands, precedes⟩
            exact stands.next precedes
          · rintro (_ | ⟨stands, precedes⟩)
            exact ⟨_, stands, precedes⟩
        rw [levels_cons, List.getElem?_cons_succ, ih next]
        have sum : height + 1 + n = height + (n + 1) := by omega
        rw [sum, Nat.succ_lt_succ_iff]

theorem ne_nil_of_mem_levels {children : Std.ExtTreeMap BlockHash (List BlockHash)}
    {level other : List BlockHash} {rounds : Nat} (listed : other ∈ levels children rounds level) :
    other ≠ [] := by
  induction rounds generalizing level with
  | zero => cases listed
  | succ rounds ih =>
    cases level with
    | nil => cases listed
    | cons first more =>
      rw [levels_cons] at listed
      rcases List.mem_cons.mp listed with rfl | listed
      · exact List.cons_ne_nil first more
      · exact ih listed

/-- The rows that the levels give the heights. -/
theorem mem_levelHeights {levels : List (List BlockHash)} {height : Height}
    (single : ∀ {n m : Nat} {level other : List BlockHash} {hash : BlockHash},
      levels[n]? = some level → hash ∈ level → levels[m]? = some other → hash ∈ other → n = m) :
    (levelHeights levels)[hash]? = some height ↔
      ∃ n level, levels[n]? = some level ∧ hash ∈ level ∧ height = UInt32.ofNat n := by
  have rows : levelHeights levels =
      (levels.zipIdx.flatMap fun row => row.1.map fun hash => (hash, UInt32.ofNat row.2)).foldl
        (fun heights (row : BlockHash × Height) => heights.insert row.1 row.2) ∅ := by
    rw [levelHeights, List.foldl_flatMap]
    simp only [List.foldl_map]
  have listed (row : BlockHash × Height) :
      row ∈ levels.zipIdx.flatMap (fun row => row.1.map fun hash => (hash, UInt32.ofNat row.2)) ↔
        ∃ n level, levels[n]? = some level ∧ row.1 ∈ level ∧ row.2 = UInt32.ofNat n := by
    simp only [List.mem_flatMap, List.mem_map, List.mem_zipIdx_iff_getElem?, Prod.exists]
    constructor
    · rintro ⟨level, n, isLevel, hash, member, rfl⟩
      exact ⟨n, level, isLevel, member, rfl⟩
    · rintro ⟨n, level, isLevel, member, isHeight⟩
      exact ⟨level, n, isLevel, row.1, member, Prod.ext rfl isHeight.symm⟩
  rw [rows, getElem?_foldl_insert, listed]
  · simp
  · intro row isRow other isOther same
    obtain ⟨n, level, isLevel, member, isHeight⟩ := (listed row).mp isRow
    obtain ⟨m, level', isLevel', member', isHeight'⟩ := (listed other).mp isOther
    rw [← same] at member'
    rw [isHeight, isHeight', single isLevel member isLevel' member']

/-! ## The index when it is linked -/

/-- The levels that linking goes through. -/
def allLevels (index : BlockIndex) : List (List BlockHash) :=
  levels (children index.blocks) index.blocks.size (genesis? index.blocks).toList

theorem relink_eq (index : BlockIndex) :
    index.relink =
      { index with
        heights := levelHeights index.allLevels
        mainChain :=
          match index.allLevels.getLast?.bind List.head? with
          | none => #[]
          | some tip => (chainTo index.blocks index.allLevels.length tip []).toArray } :=
  rfl

section Relink

variable {index : BlockIndex}
variable (single : ∀ {hash other : BlockHash}, IsGenesis index.blocks hash →
  IsGenesis index.blocks other → hash = other)

include single

theorem mem_allLevels {hash : BlockHash} :
    (∃ level, index.allLevels[n]? = some level ∧ hash ∈ level) ↔
      StandsAt index.blocks n hash := by
  have isLevel (hash : BlockHash) :
      hash ∈ (genesis? index.blocks).toList ↔ StandsAt index.blocks 0 hash := by
    have atRoot : StandsAt index.blocks 0 hash ↔ IsGenesis index.blocks hash := by
      constructor
      · rintro ⟨isGenesis⟩
        exact isGenesis
      · exact .genesis
    rw [atRoot]
    rcases genesis?_cases index.blocks with ⟨genesis, found, isGenesis⟩ | ⟨found, none⟩
    · rw [found, Option.toList_some, List.mem_singleton]
      constructor
      · rintro rfl
        exact isGenesis
      · exact fun isOther => single isOther isGenesis
    · rw [found]
      constructor
      · rintro ⟨⟩
      · exact fun isGenesis => (none hash isGenesis).elim
  rw [allLevels, mem_levels isLevel, Nat.zero_add]
  exact and_iff_right_of_imp StandsAt.lt_size

/-- A block that leads back to the first one has the number of steps as its
height, and no other block has one. -/
theorem heights_relink {hash : BlockHash} {height : Height} :
    index.relink.heights[hash]? = some height ↔
      ∃ n, StandsAt index.blocks n hash ∧ height = UInt32.ofNat n := by
  have heights : index.relink.heights = levelHeights index.allLevels := rfl
  rw [heights, mem_levelHeights]
  · constructor
    · rintro ⟨n, level, isLevel, member, isHeight⟩
      exact ⟨n, (mem_allLevels single).mp ⟨level, isLevel, member⟩, isHeight⟩
    · rintro ⟨n, stands, isHeight⟩
      obtain ⟨level, isLevel, member⟩ := (mem_allLevels single).mpr stands
      exact ⟨n, level, isLevel, member, isHeight⟩
  · intro n m level other hash isLevel member isOther member'
    exact ((mem_allLevels single).mp ⟨level, isLevel, member⟩).unique
      ((mem_allLevels single).mp ⟨other, isOther, member'⟩)

theorem length_le_allLevels {hashes : List BlockHash} (isLine : Line index.blocks hashes) :
    hashes.length ≤ index.allLevels.length := by
  rcases Nat.eq_zero_or_pos hashes.length with isZero | isPos
  · omega
  · have inside : hashes.length - 1 < hashes.length := by omega
    have stands := isLine.standsAt (List.getElem?_eq_getElem inside)
    obtain ⟨level, isLevel, -⟩ := (mem_allLevels single).mpr stands
    have last := (List.getElem?_eq_some_iff.mp isLevel).1
    omega

/-- The main chain is a line, and no line is longer. -/
theorem mainChain_relink :
    Line index.blocks index.relink.mainChain.toList ∧
      ∀ {hashes : List BlockHash}, Line index.blocks hashes →
        hashes.length ≤ index.relink.mainChain.toList.length := by
  have bound {hashes : List BlockHash} : Line index.blocks hashes →
      hashes.length ≤ index.allLevels.length := length_le_allLevels single
  rw [relink_eq]
  rcases List.eq_nil_or_concat' index.allLevels with isNil | ⟨init, level, isConcat⟩
  · rw [isNil] at bound ⊢
    refine ⟨⟨?_, List.isChain_nil⟩, bound⟩
    rintro first ⟨⟩
  · have isLast : index.allLevels[init.length]? = some level := by
      rw [isConcat, List.getElem?_concat_length]
    obtain ⟨tip, more, rfl⟩ :=
      List.exists_cons_of_ne_nil (ne_nil_of_mem_levels (List.mem_of_getElem? isLast))
    have stands := (mem_allLevels single).mp ⟨_, isLast, List.mem_cons_self⟩
    obtain ⟨hashes, isLine, length, -, back⟩ := stands.chainTo []
    rw [isConcat, List.length_append, List.length_singleton, ← length] at bound
    rw [isConcat, List.getLast?_concat, List.length_append, List.length_singleton,
      Option.bind_some, List.head?_cons]
    simp only [back, List.append_nil]
    exact ⟨isLine, bound⟩

end Relink

/-- The heights and the main chain are those that the blocks lead to. -/
def IsLinked (index : BlockIndex) : Prop :=
  index.relink = index

theorem isLinked_relink (index : BlockIndex) : index.relink.IsLinked :=
  rfl

/-- Without blocks there is nothing to link. -/
theorem isLinked_of_no_blocks {index : BlockIndex} (blocks : index.blocks = ∅)
    (heights : index.heights = ∅) (mainChain : index.mainChain = #[]) : index.IsLinked := by
  have noGenesis : genesis? index.blocks = none := by
    rcases genesis?_cases index.blocks with ⟨genesis, -, location, found, -⟩ | ⟨noGenesis, -⟩
    · rw [blocks, Std.ExtTreeMap.getElem?_empty] at found
      cases found
    · exact noGenesis
  have noLevels : index.allLevels = [] := by
    rw [allLevels, noGenesis]
    cases index.blocks.size <;> rfl
  rw [IsLinked, relink_eq, noLevels]
  cases index
  cases heights
  cases mainChain
  rfl

end BlockIndex

end ClaimLedger
