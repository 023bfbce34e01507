/-
# Blocks with the same parents

What linking finds depends on nothing but which block each block follows. The heights are
the same wherever the parents are. So is the main chain, unless several blocks stand highest:
then the order in which the blocks are visited chooses among them.
-/

import ClaimLedger.Proofs.BlockDir.Linking

namespace ClaimLedger

namespace BlockIndex

/-- The same blocks are there, and each follows the same one. -/
def SameParents (blocks blocks' : Std.ExtTreeMap BlockHash Location) : Prop :=
  ∀ hash : BlockHash, blocks[hash]?.map Location.previous = blocks'[hash]?.map Location.previous

/-- No two blocks follow nothing. -/
def OneGenesis (blocks : Std.ExtTreeMap BlockHash Location) : Prop :=
  ∀ {hash other : BlockHash}, IsGenesis blocks hash → IsGenesis blocks other → hash = other

/-- No two blocks stand highest. -/
def OneTip (blocks : Std.ExtTreeMap BlockHash Location) : Prop :=
  ∀ {n hash other}, StandsAt blocks n hash → StandsAt blocks n other →
    (∀ {m last}, StandsAt blocks m last → m ≤ n) → hash = other

section Links

variable {blocks blocks' : Std.ExtTreeMap BlockHash Location} {hash before : BlockHash} {n : Nat}
variable {hashes hashes' : List BlockHash}

theorem isGenesis_iff : IsGenesis blocks hash ↔
    blocks[hash]?.map Location.previous = some (Digest.zero 32) := by
  rw [Option.map_eq_some_iff]
  rfl

theorem precedes_iff : Precedes blocks before hash ↔ before ≠ Digest.zero 32 ∧
    blocks[hash]?.map Location.previous = some before := by
  rw [Option.map_eq_some_iff]
  rfl

namespace SameParents

theorem symm (same : SameParents blocks blocks') : SameParents blocks' blocks :=
  fun hash => (same hash).symm

theorem isGenesis (same : SameParents blocks blocks') (isGenesis : IsGenesis blocks hash) :
    IsGenesis blocks' hash := by
  rw [isGenesis_iff] at isGenesis ⊢
  rw [← same, isGenesis]

theorem precedes (same : SameParents blocks blocks') (precedes : Precedes blocks before hash) :
    Precedes blocks' before hash := by
  rw [precedes_iff] at precedes ⊢
  rwa [← same]

theorem standsAt (same : SameParents blocks blocks') (stands : StandsAt blocks n hash) :
    StandsAt blocks' n hash := by
  induction stands with
  | genesis isGenesis => exact .genesis (same.isGenesis isGenesis)
  | next _ precedes ih => exact ih.next (same.precedes precedes)

theorem line (same : SameParents blocks blocks') (isLine : Line blocks hashes) :
    Line blocks' hashes where
  start first isFirst := same.isGenesis (isLine.start first isFirst)
  linked := isLine.linked.imp fun _ _ => same.precedes

theorem oneGenesis (same : SameParents blocks blocks') (one : OneGenesis blocks) :
    OneGenesis blocks' :=
  fun isGenesis isOther => one (same.symm.isGenesis isGenesis) (same.symm.isGenesis isOther)

end SameParents

theorem Line.of_concat (isLine : Line blocks (hashes ++ [hash])) :
    Line blocks hashes ∧ ∀ last ∈ hashes.getLast?, Precedes blocks last hash := by
  obtain ⟨linked, -, seam⟩ := List.isChain_append.mp isLine.linked
  refine ⟨⟨fun first isFirst => isLine.start first ?_, linked⟩, fun last isLast =>
    seam last isLast hash rfl⟩
  rw [List.head?_append, Option.mem_def.mp isFirst]
  rfl

/-- The last block of a line and its length say what the line is. -/
theorem Line.eq_of_getLast? (isLine : Line blocks hashes) (isLine' : Line blocks hashes')
    (length : hashes.length = hashes'.length) (last : hashes.getLast? = hashes'.getLast?) :
    hashes = hashes' := by
  induction hashes using List.reverseRecOn generalizing hashes' with
  | nil => exact (List.length_eq_zero_iff.mp length.symm).symm
  | append_singleton init hash ih =>
    rcases List.eq_nil_or_concat' hashes' with rfl | ⟨init', hash', rfl⟩
    · simp at length
    · rw [List.getLast?_concat, List.getLast?_concat, Option.some.injEq] at last
      obtain rfl := last
      have shorter : init.length = init'.length := by simpa using length
      obtain ⟨isInit, seam⟩ := isLine.of_concat
      obtain ⟨isInit', seam'⟩ := isLine'.of_concat
      have sameLast : init.getLast? = init'.getLast? := by
        rcases List.eq_nil_or_concat' init with rfl | ⟨_, left, rfl⟩
        · rw [List.length_eq_zero_iff.mp shorter.symm]
        · rcases List.eq_nil_or_concat' init' with rfl | ⟨_, right, rfl⟩
          · simp at shorter
          · rw [List.getLast?_concat, List.getLast?_concat] at *
            rw [precedes_unique (seam left rfl) (seam' right rfl)]
      rw [ih isInit isInit' shorter sameLast]

/-- The main chain ends in a block that stands highest. -/
theorem standsAt_mainChain_relink {index : BlockIndex} (one : OneGenesis index.blocks)
    (isLast : index.relink.mainChain.toList.getLast? = some hash) :
    StandsAt index.blocks (index.relink.mainChain.toList.length - 1) hash ∧
      ∀ {m last}, StandsAt index.blocks m last →
        m ≤ index.relink.mainChain.toList.length - 1 := by
  obtain ⟨isLine, longest⟩ := mainChain_relink one
  refine ⟨isLine.standsAt (List.getLast?_eq_getElem? ▸ isLast), fun {m last} stands => ?_⟩
  obtain ⟨hashes, isOther, length, -, -⟩ := stands.chainTo []
  have atMost := longest isOther
  omega

/-- Linking finds the same heights, whatever else is different about the blocks. -/
theorem heights_relink_eq {index other : BlockIndex}
    (same : SameParents index.blocks other.blocks) (one : OneGenesis index.blocks) :
    index.relink.heights = other.relink.heights := by
  apply Std.ExtTreeMap.ext_getElem?
  intro hash
  apply Option.ext
  intro height
  rw [heights_relink one, heights_relink (same.oneGenesis one)]
  constructor
  · rintro ⟨n, stands, isHeight⟩
    exact ⟨n, same.standsAt stands, isHeight⟩
  · rintro ⟨n, stands, isHeight⟩
    exact ⟨n, same.symm.standsAt stands, isHeight⟩

/-- Linking finds the same main chain if its end is not chosen among several. -/
theorem mainChain_relink_eq {index other : BlockIndex}
    (same : SameParents index.blocks other.blocks) (one : OneGenesis index.blocks)
    (oneTip : OneTip index.blocks) : index.relink.mainChain = other.relink.mainChain := by
  have one' : OneGenesis other.blocks := same.oneGenesis one
  obtain ⟨isLine, longest⟩ := mainChain_relink one
  obtain ⟨isLine', longest'⟩ := mainChain_relink one'
  have length : index.relink.mainChain.toList.length = other.relink.mainChain.toList.length :=
    Nat.le_antisymm (longest' (same.line isLine)) (longest (same.symm.line isLine'))
  refine Array.toList_inj.mp ((isLine.eq_of_getLast? (same.symm.line isLine') length ?_))
  cases isLast : index.relink.mainChain.toList.getLast? with
  | none =>
    rw [List.getLast?_eq_none_iff] at isLast
    rw [isLast] at length
    rw [List.length_eq_zero_iff.mp length.symm]
    rfl
  | some hash =>
    cases isLast' : other.relink.mainChain.toList.getLast? with
    | none =>
      rw [List.getLast?_eq_none_iff] at isLast'
      rw [isLast', List.length_nil] at length
      rw [List.length_eq_zero_iff.mp length] at isLast
      cases isLast
    | some hash' =>
      obtain ⟨stands, highest⟩ := standsAt_mainChain_relink one isLast
      obtain ⟨stands', -⟩ := standsAt_mainChain_relink one' isLast'
      rw [← length] at stands'
      rw [oneTip stands (same.symm.standsAt stands') highest]

end Links

end BlockIndex

end ClaimLedger
