/-
# Merkle trees

The nodes above a list of digests make a tree. All its leaves are equally deep, and where a
level is odd its last subtree stands there twice; a root is the hash of such a tree. If no
two of the byte strings that are hashed for them collide, two trees with one hash are the
same tree, provided that they are equally high or no leaf of either is at the same time a
node of the other. Lists with one tree differ at most in how much of the repetition at the
end they spell out.
-/

import ClaimLedger.Block.Merkle
import Mathlib.Data.List.Nodup
import Mathlib.Data.Nat.Log

namespace ClaimLedger

/-- No two different byte strings of the list have the same hash. -/
def CollisionFree (values : List Bytes) : Prop :=
  ∀ first ∈ values, ∀ second ∈ values, sha256Twice first = sha256Twice second → first = second

theorem CollisionFree.of_nodup {values : List Bytes} (nodup : (values.map sha256Twice).Nodup) :
    CollisionFree values :=
  fun _ listed _ listed' => List.inj_on_of_nodup_map nodup listed listed'

theorem CollisionFree.of_subset {values more : List Bytes} (collisionFree : CollisionFree more)
    (subset : values ⊆ more) : CollisionFree values :=
  fun first listed second listed' => collisionFree first (subset listed) second (subset listed')

namespace Merkle

/-! ## What is hashed -/

/-- The bytes of neighbours next to each other, which the level above hashes. -/
def paired : List (Digest 32) → List Bytes
  | [] => []
  | [last] => [last.bytes ++ last.bytes]
  | left :: right :: more => (left.bytes ++ right.bytes) :: paired more

/-- Everything that is hashed for the root of a list of digests. -/
def hashed : List (Digest 32) → List Bytes
  | [] => []
  | [_] => []
  | left :: right :: more =>
    paired (left :: right :: more) ++ hashed (raise (left :: right :: more))
termination_by level => level.length
decreasing_by
  simp only [length_raise, List.length_cons]
  omega

/-- Nodes that hash to the same digest are above the same two digests. -/
theorem eq_of_join_eq {values : List Bytes} {left right left' right' : Digest 32}
    (collisionFree : CollisionFree values) (isHashed : left.bytes ++ right.bytes ∈ values)
    (isHashed' : left'.bytes ++ right'.bytes ∈ values)
    (same : join left right = join left' right') : left = left' ∧ right = right' := by
  have sameBytes := collisionFree _ isHashed _ isHashed' same
  obtain ⟨sameLeft, sameRight⟩ :=
    List.append_inj sameBytes (left.length_eq.trans left'.length_eq.symm)
  exact ⟨Digest.ext sameLeft, Digest.ext sameRight⟩

/-! ## Trees -/

/-- The tree above some digests. -/
inductive Tree where
  | leaf (digest : Digest 32)
  | node (left right : Tree)
  deriving DecidableEq

namespace Tree

/-- The digest at the top. -/
def hash : Tree → Digest 32
  | leaf digest => digest
  | node left right => join left.hash right.hash

/-- The digests at the bottom, from left to right. -/
def leaves : Tree → List (Digest 32)
  | leaf digest => [digest]
  | node left right => left.leaves ++ right.leaves

/-- What is hashed for the nodes. -/
def preimages : Tree → List Bytes
  | leaf _ => []
  | node left right => (left.hash.bytes ++ right.hash.bytes) :: (left.preimages ++ right.preimages)

/-- Every leaf is the given number of nodes below the top. -/
def IsFull : Nat → Tree → Prop
  | 0, leaf _ => True
  | height + 1, node left right => IsFull height left ∧ IsFull height right
  | _, _ => False

/-- No leaf of the one is the digest of a node of the other. -/
def Apart (first second : Tree) : Prop :=
  ∀ digest ∈ first.leaves, ∀ value ∈ second.preimages, sha256Twice value ≠ digest

variable {values : List Bytes} {height : Nat}
variable {first second left right left' right' : Tree}

theorem Apart.inner (apart : Apart (node left right) (node left' right')) :
    Apart left left' ∧ Apart right right' :=
  ⟨fun digest isLeaf value isHashed => apart digest (List.mem_append_left _ isLeaf) value
      (List.mem_cons_of_mem _ (List.mem_append_left _ isHashed)),
    fun digest isLeaf value isHashed => apart digest (List.mem_append_right _ isLeaf) value
      (List.mem_cons_of_mem _ (List.mem_append_right _ isHashed))⟩

theorem preimages_node_subset : (node left right).preimages ⊆ values ↔
    left.hash.bytes ++ right.hash.bytes ∈ values ∧ left.preimages ⊆ values ∧
      right.preimages ⊆ values := by
  rw [preimages, List.cons_subset, List.append_subset]

/-- Among trees of one height, the hash fixes the tree. -/
theorem eq_of_hash_eq_of_isFull (collisionFree : CollisionFree values)
    (full : IsFull height first) (full' : IsFull height second)
    (hashed : first.preimages ⊆ values) (hashed' : second.preimages ⊆ values)
    (same : first.hash = second.hash) : first = second := by
  induction height generalizing first second with
  | zero =>
    match first, second, full, full' with
    | leaf _, leaf _, _, _ => exact congrArg leaf same
  | succ height ih =>
    match first, second, full, full' with
    | node left right, node left' right', ⟨fullLeft, fullRight⟩, ⟨fullLeft', fullRight'⟩ =>
      obtain ⟨isHashed, hashedLeft, hashedRight⟩ := preimages_node_subset.mp hashed
      obtain ⟨isHashed', hashedLeft', hashedRight'⟩ := preimages_node_subset.mp hashed'
      obtain ⟨sameLeft, sameRight⟩ := eq_of_join_eq collisionFree isHashed isHashed' same
      rw [ih fullLeft fullLeft' hashedLeft hashedLeft' sameLeft,
        ih fullRight fullRight' hashedRight hashedRight' sameRight]

/-- Among trees whose leaves and nodes are apart, the hash fixes the tree. -/
theorem eq_of_hash_eq_of_apart (collisionFree : CollisionFree values)
    (apart : Apart first second) (apart' : Apart second first)
    (hashed : first.preimages ⊆ values) (hashed' : second.preimages ⊆ values)
    (same : first.hash = second.hash) : first = second := by
  induction first generalizing second with
  | leaf digest =>
    cases second with
    | leaf digest' => exact congrArg leaf same
    | node left' right' =>
      exact absurd same.symm (apart digest (List.mem_singleton_self _) _ List.mem_cons_self)
  | node left right ihLeft ihRight =>
    cases second with
    | leaf digest' =>
      exact absurd same (apart' digest' (List.mem_singleton_self _) _ List.mem_cons_self)
    | node left' right' =>
      obtain ⟨isHashed, hashedLeft, hashedRight⟩ := preimages_node_subset.mp hashed
      obtain ⟨isHashed', hashedLeft', hashedRight'⟩ := preimages_node_subset.mp hashed'
      obtain ⟨sameLeft, sameRight⟩ := eq_of_join_eq collisionFree isHashed isHashed' same
      rw [ihLeft apart.inner.1 apart'.inner.1 hashedLeft hashedLeft' sameLeft,
        ihRight apart.inner.2 apart'.inner.2 hashedRight hashedRight' sameRight]

/-! ## The tree above a level -/

/-- The level above a level of trees. -/
def raise : List Tree → List Tree
  | [] => []
  | [last] => [node last last]
  | left :: right :: more => node left right :: raise more

theorem length_raise : ∀ level, (raise level).length = (level.length + 1) / 2
  | [] => rfl
  | [_] => by simp [raise]
  | _ :: _ :: more => by
    simp only [raise, List.length_cons, length_raise more]
    omega

theorem map_hash_raise : ∀ level, (raise level).map hash = Merkle.raise (level.map hash)
  | [] => rfl
  | [_] => rfl
  | _ :: _ :: more => congrArg (List.cons _) (map_hash_raise more)

/-- The tree above a level of trees; there is none above an empty one. -/
def top? : List Tree → Option Tree
  | [] => none
  | [only] => some only
  | left :: right :: more => top? (raise (left :: right :: more))
termination_by level => level.length
decreasing_by
  simp only [length_raise, List.length_cons]
  omega

/-- Its hash is the root of the hashes. -/
theorem map_hash_top? (level : List Tree) :
    (top? level).map hash = root? (level.map hash) := by
  induction level using top?.induct with
  | case1 => rw [top?, List.map_nil, root?, Option.map_none]
  | case2 only => rw [top?, List.map_cons, List.map_nil, root?, Option.map_some]
  | case3 left right more ih =>
    rw [top?, ih, map_hash_raise, List.map_cons, List.map_cons, root?]

theorem isFull_raise : ∀ level : List Tree, (∀ tree ∈ level, IsFull height tree) →
    ∀ tree ∈ raise level, IsFull (height + 1) tree
  | [], _ => List.forall_mem_nil _
  | [last], full => List.forall_mem_singleton.mpr
    ⟨full last List.mem_cons_self, full last List.mem_cons_self⟩
  | left :: right :: more, full => List.forall_mem_cons.mpr
    ⟨⟨full left List.mem_cons_self, full right (List.mem_cons_of_mem _ List.mem_cons_self)⟩,
      isFull_raise more fun tree listed =>
        full tree (List.mem_cons_of_mem _ (List.mem_cons_of_mem _ listed))⟩

/-- The number of the trees says how far the top is above them. -/
theorem isFull_top? {level : List Tree} (full : ∀ tree ∈ level, IsFull height tree) :
    ∀ tree ∈ top? level, IsFull (height + Nat.clog 2 level.length) tree := by
  induction level using top?.induct generalizing height with
  | case1 => simp [top?]
  | case2 only => simpa [top?] using full
  | case3 left right more ih =>
    have higher := ih (isFull_raise _ full)
    have levels : Nat.clog 2 (left :: right :: more).length =
        Nat.clog 2 (raise (left :: right :: more)).length + 1 := by
      rw [Nat.clog_of_two_le Nat.one_lt_two (by simp), length_raise]
      rfl
    rwa [top?, levels, Nat.add_comm _ 1, ← Nat.add_assoc]

theorem leaves_raise : ∀ level : List Tree,
    level.flatMap leaves <+: (raise level).flatMap leaves ∧
      (raise level).flatMap leaves ⊆ level.flatMap leaves
  | [] => ⟨List.prefix_rfl, List.Subset.refl _⟩
  | [last] => by
    simp only [raise, leaves, List.flatMap_cons, List.flatMap_nil, List.append_nil]
    exact ⟨List.prefix_append _ _,
      List.append_subset.mpr ⟨List.Subset.refl _, List.Subset.refl _⟩⟩
  | left :: right :: more => by
    obtain ⟨kept, subset⟩ := leaves_raise more
    simp only [raise, leaves, List.flatMap_cons, List.append_assoc, List.prefix_append_right_inj]
    refine ⟨kept, fun digest => ?_⟩
    simp only [List.mem_append]
    exact Or.imp_right (Or.imp_right fun inRest => subset inRest)

/-- The top has the leaves of the level, and then only repetitions. -/
theorem leaves_top? (level : List Tree) : ∀ tree ∈ top? level,
    level.flatMap leaves <+: tree.leaves ∧ tree.leaves ⊆ level.flatMap leaves := by
  induction level using top?.induct with
  | case1 => simp [top?]
  | case2 only => simp [top?]
  | case3 left right more ih =>
    intro tree isTop
    rw [top?] at isTop
    obtain ⟨raised, subset⟩ := leaves_raise (left :: right :: more)
    obtain ⟨kept, within⟩ := ih tree isTop
    exact ⟨raised.trans kept, List.Subset.trans within subset⟩

theorem preimages_raise : ∀ level : List Tree, (raise level).flatMap preimages ⊆
    paired (level.map hash) ++ level.flatMap preimages
  | [] => List.Subset.refl _
  | [last] => by simp [raise, preimages, paired]
  | left :: right :: more => by
    intro value isHashed
    simp only [raise, preimages, paired, List.map_cons, List.flatMap_cons, List.mem_append,
      List.mem_cons] at isHashed ⊢
    obtain (rfl | inLeft | inRight) | above := isHashed
    · exact .inl (.inl rfl)
    · exact .inr (.inl inLeft)
    · exact .inr (.inr (.inl inRight))
    · exact (List.mem_append.mp (preimages_raise more above)).imp .inr
        fun below => .inr (.inr below)

/-- The nodes below the top and above the level are those that are hashed for its root. -/
theorem preimages_top? (level : List Tree) : ∀ tree ∈ top? level,
    tree.preimages ⊆ hashed (level.map hash) ++ level.flatMap preimages := by
  induction level using top?.induct with
  | case1 => simp [top?]
  | case2 only => simp [top?, hashed]
  | case3 left right more ih =>
    intro tree isTop
    rw [top?] at isTop
    intro value isHashed
    rw [List.map_cons, List.map_cons, hashed, ← List.map_cons, ← List.map_cons, ← map_hash_raise,
      List.append_assoc]
    obtain higher | below := List.mem_append.mp (ih tree isTop isHashed)
    · exact List.mem_append_right _ (List.mem_append_left _ higher)
    · obtain here | below := List.mem_append.mp (preimages_raise _ below)
      · exact List.mem_append_left _ here
      · exact List.mem_append_right _ (List.mem_append_right _ below)

end Tree

/-! ## The tree of a list -/

/-- The tree of a list of digests. -/
def tree? (digests : List (Digest 32)) : Option Tree :=
  Tree.top? (digests.map Tree.leaf)

/-- The list with the repetitions that its tree adds behind it. -/
def filled (digests : List (Digest 32)) : List (Digest 32) :=
  ((tree? digests).map Tree.leaves).getD []

variable {digests first second : List (Digest 32)} {values : List Bytes}

theorem map_hash_leaf (digests : List (Digest 32)) :
    (digests.map Tree.leaf).map Tree.hash = digests := by
  rw [List.map_map]
  exact List.map_id _

/-- A root is the hash of the tree. -/
theorem root?_eq_map_tree? (digests : List (Digest 32)) :
    root? digests = (tree? digests).map Tree.hash := by
  rw [tree?, Tree.map_hash_top?, map_hash_leaf]

theorem flatMap_leaves_leaf (digests : List (Digest 32)) :
    (digests.map Tree.leaf).flatMap Tree.leaves = digests := by
  rw [List.flatMap_map]
  exact List.flatMap_singleton' digests

theorem isFull_tree? : ∀ tree ∈ tree? digests, tree.IsFull (Nat.clog 2 digests.length) := by
  have full : ∀ tree ∈ digests.map Tree.leaf, tree.IsFull 0 := by
    intro tree isLeaf
    obtain ⟨digest, -, rfl⟩ := List.mem_map.mp isLeaf
    trivial
  simpa [tree?] using Tree.isFull_top? full

theorem preimages_tree? : ∀ tree ∈ tree? digests, tree.preimages ⊆ hashed digests := by
  intro tree isTree
  have within := Tree.preimages_top? _ tree isTree
  have none : (digests.map Tree.leaf).flatMap Tree.preimages = [] := by
    simp [Tree.preimages]
  rwa [map_hash_leaf, none, List.append_nil] at within

theorem leaves_tree? : ∀ tree ∈ tree? digests,
    digests <+: tree.leaves ∧ tree.leaves ⊆ digests := by
  intro tree isTree
  have within := Tree.leaves_top? _ tree isTree
  rwa [flatMap_leaves_leaf] at within

/-- What the tree adds behind the list is in the list already. -/
theorem prefix_filled (digests : List (Digest 32)) :
    digests <+: filled digests ∧ filled digests ⊆ digests := by
  rw [filled]
  cases isTree : tree? digests with
  | none =>
    have none : digests = [] := by
      by_contra some
      obtain ⟨root, isRoot⟩ := exists_root? some
      rw [root?_eq_map_tree?, isTree] at isRoot
      cases isRoot
    rw [none]
    exact ⟨List.prefix_rfl, List.Subset.refl _⟩
  | some tree => exact leaves_tree? tree isTree

/-- A root fixes the tree among lists with equally many levels, and among lists without a
digest that stands above some of the other. -/
theorem tree?_eq_of_root?_eq (collisionFree : CollisionFree values)
    (isHashed : hashed first ⊆ values) (isHashed' : hashed second ⊆ values)
    (apart : Nat.clog 2 first.length = Nat.clog 2 second.length ∨
      (∀ digest ∈ first, ∀ value ∈ hashed second, sha256Twice value ≠ digest) ∧
        ∀ digest ∈ second, ∀ value ∈ hashed first, sha256Twice value ≠ digest)
    (same : root? first = root? second) : tree? first = tree? second := by
  rw [root?_eq_map_tree?, root?_eq_map_tree?] at same
  match isTree : tree? first, isTree' : tree? second with
  | none, none => rfl
  | none, some tree' => rw [isTree, isTree'] at same; cases same
  | some tree, none => rw [isTree, isTree'] at same; cases same
  | some tree, some tree' =>
    rw [isTree, isTree', Option.map_some, Option.map_some, Option.some.injEq] at same
    have within : tree.preimages ⊆ hashed first := preimages_tree? tree isTree
    have within' : tree'.preimages ⊆ hashed second := preimages_tree? tree' isTree'
    obtain level | ⟨apart, apart'⟩ := apart
    · have full := isFull_tree? tree isTree
      rw [level] at full
      rw [Tree.eq_of_hash_eq_of_isFull collisionFree full (isFull_tree? tree' isTree')
        (List.Subset.trans within isHashed) (List.Subset.trans within' isHashed') same]
    · obtain ⟨-, leaves⟩ := leaves_tree? tree isTree
      obtain ⟨-, leaves'⟩ := leaves_tree? tree' isTree'
      have trees : tree.Apart tree' := fun digest isLeaf value isNode =>
        apart digest (leaves isLeaf) value (within' isNode)
      have trees' : tree'.Apart tree := fun digest isLeaf value isNode =>
        apart' digest (leaves' isLeaf) value (within isNode)
      rw [Tree.eq_of_hash_eq_of_apart collisionFree trees trees'
        (List.Subset.trans within isHashed) (List.Subset.trans within' isHashed') same]

/-! ## Lists with one tree -/

/-- Lists of equal length with the same tree are equal. -/
theorem eq_of_filled_eq (same : filled first = filled second)
    (length : first.length = second.length) : first = second := by
  have kept := (prefix_filled first).1
  rw [same] at kept
  have begins := List.prefix_of_prefix_length_le kept (prefix_filled second).1 length.le
  exact begins.eq_of_length length

/-- Of two lists with the same tree, one is the beginning of the other. -/
theorem prefix_or_prefix_of_filled_eq (same : filled first = filled second) :
    first <+: second ∨ second <+: first := by
  have kept := (prefix_filled first).1
  rw [same] at kept
  exact List.prefix_or_prefix_of_prefix kept (prefix_filled second).1

theorem eraseDups_of_nodup (nodup : digests.Nodup) : digests.eraseDups = digests := by
  induction digests with
  | nil => rfl
  | cons digest more ih =>
    obtain ⟨new, nodup⟩ := List.nodup_cons.mp nodup
    have kept : more.filter (fun other => !other == digest) = more := by
      refine List.filter_eq_self.mpr fun other listed => ?_
      simpa using ne_of_mem_of_not_mem listed new
    rw [List.eraseDups_cons, kept, ih nodup]

/-- Filling up adds no digest and leaves the order in which they first occur. -/
theorem eraseDups_filled (digests : List (Digest 32)) :
    (filled digests).eraseDups = digests.eraseDups := by
  obtain ⟨⟨added, isAdded⟩, within⟩ := prefix_filled digests
  have again : added.removeAll digests = [] := by
    refine List.filter_eq_nil_iff.mpr fun digest isAdded' => ?_
    simpa using within (isAdded ▸ List.mem_append_right _ isAdded')
  rw [← isAdded, List.eraseDups_append, again, List.eraseDups_nil, List.append_nil]

end Merkle

end ClaimLedger
