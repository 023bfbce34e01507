/-
# What a header says of the transactions

A block is accepted only under the merkle root of its transaction ids, so two blocks under
one header have one root. That fixes the ids of as many transactions as there are, but not
their number: a tree that repeats the end of an odd level has the same root as that of the
block with the end repeated. Nor does a root tell an id from a node above two ids, which is
why a transaction of 64 bytes can stand for two others. If no transaction is written like a
node of the other block, the only freedom is the repetition at the end.
-/

import ClaimLedger.Proofs.Block.RoundTrip
import ClaimLedger.Proofs.Block.Tree

namespace ClaimLedger

namespace Block

/-- The ids of the transactions. -/
def txids (block : Block) : List Txid :=
  block.transactions.map Transaction.txid

/-- Everything that is hashed to check a block against its header. -/
def hashed (block : Block) : List Bytes :=
  block.transactions.map Transaction.encodePlain ++ Merkle.hashed block.txids

/-- The number of levels of nodes above the ids. -/
def levels (block : Block) : Nat :=
  Nat.clog 2 block.transactions.length

/-- No transaction of the one is written like two digests that the tree of the other pairs. -/
def Unlike (first second : Block) : Prop :=
  ∀ tx ∈ first.transactions, tx.encodePlain ∉ Merkle.hashed second.txids

variable {first second : Block} {firstBytes secondBytes : Bytes} {values : List Bytes}

/-- A transaction that is not written like a node does not have its digest as id. -/
theorem Unlike.txid_ne (unlike : first.Unlike second) (collisionFree : CollisionFree values)
    (hashed : first.hashed ⊆ values) (hashed' : second.hashed ⊆ values) :
    ∀ txid ∈ first.txids, ∀ value ∈ Merkle.hashed second.txids, sha256Twice value ≠ txid := by
  intro txid listed value isHashed same
  obtain ⟨tx, isTx, rfl⟩ := List.mem_map.mp listed
  have isWritten : tx.encodePlain ∈ values :=
    hashed (List.mem_append_left _ (List.mem_map_of_mem isTx))
  have isNode : value ∈ values := hashed' (List.mem_append_right _ isHashed)
  exact unlike tx isTx (collisionFree _ isNode _ isWritten same ▸ isHashed)

/-- Two blocks with the same root have the same tree, if their trees are equally high or no
transaction is written like a node. -/
theorem tree?_eq_of_merkleRoot?_eq (collisionFree : CollisionFree (first.hashed ++ second.hashed))
    (apart : first.levels = second.levels ∨ first.Unlike second ∧ second.Unlike first)
    (same : first.merkleRoot? = second.merkleRoot?) :
    Merkle.tree? first.txids = Merkle.tree? second.txids := by
  have hashed := List.subset_append_left first.hashed second.hashed
  have hashed' := List.subset_append_right first.hashed second.hashed
  refine Merkle.tree?_eq_of_root?_eq collisionFree
    (List.Subset.trans (List.subset_append_right _ _) hashed)
    (List.Subset.trans (List.subset_append_right _ _) hashed') ?_ same
  refine apart.imp (fun level => ?_) fun unlike =>
    ⟨unlike.1.txid_ne collisionFree hashed hashed', unlike.2.txid_ne collisionFree hashed' hashed⟩
  rwa [txids, txids, List.length_map, List.length_map]

/-- A header fixes the transactions as far as its merkle root can. Of two blocks that are
accepted with equal headers, neither of which makes the hash collide, the ids are the same
just if there are equally many. Otherwise they still are up to a repetition at the end, which
is the one that the tree itself adds, as long as the trees are equally high or no transaction
of either block is written like a node of the other: nothing is dropped, nothing is moved,
and without repetitions the ids are the same. -/
theorem txids_of_header_eq (parsed : parse firstBytes = .ok first)
    (parsed' : parse secondBytes = .ok second) (sameHeader : first.header = second.header)
    (collisionFree : CollisionFree (first.hashed ++ second.hashed)) :
    (first.txids = second.txids ↔ first.transactions.length = second.transactions.length) ∧
    (first.levels = second.levels ∨ first.Unlike second ∧ second.Unlike first →
      Merkle.filled first.txids = Merkle.filled second.txids ∧
      (first.txids <+: second.txids ∨ second.txids <+: first.txids) ∧
      first.txids.eraseDups = second.txids.eraseDups ∧
      (first.txids.Nodup → second.txids.Nodup → first.txids = second.txids)) := by
  obtain ⟨sound, -⟩ := parse_eq_ok_iff.mp parsed
  obtain ⟨sound', -⟩ := parse_eq_ok_iff.mp parsed'
  have same : first.merkleRoot? = second.merkleRoot? := by
    rw [sound.merkleRoot, sound'.merkleRoot, sameHeader]
  have lengths : first.txids.length = second.txids.length ↔
      first.transactions.length = second.transactions.length := by
    rw [txids, txids, List.length_map, List.length_map]
  have filled (apart : first.levels = second.levels ∨
      first.Unlike second ∧ second.Unlike first) :
      Merkle.filled first.txids = Merkle.filled second.txids := by
    rw [Merkle.filled, Merkle.filled, tree?_eq_of_merkleRoot?_eq collisionFree apart same]
  refine ⟨⟨fun txids => lengths.mp (congrArg List.length txids), fun length => ?_⟩,
    fun apart => ?_⟩
  · have level : first.levels = second.levels := by rw [levels, levels, length]
    exact Merkle.eq_of_filled_eq (filled (.inl level)) (lengths.mpr length)
  · have distinct : first.txids.eraseDups = second.txids.eraseDups := by
      rw [← Merkle.eraseDups_filled, filled apart, Merkle.eraseDups_filled]
    refine ⟨filled apart, Merkle.prefix_or_prefix_of_filled_eq (filled apart), distinct,
      fun nodup nodup' => ?_⟩
    rwa [Merkle.eraseDups_of_nodup nodup, Merkle.eraseDups_of_nodup nodup'] at distinct

/-! ## Different blocks under one header -/

/-- The digest that a number spells. -/
def digestOf (number : Nat) : Digest 32 :=
  ⟨Bytes.ofNatBE 32 number, Bytes.length_ofNatBE _ _⟩

/-- A transaction that spends an output and makes none; the lock time tells it from others. -/
def spending (lockTime : UInt32) : Transaction :=
  ⟨1, [⟨⟨Digest.zero 32, 0⟩, [], 0, []⟩], [], lockTime⟩

/-- The id of the first transaction below. -/
def firstId : Txid :=
  digestOf 0x42c73fbb01452611e0e6b2feb75af80a853a47b4e4512a679f2c338742ce15bb

/-- The id of the second transaction. -/
def secondId : Txid :=
  digestOf 0x7bd30770c6cc3e3cc30df1c405c09c420f8ef4019113d061f13fda008e7993fc

/-- The id of the third transaction. -/
def thirdId : Txid :=
  digestOf 0x0bad62ef3f31fef6f717a739569e686f550888e8d280735bd04252675e568e56

/-- The node above the first two. -/
def leftNode : Digest 32 :=
  digestOf 0xb813c55d460b16345f92bd713762f0f70bab29dce1fdf324e31698f74c3a91f9

/-- The node above the third, which stands there alone. -/
def rightNode : Digest 32 :=
  digestOf 0x95c5603f06d17a3b44bfe426c38e45a51060ec33284bb064616eafef66ac6406

theorem small_hashes : (spending 339).txid = firstId ∧ (spending 105907).txid = secondId ∧
    (spending 0).txid = thirdId ∧ Merkle.join firstId secondId = leftNode ∧
    Merkle.join thirdId thirdId = rightNode ∧
    Merkle.join leftNode rightNode ∉ [firstId, secondId, thirdId, leftNode, rightNode] :=
  -- one hash at a time keeps the evaluations small
  ⟨by decide +kernel, by decide +kernel, by decide +kernel, by decide +kernel, by decide +kernel,
    by decide +kernel⟩

/-- Everything that is hashed for the blocks below. -/
def smallValues : List Bytes :=
  [(spending 339).encodePlain, (spending 105907).encodePlain, (spending 0).encodePlain,
    firstId.bytes ++ secondId.bytes, thirdId.bytes ++ thirdId.bytes,
    leftNode.bytes ++ rightNode.bytes]

theorem collisionFree_small : CollisionFree smallValues := by
  obtain ⟨isFirst, isSecond, isThird, isLeft, isRight, isTop⟩ := small_hashes
  have hashes : smallValues.map sha256Twice = [(spending 339).txid, (spending 105907).txid,
      (spending 0).txid, Merkle.join firstId secondId, Merkle.join thirdId thirdId] ++
      [Merkle.join leftNode rightNode] := rfl
  refine .of_nodup ?_
  rw [hashes, isFirst, isSecond, isThird, isLeft, isRight, List.nodup_append_comm]
  exact List.nodup_cons.mpr ⟨isTop, by decide +kernel⟩

/-- A transaction that is written like the first two ids. -/
def pairing : Transaction :=
  ⟨Int32.ofUInt32 0xbb3fc742,
    [⟨⟨digestOf 0x452611e0e6b2feb75af80a853a47b4e4512a679f2c338742ce15bb7bd30770c6, 0xc33c3ecc⟩,
      Bytes.ofNatBE 13 0xf1c405c09c420f8ef4019113d0, 0xda3ff161, []⟩], [], 0xfc93798e⟩

theorem encodePlain_pairing : pairing.encodePlain = firstId.bytes ++ secondId.bytes := by
  decide +kernel

/-- The block of some of these transactions. -/
def small (transactions : List Transaction) : Block :=
  assemble ⟨1, Digest.zero 32, Digest.zero 32, Digest.zero 32, 0, 0, 0⟩ transactions

theorem parse_small {transactions : List Transaction} (nonempty : transactions ≠ [])
    (few : transactions.length < 2 ^ 64)
    (listed : ∀ tx ∈ transactions, (∃ lockTime, tx = spending lockTime) ∨ tx = pairing) :
    parse (small transactions).encode = .ok (small transactions) := by
  refine parse_eq_ok_iff.mpr ⟨isSound_assemble _ nonempty few fun tx isTx => ?_, rfl⟩
  obtain ⟨lockTime, rfl⟩ | rfl := listed tx isTx
  · exact ⟨by simp [spending, TxIn.Fits], by simp [spending], by simp [spending, Witness.fits_nil]⟩
  · exact ⟨by simp [pairing, TxIn.Fits], by simp [pairing], by simp [pairing, Witness.fits_nil]⟩

theorem header_small {transactions transactions' : List Transaction}
    (same : Merkle.root? (small transactions).txids = Merkle.root? (small transactions').txids) :
    (small transactions).header = (small transactions').header := by
  rw [txids, txids] at same
  simp only [small, assemble] at same ⊢
  rw [same]

/-- Repeating the last of three transactions is not seen. -/
theorem header_repeated :
    let three := small [spending 339, spending 105907, spending 0]
    let four := small [spending 339, spending 105907, spending 0, spending 0]
    parse three.encode = .ok three ∧ parse four.encode = .ok four ∧
      three.header = four.header ∧ CollisionFree (three.hashed ++ four.hashed) ∧
      three.txids = [firstId, secondId, thirdId] ∧
      four.txids = [firstId, secondId, thirdId, thirdId] := by
  intro three four
  obtain ⟨isFirst, isSecond, isThird, isLeft, isRight, -⟩ := small_hashes
  have txids : three.txids = [firstId, secondId, thirdId] := by
    rw [← isFirst, ← isSecond, ← isThird]
    rfl
  have txids' : four.txids = [firstId, secondId, thirdId, thirdId] := by
    rw [← isFirst, ← isSecond, ← isThird]
    rfl
  refine ⟨parse_small (by simp) (by simp) (by simp), parse_small (by simp) (by simp) (by simp),
    header_small ?_, .of_subset collisionFree_small ?_, txids, txids'⟩
  · rw [txids, txids']
    simp only [Merkle.root?, Merkle.raise]
  · rw [hashed, hashed, txids, txids']
    simp [Merkle.hashed, Merkle.paired, Merkle.raise, isLeft, isRight, smallValues, three, four,
      small, assemble]

/-- A transaction that is written like two ids replaces the two transactions. -/
theorem header_replaced :
    let one := small [pairing]
    let two := small [spending 339, spending 105907]
    parse one.encode = .ok one ∧ parse two.encode = .ok two ∧
      one.header = two.header ∧ CollisionFree (one.hashed ++ two.hashed) ∧
      one.txids = [leftNode] ∧ two.txids = [firstId, secondId] := by
  intro one two
  obtain ⟨isFirst, isSecond, -, isLeft, -⟩ := small_hashes
  have txids : one.txids = [leftNode] := by
    rw [← isLeft, Merkle.join, ← encodePlain_pairing]
    rfl
  have txids' : two.txids = [firstId, secondId] := by
    rw [← isFirst, ← isSecond]
    rfl
  refine ⟨parse_small (by simp) (by simp) (by simp), parse_small (by simp) (by simp) (by simp),
    header_small ?_, .of_subset collisionFree_small ?_, txids, txids'⟩
  · rw [txids, txids', ← isLeft]
    simp only [Merkle.root?, Merkle.raise]
  · rw [hashed, hashed, txids, txids']
    simp [Merkle.hashed, Merkle.paired, smallValues, Merkle.raise, encodePlain_pairing, one, two,
      small, assemble]

/-- With collision-free hashes, a header still does not fix the transactions: the last of three
may stand there twice, and a transaction may stand for the two ids that it is written like. -/
theorem txids_ne_of_header_eq :
    let three := small [spending 339, spending 105907, spending 0]
    let four := small [spending 339, spending 105907, spending 0, spending 0]
    let one := small [pairing]
    let two := small [spending 339, spending 105907]
    (parse three.encode = .ok three ∧ parse four.encode = .ok four ∧
      three.header = four.header ∧ CollisionFree (three.hashed ++ four.hashed) ∧
      three.txids ≠ four.txids) ∧
    parse one.encode = .ok one ∧ parse two.encode = .ok two ∧
      one.header = two.header ∧ CollisionFree (one.hashed ++ two.hashed) ∧
      one.txids ≠ two.txids := by
  intro three four one two
  obtain ⟨isThree, isFour, sameHeader, collisionFree, txids, txids'⟩ := header_repeated
  obtain ⟨isOne, isTwo, sameHeader', collisionFree', single, pair⟩ := header_replaced
  refine ⟨⟨isThree, isFour, sameHeader, collisionFree, ?_⟩, isOne, isTwo, sameHeader',
    collisionFree', ?_⟩
  · rw [txids, txids']
    simp
  · rw [single, pair]
    simp

/-- Under the header of three transactions with different ids, four transactions have the same
ids in the same order. -/
theorem txids_repeated :
    let three := small [spending 339, spending 105907, spending 0]
    let four := small [spending 339, spending 105907, spending 0, spending 0]
    parse three.encode = .ok three ∧ parse four.encode = .ok four ∧
      three.header = four.header ∧ CollisionFree (three.hashed ++ four.hashed) ∧
      three.levels = four.levels ∧ Merkle.filled three.txids = Merkle.filled four.txids ∧
      three.txids.eraseDups = four.txids.eraseDups := by
  intro three four
  obtain ⟨isThree, isFour, sameHeader, collisionFree, -, -⟩ := header_repeated
  have levels : three.levels = four.levels := by
    change Nat.clog 2 3 = Nat.clog 2 4
    decide
  obtain ⟨-, same⟩ := txids_of_header_eq isThree isFour sameHeader collisionFree
  obtain ⟨filled, -, distinct, -⟩ := same (.inl levels)
  exact ⟨isThree, isFour, sameHeader, collisionFree, levels, filled, distinct⟩

end Block

end ClaimLedger
