import Arcxa.Audit.Bytes
import Arcxa.Audit.Merkle

/-!
# What a Merkle root and a Merkle proof commit to

An inclusion proof carries its own index and any number of siblings, and `verify` compares
neither with the tree. A proof that verifies against the root of a tree shows a leaf of the
tree at its index only when it has as many siblings as the tree is high and its index is
that of a leaf; `verify_sound_iff` says exactly what the other cases need.

The root itself does commit to the entries, because entry hashes are hashes of JSON texts
and inner nodes are hashes of 64 bytes (`root_commits`).
-/

namespace Arcxa.Audit

open MerkleTree HashTree SignedAuditEntry

variable {K V : Type} {libs : Libs K V}

/-! ## The messages that are hashed -/

def MerkleTree.hashed (tree : MerkleTree) : Set Bytes :=
  {m | ∃ level i left right, tree.nodes (level, 2 * i) = some left ∧
    tree.nodes (level, 2 * i + 1) = some right ∧ m = left.bytes ++ right.bytes}

/-- The messages hashed when `verify` climbs from a leaf hash. -/
def MerkleProof.hashedFrom (libs : Libs K V) (leafHash : Hash) (leafIndex : Nat)
    (siblings : List Hash) : Set Bytes :=
  {m | ∃ q ∈ HashTree.climbPairs (MerkleTree.hashPair libs) leafHash leafIndex siblings,
    m = q.1.bytes ++ q.2.bytes}

def MerkleProof.hashed (libs : Libs K V) (p : MerkleProof) : Set Bytes :=
  hashedFrom libs p.leafHash p.leafIndex p.siblings

/-- The pairs whose message is in `M`. -/
def pairsOf (M : Set Bytes) : Set (Hash × Hash) := {q | q.1.bytes ++ q.2.bytes ∈ M}

theorem injOn_hashPair {M : Set Bytes} (h : Set.InjOn libs.sha256 M) :
    Set.InjOn (Function.uncurry (MerkleTree.hashPair libs)) (pairsOf M) := by
  rintro ⟨a, b⟩ hab ⟨c, d⟩ hcd heq
  obtain ⟨hac, hbd⟩ := Hash.append_inj (h hab hcd heq)
  exact Prod.ext hac hbd

variable {leaves : List Hash} {tree : MerkleTree}

namespace MerkleTree

variable (h : IsTree libs leaves tree)

include h

theorem IsTree.nodes_eq {l i : Nat} (hl : l ≤ tree.height) (hi : i < 2 ^ (tree.height - l)) :
    tree.nodes (l, i) = some (nodeOf libs leaves l i) := by
  rw [h.height_eq] at hl hi
  rw [h.filled, if_pos ⟨hl, hi⟩]

theorem IsTree.root_eq_node : tree.root = nodeOf libs leaves tree.height 0 := by
  rw [h.height_eq]
  exact h.root_eq

theorem IsTree.length_le : leaves.length ≤ 2 ^ tree.height := by
  rw [h.height_eq]
  exact le_two_pow_heightOf _

theorem IsTree.leaves_getElem? {i : Nat} (hi : i < 2 ^ tree.height) :
    tree.leaves[i]? = some (leafAt leaves i) := by
  rw [h.height_eq, two_pow_heightOf] at hi
  rw [h.leaves_eq, pad_getElem? hi]

theorem IsTree.covers {M : Set Bytes} (hM : tree.hashed ⊆ M) :
    HashTree.Covers (hashPair libs) (pairsOf M) (leafAt leaves) tree.height := by
  intro l c hl hc
  have hwidth : 2 ^ (tree.height - l) = 2 * 2 ^ (tree.height - 1 - l) := by
    rw [← pow_succ']
    congr 1
    omega
  refine hM ⟨l, c, _, _, h.nodes_eq (by omega) (by omega), h.nodes_eq (by omega) (by omega), rfl⟩

end MerkleTree

namespace MerkleProof

theorem fold_eq_climb (x : Hash) (i : Nat) (siblings : List Hash) :
    fold libs x i siblings = HashTree.climb (MerkleTree.hashPair libs) x i siblings := by
  induction siblings generalizing x i with
  | nil => rfl
  | cons s ss ih =>
    rw [climb, ← ih]
    unfold fold sides
    rw [List.foldl_cons]
    split_ifs <;> rfl

theorem climb_of_verify {p : MerkleProof} (h : p.verify libs = true) :
    HashTree.climb (MerkleTree.hashPair libs) p.leafHash p.leafIndex p.siblings = p.root := by
  rw [← fold_eq_climb]
  exact beq_iff_eq.mp h

/-! ## The tree's own proofs -/

theorem proofSiblings_eq
    (h : MerkleTree.IsTree libs leaves tree) (level i rounds : Nat)
    (hrounds : level + rounds = tree.height) (hi : i < 2 ^ rounds) :
    MerkleTree.proofSiblings tree.nodes level i rounds =
      HashTree.siblings (MerkleTree.hashPair libs) (MerkleTree.leafAt leaves) level i rounds := by
  induction rounds generalizing level i with
  | zero => rfl
  | succ rounds ih =>
    rw [pow_succ'] at hi
    rw [MerkleTree.proofSiblings, HashTree.siblings, ih (level + 1) (i / 2) (by omega) (by omega),
      h.nodes_eq (by omega)]
    · rfl
    · rw [show tree.height - level = rounds + 1 by omega, pow_succ']
      split_ifs <;> omega

/-- **Proofs of the tree verify**: of every leaf, the padding included. -/
theorem verify_proof
    (h : MerkleTree.IsTree libs leaves tree) {index : Nat} {p : MerkleProof}
    (hp : tree.proof index = some p) : p.verify libs = true := by
  have hlt : index < 2 ^ tree.height := by
    rw [h.height_eq, two_pow_heightOf, ← length_pad, ← h.leaves_eq]
    by_contra hge
    rw [proof, List.getElem?_eq_none (by omega)] at hp
    cases hp
  rw [proof, h.leaves_getElem? hlt] at hp
  cases hp
  rw [verify, beq_iff_eq, fold_eq_climb, proofSiblings_eq h 0 index tree.height (by omega) hlt]
  have hclimb := @climb_siblings Hash (hashPair libs)
    (leafAt leaves) 0 index tree.height
  rw [Nat.zero_add, Nat.div_eq_of_lt hlt] at hclimb
  exact hclimb.trans h.root_eq_node.symm

/-! ## Soundness -/

def Sound (leaves : List Hash) (p : MerkleProof) : Prop :=
  leaves[p.leafIndex]? = some p.leafHash

/-- The index is that of a leaf, and the path fits the tree. It does when it is as long as the
tree is high. A shorter path ends in an inner node, which would have to be equal to the leaf;
a longer one starts below a leaf, which would have to lie above the one it is for. -/
def Fits (libs : Libs K V) (leaves : List Hash) (tree : MerkleTree) (p : MerkleProof) : Prop :=
  ∃ leaf, leaves[p.leafIndex]? = some leaf ∧
    (p.siblings.length = tree.height ∨
      (p.siblings.length < tree.height ∧
        tree.nodes (tree.height - p.siblings.length, p.leafIndex % 2 ^ p.siblings.length) =
          some leaf) ∨
      (tree.height < p.siblings.length ∧
        tree.leaves[p.leafIndex / 2 ^ (p.siblings.length - tree.height) % 2 ^ tree.height]? =
          some (fold libs leaf p.leafIndex
            (p.siblings.take (p.siblings.length - tree.height)))))

variable {leaves : List Hash} {tree : MerkleTree} {M : Set Bytes}

theorem leafHash_of_le (h : MerkleTree.IsTree libs leaves tree)
    (hinj : Set.InjOn libs.sha256 M) (htree : tree.hashed ⊆ M) {p : MerkleProof}
    (hp : p.hashed libs ⊆ M) (hroot : p.root = tree.root) (hverify : p.verify libs = true)
    (hle : p.siblings.length ≤ tree.height) :
    p.leafHash = MerkleTree.nodeOf libs leaves (tree.height - p.siblings.length)
      (p.leafIndex % 2 ^ p.siblings.length) := by
  have hheight : tree.height - p.siblings.length + p.siblings.length = tree.height := by omega
  have hcovers := h.covers htree
  have hclimb := climb_of_verify hverify
  rw [hroot, h.root_eq_node] at hclimb
  rw [← hheight] at hcovers hclimb
  exact climb_eq_node (injOn_hashPair hinj) hcovers (fun q hq => hp ⟨q, hq, rfl⟩) hclimb

theorem fold_take_of_lt (h : MerkleTree.IsTree libs leaves tree)
    (hinj : Set.InjOn libs.sha256 M) (htree : tree.hashed ⊆ M) {p : MerkleProof}
    (hp : p.hashed libs ⊆ M) (hroot : p.root = tree.root) (hverify : p.verify libs = true)
    (hlt : tree.height < p.siblings.length) :
    fold libs p.leafHash p.leafIndex (p.siblings.take (p.siblings.length - tree.height)) =
      MerkleTree.leafAt leaves
        (p.leafIndex / 2 ^ (p.siblings.length - tree.height) % 2 ^ tree.height) := by
  -- the siblings below the tree and those inside it
  obtain ⟨low, high, hsplit, hlow, hhigh⟩ : ∃ low high, p.siblings = low ++ high ∧
      low.length = p.siblings.length - tree.height ∧ high.length = tree.height := by
    refine ⟨p.siblings.take (p.siblings.length - tree.height),
      p.siblings.drop (p.siblings.length - tree.height), (List.take_append_drop ..).symm, ?_, ?_⟩
    · rw [List.length_take]
      omega
    · rw [List.length_drop]
      omega
  have hclimb := climb_of_verify hverify
  rw [hroot, h.root_eq_node, hsplit, climb_append] at hclimb
  have hpath : ∀ q ∈ climbPairs (hashPair libs)
      (climb (hashPair libs) p.leafHash p.leafIndex low)
      (p.leafIndex / 2 ^ low.length) high, q ∈ pairsOf M := by
    intro q hq
    refine hp ⟨q, ?_, rfl⟩
    rw [hsplit, climbPairs_append]
    exact List.mem_append_right _ hq
  have hcovers := h.covers htree
  rw [← hhigh, ← Nat.zero_add high.length] at hcovers hclimb
  have hleaf := climb_eq_node (injOn_hashPair hinj) hcovers hpath hclimb
  rw [← hlow, hsplit, List.take_left, fold_eq_climb, hleaf, hhigh]
  rfl

/-- **What a verified proof shows.** For every list of leaves and every proof that verifies
against the root of their tree, the proof shows a leaf at its index exactly when it fits. -/
theorem verify_sound_iff (hne : leaves ≠ []) (htree : MerkleTree.fromLeaves libs leaves = some tree)
    (p : MerkleProof) (hroot : p.root = tree.root) (hverify : p.verify libs = true)
    (hinj : Set.InjOn libs.sha256 (tree.hashed ∪ p.hashed libs ∪
      hashedFrom libs (MerkleTree.leafAt leaves p.leafIndex) p.leafIndex p.siblings)) :
    p.Sound leaves ↔ p.Fits libs leaves tree := by
  have h := isTree_of_fromLeaves hne htree
  have hM : tree.hashed ∪ p.hashed libs ⊆ tree.hashed ∪ p.hashed libs ∪
      hashedFrom libs (leafAt leaves p.leafIndex) p.leafIndex p.siblings :=
    Set.subset_union_left
  have htreeM := Set.subset_union_left.trans hM
  have hpM := Set.subset_union_right.trans hM
  have hlow : p.siblings.length ≤ tree.height →
      tree.nodes (tree.height - p.siblings.length, p.leafIndex % 2 ^ p.siblings.length) =
        some p.leafHash := by
    intro hle
    rw [leafHash_of_le h hinj htreeM hpM hroot hverify hle]
    apply h.nodes_eq (Nat.sub_le ..)
    rw [Nat.sub_sub_self hle]
    exact Nat.mod_lt _ (by positivity)
  have hhigh : tree.height < p.siblings.length →
      tree.leaves[p.leafIndex / 2 ^ (p.siblings.length - tree.height) % 2 ^ tree.height]? =
        some (fold libs p.leafHash p.leafIndex
          (p.siblings.take (p.siblings.length - tree.height))) := by
    intro hlt
    rw [fold_take_of_lt h hinj htreeM hpM hroot hverify hlt]
    exact h.leaves_getElem? (Nat.mod_lt _ (by positivity))
  constructor
  · intro hsound
    refine ⟨p.leafHash, hsound, ?_⟩
    rcases Nat.lt_trichotomy p.siblings.length tree.height with hlt | heq | hgt
    · exact .inr (.inl ⟨hlt, hlow (by omega)⟩)
    · exact .inl heq
    · exact .inr (.inr ⟨hgt, hhigh hgt⟩)
  · rintro ⟨leaf, hleaf, hcase⟩
    have hlen : p.leafIndex < leaves.length := (List.getElem?_eq_some_iff.mp hleaf).1
    have hleafAt : leafAt leaves p.leafIndex = leaf := by
      rw [leafAt_of_lt hlen]
      exact (List.getElem?_eq_some_iff.mp hleaf).2
    show leaves[p.leafIndex]? = some p.leafHash
    rw [hleaf]
    rcases hcase with heq | ⟨hlt, hnode⟩ | ⟨hgt, hfold⟩
    · -- a path of the right length ends in the leaf at its index
      have hbound := h.length_le
      have hend := leafHash_of_le h hinj htreeM hpM hroot hverify heq.le
      rw [heq, Nat.sub_self, Nat.mod_eq_of_lt (by omega)] at hend
      rw [hend, ← hleafAt]
      rfl
    · rw [← hnode, hlow hlt.le]
    · -- both leaf hashes climb to the same leaf of the tree
      have hsame := (hhigh hgt).symm.trans hfold
      rw [Option.some.injEq, fold_eq_climb, fold_eq_climb] at hsame
      have hpairs : ∀ x, climbPairs (hashPair libs) x p.leafIndex
          (p.siblings.take (p.siblings.length - tree.height)) ⊆
          climbPairs (hashPair libs) x p.leafIndex p.siblings := by
        intro x q hq
        rw [← List.take_append_drop (p.siblings.length - tree.height) p.siblings,
          climbPairs_append]
        exact List.mem_append_left _ hq
      refine congrArg some (climb_inj (injOn_hashPair hinj) (fun q hq => ?_)
        (fun q hq => ?_) hsame).symm
      · exact hpM ⟨q, hpairs _ hq, rfl⟩
      · exact Set.subset_union_right ⟨q, hpairs _ (hleafAt ▸ hq), rfl⟩

/-! ## Two leaves -/

theorem hashed_two {a b : Hash} (h : MerkleTree.IsTree libs [a, b] tree) :
    tree.hashed = {a.bytes ++ b.bytes} := by
  have htwo : heightOf 2 = 1 := by decide +kernel
  have hfilled : ∀ l i, tree.nodes (l, i) = if l ≤ 1 ∧ i < 2 ^ (1 - l) then
      some (nodeOf libs [a, b] l i) else none := by
    intro l i
    rw [h.filled, show heightOf [a, b].length = 1 from htwo]
  ext m
  constructor
  · rintro ⟨level, i, left, right, hleft, hright, rfl⟩
    rw [hfilled] at hleft hright
    split_ifs at hright with hin
    split_ifs at hleft
    -- the second node of a level is there on level 0 only
    have hlevel : level = 0 := by
      by_contra hpos
      rw [show 1 - level = 0 by omega] at hin
      omega
    subst hlevel
    rw [show i = 0 by omega] at hleft hright
    cases hleft
    cases hright
    rfl
  · rintro rfl
    refine ⟨0, 0, a, b, ?_, ?_, rfl⟩
    · rw [hfilled, if_pos (by decide)]
      rfl
    · rw [hfilled, if_pos (by decide)]
      rfl

theorem hashedFrom_one (x s : Hash) (i : Nat) :
    hashedFrom libs x i [s] =
      {(HashTree.sides x i s).1.bytes ++ (HashTree.sides x i s).2.bytes} := by
  ext m
  simp [hashedFrom, climbPairs]

theorem exists_sampleTree : ∃ tree, MerkleTree.fromLeaves concreteLibs
    [sampleKey 1, sampleKey 2] = some tree ∧ tree.height = 1 ∧
    tree.root = sha256 ((sampleKey 1).bytes ++ (sampleKey 2).bytes) ∧
    tree.hashed = {(sampleKey 1).bytes ++ (sampleKey 2).bytes} := by
  obtain ⟨tree, htree, hspec⟩ := exists_fromLeaves concreteLibs
    (List.cons_ne_nil (sampleKey 1) [sampleKey 2])
  exact ⟨tree, htree, hspec.height_eq.trans (by decide +kernel), hspec.root_eq, hashed_two hspec⟩

theorem verify_sample {i : Nat} (heven : i % 2 = 0) :
    (⟨i, sampleKey 1, [sampleKey 2], sha256 ((sampleKey 1).bytes ++ (sampleKey 2).bytes)⟩ :
      MerkleProof).verify concreteLibs = true ∧
    hashedFrom concreteLibs (sampleKey 1) i [sampleKey 2] =
      {(sampleKey 1).bytes ++ (sampleKey 2).bytes} := by
  have hsides : sides (sampleKey 1) i (sampleKey 2) = (sampleKey 1, sampleKey 2) :=
    if_pos heven
  rw [hashedFrom_one, hsides, verify, beq_iff_eq, fold_eq_climb, climb, climb,
    hsides]
  exact ⟨rfl, rfl⟩

/-- The proof of the first of two leaves fits and shows its leaf. -/
theorem verify_sound_iff_two : ∃ tree, MerkleTree.fromLeaves concreteLibs
    [sampleKey 1, sampleKey 2] = some tree ∧
    (⟨0, sampleKey 1, [sampleKey 2], tree.root⟩ : MerkleProof).Sound [sampleKey 1, sampleKey 2] := by
  obtain ⟨tree, htree, hheight, hroot, hhashed⟩ := exists_sampleTree
  obtain ⟨hverify, hpath⟩ := verify_sample (i := 0) rfl
  refine ⟨tree, htree, ?_⟩
  rw [hroot]
  refine (verify_sound_iff (List.cons_ne_nil _ _) htree _ hroot.symm hverify ?_).mpr
    ⟨sampleKey 1, rfl, .inl hheight.symm⟩
  -- the tree and the path hash the same message
  show Set.InjOn _ (tree.hashed ∪ hashedFrom _ (sampleKey 1) 0 _ ∪ hashedFrom _ (sampleKey 1) 0 _)
  rw [hhashed, hpath, Set.union_self, Set.union_self]
  exact Set.injOn_singleton _ _

/-- Proofs that verify and show no leaf at their index: one whose index is past the leaves, and
one without siblings that has the root for a leaf. The tree and the proofs hash one message,
and not to zero. -/
theorem verify_accepts_unsound : ∃ tree, MerkleTree.fromLeaves concreteLibs
    [sampleKey 1, sampleKey 2] = some tree ∧
    ∀ p ∈ [⟨2, sampleKey 1, [sampleKey 2], tree.root⟩, (⟨0, tree.root, [], tree.root⟩ : MerkleProof)],
      p.verify concreteLibs = true ∧
      Set.InjOn sha256 (tree.hashed ∪ p.hashed concreteLibs) ∧
      (∀ m ∈ tree.hashed ∪ p.hashed concreteLibs, sha256 m ≠ Hash.ZERO) ∧
      ¬ p.Sound [sampleKey 1, sampleKey 2] := by
  obtain ⟨tree, htree, -, hroot, hhashed⟩ := exists_sampleTree
  obtain ⟨hverify, hpath⟩ := verify_sample (i := 2) (by decide)
  have hzero : sha256 ((sampleKey 1).bytes ++ (sampleKey 2).bytes) ≠ Hash.ZERO := by
    decide +kernel
  have hother : sampleKey 1 ≠ sha256 ((sampleKey 1).bytes ++ (sampleKey 2).bytes) := by
    decide +kernel
  have hempty : hashedFrom concreteLibs tree.root 0 [] = ∅ := by
    simp [hashedFrom, climbPairs]
  refine ⟨tree, htree, ?_⟩
  intro p hp
  rcases List.mem_cons.mp hp with rfl | hp
  · refine ⟨hroot ▸ hverify, ?_⟩
    show Set.InjOn _ (tree.hashed ∪ hashedFrom _ (sampleKey 1) 2 _) ∧
      (∀ m ∈ tree.hashed ∪ hashedFrom _ (sampleKey 1) 2 _, _) ∧ _
    rw [hhashed, hpath, Set.union_self]
    refine ⟨Set.injOn_singleton _ _, fun m hm => hm ▸ hzero, ?_⟩
    intro hsound
    cases hsound
  · cases List.mem_singleton.mp hp
    refine ⟨beq_self_eq_true _, ?_⟩
    show Set.InjOn _ (tree.hashed ∪ hashedFrom _ tree.root 0 []) ∧
      (∀ m ∈ tree.hashed ∪ hashedFrom _ tree.root 0 [], _) ∧ _
    rw [hhashed, hempty, Set.union_empty]
    refine ⟨Set.injOn_singleton _ _, fun m hm => hm ▸ hzero, ?_⟩
    intro hsound
    exact hother ((Option.some.inj hsound).trans hroot)

end MerkleProof

/-! ## The root -/

namespace MerkleTree

variable {leaves leaves' : List Hash} {tree tree' : MerkleTree} {M : Set Bytes}

/-- Every leaf is the hash of a message of `M` that is no pair of hashes. -/
def LeafHashes (libs : Libs K V) (M : Set Bytes) (leaves : List Hash) : Prop :=
  ∀ leaf ∈ leaves, ∃ m ∈ M, leaf = libs.sha256 m ∧ m.length ≠ 64

theorem IsTree.inner_eq (h : IsTree libs leaves tree) (hM : tree.hashed ⊆ M) {l i : Nat}
    (hl : l < tree.height) (hi : i < 2 ^ (tree.height - 1 - l)) :
    ∃ m ∈ M, nodeOf libs leaves (l + 1) i = libs.sha256 m ∧ m.length = 64 := by
  refine ⟨_, h.covers hM l i hl hi, rfl, ?_⟩
  rw [List.length_append, FixedBytes.length_bytes, FixedBytes.length_bytes]

theorem IsTree.root_ne_of_height_lt (h : IsTree libs leaves tree) (h' : IsTree libs leaves' tree')
    (hinj : Set.InjOn libs.sha256 M) (hM : tree.hashed ⊆ M) (hM' : tree'.hashed ⊆ M)
    (hne : leaves ≠ []) (hleaf : LeafHashes libs M leaves) (hlt : tree.height < tree'.height) :
    tree.root ≠ tree'.root := by
  intro hroot
  obtain ⟨d, hd⟩ : ∃ d, tree'.height = tree.height + (d + 1) :=
    ⟨tree'.height - tree.height - 1, by omega⟩
  rw [h.root_eq_node, h'.root_eq_node, hd] at hroot
  -- the first leaf of the lower tree would be an inner node of the higher one
  have hnode := node_eq_node_of_root (injOn_hashPair hinj) (h.covers hM)
    (hd ▸ h'.covers hM') hroot tree.height (le_refl _) 0 (by positivity)
  rw [Nat.sub_self, Nat.add_sub_cancel_left] at hnode
  have hlen : 0 < leaves.length := List.length_pos_iff.mpr hne
  obtain ⟨m, hm, hmeq, hlong⟩ := hleaf _ (List.getElem_mem hlen)
  obtain ⟨m', hm', hm'eq, hlen'⟩ := h'.inner_eq (l := d) (i := 0) hM' (by omega) (by positivity)
  have hhash : libs.sha256 m = libs.sha256 m' := by
    rw [← hmeq, ← hm'eq, ← leafAt_of_lt hlen]
    exact hnode
  rw [hinj hm hm' hhash] at hlong
  exact hlong hlen'

theorem length_le_of_leafAt {n : Nat} (hzero : ∀ m ∈ M, libs.sha256 m ≠ Hash.ZERO)
    (hleaf' : LeafHashes libs M leaves') (hn' : leaves'.length ≤ n)
    (heq : ∀ c < n, leafAt leaves c = leafAt leaves' c) : leaves'.length ≤ leaves.length := by
  by_contra hlt
  have hlt : leaves.length < leaves'.length := Nat.lt_of_not_le hlt
  obtain ⟨m, hm, hmeq, -⟩ := hleaf' _ (List.getElem_mem hlt)
  have hpad := heq leaves.length (by omega)
  rw [leafAt_of_le (le_refl _), leafAt_of_lt hlt, hmeq] at hpad
  exact hzero m hm hpad.symm

/-- **One root, one list of leaves**, when the leaves are hashes of texts. -/
theorem leaves_eq_of_root (h : IsTree libs leaves tree) (h' : IsTree libs leaves' tree')
    (hinj : Set.InjOn libs.sha256 M) (hM : tree.hashed ⊆ M) (hM' : tree'.hashed ⊆ M)
    (hzero : ∀ m ∈ M, libs.sha256 m ≠ Hash.ZERO) (hne : leaves ≠ []) (hne' : leaves' ≠ [])
    (hleaf : LeafHashes libs M leaves) (hleaf' : LeafHashes libs M leaves')
    (hroot : tree.root = tree'.root) : leaves = leaves' := by
  have hheight : tree'.height = tree.height + 0 := by
    rcases Nat.lt_trichotomy tree.height tree'.height with hlt | heq | hgt
    · exact absurd hroot (h.root_ne_of_height_lt h' hinj hM hM' hne hleaf hlt)
    · exact heq.symm
    · exact absurd hroot.symm (h'.root_ne_of_height_lt h hinj hM' hM hne' hleaf' hgt)
  rw [h.root_eq_node, h'.root_eq_node, hheight] at hroot
  have hsame : ∀ c < 2 ^ tree.height, leafAt leaves c = leafAt leaves' c := by
    intro c hc
    have hnode := node_eq_node_of_root (injOn_hashPair hinj) (h.covers hM)
      (hheight ▸ h'.covers hM') hroot tree.height (le_refl _) c hc
    rw [Nat.add_zero, Nat.sub_self] at hnode
    exact hnode
  have hbound := h.length_le
  have hbound' := h'.length_le
  rw [hheight] at hbound'
  have hlen : leaves.length = leaves'.length :=
    Nat.le_antisymm
      (length_le_of_leafAt hzero hleaf hbound (fun c hc => (hsame c hc).symm))
      (length_le_of_leafAt hzero hleaf' hbound' hsame)
  apply List.ext_getElem hlen
  intro i hi hi'
  rw [← leafAt_of_lt hi, ← leafAt_of_lt hi']
  exact hsame i (by omega)

theorem root_ne_zero (h : IsTree libs leaves tree) (hM : tree.hashed ⊆ M)
    (hzero : ∀ m ∈ M, libs.sha256 m ≠ Hash.ZERO) (hne : leaves ≠ [])
    (hleaf : LeafHashes libs M leaves) : tree.root ≠ Hash.ZERO := by
  rw [h.root_eq_node]
  cases hheight : tree.height with
  | zero =>
    have hlen : 0 < leaves.length := List.length_pos_iff.mpr hne
    obtain ⟨m, hm, hmeq, -⟩ := hleaf _ (List.getElem_mem hlen)
    show leafAt leaves 0 ≠ Hash.ZERO
    rw [leafAt_of_lt hlen, hmeq]
    exact hzero m hm
  | succ l =>
    obtain ⟨m, hm, hmeq, -⟩ := h.inner_eq (l := l) (i := 0) hM (by omega) (by positivity)
    rw [hmeq]
    exact hzero m hm

def hashedEntries (libs : Libs K V) (entries : List SignedAuditEntry) (tree : MerkleTree) :
    Set Bytes :=
  {m | ∃ e ∈ entries, m = libs.toJson e.entry} ∪ tree.hashed

theorem leafHashes_entries {entries : List SignedAuditEntry}
    (hverify : ∀ e ∈ entries, e.verifyEntryHash libs = true)
    (hlong : ∀ e ∈ entries, 64 < (libs.toJson e.entry).length)
    (hM : {m | ∃ e ∈ entries, m = libs.toJson e.entry} ⊆ M) :
    LeafHashes libs M (entries.map (·.entryHash)) := by
  intro leaf hleaf
  obtain ⟨e, he, rfl⟩ := List.mem_map.mp hleaf
  exact ⟨_, hM ⟨e, he, rfl⟩, entryHash_of_verifyEntryHash (hverify e he),
    (hlong e he).ne'⟩

theorem fromEntries_cases {entries : List SignedAuditEntry}
    (h : fromEntries libs entries = some tree) :
    (entries = [] ∧ tree = empty) ∨
      (entries ≠ [] ∧ IsTree libs (entries.map (·.entryHash)) tree) := by
  cases entries with
  | nil =>
    cases h
    exact .inl ⟨rfl, rfl⟩
  | cons e es => exact .inr ⟨List.cons_ne_nil _ _, isTree_of_fromLeaves (List.cons_ne_nil _ _) h⟩

/-- **The root commits to the log.** Two lists of entries with correct hashes and one root hold
the same entries in the same order. -/
theorem root_commits {entries entries' : List SignedAuditEntry}
    (htree : fromEntries libs entries = some tree)
    (htree' : fromEntries libs entries' = some tree')
    (hverify : ∀ e ∈ entries, e.verifyEntryHash libs = true)
    (hverify' : ∀ e ∈ entries', e.verifyEntryHash libs = true)
    (hinj : Set.InjOn libs.sha256
      (hashedEntries libs entries tree ∪ hashedEntries libs entries' tree'))
    (hzero : ∀ m ∈ hashedEntries libs entries tree ∪ hashedEntries libs entries' tree',
      libs.sha256 m ≠ Hash.ZERO)
    (hjson : ∀ e ∈ entries, ∀ e' ∈ entries', libs.toJson e.entry = libs.toJson e'.entry →
      e.entry = e'.entry)
    (hlong : ∀ e ∈ entries, 64 < (libs.toJson e.entry).length)
    (hlong' : ∀ e ∈ entries', 64 < (libs.toJson e.entry).length)
    (hroot : tree.root = tree'.root) :
    entries.map (·.entry) = entries'.map (·.entry) := by
  have hM := @Set.subset_union_left _ (hashedEntries libs entries tree)
    (hashedEntries libs entries' tree')
  have hM' := @Set.subset_union_right _ (hashedEntries libs entries tree)
    (hashedEntries libs entries' tree')
  have htexts := leafHashes_entries hverify hlong (Set.subset_union_left.trans hM)
  have htexts' := leafHashes_entries hverify' hlong' (Set.subset_union_left.trans hM')
  have hnodes := Set.subset_union_right.trans hM
  have hnodes' := Set.subset_union_right.trans hM'
  rcases fromEntries_cases htree with ⟨rfl, rfl⟩ | ⟨hne, h⟩ <;>
    rcases fromEntries_cases htree' with ⟨rfl, rfl⟩ | ⟨hne', h'⟩
  · rfl
  · exact absurd hroot.symm (root_ne_zero h' hnodes' hzero (by simpa using hne') htexts')
  · exact absurd hroot (root_ne_zero h hnodes hzero (by simpa using hne) htexts)
  have hleaves := leaves_eq_of_root h h' hinj hnodes hnodes' hzero (by simpa using hne)
    (by simpa using hne') htexts htexts' hroot
  have hlen : entries.length = entries'.length := by
    simpa using congrArg List.length hleaves
  apply List.ext_getElem (by simpa using hlen)
  intro i hi hi'
  rw [List.length_map] at hi hi'
  rw [List.getElem_map, List.getElem_map]
  have hmem : entries[i] ∈ entries := List.getElem_mem hi
  have hmem' : entries'[i] ∈ entries' := List.getElem_mem hi'
  -- equal entry hashes are hashes of equal texts
  have hhash : entries[i].entryHash = entries'[i].entryHash := by
    have hget := congrArg (·[i]?) hleaves
    simpa [List.getElem?_eq_getElem hi, List.getElem?_eq_getElem hi'] using hget
  rw [entryHash_of_verifyEntryHash (hverify _ hmem),
    entryHash_of_verifyEntryHash (hverify' _ hmem')] at hhash
  exact hjson _ hmem _ hmem' (hinj (hM (.inl ⟨_, hmem, rfl⟩)) (hM' (.inl ⟨_, hmem', rfl⟩)) hhash)

def sampleLog (key : FixedBytes 32) : List SignedAuditEntry :=
  [(sampleEntry 7).sign concreteLibs key Hash.ZERO,
    (sampleEntry 8).sign concreteLibs key ((sampleEntry 7).computeHash concreteLibs)]

theorem entry_of_mem_sampleLog {key : FixedBytes 32} {e : SignedAuditEntry}
    (he : e ∈ sampleLog key) : e.verifyEntryHash concreteLibs = true ∧
      (e.entry = sampleEntry 7 ∨ e.entry = sampleEntry 8) := by
  rcases List.mem_cons.mp he with rfl | he
  · exact ⟨verifyEntryHash_sign _ _ _, .inl rfl⟩
  · cases List.mem_singleton.mp he
    exact ⟨verifyEntryHash_sign _ _ _, .inr rfl⟩

theorem hashedEntries_sampleLog {key : FixedBytes 32}
    (h : fromEntries concreteLibs (sampleLog key) = some tree) :
    hashedEntries concreteLibs (sampleLog key) tree ⊆ {m | m ∈ sampleMessages} := by
  rintro m (⟨e, he, rfl⟩ | hm)
  · rcases (entry_of_mem_sampleLog he).2 with heq | heq
    · rw [heq]
      exact List.mem_cons_self ..
    · rw [heq]
      exact List.mem_cons_of_mem _ (List.mem_cons_self ..)
  · rw [MerkleProof.hashed_two (isTree_of_fromLeaves (List.cons_ne_nil _ _) h)] at hm
    cases hm
    exact List.mem_cons_of_mem _ (List.mem_cons_of_mem _ (List.mem_cons_self ..))

/-- The log signed with one key and with another have one root, and the same entries. -/
theorem root_commits_sampleLog : ∃ tree,
    fromEntries concreteLibs (sampleLog (sampleKey 1)) = some tree ∧
    fromEntries concreteLibs (sampleLog (sampleKey 2)) = some tree ∧
    (sampleLog (sampleKey 1)).map (·.entry) = (sampleLog (sampleKey 2)).map (·.entry) := by
  obtain ⟨tree, htree, -⟩ := exists_fromLeaves concreteLibs (List.cons_ne_nil
    ((sampleEntry 7).computeHash concreteLibs) [(sampleEntry 8).computeHash concreteLibs])
  have h1 : fromEntries concreteLibs (sampleLog (sampleKey 1)) = some tree := htree
  have h2 : fromEntries concreteLibs (sampleLog (sampleKey 2)) = some tree := htree
  have hM := Set.union_subset (hashedEntries_sampleLog h1) (hashedEntries_sampleLog h2)
  obtain ⟨hne, hlong7, hlong8⟩ := sampleTexts
  have hlong : ∀ key, ∀ e ∈ sampleLog key, 64 < (concreteLibs.toJson e.entry).length := by
    intro key e he
    rcases (entry_of_mem_sampleLog he).2 with heq | heq <;> rw [heq]
    · exact hlong7
    · exact hlong8
  refine ⟨tree, h1, h2, root_commits h1 h2 ?_ ?_ ?_ ?_ ?_ (hlong _) (hlong _) rfl⟩
  · exact fun e he => (entry_of_mem_sampleLog he).1
  · exact fun e he => (entry_of_mem_sampleLog he).1
  · exact fun m hm m' hm' => sampleMessages_inj m (hM hm) m' (hM hm')
  · exact fun m hm => sampleMessages_ne_zero m (hM hm)
  · intro e he e' he' hjson
    rcases (entry_of_mem_sampleLog he).2 with heq | heq <;>
      rcases (entry_of_mem_sampleLog he').2 with heq' | heq' <;> rw [heq, heq'] at hjson ⊢
    · exact absurd hjson hne
    · exact absurd hjson.symm hne

end MerkleTree

end Arcxa.Audit
