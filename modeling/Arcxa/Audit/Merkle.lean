import Arcxa.Lib.HashTree
import Arcxa.Audit.Entry

/-!
# Merkle trees over entry hashes

`from_leaves` pads the leaves with zero hashes to a power of two and fills a map from
level and index to hash, level by level. `IsTree` is its specification: the map holds the
nodes of the perfect hash tree over the padded leaves and nothing else. Whatever is said
about roots and proofs below goes through it.

SHA-256 has collisions, so no result assumes it injective. Each one assumes that the
messages hashed in the computations it speaks of have different hashes: `hashed` is the set
of these messages.
-/

namespace Arcxa.Audit

variable {K V : Type}

/-- `HashMap<(usize, usize), Hash>`, by level and index. -/
abbrev Nodes := Nat × Nat → Option Hash

def Nodes.insert (nodes : Nodes) (key : Nat × Nat) (hash : Hash) : Nodes :=
  fun k => if k = key then some hash else nodes k

structure MerkleTree where
  root : Hash
  height : Nat
  leaves : List Hash
  nodes : Nodes

structure MerkleProof where
  leafIndex : Nat
  leafHash : Hash
  siblings : List Hash
  root : Hash

/-- `usize::next_power_of_two`. -/
def nextPowerOfTwo (n : Nat) : Nat := if n ≤ 1 then 1 else 2 ^ ((n - 1).log2 + 1)

namespace MerkleTree

variable (libs : Libs K V)

def hashPair (left right : Hash) : Hash := libs.sha256 (left.bytes ++ right.bytes)

def empty : MerkleTree where
  root := Hash.ZERO
  height := 0
  leaves := []
  nodes _ := none

def pad (leaves : List Hash) : List Hash :=
  leaves ++ List.replicate (nextPowerOfTwo leaves.length - leaves.length) Hash.ZERO

def storeLeaves (leaves : List Hash) : Nodes :=
  leaves.zipIdx.foldl (fun nodes p => nodes.insert (0, p.2) p.1) (fun _ => none)

/-- One round of the inner loop; `none` is a failed `unwrap`. -/
def buildNode (level : Nat) (nodes : Nodes) (i : Nat) : Option Nodes := do
  let left ← nodes (level - 1, i * 2)
  let right ← nodes (level - 1, i * 2 + 1)
  pure (nodes.insert (level, i) (hashPair libs left right))

def buildLevel (height : Nat) (nodes : Nodes) (level : Nat) : Option Nodes :=
  let prevLevelSize := 1 <<< (height - level + 1)
  let levelSize := prevLevelSize / 2
  (List.range levelSize).foldlM (buildNode libs level) nodes

def fromLeaves (leaves : List Hash) : Option MerkleTree :=
  if leaves.isEmpty then some empty
  else do
    let leaves := pad leaves
    let height := leaves.length.log2
    let nodes ← (List.range' 1 height).foldlM (buildLevel libs height) (storeLeaves leaves)
    let root ← nodes (height, 0)
    pure { root, height, leaves, nodes }

def fromEntries (entries : List SignedAuditEntry) : Option MerkleTree :=
  if entries.isEmpty then some empty
  else fromLeaves libs (entries.map (·.entryHash))

def proofSiblings (nodes : Nodes) : Nat → Nat → Nat → List Hash
  | _, _, 0 => []
  | level, currentIndex, rounds + 1 =>
    let siblingIndex := if currentIndex % 2 = 0 then currentIndex + 1 else currentIndex - 1
    (nodes (level, siblingIndex)).getD Hash.ZERO ::
      proofSiblings nodes (level + 1) (currentIndex / 2) rounds

def proof (tree : MerkleTree) (index : Nat) : Option MerkleProof :=
  match tree.leaves[index]? with
  | none => none
  | some leafHash => some
    { leafIndex := index
      leafHash
      siblings := proofSiblings tree.nodes 0 index tree.height
      root := tree.root }

end MerkleTree

namespace MerkleProof

variable (libs : Libs K V)

/-- The loop of `verify`. -/
def fold (leafHash : Hash) (leafIndex : Nat) (siblings : List Hash) : Hash :=
  (siblings.foldl (fun (state : Hash × Nat) sibling =>
    (if state.2 % 2 = 0 then MerkleTree.hashPair libs state.1 sibling
      else MerkleTree.hashPair libs sibling state.1, state.2 / 2)) (leafHash, leafIndex)).1

def verify (p : MerkleProof) : Bool := fold libs p.leafHash p.leafIndex p.siblings == p.root

end MerkleProof

structure BatchProof where
  root : Hash
  proofs : List MerkleProof

def BatchProof.verify (libs : Libs K V) (batch : BatchProof) : Bool :=
  batch.proofs.all fun proof => proof.root == batch.root && proof.verify libs

/-! ## The padded leaves -/

theorem nextPowerOfTwo_eq_pow (n : Nat) : ∃ h, nextPowerOfTwo n = 2 ^ h := by
  unfold nextPowerOfTwo
  split_ifs
  · exact ⟨0, rfl⟩
  · exact ⟨_, rfl⟩

theorem le_nextPowerOfTwo (n : Nat) : n ≤ nextPowerOfTwo n := by
  unfold nextPowerOfTwo
  split_ifs with h
  · exact h
  · have hlt : n - 1 < 2 ^ ((n - 1).log2 + 1) := Nat.lt_log2_self
    omega

namespace MerkleTree

theorem length_pad (leaves : List Hash) : (pad leaves).length = nextPowerOfTwo leaves.length := by
  have hle := le_nextPowerOfTwo leaves.length
  rw [pad, List.length_append, List.length_replicate]
  omega

/-- The height of the tree over `n` leaves. -/
def heightOf (n : Nat) : Nat := (nextPowerOfTwo n).log2

theorem two_pow_heightOf (n : Nat) : 2 ^ heightOf n = nextPowerOfTwo n := by
  obtain ⟨h, hpow⟩ := nextPowerOfTwo_eq_pow n
  rw [heightOf, hpow, Nat.log2_two_pow]

theorem le_two_pow_heightOf (n : Nat) : n ≤ 2 ^ heightOf n := by
  rw [two_pow_heightOf]
  exact le_nextPowerOfTwo n

def leafAt (leaves : List Hash) (i : Nat) : Hash := leaves.getD i Hash.ZERO

variable {leaves : List Hash}

theorem leafAt_of_lt {i : Nat} (h : i < leaves.length) :
    leafAt leaves i = leaves[i] := by
  rw [leafAt, List.getD_eq_getElem?_getD, List.getElem?_eq_getElem h, Option.getD_some]

theorem leafAt_of_le {i : Nat} (h : leaves.length ≤ i) :
    leafAt leaves i = Hash.ZERO := by
  rw [leafAt, List.getD_eq_getElem?_getD, List.getElem?_eq_none h, Option.getD_none]

theorem pad_getElem? {i : Nat} (h : i < nextPowerOfTwo leaves.length) :
    (pad leaves)[i]? = some (leafAt leaves i) := by
  rcases Nat.lt_or_ge i leaves.length with hlt | hge
  · rw [pad, List.getElem?_append_left hlt, leafAt_of_lt hlt, List.getElem?_eq_getElem hlt]
  · rw [pad, List.getElem?_append_right hge, leafAt_of_le hge, List.getElem?_replicate,
      if_pos (by omega)]

/-! ## What `from_leaves` builds -/

variable (libs : Libs K V)

def nodeOf (leaves : List Hash) : Nat → Nat → Hash := HashTree.node (hashPair libs) (leafAt leaves)

/-- The map holds the levels up to `t`. -/
def Filled (leaves : List Hash) (t : Nat) (nodes : Nodes) : Prop :=
  ∀ l i, nodes (l, i) =
    if l ≤ t ∧ i < 2 ^ (heightOf leaves.length - l) then some (nodeOf libs leaves l i) else none

/-- The tree that `from_leaves` returns. -/
structure IsTree (leaves : List Hash) (tree : MerkleTree) : Prop where
  height_eq : tree.height = heightOf leaves.length
  leaves_eq : tree.leaves = pad leaves
  filled : Filled libs leaves (heightOf leaves.length) tree.nodes
  root_eq : tree.root = nodeOf libs leaves (heightOf leaves.length) 0

theorem foldl_insert_zipIdx (leaves : List Hash) (n : Nat) (nodes : Nodes) (l i : Nat) :
    (leaves.zipIdx n).foldl (fun nodes p => nodes.insert (0, p.2) p.1) nodes (l, i) =
      if l = 0 ∧ n ≤ i ∧ i < n + leaves.length then leaves[i - n]? else nodes (l, i) := by
  induction leaves generalizing n nodes with
  | nil =>
    rw [if_neg (by rintro ⟨-, h1, h2⟩; rw [List.length_nil] at h2; omega)]
    rfl
  | cons leaf leaves ih =>
    rw [List.zipIdx_cons, List.foldl_cons, ih, List.length_cons]
    by_cases hl : l = 0
    · subst hl
      rcases Nat.lt_trichotomy i n with hlt | rfl | hgt
      · rw [if_neg (by omega), if_neg (by omega), Nodes.insert, if_neg]
        simp only [Prod.mk.injEq, true_and]
        omega
      · rw [if_neg (by omega), if_pos (by omega), Nodes.insert, if_pos rfl, Nat.sub_self]
        rfl
      · by_cases hin : i < n + (leaves.length + 1)
        · rw [if_pos (by omega), if_pos (by omega), show i - n = i - (n + 1) + 1 by omega,
            List.getElem?_cons_succ]
        · rw [if_neg (by omega), if_neg (by omega), Nodes.insert, if_neg]
          simp only [Prod.mk.injEq, true_and]
          omega
    · rw [if_neg (fun h => hl h.1), if_neg (fun h => hl h.1), Nodes.insert, if_neg]
      simp [hl]

theorem filled_storeLeaves (leaves : List Hash) : Filled libs leaves 0 (storeLeaves (pad leaves)) := by
  intro l i
  rw [storeLeaves, foldl_insert_zipIdx, length_pad]
  by_cases h : l = 0 ∧ i < nextPowerOfTwo leaves.length
  · obtain ⟨rfl, hi⟩ := h
    rw [if_pos ⟨rfl, Nat.zero_le i, by omega⟩, if_pos ⟨le_refl 0, by
      rw [Nat.sub_zero, two_pow_heightOf]; exact hi⟩, Nat.sub_zero, pad_getElem? hi]
    rfl
  · rw [if_neg (by omega), if_neg]
    rintro ⟨hl, hi⟩
    have hl0 : l = 0 := by omega
    subst hl0
    rw [Nat.sub_zero, two_pow_heightOf] at hi
    exact h ⟨rfl, hi⟩

theorem foldlM_buildNode {t : Nat} {nodes : Nodes}
    (hfilled : Filled libs leaves t nodes) (ht : t < heightOf leaves.length) (s : Nat)
    (hs : s ≤ 2 ^ (heightOf leaves.length - (t + 1))) :
    ∃ nodes', (List.range s).foldlM (buildNode libs (t + 1)) nodes = some nodes' ∧
      ∀ l i, nodes' (l, i) =
        if l = t + 1 ∧ i < s then some (nodeOf libs leaves l i) else nodes (l, i) := by
  induction s with
  | zero => exact ⟨nodes, rfl, fun l i => by rw [if_neg (by omega)]⟩
  | succ s ih =>
    obtain ⟨nodes', hrun, hnodes'⟩ := ih (by omega)
    have hdouble : 2 ^ (heightOf leaves.length - t) =
        2 * 2 ^ (heightOf leaves.length - (t + 1)) := by
      rw [← pow_succ']
      congr 1
      omega
    -- both children are on the level below, which the loop does not touch
    have hchild : ∀ c, c < 2 ^ (heightOf leaves.length - t) →
        nodes' (t, c) = some (nodeOf libs leaves t c) := by
      intro c hc
      rw [hnodes', if_neg (by omega), hfilled, if_pos ⟨le_refl t, hc⟩]
    refine ⟨nodes'.insert (t + 1, s) (nodeOf libs leaves (t + 1) s), ?_, ?_⟩
    · rw [List.range_succ, List.foldlM_append, hrun]
      show (buildNode libs (t + 1) nodes' s >>= fun x => pure x) = _
      rw [bind_pure, buildNode, Nat.add_sub_cancel, hchild _ (by omega), hchild _ (by omega),
        Nat.mul_comm s 2]
      rfl
    · intro l i
      rw [Nodes.insert]
      by_cases hnew : (l, i) = (t + 1, s)
      · obtain ⟨rfl, rfl⟩ := Prod.mk.inj hnew
        rw [if_pos rfl, if_pos ⟨rfl, by omega⟩]
      · rw [if_neg hnew, hnodes']
        have hne : ¬ (l = t + 1 ∧ i = s) := fun h => hnew (by rw [h.1, h.2])
        by_cases hold : l = t + 1 ∧ i < s
        · rw [if_pos hold, if_pos ⟨hold.1, by omega⟩]
        · rw [if_neg hold, if_neg (by omega)]

theorem filled_buildLevel {t : Nat} {nodes : Nodes}
    (hfilled : Filled libs leaves t nodes) (ht : t < heightOf leaves.length) :
    ∃ nodes', buildLevel libs (heightOf leaves.length) nodes (t + 1) = some nodes' ∧
      Filled libs leaves (t + 1) nodes' := by
  have hsize : 1 <<< (heightOf leaves.length - (t + 1) + 1) / 2 =
      2 ^ (heightOf leaves.length - (t + 1)) := by
    rw [Nat.one_shiftLeft, pow_succ, Nat.mul_div_cancel _ (by decide)]
  obtain ⟨nodes', hrun, hnodes'⟩ :=
    foldlM_buildNode libs hfilled ht (2 ^ (heightOf leaves.length - (t + 1))) (le_refl _)
  refine ⟨nodes', ?_, ?_⟩
  · simp only [buildLevel, hsize]
    exact hrun
  · intro l i
    rw [hnodes', hfilled]
    by_cases hl : l = t + 1
    · subst hl
      by_cases hi : i < 2 ^ (heightOf leaves.length - (t + 1))
      · rw [if_pos ⟨rfl, hi⟩, if_pos ⟨le_refl _, hi⟩]
      · rw [if_neg (fun h => hi h.2), if_neg (by omega), if_neg (fun h => hi h.2)]
    · rw [if_neg (fun h => hl h.1)]
      congr 1
      rw [eq_iff_iff]
      constructor
      · rintro ⟨hle, hi⟩
        exact ⟨by omega, hi⟩
      · rintro ⟨hle, hi⟩
        exact ⟨by omega, hi⟩

theorem foldlM_buildLevel (r : Nat) {t : Nat} {nodes : Nodes}
    (hfilled : Filled libs leaves t nodes) (hr : t + r = heightOf leaves.length) :
    ∃ nodes', (List.range' (t + 1) r).foldlM (buildLevel libs (heightOf leaves.length)) nodes =
        some nodes' ∧
      Filled libs leaves (heightOf leaves.length) nodes' := by
  induction r generalizing t nodes with
  | zero =>
    rw [Nat.add_zero] at hr
    exact ⟨nodes, rfl, hr ▸ hfilled⟩
  | succ r ih =>
    obtain ⟨mid, hmid, hfilledMid⟩ := filled_buildLevel libs hfilled (by omega)
    obtain ⟨nodes', hrun, hdone⟩ := ih hfilledMid (by omega)
    refine ⟨nodes', ?_, hdone⟩
    rw [List.range'_succ, List.foldlM_cons, hmid]
    exact hrun

/-- **`from_leaves` never panics**, and what it returns is the tree over the padded leaves. -/
theorem exists_fromLeaves (hne : leaves ≠ []) :
    ∃ tree, fromLeaves libs leaves = some tree ∧ IsTree libs leaves tree := by
  have hheight : (pad leaves).length.log2 = heightOf leaves.length := by
    rw [length_pad, heightOf]
  obtain ⟨nodes, hrun, hfilled⟩ := foldlM_buildLevel libs (heightOf leaves.length)
    (filled_storeLeaves libs leaves) (Nat.zero_add _)
  have hroot : nodes (heightOf leaves.length, 0) =
      some (nodeOf libs leaves (heightOf leaves.length) 0) := by
    rw [hfilled, if_pos ⟨le_refl _, by positivity⟩]
  refine ⟨⟨_, _, pad leaves, nodes⟩, ?_, ⟨rfl, rfl, hfilled, rfl⟩⟩
  rw [fromLeaves, if_neg (by simpa using hne)]
  simp only [hheight]
  rw [Nat.zero_add] at hrun
  rw [hrun]
  show ((nodes (heightOf leaves.length, 0)).bind fun root => _) = _
  rw [hroot]
  rfl

variable {libs}

theorem isTree_of_fromLeaves {tree : MerkleTree} (hne : leaves ≠ [])
    (h : fromLeaves libs leaves = some tree) : IsTree libs leaves tree := by
  obtain ⟨tree', htree', hspec⟩ := exists_fromLeaves libs hne
  rw [h] at htree'
  cases htree'
  exact hspec

end MerkleTree

end Arcxa.Audit
