import Arcxa.Audit.Batch
import Mathlib.Data.Nat.Log

/-!
# Proofs of the entries

`merkle_proof` gives a proof for each entry and none for the padding. `batch_merkle_proof` asks the
padded tree, so an index between the number of entries and the number of leaves gives a proof of a zero
hash, and it verifies. `proves_iff`: apart from such indices, both give exactly the proofs of the entries.
-/

namespace Arcxa.Audit

open MerkleTree AuditChain

variable {K V : Type} (libs : Libs K V)

namespace AuditChain

/-- `none` is a panic. -/
def merkleRoot (chain : AuditChain K) : Option Hash :=
  (chain.buildMerkleTree libs).map MerkleTree.root

/-- The proof of one entry, in a tree over `n` of them. -/
structure Proves (chain : AuditChain K) (index : Nat) (e : SignedAuditEntry) (p : MerkleProof) :
    Prop where
  verify : p.verify libs = true
  leafIndex : p.leafIndex = index
  leafHash : p.leafHash = e.entryHash
  root : chain.merkleRoot libs = some p.root
  length_siblings : p.siblings.length = Nat.clog 2 chain.entries.length

/-- The batch has the proofs that `merkle_proof` gives at the indices, in their order. -/
def BatchExact (chain : AuditChain K) (indices : List Nat) : Prop :=
  ∃ batch proofs, chain.batchMerkleProof libs indices = some batch ∧
    indices.mapM (chain.merkleProof libs) = some proofs ∧
    batch.proofs = proofs.reduceOption ∧ batch.verify libs = true

def Padding (chain : AuditChain K) (index : Nat) : Prop :=
  chain.entries ≠ [] ∧ chain.entries.length ≤ index ∧
    index < nextPowerOfTwo chain.entries.length

end AuditChain

/-! ## The height -/

theorem heightOf_eq_clog (n : Nat) : MerkleTree.heightOf n = Nat.clog 2 n := by
  refine Nat.le_antisymm ?_ (Nat.clog_le_of_le_pow (le_two_pow_heightOf n))
  by_cases hone : n ≤ 1
  · have hzero : heightOf n = 0 := by
      rw [heightOf, nextPowerOfTwo, if_pos hone]
      decide
    rw [hzero]
    exact Nat.zero_le _
  · have hheight : heightOf n = (n - 1).log2 + 1 := by
      rw [heightOf, nextPowerOfTwo, if_neg hone, Nat.log2_two_pow]
    have hlow : 2 ^ (n - 1).log2 ≤ n - 1 := Nat.log2_self_le (by omega)
    rw [hheight]
    exact (Nat.lt_clog_iff_pow_lt (by decide)).mpr (by omega)

/-! ## Single proofs -/

theorem length_proofSiblings (nodes : Nodes) (level index rounds : Nat) :
    (MerkleTree.proofSiblings nodes level index rounds).length = rounds := by
  induction rounds generalizing level index with
  | zero => rfl
  | succ rounds ih => rw [proofSiblings, List.length_cons, ih]

section Proofs

variable {libs} {chain : AuditChain K} {tree : MerkleTree}

theorem buildMerkleTree_of_nil (h : chain.entries = []) :
    chain.buildMerkleTree libs = some MerkleTree.empty := by
  rw [buildMerkleTree, fromEntries, h]
  rfl

theorem proof_isSome_iff (htree : MerkleTree.IsTree libs (chain.entries.map (·.entryHash)) tree)
    (index : Nat) :
    (tree.proof index).isSome ↔ index < nextPowerOfTwo chain.entries.length := by
  have hlength : tree.leaves.length = nextPowerOfTwo chain.entries.length := by
    rw [htree.leaves_eq, length_pad, List.length_map]
  rw [proof, ← hlength]
  by_cases hlt : index < tree.leaves.length
  · rw [List.getElem?_eq_getElem hlt]
    exact iff_of_true rfl hlt
  · rw [List.getElem?_eq_none (Nat.le_of_not_lt hlt)]
    exact iff_of_false (by simp) hlt

theorem merkleProof_of_lt (htree : chain.buildMerkleTree libs = some tree) {index : Nat}
    (hlt : index < chain.entries.length) : chain.merkleProof libs index = some (tree.proof index) := by
  rw [merkleProof, if_neg (by omega), htree]
  rfl

theorem merkleProof_of_le {index : Nat} (hle : chain.entries.length ≤ index) :
    chain.merkleProof libs index = some none := by
  rw [merkleProof, if_pos hle]

theorem exists_proves {index : Nat} {e : SignedAuditEntry} (he : chain.entries[index]? = some e) :
    ∃ p, chain.merkleProof libs index = some (some p) ∧ chain.Proves libs index e p := by
  obtain ⟨p, hp, hhash, hverify⟩ :
      ∃ p, chain.merkleProof libs index = some (some p) ∧ p.leafHash = e.entryHash ∧
        p.verify libs = true := verify_merkleProof he
  obtain ⟨hlt, -⟩ := List.getElem?_eq_some_iff.mp he
  have hne : chain.entries ≠ [] := List.ne_nil_of_length_pos (by omega)
  obtain ⟨tree, htree, hspec⟩ := exists_fromEntries libs hne
  have hproof : tree.proof index = some p := by
    rw [merkleProof_of_lt htree hlt, Option.some.injEq] at hp
    exact hp
  have hroot := root_of_proof hproof
  rw [proof] at hproof
  split at hproof
  · cases hproof
  · cases hproof
    refine ⟨_, hp, hverify, rfl, hhash, ?_, ?_⟩
    · rw [merkleRoot, buildMerkleTree, htree]
      rfl
    · rw [length_proofSiblings, hspec.height_eq, List.length_map, heightOf_eq_clog]

/-! ## Batches -/

/-- Where one map is defined whenever another is, with the same value, the filtered lists are the same
only if both are defined at the same elements. -/
theorem filterMap_eq_iff {α β : Type} {f g : α → Option β} {l : List α}
    (h : ∀ a ∈ l, ∀ b, g a = some b → f a = some b) :
    l.filterMap f = l.filterMap g ↔ ∀ a ∈ l, (f a).isSome → (g a).isSome := by
  have hle : ∀ l' : List α, (∀ a ∈ l', ∀ b, g a = some b → f a = some b) →
      (l'.filterMap g).length ≤ (l'.filterMap f).length := by
    intro l' h'
    rw [List.length_filterMap_eq_countP, List.length_filterMap_eq_countP]
    refine List.countP_mono_left fun a ha hsome => ?_
    obtain ⟨b, hb⟩ := Option.isSome_iff_exists.mp hsome
    rw [h' a ha b hb]
    rfl
  induction l with
  | nil => simp
  | cons a l ih =>
    rw [List.forall_mem_cons] at h
    rw [List.forall_mem_cons]
    refine Iff.trans ?_ (and_congr_right' (ih h.2))
    cases hg : g a with
    | some b =>
      rw [List.filterMap_cons_some hg, List.filterMap_cons_some (h.1 b hg)]
      simp
    | none =>
      rw [List.filterMap_cons_none hg]
      cases hf : f a with
      | none =>
        rw [List.filterMap_cons_none hf]
        simp
      | some b =>
        rw [List.filterMap_cons_some hf]
        refine iff_of_false ?_ (by simp)
        intro heq
        have hlength := congrArg List.length heq
        have hshort := hle l h.2
        rw [List.length_cons] at hlength
        omega

theorem mapM_eq_some_map {α β : Type} {f : α → Option β} {g : α → β} {l : List α}
    (h : ∀ a ∈ l, f a = some (g a)) : l.mapM f = some (l.map g) := by
  induction l with
  | nil => rfl
  | cons a l ih =>
    rw [List.forall_mem_cons] at h
    rw [List.mapM_cons, h.1, ih h.2]
    rfl

/-- The proof that `merkle_proof` gives, none where it would panic. -/
def proofAt (libs : Libs K V) (chain : AuditChain K) (index : Nat) : Option MerkleProof :=
  (chain.merkleProof libs index).join

theorem batchExact_iff (chain : AuditChain K) (indices : List Nat) :
    chain.BatchExact libs indices ↔ ∀ index ∈ indices, ¬ chain.Padding index := by
  by_cases hnil : chain.entries = []
  · -- the empty tree has no leaves at all
    refine iff_of_true ?_ fun index _ hpadding => hpadding.1 hnil
    have hnone : ∀ index ∈ indices, chain.merkleProof libs index = some none := fun index _ =>
      merkleProof_of_le (by rw [hnil]; exact Nat.zero_le _)
    have hproof : indices.filterMap empty.proof = [] := by
      rw [List.filterMap_eq_nil_iff]
      intro index _
      rfl
    refine ⟨⟨empty.root, []⟩, indices.map fun _ => none, ?_,
      mapM_eq_some_map hnone, ?_, rfl⟩
    · rw [batchMerkleProof, buildMerkleTree_of_nil hnil]
      show some (BatchProof.mk _ (indices.filterMap empty.proof)) = _
      rw [hproof]
    · show [] = (indices.map fun _ => none).filterMap id
      simp
  · obtain ⟨tree, htree, hspec⟩ := exists_fromEntries libs hnil
    have hproofs : ∀ index ∈ indices,
        chain.merkleProof libs index = some (proofAt libs chain index) := by
      intro index _
      rw [proofAt]
      rcases Nat.lt_or_ge index chain.entries.length with hlt | hge
      · rw [merkleProof_of_lt htree hlt]
        rfl
      · rw [merkleProof_of_le hge]
        rfl
    have hsame : ∀ index ∈ indices, ∀ p, proofAt libs chain index = some p →
        tree.proof index = some p := by
      intro index _ p hp
      rw [proofAt] at hp
      rcases Nat.lt_or_ge index chain.entries.length with hlt | hge
      · rwa [merkleProof_of_lt htree hlt] at hp
      · rw [merkleProof_of_le hge] at hp
        cases hp
    have hdefined : ∀ index, ((tree.proof index).isSome → (proofAt libs chain index).isSome) ↔
        ¬ chain.Padding index := by
      intro index
      rw [proof_isSome_iff hspec]
      rcases Nat.lt_or_ge index chain.entries.length with hlt | hge
      · have hle := le_nextPowerOfTwo chain.entries.length
        have hsome : (proofAt libs chain index).isSome := by
          rw [proofAt, merkleProof_of_lt htree hlt]
          exact (proof_isSome_iff hspec index).mpr (by omega)
        exact iff_of_true (fun _ => hsome) fun hpadding => absurd hpadding.2.1 (by omega)
      · rw [proofAt, merkleProof_of_le hge]
        simp [AuditChain.Padding, hnil, hge]
    have hbatch : chain.batchMerkleProof libs indices =
        some ⟨tree.root, indices.filterMap tree.proof⟩ := by
      rw [batchMerkleProof, buildMerkleTree, htree]
      rfl
    have hreduce : (indices.map (proofAt libs chain)).reduceOption =
        indices.filterMap (proofAt libs chain) := by
      exact List.filterMap_map
    rw [← forall₂_congr fun index _ => hdefined index, ← filterMap_eq_iff hsame]
    constructor
    · rintro ⟨batch, proofs, hb, hm, heq, -⟩
      rw [hbatch, Option.some.injEq] at hb
      rw [mapM_eq_some_map hproofs, Option.some.injEq] at hm
      subst hb hm
      rw [← hreduce]
      exact heq
    · intro heq
      exact ⟨_, _, hbatch, mapM_eq_some_map hproofs, by rw [hreduce]; exact heq,
        verify_ownProofs hspec indices⟩

end Proofs

/-- **Inclusion proofs are complete, and batches have no others unless an index is one of the
padding.** -/
theorem proves_iff (chain : AuditChain K) (indices : List Nat) :
    ((∀ index e, chain.entries[index]? = some e →
        ∃ p, chain.merkleProof libs index = some (some p) ∧ chain.Proves libs index e p) ∧
      chain.BatchExact libs indices) ↔ ∀ index ∈ indices, ¬ chain.Padding index := by
  rw [batchExact_iff, and_iff_right]
  intro index e he
  exact exists_proves he

/-- Three entries, and the index of the fourth leaf. -/
theorem padding_proved : ¬ ∀ (chain : AuditChain (FixedBytes 32)) (indices : List Nat),
    (∀ index e, chain.entries[index]? = some e →
      ∃ p, chain.merkleProof concreteLibs index = some (some p) ∧
        chain.Proves concreteLibs index e p) ∧ chain.BatchExact concreteLibs indices := by
  intro h
  have hexact := (h (sampleChain [sampleEntry 7, sampleEntry 8, sampleEntry 9]) [3]).2
  exact (batchExact_iff _ _).mp hexact 3 (List.mem_singleton.mpr rfl)
    ⟨List.cons_ne_nil _ _, Nat.le_refl 3, by decide⟩

end Arcxa.Audit
