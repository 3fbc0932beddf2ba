import Arcxa.Audit.Chain
import Arcxa.Audit.MerkleSound

/-!
# Batch verification of a chain

`verify_with_merkle` is offered beside `verify` for large chains. It builds the tree over the
entry hashes of the chain and checks the proofs of that same tree, so the only thing it could
find wrong is the tree: it accepts every list of entries (`verifyWithMerkle_eq_ok`), whatever
their data, hashes, signatures and links are. What it accepts is therefore verified exactly
when nothing was tampered with (`verify_of_verifyWithMerkle_iff`).
-/

namespace Arcxa.Audit

open SignedAuditEntry

variable {K V : Type} (libs : Libs K V)

namespace AuditChain

/-- `none` is a panic. -/
def buildMerkleTree (chain : AuditChain K) : Option MerkleTree :=
  MerkleTree.fromEntries libs chain.entries

/-- Padding has no proof here; the outer `none` is a panic. -/
def merkleProof (chain : AuditChain K) (index : Nat) : Option (Option MerkleProof) :=
  if chain.entries.length ≤ index then some none
  else do
    let tree ← chain.buildMerkleTree libs
    pure (tree.proof index)

def batchMerkleProof (chain : AuditChain K) (indices : List Nat) : Option BatchProof := do
  let tree ← chain.buildMerkleTree libs
  pure { root := tree.root, proofs := indices.filterMap tree.proof }

def verifyWithMerkle (chain : AuditChain K) : Option (Except String Unit) :=
  if chain.entries.isEmpty then some (.ok ())
  else do
    -- this first tree is not used
    let _ ← MerkleTree.fromEntries libs chain.entries
    let batch ← chain.batchMerkleProof libs (List.range chain.entries.length)
    if batch.verify libs then pure (.ok ())
    else pure (.error "Merkle tree batch verification failed")

end AuditChain

/-! ## The tree's own proofs -/

variable {libs}

variable (libs) in
theorem exists_fromEntries {entries : List SignedAuditEntry} (hne : entries ≠ []) :
    ∃ tree, MerkleTree.fromEntries libs entries = some tree ∧
      MerkleTree.IsTree libs (entries.map (·.entryHash)) tree := by
  have hleaves : entries.map (·.entryHash) ≠ [] := by simpa using hne
  obtain ⟨tree, htree, hspec⟩ := MerkleTree.exists_fromLeaves libs hleaves
  refine ⟨tree, ?_, hspec⟩
  rw [MerkleTree.fromEntries, if_neg (by simpa using hne)]
  exact htree

theorem root_of_proof {tree : MerkleTree} {index : Nat} {p : MerkleProof}
    (hp : tree.proof index = some p) : p.root = tree.root := by
  unfold MerkleTree.proof at hp
  split at hp
  · cases hp
  · cases hp
    rfl

/-- **A batch of a tree's own proofs verifies**, at whatever indices. -/
theorem verify_ownProofs {leaves : List Hash} {tree : MerkleTree}
    (h : MerkleTree.IsTree libs leaves tree) (indices : List Nat) :
    (⟨tree.root, indices.filterMap tree.proof⟩ : BatchProof).verify libs = true := by
  rw [BatchProof.verify, List.all_eq_true]
  intro p hp
  obtain ⟨index, -, hindex⟩ := List.mem_filterMap.mp hp
  rw [Bool.and_eq_true, beq_iff_eq]
  constructor
  · exact root_of_proof hindex
  · exact MerkleProof.verify_proof h hindex

variable (libs) in
theorem verify_batchMerkleProof {chain : AuditChain K} (hne : chain.entries ≠ [])
    (indices : List Nat) : ∃ batch, chain.batchMerkleProof libs indices = some batch ∧
      batch.verify libs = true := by
  obtain ⟨tree, htree, hspec⟩ := exists_fromEntries libs hne
  refine ⟨_, ?_, verify_ownProofs hspec indices⟩
  rw [AuditChain.batchMerkleProof, AuditChain.buildMerkleTree, htree]
  rfl

theorem verify_merkleProof {chain : AuditChain K} {index : Nat} {e : SignedAuditEntry}
    (he : chain.entries[index]? = some e) : ∃ p, chain.merkleProof libs index = some (some p) ∧
      p.leafHash = e.entryHash ∧ p.verify libs = true := by
  obtain ⟨hlt, -⟩ := List.getElem?_eq_some_iff.mp he
  have hne : chain.entries ≠ [] := List.ne_nil_of_length_pos (by omega)
  obtain ⟨tree, htree, hspec⟩ := exists_fromEntries libs hne
  have hleaf : tree.leaves[index]? = some e.entryHash := by
    have hmap : (chain.entries.map (·.entryHash))[index]? = some e.entryHash := by simp [he]
    rw [hspec.leaves_eq, MerkleTree.pad, List.getElem?_append_left (by simpa using hlt)]
    exact hmap
  have hproof : tree.proof index = some
      ⟨index, e.entryHash, MerkleTree.proofSiblings tree.nodes 0 index tree.height, tree.root⟩ := by
    rw [MerkleTree.proof, hleaf]
  refine ⟨_, ?_, rfl, MerkleProof.verify_proof hspec hproof⟩
  rw [AuditChain.merkleProof, if_neg (by omega), AuditChain.buildMerkleTree, htree]
  exact congrArg some hproof

/-- **Batch verification accepts every chain.** -/
theorem verifyWithMerkle_eq_ok (chain : AuditChain K) :
    chain.verifyWithMerkle libs = some (.ok ()) := by
  rw [AuditChain.verifyWithMerkle]
  by_cases hempty : chain.entries = []
  · rw [if_pos (by simpa using hempty)]
  · obtain ⟨tree, htree, -⟩ := exists_fromEntries libs hempty
    obtain ⟨batch, hbatch, hverify⟩ := verify_batchMerkleProof libs hempty
      (List.range chain.entries.length)
    rw [if_neg (by simpa using hempty), htree, hbatch]
    show (if batch.verify libs = true then _ else _) = _
    rw [if_pos hverify]
    rfl

/-! ## What it misses -/

/-- The hash is that of the data, the signature is by the key in the entry over the two hashes, and
the link is to `previous`. -/
structure SignedAuditEntry.Untampered (libs : Libs K V) (previous : Hash) (e : SignedAuditEntry) :
    Prop where
  entryHash_eq : e.entryHash = libs.sha256 (libs.toJson e.entry)
  signature_ok : ∃ key, libs.keyFromBytes e.publicKey = some key ∧
    libs.verify key (e.entryHash.bytes ++ e.previousHash.bytes) e.signature = true
  previousHash_eq : e.previousHash = previous

theorem untampered_iff {previous : Hash} {e : SignedAuditEntry} :
    e.Untampered libs previous ↔ e.verify libs = true ∧ e.previousHash = previous := by
  rw [verify_iff]
  constructor
  · rintro ⟨hhash, ⟨key, hkey, hsig⟩, hlink⟩
    refine ⟨⟨?_, ?_⟩, hlink⟩
    · rw [verifyEntryHash, hhash]
      exact beq_self_eq_true _
    · rw [verifySignature, hkey]
      exact hsig
  · rintro ⟨⟨hhash, hsig⟩, hlink⟩
    refine ⟨entryHash_of_verifyEntryHash hhash, ?_, hlink⟩
    unfold verifySignature at hsig
    split at hsig
    · exact ⟨_, by assumption, hsig⟩
    · cases hsig

def expectedLink (genesis : Hash) (entries : List SignedAuditEntry) : Nat → Hash
  | 0 => genesis
  | i + 1 => ((entries[i]?).map (·.entryHash)).getD genesis

theorem linked_iff_expectedLink (genesis : Hash) (entries : List SignedAuditEntry) :
    Linked genesis entries ↔
      ∀ i e, entries[i]? = some e → e.previousHash = expectedLink genesis entries i := by
  induction entries generalizing genesis with
  | nil => simp [Linked]
  | cons first rest ih =>
    have hshift : ∀ i, i < rest.length → expectedLink genesis (first :: rest) (i + 1) =
        expectedLink first.entryHash rest i := by
      intro i hi
      cases i with
      | zero => rfl
      | succ i =>
        have hlt : i < rest.length := by omega
        simp [expectedLink, List.getElem?_eq_getElem hlt]
    rw [Linked, ih]
    constructor
    · rintro ⟨hfirst, hrest⟩ i e he
      cases i with
      | zero =>
        cases he
        exact hfirst
      | succ i =>
        rw [List.getElem?_cons_succ] at he
        rw [hrest i e he, hshift i (List.getElem?_eq_some_iff.mp he).1]
    · intro h
      refine ⟨h 0 first rfl, ?_⟩
      intro i e he
      rw [← hshift i (List.getElem?_eq_some_iff.mp he).1]
      exact h (i + 1) e (by rw [List.getElem?_cons_succ]; exact he)

/-- **Batch verification is as strong as sequential verification exactly on the chains that were
not tampered with.** -/
theorem verify_of_verifyWithMerkle_iff (chain : AuditChain K) :
    (chain.verifyWithMerkle libs = some (.ok ()) → chain.verify libs = .ok ()) ↔
      ∀ (i : Nat) (e : SignedAuditEntry), chain.entries[i]? = some e →
        e.Untampered libs (expectedLink chain.genesisHash chain.entries i) := by
  have hok : (chain.verifyWithMerkle libs = some (.ok ()) → chain.verify libs = .ok ()) ↔
      chain.verify libs = .ok () :=
    ⟨fun h => h (verifyWithMerkle_eq_ok chain), fun h _ => h⟩
  rw [hok, verify_eq_ok_iff, linked_iff_expectedLink]
  constructor
  · rintro ⟨hverify, hlink⟩ i e he
    exact untampered_iff.mpr ⟨hverify e (List.mem_of_getElem? he), hlink i e he⟩
  · intro h
    constructor
    · intro e he
      obtain ⟨i, hi⟩ := List.getElem?_of_mem he
      exact (untampered_iff.mp (h i e hi)).1
    · intro i e he
      exact (untampered_iff.mp (h i e he)).2

def tamperedChain : AuditChain (FixedBytes 32) :=
  { sampleChain [sampleEntry 7] with
    entries := (sampleChain [sampleEntry 7]).entries.map fun e =>
      { e with entry := { e.entry with initiator := "intruder" } } }

/-- The tampered chain passes batch verification and not the sequential one. -/
theorem verifyWithMerkle_accepts_tampered :
    tamperedChain.verifyWithMerkle concreteLibs = some (.ok ()) ∧
    tamperedChain.verify concreteLibs = .error "Entry 0 failed verification" := by
  refine ⟨verifyWithMerkle_eq_ok _, ?_⟩
  decide +kernel

end Arcxa.Audit
