import Arcxa.Lib.Transition
import Arcxa.Audit.Bytes

/-!
# The audit chain

An append-only list of signed entries. `verify` checks every entry on its own and that each
one carries the hash of the entry before it; `ChainVerifier` makes the same checks and
collects what fails. `Linked` and `verify_eq_ok_iff` say what a verified chain is.

Two things follow from what is not checked. The hash of an entry covers its own data and
not the hash before it, so the head of a chain says nothing about the entries before it
(`headHash_commits_iff`). And a signature is checked with the key that stands in the entry,
so a chain that was imported may hold entries of any key; only the runs whose accepted
imports are by the chain's own key keep to it (`entries_authored`).
-/

namespace Arcxa.Audit

open SignedAuditEntry

variable {K V : Type} (libs : Libs K V)

structure AuditChain (K : Type) where
  entries : List SignedAuditEntry
  signingKey : K
  genesisHash : Hash

inductive ImportError where
  | Bincode
  | Verification (msg : String)
  deriving DecidableEq

namespace AuditChain

def new (signingKey : K) : AuditChain K where
  entries := []
  signingKey
  genesisHash := Hash.ZERO

def last (chain : AuditChain K) : Option SignedAuditEntry := chain.entries.getLast?

def headHash (chain : AuditChain K) : Hash :=
  (chain.last.map (·.entryHash)).getD chain.genesisHash

def publicKey (chain : AuditChain K) : FixedBytes 32 := libs.publicKey chain.signingKey

def append (chain : AuditChain K) (entry : AuditEntry) : AuditChain K × SignedAuditEntry :=
  let signed := entry.sign libs chain.signingKey chain.headHash
  ({ chain with entries := chain.entries ++ [signed] }, signed)

/-- The loop of `verify` at index `i`, after the entry `prev`. -/
def verifyLoop (i : Nat) (prev : Option SignedAuditEntry) :
    List SignedAuditEntry → Except String Unit
  | [] => .ok ()
  | entry :: rest =>
    if !entry.verify libs then
      .error ("Entry " ++ toString i ++ " failed verification")
    else
      match prev with
      | some p =>
        if entry.previousHash != p.entryHash then
          .error ("Entry " ++ toString i ++ " hash chain broken: expected prev_hash " ++
            p.entryHash.toHex ++ ", got " ++ entry.previousHash.toHex)
        else verifyLoop (i + 1) (some entry) rest
      | none => verifyLoop (i + 1) (some entry) rest

def verify (chain : AuditChain K) : Except String Unit :=
  match chain.entries with
  | [] => .ok ()
  | first :: _ =>
    if first.previousHash != chain.genesisHash then
      .error "First entry does not link to genesis hash"
    else verifyLoop libs 0 none chain.entries

/-- `export`. -/
def exportBytes (chain : AuditChain K) : Bytes := libs.bincode.list.encode chain.entries

/-- `import`: the imported entries are verified on a new chain with the same key. -/
def importBytes (chain : AuditChain K) (bytes : Bytes) : Except ImportError (AuditChain K) :=
  match libs.bincode.list.decodeFront bytes with
  | none => .error .Bincode
  | some imported =>
    match verify libs { new chain.signingKey with entries := imported } with
    | .error msg => .error (.Verification msg)
    | .ok () => .ok { chain with entries := imported }

end AuditChain

/-! ## The chain verifier -/

inductive VerificationError where
  | InvalidSignature (index : Nat)
  | InvalidEntryHash (index : Nat)
  | BrokenChain (index : Nat) (expected actual : String)
  | BadGenesisLink (actual : String)
  | DuplicateHash (index : Nat) (hash : String)
  | TimestampRegression (index : Nat) (current previous : UInt64)
  deriving DecidableEq

structure VerificationResult where
  valid : Bool
  entriesVerified : Nat
  errors : List VerificationError
  deriving DecidableEq

namespace ChainVerifier

def linkErrors (i : Nat) (prev entry : SignedAuditEntry) : List VerificationError :=
  (if entry.previousHash != prev.entryHash then
    [.BrokenChain i prev.entryHash.toHex entry.previousHash.toHex] else []) ++
  (if entry.entry.timestamp < prev.entry.timestamp then
    [.TimestampRegression i entry.entry.timestamp prev.entry.timestamp] else [])

/-- The loop of `verify` at index `i`, after the entry `prev`, with the hashes seen so far. -/
def entryErrors (i : Nat) (prev : Option SignedAuditEntry) (seen : List String) :
    List SignedAuditEntry → List VerificationError
  | [] => []
  | entry :: rest =>
    (if !entry.verifySignature libs then [.InvalidSignature i] else []) ++
    (if !entry.verifyEntryHash libs then [.InvalidEntryHash i] else []) ++
    (if seen.contains entry.entryHash.toHex then [.DuplicateHash i entry.entryHash.toHex]
      else []) ++
    (prev.map (linkErrors i · entry)).getD [] ++
    entryErrors (i + 1) (some entry) (entry.entryHash.toHex :: seen) rest

def verify (chain : AuditChain K) : VerificationResult :=
  match chain.entries with
  | [] => ⟨true, 0, []⟩
  | first :: _ =>
    let errors :=
      (if first.previousHash != Hash.ZERO then [.BadGenesisLink first.previousHash.toHex] else []) ++
      entryErrors libs 0 none [] chain.entries
    ⟨errors.isEmpty, chain.entries.length, errors⟩

end ChainVerifier

/-! ## Verified chains -/

/-- Each entry carries the hash of the one before it, the first one carries `genesis`. -/
def Linked : Hash → List SignedAuditEntry → Prop
  | _, [] => True
  | h, e :: es => e.previousHash = h ∧ Linked e.entryHash es

variable {libs}

theorem verifyLoop_some_eq_ok_iff (i : Nat) (p : SignedAuditEntry) (entries : List SignedAuditEntry) :
    AuditChain.verifyLoop libs i (some p) entries = .ok () ↔
      (∀ e ∈ entries, e.verify libs = true) ∧ Linked p.entryHash entries := by
  induction entries generalizing i p with
  | nil => simp [AuditChain.verifyLoop, Linked]
  | cons e es ih =>
    rw [AuditChain.verifyLoop, List.forall_mem_cons, Linked]
    cases he : e.verify libs with
    | false => simp
    | true =>
      simp only [Bool.not_true, Bool.false_eq_true, if_false, bne_iff_ne]
      split_ifs with hlink
      · simp [hlink]
      · rw [ih, Decidable.not_not.mp hlink]
        tauto

/-- **What `verify` accepts.** -/
theorem verify_eq_ok_iff (chain : AuditChain K) :
    chain.verify libs = .ok () ↔
      (∀ e ∈ chain.entries, e.verify libs = true) ∧ Linked chain.genesisHash chain.entries := by
  unfold AuditChain.verify
  cases chain.entries with
  | nil => simp [Linked]
  | cons first rest =>
    rw [List.forall_mem_cons, Linked]
    simp only [bne_iff_ne]
    split_ifs with hgenesis
    · simp [hgenesis]
    · rw [Decidable.not_not.mp hgenesis, AuditChain.verifyLoop]
      cases hfirst : first.verify libs with
      | false => simp
      | true =>
        simp only [Bool.not_true, Bool.false_eq_true, if_false, verifyLoop_some_eq_ok_iff]
        tauto

theorem verifySignature_of_entryErrors {i : Nat} {prev : Option SignedAuditEntry}
    {seen : List String} {entries : List SignedAuditEntry}
    (h : ChainVerifier.entryErrors libs i prev seen entries = []) :
    ∀ e ∈ entries, e.verifySignature libs = true := by
  induction entries generalizing i prev seen with
  | nil => simp
  | cons e es ih =>
    simp only [ChainVerifier.entryErrors, List.append_eq_nil_iff] at h
    obtain ⟨⟨⟨⟨hsig, -⟩, -⟩, -⟩, hrest⟩ := h
    rw [List.forall_mem_cons]
    refine ⟨?_, ih hrest⟩
    cases hv : e.verifySignature libs with
    | true => rfl
    | false =>
      rw [hv] at hsig
      cases hsig

theorem verifySignature_of_verified {chain : AuditChain K}
    (h : chain.verify libs = .ok () ∨ (ChainVerifier.verify libs chain).valid = true) :
    ∀ e ∈ chain.entries, e.verifySignature libs = true := by
  rcases h with h | h
  · intro e he
    exact (verify_iff.mp (((verify_eq_ok_iff chain).mp h).1 e he)).2
  · unfold ChainVerifier.verify at h
    cases hentries : chain.entries with
    | nil => simp
    | cons first rest =>
      rw [hentries] at h
      have hempty := (List.append_eq_nil_iff.mp (List.isEmpty_iff.mp h)).2
      exact verifySignature_of_entryErrors hempty

/-! ## Appending -/

def headFrom (h : Hash) (entries : List SignedAuditEntry) : Hash :=
  (entries.getLast?.map (·.entryHash)).getD h

theorem linked_append_singleton (h : Hash) (entries : List SignedAuditEntry) (e : SignedAuditEntry) :
    Linked h (entries ++ [e]) ↔ Linked h entries ∧ e.previousHash = headFrom h entries := by
  induction entries generalizing h with
  | nil => simp [Linked, headFrom]
  | cons e' es ih =>
    have hhead : headFrom h (e' :: es) = headFrom e'.entryHash es := by
      cases es with
      | nil => rfl
      | cons e'' es =>
        rw [headFrom, headFrom, List.getLast?_cons_cons, List.getLast?_cons]
        rfl
    rw [List.cons_append, Linked, Linked, ih, hhead, and_assoc]

/-- **Appending keeps a chain verified.** -/
theorem verify_append (hsigns : libs.Signs) {chain : AuditChain K}
    (hverify : chain.verify libs = .ok ()) (entry : AuditEntry) :
    (chain.append libs entry).1.verify libs = .ok () := by
  rw [verify_eq_ok_iff] at hverify ⊢
  constructor
  · intro e he
    rcases List.mem_append.mp he with he | he
    · exact hverify.1 e he
    · cases List.mem_singleton.mp he
      exact verify_sign hsigns entry _ _
  · exact (linked_append_singleton _ _ _).mpr ⟨hverify.2, rfl⟩

theorem verify_new (key : K) : (AuditChain.new key).verify libs = .ok () := rfl

@[simp] theorem headHash_append (chain : AuditChain K) (entry : AuditEntry) :
    (chain.append libs entry).1.headHash = entry.computeHash libs := by
  simp [AuditChain.append, AuditChain.headHash, AuditChain.last, AuditEntry.sign]

/-! ## What the head commits to -/

def AuditChain.hashed (libs : Libs K V) (chain : AuditChain K) : Set Bytes :=
  {m | ∃ e ∈ chain.entries, m = libs.toJson e.entry}

/-- The head of a chain pins its entries, as far as `view` shows them: every verified chain of the
same key with this head has them, unless a hash collides or is the genesis hash. -/
def HeadCommits {β : Type} (libs : Libs K V) (view : SignedAuditEntry → β) (chain : AuditChain K) :
    Prop :=
  ∀ other : AuditChain K, other.signingKey = chain.signingKey →
    other.genesisHash = chain.genesisHash → other.verify libs = .ok () →
    Set.InjOn libs.sha256 (chain.hashed libs ∪ other.hashed libs) →
    (∀ m ∈ chain.hashed libs ∪ other.hashed libs, libs.sha256 m ≠ chain.genesisHash) →
    other.headHash = chain.headHash → other.entries.map view = chain.entries.map view

theorem headHash_cases {chain : AuditChain K} (hverify : chain.verify libs = .ok ()) :
    chain.entries = [] ∨ ∃ e ∈ chain.entries, chain.headHash = e.entry.computeHash libs := by
  cases hlast : chain.entries.getLast? with
  | none => exact .inl (List.getLast?_eq_none_iff.mp hlast)
  | some e =>
    have he := List.mem_of_getLast? hlast
    have hhash := verify_iff.mp (((verify_eq_ok_iff chain).mp hverify).1 e he)
    refine .inr ⟨e, he, ?_⟩
    rw [AuditChain.headHash, AuditChain.last, hlast]
    exact entryHash_of_verifyEntryHash hhash.1

theorem HeadCommits.map_eq {β : Type} {view : SignedAuditEntry → β} {chain : AuditChain K}
    (h : HeadCommits libs view chain) (other : AuditChain K) (hinj : Set.InjOn libs.sha256 (chain.hashed libs))
    (hgenesis : ∀ m ∈ chain.hashed libs, libs.sha256 m ≠ chain.genesisHash)
    (hkey : other.signingKey = chain.signingKey) (hgen : other.genesisHash = chain.genesisHash)
    (hverify : other.verify libs = .ok ()) (hsub : other.hashed libs ⊆ chain.hashed libs)
    (hhead : other.headHash = chain.headHash) :
    other.entries.map view = chain.entries.map view := by
  rw [← Set.union_eq_self_of_subset_right hsub] at hinj hgenesis
  exact h other hkey hgen hverify hinj hgenesis hhead

/-- **The head commits to the empty chain only.** The last entry alone, or twice in a row, makes
a chain with the same head. -/
theorem headHash_commits_iff {β : Type} (view : SignedAuditEntry → β) (hsigns : libs.Signs)
    (chain : AuditChain K) (hverify : chain.verify libs = .ok ())
    (hinj : Set.InjOn libs.sha256 (chain.hashed libs))
    (hgenesis : ∀ m ∈ chain.hashed libs, libs.sha256 m ≠ chain.genesisHash) :
    HeadCommits libs view chain ↔ chain.entries = [] := by
  constructor
  · intro hcommits
    rcases headHash_cases hverify with hnil | ⟨e, he, hhead⟩
    · exact hnil
    exfalso
    let fresh : AuditChain K := { chain with entries := [] }
    let once := (fresh.append libs e.entry).1
    let twice := (once.append libs e.entry).1
    have honce : once.verify libs = .ok () := @verify_append _ _ libs hsigns fresh rfl e.entry
    have htwice : twice.verify libs = .ok () := verify_append hsigns honce e.entry
    have hsub : ∀ c : AuditChain K, (∀ e' ∈ c.entries, e'.entry = e.entry) →
        c.hashed libs ⊆ chain.hashed libs := by
      rintro c hc m ⟨e', he', rfl⟩
      exact ⟨e, he, by rw [hc e' he']⟩
    have hone := hcommits.map_eq once hinj hgenesis rfl rfl honce
      (hsub _ (by simp [once, fresh, AuditChain.append, AuditEntry.sign]))
      ((headHash_append fresh e.entry).trans hhead.symm)
    have htwo := hcommits.map_eq twice hinj hgenesis rfl rfl htwice
      (hsub _ (by simp [twice, once, fresh, AuditChain.append, AuditEntry.sign]))
      ((headHash_append once e.entry).trans hhead.symm)
    -- one entry and two entries
    have hlen := congrArg List.length (hone.trans htwo.symm)
    simp [once, twice, fresh, AuditChain.append] at hlen
  · intro hnil other _ hgen hother _ hne hhead
    rcases headHash_cases hother with hempty | ⟨e, he, hhash⟩
    · rw [hempty, hnil]
    · have hzero : chain.headHash = chain.genesisHash := by
        rw [AuditChain.headHash, AuditChain.last, hnil]
        rfl
      rw [hhead, hzero] at hhash
      exact absurd hhash.symm (hne _ (.inr ⟨e, he, rfl⟩))

def sampleChain (entries : List AuditEntry) : AuditChain (FixedBytes 32) :=
  entries.foldl (fun chain entry => (chain.append concreteLibs entry).1)
    (AuditChain.new (sampleKey 1))

theorem verify_sampleChain (entries : List AuditEntry) :
    (sampleChain entries).verify concreteLibs = .ok () := by
  have hfold : ∀ chain : AuditChain (FixedBytes 32), chain.verify concreteLibs = .ok () →
      (entries.foldl (fun chain entry => (chain.append concreteLibs entry).1) chain).verify
        concreteLibs = .ok () := by
    induction entries with
    | nil => exact fun chain h => h
    | cons entry entries ih => exact fun chain h => ih _ (verify_append concreteLibs_signs h entry)
  exact hfold _ (verify_new _)

theorem hashed_sampleChain {entries : List AuditEntry}
    (h : ∀ e ∈ (sampleChain entries).entries, concreteLibs.toJson e.entry ∈ sampleMessages) :
    (sampleChain entries).hashed concreteLibs ⊆ {m | m ∈ sampleMessages} := by
  rintro m ⟨e, he, rfl⟩
  exact h e he

/-- The head of a chain of one entry does not commit to it. -/
theorem headHash_commits_iff_sample :
    ¬ HeadCommits concreteLibs (·.entry) (sampleChain [sampleEntry 7]) := by
  have hsub : (sampleChain [sampleEntry 7]).hashed concreteLibs ⊆ {m | m ∈ sampleMessages} := by
    apply hashed_sampleChain
    intro e he
    cases List.mem_singleton.mp he
    exact List.mem_cons_self ..
  rw [headHash_commits_iff _ concreteLibs_signs _ (verify_sampleChain _)
    (fun m hm m' hm' => sampleMessages_inj m (hsub hm) m' (hsub hm'))
    (fun m hm => sampleMessages_ne_zero m (hsub hm))]
  exact List.cons_ne_nil _ _

/-- Two verified chains of one key with one head: the second lacks the first entry. -/
theorem headHash_of_truncated :
    (sampleChain [sampleEntry 7, sampleEntry 8]).verify concreteLibs = .ok () ∧
    (sampleChain [sampleEntry 8]).verify concreteLibs = .ok () ∧
    Set.InjOn sha256 ((sampleChain [sampleEntry 7, sampleEntry 8]).hashed concreteLibs ∪
      (sampleChain [sampleEntry 8]).hashed concreteLibs) ∧
    (sampleChain [sampleEntry 7, sampleEntry 8]).headHash = (sampleChain [sampleEntry 8]).headHash ∧
    (sampleChain [sampleEntry 7, sampleEntry 8]).entries.map (·.entry) =
      [sampleEntry 7, sampleEntry 8] ∧
    (sampleChain [sampleEntry 8]).entries.map (·.entry) = [sampleEntry 8] := by
  have hsub : (sampleChain [sampleEntry 7, sampleEntry 8]).hashed concreteLibs ∪
      (sampleChain [sampleEntry 8]).hashed concreteLibs ⊆ {m | m ∈ sampleMessages} := by
    apply Set.union_subset
    · apply hashed_sampleChain
      intro e he
      rcases List.mem_cons.mp he with rfl | he
      · exact List.mem_cons_self ..
      · cases List.mem_singleton.mp he
        exact List.mem_cons_of_mem _ (List.mem_cons_self ..)
    · apply hashed_sampleChain
      intro e he
      cases List.mem_singleton.mp he
      exact List.mem_cons_of_mem _ (List.mem_cons_self ..)
  refine ⟨verify_sampleChain _, verify_sampleChain _,
    fun m hm m' hm' => sampleMessages_inj m (hsub hm) m' (hsub hm'), ?_, rfl, rfl⟩
  exact (headHash_append _ _).trans (headHash_append _ _).symm

/-! ## Who signed the entries -/

/-- `Signed key message` is that the holder of `key` signed `message`. Ed25519 accepts nothing
else. -/
def Unforgeable (libs : Libs K V) (Signed : FixedBytes 32 → Bytes → Prop) : Prop :=
  ∀ key v message signature, libs.keyFromBytes key = some v →
    libs.verify v message signature = true → Signed key message

inductive ChainAction where
  | append (entry : AuditEntry)
  | importBytes (bytes : Bytes)

def chainStep (libs : Libs K V) (chain : AuditChain K) : ChainAction → Option (AuditChain K)
  | .append entry => some (chain.append libs entry).1
  | .importBytes bytes =>
    match chain.importBytes libs bytes with
    | .ok chain' => some chain'
    | .error _ => some chain

def ImportsOwnKey (libs : Libs K V) (chain : AuditChain K) : ChainAction → Prop
  | .append _ => True
  | .importBytes bytes => ∀ imported, libs.bincode.list.decodeFront bytes = some imported →
    AuditChain.verify libs { AuditChain.new chain.signingKey with entries := imported } = .ok () →
    ∀ e ∈ imported, e.publicKey = chain.publicKey libs

theorem importBytes_eq_ok_iff {chain chain' : AuditChain K} {bytes : Bytes} :
    chain.importBytes libs bytes = .ok chain' ↔
      ∃ imported, libs.bincode.list.decodeFront bytes = some imported ∧
        AuditChain.verify libs { AuditChain.new chain.signingKey with entries := imported } =
          .ok () ∧
        chain' = { chain with entries := imported } := by
  unfold AuditChain.importBytes
  constructor
  · intro h
    split at h
    · cases h
    next imported hdecode =>
      split at h
      · cases h
      next hverify =>
        cases h
        exact ⟨imported, hdecode, hverify, rfl⟩
  · rintro ⟨imported, hdecode, hverify, rfl⟩
    simp only [hdecode, hverify]

theorem chainStep_exportBytes {chain other : AuditChain K} (hverify : other.verify libs = .ok ())
    (hgenesis : other.genesisHash = Hash.ZERO)
    (hdecode : libs.bincode.list.decodeFront (other.exportBytes libs) = some other.entries) :
    chainStep libs chain (.importBytes (other.exportBytes libs)) =
      some { chain with entries := other.entries } := by
  have himport : chain.importBytes libs (other.exportBytes libs) =
      .ok { chain with entries := other.entries } := by
    refine importBytes_eq_ok_iff.mpr ⟨other.entries, hdecode, ?_, rfl⟩
    rw [verify_eq_ok_iff] at hverify ⊢
    rw [hgenesis] at hverify
    exact hverify
  simp only [chainStep, himport]

theorem publicKey_of_chainStep {chain chain' : AuditChain K} {action : ChainAction}
    (hinv : ∀ e ∈ chain.entries, e.publicKey = chain.publicKey libs)
    (hok : ImportsOwnKey libs chain action) (hstep : chainStep libs chain action = some chain') :
    ∀ e ∈ chain'.entries, e.publicKey = chain'.publicKey libs := by
  cases action with
  | append entry =>
    cases hstep
    intro e he
    rcases List.mem_append.mp he with he | he
    · exact hinv e he
    · cases List.mem_singleton.mp he
      rfl
  | importBytes bytes =>
    simp only [chainStep] at hstep
    split at hstep
    next chain₁ himport =>
      obtain ⟨imported, hdecode, hverify, rfl⟩ := importBytes_eq_ok_iff.mp himport
      cases hstep
      exact hok imported hdecode hverify
    next => cases hstep; exact hinv

/-- **Entries are by the chain's key** in every run whose accepted imports are. -/
theorem entries_authored {Signed : FixedBytes 32 → Bytes → Prop} (hunforge : Unforgeable libs Signed)
    (key : K) {chain : AuditChain K}
    (hreach : Reaches (chainStep libs) (ImportsOwnKey libs) (AuditChain.new key) chain)
    (hverified : chain.verify libs = .ok () ∨ (ChainVerifier.verify libs chain).valid = true) :
    ∀ e ∈ chain.entries, e.publicKey = chain.publicKey libs ∧
      Signed (chain.publicKey libs) e.message := by
  have hkeys : ∀ e ∈ chain.entries, e.publicKey = chain.publicKey libs := by
    apply hreach.invariant (P := fun chain => ∀ e ∈ chain.entries, e.publicKey = chain.publicKey libs)
    · intro e he
      cases he
    · exact fun _ _ _ hinv hok hstep => publicKey_of_chainStep hinv hok hstep
  intro e he
  refine ⟨hkeys e he, ?_⟩
  have hsignature := verifySignature_of_verified hverified e he
  unfold verifySignature at hsignature
  split at hsignature
  next v hv => exact hkeys e he ▸ hunforge _ v _ _ hv hsignature
  next => cases hsignature

def oneEntry (key : FixedBytes 32) : AuditChain (FixedBytes 32) :=
  ((AuditChain.new key).append concreteLibs (sampleEntry 7)).1

theorem decode_exportBytes_oneEntry (key : FixedBytes 32) :
    concreteLibs.bincode.list.decodeFront ((oneEntry key).exportBytes concreteLibs) =
      some (oneEntry key).entries := by
  apply Codec.RoundTrips.decodeFront_encode
  apply Codec.list_roundTrips
  · show 1 < 256 ^ 8
    decide
  · intro e he
    cases List.mem_singleton.mp he
    exact signedAuditEntryCodec_roundTrips (exportable_sampleEntry 7)

theorem verify_oneEntry (key : FixedBytes 32) : (oneEntry key).verify concreteLibs = .ok () :=
  verify_append concreteLibs_signs (verify_new _) _

/-- A run that appends an entry and then imports the chain's own export. -/
theorem entries_authored_sample : (oneEntry (sampleKey 1)).entries ≠ [] ∧
    ∀ e ∈ (oneEntry (sampleKey 1)).entries, e.publicKey = sampleKey 1 ∧
      ∃ signature, concreteLibs.verify (sampleKey 1) e.message signature = true := by
  have hown : ImportsOwnKey concreteLibs (oneEntry (sampleKey 1))
      (.importBytes ((oneEntry (sampleKey 1)).exportBytes concreteLibs)) := by
    intro imported himported _ e he
    cases (decode_exportBytes_oneEntry (sampleKey 1)).symm.trans himported
    cases List.mem_singleton.mp he
    rfl
  have hreach : Reaches (chainStep concreteLibs) (ImportsOwnKey concreteLibs)
      (AuditChain.new (sampleKey 1)) (oneEntry (sampleKey 1)) :=
    .step (.step .init (a := .append (sampleEntry 7)) trivial rfl) hown
      (chainStep_exportBytes (verify_oneEntry _) rfl (decode_exportBytes_oneEntry _))
  refine ⟨List.cons_ne_nil _ _, @entries_authored _ _ concreteLibs (fun key message =>
    ∃ signature, concreteLibs.verify key message signature = true) ?_ (sampleKey 1) _ hreach
    (.inl (verify_oneEntry _))⟩
  rintro key v message signature hkey haccepted
  cases hkey
  exact ⟨signature, haccepted⟩

theorem chainVerifier_singleton {chain : AuditChain K} {e : SignedAuditEntry}
    (hentries : chain.entries = [e]) (hverify : e.verify libs = true)
    (hgenesis : e.previousHash = Hash.ZERO) : (ChainVerifier.verify libs chain).valid = true := by
  obtain ⟨hhash, hsignature⟩ := verify_iff.mp hverify
  simp [ChainVerifier.verify, ChainVerifier.entryErrors, hentries, hhash, hsignature, hgenesis]

/-- An import takes over a chain of another key, and both verifiers accept the result. -/
theorem import_accepts_foreign_key : ∃ chain,
    chainStep concreteLibs (AuditChain.new (sampleKey 1))
      (.importBytes ((oneEntry (sampleKey 2)).exportBytes concreteLibs)) = some chain ∧
    chain.verify concreteLibs = .ok () ∧
    (ChainVerifier.verify concreteLibs chain).valid = true ∧
    ∃ e ∈ chain.entries, e.publicKey ≠ chain.publicKey concreteLibs := by
  have hkeys : sampleKey 2 ≠ sampleKey 1 := by decide
  refine ⟨{ AuditChain.new (sampleKey 1) with entries := (oneEntry (sampleKey 2)).entries },
    chainStep_exportBytes (verify_oneEntry _) rfl (decode_exportBytes_oneEntry _), ?_,
    chainVerifier_singleton rfl (verify_sign concreteLibs_signs _ _ _) rfl,
    _, List.mem_singleton_self _, hkeys⟩
  have hverify := verify_oneEntry (sampleKey 2)
  rw [verify_eq_ok_iff] at hverify ⊢
  exact hverify

end Arcxa.Audit
