import Arcxa.Audit.Chain

/-!
# The stored audit chain

`AuditStore` keeps a chain in RocksDB: the entries by index, an archive that compaction moves
old entries to, and metadata with the length of the chain. RocksDB is a map with atomic single
writes, so an operation is the list of its writes and a crash leaves a part of that list done.

`Holds` says what a database has to show for a list of entries to be read back from it. Every
write of `append` and of `compact` keeps it, for the entries before or for those after the
operation; `import` makes no write at all, and `new_with_store` does not look at what is there.
`reloads_iff` says which runs a reload gives back.
-/

namespace Arcxa.Audit

variable {K V : Type} (libs : Libs K V)

/-! ## The database -/

/-- The column families `entries` and `archive`, by index, and the keys of `metadata`. -/
structure Db where
  entries : Nat → Option Bytes
  archive : Nat → Option Bytes
  headHash : Option Hash
  chainLength : Option Nat
  genesisHash : Option Hash
  publicKey : Option (FixedBytes 32)

/-- One atomic put or delete. -/
inductive Write where
  | putEntry (index : Nat) (bytes : Bytes)
  | deleteEntry (index : Nat)
  | putArchive (index : Nat) (bytes : Bytes)
  | putHeadHash (hash : Hash)
  | putChainLength (length : Nat)
  | putGenesisHash (hash : Hash)
  | putPublicKey (key : FixedBytes 32)

namespace Db

def empty : Db := ⟨fun _ => none, fun _ => none, none, none, none, none⟩

def write (db : Db) : Write → Db
  | .putEntry index bytes => { db with entries := Function.update db.entries index (some bytes) }
  | .deleteEntry index => { db with entries := Function.update db.entries index none }
  | .putArchive index bytes => { db with archive := Function.update db.archive index (some bytes) }
  | .putHeadHash hash => { db with headHash := some hash }
  | .putChainLength length => { db with chainLength := some length }
  | .putGenesisHash hash => { db with genesisHash := some hash }
  | .putPublicKey key => { db with publicKey := some key }

def run (db : Db) (writes : List Write) : Db := writes.foldl write db

end Db

/-! ## The store -/

inductive StoreError where
  | Bincode
  | PublicKeyMismatch
  deriving DecidableEq

namespace AuditStore

/-- The writes of `append`, in order. -/
def appendWrites (index : Nat) (entry : SignedAuditEntry) : List Write :=
  [.putEntry index (libs.bincode.encode entry), .putHeadHash entry.entryHash,
    .putChainLength (index + 1)]

def fromBytes (bytes : Bytes) : Except StoreError SignedAuditEntry :=
  match libs.bincode.decodeFront bytes with
  | some entry => .ok entry
  | none => .error .Bincode

def get (db : Db) (index : Nat) : Except StoreError (Option SignedAuditEntry) :=
  match db.entries index with
  | some bytes => (fromBytes libs bytes).map some
  | none =>
    match db.archive index with
    | some bytes => (fromBytes libs bytes).map some
    | none => .ok none

def length (db : Db) : Nat := db.chainLength.getD 0

/-- The loop of `get_all` from an index on, with the rounds that are left. -/
def getFrom (db : Db) (i : Nat) : Nat → Except StoreError (List SignedAuditEntry)
  | 0 => .ok []
  | rounds + 1 => do
    let entry ← get libs db i
    let entries ← getFrom db (i + 1) rounds
    pure (entry.toList ++ entries)

def getAll (db : Db) : Except StoreError (List SignedAuditEntry) := getFrom libs db 0 (length db)

/-- The moves of the loop of `compact` from an index on, each with its two writes. -/
def moves (db : Db) (i : Nat) : Nat → List (List Write)
  | 0 => []
  | rounds + 1 =>
    match db.entries i with
    | some bytes =>
      let move := [.putArchive i bytes, .deleteEntry i]
      move :: moves (db.run move) (i + 1) rounds
    | none => moves db (i + 1) rounds

/-- The moves of `compact`; it returns how many there are. -/
def compactMoves (db : Db) (keepRecent : Nat) : List (List Write) :=
  if length db ≤ keepRecent then [] else moves db 0 (length db - keepRecent)

def compact (db : Db) (keepRecent : Nat) : Db × Nat :=
  (db.run (compactMoves db keepRecent).flatten, (compactMoves db keepRecent).length)

end AuditStore

/-! ## A chain with a store -/

/-- A chain, its store, and the entries that `append` has returned so far. -/
structure StoredChain (K : Type) where
  chain : AuditChain K
  db : Db
  returned : List SignedAuditEntry

namespace StoredChain

def newWithStore (signingKey : K) (db : Db) : StoredChain K where
  chain := AuditChain.new signingKey
  db := db.run [.putGenesisHash Hash.ZERO, .putPublicKey (libs.publicKey signingKey)]
  returned := []

def fromStore (signingKey : K) (db : Db) : Except StoreError (AuditChain K) := do
  let entries ← AuditStore.getAll libs db
  let chain := { entries, signingKey, genesisHash := db.genesisHash.getD Hash.ZERO }
  match db.publicKey with
  | some pk => if pk ≠ libs.publicKey signingKey then .error .PublicKeyMismatch else .ok chain
  | none => .ok chain

end StoredChain

inductive StoreAction where
  | append (entry : AuditEntry)
  | importBytes (bytes : Bytes)
  | compact (keepRecent : Nat)

def StoreAction.writes (s : StoredChain K) : StoreAction → List Write
  | .append entry =>
    AuditStore.appendWrites libs s.chain.entries.length (s.chain.append libs entry).2
  | .importBytes _ => []
  | .compact keepRecent => (AuditStore.compactMoves s.db keepRecent).flatten

/-- One operation. An import that fails leaves the chain as it is. -/
def storeStep (s : StoredChain K) (action : StoreAction) : StoredChain K :=
  let db := s.db.run (action.writes libs s)
  match action with
  | .append entry =>
    { chain := (s.chain.append libs entry).1
      db
      returned := s.returned ++ [(s.chain.append libs entry).2] }
  | .importBytes bytes =>
    match s.chain.importBytes libs bytes with
    | .ok chain => { s with chain, db }
    | .error _ => { s with db }
  | .compact _ => { s with db }

/-- A reload gives back a chain that verifies, with entries as `P` says. -/
def LoadsAs (key : K) (db : Db) (P : List SignedAuditEntry → Prop) : Prop :=
  ∃ chain, StoredChain.fromStore libs key db = .ok chain ∧ P chain.entries ∧
    chain.verify libs = .ok ()

def Reloads (s : StoredChain K) : Prop :=
  LoadsAs libs s.chain.signingKey s.db (· = s.chain.entries)

/-- After an operation a reload gives back the entries in memory; after a crash between two of its
writes, a prefix of the appended entries, with all whose append had returned. -/
def Mirrors (s : StoredChain K) (action : StoreAction) : Prop :=
  Reloads libs (storeStep libs s action) ∧
  ∀ k, LoadsAs libs s.chain.signingKey (s.db.run ((action.writes libs s).take k)) fun entries =>
    entries <+: (storeStep libs s action).returned ∧ s.returned ⊆ entries

def ImportsOwnEntries (s : StoredChain K) : StoreAction → Prop
  | .append _ => True
  | .importBytes bytes => ∀ imported, libs.bincode.list.decodeFront bytes = some imported →
    AuditChain.verify libs { AuditChain.new s.chain.signingKey with entries := imported } = .ok () →
    imported = s.chain.entries
  | .compact _ => True

/-! ## What is read back -/

variable {libs}

namespace Db

@[simp] theorem run_nil (db : Db) : db.run [] = db := rfl

@[simp] theorem run_cons (db : Db) (w : Write) (ws : List Write) :
    db.run (w :: ws) = (db.write w).run ws := rfl

end Db

/-- The database shows `entries` from index 0 on and nothing else below its length. -/
structure Holds (libs : Libs K V) (db : Db) (entries : List SignedAuditEntry) : Prop where
  length_le : entries.length ≤ AuditStore.length db
  get_eq : ∀ i, i < AuditStore.length db → AuditStore.get libs db i = .ok entries[i]?

variable {entries : List SignedAuditEntry} {db : Db}

namespace AuditStore

theorem getFrom_eq (rounds i : Nat)
    (hget : ∀ j, i ≤ j → j < i + rounds → get libs db j = .ok entries[j]?)
    (hlen : entries.length ≤ i + rounds) : getFrom libs db i rounds = .ok (entries.drop i) := by
  induction rounds generalizing i with
  | zero =>
    rw [List.drop_of_length_le (by omega)]
    rfl
  | succ rounds ih =>
    rw [getFrom, hget i (by omega) (by omega),
      ih (i + 1) (fun j hij hj => hget j (by omega) (by omega)) (by omega)]
    show Except.ok (entries[i]?.toList ++ entries.drop (i + 1)) = _
    congr 1
    rcases Nat.lt_or_ge i entries.length with hlt | hge
    · rw [List.getElem?_eq_getElem hlt, List.drop_eq_getElem_cons hlt]
      rfl
    · rw [List.getElem?_eq_none hge, List.drop_of_length_le hge, List.drop_of_length_le (by omega)]
      rfl

theorem getAll_of_holds (h : Holds libs db entries) :
    getAll libs db = .ok entries := by
  have hfrom : getFrom libs db 0 (length db) = .ok (entries.drop 0) := by
    apply getFrom_eq
    · intro j _ hj
      exact h.get_eq j (by omega)
    · rw [Nat.zero_add]
      exact h.length_le
  exact hfrom

theorem get_of_getFrom_nil (rounds i : Nat) (h : getFrom libs db i rounds = .ok []) :
    ∀ j, i ≤ j → j < i + rounds → get libs db j = .ok none := by
  induction rounds generalizing i with
  | zero =>
    intro j hij hj
    omega
  | succ rounds ih =>
    rw [getFrom] at h
    cases hget : get libs db i with
    | error e =>
      rw [hget] at h
      cases h
    | ok entry =>
      cases hrest : getFrom libs db (i + 1) rounds with
      | error e =>
        rw [hget, hrest] at h
        cases h
      | ok entries =>
        rw [hget, hrest] at h
        have hnil : entry.toList ++ entries = [] := Except.ok.inj h
        obtain ⟨hentry, rfl⟩ := List.append_eq_nil_iff.mp hnil
        intro j hij hj
        rcases Nat.eq_or_lt_of_le hij with rfl | hlt
        · rw [hget, Option.toList_eq_nil_iff.mp hentry]
        · exact ih (i + 1) hrest j hlt (by omega)

theorem holds_nil_iff : Holds libs db [] ↔ getAll libs db = .ok [] := by
  constructor
  · exact getAll_of_holds
  · intro h
    refine ⟨Nat.zero_le _, ?_⟩
    intro i hi
    exact get_of_getFrom_nil _ 0 h i (Nat.zero_le i) (by omega)

/-! ## Compaction -/

/-- A reload sees no difference between the databases. -/
structure SameView (libs : Libs K V) (db db' : Db) : Prop where
  get_eq : ∀ i, get libs db i = get libs db' i
  chainLength_eq : db.chainLength = db'.chainLength
  genesisHash_eq : db.genesisHash = db'.genesisHash
  publicKey_eq : db.publicKey = db'.publicKey

theorem SameView.trans {db db' db'' : Db} (h : SameView libs db db') (h' : SameView libs db' db'') :
    SameView libs db db'' where
  get_eq i := (h.get_eq i).trans (h'.get_eq i)
  chainLength_eq := h.chainLength_eq.trans h'.chainLength_eq
  genesisHash_eq := h.genesisHash_eq.trans h'.genesisHash_eq
  publicKey_eq := h.publicKey_eq.trans h'.publicKey_eq

theorem SameView.refl (db : Db) : SameView libs db db := ⟨fun _ => rfl, rfl, rfl, rfl⟩

theorem SameView.holds {db db' : Db} (h : SameView libs db db')
    (hholds : Holds libs db' entries) : Holds libs db entries := by
  have hlength : length db = length db' := by rw [length, length, h.chainLength_eq]
  constructor
  · rw [hlength]
    exact hholds.length_le
  · intro i hi
    rw [h.get_eq]
    exact hholds.get_eq i (hlength ▸ hi)

theorem sameView_putArchive {i : Nat} {bytes : Bytes} (hi : db.entries i = some bytes) :
    SameView libs (db.write (.putArchive i bytes)) db := by
  refine ⟨?_, rfl, rfl, rfl⟩
  intro j
  by_cases hj : j = i
  · subst hj
    simp only [get, Db.write, hi]
  · simp only [get, Db.write, Function.update_of_ne hj]

theorem sameView_move {i : Nat} {bytes : Bytes} (hi : db.entries i = some bytes) :
    SameView libs (db.run [.putArchive i bytes, .deleteEntry i]) db := by
  refine ⟨?_, rfl, rfl, rfl⟩
  intro j
  by_cases hj : j = i
  · subst hj
    simp [get, Db.write, hi]
  · simp [get, Db.write, Function.update_of_ne hj]

/-- **No write of `compact` changes what is read.** -/
theorem sameView_moves (db : Db) (i rounds k : Nat) :
    SameView libs (db.run ((moves db i rounds).flatten.take k)) db := by
  induction rounds generalizing db i k with
  | zero =>
    rw [moves, List.flatten_nil, List.take_nil]
    exact .refl db
  | succ rounds ih =>
    unfold moves
    split
    next bytes hi =>
      -- nothing done, the copy made, the copy made and the entry deleted
      rcases k with _ | _ | k
      · exact .refl db
      · exact sameView_putArchive hi
      · exact (ih _ (i + 1) k).trans (sameView_move hi)
    next => exact ih db (i + 1) k

theorem sameView_compactMoves (db : Db) (keepRecent k : Nat) :
    SameView libs (db.run ((compactMoves db keepRecent).flatten.take k)) db := by
  unfold compactMoves
  split_ifs
  · rw [List.flatten_nil, List.take_nil]
    exact .refl db
  · exact sameView_moves db 0 _ k

/-! ## Appending -/

variable {entry : SignedAuditEntry}

variable (hentry : libs.bincode.RoundTrips entry)

include hentry

theorem get_putEntry (index i : Nat) :
    get libs (db.write (.putEntry index (libs.bincode.encode entry))) i =
      if i = index then .ok (some entry) else get libs db i := by
  by_cases hi : i = index
  · subst hi
    simp only [if_true, get, Db.write, Function.update_self, fromBytes, hentry.decodeFront_encode]
    rfl
  · simp only [if_neg hi, get, Db.write, Function.update_of_ne hi]

theorem holds_putEntry (h : Holds libs db entries) :
    Holds libs (db.write (.putEntry entries.length (libs.bincode.encode entry))) entries ∨
    Holds libs (db.write (.putEntry entries.length (libs.bincode.encode entry)))
      (entries ++ [entry]) := by
  rcases Nat.eq_or_lt_of_le h.length_le with heq | hlt
  · refine .inl ⟨h.length_le, ?_⟩
    intro i hi
    have hne : i ≠ entries.length := by
      have : i < length db := hi
      omega
    rw [get_putEntry hentry, if_neg hne]
    exact h.get_eq i hi
  · refine .inr ⟨?_, ?_⟩
    · rw [List.length_append]
      exact hlt
    · intro i hi
      rw [get_putEntry hentry]
      split_ifs with heq
      · rw [heq, List.getElem?_concat_length]
      · rw [h.get_eq i hi]
        rcases Nat.lt_or_ge i entries.length with hin | hout
        · rw [List.getElem?_append_left hin]
        · have hpast : (entries ++ [entry]).length ≤ i := by
            rw [List.length_append, List.length_singleton]
            omega
          rw [List.getElem?_eq_none hout, List.getElem?_eq_none hpast]

theorem holds_appendWrites (h : Holds libs db entries) :
    Holds libs (db.run (appendWrites libs entries.length entry)) (entries ++ [entry]) := by
  constructor
  · rw [List.length_append]
    exact le_refl _
  · intro i hi
    have hlt : i < entries.length + 1 := hi
    show get libs (db.write (.putEntry entries.length (libs.bincode.encode entry))) i = _
    rw [get_putEntry hentry]
    split_ifs with heq
    · rw [heq, List.getElem?_concat_length]
    · have hin : i < entries.length := by omega
      rw [h.get_eq i (Nat.lt_of_lt_of_le hin h.length_le), List.getElem?_append_left hin]

/-- **A crash inside `append`** leaves the entries before it or those after it. -/
theorem holds_take_appendWrites (h : Holds libs db entries) (k : Nat) :
    Holds libs (db.run ((appendWrites libs entries.length entry).take k)) entries ∨
    Holds libs (db.run ((appendWrites libs entries.length entry).take k)) (entries ++ [entry]) := by
  rcases k with _ | _ | _ | k
  · exact .inl h
  · exact holds_putEntry hentry h
  · -- the head hash is not read back
    exact (holds_putEntry hentry h).imp (fun h => ⟨h.length_le, h.get_eq⟩)
      (fun h => ⟨h.length_le, h.get_eq⟩)
  · rw [List.take_of_length_le (by simp [appendWrites])]
    exact .inr (holds_appendWrites hentry h)

end AuditStore

/-! ## Runs -/

/-- The database of a chain with the given key. -/
structure OwnedBy (libs : Libs K V) (key : K) (db : Db) : Prop where
  genesisHash_eq : db.genesisHash = some Hash.ZERO
  publicKey_eq : db.publicKey = some (libs.publicKey key)

/-- The store shows the entries in memory, which are the appended ones and verify. -/
structure StoredChain.Inv (libs : Libs K V) (s : StoredChain K) : Prop where
  owned : OwnedBy libs s.chain.signingKey s.db
  genesisHash_eq : s.chain.genesisHash = Hash.ZERO
  holds : Holds libs s.db s.chain.entries
  verify_eq : s.chain.verify libs = .ok ()
  returned_eq : s.returned = s.chain.entries

open AuditStore

theorem fromStore_of_owned {key : K} (howned : OwnedBy libs key db) :
    StoredChain.fromStore libs key db =
      (AuditStore.getAll libs db).map fun entries => ⟨entries, key, Hash.ZERO⟩ := by
  unfold StoredChain.fromStore
  rw [howned.genesisHash_eq, howned.publicKey_eq]
  cases getAll libs db with
  | error e => rfl
  | ok entries =>
    show (if libs.publicKey key ≠ libs.publicKey key then _ else _) = _
    rw [if_neg (not_not_intro rfl)]
    rfl

theorem loadsAs_of_holds {key : K}
    {P : List SignedAuditEntry → Prop} (howned : OwnedBy libs key db)
    (hholds : Holds libs db entries)
    (hverify : (⟨entries, key, Hash.ZERO⟩ : AuditChain K).verify libs = .ok ()) (hP : P entries) :
    LoadsAs libs key db P := by
  refine ⟨⟨entries, key, Hash.ZERO⟩, ?_, hP, hverify⟩
  rw [fromStore_of_owned howned, getAll_of_holds hholds]
  rfl

variable {s : StoredChain K}

theorem StoredChain.Inv.reloads (h : s.Inv libs) : Reloads libs s := by
  refine loadsAs_of_holds h.owned h.holds ?_ rfl
  rw [← h.genesisHash_eq]
  exact h.verify_eq

theorem ownedBy_run_take {key : K} (howned : OwnedBy libs key s.db)
    (action : StoreAction) (k : Nat) :
    OwnedBy libs key (s.db.run ((action.writes libs s).take k)) := by
  cases action with
  | append entry =>
    rcases k with _ | _ | _ | k
    · exact howned
    · exact ⟨howned.genesisHash_eq, howned.publicKey_eq⟩
    · exact ⟨howned.genesisHash_eq, howned.publicKey_eq⟩
    · rw [List.take_of_length_le (by simp [StoreAction.writes, appendWrites])]
      exact ⟨howned.genesisHash_eq, howned.publicKey_eq⟩
  | importBytes bytes =>
    rw [StoreAction.writes, List.take_nil]
    exact howned
  | compact keepRecent =>
    have hview : AuditStore.SameView libs _ s.db :=
      sameView_compactMoves s.db keepRecent k
    exact ⟨hview.genesisHash_eq.trans howned.genesisHash_eq,
      hview.publicKey_eq.trans howned.publicKey_eq⟩

theorem ownedBy_run {key : K} (howned : OwnedBy libs key s.db)
    (action : StoreAction) : OwnedBy libs key (s.db.run (action.writes libs s)) := by
  have h := ownedBy_run_take howned action (action.writes libs s).length
  rw [List.take_length] at h
  exact h

variable {action : StoreAction}

/-- **A careful operation keeps the store in step with the chain.** -/
theorem inv_storeStep (hsigns : libs.Signs)
    (hinv : s.Inv libs)
    (hbytes : ∀ entry, action = .append entry →
      libs.bincode.RoundTrips (s.chain.append libs entry).2)
    (hok : ImportsOwnEntries libs s action) : (storeStep libs s action).Inv libs := by
  have howned := ownedBy_run hinv.owned action
  cases action with
  | append entry =>
    refine ⟨howned, hinv.genesisHash_eq, ?_, verify_append hsigns hinv.verify_eq entry, ?_⟩
    · exact holds_appendWrites (hbytes entry rfl) hinv.holds
    · show s.returned ++ _ = s.chain.entries ++ _
      rw [hinv.returned_eq]
      rfl
  | importBytes bytes =>
    simp only [storeStep]
    split
    next chain himport =>
      obtain ⟨imported, hdecode, hverify, rfl⟩ := importBytes_eq_ok_iff.mp himport
      cases hok imported hdecode hverify
      exact ⟨howned, hinv.genesisHash_eq, hinv.holds, hinv.verify_eq, hinv.returned_eq⟩
    next => exact ⟨howned, hinv.genesisHash_eq, hinv.holds, hinv.verify_eq, hinv.returned_eq⟩
  | compact keepRecent =>
    have hview : AuditStore.SameView libs _ s.db := sameView_compactMoves s.db keepRecent
      (compactMoves s.db keepRecent).flatten.length
    rw [List.take_length] at hview
    exact ⟨howned, hinv.genesisHash_eq, hview.holds hinv.holds, hinv.verify_eq, hinv.returned_eq⟩

/-- **A crash inside a careful operation** leaves a prefix of the appended entries. -/
theorem loadsAs_crash (hsigns : libs.Signs)
    (hinv : s.Inv libs)
    (hbytes : ∀ entry, action = .append entry →
      libs.bincode.RoundTrips (s.chain.append libs entry).2) (k : Nat) :
    LoadsAs libs s.chain.signingKey (s.db.run ((action.writes libs s).take k)) fun entries =>
      entries <+: (storeStep libs s action).returned ∧ s.returned ⊆ entries := by
  have howned := ownedBy_run_take hinv.owned action k
  have hsame : (⟨s.chain.entries, s.chain.signingKey, Hash.ZERO⟩ : AuditChain K) = s.chain := by
    rw [← hinv.genesisHash_eq]
  -- the entries before the operation are a prefix that holds what had returned
  have hbefore : Holds libs (s.db.run ((action.writes libs s).take k)) s.chain.entries →
      s.returned <+: (storeStep libs s action).returned → LoadsAs libs s.chain.signingKey
        (s.db.run ((action.writes libs s).take k)) fun entries =>
          entries <+: (storeStep libs s action).returned ∧ s.returned ⊆ entries := by
    intro hholds hsub
    refine loadsAs_of_holds howned hholds ?_ ?_
    · rw [hsame]
      exact hinv.verify_eq
    · rw [hinv.returned_eq] at hsub ⊢
      exact ⟨hsub, List.Subset.refl _⟩
  cases action with
  | append entry =>
    rcases holds_take_appendWrites (hbytes entry rfl) hinv.holds k with hold | hnew
    · exact hbefore hold (List.prefix_append _ _)
    · refine loadsAs_of_holds howned hnew ?_ ⟨?_, ?_⟩
      · have hverify := verify_append hsigns hinv.verify_eq entry
        rw [← hinv.genesisHash_eq]
        exact hverify
      · show _ <+: s.returned ++ _
        rw [hinv.returned_eq]
      · rw [hinv.returned_eq]
        exact List.subset_append_left _ _
  | importBytes bytes =>
    apply hbefore
    · rw [StoreAction.writes, List.take_nil]
      exact hinv.holds
    · simp only [storeStep]
      split <;> exact List.prefix_refl _
  | compact keepRecent =>
    apply hbefore
    · exact (sameView_compactMoves s.db keepRecent k).holds hinv.holds
    · exact List.prefix_refl _

theorem importsOwnEntries_of_reloads (hinv : s.Inv libs)
    (h : Reloads libs (storeStep libs s action)) : ImportsOwnEntries libs s action := by
  cases action with
  | append entry => trivial
  | compact keepRecent => trivial
  | importBytes bytes =>
    intro imported hdecode hverify
    have himport : s.chain.importBytes libs bytes = .ok { s.chain with entries := imported } :=
      importBytes_eq_ok_iff.mpr ⟨imported, hdecode, hverify, rfl⟩
    simp only [storeStep, himport] at h
    obtain ⟨chain, hchain, hentries, -⟩ := h
    -- the database is the one from before the import
    rw [show s.db.run (StoreAction.writes libs s (.importBytes bytes)) = s.db from rfl,
      fromStore_of_owned hinv.owned, getAll_of_holds hinv.holds] at hchain
    cases hchain
    exact hentries.symm

theorem reloads_newWithStore_iff (key : K) (db : Db) :
    Reloads libs (StoredChain.newWithStore libs key db) ↔ AuditStore.getAll libs db = .ok [] := by
  have howned : OwnedBy libs key (StoredChain.newWithStore libs key db).db := ⟨rfl, rfl⟩
  rw [← holds_nil_iff]
  constructor
  · rintro ⟨chain, hchain, hentries, -⟩
    rw [show (StoredChain.newWithStore libs key db).chain.signingKey = key from rfl,
      fromStore_of_owned howned] at hchain
    cases hall : getAll libs (StoredChain.newWithStore libs key db).db with
    | error e =>
      rw [hall] at hchain
      cases hchain
    | ok entries =>
      rw [hall] at hchain
      cases hchain
      have hnil : entries = [] := hentries
      rw [hnil, ← holds_nil_iff] at hall
      exact ⟨hall.length_le, hall.get_eq⟩
  · intro hholds
    exact loadsAs_of_holds howned ⟨hholds.length_le, hholds.get_eq⟩ rfl rfl

theorem inv_newWithStore {key : K} (h : AuditStore.getAll libs db = .ok []) :
    (StoredChain.newWithStore libs key db).Inv libs := by
  have hholds := holds_nil_iff.mpr h
  exact ⟨⟨rfl, rfl⟩, rfl, ⟨hholds.length_le, hholds.get_eq⟩, rfl, rfl⟩

theorem signingKey_storeStep (s : StoredChain K) (action : StoreAction) :
    (storeStep libs s action).chain.signingKey = s.chain.signingKey := by
  cases action with
  | append entry => rfl
  | compact keepRecent => rfl
  | importBytes bytes =>
    simp only [storeStep]
    split
    next chain himport =>
      obtain ⟨imported, -, -, rfl⟩ := importBytes_eq_ok_iff.mp himport
      rfl
    next => rfl

theorem mirrors_iff (hsigns : libs.Signs)
    (hinv : s.Inv libs)
    (hbytes : ∀ entry, action = .append entry →
      libs.bincode.RoundTrips (s.chain.append libs entry).2) :
    Mirrors libs s action ↔ ImportsOwnEntries libs s action := by
  constructor
  · intro h
    exact importsOwnEntries_of_reloads hinv h.1
  · intro hok
    exact ⟨(inv_storeStep hsigns hinv hbytes hok).reloads, loadsAs_crash hsigns hinv hbytes⟩

/-- **The store mirrors the chain** in exactly the runs that start in a directory without entries
and whose accepted imports bring the entries that are already there. -/
theorem reloads_iff (hsigns : libs.Signs) (key : K) (db : Db) (actions : List StoreAction)
    (hbytes : ∀ entry, .append entry ∈ actions → ∀ previousHash,
      libs.bincode.RoundTrips (entry.sign libs key previousHash)) :
    (Reloads libs (StoredChain.newWithStore libs key db) ∧
      OkAlong (fun s a => some (storeStep libs s a)) (Mirrors libs)
        (StoredChain.newWithStore libs key db) actions) ↔
    (AuditStore.getAll libs db = .ok [] ∧
      OkAlong (fun s a => some (storeStep libs s a)) (ImportsOwnEntries libs)
        (StoredChain.newWithStore libs key db) actions) := by
  rw [reloads_newWithStore_iff]
  apply and_congr_right
  intro hempty
  refine okAlong_congr_mem (I := fun s => s.Inv libs ∧ s.chain.signingKey = key) ?_
    ⟨inv_newWithStore hempty, rfl⟩ (exec_total (storeStep libs) _ actions)
  rintro s action haction s' ⟨hinv, hkey⟩ hstep
  cases hstep
  have hsigned : ∀ entry, action = .append entry →
      libs.bincode.RoundTrips (s.chain.append libs entry).2 := by
    rintro entry rfl
    show libs.bincode.RoundTrips (entry.sign libs s.chain.signingKey _)
    rw [hkey]
    exact hbytes entry haction _
  refine ⟨mirrors_iff hsigns hinv hsigned, ?_⟩
  intro hmirrors
  have hok := importsOwnEntries_of_reloads hinv hmirrors.1
  exact ⟨inv_storeStep hsigns hinv hsigned hok, (signingKey_storeStep s action).trans hkey⟩

theorem roundTrips_sample (seq : UInt64) (key : FixedBytes 32) (previousHash : Hash) :
    concreteLibs.bincode.RoundTrips ((sampleEntry seq).sign concreteLibs key previousHash) :=
  signedAuditEntryCodec_roundTrips (exportable_sampleEntry seq)

theorem getAll_empty : AuditStore.getAll concreteLibs Db.empty = .ok [] := rfl

/-- Append, import of the own export, and compaction of everything: a reload gives the entry back. -/
theorem reloads_iff_sample :
    Reloads concreteLibs (StoredChain.newWithStore concreteLibs (sampleKey 1) Db.empty) ∧
    OkAlong (fun s a => some (storeStep concreteLibs s a)) (Mirrors concreteLibs)
      (StoredChain.newWithStore concreteLibs (sampleKey 1) Db.empty)
      [.append (sampleEntry 7),
        .importBytes ((oneEntry (sampleKey 1)).exportBytes concreteLibs), .compact 0] := by
  refine (reloads_iff concreteLibs_signs (sampleKey 1) Db.empty _ ?_).mpr ⟨getAll_empty, ?_⟩
  · intro entry hmem previousHash
    simp only [List.mem_cons, StoreAction.append.injEq, reduceCtorEq, List.not_mem_nil, or_false]
      at hmem
    rw [hmem]
    exact roundTrips_sample 7 _ _
  · rw [okAlong_cons_total, okAlong_cons_total, okAlong_cons_total]
    refine ⟨trivial, ?_, trivial, trivial⟩
    intro imported hdecode _
    rw [decode_exportBytes_oneEntry] at hdecode
    exact (Option.some.inj hdecode).symm

/-- An import of the empty chain over a chain with one entry is not in the store. -/
theorem import_not_stored :
    Reloads concreteLibs (StoredChain.newWithStore concreteLibs (sampleKey 1) Db.empty) ∧
    ¬ OkAlong (fun s a => some (storeStep concreteLibs s a)) (Mirrors concreteLibs)
      (StoredChain.newWithStore concreteLibs (sampleKey 1) Db.empty)
      [.append (sampleEntry 7),
        .importBytes ((AuditChain.new (sampleKey 1)).exportBytes concreteLibs)] := by
  refine ⟨(reloads_newWithStore_iff _ _).mpr getAll_empty, ?_⟩
  rw [okAlong_cons_total, okAlong_cons_total]
  rintro ⟨-, hmirrors, -⟩
  have hinv : (storeStep concreteLibs (StoredChain.newWithStore concreteLibs (sampleKey 1) Db.empty)
      (.append (sampleEntry 7))).Inv concreteLibs := by
    apply inv_storeStep concreteLibs_signs (inv_newWithStore getAll_empty)
    · intro entry hentry
      cases hentry
      exact roundTrips_sample 7 _ _
    · trivial
  have hempty := importsOwnEntries_of_reloads hinv hmirrors.1 [] (by decide +kernel) rfl
  cases hempty

end Arcxa.Audit
