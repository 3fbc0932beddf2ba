import Arcxa.Lib.BTreeMap
import Arcxa.Lib.Cache

/-!
# Temporal indexes

A version of a triple has the time it is valid and the time the system knows it. Four column
families hold the versions: their data by transaction, the transaction of a version id, the version
ids of a subject and predicate in the order they came, and the current one of them; a cache holds
current versions that were looked up. The column families for the two times are written and never
read, and are left out. Values stand for their bincode bytes.
-/

namespace Arcxa.Bitemporal

/-- A `DateTime<Utc>`, in nanoseconds. -/
abbrev Time := Int

structure TransactionId where
  seq : UInt64
  timestamp : Time
  nodeId : UInt16

/-- `VersionRef`, and `TripleMetadata`, which has the same fields. -/
structure VersionRef where
  versionId : String
  subject : String
  predicate : String
  object : String
  validFrom : Time
  validTo : Option Time
  txFrom : Time
  txTo : Option Time
  txSeq : UInt64
  nodeId : UInt16
  deriving DecidableEq

namespace VersionRef

def isCurrent (v : VersionRef) : Bool := v.txTo.isNone

def isValidAt (v : VersionRef) (time : Time) : Bool :=
  decide (v.validFrom ≤ time) && v.validTo.all fun vt => decide (time < vt)

def existedAt (v : VersionRef) (time : Time) : Bool :=
  decide (v.txFrom ≤ time) && v.txTo.all fun tt => decide (time < tt)

end VersionRef

/-! ## Annotated triples -/

inductive TripleValue where
  | Uri (uri : String)
  | Literal (lit : String)
  | TypedLiteral (value datatype : String)
  | LanguageLiteral (value lang : String)

structure Annotation where
  predicate : String
  object : TripleValue

structure AnnotatedTriple where
  subject : String
  predicate : String
  object : String
  annotations : List Annotation

/-- One annotation; `parse` is `DateTime::parse_from_rfc3339`. -/
def extractTimes (parse : String → Except String Time) (times : Option Time × Option Time)
    (ann : Annotation) : Except String (Option Time × Option Time) :=
  if ann.predicate = "http://graphica.io/ontology#validFrom" then
    match ann.object with
    | .TypedLiteral value _ => (parse value).map fun t => (some t, times.2)
    | _ => .ok times
  else if ann.predicate = "http://graphica.io/ontology#validTo" then
    match ann.object with
    | .TypedLiteral value _ => (parse value).map fun t => (times.1, some t)
    -- an end that is open; any other literal is passed over
    | .Literal lit => .ok (if lit = "MAX" then (times.1, none) else times)
    | _ => .ok times
  else .ok times

def extractValidTime (parse : String → Except String Time) (triple : AnnotatedTriple) :
    Except String (Time × Option Time) :=
  match triple.annotations.foldlM (extractTimes parse) (none, none) with
  | .error e => .error e
  | .ok (some validFrom, validTo) => .ok (validFrom, validTo)
  | .ok (none, _) => .error "Missing validFrom annotation"

/-! ## Keys -/

/-- `{:0width$x}`. -/
def hexPad (width n : Nat) : List Char :=
  List.replicate (width - (Nat.toDigits 16 n).length) '0' ++ Nat.toDigits 16 n

def txKey (txId : TransactionId) (versionId : String) : String :=
  String.ofList (hexPad 16 txId.seq.toNat ++ ':' :: hexPad 4 txId.nodeId.toNat ++ [':']) ++ versionId

def spKey (subject predicate : String) : String := subject ++ "|" ++ predicate

def VersionRef.key (v : VersionRef) : String := spKey v.subject v.predicate

/-! ## The database and the cache -/

structure IndexDb where
  txIndex : BTreeMap String VersionRef
  reverseIndex : BTreeMap String String
  versionChains : BTreeMap String (List String)
  currentVersion : BTreeMap String String

def IndexDb.empty : IndexDb := ⟨.empty, .empty, .empty, .empty⟩

structure TemporalIndexes where
  db : IndexDb
  cache : Lru String VersionRef

def TemporalIndexes.new : TemporalIndexes := ⟨.empty, .empty 1000 (by decide)⟩

namespace IndexDb

variable (db : IndexDb)

def putTx (key : String) (v : VersionRef) : IndexDb := { db with txIndex := db.txIndex.insert key v }

def putReverse (versionId key : String) : IndexDb :=
  { db with reverseIndex := db.reverseIndex.insert versionId key }

def putChain (key : String) (chain : List String) : IndexDb :=
  { db with versionChains := db.versionChains.insert key chain }

def putCurrent (key versionId : String) : IndexDb :=
  { db with currentVersion := db.currentVersion.insert key versionId }

def getVersionById (versionId : String) : Option VersionRef :=
  (db.reverseIndex.get versionId).bind db.txIndex.get

def current (key : String) : Option VersionRef :=
  (db.currentVersion.get key).bind db.getVersionById

def chain (key : String) : List String := (db.versionChains.get key).getD []

end IndexDb

/-- The version that `index_version` writes. -/
def newVersion (triple : AnnotatedTriple) (versionId : String) (txId : TransactionId)
    (valid : Time × Option Time) : VersionRef where
  versionId
  subject := triple.subject
  predicate := triple.predicate
  object := triple.object
  validFrom := valid.1
  validTo := valid.2
  txFrom := txId.timestamp
  txTo := none
  txSeq := txId.seq
  nodeId := txId.nodeId

namespace TemporalIndexes

variable (ix : TemporalIndexes)

/-- `cache.lock().pop`. -/
def invalidate (key : String) : TemporalIndexes := { ix with cache := ix.cache.pop key }

/-- The writes of `index_version` and its invalidation. -/
def writeVersion (key txKey : String) (v : VersionRef) : TemporalIndexes :=
  let db := (ix.db.putTx txKey v).putReverse v.versionId txKey
  -- a chain that is not there starts empty
  let db := db.putChain key (db.chain key ++ [v.versionId])
  { ix with db := db.putCurrent key v.versionId }.invalidate key

def indexVersion (parse : String → Except String Time) (triple : AnnotatedTriple)
    (versionId : String) (txId : TransactionId) : TemporalIndexes × Except String Unit :=
  match extractValidTime parse triple with
  | .error e => (ix, .error e)
  | .ok valid =>
    (ix.writeVersion (spKey triple.subject triple.predicate) (txKey txId versionId)
      (newVersion triple versionId txId valid), .ok ())

/-- `cache.lock().get` refreshes the entry it finds. -/
def findCurrentVersion (subject predicate : String) : TemporalIndexes × Option VersionRef :=
  let key := spKey subject predicate
  match ix.cache.lookup key with
  | some cached => ({ ix with cache := ix.cache.modify key id }, some cached)
  | none =>
    match ix.db.current key with
    -- a version that is not found is not remembered
    | some version => ({ ix with cache := ix.cache.put key version }, some version)
    | none => (ix, none)

def getVersionChain (subject predicate : String) : List VersionRef :=
  ((ix.db.chain (spKey subject predicate)).filterMap ix.db.getVersionById).mergeSort
    (fun v w => v.txSeq ≤ w.txSeq)

def maxByTxSeq (versions : List VersionRef) : Option VersionRef :=
  versions.foldl (fun best v =>
    match best with
    | none => some v
    | some b => if b.txSeq ≤ v.txSeq then some v else some b) none

def findVersionAt (subject predicate : String) (validTime systemTime : Time) : Option VersionRef :=
  maxByTxSeq ((ix.getVersionChain subject predicate).filter
    fun v => v.isValidAt validTime && v.existedAt systemTime)

def supersedeVersion (versionId : String) (supersededAt : Time) :
    TemporalIndexes × Except String Unit :=
  match ix.db.reverseIndex.get versionId with
  | none => (ix, .error ("Version " ++ versionId ++ " not found in reverse index"))
  | some key =>
    match ix.db.txIndex.get key with
    | none =>
      (ix, .error ("Version " ++ versionId ++ " metadata not found in transaction index"))
    | some v =>
      ({ ix with db := ix.db.putTx key { v with txTo := some supersededAt } }.invalidate v.key,
        .ok ())

end TemporalIndexes

/-! ## The version manager -/

structure ExistingVersion where
  subject : String
  predicate : String
  object : String
  txId : String

namespace TemporalIndexes

variable (ix : TemporalIndexes)

/-- `check_supersedes`, with indexes. -/
def checkSupersedes (triple : AnnotatedTriple) : TemporalIndexes × Option ExistingVersion :=
  match ix.findCurrentVersion triple.subject triple.predicate with
  | (ix, some current) =>
    if current.object ≠ triple.object then
      -- the version is named by the number of its transaction
      (ix, some ⟨current.subject, current.predicate, current.object,
        toString current.txSeq.toNat⟩)
    else (ix, none)
  | (ix, none) => (ix, none)

/-- `close_version`. `storeOk` says whether the RDF store accepts the update, which comes first. -/
def closeVersion (existing : ExistingVersion) (closingTx : TransactionId) (storeOk : Bool) :
    TemporalIndexes × Except String Unit :=
  if !storeOk then (ix, .error "Failed to close existing version in RDF store")
  else
    match (ix.getVersionChain existing.subject existing.predicate).find?
        (fun v => toString v.txSeq.toNat == existing.txId && v.object == existing.object) with
    -- nothing in the chain fits, and that is no error
    | none => (ix, .ok ())
    | some version =>
      match ix.supersedeVersion version.versionId closingTx.timestamp with
      | (ix, .ok ()) => (ix, .ok ())
      | (ix, .error _) => (ix, .error "Failed to supersede version in indexes")

end TemporalIndexes

/-! ## Reading what was written -/

theorem length_hexPad {width n : Nat} (hwidth : 0 < width) (hn : n < 16 ^ width) :
    (hexPad width n).length = width := by
  have hle : (Nat.toDigits 16 n).length ≤ width :=
    (Nat.length_toDigits_le_iff (by decide) hwidth).mpr hn
  rw [hexPad, List.length_append, List.length_replicate]
  omega

theorem txKey_inj {txId txId' : TransactionId} {versionId versionId' : String}
    (h : txKey txId versionId = txKey txId' versionId') : versionId = versionId' := by
  -- sixteen digits, four digits and two colons
  have hlength : ∀ t : TransactionId,
      (hexPad 16 t.seq.toNat ++ ':' :: hexPad 4 t.nodeId.toNat ++ [':']).length = 22 := by
    intro t
    have hseq := length_hexPad (by decide : 0 < 16) t.seq.toNat_lt
    have hnode := length_hexPad (by decide : 0 < 4) t.nodeId.toNat_lt
    rw [List.length_append, List.length_append, List.length_cons, hseq, hnode]
    rfl
  have htoList := congrArg String.toList h
  rw [txKey, txKey, String.toList_append, String.toList_append, String.toList_ofList,
    String.toList_ofList] at htoList
  exact String.toList_injective (List.append_inj htoList ((hlength _).trans (hlength _).symm)).2

namespace IndexDb

variable (db : IndexDb)

@[simp] theorem chain_putChain (k : String) (ids : List String) (key : String) :
    (db.putChain k ids).chain key = if key = k then ids else db.chain key := by
  rw [chain, putChain, BTreeMap.get_insert]
  split_ifs <;> rfl

theorem getVersionById_putTx (k : String) (v : VersionRef) (id : String) :
    (db.putTx k v).getVersionById id =
      if db.reverseIndex.get id = some k then some v else db.getVersionById id := by
  show (db.reverseIndex.get id).bind (db.txIndex.insert k v).get =
    if db.reverseIndex.get id = some k then some v else (db.reverseIndex.get id).bind db.txIndex.get
  cases db.reverseIndex.get id with
  | none => simp
  | some k' => simp [BTreeMap.get_insert]

theorem getVersionById_putReverse (id k id' : String) :
    (db.putReverse id k).getVersionById id' =
      if id' = id then db.txIndex.get k else db.getVersionById id' := by
  show ((db.reverseIndex.insert id k).get id').bind db.txIndex.get = _
  rw [BTreeMap.get_insert]
  split_ifs <;> rfl

/-- The entry of a version id leads to that version, under a key that ends in the id. -/
structure Linked : Prop where
  key : ∀ id k, db.reverseIndex.get id = some k → ∃ txId, k = txKey txId id
  version : ∀ id k, db.reverseIndex.get id = some k →
    ∃ v, db.txIndex.get k = some v ∧ v.versionId = id

variable {db}

theorem Linked.inj (h : db.Linked) {id id' k : String} (hid : db.reverseIndex.get id = some k)
    (hid' : db.reverseIndex.get id' = some k) : id = id' := by
  obtain ⟨txId, hk⟩ := h.key id k hid
  obtain ⟨txId', hk'⟩ := h.key id' k hid'
  exact txKey_inj (hk.symm.trans hk')

theorem Linked.getVersionById_rewrite (h : db.Linked) {id k : String} (v : VersionRef)
    (hid : db.reverseIndex.get id = some k) (id' : String) :
    (db.putTx k v).getVersionById id' = if id' = id then some v else db.getVersionById id' := by
  rw [getVersionById_putTx]
  have hiff : db.reverseIndex.get id' = some k ↔ id' = id := by
    refine ⟨fun hid' => h.inj hid' hid, ?_⟩
    rintro rfl
    exact hid
  simp only [hiff]

theorem Linked.getVersionById_write (h : db.Linked) {id : String} (txId : TransactionId)
    (v : VersionRef) (hid : db.reverseIndex.get id = none) (id' : String) :
    ((db.putTx (txKey txId id) v).putReverse id (txKey txId id)).getVersionById id' =
      if id' = id then some v else db.getVersionById id' := by
  rw [getVersionById_putReverse, getVersionById_putTx]
  -- an entry that led to this key would be the one of the new id
  have hother : db.reverseIndex.get id' ≠ some (txKey txId id) := by
    intro hid'
    obtain ⟨txId', hk⟩ := h.key _ _ hid'
    rw [txKey_inj hk, hid'] at hid
    cases hid
  split_ifs
  · exact (BTreeMap.get_insert ..).trans (if_pos rfl)
  · rfl

theorem Linked.putTx (h : db.Linked) {k : String} {v : VersionRef}
    (hv : ∀ id, db.reverseIndex.get id = some k → v.versionId = id) : (db.putTx k v).Linked := by
  refine ⟨h.key, ?_⟩
  intro id k' hid
  show ∃ w, (db.txIndex.insert k v).get k' = some w ∧ w.versionId = id
  rw [BTreeMap.get_insert]
  split_ifs with hk
  · exact ⟨v, rfl, hv id (hk ▸ hid)⟩
  · exact h.version id k' hid

theorem Linked.putReverse (h : db.Linked) {id : String} {txId : TransactionId} {v : VersionRef}
    (hget : db.txIndex.get (txKey txId id) = some v) (hv : v.versionId = id) :
    (db.putReverse id (txKey txId id)).Linked := by
  constructor
  · intro id' k hid'
    rw [IndexDb.putReverse, BTreeMap.get_insert] at hid'
    split_ifs at hid' with heq
    · exact ⟨txId, heq ▸ (Option.some.inj hid').symm⟩
    · exact h.key id' k hid'
  · intro id' k hid'
    rw [IndexDb.putReverse, BTreeMap.get_insert] at hid'
    split_ifs at hid' with heq
    · exact ⟨v, Option.some.inj hid' ▸ hget, heq ▸ hv⟩
    · exact h.version id' k hid'

theorem Linked.write (h : db.Linked) (txId : TransactionId) (v : VersionRef) :
    ((db.putTx (txKey txId v.versionId) v).putReverse v.versionId
      (txKey txId v.versionId)).Linked := by
  have hlinked : (db.putTx (txKey txId v.versionId) v).Linked := by
    apply h.putTx
    intro id hid
    obtain ⟨txId', hk⟩ := h.key _ _ hid
    exact txKey_inj hk
  exact hlinked.putReverse ((BTreeMap.get_insert ..).trans (if_pos rfl)) rfl

end IndexDb

end Arcxa.Bitemporal
