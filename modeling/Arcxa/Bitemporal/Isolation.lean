import Arcxa.Bitemporal.Versions

/-!
# Facts that share a key

The chains, the current versions and the cache are keyed by one text, the subject, a `|` and the
predicate. `Keyed` says that whatever stands under a key was indexed under it; it holds after any
calls, whatever the ids of `supersede_version` are. A fact is therefore isolated from the others
(`isolated_iff`) exactly where no call indexes another fact under the same text.
-/

namespace Arcxa.Bitemporal

open TemporalIndexes

inductive IndexCall where
  | indexVersion (triple : AnnotatedTriple) (versionId : String) (txId : TransactionId)
  | supersedeVersion (versionId : String) (supersededAt : Time)
  | findCurrentVersion (subject predicate : String)

def IndexCall.indexedId : IndexCall → Option String
  | .indexVersion _ versionId _ => some versionId
  | _ => none

def indexedIds (calls : List IndexCall) : List String := calls.filterMap IndexCall.indexedId

/-- What the two lookups of a fact return is about this fact. -/
structure OnlyOf (ix : TemporalIndexes) (subject predicate : String) : Prop where
  current : ∀ v, (ix.findCurrentVersion subject predicate).2 = some v →
    v.subject = subject ∧ v.predicate = predicate
  chain : ∀ v ∈ ix.getVersionChain subject predicate, v.subject = subject ∧ v.predicate = predicate

structure SameResults (ix ix' : TemporalIndexes) (subject predicate : String) : Prop where
  current : (ix'.findCurrentVersion subject predicate).2 = (ix.findCurrentVersion subject predicate).2
  chain : ix'.getVersionChain subject predicate = ix.getVersionChain subject predicate

variable (parse : String → Except String Time)

namespace TemporalIndexes

def call (ix : TemporalIndexes) : IndexCall → TemporalIndexes
  | .indexVersion triple versionId txId => (ix.indexVersion parse triple versionId txId).1
  | .supersedeVersion versionId supersededAt => (ix.supersedeVersion versionId supersededAt).1
  | .findCurrentVersion subject predicate => (ix.findCurrentVersion subject predicate).1

def callAll (ix : TemporalIndexes) (calls : List IndexCall) : TemporalIndexes :=
  calls.foldl (call parse) ix

end TemporalIndexes

open TemporalIndexes (new)

/-- A fact is isolated in a run if every state has only its versions under it, and no other fact that
is indexed changes what is found. -/
structure Isolated (calls : List IndexCall) (subject predicate : String) : Prop where
  only : ∀ done, done <+: calls → OnlyOf (new.callAll parse done) subject predicate
  unchanged : ∀ done triple versionId txId,
    done ++ [.indexVersion triple versionId txId] <+: calls →
    (triple.subject, triple.predicate) ≠ (subject, predicate) →
    SameResults (new.callAll parse done)
      (new.callAll parse (done ++ [.indexVersion triple versionId txId])) subject predicate

/-! ## What the lookups read -/

theorem findCurrentVersion_snd (ix : TemporalIndexes) (subject predicate : String) :
    (ix.findCurrentVersion subject predicate).2 =
      (ix.cache.lookup (spKey subject predicate)).or (ix.db.current (spKey subject predicate)) := by
  rw [findCurrentVersion]
  cases ix.cache.lookup (spKey subject predicate) with
  | some cached => rfl
  | none => cases ix.db.current (spKey subject predicate) <;> rfl

variable {subject predicate : String}

theorem mem_getVersionChain {ix : TemporalIndexes} {v : VersionRef} :
    v ∈ ix.getVersionChain subject predicate ↔
      ∃ id ∈ ix.db.chain (spKey subject predicate), ix.db.getVersionById id = some v := by
  rw [getVersionChain, List.mem_mergeSort, List.mem_filterMap]

/-! ## The invariant -/

def Filed (indexed : String → String → Prop) (key : String) (v : VersionRef) : Prop :=
  v.key = key ∧ indexed v.subject v.predicate

structure Keyed (indexed : String → String → Prop) (ix : TemporalIndexes) : Prop where
  linked : ix.db.Linked
  chain : ∀ key, ∀ id ∈ ix.db.chain key,
    ∃ v, ix.db.getVersionById id = some v ∧ Filed indexed key v
  current : ∀ key id, ix.db.currentVersion.get key = some id →
    ∃ v, ix.db.getVersionById id = some v ∧ Filed indexed key v
  cached : ∀ key v, ix.cache.lookup key = some v → Filed indexed key v

theorem getVersionById_eq_none {db : IndexDb} {id : String} (h : db.reverseIndex.get id = none) :
    db.getVersionById id = none := by
  rw [IndexDb.getVersionById, h]
  rfl

section Write

variable {ix : TemporalIndexes} (v : VersionRef) (key : String)

theorem chain_writeVersion (k : String) : (ix.writeVersion key k v).db.chain key =
    ix.db.chain key ++ [v.versionId] :=
  (IndexDb.chain_putChain ..).trans (if_pos rfl)

theorem chain_writeVersion_of_ne (k : String) {key' : String} (hne : key' ≠ key) :
    (ix.writeVersion key k v).db.chain key' = ix.db.chain key' :=
  (IndexDb.chain_putChain ..).trans (if_neg hne)

theorem currentVersion_writeVersion (k key' : String) :
    (ix.writeVersion key k v).db.currentVersion.get key' =
      if key' = key then some v.versionId else ix.db.currentVersion.get key' :=
  BTreeMap.get_insert ..

theorem lookup_writeVersion (k key' : String) : (ix.writeVersion key k v).cache.lookup key' =
    if key' = key then none else ix.cache.lookup key' :=
  Lru.lookup_pop ..

theorem reverseIndex_writeVersion (k id : String) :
    (ix.writeVersion key k v).db.reverseIndex.get id =
      if id = v.versionId then some k else ix.db.reverseIndex.get id :=
  BTreeMap.get_insert ..

theorem getVersionById_writeVersion_self (k : String) :
    (ix.writeVersion key k v).db.getVersionById v.versionId = some v := by
  show ((ix.db.putTx k v).putReverse v.versionId k).getVersionById v.versionId = some v
  rw [IndexDb.getVersionById_putReverse, if_pos rfl]
  exact (BTreeMap.get_insert ..).trans (if_pos rfl)

theorem findCurrentVersion_writeVersion (k : String)
    (hkey : key = spKey subject predicate) :
    ((ix.writeVersion key k v).findCurrentVersion subject predicate).2 = some v := by
  rw [findCurrentVersion_snd, lookup_writeVersion, if_pos hkey.symm, Option.none_or,
    IndexDb.current, currentVersion_writeVersion, if_pos hkey.symm]
  exact getVersionById_writeVersion_self v key k

end Write

namespace Keyed

variable {indexed : String → String → Prop} {ix : TemporalIndexes}

theorem new : Keyed indexed TemporalIndexes.new where
  linked := ⟨nofun, nofun⟩
  chain _ _ hid := nomatch hid
  current _ _ hid := nomatch hid
  cached _ _ hv := nomatch hv

variable (h : Keyed indexed ix) {v : VersionRef}

include h

theorem db_current {key : String} (hv : ix.db.current key = some v) : Filed indexed key v := by
  obtain ⟨id, hid, hget⟩ := Option.bind_eq_some_iff.mp hv
  obtain ⟨w, hw, hfiled⟩ := h.current key id hid
  rw [hget] at hw
  exact Option.some.inj hw ▸ hfiled

variable (txId : TransactionId)

theorem getVersionById_writeVersion (hfresh : ix.db.reverseIndex.get v.versionId = none)
    (key id : String) :
    (ix.writeVersion key (txKey txId v.versionId) v).db.getVersionById id =
      if id = v.versionId then some v else ix.db.getVersionById id :=
  h.linked.getVersionById_write txId v hfresh id

theorem getVersionById_keep {v w : VersionRef} (hfresh : ix.db.reverseIndex.get v.versionId = none)
    (key : String) {id : String} (hw : ix.db.getVersionById id = some w) :
    (ix.writeVersion key (txKey txId v.versionId) v).db.getVersionById id = some w := by
  rw [h.getVersionById_writeVersion txId hfresh, if_neg, hw]
  rintro rfl
  rw [getVersionById_eq_none hfresh] at hw
  cases hw

theorem writeVersion (hfresh : ix.db.reverseIndex.get v.versionId = none)
    (hv : indexed v.subject v.predicate) :
    Keyed indexed (ix.writeVersion v.key (txKey txId v.versionId) v) := by
  constructor
  case linked =>
    have hentry := h.linked.write txId v
    exact ⟨hentry.key, hentry.version⟩
  case chain =>
    intro key id hid
    by_cases hkey : key = v.key
    · subst hkey
      rw [chain_writeVersion, List.mem_append, List.mem_singleton] at hid
      rcases hid with hold | rfl
      · obtain ⟨w, hw, hfiled⟩ := h.chain v.key id hold
        exact ⟨w, h.getVersionById_keep txId hfresh v.key hw, hfiled⟩
      · exact ⟨v, getVersionById_writeVersion_self v v.key _, rfl, hv⟩
    · rw [chain_writeVersion_of_ne v v.key _ hkey] at hid
      obtain ⟨w, hw, hfiled⟩ := h.chain key id hid
      exact ⟨w, h.getVersionById_keep txId hfresh v.key hw, hfiled⟩
  case current =>
    intro key id hid
    rw [currentVersion_writeVersion] at hid
    split_ifs at hid with hkey
    · cases hid
      exact ⟨v, getVersionById_writeVersion_self v v.key _, hkey.symm, hv⟩
    · obtain ⟨w, hw, hfiled⟩ := h.current key id hid
      exact ⟨w, h.getVersionById_keep txId hfresh v.key hw, hfiled⟩
  case cached =>
    intro key w hw
    rw [lookup_writeVersion] at hw
    split_ifs at hw
    exact h.cached key w hw

theorem supersedeVersion (versionId : String) (supersededAt : Time) :
    Keyed indexed (ix.supersedeVersion versionId supersededAt).1 := by
  rw [TemporalIndexes.supersedeVersion]
  cases hid : ix.db.reverseIndex.get versionId with
  | none => exact h
  | some k =>
    cases htx : ix.db.txIndex.get k with
    | none =>
      simp only [htx]
      exact h
    | some v =>
      simp only [htx]
      have hgetv : ix.db.getVersionById versionId = some v := by
        rw [IndexDb.getVersionById, hid]
        exact htx
      have hkeep : ∀ key id, (∃ w, ix.db.getVersionById id = some w ∧ Filed indexed key w) →
          ∃ w, (ix.db.putTx k { v with txTo := some supersededAt }).getVersionById id = some w ∧
            Filed indexed key w := by
        rintro key id ⟨w, hw, hfiled⟩
        rw [h.linked.getVersionById_rewrite _ hid]
        split_ifs with heq
        · rw [heq, hgetv] at hw
          cases hw
          exact ⟨_, rfl, hfiled⟩
        · exact ⟨w, hw, hfiled⟩
      constructor
      case linked =>
        apply h.linked.putTx
        intro id hid'
        obtain ⟨w, hw, hwid⟩ := h.linked.version id k hid'
        rw [htx] at hw
        cases hw
        exact hwid
      case chain => exact fun key id hmem => hkeep key id (h.chain key id hmem)
      case current => exact fun key id hcur => hkeep key id (h.current key id hcur)
      case cached =>
        intro key w hw
        replace hw : (ix.cache.pop v.key).lookup key = some w := hw
        rw [Lru.lookup_pop] at hw
        split_ifs at hw
        exact h.cached key w hw

theorem findCurrentVersion (subject predicate : String) :
    Keyed indexed (ix.findCurrentVersion subject predicate).1 := by
  rw [TemporalIndexes.findCurrentVersion]
  cases hlookup : ix.cache.lookup (spKey subject predicate) with
  | some cached =>
    refine { h with cached := ?_ }
    intro key v hv
    rw [Lru.lookup_modify] at hv
    split_ifs at hv with hkey
    · rw [hlookup] at hv
      cases hv
      exact hkey ▸ h.cached _ _ hlookup
    · exact h.cached key v hv
  | none =>
    cases hcurrent : ix.db.current (spKey subject predicate) with
    | none => exact h
    | some version =>
      refine { h with cached := ?_ }
      intro key v hv
      rw [Lru.lookup_put] at hv
      split_ifs at hv with hkey
      · cases hv
        exact hkey ▸ h.db_current hcurrent
      · exact h.cached key v hv

theorem sameResults (hfresh : ix.db.reverseIndex.get v.versionId = none)
    (hne : spKey subject predicate ≠ v.key) :
    SameResults ix (ix.writeVersion v.key (txKey txId v.versionId) v) subject predicate := by
  constructor
  case current =>
    have hcurrent : (ix.writeVersion v.key (txKey txId v.versionId) v).db.current
        (spKey subject predicate) = ix.db.current (spKey subject predicate) := by
      rw [IndexDb.current, IndexDb.current, currentVersion_writeVersion, if_neg hne]
      cases hid : ix.db.currentVersion.get (spKey subject predicate) with
      | none => rfl
      | some id =>
        obtain ⟨w, hw, -⟩ := h.current _ id hid
        exact (h.getVersionById_keep txId hfresh v.key hw).trans hw.symm
    rw [findCurrentVersion_snd, findCurrentVersion_snd, lookup_writeVersion, if_neg hne, hcurrent]
  case chain =>
    rw [getVersionChain, getVersionChain,
      chain_writeVersion_of_ne v v.key _ hne]
    congr 1
    refine List.filterMap_congr ?_
    intro id hid
    obtain ⟨w, hw, -⟩ := h.chain _ id hid
    exact (h.getVersionById_keep txId hfresh v.key hw).trans hw.symm

theorem onlyOf
    (hone : ∀ s p, indexed s p → spKey s p = spKey subject predicate → s = subject ∧ p = predicate) :
    OnlyOf ix subject predicate := by
  constructor
  case current =>
    intro v hv
    rw [findCurrentVersion_snd, Option.or_eq_some_iff] at hv
    have hfiled : Filed indexed (spKey subject predicate) v := by
      rcases hv with hcached | ⟨-, hdb⟩
      · exact h.cached _ v hcached
      · exact h.db_current hdb
    exact hone _ _ hfiled.2 hfiled.1
  case chain =>
    intro v hv
    obtain ⟨id, hid, hget⟩ := mem_getVersionChain.mp hv
    obtain ⟨w, hw, hfiled⟩ := h.chain _ id hid
    rw [hget] at hw
    cases hw
    exact hone _ _ hfiled.2 hfiled.1

end Keyed

/-! ## Runs -/

def Indexed (calls : List IndexCall) (subject predicate : String) : Prop :=
  ∃ triple versionId txId valid, .indexVersion triple versionId txId ∈ calls ∧
    extractValidTime parse triple = .ok valid ∧ triple.subject = subject ∧
      triple.predicate = predicate

def Fresh (ix : TemporalIndexes) (ids : List String) : Prop :=
  ∀ id ∈ ids, ix.db.reverseIndex.get id = none

variable {parse}
variable {ix : TemporalIndexes} {indexed : String → String → Prop}

theorem call_indexVersion_ok {triple : AnnotatedTriple} {valid : Time × Option Time}
    (hvalid : extractValidTime parse triple = .ok valid) (versionId : String) (txId : TransactionId) :
    ix.call parse (.indexVersion triple versionId txId) =
      ix.writeVersion (newVersion triple versionId txId valid).key (txKey txId versionId)
        (newVersion triple versionId txId valid) := by
  rw [call, indexVersion, hvalid]
  rfl

theorem call_indexVersion_error {triple : AnnotatedTriple} {e : String}
    (hvalid : extractValidTime parse triple = .error e) (versionId : String) (txId : TransactionId) :
    ix.call parse (.indexVersion triple versionId txId) = ix := by
  rw [call, indexVersion, hvalid]

theorem reverseIndex_call {call : IndexCall} {id : String} (hne : call.indexedId ≠ some id) :
    (ix.call parse call).db.reverseIndex.get id = ix.db.reverseIndex.get id := by
  cases call with
  | indexVersion triple versionId txId =>
    cases hvalid : extractValidTime parse triple with
    | error e => rw [call_indexVersion_error hvalid]
    | ok valid =>
      rw [call_indexVersion_ok hvalid, reverseIndex_writeVersion, if_neg]
      rintro rfl
      exact hne rfl
  | supersedeVersion versionId supersededAt =>
    rw [call, supersedeVersion]
    split
    · rfl
    · split <;> rfl
  | findCurrentVersion subject predicate =>
    rw [call, findCurrentVersion]
    split
    · rfl
    · split <;> rfl

theorem Keyed.call (h : Keyed indexed ix) {call : IndexCall}
    (hfresh : ∀ id, call.indexedId = some id → ix.db.reverseIndex.get id = none)
    (hcall : ∀ subject predicate, Indexed parse [call] subject predicate →
      indexed subject predicate) : Keyed indexed (ix.call parse call) := by
  cases call with
  | indexVersion triple versionId txId =>
    cases hvalid : extractValidTime parse triple with
    | error e =>
      rw [call_indexVersion_error hvalid]
      exact h
    | ok valid =>
      rw [call_indexVersion_ok hvalid]
      refine h.writeVersion txId (hfresh versionId rfl) (hcall _ _ ?_)
      exact ⟨triple, versionId, txId, valid, by simp, hvalid, rfl, rfl⟩
  | supersedeVersion versionId supersededAt => exact h.supersedeVersion versionId supersededAt
  | findCurrentVersion subject predicate => exact h.findCurrentVersion subject predicate

theorem Indexed.mono {calls calls' : List IndexCall}
    (h : Indexed parse calls subject predicate) (hsub : calls ⊆ calls') :
    Indexed parse calls' subject predicate := by
  obtain ⟨triple, versionId, txId, valid, hmem, hrest⟩ := h
  exact ⟨triple, versionId, txId, valid, hsub hmem, hrest⟩

theorem Keyed.callAll {done rest : List IndexCall} (h : Keyed indexed ix)
    (hids : (indexedIds (done ++ rest)).Nodup) (hfresh : Fresh ix (indexedIds (done ++ rest)))
    (hcalls : ∀ subject predicate, Indexed parse done subject predicate →
      indexed subject predicate) :
    Keyed indexed (ix.callAll parse done) ∧ Fresh (ix.callAll parse done) (indexedIds rest) := by
  induction done generalizing ix with
  | nil => exact ⟨h, hfresh⟩
  | cons call done ih =>
    have hsplit : indexedIds (call :: (done ++ rest)) =
        call.indexedId.toList ++ indexedIds (done ++ rest) := by
      rw [indexedIds, List.filterMap_cons]
      cases call.indexedId <;> rfl
    rw [List.cons_append, hsplit] at hids hfresh
    rw [List.nodup_append] at hids
    have hnext : Keyed indexed (ix.call parse call) := by
      apply h.call
      · intro id hid
        exact hfresh id (List.mem_append_left _ (by rw [hid]; simp))
      · intro subject predicate hone
        exact hcalls subject predicate (hone.mono (by simp))
    refine ih hnext hids.2.1 ?_ ?_
    · intro id hid
      rw [reverseIndex_call]
      · exact hfresh id (List.mem_append_right _ hid)
      · intro heq
        exact hids.2.2 id (by rw [heq]; simp) id hid rfl
    · intro subject predicate hone
      exact hcalls subject predicate (hone.mono (List.subset_cons_self call done))

/-- **A fact is isolated exactly where no other fact is indexed under its key.** -/
theorem isolated_iff (parse : String → Except String Time) (calls : List IndexCall)
    (hids : (indexedIds calls).Nodup) (subject predicate : String) :
    Isolated parse calls subject predicate ↔
      ∀ s p, Indexed parse calls s p → spKey s p = spKey subject predicate →
        s = subject ∧ p = predicate := by
  constructor
  · intro hisolated s p hindexed hkey
    obtain ⟨triple, versionId, txId, valid, hmem, hvalid, rfl, rfl⟩ := hindexed
    obtain ⟨done, rest, rfl⟩ := List.append_of_mem hmem
    have honly := hisolated.only (done ++ [.indexVersion triple versionId txId]) ⟨rest, by simp⟩
    -- right after the call the lookup finds the new version
    refine honly.current (newVersion triple versionId txId valid) ?_
    rw [callAll, List.foldl_append, List.foldl_cons, List.foldl_nil,
      call_indexVersion_ok hvalid]
    exact findCurrentVersion_writeVersion (newVersion triple versionId txId valid) _ _ hkey
  · intro hone
    have hrun : ∀ done rest, done ++ rest = calls →
        Keyed (Indexed parse calls) (new.callAll parse done) ∧
          Fresh (new.callAll parse done) (indexedIds rest) := by
      rintro done rest rfl
      refine Keyed.new.callAll hids (fun _ _ => rfl) fun s p h => h.mono (List.subset_append_left done rest)
    constructor
    case only =>
      rintro done ⟨rest, hcalls⟩
      exact (hrun done rest hcalls).1.onlyOf hone
    case unchanged =>
      rintro done triple versionId txId ⟨rest, hcalls⟩ hne
      rw [List.append_assoc] at hcalls
      obtain ⟨hkeyed, hfresh⟩ := hrun done _ hcalls
      rw [callAll, callAll, List.foldl_append, List.foldl_cons,
        List.foldl_nil]
      cases hvalid : extractValidTime parse triple with
      | error e =>
        rw [call_indexVersion_error hvalid]
        exact ⟨rfl, rfl⟩
      | ok valid =>
        rw [call_indexVersion_ok hvalid]
        refine hkeyed.sameResults txId (hfresh versionId (by simp [indexedIds, IndexCall.indexedId]))
          fun hkey => hne ?_
        have hsame := hone triple.subject triple.predicate
          ⟨triple, versionId, txId, valid, by rw [← hcalls]; simp, hvalid, rfl, rfl⟩ hkey.symm
        rw [hsame.1, hsame.2]

def indexFact (versionId subject predicate object : String) (seq : UInt64) : IndexCall :=
  .indexVersion
    { subject, predicate, object
      annotations := [⟨"http://graphica.io/ontology#validFrom",
        .TypedLiteral "2024-01-01T00:00:00Z" "http://www.w3.org/2001/XMLSchema#dateTime"⟩] }
    versionId ⟨seq, 1704067200000000000 + 1000 * seq.toNat, 1⟩

/-- The subject has a separator and no other fact has its text. -/
theorem isolated_with_separator :
    (indexedIds [indexFact "v1" "user|1" "name" "Ann" 1, .findCurrentVersion "user|1" "name",
      indexFact "v2" "user" "name" "Bob" 2, .supersedeVersion "v1" 1704067200000005000]).Nodup ∧
    Isolated parseNewYear [indexFact "v1" "user|1" "name" "Ann" 1,
      .findCurrentVersion "user|1" "name", indexFact "v2" "user" "name" "Bob" 2,
      .supersedeVersion "v1" 1704067200000005000] "user|1" "name" := by
  have hids : (indexedIds [indexFact "v1" "user|1" "name" "Ann" 1,
      .findCurrentVersion "user|1" "name", indexFact "v2" "user" "name" "Bob" 2,
      .supersedeVersion "v1" 1704067200000005000]).Nodup := by decide
  refine ⟨hids, (isolated_iff parseNewYear _ hids _ _).mpr ?_⟩
  rintro s p ⟨triple, versionId, txId, valid, hmem, -, rfl, rfl⟩ hkey
  simp only [indexFact, List.mem_cons, IndexCall.indexVersion.injEq, List.not_mem_nil, or_false,
    reduceCtorEq, false_or] at hmem
  rcases hmem with ⟨rfl, -⟩ | ⟨rfl, -⟩
  · exact ⟨rfl, rfl⟩
  · exact absurd hkey (by decide)

/-- Two facts under the text `user|1|name`. -/
theorem not_isolated_same_text : ¬ ∀ (parse : String → Except String Time) (calls : List IndexCall),
    (indexedIds calls).Nodup → ∀ subject predicate, Isolated parse calls subject predicate := by
  intro h
  have honly := (h parseNewYear [indexFact "v1" "user|1" "name" "Ann" 1] (by decide) "user"
    "1|name").only [indexFact "v1" "user|1" "name" "Ann" 1] List.prefix_rfl
  have hvalid : extractValidTime parseNewYear
      { subject := "user|1", predicate := "name", object := "Ann",
        annotations := [⟨"http://graphica.io/ontology#validFrom",
          .TypedLiteral "2024-01-01T00:00:00Z" "http://www.w3.org/2001/XMLSchema#dateTime"⟩] } =
      .ok (1704067200000000000, none) := by decide +kernel
  have hfound := (honly.current _ (by
    rw [callAll, List.foldl_cons, List.foldl_nil, indexFact,
      call_indexVersion_ok hvalid]
    exact findCurrentVersion_writeVersion _ _ _ (by decide))).1
  exact absurd hfound (by decide)

end Arcxa.Bitemporal
