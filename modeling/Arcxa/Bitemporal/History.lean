import Arcxa.Bitemporal.Indexes
import Arcxa.Lib.Text

/-!
# Histories

What the indexes are for: every subject and predicate has its versions in the order of their
transactions. `Represents` says that the column families and the cache hold given histories. A
lookup then reads the last version of its history (`Represents.findCurrentVersion`), a version chain
is the history itself (`Represents.getVersionChain`), `index_version` appends to the history
(`Represents.writeVersion`) and `close_version` closes its last version
(`Represents.closeVersion`).
-/

namespace Arcxa.Bitemporal

abbrev Histories := String → List VersionRef

def VersionRef.close (v : VersionRef) (time : Time) : VersionRef := { v with txTo := some time }

def closeLast (time : Time) (l : List VersionRef) : List VersionRef :=
  l.dropLast ++ (l.getLast?.map (·.close time)).toList

@[simp] theorem closeLast_concat (time : Time) (front : List VersionRef) (last : VersionRef) :
    closeLast time (front ++ [last]) = front ++ [last.close time] := by
  simp [closeLast]

/-- The column families hold this history under the key. -/
structure Shown (db : IndexDb) (key : String) (l : List VersionRef) : Prop where
  chain : db.chain key = l.map (·.versionId)
  current : db.currentVersion.get key = l.getLast?.map (·.versionId)
  found : ∀ v ∈ l, db.getVersionById v.versionId = some v
  key : ∀ v ∈ l, v.key = key
  increasing : l.Pairwise fun v w => v.txSeq < w.txSeq

structure Represents (ix : TemporalIndexes) (h : Histories) : Prop where
  shown : ∀ key, Shown ix.db key (h key)
  cached : ∀ key v, ix.cache.lookup key = some v → (h key).getLast? = some v
  linked : ix.db.Linked
  known : ∀ id k, ix.db.reverseIndex.get id = some k → ∃ key, ∃ v ∈ h key, v.versionId = id

theorem represents_new : Represents .new (fun _ => []) where
  shown _ := ⟨rfl, rfl, nofun, nofun, .nil⟩
  cached _ _ hv := nomatch hv
  linked := ⟨nofun, nofun⟩
  known := nofun

/-! ## One history -/

namespace Shown

variable {db db' : IndexDb} {key : String} {l front : List VersionRef} {v last : VersionRef}

theorem congr (hs : Shown db key l) (hchain : db'.chain key = db.chain key)
    (hcurrent : db'.currentVersion.get key = db.currentVersion.get key)
    (hget : ∀ w ∈ l, db'.getVersionById w.versionId = db.getVersionById w.versionId) :
    Shown db' key l :=
  ⟨hchain.trans hs.chain, hcurrent.trans hs.current,
    fun w hw => (hget w hw).trans (hs.found w hw), hs.key, hs.increasing⟩

theorem concat (hs : Shown db key l) (hchain : db'.chain key = db.chain key ++ [v.versionId])
    (hcurrent : db'.currentVersion.get key = some v.versionId)
    (hget : ∀ w ∈ l, db'.getVersionById w.versionId = db.getVersionById w.versionId)
    (hv : db'.getVersionById v.versionId = some v) (hkey : v.key = key)
    (hlater : ∀ w ∈ l, w.txSeq < v.txSeq) : Shown db' key (l ++ [v]) := by
  constructor
  case chain =>
    rw [hchain, hs.chain, List.map_append]
    rfl
  case current =>
    rw [hcurrent, List.getLast?_concat]
    rfl
  case found =>
    intro w hw
    rw [List.mem_append, List.mem_singleton] at hw
    rcases hw with hw | rfl
    · exact (hget w hw).trans (hs.found w hw)
    · exact hv
  case key =>
    intro w hw
    rw [List.mem_append, List.mem_singleton] at hw
    rcases hw with hw | rfl
    · exact hs.key w hw
    · exact hkey
  case increasing =>
    rw [List.pairwise_append]
    refine ⟨hs.increasing, List.pairwise_singleton _ _, ?_⟩
    intro w hw v' hv'
    rw [List.mem_singleton] at hv'
    exact hv' ▸ hlater w hw

theorem close (hs : Shown db key (front ++ [last])) (time : Time)
    (hchain : db'.chain key = db.chain key)
    (hcurrent : db'.currentVersion.get key = db.currentVersion.get key)
    (hget : ∀ w ∈ front, db'.getVersionById w.versionId = db.getVersionById w.versionId)
    (hlast : db'.getVersionById last.versionId = some (last.close time)) :
    Shown db' key (front ++ [last.close time]) := by
  have hpair := hs.increasing
  rw [List.pairwise_append] at hpair
  constructor
  case chain =>
    rw [hchain, hs.chain, List.map_append, List.map_append]
    rfl
  case current =>
    rw [hcurrent, hs.current, List.getLast?_concat, List.getLast?_concat]
    rfl
  case found =>
    intro w hw
    rw [List.mem_append, List.mem_singleton] at hw
    rcases hw with hw | rfl
    · exact (hget w hw).trans (hs.found w (List.mem_append_left _ hw))
    · exact hlast
  case key =>
    intro w hw
    rw [List.mem_append, List.mem_singleton] at hw
    rcases hw with hw | rfl
    · exact hs.key w (List.mem_append_left _ hw)
    · exact hs.key last (by simp)
  case increasing =>
    rw [List.pairwise_append]
    refine ⟨hpair.1, List.pairwise_singleton _ _, ?_⟩
    intro w hw v hv
    rw [List.mem_singleton] at hv
    exact hv ▸ hpair.2.2 w hw last (List.mem_singleton_self last)

theorem ne_last (hs : Shown db key (front ++ [last])) (hv : v ∈ front) :
    v.versionId ≠ last.versionId := by
  intro heq
  have hfound := hs.found v (List.mem_append_left _ hv)
  rw [heq, hs.found last (by simp)] at hfound
  have hpair := hs.increasing
  rw [List.pairwise_append] at hpair
  have hlt := hpair.2.2 v hv last (List.mem_singleton_self last)
  rw [Option.some.inj hfound] at hlt
  exact absurd hlt (UInt64.lt_irrefl _)

end Shown

/-! ## All histories -/

namespace Represents

variable {ix : TemporalIndexes} {h : Histories}

variable (hr : Represents ix h)

include hr

theorem getVersionChain (subject predicate : String) :
    ix.getVersionChain subject predicate = h (spKey subject predicate) := by
  have hread : ((h (spKey subject predicate)).map (·.versionId)).filterMap ix.db.getVersionById =
      h (spKey subject predicate) := by
    rw [List.filterMap_map]
    calc (h (spKey subject predicate)).filterMap (ix.db.getVersionById ∘ (·.versionId))
        = (h (spKey subject predicate)).filterMap some :=
          List.filterMap_congr (hr.shown (spKey subject predicate)).found
      _ = h (spKey subject predicate) := List.filterMap_some
  rw [TemporalIndexes.getVersionChain, (hr.shown _).chain, hread]
  -- the chain is in order, so the sort has nothing to do
  apply List.mergeSort_of_pairwise
  refine (hr.shown (spKey subject predicate)).increasing.imp ?_
  intro v w hlt
  exact decide_eq_true (UInt64.le_of_lt hlt)

theorem db_current (key : String) : ix.db.current key = (h key).getLast? := by
  rw [IndexDb.current, (hr.shown key).current]
  cases hlast : (h key).getLast? with
  | none => rfl
  | some last => exact (hr.shown key).found last (List.mem_of_getLast? hlast)

theorem withCache {cache : Lru String VersionRef}
    (hcached : ∀ key v, cache.lookup key = some v → (h key).getLast? = some v) :
    Represents { ix with cache } h :=
  { hr with cached := hcached }

theorem findCurrentVersion (subject predicate : String) :
    (ix.findCurrentVersion subject predicate).2 = (h (spKey subject predicate)).getLast? ∧
      Represents (ix.findCurrentVersion subject predicate).1 h := by
  rw [TemporalIndexes.findCurrentVersion]
  -- an entry of the cache is the last version; a miss reads it and puts it there
  cases hlookup : ix.cache.lookup (spKey subject predicate) with
  | some cached =>
    refine ⟨(hr.cached _ _ hlookup).symm, hr.withCache ?_⟩
    intro key v hv
    rw [Lru.lookup_modify] at hv
    split_ifs at hv with hkey
    · rw [hlookup] at hv
      rw [hkey, ← hv]
      exact hr.cached _ _ hlookup
    · exact hr.cached key v hv
  | none =>
    simp only [hr.db_current]
    cases hlast : (h (spKey subject predicate)).getLast? with
    | none => exact ⟨rfl, hr⟩
    | some version =>
      refine ⟨rfl, hr.withCache ?_⟩
      intro key v hv
      rw [Lru.lookup_put] at hv
      split_ifs at hv with hkey
      · rw [hkey, hlast, ← hv]
      · exact hr.cached key v hv

theorem cached_pop {key : String} {l : List VersionRef} (key' : String) (v : VersionRef)
    (hv : (ix.cache.pop key).lookup key' = some v) :
    (Function.update h key l key').getLast? = some v := by
  rw [Lru.lookup_pop] at hv
  split_ifs at hv with hkey
  rw [Function.update_of_ne hkey]
  exact hr.cached key' v hv

/-- What `index_version` writes for a version that starts later than every other of its history,
under an id that no version has. -/
theorem writeVersion {v : VersionRef} (txId : TransactionId)
    (hlater : ∀ w ∈ h v.key, w.txSeq < v.txSeq)
    (hfresh : ∀ key, ∀ w ∈ h key, w.versionId ≠ v.versionId) :
    Represents (ix.writeVersion v.key (txKey txId v.versionId) v)
      (Function.update h v.key (h v.key ++ [v])) := by
  -- every id with an entry is the id of a version in some history
  have hnone : ix.db.reverseIndex.get v.versionId = none := by
    by_contra hsome
    obtain ⟨k, hk⟩ := Option.ne_none_iff_exists'.mp hsome
    obtain ⟨key, w, hw, hid⟩ := hr.known _ _ hk
    exact hfresh key w hw hid
  have hget : ∀ id, (ix.writeVersion v.key (txKey txId v.versionId) v).db.getVersionById id =
      if id = v.versionId then some v else ix.db.getVersionById id :=
    hr.linked.getVersionById_write txId v hnone
  have hold : ∀ key, ∀ w ∈ h key, (ix.writeVersion v.key (txKey txId v.versionId)
      v).db.getVersionById w.versionId = ix.db.getVersionById w.versionId :=
    fun key w hw => (hget w.versionId).trans (if_neg (hfresh key w hw))
  have hchain : ∀ key, (ix.writeVersion v.key (txKey txId v.versionId) v).db.chain key =
      if key = v.key then ix.db.chain v.key ++ [v.versionId] else ix.db.chain key :=
    fun key => IndexDb.chain_putChain ..
  have hcurrent : ∀ key, (ix.writeVersion v.key (txKey txId v.versionId)
      v).db.currentVersion.get key =
        if key = v.key then some v.versionId else ix.db.currentVersion.get key :=
    fun key => BTreeMap.get_insert ..
  constructor
  case shown =>
    rw [Function.forall_update_iff h (p := Shown _)]
    constructor
    · exact (hr.shown v.key).concat ((hchain _).trans (if_pos rfl)) ((hcurrent _).trans (if_pos rfl))
        (hold v.key) ((hget _).trans (if_pos rfl)) rfl hlater
    · intro key hne
      exact (hr.shown key).congr ((hchain key).trans (if_neg hne))
        ((hcurrent key).trans (if_neg hne)) (hold key)
  case cached => exact hr.cached_pop
  case linked =>
    have hentry := hr.linked.write txId v
    exact ⟨hentry.key, hentry.version⟩
  case known =>
    intro id k hid
    have hinsert : (ix.db.reverseIndex.insert v.versionId (txKey txId v.versionId)).get id =
        some k := hid
    rw [BTreeMap.get_insert] at hinsert
    split_ifs at hinsert with hv
    · exact ⟨v.key, v, by simp, hv.symm⟩
    · obtain ⟨key, w, hw, hwid⟩ := hr.known id k hinsert
      refine ⟨key, w, ?_, hwid⟩
      rw [Function.update_apply]
      split_ifs with hkey
      · exact List.mem_append_left _ (hkey ▸ hw)
      · exact hw

theorem supersedeVersion {key : String} {front : List VersionRef} {last : VersionRef}
    (hlast : h key = front ++ [last]) (time : Time) :
    (ix.supersedeVersion last.versionId time).2 = .ok () ∧
      Represents (ix.supersedeVersion last.versionId time).1
        (Function.update h key (front ++ [last.close time])) := by
  have hshown : Shown ix.db key (front ++ [last]) := hlast ▸ hr.shown key
  have hkey : last.key = key := hshown.key last (by simp)
  obtain ⟨k, hid, htx⟩ := Option.bind_eq_some_iff.mp (hshown.found last (by simp))
  simp only [TemporalIndexes.supersedeVersion, hid, htx]
  refine ⟨trivial, ?_⟩
  have hget := hr.linked.getVersionById_rewrite (last.close time) hid
  constructor
  case shown =>
    rw [Function.forall_update_iff h (p := Shown _)]
    constructor
    · refine hshown.close time rfl rfl ?_ ((hget _).trans (if_pos rfl))
      exact fun w hw => (hget w.versionId).trans (if_neg (hshown.ne_last hw))
    · intro key' hne
      refine (hr.shown key').congr rfl rfl fun w hw => (hget w.versionId).trans (if_neg ?_)
      -- a version with this id has the other key
      intro heq
      have hfound := (hr.shown key').found w hw
      rw [heq, hshown.found last (by simp)] at hfound
      have hwkey := (hr.shown key').key w hw
      rw [← Option.some.inj hfound, hkey] at hwkey
      exact hne hwkey.symm
  case cached =>
    rw [← hkey]
    exact hr.cached_pop
  case linked =>
    apply hr.linked.putTx
    intro id hid'
    exact hr.linked.inj hid hid'
  case known =>
    intro id k' hid'
    obtain ⟨key', v, hv, hvid⟩ := hr.known id k' hid'
    by_cases hsame : v.versionId = last.versionId
    · exact ⟨key, last.close time, by simp, hsame.symm.trans hvid⟩
    · refine ⟨key', v, ?_, hvid⟩
      rw [Function.update_apply]
      split_ifs with heq
      · rw [heq, hlast, List.mem_append, List.mem_singleton] at hv
        rcases hv with hfront | rfl
        · exact List.mem_append_left _ hfront
        · exact absurd rfl hsame
      · exact hv

theorem closeVersion {key : String} {front : List VersionRef} {last : VersionRef}
    (hlast : h key = front ++ [last]) (closingTx : TransactionId) :
    ∃ ix', ix.closeVersion ⟨last.subject, last.predicate, last.object,
        toString last.txSeq.toNat⟩ closingTx true = (ix', .ok ()) ∧
      Represents ix' (Function.update h key (closeLast closingTx.timestamp (h key))) := by
  have hshown : Shown ix.db key (front ++ [last]) := hlast ▸ hr.shown key
  have hkey : spKey last.subject last.predicate = key := hshown.key last (by simp)
  have hfind : (h key).find? (fun v => toString v.txSeq.toNat == toString last.txSeq.toNat &&
      v.object == last.object) = some last := by
    have hpair := hshown.increasing
    rw [List.pairwise_append] at hpair
    -- an earlier version has a smaller number, and numbers print differently
    have hnone : front.find? (fun v => toString v.txSeq.toNat == toString last.txSeq.toNat &&
        v.object == last.object) = none := by
      rw [List.find?_eq_none]
      intro v hv hmatch
      rw [Bool.and_eq_true, beq_iff_eq] at hmatch
      have hlt := hpair.2.2 v hv last (List.mem_singleton_self last)
      rw [UInt64.lt_iff_toNat_lt, natToString_inj hmatch.1] at hlt
      exact absurd hlt (lt_irrefl _)
    rw [hlast, List.find?_append, hnone]
    simp
  obtain ⟨hok, hclosed⟩ := hr.supersedeVersion hlast closingTx.timestamp
  refine ⟨(ix.supersedeVersion last.versionId closingTx.timestamp).1, ?_, ?_⟩
  · simp only [TemporalIndexes.closeVersion, hr.getVersionChain, hkey, hfind]
    rw [← Prod.mk.eta (p := ix.supersedeVersion last.versionId closingTx.timestamp), hok]
    rfl
  · rw [hlast, closeLast_concat]
    exact hclosed

end Represents

end Arcxa.Bitemporal
