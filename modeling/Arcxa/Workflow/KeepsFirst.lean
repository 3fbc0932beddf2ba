import Arcxa.Lib.Distinct
import Arcxa.Lib.Transition
import Arcxa.Workflow.StreamingDedup

/-!
# Which rows streaming deduplication keeps

With the strategy `First`, the state manager should keep the first row of each key and no
other. It decides by whether it finds the key: in the filter, and then in the cache or in
RocksDB (`processRow_keptRow`). So a key must be found from its first row on, and not
before.

There are two ways to go wrong. A promotion into a full cache pushes the least recently
used entry out and nobody writes it to RocksDB: if that was the only copy, the key is lost
and its next row is kept again. And an entry of an older run under the same prefix is
taken for one of this run, when the filter is wrong about a new key. `keepsFirst_iff` says
that there is no third: the first rows are kept, and nothing else, exactly if no row meets
one of these.
-/

namespace Arcxa.Workflow

open DedupStateManager

variable {F : Type} [Float64 F]

variable {entry : DedupEntry F}

namespace DedupStateManager

variable {m m' : DedupStateManager F} {key : String}

/-! ## The tiers -/

def knows (m : DedupStateManager F) (key : String) : Bool :=
  m.bloomFilter.check key && ((m.memoryCache.lookup key).isSome || (m.stored key).isSome)

omit [Float64 F] in
theorem dbKey_injective {k k' : String} (h : m.dbKey k = m.dbKey k') : k = k' :=
  (String.append_right_inj _).mp h

theorem getRocks_putRocks (h : m.rocksHandle.isSome) (key : String) (entry : DedupEntry F)
    (k : String) :
    (m.putRocks key entry).getRocks k = if k = key then some entry.serialize else m.getRocks k := by
  obtain ⟨rocks, hrocks⟩ := Option.isSome_iff_exists.mp h
  unfold putRocks getRocks
  rw [hrocks]
  show Function.update rocks (m.dbKey key) _ (m.dbKey k) = _
  split_ifs with hk
  · rw [hk, Function.update_self]
  · rw [Function.update_of_ne (fun heq => hk (dbKey_injective heq))]
    rfl

@[simp] theorem isSome_putRocks (m : DedupStateManager F) (key : String) (entry : DedupEntry F) :
    (m.putRocks key entry).rocksHandle.isSome = m.rocksHandle.isSome := by
  unfold putRocks
  rw [Option.isSome_map]

theorem stored_putRocks (h : m.rocksHandle.isSome) (hentry : entry.Storable) :
    (m.putRocks key entry).stored key = some entry := by
  unfold stored
  rw [getRocks_putRocks h, if_pos rfl]
  exact hentry.deserialize_serialize

def Found (m : DedupStateManager F) (key : String) : Prop :=
  m.memoryCache.lookup key ≠ none ∨ m.stored key ≠ none

/-! ## One row -/

/-- What a row can do to the tiers: the entries of other keys stay as they are, apart from one
that may go from the cache. -/
structure RowStep (m m' : DedupStateManager F) (key : String) (out : Option String) : Prop where
  handle : m'.rocksHandle.isSome
  keyPrefix : m'.keyPrefix = m.keyPrefix
  keys : ∀ k ∈ m.bloomFilter.keys, k ∈ m'.bloomFilter.keys
  cached : ∀ k, k ≠ key →
    m'.memoryCache.lookup k = if out = some k then none else m.memoryCache.lookup k
  getRocks : ∀ k, k ≠ key → m'.getRocks k = m.getRocks k
  storable : ∀ entry, m'.memoryCache.lookup key = some entry → entry.Storable

def CacheStorable (m : DedupStateManager F) : Prop :=
  ∀ k entry, m.memoryCache.lookup k = some entry → entry.Storable

theorem RowStep.refl (hhandle : m.rocksHandle.isSome) (hcache : m.CacheStorable) (key : String) :
    RowStep m m key none where
  handle := hhandle
  keyPrefix := rfl
  keys _ hk := hk
  cached k _ := (if_neg (by simp)).symm
  getRocks _ _ := rfl
  storable := hcache key

theorem putCache_rowStep (hhandle : m.rocksHandle.isSome)
    (hentry : entry.Storable) (key : String) :
    RowStep m { m with memoryCache := m.memoryCache.put key entry } key (m.memoryCache.evicts key) ∧
      { m with memoryCache := m.memoryCache.put key entry }.Found key := by
  have hput : (m.memoryCache.put key entry).lookup key = some entry := by
    rw [Lru.lookup_put, if_pos rfl]
  refine ⟨⟨hhandle, rfl, fun _ hk => hk, ?_, fun _ _ => rfl, ?_⟩, Or.inl ?_⟩
  · intro k hk
    exact (Lru.lookup_put ..).trans (if_neg hk)
  · intro entry' hentry'
    exact Option.some.inj (hput.symm.trans hentry') ▸ hentry
  · show (m.memoryCache.put key entry).lookup key ≠ none
    simp [hput]

variable {out : Option String}

theorem RowStep.withStats (h : RowStep m m' key out) (stats : DedupStats) :
    RowStep m { m' with stats } key out :=
  { h with }

theorem RowStep.of_counted {stats : DedupStats} {currentIdx : UInt64}
    (h : RowStep { m with stats, currentIdx } m' key out) : RowStep m m' key out :=
  { h with }

theorem RowStep.putRocks (h : RowStep m m' key out) (hentry : entry.Storable) :
    RowStep m (m'.putRocks key entry) key out ∧ (m'.putRocks key entry).Found key := by
  refine ⟨⟨?_, h.keyPrefix, h.keys, h.cached, ?_, h.storable⟩, Or.inr ?_⟩
  · rw [isSome_putRocks]
    exact h.handle
  · intro k hk
    rw [getRocks_putRocks h.handle, if_neg hk]
    exact h.getRocks k hk
  · rw [stored_putRocks h.handle hentry]
    simp

def promotes (m : DedupStateManager F) (key : String) : Bool :=
  m.bloomFilter.check key && (m.memoryCache.lookup key).isNone &&
    (m.stored key).any (fun entry => entry.accessCount + 1 > 2)

def pushesOut (m : DedupStateManager F) (key : String) : Option String :=
  if m.promotes key then m.memoryCache.evicts key else none

variable {row : Value F}

theorem decideFound_eq (m : DedupStateManager F) (entry : DedupEntry F) (row : Value F)
    (keep : KeepStrategy) (key : String) :
    ∃ stats, (m.decideFound entry row keep key).2 = { m with stats } := by
  unfold decideFound
  dsimp only
  split_ifs
  · exact ⟨_, rfl⟩
  · exact ⟨m.stats, rfl⟩

variable (hhandle : m.rocksHandle.isSome)

include hhandle

theorem keepNew_rowStep (hcache : m.CacheStorable)
    (hid : Codec.string.option.RoundTrips (rowIdOf row)) (key : String) (idx : UInt64) (now : Int64) :
    RowStep m (m.keepNew key row idx now).2 key none ∧ (m.keepNew key row idx now).2.Found key ∧
      key ∈ (m.keepNew key row idx now).2.bloomFilter.keys := by
  have hnew := DedupEntry.storable_new (F := F) hid idx now
  let m₁ := { m with bloomFilter := m.bloomFilter.set key }
  have hhandle₁ : m₁.rocksHandle.isSome := hhandle
  unfold keepNew insertEntry
  dsimp only
  split_ifs with hroom
  · obtain ⟨hstep, hfound⟩ := putCache_rowStep hhandle₁ hnew key
    rw [Lru.evicts_eq_none hroom] at hstep
    exact ⟨{ hstep with keys := fun k hk => List.mem_cons_of_mem _ hk }, hfound, List.mem_cons_self⟩
  · obtain ⟨hstep, hfound⟩ := (RowStep.refl hhandle₁ hcache key).putRocks hnew
    exact ⟨{ hstep with keys := fun k hk => List.mem_cons_of_mem _ hk }, hfound, List.mem_cons_self⟩

theorem foundInRocks_rowStep (hcache : m.CacheStorable) (hentry : entry.Storable) (row : Value F)
    (keep : KeepStrategy) (key : String) :
    RowStep m (m.foundInRocks entry row keep key).2 key
        (if entry.accessCount > 2 then m.memoryCache.evicts key else none) ∧
      (m.foundInRocks entry row keep key).2.Found key := by
  unfold foundInRocks
  dsimp only
  split_ifs
  · obtain ⟨stats, hdecide⟩ := decideFound_eq
      { m with memoryCache := m.memoryCache.put key entry } entry row keep key
    rw [hdecide]
    obtain ⟨hstep, -⟩ := putCache_rowStep hhandle hentry key
    exact (hstep.withStats stats).putRocks hentry
  · obtain ⟨stats, hdecide⟩ := decideFound_eq m entry row keep key
    rw [hdecide]
    exact ((RowStep.refl hhandle hcache key).withStats stats).putRocks hentry

theorem foundInCache_rowStep (hcached : m.memoryCache.lookup key = some entry)
    (hentry : entry.Storable) (hid : Codec.string.option.RoundTrips (rowIdOf row))
    (keep : KeepStrategy) (idx : UInt64) (now : Int64) :
    RowStep m (m.foundInCache entry row keep key idx now).2 key none ∧
      (m.foundInCache entry row keep key idx now).2.Found key := by
  unfold foundInCache
  dsimp only
  obtain ⟨stats, hdecide⟩ := decideFound_eq _ _ row keep key
  rw [hdecide]
  have hlookup : ∀ k, (m.memoryCache.modify key (fun e => e.update idx (rowIdOf row) now)).lookup k =
      if k = key then some (entry.update idx (rowIdOf row) now) else m.memoryCache.lookup k := by
    intro k
    rw [Lru.lookup_modify, hcached]
    rfl
  have hself := (hlookup key).trans (if_pos rfl)
  refine ⟨⟨hhandle, rfl, fun _ hk => hk, ?_, fun _ _ => rfl, ?_⟩, Or.inl ?_⟩
  · intro k hk
    rw [if_neg (by simp : ¬ none = some k)]
    exact (hlookup k).trans (if_neg hk)
  · intro entry' hentry'
    exact Option.some.inj (hself.symm.trans hentry') ▸ hentry.update hid idx now
  · exact fun hnone => Option.some_ne_none _ (hself.symm.trans hnone)

/-! ### All cases -/

variable (clock : Nat → Int64)

omit hhandle

theorem processRow_cases (m : DedupStateManager F) (keep : KeepStrategy) (key : String)
    (row : Value F) :
    (∃ entry, m.bloomFilter.check key = true ∧ m.memoryCache.lookup key = some entry ∧
      m.processRow clock keep (key, row) = m.countRow.countHit.foundInCache entry row keep key
        m.currentIdx (clock m.stats.totalProcessed)) ∨
    (∃ entry, m.bloomFilter.check key = true ∧ m.memoryCache.lookup key = none ∧
      m.stored key = some entry ∧
      m.processRow clock keep (key, row) = m.countRow.countMiss.foundInRocks
        (entry.update m.currentIdx (rowIdOf row) (clock m.stats.totalProcessed)) row keep key) ∨
    (m.knows key = false ∧ ∃ m₁, (m₁ = m.countRow ∨ m₁ = m.countRow.countMiss) ∧
      m.processRow clock keep (key, row) =
        m₁.keepNew key row m.currentIdx (clock m.stats.totalProcessed)) := by
  unfold processRow knows
  dsimp only
  split
  · next hcheck =>
    have hcheck : m.bloomFilter.check key = true := hcheck
    rw [hcheck]
    split
    · next entry hentry => exact Or.inl ⟨entry, rfl, hentry, rfl⟩
    · next hmiss =>
      have hmiss : m.memoryCache.lookup key = none := hmiss
      split
      · next entry hstored => exact Or.inr (Or.inl ⟨entry, rfl, hmiss, hstored, rfl⟩)
      · next hstored =>
        have hstored : m.stored key = none := hstored
        rw [hmiss, hstored]
        exact Or.inr (Or.inr ⟨rfl, _, Or.inr rfl, rfl⟩)
  · next hcheck =>
    have hcheck : m.bloomFilter.check key = false := eq_false_of_ne_true hcheck
    rw [hcheck]
    exact Or.inr (Or.inr ⟨rfl, _, Or.inl rfl, rfl⟩)

theorem processRow_keptRow (m : DedupStateManager F) (key : String) (row : Value F) :
    (m.processRow clock .First (key, row)).1.keptRow = if m.knows key then none else some row := by
  rcases processRow_cases clock m .First key row with
    ⟨entry, hcheck, hcached, heq⟩ | ⟨entry, hcheck, hcached, hstored, heq⟩ | ⟨hknows, m₁, -, heq⟩
  · rw [heq, knows, hcheck, hcached]
    rfl
  · rw [heq, knows, hcheck, hstored, Option.isSome_some, Bool.or_true]
    rfl
  · rw [heq, hknows]
    rfl

theorem processRow_rowStep (hhandle : m.rocksHandle.isSome) (hcache : m.CacheStorable)
    (hid : Codec.string.option.RoundTrips (rowIdOf row)) (keep : KeepStrategy) (key : String) :
    RowStep m (m.processRow clock keep (key, row)).2 key (m.pushesOut key) ∧
      (m.processRow clock keep (key, row)).2.Found key ∧
      (m.knows key = false → key ∈ (m.processRow clock keep (key, row)).2.bloomFilter.keys) := by
  unfold pushesOut promotes
  rcases processRow_cases clock m keep key row with
    ⟨entry, hcheck, hcached, heq⟩ | ⟨entry, hcheck, hcached, hstored, heq⟩ | ⟨hknows, m₁, hm₁, heq⟩
  · have hnot : m.knows key ≠ false := by simp [knows, hcheck, hcached]
    obtain ⟨hstep, hfound⟩ := foundInCache_rowStep (m := m.countRow.countHit) hhandle hcached
      (hcache key entry hcached) hid keep m.currentIdx (clock m.stats.totalProcessed)
    rw [heq, hcheck, hcached, if_neg (by simp)]
    exact ⟨hstep.of_counted.of_counted, hfound, fun h => absurd h hnot⟩
  · have hnot : m.knows key ≠ false := by simp [knows, hcheck, hstored]
    obtain ⟨bytes, -, hread⟩ := Option.bind_eq_some_iff.mp hstored
    have hentry := (DedupEntry.storable_of_deserialize hread).update hid m.currentIdx
      (clock m.stats.totalProcessed)
    obtain ⟨hstep, hfound⟩ := foundInRocks_rowStep (m := m.countRow.countMiss) hhandle hcache hentry
      row keep key
    rw [heq, hcheck, hcached, hstored]
    refine ⟨?_, hfound, fun h => absurd h hnot⟩
    simp only [Option.isNone_none, Bool.and_self, Bool.true_and, Option.any_some, decide_eq_true_eq]
    exact hstep.of_counted.of_counted
  · have hstays : (if m.bloomFilter.check key && (m.memoryCache.lookup key).isNone &&
        (m.stored key).any (fun entry => entry.accessCount + 1 > 2) then m.memoryCache.evicts key
        else none) = none := by
      cases hstored : m.stored key with
      | none => simp
      | some entry =>
        have hcheck : m.bloomFilter.check key = false := by simpa [knows, hstored] using hknows
        rw [hcheck]
        rfl
    rw [heq, hstays]
    rcases hm₁ with rfl | rfl
    · obtain ⟨hstep, hfound, hkey⟩ := keepNew_rowStep (m := m.countRow) hhandle hcache hid key
        m.currentIdx (clock m.stats.totalProcessed)
      exact ⟨hstep.of_counted, hfound, fun _ => hkey⟩
    · obtain ⟨hstep, hfound, hkey⟩ := keepNew_rowStep (m := m.countRow.countMiss) hhandle hcache hid
        key m.currentIdx (clock m.stats.totalProcessed)
      exact ⟨hstep.of_counted.of_counted, hfound, fun _ => hkey⟩

end DedupStateManager

/-! ## Whole runs -/

/-- A state manager, the keys it was given and the keys it has lost. -/
structure DedupAudit (F : Type) where
  manager : DedupStateManager F
  seen : List String
  lost : List String

/-- Every key seen and not lost is in the cache or in RocksDB. -/
structure Tracks (db : Db) (a : DedupAudit F) : Prop where
  handle : a.manager.rocksHandle.isSome
  keys : ∀ k ∈ a.seen, k ∈ a.manager.bloomFilter.keys
  cached : ∀ k, a.manager.memoryCache.lookup k ≠ none → k ∈ a.seen
  storable : a.manager.CacheStorable
  unseen : ∀ k, k ∉ a.seen → a.manager.getRocks k = db (a.manager.dbKey k)
  found : ∀ k ∈ a.seen, k ∉ a.lost → a.manager.Found k
  gone : ∀ k ∈ a.lost, k ∈ a.seen ∧ ¬ a.manager.Found k

def DedupStateManager.lostBy (m : DedupStateManager F) (key : String) : Option String :=
  (m.pushesOut key).filter (fun k => (m.stored k).isNone)

namespace DedupAudit

def processRow (clock : Nat → Int64) (a : DedupAudit F) (keyed : String × Value F) : DedupAudit F where
  manager := (a.manager.processRow clock .First keyed).2
  seen := keyed.1 :: a.seen
  lost := (a.manager.lostBy keyed.1).toList ++ a.lost

def processBatch (clock : Nat → Int64) (a : DedupAudit F) (batch : List (String × Value F)) :
    DedupAudit F :=
  let a := batch.foldl (processRow clock) a
  { a with manager := a.manager.endBatch }

def RowOk (db : Db) (a : DedupAudit F) (keyed : String × Value F) : Prop :=
  keyed.1 ∉ a.lost ∧
    (keyed.1 ∉ a.seen → a.manager.bloomFilter.check keyed.1 = true →
      (db (a.manager.dbKey keyed.1)).bind (DedupEntry.deserialize (F := F)) = none)

instance (db : Db) (a : DedupAudit F) (keyed : String × Value F) : Decidable (a.RowOk db keyed) :=
  inferInstanceAs (Decidable (keyed.1 ∉ a.lost ∧ (keyed.1 ∉ a.seen → _ → _ = none)))

def BatchOk (clock : Nat → Int64) (db : Db) (a : DedupAudit F) (batch : List (String × Value F)) :
    Prop :=
  OkAlong (fun a keyed => some (a.processRow clock keyed)) (RowOk db) a batch

instance (clock : Nat → Int64) (db : Db) (a : DedupAudit F) (batch : List (String × Value F)) :
    Decidable (a.BatchOk clock db batch) :=
  okAlongDecidable _ _ a batch

/-- All rows of a run are so. -/
def NoLostKey (clock : Nat → Int64) (db : Db) (a : DedupAudit F)
    (batches : List (List (String × Value F))) : Prop :=
  OkAlong (fun a batch => some (a.processBatch clock batch)) (BatchOk clock db) a batches

instance (clock : Nat → Int64) (db : Db) (a : DedupAudit F)
    (batches : List (List (String × Value F))) : Decidable (a.NoLostKey clock db batches) :=
  okAlongDecidable _ _ a batches

end DedupAudit

/-! ## The invariant -/

section Invariant

variable {clock : Nat → Int64} {db : Db} {a : DedupAudit F}

variable (m : DedupStateManager F)

theorem DedupStateManager.knows_iff (key : String) :
    m.knows key = true ↔ m.bloomFilter.check key = true ∧ m.Found key := by
  unfold knows Found
  rw [Bool.and_eq_true, Bool.or_eq_true, Option.isSome_iff_ne_none, Option.isSome_iff_ne_none]

theorem DedupStateManager.RowStep.stored {m m' : DedupStateManager F} {key k : String}
    {out : Option String} (h : RowStep m m' key out) (hk : k ≠ key) : m'.stored k = m.stored k := by
  unfold DedupStateManager.stored
  rw [h.getRocks k hk]

variable (h : Tracks db a) (keyed : String × Value F)

include h

theorem Tracks.rowOk_iff :
    a.RowOk db keyed ↔ (a.manager.knows keyed.1 = true ↔ keyed.1 ∈ a.seen) := by
  unfold DedupAudit.RowOk
  rw [knows_iff]
  by_cases hseen : keyed.1 ∈ a.seen
  · -- a key that was seen passes the filter: it is found unless it is lost
    have hcheck := Bloom.check_of_mem (h.keys _ hseen)
    have hfound : a.manager.Found keyed.1 ↔ keyed.1 ∉ a.lost :=
      ⟨fun hfound hlost => (h.gone _ hlost).2 hfound, h.found _ hseen⟩
    simp only [hseen, hcheck, hfound, not_true_eq_false, false_imp_iff, and_true, true_and, iff_true]
  · -- a key that was not can be found in the old database only
    have hlost : keyed.1 ∉ a.lost := fun hlost => hseen (h.gone _ hlost).1
    have hcached : a.manager.memoryCache.lookup keyed.1 = none := by
      by_contra hne
      exact hseen (h.cached _ hne)
    have hfound : a.manager.Found keyed.1 ↔
        (db (a.manager.dbKey keyed.1)).bind (DedupEntry.deserialize (F := F)) ≠ none := by
      unfold DedupStateManager.Found stored
      rw [hcached, h.unseen _ hseen]
      simp only [ne_eq, not_true_eq_false, false_or]
    rw [hfound]
    simp only [hlost, hseen, not_false_eq_true, true_and, forall_const, iff_false, not_and, ne_eq,
      not_not]

theorem Tracks.rowStep {m' : DedupStateManager F} {key : String}
    (hstep : a.manager.RowStep m' key (a.manager.pushesOut key)) (hfound : m'.Found key)
    (hkey : key ∈ m'.bloomFilter.keys) (hlost : key ∉ a.lost) :
    Tracks db ⟨m', key :: a.seen, (a.manager.lostBy key).toList ++ a.lost⟩ := by
  have hstored : ∀ k, k ≠ key → m'.stored k = a.manager.stored k := fun k hk => hstep.stored hk
  refine ⟨hstep.handle, ?_, ?_, ?_, ?_, ?_, ?_⟩
  · intro k hk
    rcases List.mem_cons.mp hk with rfl | hk
    · exact hkey
    · exact hstep.keys k (h.keys k hk)
  · intro k hcached
    by_cases hk : k = key
    · exact List.mem_cons.mpr (Or.inl hk)
    · refine List.mem_cons_of_mem _ (h.cached k ?_)
      rw [hstep.cached k hk] at hcached
      split_ifs at hcached
      · exact absurd rfl hcached
      · exact hcached
  · intro k entry hcached
    by_cases hk : k = key
    · subst hk
      exact hstep.storable entry hcached
    · rw [hstep.cached k hk] at hcached
      split_ifs at hcached
      exact h.storable k entry hcached
  · intro k hk
    obtain ⟨hne, hseen⟩ := not_or.mp (fun hor => hk (List.mem_cons.mpr hor))
    have hdbKey : m'.dbKey k = a.manager.dbKey k := by
      unfold dbKey
      rw [hstep.keyPrefix]
    rw [hstep.getRocks k hne, hdbKey]
    exact h.unseen k hseen
  · intro k hk hnot
    by_cases hkk : k = key
    · exact hkk ▸ hfound
    have hseen : k ∈ a.seen := (List.mem_cons.mp hk).resolve_left hkk
    obtain ⟨hstays, hnotLost⟩ := not_or.mp (fun hor => hnot (List.mem_append.mpr hor))
    rcases h.found k hseen hnotLost with hcached | hinRocks
    · by_cases hout : a.manager.pushesOut key = some k
      · -- pushed out, but with a copy in RocksDB
        right
        rw [hstored k hkk]
        intro hnone
        apply hstays
        unfold lostBy
        simp [hout, hnone]
      · left
        rw [hstep.cached k hkk, if_neg hout]
        exact hcached
    · right
      rw [hstored k hkk]
      exact hinRocks
  · intro k hk
    rcases List.mem_append.mp hk with hk | hk
    · -- just lost
      obtain ⟨hout, hnone⟩ := Option.filter_eq_some_iff.mp (Option.mem_toList.mp hk)
      have hevicts : a.manager.memoryCache.evicts key = some k := by
        unfold pushesOut at hout
        split_ifs at hout
        exact hout
      obtain ⟨hcached, hkk⟩ := Lru.of_evicts hevicts
      refine ⟨List.mem_cons_of_mem _ (h.cached k hcached), not_or.mpr ⟨?_, ?_⟩⟩
      · rw [hstep.cached k hkk, if_pos hout]
        exact not_not.mpr rfl
      · rw [hstored k hkk]
        exact not_not.mpr (Option.isNone_iff_eq_none.mp hnone)
    · -- lost before
      have hkk : k ≠ key := fun heq => hlost (heq ▸ hk)
      obtain ⟨hseen, hgone⟩ := h.gone k hk
      obtain ⟨hcached, hinRocks⟩ := not_or.mp hgone
      refine ⟨List.mem_cons_of_mem _ hseen, not_or.mpr ⟨?_, ?_⟩⟩
      · rw [hstep.cached k hkk, not_not.mp hcached, ite_self]
        exact not_not.mpr rfl
      · rw [hstored k hkk]
        exact hinRocks

theorem Tracks.processRow {keyed : String × Value F} (hok : a.RowOk db keyed)
    (hid : Codec.string.option.RoundTrips (rowIdOf keyed.2)) :
    Tracks db (a.processRow clock keyed) := by
  obtain ⟨key, row⟩ := keyed
  obtain ⟨hstep, hfound, hnew⟩ :=
    processRow_rowStep clock h.handle h.storable hid .First key
  refine h.rowStep hstep hfound ?_ hok.1
  by_cases hseen : key ∈ a.seen
  · exact hstep.keys key (h.keys key hseen)
  · have hknows := (h.rowOk_iff (key, row)).mp hok
    exact hnew (eq_false_of_ne_true (fun hknown => hseen (hknows.mp hknown)))

/-! ### Flushes -/

theorem Tracks.flushOne {key : String} {memoryCache : Lru String (DedupEntry F)}
    (hpop : a.manager.memoryCache.popLru = some ((key, entry), memoryCache)) :
    Tracks db { a with manager := { a.manager with memoryCache }.putRocks key entry } := by
  let m₁ := { a.manager with memoryCache }
  have hhandle : m₁.rocksHandle.isSome := h.handle
  have hentry : a.manager.memoryCache.lookup key = some entry := (Lru.lookup_popLru hpop key).1
  have hstorable := h.storable key entry hentry
  have hcached : ∀ k, memoryCache.lookup k = if k = key then none else a.manager.memoryCache.lookup k :=
    fun k => (Lru.lookup_popLru hpop k).2
  have hgetRocks : ∀ k, k ≠ key → (m₁.putRocks key entry).getRocks k = a.manager.getRocks k :=
    fun k hk => (getRocks_putRocks hhandle key entry k).trans (if_neg hk)
  have hfound : ∀ k, (m₁.putRocks key entry).Found k ↔ a.manager.Found k := by
    intro k
    unfold DedupStateManager.Found
    by_cases hk : k = key
    · subst hk
      rw [stored_putRocks hhandle hstorable, hentry]
      simp
    · unfold stored
      rw [hgetRocks k hk, show (m₁.putRocks key entry).memoryCache.lookup k = _ from hcached k, if_neg hk]
  refine ⟨?_, h.keys, ?_, ?_, ?_, ?_, ?_⟩
  · exact (isSome_putRocks m₁ key entry).trans hhandle
  · intro k hk
    apply h.cached k
    have hk : memoryCache.lookup k ≠ none := hk
    rw [hcached k] at hk
    split_ifs at hk
    · exact absurd rfl hk
    · exact hk
  · intro k entry' hk
    have hk : memoryCache.lookup k = some entry' := hk
    rw [hcached k] at hk
    split_ifs at hk
    exact h.storable k entry' hk
  · intro k hk
    have hne : k ≠ key := by
      rintro rfl
      exact hk (h.cached k (by simp [hentry]))
    exact (hgetRocks k hne).trans (h.unseen k hk)
  · intro k hk hlost
    exact (hfound k).mpr (h.found k hk hlost)
  · intro k hk
    exact ⟨(h.gone k hk).1, fun hf => (h.gone k hk).2 ((hfound k).mp hf)⟩

omit h

theorem Tracks.flushEntries (n : Nat) (h : Tracks db a) :
    Tracks db { a with manager := a.manager.flushEntries n } := by
  induction n generalizing a with
  | zero => exact h
  | succ n ih =>
    unfold flushEntries
    split
    · next key entry memoryCache hpop => exact ih (h.flushOne hpop)
    · exact ih h

theorem Tracks.withStats (h : Tracks db a) (stats : DedupStats) :
    Tracks db { a with manager := { a.manager with stats } } :=
  { h with }

theorem Tracks.endBatch (h : Tracks db a) : Tracks db { a with manager := a.manager.endBatch } := by
  unfold DedupStateManager.endBatch DedupStateManager.flushToDisk
  dsimp only
  split_ifs
  · exact ((h.withStats _).flushEntries _).withStats _
  · exact (h.withStats _).withStats _
  · exact h.withStats _

/-! ### Batches -/

def expectedRows (seen : List String) (keyedRows : List (String × Value F)) : List (Option (Value F)) :=
  (firstMarks Prod.fst seen keyedRows).map (Option.map Prod.snd)

variable (seen : List String)

omit [Float64 F] in
@[simp] theorem length_expectedRows (keyedRows : List (String × Value F)) :
    (expectedRows seen keyedRows).length = keyedRows.length := by
  rw [expectedRows, List.length_map, length_firstMarks]

omit [Float64 F] in
theorem expectedRows_append (keyedRows keyedRows' : List (String × Value F)) :
    expectedRows seen (keyedRows ++ keyedRows') =
      expectedRows seen keyedRows ++ expectedRows (keysAfter Prod.fst seen keyedRows) keyedRows' := by
  rw [expectedRows, firstMarks_append, List.map_append]
  rfl

omit [Float64 F] in
theorem expectedRows_cons (keyedRows : List (String × Value F)) :
    expectedRows seen (keyed :: keyedRows) =
      Option.map Prod.snd (if keyed.1 ∈ seen then none else some keyed) ::
        expectedRows (keyed.1 :: seen) keyedRows := rfl

theorem DedupStateManager.processRows_cons (keep : KeepStrategy) (keyed : String × Value F)
    (keyedRows : List (String × Value F)) :
    (m.processRows clock keep (keyed :: keyedRows)).1 =
      (m.processRow clock keep keyed).1 ::
        ((m.processRow clock keep keyed).2.processRows clock keep keyedRows).1 := rfl

theorem DedupStateManager.length_processRows (keep : KeepStrategy)
    (keyedRows : List (String × Value F)) :
    (m.processRows clock keep keyedRows).1.length = keyedRows.length := by
  induction keyedRows generalizing m with
  | nil => rfl
  | cons keyed keyedRows ih => rw [processRows_cons, List.length_cons, List.length_cons, ih]

variable (clock : Nat → Int64)

theorem DedupAudit.foldl_processRow (a : DedupAudit F) (keyedRows : List (String × Value F)) :
    (keyedRows.foldl (processRow clock) a).manager = (a.manager.processRows clock .First keyedRows).2 ∧
      (keyedRows.foldl (processRow clock) a).seen = keysAfter Prod.fst a.seen keyedRows := by
  induction keyedRows generalizing a with
  | nil => exact ⟨rfl, rfl⟩
  | cons keyed keyedRows ih => exact ih (a.processRow clock keyed)

include h

theorem Tracks.keptRow_iff :
    (a.manager.processRow clock .First keyed).1.keptRow =
        Option.map Prod.snd (if keyed.1 ∈ a.seen then none else some keyed) ↔
      a.RowOk db keyed := by
  rw [h.rowOk_iff, processRow_keptRow]
  by_cases hseen : keyed.1 ∈ a.seen <;> by_cases hknows : a.manager.knows keyed.1 = true <;>
    simp [hseen, hknows]

theorem Tracks.keptRows_iff {keyedRows : List (String × Value F)}
    (hids : ∀ keyed ∈ keyedRows, Codec.string.option.RoundTrips (rowIdOf keyed.2)) :
    ((a.manager.processRows clock .First keyedRows).1.map DedupDecision.keptRow =
        expectedRows a.seen keyedRows ↔ a.BatchOk clock db keyedRows) ∧
      (a.BatchOk clock db keyedRows → Tracks db (keyedRows.foldl (DedupAudit.processRow clock) a)) := by
  induction keyedRows generalizing a with
  | nil => exact ⟨iff_of_true rfl trivial, fun _ => h⟩
  | cons keyed keyedRows ih =>
    have hid := hids keyed List.mem_cons_self
    have hids' := fun k hk => hids k (List.mem_cons_of_mem _ hk)
    have hcons : a.BatchOk clock db (keyed :: keyedRows) ↔
        a.RowOk db keyed ∧ (a.processRow clock keyed).BatchOk clock db keyedRows :=
      okAlong_cons_total ..
    rw [hcons]
    refine ⟨?_, fun hok => (ih (h.processRow hok.1 hid) hids').2 hok.2⟩
    rw [processRows_cons, expectedRows_cons, List.map_cons, List.cons.injEq,
      h.keptRow_iff]
    refine and_congr_right fun hok => ?_
    exact (ih (h.processRow hok hid) hids').1

theorem Tracks.keptBatches_iff {batches : List (List (String × Value F))}
    (hids : ∀ batch ∈ batches, ∀ keyed ∈ batch, Codec.string.option.RoundTrips (rowIdOf keyed.2)) :
    (a.manager.processBatches clock .First batches).1.flatten.map DedupDecision.keptRow =
        expectedRows a.seen batches.flatten ↔
      a.NoLostKey clock db batches := by
  induction batches generalizing a with
  | nil => exact iff_of_true rfl trivial
  | cons batch batches ih =>
    have hcons : a.NoLostKey clock db (batch :: batches) ↔
        a.BatchOk clock db batch ∧ (a.processBatch clock batch).NoLostKey clock db batches :=
      okAlong_cons_total ..
    obtain ⟨hrows, htracks⟩ := h.keptRows_iff clock (hids batch List.mem_cons_self)
    obtain ⟨hmanager, hseen⟩ := DedupAudit.foldl_processRow clock a batch
    have hlength : ((a.manager.processRows clock .First batch).1.map DedupDecision.keptRow).length =
        (expectedRows a.seen batch).length := by
      rw [List.length_map, length_processRows, length_expectedRows]
    have hflatten : (a.manager.processBatches clock .First (batch :: batches)).1.flatten =
        (a.manager.processRows clock .First batch).1 ++
          ((a.processBatch clock batch).manager.processBatches clock .First batches).1.flatten := by
      show _ ++ List.flatten
        ((a.manager.processRows clock .First batch).2.endBatch.processBatches clock .First batches).1 = _
      rw [← hmanager]
      rfl
    rw [hcons, hflatten, List.map_append, List.flatten_cons, expectedRows_append,
      List.append_eq_append_iff_of_size_eq_left hlength, hrows]
    refine and_congr_right fun hok => ?_
    rw [← hseen]
    exact ih (htracks hok).endBatch (fun b hb => hids b (List.mem_cons_of_mem _ hb))

end Invariant

/-! ## The first row of each key -/

/-- The rows with a `Keep` decision are the rows whose key did not occur before. -/
def KeepsFirst (decisions : List (List (DedupDecision F))) (batches : List (List (String × Value F))) :
    Prop :=
  decisions.flatten.map DedupDecision.keptRow = expectedRows [] batches.flatten

omit [Float64 F] in
theorem KeepsFirst.filterMap_keptRow {decisions : List (List (DedupDecision F))}
    {batches : List (List (String × Value F))} (h : KeepsFirst decisions batches) :
    decisions.flatten.filterMap DedupDecision.keptRow =
      (firsts Prod.fst batches.flatten).map Prod.snd := by
  have hreduce := congrArg List.reduceOption h
  rw [expectedRows, List.reduceOption_map] at hreduce
  rw [firsts, ← hreduce, reduceOption_map_filterMap]

/-- No Rust string is longer than `isize::MAX` bytes. -/
def RowIdFits (row : Value F) : Prop := ∀ id ∈ rowIdOf row, id.utf8ByteSize < 2 ^ 63

omit [Float64 F] in
theorem RowIdFits.roundTrips {row : Value F} (h : RowIdFits row) :
    Codec.string.option.RoundTrips (rowIdOf row) := by
  cases hid : rowIdOf row with
  | none => exact Codec.option_none_roundTrips _
  | some id =>
    have hlt : id.utf8ByteSize < 2 ^ 63 := h id hid
    refine Codec.option_some_roundTrips (Codec.string_roundTrips ?_)
    rw [Array.length_toList]
    exact hlt.trans (by decide)

theorem tracks_new {newForFpRate : Nat → F → BloomHash String} {db : Db} {executionId : String}
    {timestamp : Int64} {config : StreamingDedupConfig F} {manager : DedupStateManager F}
    (h : DedupStateManager.new newForFpRate (some db) executionId timestamp config = .ok manager) :
    Tracks db ⟨manager, [], []⟩ := by
  unfold new at h
  split_ifs at h
  cases h
  refine ⟨rfl, by simp, ?_, ?_, fun _ _ => rfl, by simp, by simp⟩
  · intro k hk
    exact absurd rfl hk
  · intro k entry hk
    cases hk

/-- **The first row of each key is kept, and nothing else, exactly if no row has a key that was
lost, or a new key that the filter is wrong about and that an older run has left an entry
under.** For every filter, clock, cache size, memory limit, database and sequence of batches. -/
theorem keepsFirst_iff (newForFpRate : Nat → F → BloomHash String) (db : Db) (executionId : String)
    (timestamp : Int64) (config : StreamingDedupConfig F) (clock : Nat → Int64)
    {manager : DedupStateManager F}
    (hnew : DedupStateManager.new newForFpRate (some db) executionId timestamp config = .ok manager)
    (batches : List (List (String × Value F)))
    (hids : ∀ batch ∈ batches, ∀ keyed ∈ batch, RowIdFits keyed.2) :
    KeepsFirst (manager.processBatches clock .First batches).1 batches ↔
      DedupAudit.NoLostKey clock db ⟨manager, [], []⟩ batches :=
  (tracks_new hnew).keptBatches_iff clock
    (fun batch hbatch keyed hkeyed => (hids batch hbatch keyed hkeyed).roundTrips)

/-! ### Concrete runs -/

def exactFilter : BloomHash String where
  numberOfBits := 1024
  positive keys k := decide (k ∈ keys)
  complete _ _ h := decide_eq_true h

def smallConfig : StreamingDedupConfig Int where
  base := { method := .Exact, keyFields := ["id"], threshold := none, keep := .First }
  batchSize := 10000
  maxMemoryBytes := 100000000
  cacheSize := 1
  bloomExpectedItems := 1000000
  bloomFalsePositiveRate := 0

def smallManager : DedupStateManager Int where
  memoryCache := .empty 1 Nat.one_pos
  bloomFilter := .empty exactFilter
  rocksHandle := some (fun _ => none)
  keyPrefix := "dedup/exec/0"
  memoryLimit := 100000000
  stats := .zero
  currentIdx := 0

theorem new_smallManager :
    DedupStateManager.new (fun _ _ => exactFilter) (some (fun _ => none)) "exec" 0 smallConfig =
      .ok smallManager := by
  have hprefix : "dedup/" ++ "exec" ++ "/" ++ toString (0 : Int64) = "dedup/exec/0" := by
    decide +kernel
  unfold new
  rw [dif_pos (show 0 < smallConfig.cacheSize from Nat.one_pos), hprefix]
  rfl

def numbered (id : String) (n : JsonInt) : String × Value Int :=
  (id, .object [("id", .string id), ("n", .number (.int n))])

theorem numbered_rowIdFits (id : String) (n : JsonInt) : RowIdFits (numbered id n).2 := by
  intro rowId hrowId
  have hnone : rowIdOf (numbered id n).2 = none := by
    unfold rowIdOf numbered Value.get
    simp [BTreeMap.lookupList]
  rw [hnone] at hrowId
  cases hrowId

def twoBatches : List (List (String × Value Int)) :=
  [[numbered "a" (.ofByte 1), numbered "b" (.ofByte 2)],
    [numbered "a" (.ofByte 3), numbered "b" (.ofByte 4)]]

/-- One key is in the cache and one in RocksDB, and both are found in the second batch. -/
theorem keepsFirst_in_two_tiers :
    KeepsFirst (smallManager.processBatches (fun _ => 0) .First twoBatches).1 twoBatches := by
  have hids : ∀ batch ∈ twoBatches, ∀ keyed ∈ batch, RowIdFits keyed.2 := by
    unfold twoBatches
    simp only [List.mem_cons, List.not_mem_nil, or_false, forall_eq_or_imp, forall_eq]
    exact ⟨⟨numbered_rowIdFits _ _, numbered_rowIdFits _ _⟩, numbered_rowIdFits _ _,
      numbered_rowIdFits _ _⟩
  exact (keepsFirst_iff (fun _ _ => exactFilter) (fun _ => none) "exec" 0 smallConfig (fun _ => 0)
    new_smallManager twoBatches hids).mpr (by decide +kernel)

/-- `b` is found in RocksDB twice; the second time it takes the place of `a`. -/
def hotBatch : List (String × Value Int) :=
  [numbered "a" (.ofByte 1), numbered "b" (.ofByte 2), numbered "b" (.ofByte 3),
    numbered "b" (.ofByte 4), numbered "a" (.ofByte 5)]

/-- The next row of `a` is kept again. -/
theorem promotion_loses_key :
    DedupStateManager.new (fun _ _ => exactFilter) (some (fun _ => none)) "exec" 0 smallConfig =
        .ok smallManager ∧
      (smallManager.processBatches (fun _ => 0) .First [hotBatch]).1.flatten.map
          (fun decision => decision.keptRow.isSome) = [true, true, false, false, true] ∧
      (smallManager.processBatches (fun _ => 0) .First [hotBatch]).1.flatten.filterMap
          DedupDecision.keptRow ≠ (firsts Prod.fst hotBatch).map Prod.snd ∧
      ¬ KeepsFirst (smallManager.processBatches (fun _ => 0) .First [hotBatch]).1 [hotBatch] := by
  have hkept : (smallManager.processBatches (fun _ => 0) .First [hotBatch]).1.flatten.filterMap
      DedupDecision.keptRow ≠ (firsts Prod.fst hotBatch).map Prod.snd := by
    intro heq
    have hlength := congrArg List.length heq
    exact absurd hlength (by decide +kernel)
  exact ⟨new_smallManager, by decide +kernel, hkept, fun h => hkept h.filterMap_keptRow⟩

end Arcxa.Workflow
