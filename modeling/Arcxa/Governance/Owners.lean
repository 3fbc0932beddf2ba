import Arcxa.Lib.Cuts
import Arcxa.Lib.Distinct
import Arcxa.Governance.Registration

/-!
# The owners of the hashes

An end of a range is a `u64` and is not part of the range, so no range holds `u64::MAX`
(`not_contains_maxHash`): with a shard registered, that hash has no owner. The other hashes have
one owner after every registration, since all shards get the pieces between the cut points of
`partition_range`, and keep it until a shard is removed by force while others stay.
-/

namespace Arcxa.Governance

open AutoRegistrationHandler BTreeMap ClusterTopology

def OwnedOnce (t : ClusterTopology) (hash : UInt64) : Prop :=
  ∃! shardId, ∃ shard, t.shards.get shardId = some shard ∧ shard.hashRange.contains hash = true

/-- **No range holds the last hash.** -/
theorem not_contains_maxHash (range : HashRange) : range.contains maxHash = false := by
  rw [HashRange.contains, Bool.and_eq_false_iff]
  right
  rw [decide_eq_false_iff_not, UInt64.not_lt, UInt64.le_iff_toNat_le]
  have hlt := range.stop.toNat_lt
  show range.stop.toNat ≤ 2 ^ 64 - 1
  omega

variable {hash : UInt64}

theorem contains_iff {range : HashRange} :
    range.contains hash = true ↔
      range.start.toNat ≤ hash.toNat ∧ hash.toNat < range.stop.toNat := by
  rw [HashRange.contains, Bool.and_eq_true, decide_eq_true_eq, decide_eq_true_eq,
    UInt64.le_iff_toNat_le, UInt64.lt_iff_toNat_lt]

theorem toNat_lt_of_ne_maxHash (h : hash ≠ maxHash) : hash.toNat < 2 ^ 64 - 1 := by
  have hlt := hash.toNat_lt
  have hne : hash.toNat ≠ 2 ^ 64 - 1 := by
    intro heq
    apply h
    apply UInt64.toNat_inj.mp
    exact heq
  omega

variable {t : ClusterTopology}

theorem ownedOnce_of_pieces {ids : List Nat} {cut : Nat → Nat}
    (hmono : Monotone cut) (hids : ∀ k, k ∈ ids ↔ ∃ shard, t.shards.get k = some shard)
    (hranges : ∀ i k shard, ids[i]? = some k → t.shards.get k = some shard →
      shard.hashRange.start.toNat = cut i ∧ shard.hashRange.stop.toNat = cut (i + 1))
    {hash : UInt64} (hfirst : cut 0 ≤ hash.toNat) (hlast : hash.toNat < cut ids.length) :
    OwnedOnce t hash := by
  obtain ⟨i, ⟨hi, hlow, hhigh⟩, hunique⟩ := existsUnique_piece hmono hfirst hlast
  have hget : ids[i]? = some ids[i] := List.getElem?_eq_getElem hi
  obtain ⟨shard, hshard⟩ := (hids _).mp (List.getElem_mem hi)
  obtain ⟨hstart, hstop⟩ := hranges i _ shard hget hshard
  refine ⟨ids[i], ⟨shard, hshard, contains_iff.mpr (by omega)⟩, ?_⟩
  rintro k ⟨shard', hshard', hcontains⟩
  obtain ⟨j, hj⟩ := List.getElem?_of_mem ((hids k).mpr ⟨shard', hshard'⟩)
  obtain ⟨hstart', hstop'⟩ := hranges j k shard' hj hshard'
  rw [contains_iff, hstart', hstop'] at hcontains
  have hlt := (List.getElem?_eq_some_iff.mp hj).1
  have hji : j = i := hunique j ⟨hlt, hcontains⟩
  subst hji
  rw [hget] at hj
  exact (Option.some.inj hj).symm

theorem findShardForHash_of_ownedOnce (h : OwnedOnce t hash) :
    ∃ shard, ∀ order, order.Perm t.shards.values →
      ClusterTopology.findShardForHash order hash = some shard := by
  obtain ⟨shardId, ⟨shard, hshard, hcontains⟩, hunique⟩ := h
  refine ⟨shard, fun order horder => ?_⟩
  have hmem : shard ∈ order := horder.mem_iff.mpr (mem_values.mpr ⟨shardId, hshard⟩)
  have hsome : (order.find? (·.hashRange.contains hash)).isSome = true :=
    List.find?_isSome.mpr ⟨shard, hmem, hcontains⟩
  obtain ⟨found, hfound⟩ := Option.isSome_iff_exists.mp hsome
  have hfoundContains := List.find?_some hfound
  obtain ⟨k, hk⟩ := mem_values.mp (horder.mem_iff.mp (List.mem_of_find?_eq_some hfound))
  -- what was found is the one owner
  have hkeq : k = shardId := hunique k ⟨found, hk, hfoundContains⟩
  rw [hkeq, hshard] at hk
  rw [findShardForHash, hfound, Option.some.inj hk]

/-! ## The two partitions -/

theorem cutPoint_eq_min (total index : Nat) :
    cutPoint total index = min (index * 2 ^ 64 / total) (2 ^ 64 - 1) := by
  simp only [cutPoint]
  split_ifs <;> omega

theorem monotone_cutPoint (total : Nat) : Monotone (cutPoint total) := by
  intro i j hij
  rw [cutPoint_eq_min, cutPoint_eq_min]
  apply min_le_min_right
  exact Nat.div_le_div_right (Nat.mul_le_mul_right _ hij)

theorem cutPoint_zero (total : Nat) : cutPoint total 0 = 0 := by
  simp [cutPoint_eq_min]

theorem cutPoint_total {total : Nat} (h : 0 < total) : cutPoint total total = 2 ^ 64 - 1 := by
  rw [cutPoint_eq_min, Nat.mul_div_cancel_left _ h]
  rfl

theorem point_lt {index total : Nat} (h : index < total) : index * 2 ^ 64 / total < 2 ^ 64 := by
  rw [Nat.div_lt_iff_lt_mul (by omega), Nat.mul_comm]
  exact Nat.mul_lt_mul_of_pos_left h (by positivity)

theorem toNat_start_partitionRange {index total : Nat} (h : index < total) :
    (partitionRange index total).start.toNat = cutPoint total index := by
  have hlt := point_lt h
  show (UInt64.ofNat (index * 2 ^ 64 / total)).toNat = _
  rw [UInt64.toNat_ofNat_of_lt' hlt, cutPoint_eq_min]
  omega

theorem toNat_stop_partitionRange (index total : Nat) :
    (partitionRange index total).stop.toNat = cutPoint total (index + 1) := by
  show (UInt64.ofNat (cutPoint total (index + 1))).toNat = _
  apply UInt64.toNat_ofNat_of_lt'
  rw [cutPoint_eq_min]
  show min _ _ < 2 ^ 64
  omega

theorem cutPoint_lt_succ {index total : Nat} (h : index < total) (htotal : total < 2 ^ 32) :
    cutPoint total index < cutPoint total (index + 1) := by
  have hpos : 0 < total := by omega
  have hstep : index * 2 ^ 64 / total < (index + 1) * 2 ^ 64 / total := by
    have hle : index * 2 ^ 64 / total + 1 = (index * 2 ^ 64 + total) / total := by
      rw [Nat.add_div_right _ hpos]
    have hmono : (index * 2 ^ 64 + total) / total ≤ (index + 1) * 2 ^ 64 / total := by
      apply Nat.div_le_div_right
      rw [Nat.add_mul]
      omega
    omega
  have hlast : index * 2 ^ 64 / total < 2 ^ 64 - 1 := by
    rw [Nat.div_lt_iff_lt_mul hpos]
    calc index * 2 ^ 64 ≤ (total - 1) * 2 ^ 64 := Nat.mul_le_mul_right _ (by omega)
      _ < (2 ^ 64 - 1) * total := by
        have : (2 ^ 64 - 1) * total = total * 2 ^ 64 - total := by
          rw [Nat.sub_mul, Nat.one_mul, Nat.mul_comm]
        have : (total - 1) * 2 ^ 64 = total * 2 ^ 64 - 2 ^ 64 := by
          rw [Nat.sub_mul, Nat.one_mul]
        have : 2 ^ 64 ≤ total * 2 ^ 64 := Nat.le_mul_of_pos_left _ hpos
        omega
  rw [cutPoint_eq_min, cutPoint_eq_min]
  omega

/-! ## Rebalancing -/

/-- Every shard is under its own id, and the count is right. -/
structure Keyed (t : ClusterTopology) : Prop where
  shardId_eq : ∀ k shard, t.shards.get k = some shard → shard.shardId = k
  total_eq : t.totalShards = t.shards.keys.length

/-- The shards have the pieces of the partition, in the order of their ids. -/
structure Tiled (t : ClusterTopology) : Prop extends Keyed t where
  total_lt : t.totalShards < 2 ^ 32
  range_eq : ∀ i k shard, t.shards.keys[i]? = some k → t.shards.get k = some shard →
    shard.hashRange = partitionRange i t.totalShards

theorem Tiled.ownedOnce (h : Tiled t) (hne : t.shards.keys ≠ []) (hhash : hash ≠ maxHash) :
    OwnedOnce t hash := by
  have hpos : 0 < t.shards.keys.length := List.length_pos_iff.mpr hne
  refine ownedOnce_of_pieces (monotone_cutPoint t.totalShards) (fun k => mem_keys) ?_ ?_ ?_
  · intro i k shard hi hshard
    have hlt := (List.getElem?_eq_some_iff.mp hi).1
    rw [h.range_eq i k shard hi hshard]
    exact ⟨toNat_start_partitionRange (by rw [h.total_eq]; exact hlt), toNat_stop_partitionRange _ _⟩
  · rw [cutPoint_zero]
    exact Nat.zero_le _
  · rw [← h.total_eq, cutPoint_total (by rw [h.total_eq]; exact hpos)]
    exact toNat_lt_of_ne_maxHash hhash

theorem keyed_addShard (h : Keyed t) (shard : ShardMetadata) (now : UInt64) :
    Keyed (t.addShard shard now) := by
  refine ⟨?_, ?_⟩
  · intro k s hk
    have hget : (t.shards.insert shard.shardId shard).get k = some s := hk
    rw [get_insert] at hget
    split_ifs at hget with heq
    · cases hget
      exact heq.symm
    · exact h.shardId_eq k s hget
  · rw [length_keys]
    rfl

def reassign (total : Nat) (now : UInt64) (index : Nat) (shard : ShardMetadata) : ShardMetadata :=
  if shard.hashRange = partitionRange index total then shard
  else { shard with hashRange := partitionRange index total, updatedAt := now }

theorem hashRange_reassign (total : Nat) (now : UInt64) (index : Nat) (shard : ShardMetadata) :
    (reassign total now index shard).hashRange = partitionRange index total := by
  unfold reassign
  split_ifs with h
  · exact h
  · rfl

variable {r : ShardRegistry}

variable (h : Keyed r.topology)

include h

theorem get_rebalanceShard (total : Nat) (now : UInt64) (p : Nat × Nat) (k : Nat) :
    (rebalanceShard total now r p).topology.shards.get k =
      if k = p.1 then (r.topology.shards.get k).map (reassign total now p.2)
      else r.topology.shards.get k := by
  unfold rebalanceShard
  cases hget : r.topology.getShard p.1 with
  | none =>
    have hnone : r.topology.shards.get p.1 = none := hget
    split_ifs with hk
    · rw [hk, hnone]
      rfl
    · rfl
  | some shard =>
    have hsome : r.topology.shards.get p.1 = some shard := hget
    by_cases hrange : shard.hashRange = partitionRange p.2 total
    · simp only [if_pos hrange]
      split_ifs with hk
      · rw [hk, hsome, Option.map_some, reassign, if_pos hrange]
      · rfl
    · simp only [if_neg hrange]
      show (r.topology.shards.insert shard.shardId _).get k = _
      have hid : shard.shardId = p.1 := h.shardId_eq _ _ hsome
      rw [get_insert, hid]
      split_ifs with hk
      · rw [hk, hsome, Option.map_some, reassign, if_neg hrange, hid]
      · rfl

theorem keyed_rebalanceShard (total : Nat) (now : UInt64) (p : Nat × Nat) :
    Keyed (rebalanceShard total now r p).topology := by
  unfold rebalanceShard
  split
  · exact h
  · simp only
    split_ifs
    · exact h
    · exact keyed_addShard h _ now

theorem get_foldl_rebalanceShard (total : Nat) (now : UInt64) {pairs : List (Nat × Nat)}
    (hnodup : (pairs.map (·.1)).Nodup) :
    Keyed (pairs.foldl (rebalanceShard total now) r).topology ∧
    (∀ p ∈ pairs,
      (pairs.foldl (rebalanceShard total now) r).topology.shards.get p.1 =
        (r.topology.shards.get p.1).map (reassign total now p.2)) ∧
    (∀ k, k ∉ pairs.map (·.1) →
      (pairs.foldl (rebalanceShard total now) r).topology.shards.get k =
        r.topology.shards.get k) := by
  exact foldl_of_nodup_keys (rebalanceShard total now) (·.1) (fun r k => r.topology.shards.get k)
    (fun p => Option.map (reassign total now p.2)) (fun r => Keyed r.topology)
    (fun _ p hr => keyed_rebalanceShard hr total now p)
    (fun _ p k hr => get_rebalanceShard hr total now p k) hnodup h

theorem get_foldl_keys (total : Nat) (now : UInt64) (k : Nat) :
    (∀ i, r.topology.shards.keys[i]? = some k →
      (r.topology.shards.keys.zipIdx.foldl (rebalanceShard total now) r).topology.shards.get k =
        (r.topology.shards.get k).map (reassign total now i)) ∧
    Keyed (r.topology.shards.keys.zipIdx.foldl (rebalanceShard total now) r).topology ∧
    (r.topology.shards.keys.zipIdx.foldl (rebalanceShard total now) r).topology.shards.keys =
      r.topology.shards.keys := by
  have hfst : r.topology.shards.keys.zipIdx.map (·.1) = r.topology.shards.keys :=
    List.zipIdx_map_fst ..
  have hnodup : (r.topology.shards.keys.zipIdx.map (·.1)).Nodup := by
    rw [hfst]
    exact nodup_keys _
  obtain ⟨hkeyed, hin, hout⟩ := get_foldl_rebalanceShard h total now hnodup
  refine ⟨?_, hkeyed, ?_⟩
  · intro i hi
    exact hin (k, i) (List.mem_zipIdx_iff_getElem?.mpr hi)
  · -- a shard that is changed is still there
    apply keys_congr
    intro k'
    by_cases hk : k' ∈ r.topology.shards.keys
    · obtain ⟨i, hi⟩ := List.getElem?_of_mem hk
      rw [hin (k', i) (List.mem_zipIdx_iff_getElem?.mpr hi), Option.isSome_map]
    · rw [hout k' (by rw [hfst]; exact hk)]

theorem keys_rebalanceHashRanges (now : UInt64) :
    (rebalanceHashRanges r now).topology.shards.keys = r.topology.shards.keys := by
  unfold rebalanceHashRanges
  split_ifs
  · rfl
  · exact (get_foldl_keys h _ now 0).2.2

omit h

theorem tiled_of_keys_nil (h : Keyed t) (hempty : t.shards.keys = []) :
    Tiled t := by
  refine ⟨h, ?_, ?_⟩
  · rw [h.total_eq, hempty]
    decide
  · intro i k shard hi
    rw [hempty] at hi
    cases hi

/-- **Rebalancing deals the hash space out anew.** -/
theorem tiled_rebalanceHashRanges (h : Keyed r.topology)
    (hlt : r.topology.totalShards < 2 ^ 32) (now : UInt64) :
    Tiled (rebalanceHashRanges r now).topology := by
  unfold rebalanceHashRanges
  split_ifs with hzero
  · apply tiled_of_keys_nil h
    rw [← List.length_eq_zero_iff, ← h.total_eq, hzero]
  · obtain ⟨-, hkeyed, hkeys⟩ := get_foldl_keys h r.topology.totalShards now 0
    have htotal : (r.topology.shards.keys.zipIdx.foldl
        (rebalanceShard r.topology.totalShards now) r).topology.totalShards =
          r.topology.totalShards := by
      rw [hkeyed.total_eq, hkeys, h.total_eq]
    refine ⟨hkeyed, by rw [htotal]; exact hlt, ?_⟩
    intro i k shard hi hshard
    rw [hkeys] at hi
    rw [(get_foldl_keys h _ now k).1 i hi] at hshard
    obtain ⟨shard', -, rfl⟩ := Option.map_eq_some_iff.mp hshard
    rw [htotal]
    exact hashRange_reassign _ _ _ _

/-! ## Calls -/

variable {f : ShardMetadata → ShardMetadata}

theorem get_modifyShard {shardId : Nat}
    {message : String} {fault : Fault} {k : Nat} {s : ShardMetadata}
    (hs : (r.modifyShard shardId f message fault).1.topology.shards.get k = some s) :
    r.topology.shards.get k = some s ∨ ∃ shard, r.topology.shards.get k = some shard ∧ s = f shard := by
  cases hget : r.topology.getShard shardId with
  | none =>
    rw [modifyShard_none hget] at hs
    exact .inl hs
  | some shard =>
    rw [(modifyShard_some f message fault hget).1, setShard,
      get_insert] at hs
    split_ifs at hs with hk
    · cases hs
      exact .inr ⟨shard, hk ▸ hget, rfl⟩
    · exact .inl hs

theorem keys_modifyShard (r : ShardRegistry) (shardId : Nat) (f : ShardMetadata → ShardMetadata)
    (message : String) (fault : Fault) :
    (r.modifyShard shardId f message fault).1.topology.shards.keys = r.topology.shards.keys := by
  cases hget : r.topology.getShard shardId with
  | none => rw [modifyShard_none hget]
  | some shard =>
    rw [(modifyShard_some f message fault hget).1]
    exact keys_insert_of_get hget

theorem totalShards_modifyShard (r : ShardRegistry) (shardId : Nat)
    (f : ShardMetadata → ShardMetadata) (message : String) (fault : Fault) :
    (r.modifyShard shardId f message fault).1.topology.totalShards = r.topology.totalShards := by
  cases hget : r.topology.getShard shardId with
  | none => rw [modifyShard_none hget]
  | some shard =>
    rw [(modifyShard_some f message fault hget).1]
    rfl

theorem Keyed.modifyShard (h : Keyed r.topology) (hid : ∀ shard, (f shard).shardId = shard.shardId)
    (shardId : Nat) (message : String) (fault : Fault) :
    Keyed (r.modifyShard shardId f message fault).1.topology := by
  refine ⟨?_, ?_⟩
  · intro k s hs
    rcases get_modifyShard hs with hs | ⟨shard, hshard, rfl⟩
    · exact h.shardId_eq k s hs
    · rw [hid]
      exact h.shardId_eq k shard hshard
  · rw [totalShards_modifyShard, keys_modifyShard]
    exact h.total_eq

theorem Tiled.modifyShard (h : Tiled r.topology)
    (hid : ∀ shard, (f shard).shardId = shard.shardId)
    (hrange : ∀ shard, (f shard).hashRange = shard.hashRange) (shardId : Nat) (message : String)
    (fault : Fault) : Tiled (r.modifyShard shardId f message fault).1.topology := by
  refine ⟨h.toKeyed.modifyShard hid shardId message fault, ?_, ?_⟩
  · rw [totalShards_modifyShard]
    exact h.total_lt
  · intro i k s hi hs
    rw [keys_modifyShard] at hi
    rw [totalShards_modifyShard]
    rcases get_modifyShard hs with hs | ⟨shard, hshard, rfl⟩
    · exact h.range_eq i k s hi hs
    · rw [hrange]
      exact h.range_eq i k shard hi hshard

namespace AutoRegistrationHandler

variable {handler : AutoRegistrationHandler}

theorem findExistingShard_registry (machineId : String) :
    (handler.findExistingShard machineId).1.registry = handler.registry ∧
    (handler.findExistingShard machineId).1.config = handler.config := by
  unfold findExistingShard
  split
  · exact ⟨rfl, rfl⟩
  · split
    · exact ⟨rfl, rfl⟩
    · exact ⟨rfl, rfl⟩

theorem tiled_addNewShard (h : Tiled handler.registry.topology)
    (hmax : handler.registry.topology.totalShards < handler.config.maxShards.toNat)
    (machineId address : String) (now : UInt64) (shardId : Nat) (hashRange : HashRange) :
    Tiled (handler.addNewShard machineId address now shardId hashRange).1.registry.topology := by
  have hkeyed := keyed_addShard h.toKeyed (newShard shardId hashRange address now) now
  apply tiled_rebalanceHashRanges hkeyed
  -- one shard more than before, and the limit is a `u32`
  have hlimit := handler.config.maxShards.toNat_lt
  have hcount : ((handler.registry.topology.addShard (newShard shardId hashRange address now)
      now).shards.keys).length ≤ handler.registry.topology.totalShards + 1 := by
    rw [h.total_eq]
    exact length_keys_insert_le _ _ _
  show (handler.registry.topology.addShard (newShard shardId hashRange address now)
      now).totalShards < 2 ^ 32
  rw [hkeyed.total_eq]
  omega

theorem tiled_registerNewShard (isUuid : String → Bool) (h : Tiled handler.registry.topology)
    (machineId address : String) (now : UInt64) :
    Tiled (handler.registerNewShard isUuid machineId address now).1.registry.topology := by
  unfold registerNewShard
  split
  · exact h
  · have hfound : (if handler.config.allowDuplicateMachines = true then (handler, none)
        else handler.findExistingShard machineId).1.registry = handler.registry ∧
      (if handler.config.allowDuplicateMachines = true then (handler, none)
        else handler.findExistingShard machineId).1.config = handler.config := by
      split_ifs
      · exact ⟨rfl, rfl⟩
      · exact findExistingShard_registry machineId
    generalize (if handler.config.allowDuplicateMachines = true then (handler, none)
        else handler.findExistingShard machineId) = found at hfound
    obtain ⟨handler', existing⟩ := found
    obtain ⟨hregistry, hconfig⟩ := hfound
    have h' : Tiled handler'.registry.topology := by
      rw [show handler'.registry = handler.registry from hregistry]
      exact h
    cases existing with
    | some existingId => exact h'
    | none =>
      simp only
      split_ifs with hmax
      · exact h'
      · split
        · exact h'
        · exact tiled_addNewShard h' (by omega) machineId address now _ _

theorem tiled_refreshShard (h : Tiled handler.registry.topology) (shardId : Nat)
    (machineId address : String) (now : UInt64) :
    Tiled (handler.refreshShard shardId machineId address now).registry.topology := by
  have haddress := h.modifyShard (f := ({ · with leaderAddress := address, updatedAt := now }))
    (fun _ => rfl) (fun _ => rfl) shardId "Failed to update shard address in RocksDB" none
  have hstatus := haddress.modifyShard (f := ({ · with status := .Active })) (fun _ => rfl)
    (fun _ => rfl) shardId "Failed to update shard in RocksDB" none
  exact hstatus.modifyShard (f := (·.heartbeat now)) (fun _ => rfl) (fun _ => rfl) shardId
    "Failed to update shard in RocksDB" none

theorem tiled_reconnectShard (h : Tiled handler.registry.topology) (shardId : Nat)
    (machineId address : String) (now : UInt64) :
    Tiled (handler.reconnectShard shardId machineId address now).1.registry.topology := by
  unfold reconnectShard
  split
  · exact h
  · simp only
    split
    · split_ifs
      · exact h
      · exact tiled_refreshShard h shardId machineId address now
    · have hstored : Tiled ({ handler with
          registry := handler.registry.storeMachineIdMapping machineId shardId } :
            AutoRegistrationHandler).registry.topology := h
      exact tiled_refreshShard hstored shardId machineId address now

theorem topology_removeShard (shardId : Nat) (machineId : String) (now : UInt64) :
    (handler.removeShard shardId machineId now).registry.topology =
      (handler.registry.topology.removeShard shardId now).1 := by
  show ((handler.registry.unregisterShard shardId now none).1).topology = _
  cases hget : handler.registry.topology.getShard shardId with
  | none =>
    have hnone : handler.registry.topology.shards.get shardId = none := hget
    rw [unregisterShard_none hget]
    simp only [ClusterTopology.removeShard, hnone]
  | some shard =>
    have hsome : handler.registry.topology.shards.get shardId = some shard := hget
    rw [unregisterShard_some hget]
    simp only [ClusterTopology.removeShard, hsome]
    rfl

end AutoRegistrationHandler

/-! ## Gaps -/

/-- With a shard registered, every hash for which `P` holds has exactly one owner. -/
def Covers (P : UInt64 → Prop) (t : ClusterTopology) : Prop :=
  t.shards.keys ≠ [] → ∀ hash, P hash → OwnedOnce t hash

/-- A removal by force that the handler carries out is of an unknown shard or of the last one. -/
def LeavesNoGap (handler : AutoRegistrationHandler) : HandlerAction → Prop
  | .register _ _ _ => True
  | .reconnect _ _ _ _ => True
  | .deregister shardId machineId graceful _ =>
    graceful = true ∨
    (∃ stored, handler.registry.getStoredMachineId shardId = some stored ∧ stored ≠ machineId) ∨
    handler.registry.topology.getShard shardId = none ∨
    handler.registry.topology.shards.keys = [shardId]

theorem keyed_removeShard (h : Keyed t) (shardId : Nat) (now : UInt64) :
    Keyed (t.removeShard shardId now).1 := by
  unfold ClusterTopology.removeShard
  split
  · refine ⟨?_, ?_⟩
    · intro k s hs
      have hget : (t.shards.remove shardId).get k = some s := hs
      rw [get_remove] at hget
      split_ifs at hget
      exact h.shardId_eq k s hget
    · rw [length_keys]
      rfl
  · exact h

theorem keys_removeShard_ne_nil {shardId : Nat}
    (hmem : shardId ∈ t.shards.keys) (hothers : t.shards.keys ≠ [shardId]) (now : UInt64) :
    (t.removeShard shardId now).1.shards.keys ≠ [] := by
  intro hempty
  apply hothers
  have hall : ∀ k ∈ t.shards.keys, k = shardId := by
    intro k hk
    by_contra hne
    obtain ⟨s, hs⟩ := mem_keys.mp hk
    have hstays : k ∈ (t.removeShard shardId now).1.shards.keys := by
      refine mem_keys.mpr ⟨s, ?_⟩
      rw [get_removeShard, if_neg hne, hs]
    rw [hempty] at hstays
    cases hstays
  -- the keys are different, so there is room for one
  have hsame : t.shards.keys = List.replicate t.shards.keys.length shardId :=
    List.eq_replicate_of_mem hall
  have hle : t.shards.keys.length ≤ 1 := by
    have hnodup := nodup_keys t.shards
    rw [hsame, List.nodup_replicate] at hnodup
    simpa using hnodup
  have hpos : 0 < t.shards.keys.length := List.length_pos_of_mem hmem
  rw [hsame, show t.shards.keys.length = 1 by omega]
  rfl

theorem keys_removeShard_of_last {shardId : Nat}
    (hlast : t.shards.keys = [shardId]) (now : UInt64) :
    (t.removeShard shardId now).1.shards.keys = [] := by
  apply List.eq_nil_iff_forall_not_mem.mpr
  intro k hk
  obtain ⟨s, hs⟩ := mem_keys.mp hk
  rw [get_removeShard] at hs
  split_ifs at hs with hne
  have hmem := mem_keys.mpr ⟨s, hs⟩
  rw [hlast] at hmem
  exact hne (List.mem_singleton.mp hmem)

theorem start_partitionRange_ne_maxHash {index total : Nat} (h : index < total)
    (htotal : total < 2 ^ 32) : (partitionRange index total).start ≠ maxHash := by
  intro heq
  have hstart := toNat_start_partitionRange h
  rw [heq, show maxHash.toNat = 2 ^ 64 - 1 by decide] at hstart
  have hpiece := cutPoint_lt_succ h htotal
  have hmax : cutPoint total (index + 1) ≤ 2 ^ 64 - 1 := by
    rw [cutPoint_eq_min]
    exact min_le_right _ _
  omega

/-- **A shard that goes leaves a gap**: the first hash of its range has no owner any more. -/
theorem not_covers_removeShard (h : Tiled t) {shardId : Nat}
    {shard : ShardMetadata} (hget : t.shards.get shardId = some shard)
    (hothers : t.shards.keys ≠ [shardId]) (now : UInt64) :
    ¬ Covers (· ≠ maxHash) (t.removeShard shardId now).1 := by
  intro hcovers
  have hmem : shardId ∈ t.shards.keys := mem_keys.mpr ⟨shard, hget⟩
  obtain ⟨i, hi⟩ := List.getElem?_of_mem hmem
  have hlt : i < t.totalShards := by
    rw [h.total_eq]
    exact (List.getElem?_eq_some_iff.mp hi).1
  have hrange := h.range_eq i shardId shard hi hget
  have hstart := start_partitionRange_ne_maxHash hlt h.total_lt
  obtain ⟨k, ⟨s, hs, hcontains⟩, -⟩ :=
    hcovers (keys_removeShard_ne_nil hmem hothers now) _ hstart
  rw [get_removeShard] at hs
  split_ifs at hs with hk
  -- two shards would have owned it before
  have howned := h.ownedOnce (List.ne_nil_of_mem hmem) hstart
  apply hk
  refine howned.unique ⟨s, hs, hcontains⟩ ⟨shard, hget, ?_⟩
  rw [contains_iff, hrange, toNat_start_partitionRange hlt, toNat_stop_partitionRange]
  exact ⟨le_refl _, cutPoint_lt_succ hlt h.total_lt⟩

theorem Tiled.covers (h : Tiled t) : Covers (· ≠ maxHash) t :=
  fun hne _ hhash => h.ownedOnce hne hhash

theorem covers_iff_leavesNoGap (isUuid : String → Bool) {handler : AutoRegistrationHandler}
    (h : Tiled handler.registry.topology) (action : HandlerAction) :
    (Covers (· ≠ maxHash) (handlerStep isUuid handler action).registry.topology ↔
      LeavesNoGap handler action) ∧
    (LeavesNoGap handler action → Tiled (handlerStep isUuid handler action).registry.topology) := by
  cases action with
  | register machineId address now =>
    have htiled := tiled_registerNewShard isUuid h machineId address now
    exact ⟨iff_of_true htiled.covers trivial, fun _ => htiled⟩
  | reconnect shardId machineId address now =>
    have htiled := tiled_reconnectShard h shardId machineId address now
    exact ⟨iff_of_true htiled.covers trivial, fun _ => htiled⟩
  | deregister shardId machineId graceful now =>
    rw [handlerStep, deregisterShard]
    by_cases hother : (handler.registry.getStoredMachineId shardId).any (· ≠ machineId) = true
    · rw [if_pos hother]
      obtain ⟨stored, hstored, hne⟩ := (Option.any_eq_true _ _).mp hother
      exact ⟨iff_of_true h.covers (.inr (.inl ⟨stored, hstored, by simpa using hne⟩)), fun _ => h⟩
    rw [if_neg hother]
    cases graceful with
    | true =>
      have htiled := h.modifyShard (f := ({ · with status := .Draining })) (fun _ => rfl)
        (fun _ => rfl) shardId "Failed to update shard in RocksDB" none
      exact ⟨iff_of_true htiled.covers (.inl rfl), fun _ => htiled⟩
    | false =>
      rw [if_neg (by decide), topology_removeShard]
      have hsame : ¬ ∃ stored, handler.registry.getStoredMachineId shardId = some stored ∧
          stored ≠ machineId := by
        rintro ⟨stored, hstored, hne⟩
        exact hother ((Option.any_eq_true _ _).mpr ⟨stored, hstored, by simpa using hne⟩)
      have hkeyed := keyed_removeShard h.toKeyed shardId now
      cases hget : handler.registry.topology.getShard shardId with
      | none =>
        have hnone : handler.registry.topology.shards.get shardId = none := hget
        have hunchanged : (handler.registry.topology.removeShard shardId now).1 =
            handler.registry.topology := by
          simp only [ClusterTopology.removeShard, hnone]
        rw [hunchanged]
        exact ⟨iff_of_true h.covers (.inr (.inr (.inl hget))), fun _ => h⟩
      | some shard =>
        by_cases hlast : handler.registry.topology.shards.keys = [shardId]
        · have hempty := keys_removeShard_of_last hlast now
          have htiled := tiled_of_keys_nil hkeyed hempty
          exact ⟨iff_of_true htiled.covers (.inr (.inr (.inr hlast))), fun _ => htiled⟩
        · have hgap : ¬ LeavesNoGap handler (.deregister shardId machineId false now) := by
            rintro (hgraceful | hmismatch | hunknown | hone)
            · cases hgraceful
            · exact hsame hmismatch
            · rw [hget] at hunknown
              cases hunknown
            · exact hlast hone
          exact ⟨iff_of_false (not_covers_removeShard h hget hlast now) hgap,
            fun hok => absurd hok hgap⟩

/-! ## Automatic registration -/

/-- The cut points of `distribute`. -/
def autoCut (numShards index : Nat) : Nat :=
  if index < numShards then index * ((2 ^ 64 - 1) / numShards) else 2 ^ 64 - 1

theorem mul_share_le {numShards index : Nat} (h : index ≤ numShards) :
    index * ((2 ^ 64 - 1) / numShards) ≤ 2 ^ 64 - 1 :=
  le_trans (Nat.mul_le_mul_right _ h) (Nat.mul_div_le _ _)

theorem monotone_autoCut (numShards : Nat) : Monotone (autoCut numShards) := by
  intro i j hij
  unfold autoCut
  split_ifs with hi hj
  · exact Nat.mul_le_mul_right _ hij
  · exact mul_share_le hi.le
  · omega
  · exact le_refl _

theorem toNat_share {numShards index : Nat} (h : index < numShards) :
    (HashRange.share numShards index).start.toNat = autoCut numShards index ∧
    (HashRange.share numShards index).stop.toNat = autoCut numShards (index + 1) := by
  have hstart := mul_share_le h.le
  have hstop : (index + 1) * ((2 ^ 64 - 1) / numShards) ≤ 2 ^ 64 - 1 := mul_share_le h
  refine ⟨?_, ?_⟩
  · rw [autoCut, if_pos h]
    show (UInt64.ofNat (index * ((2 ^ 64 - 1) / numShards))).toNat = _
    exact UInt64.toNat_ofNat_of_lt' (by show _ < 2 ^ 64; omega)
  · show (if index = numShards - 1 then maxHash else
      UInt64.ofNat ((index + 1) * ((2 ^ 64 - 1) / numShards))).toNat = _
    unfold autoCut
    by_cases hlast : index = numShards - 1
    · rw [if_pos hlast, if_neg (by omega)]
      rfl
    · rw [if_neg hlast, if_pos (by omega)]
      exact UInt64.toNat_ofNat_of_lt' (by show _ < 2 ^ 64; omega)

/-- The shard of `register_shards_auto` at an index. -/
def autoShard (numShards : Nat) (now : UInt64) (p : (Nat × String × List String) × Nat) :
    ShardMetadata :=
  ShardMetadata.new p.1.1 (HashRange.share numShards p.2) p.1.2.1 p.1.2.2 now

theorem foldlM_registerShard (numShards : Nat) (now : UInt64)
    {pairs : List ((Nat × String × List String) × Nat)} (hlt : ∀ p ∈ pairs, p.2 < numShards)
    (r : ShardRegistry) :
    pairs.foldlM (fun r (shard, i) =>
        ((List.range numShards).map (HashRange.share numShards))[i]?.map fun hashRange =>
          (r.registerShard (ShardMetadata.new shard.1 hashRange shard.2.1 shard.2.2 now) now
            none).1) r =
      some (pairs.foldl (fun r p => (r.registerShard (autoShard numShards now p) now none).1) r) := by
  induction pairs generalizing r with
  | nil => rfl
  | cons p pairs ih =>
    have hp : p.2 < numShards := hlt p (List.mem_cons_self ..)
    have hget : ((List.range numShards).map (HashRange.share numShards))[p.2]? =
        some (HashRange.share numShards p.2) := by
      rw [List.getElem?_map, List.getElem?_range hp, Option.map_some]
    rw [List.foldlM_cons, List.foldl_cons]
    simp only [hget, Option.map_some]
    exact ih (fun q hq => hlt q (List.mem_cons_of_mem _ hq)) _

theorem get_foldl_registerShard (numShards : Nat) (now : UInt64)
    {pairs : List ((Nat × String × List String) × Nat)} (hnodup : (pairs.map (·.1.1)).Nodup)
    (r : ShardRegistry) :
    (∀ p ∈ pairs,
      (pairs.foldl (fun r p => (r.registerShard (autoShard numShards now p) now none).1) r
        ).topology.shards.get p.1.1 = some (autoShard numShards now p)) ∧
    (∀ k, k ∉ pairs.map (·.1.1) →
      (pairs.foldl (fun r p => (r.registerShard (autoShard numShards now p) now none).1) r
        ).topology.shards.get k = r.topology.shards.get k) :=
  (foldl_of_nodup_keys
    (fun (r : ShardRegistry) p => (r.registerShard (autoShard numShards now p) now none).1) (·.1.1)
    (fun r k => r.topology.shards.get k)
    (fun p _ => some (autoShard numShards now p)) (fun _ => True) (fun _ _ _ => trivial)
    (fun _ _ _ _ => BTreeMap.get_insert ..) hnodup trivial).2

theorem covers_all_iff (t : ClusterTopology) : Covers (fun _ => True) t ↔ t.shards.keys = [] := by
  constructor
  · intro h
    by_contra hne
    obtain ⟨k, ⟨shard, -, hcontains⟩, -⟩ := h hne maxHash trivial
    rw [not_contains_maxHash] at hcontains
    cases hcontains
  · intro h hne
    exact absurd h hne

variable {addresses : List (Nat × String × List String)}

theorem length_le_of_u32
    (hnodup : (addresses.map (·.1)).Nodup) (hu32 : ∀ p ∈ addresses, p.1 < 2 ^ 32) :
    addresses.length ≤ 2 ^ 32 := by
  have hsub : addresses.map (·.1) ⊆ List.range (2 ^ 32) := by
    intro k hk
    obtain ⟨p, hp, rfl⟩ := List.mem_map.mp hk
    exact List.mem_range.mpr (hu32 p hp)
  have hlength := (hnodup.subperm hsub).length_le
  rwa [List.length_map, List.length_range] at hlength

theorem map_zipIdx_id (addresses : List (Nat × String × List String)) :
    addresses.zipIdx.map (·.1.1) = addresses.map (·.1) := by
  calc addresses.zipIdx.map (·.1.1) = (addresses.zipIdx.map (·.1)).map (·.1) :=
        List.map_map.symm
    _ = addresses.map (·.1) := by rw [List.zipIdx_map_fst]

theorem registerShardsAuto_spec (hne : addresses ≠ [])
    (hlt : addresses.length < 2 ^ 32) (hnodup : (addresses.map (·.1)).Nodup) (now : UInt64) :
    ∃ r', r.registerShardsAuto addresses now = some r' ∧
      (∀ i (hi : i < addresses.length), r'.topology.shards.get addresses[i].1 =
        some (autoShard addresses.length now (addresses[i], i))) ∧
      ∀ k, k ∉ addresses.map (·.1) → r'.topology.shards.get k = r.topology.shards.get k := by
  have hpos : 0 < addresses.length := List.length_pos_iff.mpr hne
  have hidx : ∀ p ∈ addresses.zipIdx, p.2 < addresses.length := by
    intro p hp
    exact (List.getElem?_eq_some_iff.mp (List.mem_zipIdx_iff_getElem?.mp hp)).1
  obtain ⟨hin, hout⟩ := get_foldl_registerShard addresses.length now
    (by rw [map_zipIdx_id]; exact hnodup) r
  refine ⟨addresses.zipIdx.foldl
    (fun r p => (r.registerShard (autoShard addresses.length now p) now none).1) r, ?_, ?_, ?_⟩
  · -- no cast, no division by zero
    rw [ShardRegistry.registerShardsAuto, Nat.mod_eq_of_lt hlt, HashRange.distribute,
      if_neg (by omega), Option.bind_some]
    exact foldlM_registerShard addresses.length now hidx r
  · intro i hi
    refine hin (addresses[i], i) ?_
    exact List.mem_zipIdx_iff_getElem?.mpr (List.getElem?_eq_getElem hi)
  · intro k hk
    exact hout k (by rw [map_zipIdx_id]; exact hk)

/-- **After an automatic registration** every hash but the last has one owner, unless all ids
that a `u32` holds were given: then their number is cast to 0. -/
theorem covers_registerShardsAuto (hempty : r.topology.shards.keys = []) (hne : addresses ≠ [])
    (hnodup : (addresses.map (·.1)).Nodup) (hu32 : ∀ p ∈ addresses, p.1 < 2 ^ 32) (now : UInt64) :
    match r.registerShardsAuto addresses now with
    | none => addresses.length = 2 ^ 32
    | some r' => Covers (· ≠ maxHash) r'.topology ∧ ¬ Covers (fun _ => True) r'.topology := by
  have hpos : 0 < addresses.length := List.length_pos_iff.mpr hne
  rcases Nat.eq_or_lt_of_le (length_le_of_u32 hnodup hu32) with heq | hlt
  · have hnone : r.registerShardsAuto addresses now = none := by
      rw [ShardRegistry.registerShardsAuto, heq]
      rfl
    rw [hnone]
    exact heq
  obtain ⟨r', hsome, hentry, hother⟩ := registerShardsAuto_spec (r := r) hne hlt hnodup now
  rw [hsome]
  have hregistered : ∀ k, k ∈ addresses.map (·.1) ↔
      ∃ shard, r'.topology.shards.get k = some shard := by
    intro k
    constructor
    · intro hk
      obtain ⟨p, hp, rfl⟩ := List.mem_map.mp hk
      obtain ⟨i, hi, rfl⟩ := List.mem_iff_getElem.mp hp
      exact ⟨_, hentry i hi⟩
    · rintro ⟨shard, hshard⟩
      by_contra hk
      rw [hother k hk] at hshard
      have hmem := mem_keys.mpr ⟨shard, hshard⟩
      rw [hempty] at hmem
      exact List.not_mem_nil hmem
  refine ⟨?_, ?_⟩
  · intro _ hash hhash
    refine ownedOnce_of_pieces (monotone_autoCut addresses.length) hregistered ?_ ?_ ?_
    · intro i k shard hi hshard
      rw [List.getElem?_map] at hi
      obtain ⟨p, hp, rfl⟩ := Option.map_eq_some_iff.mp hi
      obtain ⟨hlen, rfl⟩ := List.getElem?_eq_some_iff.mp hp
      rw [hentry i hlen] at hshard
      cases hshard
      exact toNat_share hlen
    · rw [autoCut, if_pos hpos, Nat.zero_mul]
      exact Nat.zero_le _
    · rw [List.length_map, autoCut, if_neg (lt_irrefl _)]
      exact toNat_lt_of_ne_maxHash hhash
  · rw [covers_all_iff]
    apply List.ne_nil_of_mem (a := addresses[0].1)
    exact mem_keys.mpr ⟨_, hentry 0 hpos⟩

/-! ## Runs -/

def ValidRegistration (isUuid : String → Bool) : HandlerAction → Prop
  | .register machineId _ _ => machineId.isEmpty = false ∧ isUuid machineId = true
  | .reconnect _ _ _ _ => False
  | .deregister _ _ _ _ => False

/-- Nothing has been registered. -/
structure Fresh (handler : AutoRegistrationHandler) : Prop where
  shards_eq : handler.registry.topology.shards = .empty
  total_eq : handler.registry.topology.totalShards = 0
  machineIds_eq : handler.registry.db.machineIds = .empty
  machineIdMap_eq : handler.machineIdMap = .empty

namespace Fresh

variable {isUuid : String → Bool} {handler : AutoRegistrationHandler}

theorem getShard_eq (h : Fresh handler) (shardId : Nat) :
    handler.registry.topology.getShard shardId = none := by
  rw [getShard, h.shards_eq]
  rfl

theorem getStoredMachineId_eq (h : Fresh handler) (shardId : Nat) :
    handler.registry.getStoredMachineId shardId = none := by
  rw [ShardRegistry.getStoredMachineId, h.machineIds_eq]
  rfl

theorem findExistingShard_eq (h : Fresh handler) (machineId : String) :
    handler.findExistingShard machineId = (handler, none) := by
  rw [findExistingShard, h.machineIdMap_eq, h.shards_eq]
  rfl

theorem keyed (h : Fresh handler) : Keyed handler.registry.topology := by
  refine ⟨?_, ?_⟩
  · intro k shard hshard
    rw [h.shards_eq] at hshard
    cases hshard
  · rw [h.shards_eq, h.total_eq]
    rfl

theorem registerNewShard_eq (h : Fresh handler) (machineId address : String) (now : UInt64) :
    (handler.registerNewShard isUuid machineId address now).1 =
      if (machineId.isEmpty = false ∧ isUuid machineId = true) ∧ 0 < handler.config.maxShards.toNat
      then (handler.addNewShard machineId address now 0 ⟨0, maxHash⟩).1 else handler := by
  have hfound : (if handler.config.allowDuplicateMachines = true then (handler, none)
      else handler.findExistingShard machineId) = (handler, none) := by
    rw [h.findExistingShard_eq, ite_self]
  have hallocate : handler.registry.topology.allocateShardId = 0 := by
    rw [allocateShardId, h.shards_eq]
    rfl
  have hrange : handler.registry.topology.calculateHashRangeForNewShard 0 = .ok ⟨0, maxHash⟩ := by
    rw [calculateHashRangeForNewShard, h.shards_eq]
    rfl
  cases hvalidate : validateMachineId isUuid machineId with
  | error e =>
    have hinvalid : ¬ (machineId.isEmpty = false ∧ isUuid machineId = true) := by
      rintro ⟨hempty, huuid⟩
      rw [validateMachineId, hempty, huuid] at hvalidate
      cases hvalidate
    rw [if_neg (fun hvalid => hinvalid hvalid.1)]
    simp only [registerNewShard, hvalidate]
  | ok u =>
    have hvalid : machineId.isEmpty = false ∧ isUuid machineId = true := by
      simp only [validateMachineId] at hvalidate
      split_ifs at hvalidate with hempty huuid
      exact ⟨by simpa using hempty, by simpa using huuid⟩
    simp only [registerNewShard, hvalidate, hfound, h.total_eq, hallocate,
      hrange]
    by_cases hmax : handler.config.maxShards.toNat ≤ 0
    · rw [if_pos hmax, if_neg (fun hboth => absurd hboth.2 (by omega))]
    · rw [if_neg hmax, if_pos ⟨hvalid, by omega⟩]

theorem handlerStep (h : Fresh handler) {action : HandlerAction}
    (hinvalid : ¬ (ValidRegistration isUuid action ∧ 0 < handler.config.maxShards.toNat)) :
    Fresh (handlerStep isUuid handler action) ∧
      (Governance.handlerStep isUuid handler action).config = handler.config := by
  cases action with
  | register machineId address now =>
    have hcheck : ¬ ((machineId.isEmpty = false ∧ isUuid machineId = true) ∧
        0 < handler.config.maxShards.toNat) := hinvalid
    rw [Governance.handlerStep, h.registerNewShard_eq, if_neg hcheck]
    exact ⟨h, rfl⟩
  | reconnect shardId machineId address now =>
    rw [Governance.handlerStep, reconnectShard, h.getShard_eq]
    exact ⟨h, rfl⟩
  | deregister shardId machineId graceful now =>
    rw [Governance.handlerStep, deregisterShard, h.getStoredMachineId_eq,
      if_neg (by simp)]
    cases graceful with
    | true =>
      rw [if_pos rfl]
      simp only [ShardRegistry.updateShardStatus, modifyShard_none (h.getShard_eq shardId)]
      exact ⟨h, trivial⟩
    | false =>
      rw [if_neg (by decide)]
      refine ⟨⟨?_, ?_, ?_, ?_⟩, rfl⟩
      all_goals
        simp only [AutoRegistrationHandler.removeShard, unregisterShard_none (h.getShard_eq shardId),
          ShardRegistry.deleteMachineIdMapping]
      · exact h.shards_eq
      · exact h.total_eq
      · rw [h.machineIds_eq]
        rfl
      · simp only [h.machineIdMap_eq]
        rfl

theorem keys_registerNewShard (h : Fresh handler) {action : HandlerAction}
    (hvalid : ValidRegistration isUuid action) (hmax : 0 < handler.config.maxShards.toNat) :
    (Governance.handlerStep isUuid handler action).registry.topology.shards.keys ≠ [] := by
  cases action with
  | reconnect => cases hvalid
  | deregister => cases hvalid
  | register machineId address now =>
    have hcheck : (machineId.isEmpty = false ∧ isUuid machineId = true) ∧
        0 < handler.config.maxShards.toNat := ⟨hvalid, hmax⟩
    rw [Governance.handlerStep, h.registerNewShard_eq, if_pos hcheck]
    have hkeyed := keyed_addShard h.keyed
      (newShard 0 ⟨0, maxHash⟩ address now) now
    have hkeys := keys_rebalanceHashRanges (r := (handler.registry.registerShard
      (newShard 0 ⟨0, maxHash⟩ address now) now none).1.storeMachineIdMapping
        machineId 0) hkeyed now
    show (rebalanceHashRanges _ now).topology.shards.keys ≠ []
    rw [hkeys]
    apply List.ne_nil_of_mem (a := 0)
    refine mem_keys.mpr ⟨newShard 0 ⟨0, maxHash⟩ address now, ?_⟩
    show (handler.registry.topology.shards.insert 0 _).get 0 = _
    rw [get_insert, if_pos rfl]

end Fresh

theorem okAlong_covers_all {isUuid : String → Bool} {handler : AutoRegistrationHandler}
    (h : Fresh handler) (actions : List HandlerAction) :
    OkAlong (fun handler action => some (handlerStep isUuid handler action))
        (fun handler action =>
          Covers (fun _ => True) (handlerStep isUuid handler action).registry.topology)
        handler actions ↔
      handler.config.maxShards.toNat = 0 ∨ ∀ action ∈ actions, ¬ ValidRegistration isUuid action := by
  induction actions generalizing handler with
  | nil => exact iff_of_true trivial (.inr (fun action hmem => absurd hmem List.not_mem_nil))
  | cons action actions ih =>
    rw [okAlong_cons_total, covers_all_iff]
    by_cases hvalid : ValidRegistration isUuid action ∧ 0 < handler.config.maxShards.toNat
    · -- from here on some shard is registered
      refine iff_of_false (fun hok => h.keys_registerNewShard hvalid.1 hvalid.2 hok.1) ?_
      rintro (hzero | hnone)
      · omega
      · exact hnone action (List.mem_cons_self ..) hvalid.1
    · obtain ⟨hfresh, hconfig⟩ := h.handlerStep hvalid
      have hkeys : (handlerStep isUuid handler action).registry.topology.shards.keys = [] := by
        rw [hfresh.shards_eq]
        rfl
      rw [ih hfresh, hconfig, List.forall_mem_cons]
      constructor
      · rintro ⟨-, hzero | hrest⟩
        · exact .inl hzero
        · rcases Nat.eq_zero_or_pos handler.config.maxShards.toNat with hzero | hpos
          · exact .inl hzero
          · exact .inr ⟨fun haction => hvalid ⟨haction, hpos⟩, hrest⟩
      · rintro (hzero | ⟨-, hrest⟩)
        · exact ⟨hkeys, .inl hzero⟩
        · exact ⟨hkeys, .inr hrest⟩

/-- **When every hash has one owner.** All of them only as long as no registration could succeed;
all but `u64::MAX` exactly in the runs where no shard is removed by force while others stay. -/
theorem owners_iff (isUuid : String → Bool) (replicationFactor : Nat) (opened : UInt64)
    (config : RegistrationConfig) (actions : List HandlerAction) :
    (OkAlong (fun handler action => some (handlerStep isUuid handler action))
        (fun handler action =>
          Covers (fun _ => True) (handlerStep isUuid handler action).registry.topology)
        (.new (.openDb .empty replicationFactor opened) config) actions ↔
      config.maxShards.toNat = 0 ∨ ∀ action ∈ actions, ¬ ValidRegistration isUuid action) ∧
    (OkAlong (fun handler action => some (handlerStep isUuid handler action))
        (fun handler action =>
          Covers (· ≠ maxHash) (handlerStep isUuid handler action).registry.topology)
        (.new (.openDb .empty replicationFactor opened) config) actions ↔
      OkAlong (fun handler action => some (handlerStep isUuid handler action)) LeavesNoGap
        (.new (.openDb .empty replicationFactor opened) config) actions) ∧
    (∀ (addresses : List (Nat × String × List String)) (now : UInt64), addresses ≠ [] →
      (addresses.map (·.1)).Nodup → (∀ p ∈ addresses, p.1 < 2 ^ 32) →
      match (ShardRegistry.openDb .empty replicationFactor opened).registerShardsAuto addresses
          now with
      | none => addresses.length = 2 ^ 32
      | some r => Covers (· ≠ maxHash) r.topology ∧ ¬ Covers (fun _ => True) r.topology) ∧
    (∀ (t : ClusterTopology) (hash : UInt64), OwnedOnce t hash →
      ∃ shard, ∀ order, order.Perm t.shards.values →
        ClusterTopology.findShardForHash order hash = some shard) := by
  have hfresh : Fresh (.new (.openDb .empty replicationFactor opened) config) :=
    ⟨rfl, rfl, rfl, rfl⟩
  refine ⟨okAlong_covers_all hfresh actions, ?_, ?_, fun _ _ => findShardForHash_of_ownedOnce⟩
  · refine okAlong_congr (I := fun handler => Tiled handler.registry.topology) ?_
      (tiled_of_keys_nil hfresh.keyed rfl) (exec_total _ _ _)
    intro handler action handler' htiled hstep
    cases hstep
    obtain ⟨hiff, hkeep⟩ := covers_iff_leavesNoGap isUuid htiled action
    exact ⟨hiff, fun hok => hkeep (hiff.mp hok)⟩
  · intro addresses now hne hnodup hu32
    exact covers_registerShardsAuto rfl hne hnodup hu32 now

/-- Two machines register: `u64::MAX` has no owner. The first one is removed by force: the hash 0
has none either. -/
theorem hashes_without_owner :
    (∃ handler, exec (fun handler action => some (handlerStep (fun _ => true) handler action))
        (.new (.openDb .empty 1 0) ⟨16, false⟩)
        [.register "550e8400-e29b-41d4-a716-446655440000" "a:9090" 1,
          .register "6ba7b810-9dad-11d1-80b4-00c04fd430c8" "b:9090" 2] = some handler ∧
      handler.registry.topology.shards.keys = [0, 1] ∧
      ¬ OwnedOnce handler.registry.topology maxHash ∧
      ClusterTopology.findShardForHash handler.registry.topology.shards.values maxHash = none) ∧
    ∃ handler, exec (fun handler action => some (handlerStep (fun _ => true) handler action))
        (.new (.openDb .empty 1 0) ⟨16, false⟩)
        [.register "550e8400-e29b-41d4-a716-446655440000" "a:9090" 1,
          .register "6ba7b810-9dad-11d1-80b4-00c04fd430c8" "b:9090" 2,
          .deregister 0 "550e8400-e29b-41d4-a716-446655440000" false 3] = some handler ∧
      handler.registry.topology.shards.keys = [1] ∧
      ClusterTopology.findShardForHash handler.registry.topology.shards.values 0 = none := by
  refine ⟨⟨_, exec_total _ _ _, by decide +kernel, ?_, by decide +kernel⟩,
    _, exec_total _ _ _, by decide +kernel, by decide +kernel⟩
  rintro ⟨shardId, ⟨shard, -, hcontains⟩, -⟩
  rw [not_contains_maxHash] at hcontains
  cases hcontains

end Arcxa.Governance
