import Arcxa.Governance.Owners

/-!
# Room for another machine

A registration takes the id after the highest one and uses it as an index among one shard more
than there are. The two fit together as long as the ids are the numbers below the count
(`registerNewShard_cases`). A removal by force of any shard but the highest one breaks this, and
from then on every registration fails although there is room (`accepts_iff`).
-/

namespace Arcxa.Governance

open BTreeMap

/-- The stored mapping leads to different registered shards. -/
def Injects (registry : ShardRegistry) : Prop :=
  (∀ m m' shardId, registry.db.machineIds.get m = some shardId →
    registry.db.machineIds.get m' = some shardId → m = m') ∧
  ∀ m shardId, registry.db.machineIds.get m = some shardId →
    (registry.topology.shards.get shardId).isSome

def HandlerAction.machineId : HandlerAction → String
  | .register machineId _ _ => machineId
  | .reconnect _ machineId _ _ => machineId
  | .deregister _ machineId _ _ => machineId

namespace AutoRegistrationHandler

variable (isUuid : String → Bool) (handler : AutoRegistrationHandler)

def Unmapped (machineId : String) : Prop :=
  handler.machineIdMap.get machineId = none ∧ handler.registry.db.machineIds.get machineId = none

/-- A machine that is not mapped can register as long as there is room. -/
def Accepts (machineId : String) : Prop :=
  handler.Unmapped machineId →
    handler.registry.topology.totalShards < handler.config.maxShards.toNat →
      ∀ address now, (handler.registerNewShard isUuid machineId address now).2.isOk = true

def RemovesHighest : HandlerAction → Prop
  | .register _ _ _ => True
  | .reconnect _ _ _ _ => True
  | .deregister shardId machineId graceful _ =>
    graceful = true ∨
    (∃ stored, handler.registry.getStoredMachineId shardId = some stored ∧ stored ≠ machineId) ∨
    handler.registry.topology.getShard shardId = none ∨
    ∀ k ∈ handler.registry.topology.shards.keys, k ≤ shardId

/-- What holds between two calls, whatever has been removed: a machine that the registry has
mapped is cached, and no two machines are mapped to one shard. -/
structure Steady : Prop where
  keyed : Keyed handler.registry.topology
  total_le : handler.registry.topology.totalShards ≤ handler.config.maxShards.toNat
  injects : Injects handler.registry
  cached : ∀ machineId shardId, handler.registry.db.machineIds.get machineId = some shardId →
    handler.machineIdMap.get machineId = some shardId

end AutoRegistrationHandler

namespace ClusterTopology

def IdsBelowTotal (t : ClusterTopology) : Prop := ∀ k ∈ t.shards.keys, k < t.totalShards

def Consecutive (t : ClusterTopology) : Prop := ∀ k, k ∈ t.shards.keys ↔ k < t.totalShards

variable {t : ClusterTopology}

/-! ## The next id -/

theorem lt_allocateShardId {k : Nat} (h : k ∈ t.shards.keys) : k < t.allocateShardId := by
  unfold allocateShardId
  cases hmax : t.shards.keys.max? with
  | none =>
    rw [List.max?_eq_none_iff.mp hmax] at h
    cases h
  | some maxId => exact Nat.lt_succ_of_le ((List.max?_eq_some_iff.mp hmax).2 k h)

theorem allocateShardId_le {n : Nat} (h : ∀ k ∈ t.shards.keys, k < n) : t.allocateShardId ≤ n := by
  unfold allocateShardId
  cases hmax : t.shards.keys.max? with
  | none => exact Nat.zero_le n
  | some maxId => exact h maxId (List.max?_eq_some_iff.mp hmax).1

theorem allocateShardId_of_consecutive (h : Consecutive t) : t.allocateShardId = t.totalShards := by
  apply le_antisymm
  · exact allocateShardId_le fun k hk => (h k).mp hk
  · by_contra hlt
    have hmem : t.allocateShardId ∈ t.shards.keys := (h _).mpr (by omega)
    exact lt_irrefl _ (lt_allocateShardId hmem)

variable (t) in
theorem calculateHashRange_cases :
    (∃ e, t.calculateHashRangeForNewShard t.allocateShardId = .error e) ∧ ¬ IdsBelowTotal t ∨
    (∃ hashRange, t.calculateHashRangeForNewShard t.allocateShardId = .ok hashRange) ∧
      IdsBelowTotal t := by
  unfold calculateHashRangeForNewShard
  split_ifs with hempty hindex
  · refine .inr ⟨⟨_, rfl⟩, ?_⟩
    intro k hk
    rw [keys, List.isEmpty_iff.mp hempty] at hk
    cases hk
  · refine .inl ⟨⟨_, rfl⟩, ?_⟩
    intro hbelow
    have hle := allocateShardId_le hbelow
    omega
  · refine .inr ⟨⟨_, rfl⟩, ?_⟩
    intro k hk
    have hlt := lt_allocateShardId hk
    omega

end ClusterTopology

open ClusterTopology

theorem Keyed.total_of_perm {t : ClusterTopology} (h : Keyed t) {ids : List Nat} (hids : ids.Nodup)
    (hmem : ∀ k, k ∈ t.shards.keys ↔ k ∈ ids) : t.totalShards = ids.length := by
  rw [h.total_eq]
  exact ((List.perm_ext_iff_of_nodup (nodup_keys _) hids).mpr hmem).length_eq

theorem Keyed.consecutive {t : ClusterTopology} (h : Keyed t) {n : Nat}
    (hmem : ∀ k, k ∈ t.shards.keys ↔ k < n) : Consecutive t ∧ t.totalShards = n := by
  have htotal : t.totalShards = n := by
    rw [h.total_of_perm List.nodup_range (fun k => by rw [hmem, List.mem_range])]
    exact List.length_range
  refine ⟨?_, htotal⟩
  intro k
  rw [hmem, htotal]

/-! ## The stored mapping -/

variable {machineId : String}

theorem get_of_getStoredMachineId {r : ShardRegistry} {shardId : Nat}
    (h : r.getStoredMachineId shardId = some machineId) :
    r.db.machineIds.get machineId = some shardId := by
  obtain ⟨e, he, rfl⟩ := Option.map_eq_some_iff.mp h
  have hvalue : e.2 = shardId := by simpa using List.find?_some he
  exact mem_entries_iff.mp (hvalue ▸ List.mem_of_find?_eq_some he)

theorem Injects.getStoredMachineId_eq {r : ShardRegistry} (h : Injects r) {shardId : Nat}
    (hget : r.db.machineIds.get machineId = some shardId) :
    r.getStoredMachineId shardId = some machineId := by
  cases hstored : r.getStoredMachineId shardId with
  | none =>
    have hnone := List.find?_eq_none.mp (Option.map_eq_none_iff.mp hstored)
    exact absurd (beq_self_eq_true shardId) (hnone _ (mem_entries_iff.mpr hget))
  | some stored => rw [h.1 _ _ _ (get_of_getStoredMachineId hstored) hget]

/-! ## Calls -/

variable (r : ShardRegistry)

theorem modifyShard_frame (shardId : Nat) (f : ShardMetadata → ShardMetadata) (message : String) :
    (r.modifyShard shardId f message none).1.db.machineIds = r.db.machineIds ∧
    ∀ k, ((r.modifyShard shardId f message none).1.topology.shards.get k).isSome =
      (r.topology.shards.get k).isSome := by
  cases hget : r.topology.getShard shardId with
  | none =>
    rw [modifyShard_none hget]
    exact ⟨rfl, fun _ => rfl⟩
  | some shard =>
    refine ⟨by simp [ShardRegistry.modifyShard, hget, ShardRegistry.putShard], ?_⟩
    intro k
    rw [(modifyShard_some f message none hget).1, ClusterTopology.setShard, get_insert]
    have hshard : r.topology.shards.get shardId = some shard := hget
    split_ifs with hk
    · rw [hk, hshard]
      rfl
    · rfl

theorem unregisterShard_frame (shardId : Nat) (now : UInt64) :
    (r.unregisterShard shardId now none).1.db.machineIds = r.db.machineIds ∧
    ∀ k, (r.unregisterShard shardId now none).1.topology.shards.get k =
      if k = shardId then none else r.topology.shards.get k := by
  have hremove := get_removeShard r.topology shardId now
  unfold ShardRegistry.unregisterShard
  -- an unknown shard is an error, and nothing is removed
  split
  · rename_i topology removed heq
    rw [heq] at hremove
    exact ⟨rfl, hremove⟩
  · rename_i topology heq
    rw [heq] at hremove
    exact ⟨rfl, hremove⟩

theorem mem_keys_addShard (t : ClusterTopology) (shard : ShardMetadata) (now : UInt64) (k : Nat) :
    k ∈ (t.addShard shard now).shards.keys ↔ k = shard.shardId ∨ k ∈ t.shards.keys := by
  rw [mem_keys, mem_keys]
  show (∃ v, (t.shards.insert shard.shardId shard).get k = some v) ↔ _
  rw [get_insert]
  by_cases hk : k = shard.shardId
  · rw [if_pos hk]
    exact iff_of_true ⟨shard, rfl⟩ (.inl hk)
  · rw [if_neg hk]
    exact (or_iff_right hk).symm

theorem mem_keys_removeShard (t : ClusterTopology) (shardId : Nat) (now : UInt64) (k : Nat) :
    k ∈ (t.removeShard shardId now).1.shards.keys ↔ k ≠ shardId ∧ k ∈ t.shards.keys := by
  rw [mem_keys, mem_keys, get_removeShard]
  by_cases hk : k = shardId
  · rw [if_pos hk]
    refine iff_of_false ?_ (fun h => h.1 hk)
    rintro ⟨v, hv⟩
    cases hv
  · rw [if_neg hk, and_iff_right hk]

theorem machineIds_rebalanceHashRanges (now : UInt64) :
    (rebalanceHashRanges r now).db.machineIds = r.db.machineIds := by
  have hround : ∀ total (r : ShardRegistry) p,
      (rebalanceShard total now r p).db.machineIds = r.db.machineIds := by
    intro total r p
    unfold rebalanceShard
    split
    · rfl
    · simp only
      split_ifs
      · rfl
      · rfl
  have hfold : ∀ total (pairs : List (Nat × Nat)) (r : ShardRegistry),
      (pairs.foldl (rebalanceShard total now) r).db.machineIds = r.db.machineIds := by
    intro total pairs
    induction pairs with
    | nil => exact fun _ => rfl
    | cons p pairs ih => exact fun r => (ih _).trans (hround total r p)
  unfold rebalanceHashRanges
  split_ifs
  · rfl
  · exact hfold _ _ _

namespace AutoRegistrationHandler

variable {isUuid : String → Bool} {handler : AutoRegistrationHandler}

variable (h : handler.Steady)

include h

theorem Steady.findExistingShard_eq (machineId : String) :
    handler.findExistingShard machineId = (handler, handler.machineIdMap.get machineId) := by
  unfold findExistingShard
  cases hcached : handler.machineIdMap.get machineId with
  | some shardId => rfl
  | none =>
    have hnone : handler.registry.topology.shards.keys.find?
        (handler.registry.getStoredMachineId · == some machineId) = none := by
      rw [List.find?_eq_none]
      intro k hk hstored
      have hget := h.cached machineId k (get_of_getStoredMachineId (by simpa using hstored))
      rw [hcached] at hget
      cases hget
    simp only [hnone]

/-- What a registration asks for. -/
structure MayRegister (isUuid : String → Bool) (handler : AutoRegistrationHandler)
    (machineId : String) : Prop where
  nonempty : machineId.isEmpty = false
  uuid : isUuid machineId = true
  free : handler.config.allowDuplicateMachines = true ∨ handler.machineIdMap.get machineId = none
  room : handler.registry.topology.totalShards < handler.config.maxShards.toNat
  below : IdsBelowTotal handler.registry.topology

/-- **A registration** adds a shard under the next id, or returns `Err` and changes nothing. -/
theorem registerNewShard_cases (isUuid : String → Bool) (machineId address : String) (now : UInt64) :
    (handler.registerNewShard isUuid machineId address now).1 = handler ∧
      (handler.registerNewShard isUuid machineId address now).2.isOk = false ∧
      ¬ MayRegister isUuid handler machineId ∨
    ∃ hashRange, (handler.registerNewShard isUuid machineId address now).1 =
        (handler.addNewShard machineId address now handler.registry.topology.allocateShardId
          hashRange).1 ∧
      (handler.registerNewShard isUuid machineId address now).2.isOk = true ∧
      MayRegister isUuid handler machineId := by
  have hfound : (if handler.config.allowDuplicateMachines = true then (handler, none)
      else handler.findExistingShard machineId) = (handler,
        if handler.config.allowDuplicateMachines = true then none
        else handler.machineIdMap.get machineId) := by
    rw [h.findExistingShard_eq]
    split_ifs
    · rfl
    · rfl
  cases hvalidate : validateMachineId isUuid machineId with
  | error e =>
    left
    simp only [registerNewShard, hvalidate]
    refine ⟨trivial, rfl, fun hmay => ?_⟩
    rw [validateMachineId, hmay.nonempty, hmay.uuid] at hvalidate
    cases hvalidate
  | ok u =>
    have hvalid : machineId.isEmpty = false ∧ isUuid machineId = true := by
      simp only [validateMachineId] at hvalidate
      split_ifs at hvalidate with hempty huuid
      exact ⟨by simpa using hempty, by simpa using huuid⟩
    simp only [registerNewShard, hvalidate, hfound]
    cases hexisting : (if handler.config.allowDuplicateMachines = true then none
        else handler.machineIdMap.get machineId) with
    | some existingId =>
      left
      refine ⟨rfl, rfl, fun hmay => ?_⟩
      rcases hmay.free with hdup | hnone
      · rw [if_pos hdup] at hexisting
        cases hexisting
      · rw [hnone, ite_self] at hexisting
        cases hexisting
    | none =>
      have hfree : handler.config.allowDuplicateMachines = true ∨
          handler.machineIdMap.get machineId = none := by
        by_cases hdup : handler.config.allowDuplicateMachines = true
        · exact .inl hdup
        · rw [if_neg hdup] at hexisting
          exact .inr hexisting
      simp only
      split_ifs with hlimit
      · exact .inl ⟨rfl, rfl, fun hmay => absurd hmay.room (by omega)⟩
      · rcases calculateHashRange_cases handler.registry.topology with ⟨⟨e, he⟩, habove⟩ | ⟨⟨range, hrange⟩, hbelow⟩
        · left
          simp only [he]
          exact ⟨trivial, rfl, fun hmay => habove hmay.below⟩
        · right
          simp only [hrange]
          exact ⟨range, rfl, rfl, ⟨hvalid.1, hvalid.2, hfree, by omega, hbelow⟩⟩

theorem isOk_registerNewShard_iff (hnonempty : machineId.isEmpty = false)
    (huuid : isUuid machineId = true) (hunmapped : handler.Unmapped machineId)
    (hroom : handler.registry.topology.totalShards < handler.config.maxShards.toNat)
    (address : String) (now : UInt64) :
    (handler.registerNewShard isUuid machineId address now).2.isOk = true ↔
      IdsBelowTotal handler.registry.topology := by
  rcases registerNewShard_cases h isUuid machineId address now with
    ⟨-, herr, hnot⟩ | ⟨range, -, hok, hmay⟩
  · rw [herr]
    refine iff_of_false (by decide) fun hbelow => ?_
    exact hnot ⟨hnonempty, huuid, .inr hunmapped.1, hroom, hbelow⟩
  · exact iff_of_true hok hmay.below

/-- What a call does to the ids and to the mapping. -/
inductive CallEffect (handler : AutoRegistrationHandler) :
    HandlerAction → AutoRegistrationHandler → Prop where
  | keeps {action : HandlerAction} {handler' : AutoRegistrationHandler}
      (hremoves : handler.RemovesHighest action)
      (hkeys : handler'.registry.topology.shards.keys = handler.registry.topology.shards.keys)
      (hstored : handler'.registry.db.machineIds = handler.registry.db.machineIds)
      (hcached : handler'.machineIdMap = handler.machineIdMap) : CallEffect handler action handler'
  | adds {machineId address : String} {now : UInt64} {handler' : AutoRegistrationHandler}
      (hroom : handler.registry.topology.totalShards < handler.config.maxShards.toNat)
      (hkeys : ∀ k, k ∈ handler'.registry.topology.shards.keys ↔
        k = handler.registry.topology.allocateShardId ∨ k ∈ handler.registry.topology.shards.keys)
      (hstored : handler'.registry.db.machineIds = handler.registry.db.machineIds.insert machineId
        handler.registry.topology.allocateShardId)
      (hcached : handler'.machineIdMap = handler.machineIdMap.insert machineId
        handler.registry.topology.allocateShardId) :
      CallEffect handler (.register machineId address now) handler'
  | adopts {shardId : Nat} {machineId address : String} {now : UInt64}
      {handler' : AutoRegistrationHandler}
      (hmem : shardId ∈ handler.registry.topology.shards.keys)
      (hfree : ∀ m, handler.registry.db.machineIds.get m ≠ some shardId)
      (hkeys : handler'.registry.topology.shards.keys = handler.registry.topology.shards.keys)
      (hstored : handler'.registry.db.machineIds =
        handler.registry.db.machineIds.insert machineId shardId)
      (hcached : handler'.machineIdMap = handler.machineIdMap.insert machineId shardId) :
      CallEffect handler (.reconnect shardId machineId address now) handler'
  | removes {shardId : Nat} {machineId : String} {now : UInt64}
      {handler' : AutoRegistrationHandler}
      (hown : ∀ m, handler.registry.db.machineIds.get m = some shardId → m = machineId)
      (hkeys : ∀ k, k ∈ handler'.registry.topology.shards.keys ↔
        k ≠ shardId ∧ k ∈ handler.registry.topology.shards.keys)
      (hstored : handler'.registry.db.machineIds =
        handler.registry.db.machineIds.remove machineId)
      (hcached : handler'.machineIdMap =
        handler.machineIdMap.retain fun _ mapped => mapped ≠ shardId) :
      CallEffect handler (.deregister shardId machineId false now) handler'

theorem effect_register (machineId address : String) (now : UInt64) :
    CallEffect handler (.register machineId address now)
      (handler.registerNewShard isUuid machineId address now).1 := by
  rcases registerNewShard_cases h isUuid machineId address now with
    ⟨hsame, -, -⟩ | ⟨range, hadded, -, hmay⟩
  · rw [hsame]
    exact .keeps trivial rfl rfl rfl
  · rw [hadded]
    refine .adds hmay.room ?_ ?_ rfl
    · intro k
      have hkeyed := keyed_addShard h.keyed
        (newShard handler.registry.topology.allocateShardId range address now) now
      have hkeys := keys_rebalanceHashRanges (r := (handler.registry.registerShard
        (newShard handler.registry.topology.allocateShardId range address now) now
          none).1.storeMachineIdMapping machineId handler.registry.topology.allocateShardId)
        hkeyed now
      show k ∈ (rebalanceHashRanges _ now).topology.shards.keys ↔ _
      rw [hkeys]
      exact mem_keys_addShard _ _ _ k
    · exact machineIds_rebalanceHashRanges _ now

omit h

theorem refreshShard_frame (handler : AutoRegistrationHandler) (shardId : Nat)
    (machineId address : String) (now : UInt64) :
    (handler.refreshShard shardId machineId address now).registry.topology.shards.keys =
      handler.registry.topology.shards.keys ∧
    (handler.refreshShard shardId machineId address now).registry.db.machineIds =
      handler.registry.db.machineIds := by
  constructor
  · refine (keys_modifyShard _ _ _ _ _).trans ?_
    refine (keys_modifyShard _ _ _ _ _).trans ?_
    exact keys_modifyShard _ _ _ _ _
  · refine (modifyShard_frame _ _ _ _).1.trans ?_
    refine (modifyShard_frame _ _ _ _).1.trans ?_
    exact (modifyShard_frame _ _ _ _).1

theorem effect_reconnect (h : handler.Steady) (shardId : Nat) (machineId address : String)
    (now : UInt64) :
    CallEffect handler (.reconnect shardId machineId address now)
      (handler.reconnectShard shardId machineId address now).1 := by
  unfold reconnectShard
  cases hget : handler.registry.topology.getShard shardId with
  | none => exact .keeps trivial rfl rfl rfl
  | some shard =>
    simp only
    cases hstored : handler.registry.getStoredMachineId shardId with
    | some stored =>
      simp only
      split_ifs with hother
      · exact .keeps trivial rfl rfl rfl
      · obtain rfl := not_not.mp hother
        obtain ⟨hkeys, hmapping⟩ := refreshShard_frame handler shardId stored address now
        refine .keeps trivial hkeys hmapping ?_
        -- the machine is cached for this shard already
        exact insert_eq_self.mpr (h.cached _ _ (get_of_getStoredMachineId hstored))
    | none =>
      obtain ⟨hkeys, hmapping⟩ := refreshShard_frame { handler with
        registry := handler.registry.storeMachineIdMapping machineId shardId } shardId machineId
          address now
      refine .adopts (mem_keys.mpr ⟨shard, hget⟩) ?_ hkeys hmapping rfl
      intro m hm
      rw [h.injects.getStoredMachineId_eq hm] at hstored
      cases hstored

theorem effect_deregister (h : handler.Steady) (shardId : Nat) (machineId : String)
    (graceful : Bool) (now : UInt64) :
    CallEffect handler (.deregister shardId machineId graceful now)
      (handler.deregisterShard shardId machineId graceful now).1 := by
  unfold deregisterShard
  by_cases hother : (handler.registry.getStoredMachineId shardId).any (· ≠ machineId) = true
  · rw [if_pos hother]
    obtain ⟨stored, hstored, hne⟩ := (Option.any_eq_true _ _).mp hother
    exact .keeps (.inr (.inl ⟨stored, hstored, by simpa using hne⟩)) rfl rfl rfl
  rw [if_neg hother]
  cases graceful with
  | true =>
    exact .keeps (.inl rfl) (keys_modifyShard _ _ _ _ _) (modifyShard_frame _ _ _ _).1 rfl
  | false =>
    rw [if_neg (by decide)]
    refine .removes ?_ ?_ ?_ rfl
    · intro m hm
      by_contra hne
      apply hother
      rw [h.injects.getStoredMachineId_eq hm]
      simpa using hne
    · intro k
      rw [topology_removeShard]
      exact mem_keys_removeShard _ _ _ k
    · exact congrArg (·.remove machineId) (unregisterShard_frame _ _ _).1

theorem effect_handlerStep (isUuid : String → Bool) (h : handler.Steady) (action : HandlerAction) :
    CallEffect handler action (handlerStep isUuid handler action) := by
  cases action with
  | register machineId address now => exact effect_register h machineId address now
  | reconnect shardId machineId address now =>
    exact effect_reconnect h shardId machineId address now
  | deregister shardId machineId graceful now =>
    exact effect_deregister h shardId machineId graceful now

theorem keyed_rebalanceHashRanges {r : ShardRegistry} (h : Keyed r.topology) (now : UInt64) :
    Keyed (rebalanceHashRanges r now).topology := by
  unfold rebalanceHashRanges
  split_ifs
  · exact h
  · exact (get_foldl_keys h _ now 0).2.1

theorem keyed_handlerStep (isUuid : String → Bool) (h : handler.Steady) (action : HandlerAction) :
    Keyed (handlerStep isUuid handler action).registry.topology := by
  cases action with
  | register machineId address now =>
    show Keyed (handler.registerNewShard isUuid machineId address now).1.registry.topology
    rcases registerNewShard_cases h isUuid machineId address now with
      ⟨hsame, -, -⟩ | ⟨range, hadded, -, -⟩
    · rw [hsame]
      exact h.keyed
    · rw [hadded]
      exact keyed_rebalanceHashRanges (keyed_addShard h.keyed _ now) now
  | reconnect shardId machineId address now =>
    show Keyed (handler.reconnectShard shardId machineId address now).1.registry.topology
    have hrefresh : ∀ handler : AutoRegistrationHandler, Keyed handler.registry.topology →
        Keyed (handler.refreshShard shardId machineId address now).registry.topology := by
      intro handler hkeyed
      have haddress := hkeyed.modifyShard
        (f := ({ · with leaderAddress := address, updatedAt := now })) (fun _ => rfl) shardId
        "Failed to update shard address in RocksDB" none
      have hstatus := haddress.modifyShard (f := ({ · with status := .Active })) (fun _ => rfl)
        shardId "Failed to update shard in RocksDB" none
      exact hstatus.modifyShard (f := (·.heartbeat now)) (fun _ => rfl) shardId
        "Failed to update shard in RocksDB" none
    unfold reconnectShard
    split
    · exact h.keyed
    · simp only
      split
      · split_ifs
        · exact h.keyed
        · exact hrefresh _ h.keyed
      · exact hrefresh _ h.keyed
  | deregister shardId machineId graceful now =>
    show Keyed (handler.deregisterShard shardId machineId graceful now).1.registry.topology
    unfold deregisterShard
    split_ifs
    · exact h.keyed
    · exact h.keyed.modifyShard (f := ({ · with status := .Draining })) (fun _ => rfl) shardId
        "Failed to update shard in RocksDB" none
    · rw [topology_removeShard]
      exact keyed_removeShard h.keyed shardId now

theorem config_handlerStep (isUuid : String → Bool) (h : handler.Steady) (action : HandlerAction) :
    (handlerStep isUuid handler action).config = handler.config := by
  cases action with
  | register machineId address now =>
    show (handler.registerNewShard isUuid machineId address now).1.config = handler.config
    rcases registerNewShard_cases h isUuid machineId address now with
      ⟨hsame, -, -⟩ | ⟨range, hadded, -, -⟩
    · rw [hsame]
    · rw [hadded]
      rfl
  | reconnect shardId machineId address now =>
    show (handler.reconnectShard shardId machineId address now).1.config = handler.config
    unfold reconnectShard
    split
    · rfl
    · simp only
      split
      · split_ifs
        · rfl
        · rfl
      · rfl
  | deregister shardId machineId graceful now =>
    show (handler.deregisterShard shardId machineId graceful now).1.config = handler.config
    unfold deregisterShard
    split_ifs
    · rfl
    · rfl
    · rfl

/-! ## What a call keeps -/

variable {handler' : AutoRegistrationHandler} {action : HandlerAction}

variable (heffect : CallEffect handler action handler')

include heffect h

theorem total_le_of_effect (hkeyed : Keyed handler'.registry.topology) :
    handler'.registry.topology.totalShards ≤ handler.config.maxShards.toNat := by
  have hle := h.total_le
  have hnodup := nodup_keys handler.registry.topology.shards
  cases heffect with
  | keeps hremoves hkeys hstored hcached =>
    rw [hkeyed.total_eq, hkeys, ← h.keyed.total_eq]
    exact hle
  | adopts hmem hfree hkeys hstored hcached =>
    rw [hkeyed.total_eq, hkeys, ← h.keyed.total_eq]
    exact hle
  | adds hroom hkeys hstored hcached =>
    have hnew : handler.registry.topology.allocateShardId ∉ handler.registry.topology.shards.keys :=
      fun hmem => lt_irrefl _ (lt_allocateShardId hmem)
    rw [hkeyed.total_of_perm (List.nodup_cons.mpr ⟨hnew, hnodup⟩)
      (fun k => by rw [hkeys, List.mem_cons]), List.length_cons, ← h.keyed.total_eq]
    exact hroom
  | removes hown hkeys hstored hcached =>
    rw [hkeyed.total_of_perm (hnodup.erase _) (fun k => by rw [hkeys, hnodup.mem_erase_iff])]
    refine le_trans (List.length_erase_le ..) ?_
    rw [← h.keyed.total_eq]
    exact hle

theorem injects_of_effect : Injects handler'.registry := by
  have hregistered : ∀ m k, handler.registry.db.machineIds.get m = some k →
      k ∈ handler.registry.topology.shards.keys := by
    intro m k hm
    exact mem_keys.mpr (Option.isSome_iff_exists.mp (h.injects.2 m k hm))
  -- an id for which no machine is stored can be given to one
  have hinsert : ∀ machineId shardId, (∀ m, handler.registry.db.machineIds.get m ≠ some shardId) →
      ∀ m m' k, (handler.registry.db.machineIds.insert machineId shardId).get m = some k →
        (handler.registry.db.machineIds.insert machineId shardId).get m' = some k → m = m' := by
    intro machineId shardId hfree m m' k hm hm'
    rw [get_insert] at hm hm'
    split_ifs at hm hm' with hfirst hsecond hsecond
    · rw [hfirst, hsecond]
    · cases hm
      exact absurd hm' (hfree m')
    · cases hm'
      exact absurd hm (hfree m)
    · exact h.injects.1 m m' k hm hm'
  rw [Injects]
  simp only [Option.isSome_iff_exists, ← mem_keys]
  cases heffect with
  | keeps hremoves hkeys hstored hcached =>
    rw [hstored, hkeys]
    exact ⟨h.injects.1, hregistered⟩
  | adds hroom hkeys hstored hcached =>
    rw [hstored]
    refine ⟨hinsert _ _ ?_, ?_⟩
    · intro m hm
      exact lt_irrefl _ (lt_allocateShardId (hregistered m _ hm))
    · intro m k hm
      rw [get_insert] at hm
      rw [hkeys]
      split_ifs at hm with hmachine
      · cases hm
        exact .inl rfl
      · exact .inr (hregistered m k hm)
  | adopts hmem hfree hkeys hstored hcached =>
    rw [hstored, hkeys]
    refine ⟨hinsert _ _ hfree, ?_⟩
    intro m k hm
    rw [get_insert] at hm
    split_ifs at hm with hmachine
    · cases hm
      exact hmem
    · exact hregistered m k hm
  | removes hown hkeys hstored hcached =>
    rw [hstored]
    constructor
    · intro m m' k hm hm'
      rw [get_remove] at hm hm'
      split_ifs at hm hm'
      exact h.injects.1 m m' k hm hm'
    · intro m k hm
      rw [get_remove] at hm
      split_ifs at hm with hmachine
      rw [hkeys]
      refine ⟨?_, hregistered m k hm⟩
      rintro rfl
      exact hmachine (hown m hm)

theorem cached_of_effect (m : String) (k : Nat)
    (hm : handler'.registry.db.machineIds.get m = some k) :
    handler'.machineIdMap.get m = some k := by
  cases heffect with
  | keeps hremoves hkeys hstored hcached =>
    rw [hstored] at hm
    rw [hcached]
    exact h.cached m k hm
  | adds hroom hkeys hstored hcached =>
    rw [hstored, get_insert] at hm
    rw [hcached, get_insert]
    split_ifs at hm ⊢ with hmachine
    · exact hm
    · exact h.cached m k hm
  | adopts hmem hfree hkeys hstored hcached =>
    rw [hstored, get_insert] at hm
    rw [hcached, get_insert]
    split_ifs at hm ⊢ with hmachine
    · exact hm
    · exact h.cached m k hm
  | @removes shardId machineId now _ hown hkeys hstored hcached =>
    rw [hstored, get_remove] at hm
    split_ifs at hm with hmachine
    rw [hcached, get_retain, h.cached m k hm]
    have hne : k ≠ shardId := by
      rintro rfl
      exact hmachine (hown m hm)
    simpa using hne

omit heffect h

theorem Steady.handlerStep (h : handler.Steady) (isUuid : String → Bool) (action : HandlerAction) :
    (handlerStep isUuid handler action).Steady := by
  have heffect := effect_handlerStep isUuid h action
  have hkeyed := keyed_handlerStep isUuid h action
  refine ⟨hkeyed, ?_, injects_of_effect h heffect, cached_of_effect h heffect⟩
  rw [config_handlerStep isUuid h action]
  exact total_le_of_effect h heffect hkeyed

theorem Unmapped.handlerStep (h : handler.Steady) (isUuid : String → Bool)
    (hunmapped : handler.Unmapped machineId)
    (hother : action.machineId ≠ machineId) :
    (handlerStep isUuid handler action).Unmapped machineId := by
  obtain ⟨hcache, hdb⟩ := hunmapped
  rw [Unmapped]
  cases effect_handlerStep isUuid h action with
  | keeps hremoves hkeys hstored hcached =>
    rw [hstored, hcached]
    exact ⟨hcache, hdb⟩
  | adds hroom hkeys hstored hcached =>
    rw [hstored, hcached, get_insert, get_insert]
    exact ⟨(if_neg (Ne.symm hother)).trans hcache, (if_neg (Ne.symm hother)).trans hdb⟩
  | adopts hmem hfree hkeys hstored hcached =>
    rw [hstored, hcached, get_insert, get_insert]
    exact ⟨(if_neg (Ne.symm hother)).trans hcache, (if_neg (Ne.symm hother)).trans hdb⟩
  | removes hown hkeys hstored hcached =>
    rw [hstored, hcached, get_remove, get_retain, hcache, hdb]
    exact ⟨rfl, ite_self _⟩

/-- **What keeps the ids consecutive.** -/
theorem consecutive_of_effect (h : handler.Steady)
    (hconsecutive : Consecutive handler.registry.topology) (heffect : CallEffect handler action handler')
    (hkeyed : Keyed handler'.registry.topology) :
    handler.RemovesHighest action ∧ Consecutive handler'.registry.topology ∨
    ¬ handler.RemovesHighest action ∧ ¬ IdsBelowTotal handler'.registry.topology ∧
      handler'.registry.topology.totalShards < handler.config.maxShards.toNat := by
  cases heffect with
  | keeps hremoves hkeys hstored hcached =>
    refine .inl ⟨hremoves, (hkeyed.consecutive (n := handler.registry.topology.totalShards) ?_).1⟩
    rw [hkeys]
    exact hconsecutive
  | adopts hmem hfree hkeys hstored hcached =>
    refine .inl ⟨trivial, (hkeyed.consecutive (n := handler.registry.topology.totalShards) ?_).1⟩
    rw [hkeys]
    exact hconsecutive
  | adds hroom hkeys hstored hcached =>
    refine .inl ⟨trivial,
      (hkeyed.consecutive (n := handler.registry.topology.totalShards + 1) ?_).1⟩
    intro k
    rw [hkeys, allocateShardId_of_consecutive hconsecutive, hconsecutive]
    omega
  | @removes shardId machineId now _ hown hkeys hstored hcached =>
    have hnodup := nodup_keys handler.registry.topology.shards
    by_cases hmem : shardId ∈ handler.registry.topology.shards.keys
    · have hindex := (hconsecutive shardId).mp hmem
      by_cases hhighest : ∀ k ∈ handler.registry.topology.shards.keys, k ≤ shardId
      · -- the highest id is one below the count
        have hlast := hhighest _ ((hconsecutive (handler.registry.topology.totalShards - 1)).mpr
          (by omega))
        refine .inl ⟨.inr (.inr (.inr hhighest)),
          (hkeyed.consecutive (n := handler.registry.topology.totalShards - 1) ?_).1⟩
        intro k
        rw [hkeys, hconsecutive]
        omega
      · push Not at hhighest
        obtain ⟨k, hk, hlt⟩ := hhighest
        have htotal : handler'.registry.topology.totalShards =
            handler.registry.topology.totalShards - 1 := by
          rw [hkeyed.total_of_perm (hnodup.erase shardId)
            (fun k => by rw [hkeys, hnodup.mem_erase_iff]), List.length_erase_of_mem hmem,
            ← h.keyed.total_eq]
        have hbound := (hconsecutive k).mp hk
        refine .inr ⟨?_, ?_, ?_⟩
        · rintro (hgraceful | ⟨stored, hfound, hne⟩ | hnone | hhighest)
          · cases hgraceful
          · exact hne (hown stored (get_of_getStoredMachineId hfound))
          · obtain ⟨shard, hshard⟩ := mem_keys.mp hmem
            rw [ClusterTopology.getShard, hshard] at hnone
            cases hnone
          · exact absurd (hhighest k hk) (by omega)
        · -- the id that was the highest has lost its place
          intro hbelow
          have hne : handler.registry.topology.totalShards - 1 ≠ shardId := by omega
          have hstays := hbelow _ ((hkeys _).mpr ⟨hne, (hconsecutive _).mpr (by omega)⟩)
          omega
        · have hle := h.total_le
          omega
    · refine .inl ⟨.inr (.inr (.inl ?_)),
        (hkeyed.consecutive (n := handler.registry.topology.totalShards) ?_).1⟩
      · rw [mem_keys] at hmem
        exact Option.eq_none_iff_forall_ne_some.mpr fun shard hshard => hmem ⟨shard, hshard⟩
      · intro k
        rw [hkeys, ← hconsecutive, and_iff_right_iff_imp]
        rintro hk rfl
        exact hmem hk

theorem Steady.accepts (h : handler.Steady) (hbelow : IdsBelowTotal handler.registry.topology)
    (hnonempty : machineId.isEmpty = false)
    (huuid : isUuid machineId = true) : handler.Accepts isUuid machineId := by
  intro hunmapped hroom address now
  exact (isOk_registerNewShard_iff h hnonempty huuid hunmapped hroom address now).mpr hbelow

end AutoRegistrationHandler

open AutoRegistrationHandler

/-! ## Runs -/

def emptyCluster (replicationFactor : Nat) (opened : UInt64) (config : RegistrationConfig) :
    AutoRegistrationHandler :=
  .new (.openDb .empty replicationFactor opened) config

theorem steady_emptyCluster (replicationFactor : Nat) (opened : UInt64)
    (config : RegistrationConfig) : (emptyCluster replicationFactor opened config).Steady := by
  refine ⟨⟨?_, rfl⟩, Nat.zero_le _, ⟨?_, ?_⟩, ?_⟩
  · intro k shard hshard
    cases hshard
  · intro m m' k hm
    cases hm
  · intro m k hm
    cases hm
  · intro m k hm
    cases hm

section Runs

variable {isUuid : String → Bool} {start handler : AutoRegistrationHandler}

theorem steady_of_reaches (hstart : start.Steady)
    (hreach : Reaches (fun handler action => some (handlerStep isUuid handler action)) anyStep start
      handler) : handler.Steady := by
  refine hreach.invariant hstart ?_
  intro s action s' hs _ hstep
  cases hstep
  exact hs.handlerStep isUuid action

theorem below_iff_okAlong (isUuid : String → Bool) (hstart : start.Steady)
    (hconsecutive : Consecutive start.registry.topology) (actions : List HandlerAction) :
    (∀ pre, pre <+: actions → ∀ handler,
        exec (fun handler action => some (handlerStep isUuid handler action)) start pre =
          some handler →
        handler.registry.topology.totalShards < handler.config.maxShards.toNat →
        IdsBelowTotal handler.registry.topology) ↔
      OkAlong (fun handler action => some (handlerStep isUuid handler action)) RemovesHighest start
        actions := by
  refine safety_iff_okAlong (I := fun handler => handler.Steady ∧
    Consecutive handler.registry.topology) ?_ ?_ ⟨hstart, hconsecutive⟩ (exec_total _ _ _)
  · rintro s ⟨-, hs⟩ - k hk
    exact (hs k).mp hk
  · rintro s action s' ⟨hsteady, hs⟩ hstep
    cases hstep
    have hkeyed := keyed_handlerStep isUuid hsteady action
    rcases consecutive_of_effect hsteady hs (effect_handlerStep isUuid hsteady action) hkeyed with
      ⟨hremoves, hnext⟩ | ⟨hremoves, habove, hroom⟩
    · exact ⟨fun _ => hremoves, fun _ => ⟨hsteady.handlerStep isUuid action, hnext⟩⟩
    · refine ⟨fun hbelow => absurd (hbelow ?_) habove, fun hok => absurd hok hremoves⟩
      rw [config_handlerStep isUuid hsteady action]
      exact hroom

theorem unmapped_of_exec (hstart : start.Steady) {actions : List HandlerAction}
    (hunmapped : start.Unmapped machineId)
    (hunused : ∀ action ∈ actions, action.machineId ≠ machineId)
    (hexec : exec (fun handler action => some (handlerStep isUuid handler action)) start actions =
      some handler) : handler.Unmapped machineId := by
  induction actions generalizing start with
  | nil => exact Option.some.inj hexec ▸ hunmapped
  | cons action actions ih =>
    obtain ⟨hfirst, hrest⟩ := List.forall_mem_cons.mp hunused
    exact ih (hstart.handlerStep isUuid action) (hunmapped.handlerStep hstart isUuid hfirst) hrest
      hexec

end Runs

/-- **When a cluster with room accepts another machine.** In the runs whose removals by force are
of the highest shard every valid machine that is not mapped; and, shown by any machine that a run
does not use, only in these. In every state reached a machine is accepted exactly as long as the
ids are below the number of shards, and a registration that returns `Err` changes nothing. -/
theorem accepts_iff (isUuid : String → Bool) (replicationFactor : Nat) (opened : UInt64)
    (config : RegistrationConfig) :
    (∀ handler, Reaches (fun handler action => some (handlerStep isUuid handler action))
        RemovesHighest (emptyCluster replicationFactor opened config) handler →
      ∀ machineId, machineId.isEmpty = false → isUuid machineId = true →
        handler.Accepts isUuid machineId) ∧
    (∀ actions machineId, machineId.isEmpty = false → isUuid machineId = true →
      (∀ action ∈ actions, action.machineId ≠ machineId) →
      ((∀ pre, pre <+: actions → ∀ handler,
          exec (fun handler action => some (handlerStep isUuid handler action))
            (emptyCluster replicationFactor opened config) pre = some handler →
          handler.Accepts isUuid machineId) ↔
        OkAlong (fun handler action => some (handlerStep isUuid handler action)) RemovesHighest
          (emptyCluster replicationFactor opened config) actions)) ∧
    ∀ handler, Reaches (fun handler action => some (handlerStep isUuid handler action)) anyStep
        (emptyCluster replicationFactor opened config) handler →
      (∀ machineId address now, machineId.isEmpty = false → isUuid machineId = true →
        handler.Unmapped machineId →
        handler.registry.topology.totalShards < handler.config.maxShards.toNat →
        ((handler.registerNewShard isUuid machineId address now).2.isOk = true ↔
          IdsBelowTotal handler.registry.topology)) ∧
      ∀ machineId address now,
        (handler.registerNewShard isUuid machineId address now).2.isOk = false →
        (handler.registerNewShard isUuid machineId address now).1 = handler := by
  have hstart := steady_emptyCluster replicationFactor opened config
  have hempty : Consecutive (emptyCluster replicationFactor opened config).registry.topology := by
    intro k
    exact iff_of_false List.not_mem_nil (Nat.not_lt_zero k)
  have hunmapped : ∀ machineId,
      (emptyCluster replicationFactor opened config).Unmapped machineId :=
    fun _ => ⟨rfl, rfl⟩
  refine ⟨?_, ?_, ?_⟩
  · intro handler hreach machineId hnonempty huuid
    have hboth : handler.Steady ∧ Consecutive handler.registry.topology := by
      refine hreach.invariant (P := fun handler => handler.Steady ∧
        Consecutive handler.registry.topology) ⟨hstart, hempty⟩ ?_
      rintro s action s' ⟨hsteady, hs⟩ hremoves hstep
      cases hstep
      refine ⟨hsteady.handlerStep isUuid action, ?_⟩
      rcases consecutive_of_effect hsteady hs (effect_handlerStep isUuid hsteady action)
        (keyed_handlerStep isUuid hsteady action) with ⟨-, hnext⟩ | ⟨hnot, -⟩
      · exact hnext
      · exact absurd hremoves hnot
    exact hboth.1.accepts (fun k hk => (hboth.2 k).mp hk) hnonempty huuid
  · intro actions machineId hnonempty huuid hunused
    rw [← below_iff_okAlong isUuid hstart hempty actions]
    refine forall₂_congr fun pre hpre => forall₂_congr fun handler hexec => ?_
    have hsteady : handler.Steady :=
      steady_of_reaches hstart (Reaches.of_exec (okAlong_anyStep _ _ _) hexec)
    have hfree := unmapped_of_exec hstart (hunmapped machineId)
      (fun action haction => hunused action (hpre.subset haction)) hexec
    constructor
    · intro haccepts hroom
      exact (isOk_registerNewShard_iff hsteady hnonempty huuid hfree hroom "" 0).mp
        (haccepts hfree hroom "" 0)
    · intro hbelow _ hroom address now
      exact (isOk_registerNewShard_iff hsteady hnonempty huuid hfree hroom address now).mpr
        (hbelow hroom)
  · intro handler hreach
    have hsteady := steady_of_reaches hstart hreach
    refine ⟨?_, ?_⟩
    · intro machineId address now hnonempty huuid hfree hroom
      exact isOk_registerNewShard_iff hsteady hnonempty huuid hfree hroom address now
    · intro machineId address now herr
      rcases registerNewShard_cases hsteady isUuid machineId address now with
        ⟨hsame, -, -⟩ | ⟨range, -, hok, -⟩
      · exact hsame
      · rw [herr] at hok
        cases hok

/-- Three machines register and the first one is removed by force: two shards of at most 100, and
a fourth machine cannot register. -/
theorem refused_with_room :
    ∃ handler, exec (fun handler action => some (handlerStep (fun _ => true) handler action))
        (emptyCluster 1 0 ⟨100, false⟩)
        [.register "550e8400-e29b-41d4-a716-446655440000" "a:9090" 1,
          .register "6ba7b810-9dad-11d1-80b4-00c04fd430c8" "b:9090" 2,
          .register "6ba7b811-9dad-11d1-80b4-00c04fd430c8" "c:9090" 3,
          .deregister 0 "550e8400-e29b-41d4-a716-446655440000" false 4] = some handler ∧
      handler.registry.topology.totalShards = 2 ∧ handler.config.maxShards = 100 ∧
      handler.Unmapped "6ba7b812-9dad-11d1-80b4-00c04fd430c8" ∧
      (handler.registerNewShard (fun _ => true) "6ba7b812-9dad-11d1-80b4-00c04fd430c8" "d:9090"
        5).2.isOk = false := by
  refine ⟨_, exec_total _ _ _, by decide +kernel, by decide +kernel, ⟨?_, ?_⟩, by decide +kernel⟩
  · decide +kernel
  · decide +kernel

end Arcxa.Governance
