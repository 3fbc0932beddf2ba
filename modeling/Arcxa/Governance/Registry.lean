import Arcxa.Lib.Transition
import Arcxa.Governance.Topology

/-!
# The shard registry

The registry keeps the topology in memory and in RocksDB. Two column families hold shards: one
the metadata of each shard, one the whole topology; only the second is read when a registry is
opened. A call changes the topology in memory first and writes then, and a write may fail.
Values stand for their bincode bytes, which hold every field.

`register_shard`, `unregister_shard` and `update_shard_stats` write both families, the other
updates write the first one only, so that a restart forgets what they changed
(`survives_iff`).
-/

namespace Arcxa.Governance

open ClusterTopology

/-- The column families `shards`, `topology` (under `current`) and `machine_ids`. -/
structure RegistryDb where
  shards : BTreeMap Nat ShardMetadata
  topology : Option ClusterTopology
  machineIds : BTreeMap String Nat

def RegistryDb.empty : RegistryDb := ⟨.empty, none, .empty⟩

structure ShardRegistry where
  topology : ClusterTopology
  db : RegistryDb

abbrev Fault := Option Nat

namespace ShardRegistry

def loadTopologyFromDb (db : RegistryDb) (replicationFactor : Nat) (now : UInt64) :
    ClusterTopology :=
  match db.topology with
  | some topology => topology
  | none => ClusterTopology.new replicationFactor now

/-- `new`. -/
def openDb (db : RegistryDb) (replicationFactor : Nat) (now : UInt64) : ShardRegistry where
  topology := loadTopologyFromDb db replicationFactor now
  db

/-- The write to `shards`. -/
def putShard (r : ShardRegistry) (shardId : Nat) (shard : ShardMetadata) : ShardRegistry :=
  { r with db := { r.db with shards := r.db.shards.insert shardId shard } }

def saveTopologyToDb (r : ShardRegistry) : ShardRegistry :=
  { r with db := { r.db with topology := some r.topology } }

/-- The delete from `shards`. -/
def deleteShard (r : ShardRegistry) (shardId : Nat) : ShardRegistry :=
  { r with db := { r.db with shards := r.db.shards.remove shardId } }

def writeBoth {α : Type} (r : ShardRegistry) (write : ShardRegistry → ShardRegistry)
    (message : String) (fault : Fault) (result : α) : ShardRegistry × Except String α :=
  if fault = some 0 then (r, .error message)
  else if fault = some 1 then (write r, .error "Failed to write topology to RocksDB")
  else ((write r).saveTopologyToDb, .ok result)

def registerShard (r : ShardRegistry) (shard : ShardMetadata) (now : UInt64) (fault : Fault) :
    ShardRegistry × Except String Unit :=
  writeBoth { r with topology := r.topology.addShard shard now } (·.putShard shard.shardId shard)
    "Failed to write shard to RocksDB" fault ()

def unregisterShard (r : ShardRegistry) (shardId : Nat) (now : UInt64) (fault : Fault) :
    ShardRegistry × Except String (Option ShardMetadata) :=
  match r.topology.removeShard shardId now with
  | (topology, some removed) =>
    writeBoth { r with topology } (·.deleteShard shardId) "Failed to delete shard from RocksDB"
      fault (some removed)
  | (topology, none) => ({ r with topology }, .ok none)

def modifyShard (r : ShardRegistry) (shardId : Nat) (f : ShardMetadata → ShardMetadata)
    (message : String) (fault : Fault) : ShardRegistry × Except String Unit :=
  match r.topology.getShard shardId with
  | none => (r, .error "Shard not found")
  | some shard =>
    let r := { r with topology := r.topology.setShard shardId (f shard) }
    if fault = some 0 then (r, .error message)
    else (r.putShard shardId (f shard), .ok ())

def updateHeartbeat (r : ShardRegistry) (shardId : Nat) (now : UInt64) (fault : Fault) :
    ShardRegistry × Except String Unit :=
  r.modifyShard shardId (·.heartbeat now) "Failed to update shard in RocksDB" fault

def updateShardStatus (r : ShardRegistry) (shardId : Nat) (status : ShardStatus) (fault : Fault) :
    ShardRegistry × Except String Unit :=
  r.modifyShard shardId ({ · with status }) "Failed to update shard in RocksDB" fault

def updateShardAddress (r : ShardRegistry) (shardId : Nat) (newAddress : String) (now : UInt64)
    (fault : Fault) : ShardRegistry × Except String Unit :=
  r.modifyShard shardId ({ · with leaderAddress := newAddress, updatedAt := now })
    "Failed to update shard address in RocksDB" fault

def updateShardStats (r : ShardRegistry) (shardId : Nat) (tripleCount sizeBytes now : UInt64)
    (fault : Fault) : ShardRegistry × Except String Unit :=
  match r.modifyShard shardId (·.updateStats tripleCount sizeBytes now)
      "Failed to update shard in RocksDB" fault with
  | (r, .error e) => (r, .error e)
  | (r, .ok ()) =>
    let r := { r with topology := r.topology.recalculateTotals }
    if fault = some 1 then (r, .error "Failed to write topology to RocksDB")
    else (r.saveTopologyToDb, .ok ())

end ShardRegistry

/-! ## Restarts -/

inductive RegistryAction where
  | register (shard : ShardMetadata) (now : UInt64) (fault : Fault)
  | unregister (shardId : Nat) (now : UInt64) (fault : Fault)
  | heartbeat (shardId : Nat) (now : UInt64) (fault : Fault)
  | stats (shardId : Nat) (tripleCount sizeBytes now : UInt64) (fault : Fault)
  | status (shardId : Nat) (status : ShardStatus) (fault : Fault)
  | address (shardId : Nat) (newAddress : String) (now : UInt64) (fault : Fault)

/-- One call, and whether it returned `Ok`. -/
def registryCall (r : ShardRegistry) : RegistryAction → ShardRegistry × Bool
  | .register shard now fault => (r.registerShard shard now fault).map id (·.isOk)
  | .unregister shardId now fault => (r.unregisterShard shardId now fault).map id (·.isOk)
  | .heartbeat shardId now fault => (r.updateHeartbeat shardId now fault).map id (·.isOk)
  | .stats shardId tripleCount sizeBytes now fault =>
    (r.updateShardStats shardId tripleCount sizeBytes now fault).map id (·.isOk)
  | .status shardId status fault => (r.updateShardStatus shardId status fault).map id (·.isOk)
  | .address shardId newAddress now fault =>
    (r.updateShardAddress shardId newAddress now fault).map id (·.isOk)

def registryStep (r : ShardRegistry) (action : RegistryAction) : ShardRegistry :=
  (registryCall r action).1

/-- Equal but for the time of the last change, which a registry without a stored topology takes
from the clock. -/
def SameTopology (t t' : ClusterTopology) : Prop :=
  { t with updatedAt := 0 } = { t' with updatedAt := 0 }

/-- A registry opened on the same database, at any time, has the topology of this one. -/
def Reopens (replicationFactor : Nat) (r : ShardRegistry) : Prop :=
  ∀ now, SameTopology (ShardRegistry.loadTopologyFromDb r.db replicationFactor now) r.topology

/-- A call that returns `Ok` can be followed by a restart, and one that returns `Err` has changed
nothing in memory. -/
def Survives (replicationFactor : Nat) (r : ShardRegistry) (action : RegistryAction) : Prop :=
  if (registryCall r action).2 then Reopens replicationFactor (registryStep r action)
  else (registryStep r action).topology = r.topology

/-- What a call has to meet, in the registry before it. -/
def KeepsTopology (r : ShardRegistry) : RegistryAction → Prop
  | .register _ _ fault => fault ≠ some 0 ∧ fault ≠ some 1
  | .unregister shardId _ fault =>
    r.topology.getShard shardId = none ∨ fault ≠ some 0 ∧ fault ≠ some 1
  | .heartbeat shardId now _ => ∀ shard, r.topology.getShard shardId = some shard →
    shard.lastHeartbeat = now ∧ shard.updatedAt = now
  | .stats shardId tripleCount sizeBytes now fault =>
    fault ≠ some 0 ∧ fault ≠ some 1 ∨
    ∀ shard, r.topology.getShard shardId = some shard →
      shard.tripleCount = tripleCount ∧ shard.sizeBytes = sizeBytes ∧ shard.updatedAt = now ∧
      (fault = some 1 → r.topology.recalculateTotals = r.topology)
  | .status shardId status _ => ∀ shard, r.topology.getShard shardId = some shard →
    shard.status = status
  | .address shardId newAddress now _ => ∀ shard, r.topology.getShard shardId = some shard →
    shard.leaderAddress = newAddress ∧ shard.updatedAt = now

/-! ## What is read back -/

namespace SameTopology

theorem refl (t : ClusterTopology) : SameTopology t t := rfl

theorem symm {t t' : ClusterTopology} (h : SameTopology t t') : SameTopology t' t := Eq.symm h

theorem trans {t t' t'' : ClusterTopology} (h : SameTopology t t') (h' : SameTopology t' t'') :
    SameTopology t t'' :=
  Eq.trans h h'

theorem shards_eq {t t' : ClusterTopology} (h : SameTopology t t') : t.shards = t'.shards := by
  unfold SameTopology at h
  exact (mk.inj h).2.2.2.1

end SameTopology

variable {shard : ShardMetadata} {shardId : Nat}

namespace ClusterTopology

theorem setShard_self {t : ClusterTopology}
    (h : t.getShard shardId = some shard) : t.setShard shardId shard = t := by
  have hshards : t.shards.insert shardId shard = t.shards := by
    apply BTreeMap.ext_get
    intro k
    rw [BTreeMap.get_insert]
    split_ifs with hk
    · rw [hk]
      exact h.symm
    · rfl
  rw [setShard, hshards]

theorem eq_of_setShard {t : ClusterTopology} {shard shard' : ShardMetadata}
    (h : t.getShard shardId = some shard)
    (hshards : t.shards = (t.setShard shardId shard').shards) : shard' = shard := by
  have hget := congrArg (fun m : BTreeMap Nat ShardMetadata => m.get shardId) hshards
  simp only [setShard, BTreeMap.get_insert, if_true] at hget
  rw [show t.shards.get shardId = some shard from h] at hget
  exact (Option.some.inj hget).symm

theorem changed_ne (t : ClusterTopology) (shards : BTreeMap Nat ShardMetadata) (now : UInt64) :
    t.changed shards now ≠ t := by
  intro h
  have hversion : t.clusterVersion + 1 = t.clusterVersion := congrArg clusterVersion h
  omega

end ClusterTopology

theorem reopens_openDb (db : RegistryDb) (replicationFactor : Nat) (now : UInt64) :
    Reopens replicationFactor (ShardRegistry.openDb db replicationFactor now) := by
  intro now'
  show SameTopology (ShardRegistry.loadTopologyFromDb db _ now')
    (ShardRegistry.loadTopologyFromDb db _ now)
  unfold ShardRegistry.loadTopologyFromDb
  cases db.topology with
  | some topology => exact .refl _
  | none => rfl

theorem reopens_saveTopologyToDb (replicationFactor : Nat) (r : ShardRegistry) :
    Reopens replicationFactor r.saveTopologyToDb :=
  fun _ => .refl _

theorem Reopens.of_eq {replicationFactor : Nat} {r r' : ShardRegistry}
    (h : Reopens replicationFactor r) (hdb : r'.db.topology = r.db.topology)
    (htopology : r'.topology = r.topology) : Reopens replicationFactor r' := by
  intro now
  rw [htopology, ShardRegistry.loadTopologyFromDb, hdb]
  exact h now

/-! ## Updates of one shard -/

section Modify

variable {replicationFactor : Nat} {r : ShardRegistry} {shardId : Nat}
  {f : ShardMetadata → ShardMetadata} {message : String} {fault : Fault}

theorem modifyShard_none (h : r.topology.getShard shardId = none) :
    r.modifyShard shardId f message fault = (r, .error "Shard not found") := by
  rw [ShardRegistry.modifyShard, h]

variable (f message fault) in
theorem modifyShard_some (h : r.topology.getShard shardId = some shard) :
    (r.modifyShard shardId f message fault).1.topology = r.topology.setShard shardId (f shard) ∧
    (r.modifyShard shardId f message fault).1.db.topology = r.db.topology ∧
    (r.modifyShard shardId f message fault).2 =
      if fault = some 0 then .error message else .ok () := by
  rw [ShardRegistry.modifyShard, h]
  by_cases hfault : fault = some 0
  · simp only [hfault, if_true, and_self]
  · simp only [if_neg hfault]
    exact ⟨rfl, rfl, trivial⟩

theorem modifyShard_survives_iff (hreopens : Reopens replicationFactor r) :
    (if (r.modifyShard shardId f message fault).2.isOk = true then
        Reopens replicationFactor (r.modifyShard shardId f message fault).1
      else (r.modifyShard shardId f message fault).1.topology = r.topology) ↔
    ∀ shard, r.topology.getShard shardId = some shard → f shard = shard := by
  cases hget : r.topology.getShard shardId with
  | none =>
    rw [modifyShard_none hget]
    exact iff_of_true rfl (fun shard hshard => by cases hshard)
  | some shard =>
    obtain ⟨htopology, hdb, -⟩ := modifyShard_some f message fault hget
    have hforall : (∀ s, some shard = some s → f s = s) ↔ f shard = shard :=
      ⟨fun h => h shard rfl, fun h s hs => by cases hs; exact h⟩
    rw [hforall]
    constructor
    · -- the stored topology has the shard as it was
      intro h
      apply eq_of_setShard hget
      rw [← htopology]
      split_ifs at h with hok
      · have hstored := h 0
        rw [ShardRegistry.loadTopologyFromDb, hdb] at hstored
        exact ((hreopens 0).symm.trans hstored).shards_eq
      · rw [h]
    · intro h
      have hsame : (r.modifyShard shardId f message fault).1.topology = r.topology := by
        rw [htopology, h, setShard_self hget]
      split_ifs
      · exact hreopens.of_eq hdb hsame
      · exact hsame

end Modify

/-! ## Calls -/

theorem writeBoth_survives_iff {α : Type} {replicationFactor : Nat} {r r' : ShardRegistry}
    {write : ShardRegistry → ShardRegistry} (hwrite : ∀ r, (write r).topology = r.topology)
    (hchanged : r'.topology ≠ r.topology) (message : String) (fault : Fault) (result : α) :
    (if (r'.writeBoth write message fault result).2.isOk = true then
        Reopens replicationFactor (r'.writeBoth write message fault result).1
      else (r'.writeBoth write message fault result).1.topology = r.topology) ↔
    fault ≠ some 0 ∧ fault ≠ some 1 := by
  unfold ShardRegistry.writeBoth
  by_cases h0 : fault = some 0
  · rw [if_pos h0]
    exact iff_of_false hchanged (fun h => h.1 h0)
  by_cases h1 : fault = some 1
  · rw [if_neg h0, if_pos h1]
    refine iff_of_false ?_ (fun h => h.2 h1)
    show ¬ (write r').topology = r.topology
    rw [hwrite]
    exact hchanged
  · rw [if_neg h0, if_neg h1]
    exact iff_of_true (reopens_saveTopologyToDb _ _) ⟨h0, h1⟩

theorem get_removeShard (t : ClusterTopology) (shardId : Nat) (now : UInt64) (k : Nat) :
    (t.removeShard shardId now).1.shards.get k = if k = shardId then none else t.shards.get k := by
  unfold removeShard
  split
  · exact BTreeMap.get_remove ..
  · rename_i hnone
    split_ifs with hk
    · rw [hk]
      exact hnone
    · rfl

theorem unregisterShard_none {r : ShardRegistry}
    (h : r.topology.getShard shardId = none) (now : UInt64) (fault : Fault) :
    r.unregisterShard shardId now fault = (r, .ok none) := by
  have hget : r.topology.shards.get shardId = none := h
  simp only [ShardRegistry.unregisterShard, removeShard, hget]

theorem unregisterShard_some {r : ShardRegistry}
    (h : r.topology.getShard shardId = some shard) (now : UInt64) (fault : Fault) :
    r.unregisterShard shardId now fault =
      ShardRegistry.writeBoth
        { r with topology := r.topology.changed (r.topology.shards.remove shardId) now }
        (·.deleteShard shardId) "Failed to delete shard from RocksDB" fault (some shard) := by
  have hget : r.topology.shards.get shardId = some shard := h
  simp only [ShardRegistry.unregisterShard, removeShard, hget]

theorem updateShardStats_of_ne {r : ShardRegistry}
    (h : r.topology.getShard shardId = some shard) (tripleCount sizeBytes now : UInt64)
    {fault : Fault} (h0 : fault ≠ some 0) :
    ∃ r' : ShardRegistry, r'.db.topology = r.db.topology ∧
      r'.topology = (r.topology.setShard shardId
        (shard.updateStats tripleCount sizeBytes now)).recalculateTotals ∧
      r.updateShardStats shardId tripleCount sizeBytes now fault =
        if fault = some 1 then (r', .error "Failed to write topology to RocksDB")
        else (r'.saveTopologyToDb, .ok ()) := by
  obtain ⟨htopology, hdb, hresult⟩ := modifyShard_some (·.updateStats tripleCount sizeBytes now)
    "Failed to update shard in RocksDB" fault h
  rw [if_neg h0] at hresult
  refine ⟨{ (r.modifyShard shardId (·.updateStats tripleCount sizeBytes now)
      "Failed to update shard in RocksDB" fault).1 with
    topology := (r.modifyShard shardId (·.updateStats tripleCount sizeBytes now)
      "Failed to update shard in RocksDB" fault).1.topology.recalculateTotals }, hdb, ?_, ?_⟩
  · show recalculateTotals _ = _
    rw [htopology]
  · unfold ShardRegistry.updateShardStats
    split
    · rename_i heq
      rw [heq] at hresult
      cases hresult
    · rename_i heq
      rw [heq]

namespace ShardMetadata

theorem heartbeat_eq_self_iff {now : UInt64} :
    shard.heartbeat now = shard ↔ shard.lastHeartbeat = now ∧ shard.updatedAt = now := by
  cases shard
  simp [heartbeat, eq_comm]

theorem status_eq_self_iff {status : ShardStatus} :
    { shard with status } = shard ↔ shard.status = status := by
  cases shard
  simp [eq_comm]

theorem address_eq_self_iff {newAddress : String} {now : UInt64} :
    { shard with leaderAddress := newAddress, updatedAt := now } = shard ↔
      shard.leaderAddress = newAddress ∧ shard.updatedAt = now := by
  cases shard
  simp [eq_comm]

theorem updateStats_eq_self_iff {tripleCount sizeBytes now : UInt64} :
    shard.updateStats tripleCount sizeBytes now = shard ↔
      shard.tripleCount = tripleCount ∧ shard.sizeBytes = sizeBytes ∧ shard.updatedAt = now := by
  cases shard
  simp [updateStats, eq_comm]

end ShardMetadata

section Calls

variable {replicationFactor : Nat} {r : ShardRegistry}

theorem updateShardStats_some_zero (shardId : Nat) (tripleCount sizeBytes now : UInt64) :
    r.updateShardStats shardId tripleCount sizeBytes now (some 0) =
      r.modifyShard shardId (·.updateStats tripleCount sizeBytes now)
        "Failed to update shard in RocksDB" (some 0) := by
  unfold ShardRegistry.updateShardStats
  split
  · rename_i heq
    exact heq.symm
  · rename_i heq
    -- the write failed
    exfalso
    unfold ShardRegistry.modifyShard at heq
    split at heq <;> cases heq

theorem survives_stats_some_one_iff
    (hget : r.topology.getShard shardId = some shard) (tripleCount sizeBytes now : UInt64) :
    Survives replicationFactor r (.stats shardId tripleCount sizeBytes now (some 1)) ↔
      shard.updateStats tripleCount sizeBytes now = shard ∧
        r.topology.recalculateTotals = r.topology := by
  obtain ⟨r', hdb, htopology, hcall⟩ := updateShardStats_of_ne hget tripleCount sizeBytes now
    (show (some 1 : Fault) ≠ some 0 by decide)
  have hsurvives : Survives replicationFactor r (.stats shardId tripleCount sizeBytes now (some 1)) ↔
      r'.topology = r.topology := by
    simp only [Survives, registryStep, registryCall, hcall]
    exact Iff.rfl
  rw [hsurvives, htopology]
  constructor
  · intro h
    have hshard : shard.updateStats tripleCount sizeBytes now = shard := by
      apply eq_of_setShard hget
      exact (congrArg shards h).symm
    rw [hshard, setShard_self hget] at h
    exact ⟨hshard, h⟩
  · rintro ⟨hshard, htotals⟩
    rw [hshard, setShard_self hget, htotals]

theorem survives_stats_iff (hreopens : Reopens replicationFactor r) (shardId : Nat)
    (tripleCount sizeBytes now : UInt64) (fault : Fault) :
    Survives replicationFactor r (.stats shardId tripleCount sizeBytes now fault) ↔
      KeepsTopology r (.stats shardId tripleCount sizeBytes now fault) := by
  by_cases h0 : fault = some 0
  · subst h0
    have hfirst : Survives replicationFactor r (.stats shardId tripleCount sizeBytes now (some 0)) ↔
        ∀ shard, r.topology.getShard shardId = some shard →
          shard.updateStats tripleCount sizeBytes now = shard := by
      simp only [Survives, registryStep, registryCall, updateShardStats_some_zero]
      exact modifyShard_survives_iff hreopens
    rw [hfirst]
    simp [KeepsTopology, ShardMetadata.updateStats_eq_self_iff]
  cases hget : r.topology.getShard shardId with
  | none =>
    have hcall : r.updateShardStats shardId tripleCount sizeBytes now fault =
        (r, .error "Shard not found") := by
      rw [ShardRegistry.updateShardStats, modifyShard_none hget]
    refine iff_of_true ?_ (.inr fun shard hshard => ?_)
    · simp only [Survives, registryStep, registryCall, hcall]
      rfl
    · rw [hget] at hshard
      cases hshard
  | some shard =>
    by_cases h1 : fault = some 1
    · subst h1
      rw [survives_stats_some_one_iff hget, ShardMetadata.updateStats_eq_self_iff]
      simp [KeepsTopology, hget, and_assoc]
    · refine iff_of_true ?_ (.inl ⟨h0, h1⟩)
      obtain ⟨r', -, -, hcall⟩ := updateShardStats_of_ne hget tripleCount sizeBytes now h0
      simp only [Survives, registryStep, registryCall, hcall, if_neg h1]
      exact reopens_saveTopologyToDb _ _

/-- **What a call that survives a restart has to meet.** -/
theorem survives_iff_keepsTopology (hreopens : Reopens replicationFactor r)
    (action : RegistryAction) :
    Survives replicationFactor r action ↔ KeepsTopology r action := by
  cases action with
  | register shard now fault =>
    have hchanged : r.topology.addShard shard now ≠ r.topology :=
      changed_ne r.topology _ now
    exact @writeBoth_survives_iff Unit replicationFactor r
      { r with topology := r.topology.addShard shard now } (·.putShard shard.shardId shard)
      (fun _ => rfl) hchanged "Failed to write shard to RocksDB" fault ()
  | unregister shardId now fault =>
    cases hget : r.topology.getShard shardId with
    | none =>
      refine iff_of_true ?_ (.inl hget)
      simp only [Survives, registryStep, registryCall, unregisterShard_none hget]
      exact hreopens
    | some shard =>
      have hwrites := @writeBoth_survives_iff (Option ShardMetadata) replicationFactor r
        { r with topology := r.topology.changed (r.topology.shards.remove shardId) now }
        (·.deleteShard shardId) (fun _ => rfl) (changed_ne _ _ now)
        "Failed to delete shard from RocksDB" fault (some shard)
      rw [← unregisterShard_some hget] at hwrites
      refine hwrites.trans ?_
      simp [KeepsTopology, hget]
  | heartbeat shardId now fault =>
    refine (modifyShard_survives_iff hreopens).trans ?_
    simp only [ShardMetadata.heartbeat_eq_self_iff, KeepsTopology]
  | stats shardId tripleCount sizeBytes now fault =>
    exact survives_stats_iff hreopens shardId tripleCount sizeBytes now fault
  | status shardId status fault =>
    refine (modifyShard_survives_iff hreopens).trans ?_
    simp only [ShardMetadata.status_eq_self_iff, KeepsTopology]
  | address shardId newAddress now fault =>
    refine (modifyShard_survives_iff hreopens).trans ?_
    simp only [ShardMetadata.address_eq_self_iff, KeepsTopology]

theorem db_modifyShard (shardId : Nat) (f : ShardMetadata → ShardMetadata) (message : String)
    (fault : Fault) : (r.modifyShard shardId f message fault).1.db.topology = r.db.topology := by
  cases hget : r.topology.getShard shardId with
  | none => rw [modifyShard_none hget]
  | some shard => exact (modifyShard_some f message fault hget).2.1

theorem db_writeBoth_of_error {α : Type} {write : ShardRegistry → ShardRegistry}
    (hwrite : ∀ r, (write r).db.topology = r.db.topology) {message : String} {fault : Fault}
    {result : α} (herr : (r.writeBoth write message fault result).2.isOk = false) :
    (r.writeBoth write message fault result).1.db.topology = r.db.topology := by
  unfold ShardRegistry.writeBoth at herr ⊢
  split_ifs at herr ⊢
  · rfl
  · exact hwrite r
  · cases herr

theorem db_of_error {action : RegistryAction} (herr : (registryCall r action).2 = false) :
    (registryStep r action).db.topology = r.db.topology := by
  cases action with
  | register shard now fault =>
    exact @db_writeBoth_of_error { r with topology := r.topology.addShard shard now } Unit
      (·.putShard shard.shardId shard) (fun _ => rfl) _ fault () herr
  | unregister shardId now fault =>
    cases hget : r.topology.getShard shardId with
    | none =>
      simp only [registryCall, unregisterShard_none hget] at herr
      cases herr
    | some shard =>
      simp only [registryStep, registryCall, unregisterShard_some hget] at herr ⊢
      exact @db_writeBoth_of_error
        { r with topology := r.topology.changed (r.topology.shards.remove shardId) now }
        (Option ShardMetadata) (·.deleteShard shardId) (fun _ => rfl) _ fault (some shard) herr
  | heartbeat shardId now fault => exact db_modifyShard shardId _ _ fault
  | status shardId status fault => exact db_modifyShard shardId _ _ fault
  | address shardId newAddress now fault => exact db_modifyShard shardId _ _ fault
  | stats shardId tripleCount sizeBytes now fault =>
    have hfirst := db_modifyShard (r := r) shardId (·.updateStats tripleCount sizeBytes now)
      "Failed to update shard in RocksDB" fault
    simp only [registryStep, registryCall, ShardRegistry.updateShardStats] at herr ⊢
    split at herr
    · rename_i heq
      rw [heq] at hfirst
      exact hfirst
    · rename_i heq
      rw [heq] at hfirst
      split_ifs at herr ⊢
      · exact hfirst
      · cases herr

theorem Survives.reopens {action : RegistryAction} (hreopens : Reopens replicationFactor r)
    (h : Survives replicationFactor r action) : Reopens replicationFactor (registryStep r action) := by
  unfold Survives at h
  split_ifs at h with hok
  · exact h
  · exact hreopens.of_eq (db_of_error (Bool.eq_false_iff.mpr hok)) h

end Calls

/-- **Which histories survive a restart**: exactly those in which every heartbeat, change of status
or change of address leaves the shard as it is, and no write of another call fails unless there is
nothing to change. -/
theorem survives_iff (db : RegistryDb) (replicationFactor : Nat) (now : UInt64)
    (actions : List RegistryAction) :
    OkAlong (fun r a => some (registryStep r a)) (Survives replicationFactor)
        (ShardRegistry.openDb db replicationFactor now) actions ↔
      OkAlong (fun r a => some (registryStep r a)) KeepsTopology
        (ShardRegistry.openDb db replicationFactor now) actions := by
  refine okAlong_congr (I := Reopens replicationFactor) ?_ (reopens_openDb db _ now)
    (exec_total registryStep _ actions)
  intro r action r' hreopens hstep
  cases hstep
  exact ⟨survives_iff_keepsTopology hreopens action, fun h => h.reopens hreopens⟩

def sampleShard : ShardMetadata := .new 0 ⟨0, maxHash⟩ "shard-0:9090" [] 100

/-- A shard that was made active is provisioning again after a restart. -/
theorem status_forgotten :
    let r := registryStep (ShardRegistry.openDb .empty 3 100) (.register sampleShard 100 none)
    (registryCall r (.status 0 .Active none)).2 = true ∧
    ((registryStep r (.status 0 .Active none)).topology.getShard 0).map (·.status) =
      some .Active ∧
    ((ShardRegistry.loadTopologyFromDb (registryStep r (.status 0 .Active none)).db 3 200).getShard
      0).map (·.status) = some .Provisioning := by
  decide +kernel

end Arcxa.Governance
