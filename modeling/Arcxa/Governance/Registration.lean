import Arcxa.Governance.Registry

/-!
# Registration of shards

Machines register, reconnect and leave through `AutoRegistrationHandler`. A registration takes
the id after the highest one, registers the shard and deals the hash space out anew among all
shards; a shard that leaves is removed and nothing else happens. Here each call runs to its end
before the next one.
-/

namespace Arcxa.Governance

structure RegistrationConfig where
  maxShards : UInt32
  allowDuplicateMachines : Bool

structure ShardRegistrationResult where
  shardId : Nat
  hashRange : HashRange
  topologyVersion : Nat
  deriving DecidableEq

structure AutoRegistrationHandler where
  registry : ShardRegistry
  /-- The cached part of the machine id mapping. -/
  machineIdMap : BTreeMap String Nat
  config : RegistrationConfig

/-- A cut point: `floor(index * 2^64 / total)`, the last one clamped to what a `u64` holds. -/
def cutPoint (total index : Nat) : Nat :=
  let point := index * 2 ^ 64 / total
  if point ≥ 2 ^ 64 then 2 ^ 64 - 1 else point

/-- The start is not clamped, since it is below `2^64` for an index in range. -/
def partitionRange (index total : Nat) : HashRange :=
  ⟨UInt64.ofNat (index * 2 ^ 64 / total), UInt64.ofNat (cutPoint total (index + 1))⟩

namespace ShardRegistry

def storeMachineIdMapping (r : ShardRegistry) (machineId : String) (shardId : Nat) :
    ShardRegistry :=
  { r with db := { r.db with machineIds := r.db.machineIds.insert machineId shardId } }

def deleteMachineIdMapping (r : ShardRegistry) (machineId : String) : ShardRegistry :=
  { r with db := { r.db with machineIds := r.db.machineIds.remove machineId } }

/-- `get_stored_machine_id`: the first machine, in key order, that is mapped to the shard. -/
def getStoredMachineId (r : ShardRegistry) (shardId : Nat) : Option String :=
  (r.db.machineIds.entries.find? (·.2 == shardId)).map (·.1)

/-- `register_shards_auto`. The number of shards is cast to a `u32`; `none` is a panic, in the
division or at an index past the ranges. -/
def registerShardsAuto (r : ShardRegistry) (shardAddresses : List (Nat × String × List String))
    (now : UInt64) : Option ShardRegistry :=
  (HashRange.distribute (shardAddresses.length % 2 ^ 32)).bind fun hashRanges =>
    shardAddresses.zipIdx.foldlM (fun r (shard, i) => hashRanges[i]?.map fun hashRange =>
      (r.registerShard (ShardMetadata.new shard.1 hashRange shard.2.1 shard.2.2 now) now none).1) r

end ShardRegistry

namespace ClusterTopology

/-- `allocate_shard_id`: one above the highest id. -/
def allocateShardId (t : ClusterTopology) : Nat :=
  match t.shards.keys.max? with
  | none => 0
  | some maxId => maxId + 1

def calculateHashRangeForNewShard (t : ClusterTopology) (shardId : Nat) :
    Except String HashRange :=
  if t.shards.entries.isEmpty then .ok ⟨0, maxHash⟩
  else if t.totalShards + 1 ≤ shardId then
    .error ("shard_id " ++ toString shardId ++ " not valid for computed total_shards " ++
      toString (t.totalShards + 1))
  else .ok (partitionRange shardId (t.totalShards + 1))

end ClusterTopology

/-- One round of `rebalance_hash_ranges`, for the shard at an index of the sorted ids. -/
def rebalanceShard (total : Nat) (now : UInt64) (r : ShardRegistry) (p : Nat × Nat) :
    ShardRegistry :=
  match r.topology.getShard p.1 with
  | none => r
  | some shard =>
    let newRange := partitionRange p.2 total
    if shard.hashRange = newRange then r
    else (r.registerShard { shard with hashRange := newRange, updatedAt := now } now none).1

def rebalanceHashRanges (r : ShardRegistry) (now : UInt64) : ShardRegistry :=
  if r.topology.totalShards = 0 then r
  else r.topology.shards.keys.zipIdx.foldl (rebalanceShard r.topology.totalShards now) r

namespace AutoRegistrationHandler

variable (isUuid : String → Bool) (handler : AutoRegistrationHandler)

def new (registry : ShardRegistry) (config : RegistrationConfig) : AutoRegistrationHandler :=
  ⟨registry, .empty, config⟩

def validateMachineId (machineId : String) : Except String Unit :=
  if machineId.isEmpty then .error "Machine ID cannot be empty"
  else if !isUuid machineId then .error "Invalid machine ID format (expected UUID)"
  else .ok ()

/-- The cache is asked first. A machine is mapped to one shard, so the order in which the shards
are looked at does not matter. -/
def findExistingShard (machineId : String) : AutoRegistrationHandler × Option Nat :=
  match handler.machineIdMap.get machineId with
  | some shardId => (handler, some shardId)
  | none =>
    match handler.registry.topology.shards.keys.find?
        (handler.registry.getStoredMachineId · == some machineId) with
    | some shardId =>
      ({ handler with machineIdMap := handler.machineIdMap.insert machineId shardId }, some shardId)
    | none => (handler, none)

def newShard (shardId : Nat) (hashRange : HashRange) (address : String) (now : UInt64) :
    ShardMetadata :=
  ShardMetadata.new shardId hashRange address [] now

def addNewShard (machineId address : String) (now : UInt64) (shardId : Nat)
    (hashRange : HashRange) : AutoRegistrationHandler × ShardRegistrationResult :=
  let registry := (handler.registry.registerShard (newShard shardId hashRange address now) now none).1
  let registry := registry.storeMachineIdMapping machineId shardId
  let registry := rebalanceHashRanges registry now
  ({ handler with registry, machineIdMap := handler.machineIdMap.insert machineId shardId },
    { shardId
      hashRange := ((registry.topology.getShard shardId).map (·.hashRange)).getD hashRange
      topologyVersion := registry.topology.clusterVersion })

def registerNewShard (machineId address : String) (now : UInt64) :
    AutoRegistrationHandler × Except String ShardRegistrationResult :=
  match validateMachineId isUuid machineId with
  | .error e => (handler, .error e)
  | .ok () =>
    let (handler, existing) :=
      if handler.config.allowDuplicateMachines then (handler, none)
      else handler.findExistingShard machineId
    match existing with
    | some existingId => (handler, .error ("Machine " ++ machineId ++
        " already registered as shard shard-" ++ toString existingId))
    | none =>
      let topology := handler.registry.topology
      if handler.config.maxShards.toNat ≤ topology.totalShards then
        (handler, .error ("Maximum shard count (" ++ toString handler.config.maxShards.toNat ++
          ") reached"))
      else
        let shardId := topology.allocateShardId
        match topology.calculateHashRangeForNewShard shardId with
        | .error e => (handler, .error e)
        | .ok hashRange =>
          let (handler, result) := handler.addNewShard machineId address now shardId hashRange
          (handler, .ok result)

def refreshShard (shardId : Nat) (machineId address : String) (now : UInt64) :
    AutoRegistrationHandler :=
  let registry := (handler.registry.updateShardAddress shardId address now none).1
  let registry := (registry.updateShardStatus shardId .Active none).1
  let registry := (registry.updateHeartbeat shardId now none).1
  { handler with registry, machineIdMap := handler.machineIdMap.insert machineId shardId }

def reconnectShard (shardId : Nat) (machineId address : String) (now : UInt64) :
    AutoRegistrationHandler × Except String ShardRegistrationResult :=
  match handler.registry.topology.getShard shardId with
  | none => (handler, .error ("Shard " ++ toString shardId ++ " not found in registry"))
  | some shard =>
    let result : ShardRegistrationResult :=
      ⟨shardId, shard.hashRange, handler.registry.topology.clusterVersion⟩
    match handler.registry.getStoredMachineId shardId with
    | some stored =>
      if stored ≠ machineId then
        (handler, .error ("Machine ID mismatch for shard " ++ toString shardId ++ ". Expected: " ++
          stored ++ ", Got: " ++ machineId))
      else (handler.refreshShard shardId machineId address now, .ok result)
    | none =>
      -- a shard from before machine ids were stored
      let handler :=
        { handler with registry := handler.registry.storeMachineIdMapping machineId shardId }
      (handler.refreshShard shardId machineId address now, .ok result)

def removeShard (shardId : Nat) (machineId : String) (now : UInt64) : AutoRegistrationHandler :=
  let registry := (handler.registry.unregisterShard shardId now none).1
  let registry := registry.deleteMachineIdMapping machineId
  { handler with
    registry
    machineIdMap := handler.machineIdMap.retain fun _ mapped => mapped ≠ shardId }

def deregisterShard (shardId : Nat) (machineId : String) (graceful : Bool) (now : UInt64) :
    AutoRegistrationHandler × Except String Unit :=
  if (handler.registry.getStoredMachineId shardId).any (· ≠ machineId) then
    (handler, .error ("Machine ID mismatch for deregistration of shard " ++ toString shardId))
  else if graceful then
    let (registry, result) := handler.registry.updateShardStatus shardId .Draining none
    ({ handler with registry }, result)
  else (handler.removeShard shardId machineId now, .ok ())

end AutoRegistrationHandler

inductive HandlerAction where
  | register (machineId address : String) (now : UInt64)
  | reconnect (shardId : Nat) (machineId address : String) (now : UInt64)
  | deregister (shardId : Nat) (machineId : String) (graceful : Bool) (now : UInt64)

def handlerStep (isUuid : String → Bool) (handler : AutoRegistrationHandler) :
    HandlerAction → AutoRegistrationHandler
  | .register machineId address now => (handler.registerNewShard isUuid machineId address now).1
  | .reconnect shardId machineId address now =>
    (handler.reconnectShard shardId machineId address now).1
  | .deregister shardId machineId graceful now =>
    (handler.deregisterShard shardId machineId graceful now).1

end Arcxa.Governance
