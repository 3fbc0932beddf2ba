import Mathlib.Data.UInt
import Arcxa.Lib.BTreeMap

/-!
# The shards of a cluster

Each shard owns a range of hashes, from its start up to, but not including, its end. The
topology of a cluster is the map of its shards with their totals. Shard ids are natural
numbers here: no run hands out an id that `u32` does not hold. A `HashMap` is the map of its
bindings; what depends on the order in which one is walked takes that order as an argument.
-/

namespace Arcxa.Governance

structure HashRange where
  start : UInt64
  /-- `end`, which is not part of the range. -/
  stop : UInt64
  deriving DecidableEq

/-- `u64::MAX`. -/
def maxHash : UInt64 := UInt64.ofNat (2 ^ 64 - 1)

namespace HashRange

def contains (range : HashRange) (hash : UInt64) : Bool :=
  range.start ≤ hash && hash < range.stop

/-- The share of the shard `i` of `numShards`. -/
def share (numShards i : Nat) : HashRange :=
  let rangeSize := (2 ^ 64 - 1) / numShards
  { start := UInt64.ofNat (i * rangeSize)
    stop := if i = numShards - 1 then maxHash else UInt64.ofNat ((i + 1) * rangeSize) }

/-- `none` is the division by zero. -/
def distribute (numShards : Nat) : Option (List HashRange) :=
  if numShards = 0 then none else some ((List.range numShards).map (share numShards))

end HashRange

inductive ShardStatus where
  | Active
  | Draining
  | Provisioning
  | Degraded
  | Down
  deriving DecidableEq

structure ShardMetadata where
  shardId : Nat
  hashRange : HashRange
  status : ShardStatus
  leaderAddress : String
  replicaAddresses : List String
  tripleCount : UInt64
  sizeBytes : UInt64
  lastHeartbeat : UInt64
  raftTerm : UInt64
  createdAt : UInt64
  updatedAt : UInt64
  deriving DecidableEq

namespace ShardMetadata

def new (shardId : Nat) (hashRange : HashRange) (leaderAddress : String)
    (replicaAddresses : List String) (now : UInt64) : ShardMetadata where
  shardId
  hashRange
  status := .Provisioning
  leaderAddress
  replicaAddresses
  tripleCount := 0
  sizeBytes := 0
  lastHeartbeat := now
  raftTerm := 0
  createdAt := now
  updatedAt := now

def heartbeat (shard : ShardMetadata) (now : UInt64) : ShardMetadata :=
  { shard with lastHeartbeat := now, updatedAt := now }

def updateStats (shard : ShardMetadata) (tripleCount sizeBytes now : UInt64) : ShardMetadata :=
  { shard with tripleCount, sizeBytes, updatedAt := now }

end ShardMetadata

structure ClusterTopology where
  totalShards : Nat
  replicationFactor : Nat
  clusterVersion : Nat
  shards : BTreeMap Nat ShardMetadata
  totalTriples : UInt64
  totalSizeBytes : UInt64
  updatedAt : UInt64

namespace ClusterTopology

def new (replicationFactor : Nat) (now : UInt64) : ClusterTopology where
  totalShards := 0
  replicationFactor
  clusterVersion := 0
  shards := .empty
  totalTriples := 0
  totalSizeBytes := 0
  updatedAt := now

def recalculateTotals (t : ClusterTopology) : ClusterTopology :=
  { t with
    totalTriples := (t.shards.values.map (·.tripleCount)).sum
    totalSizeBytes := (t.shards.values.map (·.sizeBytes)).sum }

def changed (t : ClusterTopology) (shards : BTreeMap Nat ShardMetadata) (now : UInt64) :
    ClusterTopology :=
  recalculateTotals { t with
    shards
    totalShards := shards.entries.length
    clusterVersion := t.clusterVersion + 1
    updatedAt := now }

def addShard (t : ClusterTopology) (shard : ShardMetadata) (now : UInt64) : ClusterTopology :=
  t.changed (t.shards.insert shard.shardId shard) now

def removeShard (t : ClusterTopology) (shardId : Nat) (now : UInt64) :
    ClusterTopology × Option ShardMetadata :=
  match t.shards.get shardId with
  | some shard => (t.changed (t.shards.remove shardId) now, some shard)
  | none => (t, none)

def getShard (t : ClusterTopology) (shardId : Nat) : Option ShardMetadata := t.shards.get shardId

/-- A change through `get_shard_mut`. -/
def setShard (t : ClusterTopology) (shardId : Nat) (shard : ShardMetadata) : ClusterTopology :=
  { t with shards := t.shards.insert shardId shard }

def findShardForHash (order : List ShardMetadata) (hash : UInt64) : Option ShardMetadata :=
  order.find? (·.hashRange.contains hash)

def activeShards (order : List ShardMetadata) : List ShardMetadata :=
  order.filter (fun s => s.status = .Active)

end ClusterTopology

end Arcxa.Governance
