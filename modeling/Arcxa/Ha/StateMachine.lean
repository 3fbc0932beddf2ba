import Arcxa.Governance.Topology
import Arcxa.Ha.HashRing

/-!
# The coordinator's state machine

The coordinators of a cluster apply the same commands in the same order, each to a state of its
own. Two things are not part of the commands: the clock, which two handlers read, and the order in
which a `HashMap` is walked when the ring is rebuilt. `Env` is what one application of a command
finds there.

A handler gives back the state next to its result, because it may have changed the state before it
fails. Rebuilding the ring never fails in a state that was reached by commands (`Sound`,
`addActive_eq`), so that only completing a migration can.
-/

namespace Arcxa.Ha

open Governance (ShardMetadata ShardStatus)

inductive MigrationStatus where
  | Planning
  | InProgress
  | Verifying
  | Switching
  | Completed
  | Aborted
  | Failed
  deriving DecidableEq

structure MigrationState where
  id : String
  sourceShard : Nat
  targetShard : Nat
  virtualNodes : List UInt64
  startedAt : UInt64
  /-- In percent: the code sets it to `0.0` and to `100.0` only. -/
  progress : Nat
  status : MigrationStatus
  deriving DecidableEq

inductive StateCommand where
  | RegisterShard (shard : ShardMetadata)
  | UnregisterShard (shardId : Nat)
  | UpdateShardStatus (shardId : Nat) (status : ShardStatus)
  | UpdateHeartbeat (shardId : Nat) (timestamp : UInt64)
  | UpdateHashRing (ring : ConsistentHashRing)
  | StartMigration (migrationId : String) (sourceShard targetShard : Nat)
      (virtualNodes : List UInt64)
  | CompleteMigration (migrationId : String)
  | AbortMigration (migrationId : String)
  | UpdateConfig (key value : String)

structure CoordinatorStateMachine where
  shards : BTreeMap Nat ShardMetadata
  heartbeats : BTreeMap Nat UInt64
  hashRing : Option ConsistentHashRing
  migrations : BTreeMap String MigrationState
  config : BTreeMap String String
  version : UInt64

structure StateSnapshot where
  shards : BTreeMap Nat ShardMetadata
  heartbeats : BTreeMap Nat UInt64
  hashRing : Option ConsistentHashRing
  migrations : BTreeMap String MigrationState
  config : BTreeMap String String
  version : UInt64

/-- What one application of a command finds outside of the state. -/
structure Env where
  /-- `current_timestamp`. -/
  now : UInt64
  /-- The order in which the shards are walked. -/
  order : List ShardMetadata → List ShardMetadata
  perm : ∀ shards, (order shards).Perm shards

/-- The environment with the clock at zero and the order of the map. -/
def Env.standard : Env := ⟨0, id, fun _ => .rfl⟩

def ConsistentHashRing.clear (_ring : ConsistentHashRing) : ConsistentHashRing := .new

def defaultVirtualNodes : Nat := 150

def addActive (hash : String → UInt64) :
    ConsistentHashRing → List ShardMetadata → ConsistentHashRing × Except String Unit
  | ring, [] => (ring, .ok ())
  | ring, shard :: shards =>
    if shard.status = .Active then
      match ring.addShard hash shard.shardId defaultVirtualNodes with
      | .ok ring => addActive hash ring shards
      | .error e => (ring, .error e)
    else
      addActive hash ring shards

def moveVnodes (target : Nat) :
    ConsistentHashRing → List UInt64 → ConsistentHashRing × Except String Unit
  | ring, [] => (ring, .ok ())
  | ring, vnode :: vnodes =>
    match ring.reassignVirtualNode vnode target with
    | .ok ring => moveVnodes target ring vnodes
    | .error e => (ring, .error e)

namespace CoordinatorStateMachine

def new : CoordinatorStateMachine where
  shards := .empty
  heartbeats := .empty
  hashRing := none
  migrations := .empty
  config := .empty
  version := 0

def snapshot (sm : CoordinatorStateMachine) : StateSnapshot where
  shards := sm.shards
  heartbeats := sm.heartbeats
  hashRing := sm.hashRing
  migrations := sm.migrations
  config := sm.config
  version := sm.version

/-! ## Handlers -/

section Handlers

variable (hash : String → UInt64) (env : Env) (sm : CoordinatorStateMachine)

def rebuildHashRing : CoordinatorStateMachine × Except String Unit :=
  match sm.hashRing with
  | none => (sm, .ok ())
  | some ring =>
    let (ring, result) := addActive hash ring.clear (env.order sm.shards.values)
    ({ sm with hashRing := some ring }, result)

def registerShard (shard : ShardMetadata) : CoordinatorStateMachine × Except String Unit :=
  if (sm.shards.get shard.shardId).isSome then
    (sm, .error s!"Shard shard-{shard.shardId} already registered")
  else
    { sm with
      shards := sm.shards.insert shard.shardId shard
      heartbeats := sm.heartbeats.insert shard.shardId env.now }.rebuildHashRing hash env

def unregisterShard (shardId : Nat) : CoordinatorStateMachine × Except String Unit :=
  if (sm.shards.get shardId).isSome then
    { sm with
      shards := sm.shards.remove shardId
      heartbeats := sm.heartbeats.remove shardId }.rebuildHashRing hash env
  else
    (sm, .error s!"Shard shard-{shardId} not found")

def updateShardStatus (shardId : Nat) (status : ShardStatus) :
    CoordinatorStateMachine × Except String Unit :=
  match sm.shards.get shardId with
  | none => (sm, .error s!"Shard shard-{shardId} not found")
  | some shard => ({ sm with shards := sm.shards.insert shardId { shard with status } }, .ok ())

def updateHeartbeat (shardId : Nat) (timestamp : UInt64) :
    CoordinatorStateMachine × Except String Unit :=
  if (sm.shards.get shardId).isSome then
    ({ sm with heartbeats := sm.heartbeats.insert shardId timestamp }, .ok ())
  else
    (sm, .error s!"Shard shard-{shardId} not found")

def updateHashRing (ring : ConsistentHashRing) : CoordinatorStateMachine × Except String Unit :=
  ({ sm with hashRing := some ring }, .ok ())

def startMigration (migrationId : String) (sourceShard targetShard : Nat)
    (virtualNodes : List UInt64) : CoordinatorStateMachine × Except String Unit :=
  if (sm.migrations.get migrationId).isSome then
    (sm, .error s!"Migration {migrationId} already exists")
  else
    let migration : MigrationState :=
      { id := migrationId
        sourceShard
        targetShard
        virtualNodes
        startedAt := env.now
        progress := 0
        status := .InProgress }
    ({ sm with migrations := sm.migrations.insert migrationId migration }, .ok ())

def completeMigration (migrationId : String) : CoordinatorStateMachine × Except String Unit :=
  match sm.migrations.get migrationId with
  | none => (sm, .error s!"Migration {migrationId} not found")
  | some migration =>
    let migrations :=
      sm.migrations.insert migrationId { migration with status := .Completed, progress := 100 }
    match sm.hashRing with
    | none => ({ sm with migrations }, .ok ())
    | some ring =>
      let (ring, result) := moveVnodes migration.targetShard ring migration.virtualNodes
      ({ sm with migrations, hashRing := some ring }, result)

def abortMigration (migrationId : String) : CoordinatorStateMachine × Except String Unit :=
  match sm.migrations.get migrationId with
  | none => (sm, .error s!"Migration {migrationId} not found")
  | some migration =>
    ({ sm with
      migrations := sm.migrations.insert migrationId { migration with status := .Aborted } },
      .ok ())

def updateConfig (key value : String) : CoordinatorStateMachine × Except String Unit :=
  ({ sm with config := sm.config.insert key value }, .ok ())

def handle : StateCommand → CoordinatorStateMachine × Except String Unit
  | .RegisterShard shard => sm.registerShard hash env shard
  | .UnregisterShard shardId => sm.unregisterShard hash env shardId
  | .UpdateShardStatus shardId status => sm.updateShardStatus shardId status
  | .UpdateHeartbeat shardId timestamp => sm.updateHeartbeat shardId timestamp
  | .UpdateHashRing ring => sm.updateHashRing ring
  | .StartMigration migrationId sourceShard targetShard virtualNodes =>
    sm.startMigration env migrationId sourceShard targetShard virtualNodes
  | .CompleteMigration migrationId => sm.completeMigration migrationId
  | .AbortMigration migrationId => sm.abortMigration migrationId
  | .UpdateConfig key value => sm.updateConfig key value

def apply (command : StateCommand) : CoordinatorStateMachine × Except String Unit :=
  match sm.handle hash env command with
  | (sm, .ok ()) => ({ sm with version := sm.version + 1 }, .ok ())
  | (sm, .error e) => (sm, .error e)

end Handlers

/-- The state after the commands of a log, each applied in an environment of its own. A command
that is refused is logged and passed over. -/
def run (hash : String → UInt64) (log : List (Env × StateCommand)) : CoordinatorStateMachine :=
  log.foldl (fun sm entry => (sm.apply hash entry.1 entry.2).1) new

theorem snapshot_inj {sm sm' : CoordinatorStateMachine} :
    sm.snapshot = sm'.snapshot ↔ sm = sm' := by
  refine ⟨fun h => ?_, congrArg snapshot⟩
  cases sm
  cases sm'
  cases h
  rfl

end CoordinatorStateMachine

/-! ## The active shards -/

def activeIds (shards : List ShardMetadata) : List Nat :=
  (shards.filter (fun shard => shard.status = .Active)).map (·.shardId)

def addAll (hash : String → UInt64) (ring : ConsistentHashRing) (ids : List Nat) :
    ConsistentHashRing :=
  ids.foldl (fun ring s => membershipStep hash ring (.add s defaultVirtualNodes)) ring

theorem activeIds_cons (shard : ShardMetadata) (shards : List ShardMetadata) :
    activeIds (shard :: shards) =
      if shard.status = .Active then shard.shardId :: activeIds shards else activeIds shards := by
  unfold activeIds
  rw [List.filter_cons]
  split_ifs <;> simp_all

theorem activeIds_perm {shards shards' : List ShardMetadata} (h : shards.Perm shards') :
    (activeIds shards).Perm (activeIds shards') :=
  (h.filter _).map _

section AddAll

variable {hash : String → UInt64} {ring : ConsistentHashRing}

theorem membershipStep_add {s n : Nat} (hs : ring.shardNodes.get s = none) :
    ring.addShard hash s n = .ok (membershipStep hash ring (.add s n)) := by
  cases hadd : ring.addShard hash s n with
  | ok ring' => simp only [membershipStep, hadd]
  | error e =>
    rw [ConsistentHashRing.addShard_eq_ok.mpr ⟨hs, rfl⟩] at hadd
    cases hadd

theorem get_shardNodes_step {s t n : Nat} (hs : ring.shardNodes.get s = none) (ht : t ≠ s) :
    (membershipStep hash ring (.add s n)).shardNodes.get t = ring.shardNodes.get t := by
  obtain ⟨-, hring⟩ := ConsistentHashRing.addShard_eq_ok.mp (membershipStep_add hs (n := n))
  rw [hring, BTreeMap.get_insert, if_neg ht]

/-- **Rebuilding the ring**: it adds the active shards, when their ids are different and new. -/
theorem addActive_eq {shards : List ShardMetadata} (hnodup : (activeIds shards).Nodup)
    (hnew : ∀ s ∈ activeIds shards, ring.shardNodes.get s = none) :
    addActive hash ring shards = (addAll hash ring (activeIds shards), .ok ()) := by
  induction shards generalizing ring with
  | nil => rfl
  | cons shard shards ih =>
    rw [activeIds_cons] at hnodup hnew ⊢
    unfold addActive
    split_ifs at hnodup hnew ⊢ with hactive
    · rw [List.nodup_cons] at hnodup
      rw [List.forall_mem_cons] at hnew
      rw [membershipStep_add hnew.1]
      refine ih hnodup.2 ?_
      intro s hs
      rw [get_shardNodes_step hnew.1]
      · exact hnew.2 s hs
      · rintro rfl
        exact hnodup.1 hs
    · exact ih hnodup hnew

end AddAll

/-! ## What holds in every state -/

/-- What the commands keep: a shard is stored under its own id, and a completed migration is all
done. -/
structure Sound (sm : CoordinatorStateMachine) : Prop where
  keyed : ∀ k shard, sm.shards.get k = some shard → shard.shardId = k
  done : ∀ id migration, sm.migrations.get id = some migration → migration.status = .Completed →
    migration.progress = 100

def CoordinatorStateMachine.activeShards (sm : CoordinatorStateMachine) : List Nat :=
  activeIds sm.shards.values

namespace Sound

variable {hash : String → UInt64} {env : Env} {sm : CoordinatorStateMachine}

theorem new : Sound CoordinatorStateMachine.new :=
  ⟨fun _ _ h => (by cases h), fun _ _ h => (by cases h)⟩

variable (h : Sound sm)

include h

open BTreeMap

theorem nodup_activeShards : sm.activeShards.Nodup := by
  have hkeys : sm.shards.values.map (·.shardId) = sm.shards.keys := by
    rw [values, keys, List.map_map]
    refine List.map_congr_left fun p hp => ?_
    exact h.keyed p.1 p.2 (mem_entries_iff.mp hp)
  have hnodup : (sm.shards.values.map (·.shardId)).Nodup := hkeys ▸ nodup_keys _
  exact hnodup.sublist (List.filter_sublist.map _)

theorem rebuildHashRing_eq : sm.rebuildHashRing hash env =
    ({ sm with
      hashRing := sm.hashRing.map
        (fun _ => addAll hash .new (activeIds (env.order sm.shards.values))) }, .ok ()) := by
  cases hring : sm.hashRing with
  | none =>
    simp only [CoordinatorStateMachine.rebuildHashRing, hring, Option.map_none]
    rw [← hring]
  | some ring =>
    have hperm := activeIds_perm (env.perm sm.shards.values)
    have hloop : addActive hash .new (env.order sm.shards.values) =
        (addAll hash .new (activeIds (env.order sm.shards.values)), .ok ()) :=
      addActive_eq (hperm.nodup_iff.mpr h.nodup_activeShards) (fun _ _ => rfl)
    simp only [CoordinatorStateMachine.rebuildHashRing, hring, Option.map_some,
      ConsistentHashRing.clear, hloop]

theorem insert_shard (shard : ShardMetadata) (heartbeats : BTreeMap Nat UInt64) :
    Sound { sm with shards := sm.shards.insert shard.shardId shard, heartbeats } := by
  refine ⟨fun k s hs => ?_, h.done⟩
  rw [get_insert] at hs
  split_ifs at hs with hk
  · cases hs
    exact hk.symm
  · exact h.keyed k s hs

theorem remove_shard (shardId : Nat) (heartbeats : BTreeMap Nat UInt64) :
    Sound { sm with shards := sm.shards.remove shardId, heartbeats } := by
  refine ⟨fun k s hs => ?_, h.done⟩
  rw [get_remove] at hs
  split_ifs at hs
  exact h.keyed k s hs

theorem congr {sm' : CoordinatorStateMachine} (hshards : sm'.shards = sm.shards)
    (hmigrations : sm'.migrations = sm.migrations) : Sound sm' :=
  ⟨hshards ▸ h.keyed, hmigrations ▸ h.done⟩

theorem insert_migration {id : String} {migration : MigrationState}
    (hdone : migration.status = .Completed → migration.progress = 100)
    (hashRing : Option ConsistentHashRing) :
    Sound { sm with migrations := sm.migrations.insert id migration, hashRing } := by
  refine ⟨h.keyed, fun id' m hm hcompleted => ?_⟩
  rw [get_insert] at hm
  split_ifs at hm
  · cases hm
    exact hdone hcompleted
  · exact h.done id' m hm hcompleted

/-- **One command.** -/
theorem handle (command : StateCommand) : Sound (sm.handle hash env command).1 := by
  cases command with
  | RegisterShard shard =>
    simp only [CoordinatorStateMachine.handle, CoordinatorStateMachine.registerShard]
    split_ifs
    · exact h
    · have hinsert := h.insert_shard shard (sm.heartbeats.insert shard.shardId env.now)
      rw [hinsert.rebuildHashRing_eq]
      exact hinsert.congr rfl rfl
  | UnregisterShard shardId =>
    simp only [CoordinatorStateMachine.handle, CoordinatorStateMachine.unregisterShard]
    split_ifs
    · have hremove := h.remove_shard shardId (sm.heartbeats.remove shardId)
      rw [hremove.rebuildHashRing_eq]
      exact hremove.congr rfl rfl
    · exact h
  | UpdateShardStatus shardId status =>
    simp only [CoordinatorStateMachine.handle, CoordinatorStateMachine.updateShardStatus]
    cases hshard : sm.shards.get shardId with
    | none => exact h
    | some shard =>
      have hkey := h.keyed shardId shard hshard
      subst hkey
      exact h.insert_shard { shard with status } sm.heartbeats
  | UpdateHeartbeat shardId timestamp =>
    simp only [CoordinatorStateMachine.handle, CoordinatorStateMachine.updateHeartbeat]
    split_ifs
    · exact h.congr rfl rfl
    · exact h
  | UpdateHashRing ring => exact h.congr rfl rfl
  | StartMigration migrationId sourceShard targetShard virtualNodes =>
    simp only [CoordinatorStateMachine.handle, CoordinatorStateMachine.startMigration]
    split_ifs
    · exact h
    · exact h.insert_migration (fun hstatus => by cases hstatus) sm.hashRing
  | CompleteMigration migrationId =>
    simp only [CoordinatorStateMachine.handle, CoordinatorStateMachine.completeMigration]
    cases sm.migrations.get migrationId with
    | none => exact h
    | some migration =>
      cases sm.hashRing with
      | none => exact h.insert_migration (fun _ => rfl) _
      | some ring => exact h.insert_migration (fun _ => rfl) _
  | AbortMigration migrationId =>
    simp only [CoordinatorStateMachine.handle, CoordinatorStateMachine.abortMigration]
    cases sm.migrations.get migrationId with
    | none => exact h
    | some migration => exact h.insert_migration (fun hstatus => by cases hstatus) sm.hashRing
  | UpdateConfig key value => exact h.congr rfl rfl

theorem apply (command : StateCommand) : Sound (sm.apply hash env command).1 := by
  have hhandle : Sound (sm.handle hash env command).1 := h.handle command
  unfold CoordinatorStateMachine.apply
  cases hresult : sm.handle hash env command with
  | mk sm' result =>
    rw [hresult] at hhandle
    cases result with
    | ok u => exact hhandle.congr rfl rfl
    | error e => exact hhandle

omit h

theorem run (hash : String → UInt64) (log : List (Env × StateCommand)) :
    Sound (CoordinatorStateMachine.run hash log) := by
  induction log using List.reverseRecOn with
  | nil => exact Sound.new
  | append_singleton log entry ih =>
    rw [CoordinatorStateMachine.run, List.foldl_concat]
    exact ih.apply entry.2

end Sound

end Arcxa.Ha
