import Mathlib.Data.List.TakeWhile
import Arcxa.Ha.Rejection
import Arcxa.Ha.Rebuild

/-!
# Migrations

A migration is to end once, and the virtual nodes it moved are to stay with its target until that
is unregistered or another migration moves them. `Tracked` is a state with the nodes that are held
so. No handler looks at the status of a migration, and registering or unregistering any shard
builds the ring anew from the shards alone. `Keeps` says of a command that it finds a state in
which neither does harm, and along such commands the promise is kept (`migrations_kept`).
-/

namespace Arcxa.Ha

open ConsistentHashRing
open CoordinatorStateMachine

/-- A state, with the virtual nodes that migrations have moved and the shards they belong to
since. -/
structure Tracked where
  sm : CoordinatorStateMachine
  held : BTreeMap UInt64 Nat

def reassigned (sm : CoordinatorStateMachine) : StateCommand → List UInt64
  | .CompleteMigration migrationId =>
    match sm.migrations.get migrationId, sm.hashRing with
    | some migration, some ring => present ring.nodes migration.virtualNodes
    | _, _ => []
  | _ => []

/-- What is held after a command: what it moved is held by the target, and a target that is
unregistered holds nothing any more. -/
def heldAfter (s : Tracked) : StateCommand → BTreeMap UInt64 Nat
  | .CompleteMigration migrationId =>
    match s.sm.migrations.get migrationId with
    | some migration =>
      (reassigned s.sm (.CompleteMigration migrationId)).foldl
        (fun held vnode => held.insert vnode migration.targetShard) s.held
    | none => s.held
  | .UnregisterShard shardId =>
    if (s.sm.shards.get shardId).isSome then s.held.retain (fun _ t => t ≠ shardId) else s.held
  | _ => s.held

def trackedStep (hash : String → UInt64) (s : Tracked) (entry : Env × StateCommand) : Tracked :=
  ⟨(s.sm.apply hash entry.1 entry.2).1, heldAfter s entry.2⟩

def trackedRun (hash : String → UInt64) (log : List (Env × StateCommand)) : Tracked :=
  log.foldl (trackedStep hash) ⟨.new, .empty⟩

/-! ## What is promised -/

def EndsOnce (sm sm' : CoordinatorStateMachine) : Prop :=
  ∀ id migration, sm.migrations.get id = some migration →
    migration.status = .Completed ∨ migration.status = .Aborted →
      ∃ migration', sm'.migrations.get id = some migration' ∧
        migration'.status = migration.status

def ReassignsInProgress (sm : CoordinatorStateMachine) (command : StateCommand) : Prop :=
  reassigned sm command ≠ [] → ∃ id migration, command = .CompleteMigration id ∧
    sm.migrations.get id = some migration ∧ migration.status = .InProgress

/-- A virtual node that was moved routes to its target. -/
def RoutesHeld (s : Tracked) : Prop :=
  ∀ vnode target, s.held.get vnode = some target →
    ∃ ring, s.sm.hashRing = some ring ∧ ring.findShard vnode = some target

/-- The shards with these ids, put on an empty ring, do not meet, and what is held are places that
the target has there by itself. -/
def RebuildsHeld (hash : String → UInt64) (ids : List Nat) (held : BTreeMap UInt64 Nat) : Prop :=
  ∀ vnode target, held.get vnode = some target →
    Apart hash ids ∧ target ∈ ids ∧ ∃ v ∈ alone hash target, v.hash = vnode

/-- The state is one in which the command keeps the promise: a migration that is completed is in
progress, or is completed and has nothing to move; one that is aborted is not completed; a ring
that is put in leaves what is held with its target; and where the ring is rebuilt, what is held
are the targets' own places. -/
def Keeps (hash : String → UInt64) (s : Tracked) : StateCommand → Prop
  | .CompleteMigration migrationId => ∀ migration,
    s.sm.migrations.get migrationId = some migration →
      migration.status = .InProgress ∨ migration.status = .Completed ∧
        reassigned s.sm (.CompleteMigration migrationId) = []
  | .AbortMigration migrationId => ∀ migration,
    s.sm.migrations.get migrationId = some migration → migration.status ≠ .Completed
  | .UpdateHashRing ring => ∀ vnode target, s.held.get vnode = some target →
    ∃ v, ring.nodes.get vnode = some v ∧ v.shardId = target
  | .RegisterShard shard => s.sm.shards.get shard.shardId = none → s.sm.hashRing ≠ none →
    RebuildsHeld hash (activeIds (s.sm.shards.insert shard.shardId shard).values) s.held
  | .UnregisterShard shardId => s.sm.shards.get shardId ≠ none → s.sm.hashRing ≠ none →
    RebuildsHeld hash (activeIds (s.sm.shards.remove shardId).values)
      (s.held.retain (fun _ t => t ≠ shardId))
  | _ => True

/-! ## Steps -/

def OnRing (hashRing : Option ConsistentHashRing) (held : BTreeMap UInt64 Nat) : Prop :=
  ∀ vnode target, held.get vnode = some target →
    ∃ ring v, hashRing = some ring ∧ ring.nodes.get vnode = some v ∧ v.shardId = target

theorem OnRing.routesHeld {s : Tracked} (h : OnRing s.sm.hashRing s.held) : RoutesHeld s := by
  intro vnode target hheld
  obtain ⟨ring, v, hring, hv, hshard⟩ := h vnode target hheld
  refine ⟨ring, hring, ?_⟩
  rw [findShard, BTreeMap.successor_self hv, Option.map_some, hshard]

theorem get_foldl_insert_const (vnodes : List UInt64) (target : Nat) (held : BTreeMap UInt64 Nat)
    (x : UInt64) :
    (vnodes.foldl (fun held vnode => held.insert vnode target) held).get x =
      if x ∈ vnodes then some target else held.get x := by
  induction vnodes generalizing held with
  | nil => rfl
  | cons v vnodes ih =>
    rw [List.foldl_cons, ih, BTreeMap.get_insert]
    by_cases hx : x ∈ vnodes
    · simp [hx]
    · simp [hx]

theorem get_retain_ne (held : BTreeMap UInt64 Nat) (shardId : Nat) {vnode : UInt64} {target : Nat}
    (h : (held.retain (fun _ t => t ≠ shardId)).get vnode = some target) :
    held.get vnode = some target := by
  rw [← BTreeMap.mem_entries_iff] at h ⊢
  exact List.mem_of_mem_filter h

section Steps

variable {hash : String → UInt64} {env : Env} {sm : CoordinatorStateMachine}

theorem apply_migrations (command : StateCommand) :
    (sm.apply hash env command).1.migrations = (sm.handle hash env command).1.migrations := by
  unfold apply
  rcases sm.handle hash env command with ⟨sm', e | u⟩ <;> rfl

theorem apply_hashRing (command : StateCommand) :
    (sm.apply hash env command).1.hashRing = (sm.handle hash env command).1.hashRing := by
  unfold apply
  rcases sm.handle hash env command with ⟨sm', e | u⟩ <;> rfl

theorem EndsOnce.of_eq {sm' : CoordinatorStateMachine} (h : sm'.migrations = sm.migrations) :
    EndsOnce sm sm' :=
  fun _ migration hm _ => ⟨migration, h ▸ hm, rfl⟩

theorem EndsOnce.of_insert {sm' : CoordinatorStateMachine} {id : String}
    {migration : MigrationState} (h : sm'.migrations = sm.migrations.insert id migration)
    (hstatus : ∀ old, sm.migrations.get id = some old →
      old.status = .Completed ∨ old.status = .Aborted → migration.status = old.status) :
    EndsOnce sm sm' := by
  intro id' old hold hfinal
  rw [h]
  by_cases hid : id' = id
  · subst hid
    refine ⟨migration, ?_, hstatus old hold hfinal⟩
    rw [BTreeMap.get_insert, if_pos rfl]
  · refine ⟨old, ?_, rfl⟩
    rw [BTreeMap.get_insert, if_neg hid, hold]

theorem onRing_rebuild {sm : CoordinatorStateMachine} (h : Sound sm) {held : BTreeMap UInt64 Nat}
    (hheld : RebuildsHeld hash (activeIds sm.shards.values) held) :
    OnRing (some (addAll hash .new (activeIds (env.order sm.shards.values)))) held := by
  intro vnode target hget
  obtain ⟨hapart, htarget, v, hv, rfl⟩ := hheld vnode target hget
  have hperm := activeIds_perm (env.perm sm.shards.values)
  rw [addAll_perm hperm h.nodup_activeShards hapart]
  have hlayout : Layout hash _ _ := layout_addAll h.nodup_activeShards hapart
  obtain ⟨w, hw, -, hget⟩ := @exists_get_overlay .empty _ _ hv
  refine ⟨_, w, rfl, ?_, (of_mem_placed hw).1⟩
  exact (hlayout.nodes _ w).mpr ⟨target, htarget, hget⟩

theorem onRing_moveVnodes {ring : ConsistentHashRing} {held : BTreeMap UInt64 Nat}
    (h : OnRing (some ring) held) (target : Nat) (vnodes : List UInt64) :
    OnRing (some (moveVnodes target ring vnodes).1)
      ((present ring.nodes vnodes).foldl (fun held vnode => held.insert vnode target) held) := by
  intro vnode t hget
  suffices hnode : ∃ v, (moveVnodes target ring vnodes).1.nodes.get vnode = some v ∧
      v.shardId = t by
    obtain ⟨v, hv, hshard⟩ := hnode
    exact ⟨_, v, rfl, hv, hshard⟩
  rw [get_foldl_insert_const] at hget
  rw [get_nodes_moveVnodes]
  split_ifs at hget ⊢ with hmem
  · cases hget
    have hsome : (ring.nodes.get vnode).isSome :=
      List.mem_takeWhile_imp (p := fun v => (ring.nodes.get v).isSome) hmem
    obtain ⟨node, hnode⟩ := Option.isSome_iff_exists.mp hsome
    rw [hnode]
    exact ⟨_, rfl, rfl⟩
  · obtain ⟨ring', v, hring', hv, hshard⟩ := h vnode t hget
    cases hring'
    exact ⟨v, hv, hshard⟩

theorem onRing_rebuildHashRing {sm : CoordinatorStateMachine} (h : Sound sm)
    {held : BTreeMap UInt64 Nat} (hring : OnRing sm.hashRing held)
    (hheld : sm.hashRing ≠ none → RebuildsHeld hash (activeIds sm.shards.values) held) :
    OnRing (sm.rebuildHashRing hash env).1.hashRing held := by
  rw [h.rebuildHashRing_eq]
  cases hsome : sm.hashRing with
  | none =>
    rw [hsome] at hring
    exact hring
  | some ring => exact onRing_rebuild h (hheld (by rw [hsome]; exact Option.some_ne_none _))

end Steps

def KeepsPromise (hash : String → UInt64) (s : Tracked) (env : Env) (command : StateCommand) :
    Prop :=
  EndsOnce s.sm (trackedStep hash s (env, command)).sm ∧ ReassignsInProgress s.sm command ∧
    OnRing (trackedStep hash s (env, command)).sm.hashRing
      (trackedStep hash s (env, command)).held

section Commands

variable {hash : String → UInt64} {env : Env} {s : Tracked}

theorem KeepsPromise.of_eq {command : StateCommand}
    (hmigrations : (s.sm.handle hash env command).1.migrations = s.sm.migrations)
    (hreassigned : reassigned s.sm command = [])
    (hring : OnRing (s.sm.handle hash env command).1.hashRing (heldAfter s command)) :
    KeepsPromise hash s env command := by
  refine ⟨.of_eq ?_, fun hne => absurd hreassigned hne, ?_⟩
  · rw [trackedStep, apply_migrations, hmigrations]
  · rw [trackedStep, apply_hashRing]
    exact hring

theorem keepsPromise_register (hsound : Sound s.sm) (hring : OnRing s.sm.hashRing s.held)
    (shard : Governance.ShardMetadata) (hkeeps : Keeps hash s (.RegisterShard shard)) :
    KeepsPromise hash s env (.RegisterShard shard) := by
  have hinsert := hsound.insert_shard shard (s.sm.heartbeats.insert shard.shardId env.now)
  refine .of_eq ?_ rfl ?_
  · rw [handle, registerShard]
    split_ifs
    · rfl
    · rw [hinsert.rebuildHashRing_eq]
  · rw [handle, registerShard]
    split_ifs with hthere
    · exact hring
    · rw [Bool.not_eq_true, Option.isSome_eq_false_iff, Option.isNone_iff_eq_none] at hthere
      exact onRing_rebuildHashRing hinsert hring (hkeeps hthere)

theorem keepsPromise_unregister (hsound : Sound s.sm) (hring : OnRing s.sm.hashRing s.held)
    (shardId : Nat) (hkeeps : Keeps hash s (.UnregisterShard shardId)) :
    KeepsPromise hash s env (.UnregisterShard shardId) := by
  have hremove := hsound.remove_shard shardId (s.sm.heartbeats.remove shardId)
  refine .of_eq ?_ rfl ?_
  · rw [handle, unregisterShard]
    split_ifs
    · rw [hremove.rebuildHashRing_eq]
    · rfl
  · rw [handle, unregisterShard, heldAfter]
    split_ifs with hthere
    · refine onRing_rebuildHashRing hremove ?_ (hkeeps (Option.isSome_iff_ne_none.mp hthere))
      exact fun vnode target hget => hring vnode target (get_retain_ne _ _ hget)
    · exact hring

variable (hring : OnRing s.sm.hashRing s.held) (migrationId : String)

include hring

theorem keepsPromise_complete (hkeeps : Keeps hash s (.CompleteMigration migrationId)) :
    KeepsPromise hash s env (.CompleteMigration migrationId) := by
  cases hm : s.sm.migrations.get migrationId with
  | none =>
    refine .of_eq ?_ ?_ ?_
    · simp only [handle, completeMigration, hm]
    · simp only [reassigned, hm]
    · simp only [handle, completeMigration,
        heldAfter, hm]
      exact hring
  | some migration =>
    have hstatus := hkeeps migration hm
    have hmigrations : (s.sm.handle hash env (.CompleteMigration migrationId)).1.migrations =
        s.sm.migrations.insert migrationId
          { migration with status := .Completed, progress := 100 } := by
      simp only [handle, completeMigration, hm]
      cases s.sm.hashRing <;> rfl
    refine ⟨.of_insert (by rw [trackedStep, apply_migrations, hmigrations]) ?_, ?_, ?_⟩
    · intro old hold hfinal
      rw [hm] at hold
      cases hold
      rcases hstatus with hprogress | ⟨hcompleted, -⟩
      · rw [hprogress] at hfinal
        rcases hfinal with hfinal | hfinal <;> cases hfinal
      · exact hcompleted.symm
    · intro hne
      rcases hstatus with hprogress | ⟨-, hnil⟩
      · exact ⟨migrationId, migration, rfl, hm, hprogress⟩
      · exact absurd hnil hne
    · rw [trackedStep, apply_hashRing]
      simp only [handle, completeMigration,
        heldAfter, reassigned, hm]
      cases hsome : s.sm.hashRing with
      | none =>
        rw [hsome] at hring
        simp only [List.foldl_nil]
        exact hring
      | some ring =>
        rw [hsome] at hring
        exact onRing_moveVnodes hring migration.targetShard migration.virtualNodes

theorem keepsPromise_abort (hkeeps : Keeps hash s (.AbortMigration migrationId)) :
    KeepsPromise hash s env (.AbortMigration migrationId) := by
  cases hm : s.sm.migrations.get migrationId with
  | none =>
    refine .of_eq ?_ rfl ?_
    · simp only [handle, abortMigration, hm]
    · simp only [handle, abortMigration, hm]
      exact hring
  | some migration =>
    have hstatus := hkeeps migration hm
    have hmigrations : (s.sm.handle hash env (.AbortMigration migrationId)).1.migrations =
        s.sm.migrations.insert migrationId { migration with status := .Aborted } := by
      simp only [handle, abortMigration, hm]
    refine ⟨.of_insert (by rw [trackedStep, apply_migrations, hmigrations]) ?_,
      fun hne => absurd rfl hne, ?_⟩
    · intro old hold hfinal
      rw [hm] at hold
      cases hold
      exact (hfinal.resolve_left hstatus).symm
    · rw [trackedStep, apply_hashRing]
      simp only [handle, abortMigration, hm]
      exact hring

theorem keepsPromise_start (source target : Nat) (virtualNodes : List UInt64) :
    KeepsPromise hash s env (.StartMigration migrationId source target virtualNodes) := by
  by_cases hthere : (s.sm.migrations.get migrationId).isSome
  · refine .of_eq ?_ rfl ?_
    · rw [handle, startMigration, if_pos hthere]
    · rw [handle, startMigration, if_pos hthere]
      exact hring
  · refine ⟨.of_insert (by
      rw [trackedStep, apply_migrations, handle,
        startMigration, if_neg hthere]) ?_, fun hne => absurd rfl hne, ?_⟩
    · intro old hold
      rw [hold] at hthere
      exact absurd rfl hthere
    · rw [trackedStep, apply_hashRing, handle,
        startMigration, if_neg hthere]
      exact hring

omit hring

/-- **One command** that finds a good state keeps the promise. -/
theorem keepsPromise (hsound : Sound s.sm) (hring : OnRing s.sm.hashRing s.held)
    (command : StateCommand) (hkeeps : Keeps hash s command) :
    KeepsPromise hash s env command := by
  cases command with
  | RegisterShard shard => exact keepsPromise_register hsound hring shard hkeeps
  | UnregisterShard shardId => exact keepsPromise_unregister hsound hring shardId hkeeps
  | UpdateShardStatus shardId status =>
    refine .of_eq ?_ rfl ?_
    · rw [handle, updateShardStatus]
      cases s.sm.shards.get shardId <;> rfl
    · rw [handle, updateShardStatus]
      cases s.sm.shards.get shardId <;> exact hring
  | UpdateHeartbeat shardId timestamp =>
    refine .of_eq ?_ rfl ?_
    · rw [handle, updateHeartbeat]
      split_ifs <;> rfl
    · rw [handle, updateHeartbeat]
      split_ifs <;> exact hring
  | UpdateHashRing ring =>
    refine .of_eq rfl rfl fun vnode target hget => ?_
    obtain ⟨v, hv, hshard⟩ := hkeeps vnode target hget
    exact ⟨ring, v, rfl, hv, hshard⟩
  | StartMigration migrationId source target virtualNodes => exact keepsPromise_start hring ..
  | CompleteMigration migrationId => exact keepsPromise_complete hring migrationId hkeeps
  | AbortMigration migrationId => exact keepsPromise_abort hring migrationId hkeeps
  | UpdateConfig key value => exact .of_eq rfl rfl hring

end Commands

/-! ## Runs -/

theorem invariant_trackedRun {hash : String → UInt64} {log : List (Env × StateCommand)}
    (hok : OkAlong (fun s entry => some (trackedStep hash s entry))
      (fun s entry => Keeps hash s entry.2) ⟨.new, .empty⟩ log) :
    Sound (trackedRun hash log).sm ∧ OnRing (trackedRun hash log).sm.hashRing
      (trackedRun hash log).held := by
  have hreach := Reaches.of_exec hok (exec_total (trackedStep hash) _ log)
  refine hreach.invariant (P := fun s => Sound s.sm ∧ OnRing s.sm.hashRing s.held) ?_ ?_
  · exact ⟨Sound.new, fun _ _ hget => by cases hget⟩
  · rintro s ⟨env, command⟩ s' ⟨hsound, hring⟩ hkeeps hstep
    cases hstep
    exact ⟨hsound.apply command, (keepsPromise hsound hring command hkeeps).2.2⟩

/-- **A migration ends once and its routing change is kept**, in every run whose commands find
good states. -/
theorem migrations_kept (hash : String → UInt64) (log : List (Env × StateCommand))
    (hok : OkAlong (fun s entry => some (trackedStep hash s entry))
      (fun s entry => Keeps hash s entry.2) ⟨.new, .empty⟩ log) :
    (∀ pre env command, pre ++ [(env, command)] <+: log →
      EndsOnce (trackedRun hash pre).sm (trackedRun hash (pre ++ [(env, command)])).sm ∧
        ReassignsInProgress (trackedRun hash pre).sm command) ∧
      ∀ pre, pre <+: log → RoutesHeld (trackedRun hash pre) := by
  have hstarts : ∀ pre, pre <+: log → OkAlong (fun s entry => some (trackedStep hash s entry))
      (fun s entry => Keeps hash s entry.2) ⟨.new, .empty⟩ pre := by
    rintro pre ⟨rest, rfl⟩
    exact ((okAlong_append_total ..).mp hok).1
  constructor
  · intro pre env command hpre
    obtain ⟨hbefore, hkeeps, -⟩ := (okAlong_append_total ..).mp (hstarts _ hpre)
    obtain ⟨hsound, hring⟩ := invariant_trackedRun hbefore
    have hpromise : KeepsPromise hash (trackedRun hash pre) env command :=
      keepsPromise hsound hring command hkeeps
    have hlast : trackedRun hash (pre ++ [(env, command)]) =
        trackedStep hash (trackedRun hash pre) (env, command) := List.foldl_concat ..
    rw [hlast]
    exact ⟨hpromise.1, hpromise.2.1⟩
  · intro pre hpre
    exact (invariant_trackedRun (hstarts pre hpre)).2.routesHeld

def oneNode : ConsistentHashRing where
  nodes := .ofList [(100, ⟨100, 1, 0⟩)]
  shardNodes := .ofList [(1, [⟨100, 1, 0⟩])]
  virtualNodeCounts := .ofList [(1, 1)]

def oneMigration : List (Env × StateCommand) :=
  [(.standard, .UpdateHashRing oneNode), (.standard, .StartMigration "m" 1 2 [100]),
    (.standard, .CompleteMigration "m")]

/-- Two shards, the migration from the one to the other, and the one goes. -/
def sourceLeaves : List (Env × StateCommand) :=
  [(.standard, .RegisterShard (.new 1 ⟨0, 1000⟩ "shard-1:9090" [] 0)),
    (.standard, .RegisterShard (.new 2 ⟨1000, 2000⟩ "shard-2:9090" [] 0)),
    (.standard, .UpdateShardStatus 2 .Active)] ++ oneMigration ++ [(.standard, .UnregisterShard 1)]

theorem migrations_kept_sample : (trackedRun (fun _ => 100) sourceLeaves).held.get 100 = some 2 ∧
    RoutesHeld (trackedRun (fun _ => 100) sourceLeaves) := by
  refine ⟨by decide, (migrations_kept _ _ ?_).2 _ List.prefix_rfl⟩
  have hprogress : (trackedRun (fun _ => 100) (sourceLeaves.take 5)).sm.migrations.get "m" =
      some ⟨"m", 1, 2, [100], 0, 0, .InProgress⟩ := by decide
  have hids : activeIds ((trackedRun (fun _ => 100) (sourceLeaves.take 6)).sm.shards.remove
      1).values = [2] := by decide
  have hheld : ((trackedRun (fun _ => 100) (sourceLeaves.take 6)).held.retain
      (fun _ t => t ≠ 1)).entries = [(100, 2)] := by decide
  simp only [sourceLeaves, oneMigration, List.cons_append, List.nil_append, okAlong_cons_total]
  refine ⟨fun _ h => absurd rfl h, fun _ h => absurd rfl h, trivial, fun _ _ hget => (by cases hget),
    trivial, fun migration hm => ?_, fun _ _ vnode target hget => ?_, trivial⟩
  · cases hprogress.symm.trans hm
    exact .inl rfl
  · have hmem := hheld ▸ BTreeMap.mem_entries_iff.mpr hget
    cases List.mem_singleton.mp hmem
    refine ⟨?_, ?_, ⟨100, 2, 0⟩, .head _, rfl⟩
    · refine hids ▸ fun s hs t ht hne => absurd ?_ hne
      exact (List.mem_singleton.mp hs).trans (List.mem_singleton.mp ht).symm
    · exact hids ▸ List.mem_singleton.mpr rfl

/-- After the migration another shard registers: the ring is empty, and the node is nowhere. -/
theorem routing_change_lost : ¬ ∀ (hash : String → UInt64) (log : List (Env × StateCommand)),
    (∀ pre env command, pre ++ [(env, command)] <+: log →
      EndsOnce (trackedRun hash pre).sm (trackedRun hash (pre ++ [(env, command)])).sm ∧
        ReassignsInProgress (trackedRun hash pre).sm command) ∧
      ∀ pre, pre <+: log → RoutesHeld (trackedRun hash pre) := by
  intro h
  obtain ⟨-, hroutes⟩ := h (fun _ => 0)
    (oneMigration ++ [(.standard, .RegisterShard (.new 3 ⟨0, 1000⟩ "shard-3:9090" [] 0))])
  obtain ⟨ring, hring, hfind⟩ := hroutes _ List.prefix_rfl 100 2 (by decide)
  have hempty : ring = .new := Option.some.inj (hring.symm.trans rfl)
  rw [hempty] at hfind
  cases hfind

end Arcxa.Ha
