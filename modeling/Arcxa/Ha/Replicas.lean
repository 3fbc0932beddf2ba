import Arcxa.Ha.Rebuild

/-!
# Replicas

Replicas that start equal and apply the same commands stay equal as long as no command depends on
anything but the state. Two kinds do by the clock, each time they are not refused: registering a
shard stores the time of this replica as the first heartbeat, and starting a migration as its
start. Removing a shard rebuilds the ring in the order in which the shards are walked, which makes
a difference exactly when two of the active shards meet (`converge_iff`).
-/

namespace Arcxa.Ha

def Env.at (now : UInt64) : Env := ⟨now, fun shards => shards, fun shards => List.Perm.refl shards⟩

def Env.walking {shards shards' : List Governance.ShardMetadata} (h : shards'.Perm shards) :
    Env where
  now := 0
  order := fun l => if l = shards then shards' else l
  perm := by
    intro l
    split_ifs with hl
    · exact hl ▸ h
    · exact .rfl

/-- The command does not depend on the clock or on the order of the shards. -/
def Harmless (hash : String → UInt64) (sm : CoordinatorStateMachine) : StateCommand → Prop
  | .RegisterShard shard => sm.shards.get shard.shardId ≠ none
  | .UnregisterShard shardId => sm.shards.get shardId ≠ none → sm.hashRing ≠ none →
    Apart hash (activeIds (sm.shards.remove shardId).values)
  | .StartMigration migrationId _ _ _ => sm.migrations.get migrationId ≠ none
  | _ => True

namespace Sound

variable {hash : String → UInt64} {sm : CoordinatorStateMachine}

theorem register_iff (h : Sound sm) (shard : Governance.ShardMetadata) :
    (∀ env env', (sm.apply hash env (.RegisterShard shard)).1 =
      (sm.apply hash env' (.RegisterShard shard)).1) ↔ sm.shards.get shard.shardId ≠ none := by
  by_cases hthere : (sm.shards.get shard.shardId).isSome
  · refine iff_of_true (fun env env' => ?_) ?_
    · simp only [CoordinatorStateMachine.apply, CoordinatorStateMachine.handle,
        CoordinatorStateMachine.registerShard, hthere, if_true]
    · rw [← Option.isSome_iff_ne_none]
      exact hthere
  · have hbeat : ∀ env : Env, (sm.apply hash env (.RegisterShard shard)).1.heartbeats =
        sm.heartbeats.insert shard.shardId env.now := by
      intro env
      simp only [CoordinatorStateMachine.apply, CoordinatorStateMachine.handle,
        CoordinatorStateMachine.registerShard, hthere, if_false,
        (h.insert_shard shard _).rebuildHashRing_eq, Bool.false_eq_true]
    refine iff_of_false (fun hall => ?_) ?_
    · have hbeats := congrArg (·.heartbeats.get shard.shardId) (hall (.at 0) (.at 1))
      rw [hbeat, hbeat, BTreeMap.get_insert, BTreeMap.get_insert, if_pos rfl, if_pos rfl] at hbeats
      cases hbeats
    · rw [← Option.isSome_iff_ne_none]
      exact hthere

theorem start_iff (migrationId : String) (source target : Nat) (virtualNodes : List UInt64) :
    (∀ env env', (sm.apply hash env (.StartMigration migrationId source target virtualNodes)).1 =
      (sm.apply hash env' (.StartMigration migrationId source target virtualNodes)).1) ↔
      sm.migrations.get migrationId ≠ none := by
  by_cases hthere : (sm.migrations.get migrationId).isSome
  · refine iff_of_true (fun env env' => ?_) ?_
    · simp only [CoordinatorStateMachine.apply, CoordinatorStateMachine.handle,
        CoordinatorStateMachine.startMigration, hthere, if_true]
    · rw [← Option.isSome_iff_ne_none]
      exact hthere
  · refine iff_of_false (fun hall => ?_) ?_
    · have hstarts := congrArg (fun sm => (sm.migrations.get migrationId).map (·.startedAt))
        (hall (.at 0) (.at 1))
      simp only [CoordinatorStateMachine.apply, CoordinatorStateMachine.handle,
        CoordinatorStateMachine.startMigration, hthere, if_false, BTreeMap.get_insert, if_true,
        Bool.false_eq_true, Option.map_some, Env.at] at hstarts
      cases hstarts
    · rw [← Option.isSome_iff_ne_none]
      exact hthere

theorem rebuild_iff (h : Sound sm) :
    (∀ env env' : Env, addAll hash .new (activeIds (env.order sm.shards.values)) =
      addAll hash .new (activeIds (env'.order sm.shards.values))) ↔
      Apart hash (activeIds sm.shards.values) := by
  have hnodup : (activeIds sm.shards.values).Nodup := h.nodup_activeShards
  constructor
  · intro hall
    have hring : ∀ shards, shards.Perm sm.shards.values →
        addAll hash .new (activeIds shards) = addAll hash .new (activeIds sm.shards.values) := by
      intro shards hperm
      have hwalk := hall (.walking hperm) .standard
      simp only [Env.walking, if_true] at hwalk
      exact hwalk
    have hshard : ∀ s ∈ activeIds sm.shards.values, ∃ shard ∈ sm.shards.values,
        shard.status = .Active ∧ shard.shardId = s := by
      intro s hs
      obtain ⟨shard, hshard, hid⟩ := List.mem_map.mp hs
      obtain ⟨hmem, hactive⟩ := List.mem_filter.mp hshard
      exact ⟨shard, hmem, of_decide_eq_true hactive, hid⟩
    generalize addAll hash .new (activeIds sm.shards.values) = ring at hring
    refine @apart_of_addAll_perm hash _ ring (fun s hs => ?_) (fun s hs => ?_) hnodup
    · obtain ⟨shard, hmem, hactive, rfl⟩ := hshard s hs
      have hperm := (List.perm_cons_erase hmem).symm
      have hids := activeIds_perm hperm
      have heq := hring _ hperm
      rw [activeIds_cons, if_pos hactive] at hids heq
      exact ⟨_, hids, heq⟩
    · obtain ⟨shard, hmem, hactive, rfl⟩ := hshard s hs
      have hperm : (sm.shards.values.erase shard ++ [shard]).Perm sm.shards.values :=
        (List.perm_append_singleton ..).trans (List.perm_cons_erase hmem).symm
      have hlast : activeIds (sm.shards.values.erase shard ++ [shard]) =
          activeIds (sm.shards.values.erase shard) ++ [shard.shardId] := by
        simp [activeIds, hactive]
      have hids := activeIds_perm hperm
      have heq := hring _ hperm
      rw [hlast] at hids heq
      exact ⟨_, hids, heq⟩
  · intro hapart env env'
    rw [addAll_perm (activeIds_perm (env.perm _)) hnodup hapart,
      addAll_perm (activeIds_perm (env'.perm _)) hnodup hapart]

theorem unregister_iff (h : Sound sm) (shardId : Nat) :
    (∀ env env', (sm.apply hash env (.UnregisterShard shardId)).1 =
      (sm.apply hash env' (.UnregisterShard shardId)).1) ↔
      (sm.shards.get shardId ≠ none → sm.hashRing ≠ none →
        Apart hash (activeIds (sm.shards.remove shardId).values)) := by
  by_cases hthere : (sm.shards.get shardId).isSome
  · have hremove := h.remove_shard shardId (sm.heartbeats.remove shardId)
    rw [imp_iff_right (Option.isSome_iff_ne_none.mp hthere), ← hremove.rebuild_iff]
    simp only [CoordinatorStateMachine.apply, CoordinatorStateMachine.handle,
      CoordinatorStateMachine.unregisterShard, hthere, if_true, hremove.rebuildHashRing_eq]
    cases sm.hashRing with
    | none => simp
    | some ring => simp
  · refine iff_of_true (fun env env' => ?_) fun hne => ?_
    · simp only [CoordinatorStateMachine.apply, CoordinatorStateMachine.handle,
        CoordinatorStateMachine.unregisterShard, hthere, if_false, Bool.false_eq_true]
    · exact absurd (Option.isSome_iff_ne_none.mpr hne) hthere

/-- **One command** leads replicas to one state exactly when it is harmless. -/
theorem apply_iff (h : Sound sm) (command : StateCommand) :
    (∀ env env', (sm.apply hash env command).1 = (sm.apply hash env' command).1) ↔
      Harmless hash sm command := by
  cases command with
  | RegisterShard shard => exact h.register_iff shard
  | UnregisterShard shardId => exact h.unregister_iff shardId
  | StartMigration migrationId source target virtualNodes => exact start_iff ..
  | UpdateShardStatus shardId status => exact iff_of_true (fun _ _ => rfl) trivial
  | UpdateHeartbeat shardId timestamp => exact iff_of_true (fun _ _ => rfl) trivial
  | UpdateHashRing ring => exact iff_of_true (fun _ _ => rfl) trivial
  | CompleteMigration migrationId => exact iff_of_true (fun _ _ => rfl) trivial
  | AbortMigration migrationId => exact iff_of_true (fun _ _ => rfl) trivial
  | UpdateConfig key value => exact iff_of_true (fun _ _ => rfl) trivial

end Sound

def replicaStep (hash : String → UInt64) (env : Env) (sm : CoordinatorStateMachine)
    (command : StateCommand) : CoordinatorStateMachine :=
  (sm.apply hash env command).1

/-- **Replicas do not diverge**, exactly when every command is harmless in the state that it finds:
two replicas that start in the state after some log are in one state after every prefix of the
commands, whatever their clocks show and in whatever order their maps are walked. -/
theorem converge_iff (hash : String → UInt64) (log : List (Env × StateCommand))
    (commands : List StateCommand) :
    (∀ pre, pre <+: commands → ∀ sm sm',
      Outcome (replicaStep hash) (CoordinatorStateMachine.run hash log) pre sm →
      Outcome (replicaStep hash) (CoordinatorStateMachine.run hash log) pre sm' → sm = sm') ↔
      OkAlong (fun sm command => some (replicaStep hash .standard sm command)) (Harmless hash)
        (CoordinatorStateMachine.run hash log) commands := by
  rw [outcome_unique_iff (replicaStep hash) .standard]
  refine okAlong_congr (I := Sound) ?_ (Sound.run hash log) (exec_total _ _ commands)
  intro sm command sm' hsm hstep
  cases hstep
  exact ⟨hsm.apply_iff command, fun _ => hsm.apply command⟩

/-- The replicas of a cluster with clocks of their own. -/
theorem replicas_diverge : ¬ ∀ (hash : String → UInt64) (log : List (Env × StateCommand))
    (commands : List StateCommand) (sm sm' : CoordinatorStateMachine),
    Outcome (replicaStep hash) (CoordinatorStateMachine.run hash log) commands sm →
      Outcome (replicaStep hash) (CoordinatorStateMachine.run hash log) commands sm' →
        sm = sm' := by
  intro h
  have hsame := h (fun _ => 0) []
    [.RegisterShard (.new 1 ⟨0, 1000⟩ "shard-1:9090" [] 0)] _ _
    (.cons (.at 0) .nil) (.cons (.at 1) .nil)
  have hbeat := congrArg (·.heartbeats.get 1) hsame
  revert hbeat
  decide

end Arcxa.Ha
