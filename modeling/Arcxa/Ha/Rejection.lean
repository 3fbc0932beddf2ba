import Arcxa.Ha.StateMachine

/-!
# Rejected commands

A command that is refused leaves the state as it is, with one exception: completing a migration
marks it as completed and moves its virtual nodes one after another, and fails at the first one
that is not on the ring. The state is then what it was only if the migration was completed before
and the moves up to there make no difference (`rejected_iff`).
-/

namespace Arcxa.Ha

open ConsistentHashRing
open CoordinatorStateMachine BTreeMap

/-! ## Moving virtual nodes -/

def present (nodes : BTreeMap UInt64 VirtualNode) (vnodes : List UInt64) : List UInt64 :=
  vnodes.takeWhile (fun v => (nodes.get v).isSome)

def toEnd (nodes : BTreeMap UInt64 VirtualNode) (list : List VirtualNode) (vnode : UInt64) :
    List VirtualNode :=
  list.filter (fun v => v.hash ≠ vnode) ++ (nodes.get vnode).toList

/-- Up to the first virtual node that is missing, all belong to the target already, and moving
them one after another to the end of its list leaves this list as it is. -/
def MovesNothing (ring : ConsistentHashRing) (target : Nat) (vnodes : List UInt64) : Prop :=
  (∀ v ∈ present ring.nodes vnodes, ∀ node, ring.nodes.get v = some node →
    node.shardId = target) ∧
  (present ring.nodes vnodes = [] ∨ ∃ list, ring.shardNodes.get target = some list ∧
    (present ring.nodes vnodes).foldl (toEnd ring.nodes) list = list)

section Move

variable {ring ring' : ConsistentHashRing} {target : Nat} {vnode : UInt64} {vnodes : List UInt64}

theorem reassignVirtualNode_eq_error (h : ring.nodes.get vnode = none) (target : Nat) :
    ring.reassignVirtualNode vnode target =
      .error s!"Virtual node with hash {vnode} not found" := by
  rw [reassignVirtualNode, h]

variable {node : VirtualNode}

theorem exists_reassignVirtualNode (h : ring.nodes.get vnode = some node) (target : Nat) :
    ∃ ring', ring.reassignVirtualNode vnode target = .ok ring' := by
  rw [reassignVirtualNode, h]
  exact ⟨_, rfl⟩

theorem get_nodes_reassign (h : ring.reassignVirtualNode vnode target = .ok ring') (x : UInt64) :
    ring'.nodes.get x = if x = vnode then
      (ring.nodes.get x).map (fun node => { node with shardId := target })
      else ring.nodes.get x := by
  obtain ⟨node, hnode, hnodes, -⟩ := reassignVirtualNode_eq_ok h
  rw [hnodes, get_insert]
  split_ifs with hx
  · rw [hx, hnode]
    rfl
  · rfl

theorem present_reassign (h : ring.reassignVirtualNode vnode target = .ok ring')
    (vnodes : List UInt64) : present ring'.nodes vnodes = present ring.nodes vnodes := by
  unfold present
  refine congrArg (List.takeWhile · vnodes) (funext fun x => ?_)
  rw [get_nodes_reassign h]
  split_ifs
  · rw [Option.isSome_map]
  · rfl

theorem present_cons_of_none (h : ring.nodes.get vnode = none) :
    present ring.nodes (vnode :: vnodes) = [] := by
  rw [present, List.takeWhile_cons, h]
  rfl

theorem present_cons_of_some (h : ring.nodes.get vnode = some node) :
    present ring.nodes (vnode :: vnodes) = vnode :: present ring.nodes vnodes := by
  rw [present, List.takeWhile_cons, h]
  rfl

theorem get_nodes_moveVnodes (x : UInt64) :
    (moveVnodes target ring vnodes).1.nodes.get x = if x ∈ present ring.nodes vnodes then
      (ring.nodes.get x).map (fun node => { node with shardId := target })
      else ring.nodes.get x := by
  induction vnodes generalizing ring with
  | nil => rfl
  | cons v vnodes ih =>
    cases hv : ring.nodes.get v with
    | none =>
      simp only [moveVnodes, reassignVirtualNode_eq_error hv, present_cons_of_none hv,
        List.not_mem_nil, if_false]
    | some node =>
      obtain ⟨ring', hring'⟩ := exists_reassignVirtualNode hv target
      simp only [moveVnodes, hring']
      rw [ih, present_reassign hring', get_nodes_reassign hring', present_cons_of_some hv]
      by_cases hx : x = v
      · rw [if_pos hx, if_pos (List.mem_cons.mpr (.inl hx)), Option.map_map]
        exact ite_self _
      · simp only [List.mem_cons, hx, false_or, if_false]

theorem moveVnodes_ok_iff :
    (moveVnodes target ring vnodes).2 = .ok () ↔ ∀ v ∈ vnodes, ring.nodes.get v ≠ none := by
  induction vnodes generalizing ring with
  | nil => simp [moveVnodes]
  | cons v vnodes ih =>
    cases hv : ring.nodes.get v with
    | none =>
      simp only [moveVnodes, reassignVirtualNode_eq_error hv]
      exact iff_of_false nofun fun h => h v List.mem_cons_self hv
    | some node =>
      obtain ⟨ring', hring'⟩ := exists_reassignVirtualNode hv target
      have hnone : ∀ x, ring'.nodes.get x ≠ none ↔ ring.nodes.get x ≠ none := by
        intro x
        rw [get_nodes_reassign hring']
        split_ifs
        · rw [ne_eq, Option.map_eq_none_iff]
        · exact Iff.rfl
      simp only [moveVnodes, hring']
      rw [ih, List.forall_mem_cons]
      simp only [hnone]
      exact (and_iff_right (by rw [hv]; exact Option.some_ne_none _)).symm

theorem isSome_shardNodes_moveVnodes
    (h : (ring.shardNodes.get target).isSome ∨ present ring.nodes vnodes ≠ []) :
    ((moveVnodes target ring vnodes).1.shardNodes.get target).isSome := by
  induction vnodes generalizing ring with
  | nil => exact h.resolve_right (fun hne => hne rfl)
  | cons v vnodes ih =>
    cases hv : ring.nodes.get v with
    | none =>
      rw [present_cons_of_none hv] at h
      simp only [moveVnodes, reassignVirtualNode_eq_error hv]
      exact h.resolve_right (fun hne => hne rfl)
    | some node =>
      obtain ⟨ring', hring'⟩ := exists_reassignVirtualNode hv target
      simp only [moveVnodes, hring']
      refine ih (.inl ?_)
      rw [reassignVirtualNode, hv] at hring'
      cases hring'
      dsimp only
      rw [get_upsert, if_pos rfl]
      rfl

theorem reassign_own {list : List VirtualNode} (hnode : ring.nodes.get vnode = some node)
    (hown : node.shardId = target) (hlist : ring.shardNodes.get target = some list) :
    ring.reassignVirtualNode vnode target = .ok { ring with
      shardNodes := ring.shardNodes.insert target (toEnd ring.nodes list vnode) } := by
  subst hown
  have hnodes : ring.nodes.insert vnode node = ring.nodes := insert_eq_self.mpr hnode
  have hlists : (ring.shardNodes.insert node.shardId (list.filter (fun v => v.hash ≠ vnode))).upsert
      node.shardId (fun vnodes => vnodes.getD [] ++ [node]) =
      ring.shardNodes.insert node.shardId (toEnd ring.nodes list vnode) := by
    apply ext_get
    intro s
    rw [get_upsert, get_insert, get_insert, get_insert,
      if_pos rfl, toEnd, hnode]
    split_ifs <;> rfl
  rw [reassignVirtualNode, hnode]
  dsimp only
  rw [hlist]
  dsimp only
  rw [hnodes, hlists]

theorem moveVnodes_own {list : List VirtualNode} (hlist : ring.shardNodes.get target = some list)
    (hown : ∀ v ∈ present ring.nodes vnodes, ∀ node, ring.nodes.get v = some node →
      node.shardId = target) :
    (moveVnodes target ring vnodes).1 = { ring with
      shardNodes := ring.shardNodes.insert target
        ((present ring.nodes vnodes).foldl (toEnd ring.nodes) list) } := by
  induction vnodes generalizing ring list with
  | nil =>
    rw [show present ring.nodes [] = [] from rfl, List.foldl_nil,
      insert_eq_self.mpr hlist]
    rfl
  | cons v vnodes ih =>
    cases hv : ring.nodes.get v with
    | none =>
      simp only [moveVnodes, reassignVirtualNode_eq_error hv, present_cons_of_none hv,
        List.foldl_nil]
      rw [insert_eq_self.mpr hlist]
    | some node =>
      rw [present_cons_of_some hv, List.forall_mem_cons] at hown
      simp only [moveVnodes, reassign_own hv (hown.1 node hv) hlist, present_cons_of_some hv,
        List.foldl_cons]
      generalize hlists : ring.shardNodes.insert target (toEnd ring.nodes list v) = lists
      have hlist' : lists.get target = some (toEnd ring.nodes list v) := by
        rw [← hlists, get_insert, if_pos rfl]
      rw [@ih { ring with shardNodes := lists } _ hlist' hown.2, ← hlists, insert_insert]

/-- **The moves that make no difference**, also where one is missing. -/
theorem moveVnodes_eq_self :
    (moveVnodes target ring vnodes).1 = ring ↔ MovesNothing ring target vnodes := by
  constructor
  · intro h
    have hown : ∀ v ∈ present ring.nodes vnodes, ∀ node, ring.nodes.get v = some node →
        node.shardId = target := by
      intro v hv node hnode
      have hmoved : (moveVnodes target ring vnodes).1.nodes.get v = _ := get_nodes_moveVnodes v
      rw [h, if_pos hv, hnode, Option.map_some] at hmoved
      rw [Option.some.inj hmoved]
    refine ⟨hown, or_iff_not_imp_left.mpr fun hne => ?_⟩
    have hsome : ((moveVnodes target ring vnodes).1.shardNodes.get target).isSome :=
      isSome_shardNodes_moveVnodes (.inr hne)
    rw [h] at hsome
    obtain ⟨list, hlist⟩ := Option.isSome_iff_exists.mp hsome
    refine ⟨list, hlist, ?_⟩
    have hlists := congrArg (·.shardNodes) (moveVnodes_own hlist hown)
    dsimp only at hlists
    rw [h] at hlists
    rw [insert_eq_self.mp hlists.symm, Option.some.injEq] at hlist
    exact hlist
  · rintro ⟨hown, hnil | ⟨list, hlist, hfold⟩⟩
    · cases vnodes with
      | nil => rfl
      | cons v vnodes =>
        cases hv : ring.nodes.get v with
        | none => simp only [moveVnodes, reassignVirtualNode_eq_error hv]
        | some node =>
          rw [present_cons_of_some hv] at hnil
          cases hnil
    · rw [moveVnodes_own hlist hown, hfold, insert_eq_self.mpr hlist]

end Move

/-! ## Commands -/

/-- The command completes a migration of which a virtual node is missing on the ring, and what is
done before that is found out makes a difference. -/
def FailsHalfway (sm : CoordinatorStateMachine) : StateCommand → Prop
  | .CompleteMigration migrationId => ∃ migration ring,
    sm.migrations.get migrationId = some migration ∧ sm.hashRing = some ring ∧
    (∃ v ∈ migration.virtualNodes, ring.nodes.get v = none) ∧
    ¬ (migration.status = .Completed ∧
      MovesNothing ring migration.targetShard migration.virtualNodes)
  | _ => False

section Handlers

variable {hash : String → UInt64} {env : Env} {sm : CoordinatorStateMachine}

variable {command : StateCommand}

theorem apply_eq_error {e : String} :
    (sm.apply hash env command).2 = .error e ↔ (sm.handle hash env command).2 = .error e := by
  unfold apply
  rcases sm.handle hash env command with ⟨sm', u | e'⟩
  · exact Iff.rfl
  · exact iff_of_false nofun nofun

theorem apply_of_error {e : String} (h : (sm.handle hash env command).2 = .error e) :
    (sm.apply hash env command).1 = (sm.handle hash env command).1 := by
  unfold apply
  rcases hresult : sm.handle hash env command with ⟨sm', e' | u⟩
  · rfl
  · rw [hresult] at h
    cases h

theorem Sound.handle_of_error (h : Sound sm) {e : String}
    (herror : (sm.handle hash env command).2 = .error e) :
    (sm.handle hash env command).1 = sm ∨ ∃ id, command = .CompleteMigration id := by
  cases command with
  | RegisterShard shard =>
    left
    simp only [CoordinatorStateMachine.handle, CoordinatorStateMachine.registerShard] at herror ⊢
    split_ifs at herror ⊢
    · rfl
    · rw [(h.insert_shard shard _).rebuildHashRing_eq] at herror
      cases herror
  | UnregisterShard shardId =>
    left
    simp only [CoordinatorStateMachine.handle, CoordinatorStateMachine.unregisterShard] at herror ⊢
    split_ifs at herror ⊢
    · rw [(h.remove_shard shardId _).rebuildHashRing_eq] at herror
      cases herror
    · rfl
  | UpdateShardStatus shardId status =>
    left
    cases hshard : sm.shards.get shardId with
    | none =>
      simp only [CoordinatorStateMachine.handle, CoordinatorStateMachine.updateShardStatus, hshard]
    | some shard =>
      simp only [CoordinatorStateMachine.handle, CoordinatorStateMachine.updateShardStatus,
        hshard] at herror
      cases herror
  | UpdateHeartbeat shardId timestamp =>
    left
    simp only [CoordinatorStateMachine.handle, CoordinatorStateMachine.updateHeartbeat] at herror ⊢
    split_ifs at herror ⊢
    rfl
  | UpdateHashRing ring => cases herror
  | StartMigration migrationId sourceShard targetShard virtualNodes =>
    left
    simp only [CoordinatorStateMachine.handle, CoordinatorStateMachine.startMigration] at herror ⊢
    split_ifs at herror ⊢
    rfl
  | CompleteMigration migrationId => exact .inr ⟨migrationId, rfl⟩
  | AbortMigration migrationId =>
    left
    cases hm : sm.migrations.get migrationId with
    | none => simp only [CoordinatorStateMachine.handle, CoordinatorStateMachine.abortMigration, hm]
    | some migration =>
      simp only [CoordinatorStateMachine.handle, CoordinatorStateMachine.abortMigration,
        hm] at herror
      cases herror
  | UpdateConfig key value => cases herror

theorem Sound.completeMigration_iff (h : Sound sm) (migrationId : String) :
    (∀ e, (sm.completeMigration migrationId).2 = .error e →
      (sm.completeMigration migrationId).1 = sm) ↔
      ¬ FailsHalfway sm (.CompleteMigration migrationId) := by
  simp only [FailsHalfway]
  cases hm : sm.migrations.get migrationId with
  | none =>
    refine iff_of_true (fun _ _ => ?_) ?_
    · simp only [completeMigration, hm]
    · rintro ⟨_, _, hm', -⟩
      cases hm'
  | some migration =>
    cases hring : sm.hashRing with
    | none =>
      refine iff_of_true (fun e he => ?_) ?_
      · simp only [completeMigration, hm, hring] at he
        cases he
      · rintro ⟨_, _, -, hring', -⟩
        cases hring'
    | some ring =>
      simp only [completeMigration, hm, hring]
      have hstate : { sm with
          hashRing := some (moveVnodes migration.targetShard ring migration.virtualNodes).1
          migrations := sm.migrations.insert migrationId
            { migration with status := .Completed, progress := 100 } } = sm ↔
          migration.status = .Completed ∧
            MovesNothing ring migration.targetShard migration.virtualNodes := by
        rw [← moveVnodes_eq_self]
        constructor
        · intro heq
          have hmigrations := congrArg (·.migrations) heq
          have hrings := congrArg (·.hashRing) heq
          dsimp only at hmigrations hrings
          rw [hring, Option.some.injEq] at hrings
          rw [insert_eq_self, hm, Option.some.injEq] at hmigrations
          exact ⟨congrArg (·.status) hmigrations, hrings⟩
        · rintro ⟨hstatus, hmoves⟩
          have hdone := h.done migrationId migration hm hstatus
          have hsame : { migration with status := .Completed, progress := 100 } = migration := by
            rw [← hstatus, ← hdone]
          rw [hsame, insert_eq_self.mpr hm, hmoves, ← hring]
      have hfails : (∃ e, (moveVnodes migration.targetShard ring migration.virtualNodes).2 =
          .error e) ↔ ∃ v ∈ migration.virtualNodes, ring.nodes.get v = none := by
        rw [← not_iff_not, not_exists]
        push Not
        rw [← @moveVnodes_ok_iff ring migration.targetShard]
        cases (moveVnodes migration.targetShard ring migration.virtualNodes).2 with
        | ok u => simp
        | error e => simp
      rw [hstate]
      constructor
      · rintro hall ⟨_, _, hm', hring', hmissing, hnot⟩
        cases hm'
        cases hring'
        obtain ⟨e, he⟩ := hfails.mpr hmissing
        exact hnot (hall e he)
      · intro hnot e he
        by_contra hdiffers
        exact hnot ⟨migration, ring, rfl, rfl, hfails.mp ⟨e, he⟩, hdiffers⟩

end Handlers

/-- **A rejected command changes nothing**, exactly when it does not fail halfway through the
completion of a migration. -/
theorem rejected_iff (hash : String → UInt64) (log : List (Env × StateCommand)) (env : Env)
    (command : StateCommand) :
    (∀ e, ((CoordinatorStateMachine.run hash log).apply hash env command).2 = .error e →
      ((CoordinatorStateMachine.run hash log).apply hash env command).1.snapshot =
        (CoordinatorStateMachine.run hash log).snapshot) ↔
      ¬ FailsHalfway (CoordinatorStateMachine.run hash log) command := by
  have h := Sound.run hash log
  generalize run hash log = sm at h
  have hhandle : (∀ e, (sm.apply hash env command).2 = .error e →
      (sm.apply hash env command).1.snapshot = sm.snapshot) ↔
      ∀ e, (sm.handle hash env command).2 = .error e → (sm.handle hash env command).1 = sm := by
    refine forall_congr' fun e => ?_
    rw [apply_eq_error, snapshot_inj]
    refine imp_congr_right fun herror => ?_
    rw [apply_of_error herror]
  rw [hhandle]
  by_cases hcomplete : ∃ id, command = .CompleteMigration id
  · obtain ⟨id, rfl⟩ := hcomplete
    exact h.completeMigration_iff id
  · refine iff_of_true (fun e he => (h.handle_of_error he).resolve_right hcomplete) ?_
    cases command <;> first | exact id | exact absurd ⟨_, rfl⟩ hcomplete

/-- A migration of a virtual node that is not there is completed, and says that it was not. -/
theorem rejected_completed : ¬ ∀ (hash : String → UInt64) (log : List (Env × StateCommand))
    (env : Env) (command : StateCommand) (e : String),
    ((CoordinatorStateMachine.run hash log).apply hash env command).2 = .error e →
      ((CoordinatorStateMachine.run hash log).apply hash env command).1.snapshot =
        (CoordinatorStateMachine.run hash log).snapshot := by
  intro h
  have hsame := h (fun _ => 0) [(.standard, .UpdateHashRing .new),
    (.standard, .StartMigration "m" 1 2 [100])] .standard (.CompleteMigration "m") _ rfl
  have hstatus := congrArg (fun s => (s.migrations.get "m").map (·.status)) hsame
  revert hstatus
  decide

end Arcxa.Ha
