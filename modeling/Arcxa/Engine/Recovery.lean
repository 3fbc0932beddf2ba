import Arcxa.Engine.Execution

/-!
# Recovery on startup

After a restart `CheckpointManager` goes through the executions that are in progress: the shard's copies
if the shard has any, else the local records. It takes them over or marks them as failed in the local
store. `accounted_iff`: this accounts for the local executions exactly when the shard has none in
progress, or has all that run locally and none that has ended, but for markings that write nothing.
-/

namespace Arcxa.Engine

open WorkflowExecution BTreeMap

variable {J : Type}

inductive RecoverySource where
  | LocalRocksDB
  | ShardRDF
  | Both
  deriving DecidableEq

/-- The access to the store at which the marking of an execution fails. -/
inductive MarkFault where
  | errorUpdate
  | errorEvent
  | statusUpdate
  | statusEvent
  | reread
  deriving DecidableEq

/-- A restart: the local store, what the shard returns as in progress (nothing without a client), the
clock when it comes to an execution, and the markings that fail. -/
structure Restart (J : Type) where
  records : BTreeMap String (WorkflowExecution J)
  keyed : executions.Keyed records
  shard : Option (List (WorkflowExecution J))
  distinct : ∀ copies ∈ shard, (copies.map WorkflowExecution.executionId).Nodup
  staleTimeoutSecs : Nat
  clock : String → Time
  fault : String → Option MarkFault

/-- The report, with the ids whose marking failed, which are logged, and the local store after it. -/
structure Recovery (J : Type) where
  records : BTreeMap String (WorkflowExecution J)
  recoveredIds : List String
  staleIds : List String
  failedIds : List String
  recoverySource : RecoverySource

def staleError : String := "Execution marked as stale after coordinator restart"

namespace Restart

variable (restart : Restart J)

/-- `list_in_progress`: newest first. -/
def localInProgress : List (WorkflowExecution J) :=
  (restart.records.values.filter (·.status = .Running)).mergeSort
    fun a b => decide (b.startedAt ≤ a.startedAt)

def shardInProgress : List (WorkflowExecution J) := restart.shard.getD []

/-- The timeout is a `u64` that is cast to `i64`. -/
def isStale (execution : WorkflowExecution J) : Bool :=
  (BitVec.ofNat 64 restart.staleTimeoutSecs).toInt <
    (restart.clock execution.executionId - execution.startedAt).tdiv 1000000000

def markExecutionStale (records : BTreeMap String (WorkflowExecution J)) (executionId : String) :
    BTreeMap String (WorkflowExecution J) × Bool :=
  match getRequiredExecution records executionId with
  | .error _ => (records, false)
  | .ok execution =>
    let failed := execution.setError staleError (restart.clock executionId)
    let updated := failed.updateStatus .Failed (restart.clock executionId)
    match restart.fault executionId with
    | some .errorUpdate => (records, false)
    | some .errorEvent | some .statusUpdate => (records.insert failed.executionId failed, false)
    | some .statusEvent =>
      ((records.insert failed.executionId failed).insert updated.executionId updated, false)
    | some .reread =>
      ((records.insert failed.executionId failed).insert updated.executionId updated,
        restart.shard.isNone)
    | none =>
      ((records.insert failed.executionId failed).insert updated.executionId updated, true)

def recoverExecution (recovery : Recovery J) (execution : WorkflowExecution J) : Recovery J :=
  if restart.isStale execution then
    let marked := restart.markExecutionStale recovery.records execution.executionId
    if marked.2 then
      { recovery with
        records := marked.1
        staleIds := recovery.staleIds ++ [execution.executionId] }
    else
      { recovery with
        records := marked.1
        failedIds := recovery.failedIds ++ [execution.executionId] }
  else { recovery with recoveredIds := recovery.recoveredIds ++ [execution.executionId] }

def recoverFrom (inProgress : List (WorkflowExecution J)) (source : RecoverySource) : Recovery J :=
  inProgress.foldl restart.recoverExecution ⟨restart.records, [], [], [], source⟩

def recoverOnStartup : Recovery J :=
  if restart.shardInProgress ≠ [] then restart.recoverFrom restart.shardInProgress .ShardRDF
  else restart.recoverFrom restart.localInProgress .LocalRocksDB

end Restart

/-! ## Marking -/

theorem WorkflowExecution.updateStatus_setError (execution : WorkflowExecution J) (error : String)
    (now : Time) :
    (execution.setError error now).updateStatus .Failed now = execution.setError error now := by
  cases hcompleted : execution.completedAt with
  | none => simp [setError, updateStatus, hcompleted, ExecutionStatus.isTerminal]
  | some time => simp [setError, updateStatus, hcompleted, ExecutionStatus.isTerminal]

namespace Restart

variable {restart : Restart J} {records : BTreeMap String (WorkflowExecution J)}
variable {id : String} {execution : WorkflowExecution J}

def marked (restart : Restart J) (id : String) (execution : WorkflowExecution J) :
    WorkflowExecution J :=
  if restart.fault id = some .errorUpdate then execution
  else execution.setError staleError (restart.clock id)

def marks (restart : Restart J) (id : String) : Bool :=
  restart.fault id = none ∨ restart.fault id = some .reread ∧ restart.shard = none

theorem mark_none (h : records.get id = none) :
    restart.markExecutionStale records id = (records, false) := by
  rw [markExecutionStale, getRequiredExecution, h]

theorem mark_some (hkeyed : executions.Keyed records) (h : records.get id = some execution) :
    restart.markExecutionStale records id =
      (records.insert id (restart.marked id execution), restart.marks id) := by
  have hid : execution.executionId = id := hkeyed id execution h
  have hself : records.insert id execution = records := insert_eq_self.mpr h
  rw [markExecutionStale, getRequiredExecution, h]
  dsimp only
  rw [updateStatus_setError, marked, marks]
  have hfailed : (execution.setError staleError (restart.clock id)).executionId = id :=
    (executionId_updateStatus _ _ _).trans hid
  rw [hfailed, insert_insert]
  cases hfault : restart.fault id with
  | none => simp
  | some fault =>
    cases fault with
    | errorUpdate => simp [hself]
    | reread => cases hshard : restart.shard <;> simp
    | _ => simp

theorem status_marked (h : restart.marks id) : (restart.marked id execution).status = .Failed := by
  have hfault : restart.fault id ≠ some .errorUpdate := by
    intro heq
    rw [marks, heq] at h
    exact absurd h (by simp)
  rw [marked, if_neg hfault]
  exact status_updateStatus _ _ _

theorem executionId_marked : (restart.marked id execution).executionId = execution.executionId := by
  rw [marked]
  split_ifs
  · rfl
  · exact executionId_updateStatus _ _ _

/-! ## The executions that recovery goes through -/

/-- What recovery has done with the executions of a list. -/
structure Went (restart : Restart J) (inProgress : List (WorkflowExecution J))
    (recovery : Recovery J) : Prop where
  keyed : executions.Keyed recovery.records
  recovered : ∀ id, id ∈ recovery.recoveredIds ↔
    ∃ execution ∈ inProgress, execution.executionId = id ∧ restart.isStale execution = false
  stale : ∀ id, id ∈ recovery.staleIds ↔
    ∃ execution ∈ inProgress, execution.executionId = id ∧ restart.isStale execution = true ∧
      (restart.records.get id).isSome ∧ restart.marks id
  failed : ∀ id, id ∈ recovery.failedIds ↔
    ∃ execution ∈ inProgress, execution.executionId = id ∧ restart.isStale execution = true ∧
      ¬ ((restart.records.get id).isSome ∧ restart.marks id)
  marked : ∀ execution ∈ inProgress, restart.isStale execution = true →
    recovery.records.get execution.executionId =
      (restart.records.get execution.executionId).map (restart.marked execution.executionId)
  kept : ∀ id, (∀ execution ∈ inProgress, execution.executionId = id →
    restart.isStale execution = false) → recovery.records.get id = restart.records.get id

theorem exists_mem_append_singleton {α : Type} {P : α → Prop} {l : List α} {x : α} :
    (∃ y ∈ l ++ [x], P y) ↔ (∃ y ∈ l, P y) ∨ P x := by
  simp only [List.mem_append, List.mem_singleton, or_and_right, exists_or, exists_eq_left]

variable {inProgress : List (WorkflowExecution J)}

/-- One more execution, of an id that did not come before. -/
theorem Went.recoverExecution {recovery : Recovery J} (h : Went restart inProgress recovery)
    (x : WorkflowExecution J) (hx : ∀ execution ∈ inProgress, execution.executionId ≠ x.executionId) :
    Went restart (inProgress ++ [x]) (restart.recoverExecution recovery x) := by
  have hget : recovery.records.get x.executionId = restart.records.get x.executionId :=
    h.kept _ fun execution hmem heq => absurd heq (hx execution hmem)
  rw [Restart.recoverExecution]
  cases hstale : restart.isStale x with
  | false =>
    refine ⟨h.keyed, fun id => ?_, fun id => ?_, fun id => ?_, fun execution hmem hold => ?_,
      fun id hid => ?_⟩
    · rw [exists_mem_append_singleton, ← h.recovered]
      simp [hstale, eq_comm]
    · rw [exists_mem_append_singleton, ← h.stale]
      simp [hstale]
    · rw [exists_mem_append_singleton, ← h.failed]
      simp [hstale]
    · obtain hmem | hmem := List.mem_append.mp hmem
      · exact h.marked execution hmem hold
      · rw [List.mem_singleton.mp hmem, hstale] at hold
        exact nomatch hold
    · exact h.kept id fun execution hmem => hid execution (List.mem_append_left _ hmem)
  | true =>
    obtain ⟨hothers, hself, hsucceeds, hkeyed⟩ :
        (∀ id, id ≠ x.executionId →
          (restart.markExecutionStale recovery.records x.executionId).1.get id =
            recovery.records.get id) ∧
        (restart.markExecutionStale recovery.records x.executionId).1.get x.executionId =
          (restart.records.get x.executionId).map (restart.marked x.executionId) ∧
        ((restart.markExecutionStale recovery.records x.executionId).2 = true ↔
          (restart.records.get x.executionId).isSome ∧ restart.marks x.executionId) ∧
        executions.Keyed (restart.markExecutionStale recovery.records x.executionId).1 := by
      rw [← hget]
      cases hrecord : recovery.records.get x.executionId with
      | none =>
        rw [mark_none hrecord]
        exact ⟨fun _ _ => rfl, hrecord, by simp, h.keyed⟩
      | some record =>
        rw [mark_some h.keyed hrecord]
        refine ⟨fun id hne => ?_, ?_, by simp, ?_⟩
        · rw [get_insert, if_neg hne]
        · rw [get_insert, if_pos rfl]
          rfl
        · have hid : (restart.marked x.executionId record).executionId = x.executionId :=
            executionId_marked.trans (h.keyed _ _ hrecord)
          have hinsert := h.keyed.insert (restart.marked x.executionId record)
          rwa [show executions.id (restart.marked x.executionId record) = x.executionId from hid]
            at hinsert
    have hmarked : ∀ execution ∈ inProgress ++ [x], restart.isStale execution = true →
        (restart.markExecutionStale recovery.records x.executionId).1.get execution.executionId =
          (restart.records.get execution.executionId).map
            (restart.marked execution.executionId) := by
      intro execution hmem hold
      obtain hmem | hmem := List.mem_append.mp hmem
      · rw [hothers _ (hx execution hmem)]
        exact h.marked execution hmem hold
      · rw [List.mem_singleton.mp hmem]
        exact hself
    have hkept : ∀ id, (∀ execution ∈ inProgress ++ [x], execution.executionId = id →
        restart.isStale execution = false) →
          (restart.markExecutionStale recovery.records x.executionId).1.get id =
            restart.records.get id := by
      intro id hid
      have hne : id ≠ x.executionId := by
        intro heq
        have hfresh := hid x (List.mem_append_right _ (List.mem_singleton_self x)) heq.symm
        rw [hstale] at hfresh
        exact nomatch hfresh
      rw [hothers id hne]
      exact h.kept id fun execution hmem => hid execution (List.mem_append_left _ hmem)
    have hrecovered : ∀ id, id ∈ recovery.recoveredIds ↔ ∃ execution ∈ inProgress ++ [x],
        execution.executionId = id ∧ restart.isStale execution = false := by
      intro id
      rw [exists_mem_append_singleton, ← h.recovered]
      simp [hstale]
    dsimp only
    rw [if_pos rfl]
    split_ifs with hmark
    · have hmark' := hsucceeds.mp hmark
      refine ⟨hkeyed, hrecovered, fun id => ?_, fun id => ?_, hmarked, hkept⟩
      · rw [exists_mem_append_singleton, ← h.stale, List.mem_append, List.mem_singleton]
        refine or_congr_right ⟨?_, fun hlast => hlast.1.symm⟩
        rintro rfl
        exact ⟨rfl, hstale, hmark'⟩
      · rw [exists_mem_append_singleton, ← h.failed]
        refine (or_iff_left ?_).symm
        rintro ⟨rfl, -, hnot⟩
        exact hnot hmark'
    · have hmark' := fun hboth => hmark (hsucceeds.mpr hboth)
      refine ⟨hkeyed, hrecovered, fun id => ?_, fun id => ?_, hmarked, hkept⟩
      · rw [exists_mem_append_singleton, ← h.stale]
        refine (or_iff_left ?_).symm
        rintro ⟨rfl, -, hboth⟩
        exact hmark' hboth
      · rw [exists_mem_append_singleton, ← h.failed, List.mem_append, List.mem_singleton]
        refine or_congr_right ⟨?_, fun hlast => hlast.1.symm⟩
        rintro rfl
        exact ⟨rfl, hstale, hmark'⟩

theorem went_recoverFrom (restart : Restart J)
    (hdistinct : (inProgress.map WorkflowExecution.executionId).Nodup) (source : RecoverySource) :
    Went restart inProgress (restart.recoverFrom inProgress source) := by
  induction inProgress using List.reverseRecOn with
  | nil =>
    have hnone {P : WorkflowExecution J → Prop} : ¬ ∃ execution ∈ [], P execution :=
      fun ⟨_, hmem, _⟩ => List.not_mem_nil hmem
    exact ⟨restart.keyed, fun _ => iff_of_false List.not_mem_nil hnone,
      fun _ => iff_of_false List.not_mem_nil hnone, fun _ => iff_of_false List.not_mem_nil hnone,
      fun _ hmem => absurd hmem List.not_mem_nil, fun _ _ => rfl⟩
  | append_singleton inProgress x ih =>
    rw [List.map_append, List.nodup_append] at hdistinct
    obtain ⟨hinit, -, hlast⟩ := hdistinct
    rw [recoverFrom, List.foldl_append]
    refine (ih hinit).recoverExecution x fun execution hmem => ?_
    exact hlast _ (List.mem_map_of_mem hmem) _ (List.mem_singleton_self _)

/-! ## The account -/

/-- What recovery owes: what runs locally is taken over or marked, or its marking failed; what has ended
is neither taken over nor changed; and what is reported as stale is failed in the local store. -/
structure Accounted (restart : Restart J) (recovery : Recovery J) : Prop where
  running : ∀ id execution, restart.records.get id = some execution →
    execution.status = .Running →
      (id ∈ recovery.recoveredIds ∧ id ∉ recovery.staleIds) ∨
        (id ∉ recovery.recoveredIds ∧ id ∈ recovery.staleIds) ∨ id ∈ recovery.failedIds
  terminal : ∀ id execution, restart.records.get id = some execution →
    execution.status.isTerminal = true →
      id ∉ recovery.recoveredIds ∧ recovery.records.get id = some execution
  stale : ∀ id ∈ recovery.staleIds,
    ∃ execution, recovery.records.get id = some execution ∧ execution.status = .Failed

/-- The list has all that runs locally, and where it has an execution that has ended locally, this is
marked by a marking that leaves the record as it is. -/
structure Covers (restart : Restart J) (inProgress : List (WorkflowExecution J)) : Prop where
  running : ∀ id execution, restart.records.get id = some execution →
    execution.status = .Running → ∃ copy ∈ inProgress, copy.executionId = id
  terminal : ∀ copy ∈ inProgress, ∀ execution,
    restart.records.get copy.executionId = some execution →
      execution.status.isTerminal = true →
        restart.isStale copy = true ∧ restart.marked copy.executionId execution = execution

theorem accounted_recoverFrom_iff (hdistinct : (inProgress.map WorkflowExecution.executionId).Nodup)
    (source : RecoverySource) :
    Accounted restart (restart.recoverFrom inProgress source) ↔ Covers restart inProgress := by
  have hwent := went_recoverFrom restart hdistinct source
  have hsame : ∀ copy ∈ inProgress, ∀ copy' ∈ inProgress,
      copy.executionId = copy'.executionId → copy = copy' :=
    fun copy hcopy copy' hcopy' heq => List.inj_on_of_nodup_map hdistinct hcopy hcopy' heq
  constructor
  · intro h
    constructor
    · intro id execution hget hrunning
      obtain ⟨hrecovered, -⟩ | ⟨-, hstale⟩ | hfailed := h.running id execution hget hrunning
      · obtain ⟨copy, hcopy, hid, -⟩ := (hwent.recovered id).mp hrecovered
        exact ⟨copy, hcopy, hid⟩
      · obtain ⟨copy, hcopy, hid, -⟩ := (hwent.stale id).mp hstale
        exact ⟨copy, hcopy, hid⟩
      · obtain ⟨copy, hcopy, hid, -⟩ := (hwent.failed id).mp hfailed
        exact ⟨copy, hcopy, hid⟩
    · intro copy hcopy execution hget hterminal
      obtain ⟨hrecovered, hkept⟩ := h.terminal _ execution hget hterminal
      have hstale : restart.isStale copy = true := by
        by_contra hyoung
        rw [Bool.not_eq_true] at hyoung
        exact hrecovered ((hwent.recovered _).mpr ⟨copy, hcopy, rfl, hyoung⟩)
      have hmarked := hwent.marked copy hcopy hstale
      rw [hkept, hget] at hmarked
      exact ⟨hstale, (Option.some.inj hmarked).symm⟩
  · intro h
    constructor
    · intro id execution hget hrunning
      obtain ⟨copy, hcopy, rfl⟩ := h.running id execution hget hrunning
      have hsome : (restart.records.get copy.executionId).isSome := hget ▸ rfl
      cases hstale : restart.isStale copy with
      | false =>
        refine .inl ⟨(hwent.recovered _).mpr ⟨copy, hcopy, rfl, hstale⟩, fun hmem => ?_⟩
        obtain ⟨copy', hcopy', hid, hstale', -⟩ := (hwent.stale _).mp hmem
        rw [hsame copy' hcopy' copy hcopy hid, hstale] at hstale'
        exact nomatch hstale'
      | true =>
        by_cases hmarks : restart.marks copy.executionId
        · refine .inr (.inl ⟨fun hmem => ?_, (hwent.stale _).mpr
            ⟨copy, hcopy, rfl, hstale, hsome, hmarks⟩⟩)
          obtain ⟨copy', hcopy', hid, hyoung⟩ := (hwent.recovered _).mp hmem
          rw [hsame copy' hcopy' copy hcopy hid, hstale] at hyoung
          exact nomatch hyoung
        · exact .inr (.inr ((hwent.failed _).mpr
            ⟨copy, hcopy, rfl, hstale, fun hboth => hmarks hboth.2⟩))
    · intro id execution hget hterminal
      constructor
      · intro hmem
        obtain ⟨copy, hcopy, rfl, hyoung⟩ := (hwent.recovered _).mp hmem
        have hstale := (h.terminal copy hcopy execution hget hterminal).1
        rw [hyoung] at hstale
        exact nomatch hstale
      · by_cases hstale : ∃ copy ∈ inProgress, copy.executionId = id ∧ restart.isStale copy = true
        · obtain ⟨copy, hcopy, rfl, hstale⟩ := hstale
          rw [hwent.marked copy hcopy hstale, hget, Option.map_some,
            (h.terminal copy hcopy execution hget hterminal).2]
        · refine (hwent.kept id fun copy hcopy hid => ?_).trans hget
          rw [← Bool.not_eq_true]
          exact fun hold => hstale ⟨copy, hcopy, hid, hold⟩
    · intro id hmem
      obtain ⟨copy, hcopy, rfl, hstale, hsome, hmarks⟩ := (hwent.stale _).mp hmem
      obtain ⟨execution, hget⟩ := Option.isSome_iff_exists.mp hsome
      refine ⟨restart.marked copy.executionId execution, ?_, status_marked hmarks⟩
      rw [hwent.marked copy hcopy hstale, hget, Option.map_some]

theorem mem_localInProgress {execution : WorkflowExecution J} :
    execution ∈ restart.localInProgress ↔
      restart.records.get execution.executionId = some execution ∧
        execution.status = .Running := by
  rw [localInProgress, List.mem_mergeSort, List.mem_filter, mem_values,
    decide_eq_true_iff]
  refine and_congr_left fun _ => ⟨?_, fun hget => ⟨_, hget⟩⟩
  rintro ⟨id, hget⟩
  have hid : execution.executionId = id := restart.keyed id execution hget
  rwa [hid]

theorem nodup_localInProgress (restart : Restart J) :
    (restart.localInProgress.map WorkflowExecution.executionId).Nodup := by
  have hkeys : restart.records.values.map executionId = restart.records.keys := by
    rw [values, keys, List.map_map]
    refine List.map_congr_left fun p hp => ?_
    exact restart.keyed p.1 p.2 (mem_entries_iff.mp hp)
  have hvalues : (restart.records.values.map executionId).Nodup :=
    hkeys ▸ nodup_keys restart.records
  refine ((List.mergeSort_perm _ _).map _).nodup_iff.mpr ?_
  exact hvalues.sublist (List.filter_sublist.map _)

theorem covers_localInProgress (restart : Restart J) :
    Covers restart restart.localInProgress := by
  constructor
  · intro id execution hget hrunning
    have hid : execution.executionId = id := restart.keyed id execution hget
    exact ⟨execution, mem_localInProgress.mpr ⟨hid.symm ▸ hget, hrunning⟩, hid⟩
  · intro copy hcopy execution hget hterminal
    obtain ⟨hlocal, hrunning⟩ := mem_localInProgress.mp hcopy
    rw [hlocal] at hget
    cases hget
    rw [hrunning] at hterminal
    exact nomatch hterminal

/-- **Recovery accounts** for the local executions exactly when the shard has none in progress, or what
it has covers them. -/
theorem accounted_iff (restart : Restart J) : Accounted restart restart.recoverOnStartup ↔
    restart.shardInProgress = [] ∨ Covers restart restart.shardInProgress := by
  rw [recoverOnStartup]
  split_ifs with hshard
  · have hdistinct : (restart.shardInProgress.map executionId).Nodup := by
      rw [shardInProgress] at hshard ⊢
      cases hcopies : restart.shard with
      | none => exact List.nodup_nil
      | some copies => exact restart.distinct copies hcopies
    rw [accounted_recoverFrom_iff hdistinct, or_iff_right hshard]
  · rw [accounted_recoverFrom_iff (nodup_localInProgress restart)]
    exact iff_of_true (covers_localInProgress restart) (.inl (not_not.mp hshard))

def halfCheckpointed : Restart Unit where
  records := .ofList [("a", { WorkflowExecution.new "a" "w" "w" () none 0 with status := .Running }),
    ("b", { WorkflowExecution.new "b" "w" "w" () none 0 with status := .Running })]
  keyed := by
    intro id execution hget
    obtain hmem | hmem := List.mem_pair.mp (mem_of_get_ofList hget)
    · cases hmem
      rfl
    · cases hmem
      rfl
  shard := some [{ new "a" "w" "w" () none 0 with status := .Running }]
  distinct := by
    intro copies hcopies
    cases hcopies
    exact List.nodup_singleton _
  staleTimeoutSecs := 3600
  clock := fun _ => 0
  fault := fun _ => none

/-- The other one is in no list. -/
theorem running_unaccounted :
    ¬ ∀ restart : Restart Unit, Accounted restart restart.recoverOnStartup := by
  intro h
  have hrunning := (h halfCheckpointed).running "b"
    { new "b" "w" "w" () none 0 with status := .Running } (by decide) rfl
  exact absurd hrunning (by decide)

end Restart

end Arcxa.Engine
