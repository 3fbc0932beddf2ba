import Arcxa.Engine.Approval
import Arcxa.Engine.ExecutionQueries

/-!
# Approval timeouts

The timeout handler lists the pending requests, marks those that are due as expired, and fails the
executions that wait for them. It lists a page of 1000 requests, the newest first: a request that is
due stays pending while 1000 newer ones are. A pass misses nothing exactly when what is due is on
the page, and no execution without a name waits (`misses_nothing_iff`).
-/

namespace Arcxa.Engine

open Arcxa.Workflow (HashOrder)
open RocksExecutionStore BTreeMap

variable {J : Type}

/-! ## Executions -/

variable [TextCodec (WorkflowExecution J)]

namespace AnyBackend

variable (backend : AnyBackend J)

def get : AnyBackend J → String → Except String (Option (WorkflowExecution J))
  | inMemory _ backend, id => .ok (backend.get id)
  | rocksDb store, id => RocksDbBackend.get store id

def update : AnyBackend J → WorkflowExecution J → Except String (AnyBackend J)
  | inMemory hash backend, execution => (backend.update execution).map (inMemory hash ·)
  | rocksDb store, execution => (RocksDbBackend.update store execution).map rocksDb

/-- The execution under an id, if it can be read. -/
def found (id : String) : Option (WorkflowExecution J) := (backend.get id).toOption.join

def Keyed : Prop :=
  ∀ id execution, backend.found id = some execution → execution.executionId = id

/-- An execution that is written here is read as it was. -/
def Keeps : AnyBackend J → WorkflowExecution J → Prop
  | inMemory _ _, _ => True
  | rocksDb _, execution => TextCodec.ReadsBack execution

end AnyBackend

section Update

variable {stored execution : WorkflowExecution J}

omit [TextCodec (WorkflowExecution J)] in
theorem InMemoryBackend.mergeLogs_eq {backend : InMemoryBackend J}
    (hid : execution.executionId = stored.executionId)
    (hlogs : execution.logs = (backend.mergeLogs stored).logs) :
    backend.mergeLogs execution = execution := by
  unfold mergeLogs at hlogs ⊢
  rw [← hid] at hlogs
  cases hfound : backend.logs.get execution.executionId with
  | none => rfl
  | some logs =>
    rw [hfound] at hlogs
    dsimp only at hlogs ⊢
    rw [← hlogs]

omit [TextCodec (WorkflowExecution J)] in
theorem InMemoryBackend.update_stored {backend : InMemoryBackend J}
    (hid : execution.executionId = stored.executionId)
    (hget : backend.get execution.executionId = some stored)
    (hlogs : execution.logs = stored.logs) :
    ∃ backend', backend.update execution = .ok backend' ∧
      ∀ id, backend'.get id =
        if id = execution.executionId then some execution else backend.get id := by
  obtain ⟨record, hrecord, rfl⟩ := Option.map_eq_some_iff.mp hget
  have hlookup : backend.executions.get (Engine.executions.id execution) = some record := hrecord
  have hmerge : backend.mergeLogs execution = execution :=
    mergeLogs_eq (hid.trans executionId_mergeLogs) hlogs
  refine ⟨⟨backend.executions.insert execution.executionId execution, backend.logs⟩, ?_,
    fun id => ?_⟩
  · rw [InMemoryBackend.update, Entity.update_of_some hlookup]
    rfl
  · show ((backend.executions.insert execution.executionId execution).get id).map
      backend.mergeLogs = _
    rw [get_insert]
    split_ifs with hid
    · rw [Option.map_some, hmerge]
    · rfl

theorem RocksExecutionStore.update_stored {store : RocksExecutionStore J}
    (hget : (store.executions.get execution.executionId).isSome)
    (hreads : TextCodec.ReadsBack execution) :
    ∃ store', store.update execution = .ok store' ∧
      ∀ id, store'.get id =
        if id = execution.executionId then .ok (some execution) else store.get id := by
  refine ⟨⟨store.executions.insert execution.executionId (TextCodec.toText execution)⟩, ?_,
    fun id => ?_⟩
  · obtain ⟨text, htext⟩ := Option.isSome_iff_exists.mp hget
    rw [update, htext]
    rfl
  · rw [get, get, get_insert]
    split_ifs with hid
    · dsimp only
      rw [deserialize, hreads]
      rfl
    · rfl

theorem AnyBackend.update_stored {backend : AnyBackend J} (hkeyed : backend.Keyed)
    (hfound : backend.found execution.executionId = some stored)
    (hlogs : execution.logs = stored.logs) (hkeeps : backend.Keeps execution) :
    ∃ backend', backend.update execution = .ok backend' ∧ backend'.Keeps = backend.Keeps ∧
      ∀ id, backend'.found id =
        if id = execution.executionId then some execution else backend.found id := by
  cases backend with
  | inMemory hash backend =>
    obtain ⟨backend', hupdate, hafter⟩ := InMemoryBackend.update_stored
      (hkeyed _ _ hfound).symm hfound hlogs
    exact ⟨.inMemory hash backend', congrArg (Except.map _) hupdate, rfl, hafter⟩
  | rocksDb store =>
    have hget : (store.executions.get execution.executionId).isSome := by
      have hread : (RocksDbBackend.get store execution.executionId).toOption.join =
          some stored := hfound
      unfold RocksDbBackend.get RocksExecutionStore.get at hread
      cases htext : store.executions.get execution.executionId with
      | none =>
        rw [htext] at hread
        cases hread
      | some text => rfl
    obtain ⟨store', hupdate, hafter⟩ := RocksExecutionStore.update_stored hget hkeeps
    refine ⟨.rocksDb store', ?_, rfl, fun id => ?_⟩
    · show ((store.update execution).mapError RocksDbBackend.internal).map rocksDb = _
      rw [hupdate]
      rfl
    · show ((store'.get id).mapError _).toOption.join = _
      rw [hafter]
      split_ifs <;> rfl

end Update

/-! ## The handler -/

/-- What the handler reads and writes. -/
structure TimeoutStores (J : Type) where
  approvals : ApprovalBackend J
  executions : AnyBackend J

/-- `ApprovalStore::expire`. -/
def expireApproval (backend : ApprovalBackend J) (requestId : String) :
    Except String (ApprovalBackend J) :=
  match getRequiredApproval backend requestId with
  | .error error => .error error
  | .ok request =>
    match request.expire with
    | .error error => .error ("Failed to expire request: " ++ error)
    | .ok request => (approvals.update backend request).mapError PersistenceError.text

def failWorkflowExecution (executions : AnyBackend J) (executionId : String) (now : Time) :
    Except String (AnyBackend J) :=
  match executions.get executionId with
  | .error error => .error error
  | .ok none => .error ("Execution not found: " ++ executionId)
  | .ok (some execution) =>
    if execution.status = .Paused then
      executions.update ((execution.updateStatus .Failed now).clearCheckpoint now)
    else .ok executions

section Pass

variable (now : Time) (failedAt : String → Time)

/-- What the loop does to the execution of an expired request; an error is only logged. `failedAt`
is the clock when an execution is failed, which happens to it at most once. -/
def failExecutionOf (executions : AnyBackend J) (request : ApprovalRequest J) : AnyBackend J :=
  if request.executionId ≠ "" then
    match failWorkflowExecution executions request.executionId (failedAt request.executionId) with
    | .ok executions => executions
    | .error _ => executions
  else executions

def processRequest (pass : TimeoutStores J × Nat) (request : ApprovalRequest J) :
    TimeoutStores J × Nat :=
  if request.expiresAt ≤ now then
    match expireApproval pass.1.approvals request.requestId with
    | .error _ => pass
    | .ok approvals =>
      (⟨approvals, failExecutionOf failedAt pass.1.executions request⟩, pass.2 + 1)
  else pass

def processExpiredApprovals (hash : HashOrder (ApprovalRequest J)) (stores : TimeoutStores J) :
    TimeoutStores J × Nat :=
  (listApprovalsByStatus (hash.order stores.approvals.values) .Pending 1000 0).foldl
    (processRequest now failedAt) (stores, 0)

end Pass

/-! ## What is to hold -/

namespace TimeoutStores

variable (stores : TimeoutStores J)

/-- Everything is stored under its id. -/
structure Filed : Prop where
  approvals : Engine.approvals.Keyed stores.approvals
  executions : stores.executions.Keyed

def overdue (now : Time) : List (ApprovalRequest J) :=
  stores.approvals.values.filter fun request =>
    request.status = .Pending ∧ request.expiresAt ≤ now

/-- The requests that were pending in `stores` and are expired in `after`. -/
def expiredIn (after : TimeoutStores J) : List (ApprovalRequest J) :=
  stores.approvals.values.filter fun request =>
    request.status = .Pending ∧
      (after.approvals.get request.requestId).any (·.status = .Expired)

end TimeoutStores

structure MissesNothing (now : Time) (before after : TimeoutStores J) (count : Nat) : Prop where
  expired : ∀ id request, after.approvals.get id = some request → request.status = .Pending →
    now < request.expiresAt
  unchanged : ∀ id request, before.approvals.get id = some request → now < request.expiresAt →
    after.approvals.get id = some request
  failed : ∀ request ∈ before.expiredIn after, ∀ execution,
    before.executions.found request.executionId = some execution → execution.status = .Paused →
      ∃ execution', after.executions.found request.executionId = some execution' ∧
        execution'.status = .Failed ∧ execution'.checkpointActionIndex = none ∧
        execution'.checkpointData = none
  counted : count = (before.expiredIn after).length

def newestPending (walked : List (ApprovalRequest J)) : List (ApprovalRequest J) :=
  (walked.filter fun request => request.status = .Pending).mergeSort
    fun a b => b.createdAt ≤ a.createdAt

/-- What a pass needs. -/
structure WithinReach (hash : HashOrder (ApprovalRequest J)) (now : Time)
    (stores : TimeoutStores J) : Prop where
  /-- Past the first thousand, nothing is due. -/
  listed : ∀ request ∈ (newestPending (hash.order stores.approvals.values)).drop 1000,
    now < request.expiresAt
  /-- No request that is due is for a paused execution without a name. -/
  named : ∀ request ∈ stores.overdue now, request.executionId = "" →
    ∀ execution, stores.executions.found "" = some execution → execution.status ≠ .Paused

def timedOut (now : Time) (execution : WorkflowExecution J) : WorkflowExecution J :=
  if execution.status = .Paused then (execution.updateStatus .Failed now).clearCheckpoint now
  else execution

/-- A paused execution, once failed, is read as it was written. -/
def TimeoutStores.FailuresReadBack (failedAt : String → Time) (stores : TimeoutStores J) : Prop :=
  ∀ id execution, stores.executions.found id = some execution → execution.status = .Paused →
    stores.executions.Keeps (timedOut (failedAt id) execution)

/-! ## What a pass does -/

section Handled

variable {now : Time} {failedAt : String → Time} {before after last : TimeoutStores J × Nat}
  {due rest : List (ApprovalRequest J)}

variable (execution : WorkflowExecution J)

omit [TextCodec (WorkflowExecution J)] in
theorem timedOut_timedOut : timedOut now (timedOut now execution) = timedOut now execution := by
  unfold timedOut
  split_ifs with hpaused hfailed
  · exact absurd hfailed (by simp [WorkflowExecution.clearCheckpoint])
  · rfl
  · rfl

omit [TextCodec (WorkflowExecution J)] in
theorem executionId_timedOut : (timedOut now execution).executionId = execution.executionId := by
  unfold timedOut
  split_ifs
  · exact execution.executionId_updateStatus _ _
  · rfl

omit [TextCodec (WorkflowExecution J)] in
theorem status_timedOut : (timedOut now execution).status ≠ .Paused := by
  unfold timedOut
  split_ifs with hpaused
  · show (execution.updateStatus .Failed now).status ≠ .Paused
    rw [execution.status_updateStatus]
    exact nofun
  · exact hpaused

omit [TextCodec (WorkflowExecution J)] in
theorem logs_timedOut : (timedOut now execution).logs = execution.logs := by
  unfold timedOut WorkflowExecution.updateStatus
  dsimp only
  split_ifs <;> rfl

/-- `after` is what is left when exactly the requests of `due` have been handled. -/
structure Handled (failedAt : String → Time) (due : List (ApprovalRequest J))
    (before after : TimeoutStores J × Nat) : Prop where
  approvals : ∀ id, after.1.approvals.get id = (before.1.approvals.get id).map fun request =>
    if id ∈ due.map (·.requestId) then { request with status := .Expired } else request
  executions : ∀ id, after.1.executions.found id =
    (before.1.executions.found id).map fun execution =>
      if id ≠ "" ∧ id ∈ due.map (·.executionId) then timedOut (failedAt id) execution
      else execution
  keeps : after.1.executions.Keeps = before.1.executions.Keeps
  count : after.2 = before.2 + due.length

namespace Handled

theorem nil : Handled failedAt [] before before := by
  refine ⟨fun id => ?_, fun id => ?_, rfl, rfl⟩
  · simp
  · simp

variable (h : Handled failedAt due before after)

include h

theorem trans (h' : Handled failedAt rest after last) :
    Handled failedAt (due ++ rest) before last := by
  refine ⟨fun id => ?_, fun id => ?_, h'.keeps.trans h.keeps, ?_⟩
  · rw [h'.approvals, h.approvals, Option.map_map, List.map_append]
    congr 1
    funext request
    rw [Function.comp_apply]
    by_cases hearlier : id ∈ due.map (·.requestId)
    · rw [if_pos hearlier, if_pos (List.mem_append_left _ hearlier)]
      split_ifs <;> rfl
    · rw [if_neg hearlier]
      simp only [List.mem_append, hearlier, false_or]
  · rw [h'.executions, h.executions, Option.map_map, List.map_append]
    congr 1
    funext execution
    rw [Function.comp_apply]
    by_cases hearlier : id ≠ "" ∧ id ∈ due.map (·.executionId)
    · have heither : id ≠ "" ∧ id ∈ due.map (·.executionId) ++ rest.map (·.executionId) :=
        ⟨hearlier.1, List.mem_append_left _ hearlier.2⟩
      rw [if_pos hearlier, if_pos heither]
      split_ifs
      · exact timedOut_timedOut execution
      · rfl
    · rw [if_neg hearlier]
      have hsame : id ≠ "" ∧ id ∈ due.map (·.executionId) ++ rest.map (·.executionId) ↔
          id ≠ "" ∧ id ∈ rest.map (·.executionId) := by
        rw [List.mem_append, and_or_left, or_iff_right hearlier]
      simp only [hsame]
  · rw [h'.count, h.count, List.length_append, Nat.add_assoc]

theorem filed (hfiled : before.1.Filed) : after.1.Filed := by
  constructor
  · intro id request hget
    rw [h.approvals] at hget
    obtain ⟨request', hget', rfl⟩ := Option.map_eq_some_iff.mp hget
    have hid : request'.requestId = id := hfiled.approvals id request' hget'
    split_ifs
    · exact hid
    · exact hid
  · intro id execution hget
    rw [h.executions] at hget
    obtain ⟨execution', hget', rfl⟩ := Option.map_eq_some_iff.mp hget
    have hid : execution'.executionId = id := hfiled.executions id execution' hget'
    split_ifs
    · rwa [executionId_timedOut]
    · exact hid

theorem failuresReadBack (hreads : before.1.FailuresReadBack failedAt) :
    after.1.FailuresReadBack failedAt := by
  intro id execution hfound hpaused
  rw [h.executions] at hfound
  obtain ⟨execution', hfound', rfl⟩ := Option.map_eq_some_iff.mp hfound
  split_ifs at hpaused with hdue
  · exact absurd hpaused (status_timedOut execution')
  · rw [if_neg hdue, h.keeps]
    exact hreads id execution' hfound' hpaused

end Handled

omit [TextCodec (WorkflowExecution J)] in
theorem expireApproval_of_pending {backend : ApprovalBackend J} {request : ApprovalRequest J}
    (hget : backend.get request.requestId = some request) (hpending : request.status = .Pending) :
    expireApproval backend request.requestId =
      .ok (backend.insert request.requestId { request with status := .Expired }) := by
  have hexpire : request.expire = .ok { request with status := .Expired } := by
    unfold ApprovalRequest.expire
    rw [if_neg (not_not.mpr hpending)]
  have hlookup : backend.get (approvals.id { request with status := .Expired }) = some request :=
    hget
  unfold expireApproval getRequiredApproval
  rw [hget]
  dsimp only
  rw [hexpire]
  dsimp only
  rw [Entity.update_of_some hlookup]
  rfl

variable (now) in
theorem failWorkflowExecution_spec {executions : AnyBackend J} (hkeyed : executions.Keyed)
    (executionId : String) (hreads : ∀ execution, executions.found executionId = some execution →
      execution.status = .Paused → executions.Keeps (timedOut now execution)) :
    (executions.found executionId = none ∧
        ∃ error, failWorkflowExecution executions executionId now = .error error) ∨
      ∃ after, failWorkflowExecution executions executionId now = .ok after ∧
        after.Keeps = executions.Keeps ∧
        ∀ id, after.found id = (executions.found id).map fun execution =>
          if id = executionId then timedOut now execution else execution := by
  unfold failWorkflowExecution
  rcases hget : executions.get executionId with error | _ | execution
  · exact .inl ⟨by rw [AnyBackend.found, hget]; rfl, _, rfl⟩
  · exact .inl ⟨by rw [AnyBackend.found, hget]; rfl, _, rfl⟩
  · refine .inr ?_
    dsimp only
    have hfound : executions.found executionId = some execution := by
      rw [AnyBackend.found, hget]
      rfl
    have hid : (timedOut now execution).executionId = executionId :=
      (executionId_timedOut execution).trans (hkeyed _ _ hfound)
    by_cases hpaused : execution.status = .Paused
    · have htimedOut : (execution.updateStatus .Failed now).clearCheckpoint now =
          timedOut now execution := (if_pos hpaused).symm
      obtain ⟨after, hupdate, hkeeps, hafter⟩ := AnyBackend.update_stored hkeyed (hid ▸ hfound)
        (logs_timedOut execution) (hreads execution hfound hpaused)
      refine ⟨after, ?_, hkeeps, fun id => ?_⟩
      · rw [if_pos hpaused, htimedOut, hupdate]
      · rw [hafter, hid]
        split_ifs with heq
        · rw [heq, hfound, Option.map_some]
        · rw [Option.map_id']
    · refine ⟨executions, if_neg hpaused, rfl, fun id => ?_⟩
      split_ifs with heq
      · rw [heq, hfound, Option.map_some, timedOut, if_neg hpaused]
      · rw [Option.map_id']

theorem failExecutionOf_spec {executions : AnyBackend J} (hkeyed : executions.Keyed)
    (request : ApprovalRequest J) (hreads : ∀ id execution, executions.found id = some execution →
      execution.status = .Paused → executions.Keeps (timedOut (failedAt id) execution)) :
    (failExecutionOf failedAt executions request).Keeps = executions.Keeps ∧
      ∀ id, (failExecutionOf failedAt executions request).found id =
        (executions.found id).map fun execution =>
          if id ≠ "" ∧ id = request.executionId then timedOut (failedAt id) execution
          else execution := by
  unfold failExecutionOf
  by_cases hname : request.executionId = ""
  · rw [if_neg (not_not.mpr hname)]
    refine ⟨rfl, fun id => ?_⟩
    have hnot : ¬ (id ≠ "" ∧ id = request.executionId) := fun h => h.1 (h.2.trans hname)
    simp only [hnot, if_false, Option.map_id']
  · have hsame : ∀ id, id ≠ "" ∧ id = request.executionId ↔ id = request.executionId :=
      fun id => and_iff_right_of_imp fun h => h ▸ hname
    rw [if_pos hname]
    simp only [hsame]
    obtain ⟨hnone, error, hfail⟩ | ⟨after, hfail, hkeeps, hafter⟩ :=
      failWorkflowExecution_spec (failedAt request.executionId) hkeyed request.executionId
        (hreads request.executionId)
    · rw [hfail]
      refine ⟨rfl, fun id => ?_⟩
      dsimp only
      split_ifs with heq
      · rw [heq, hnone, Option.map_none]
      · rw [Option.map_id']
    · rw [hfail]
      refine ⟨hkeeps, fun id => ?_⟩
      dsimp only
      rw [hafter]
      split_ifs with heq
      · rw [heq]
      · rfl

theorem handled_processRequest {request : ApprovalRequest J} (hfiled : before.1.Filed)
    (hreads : before.1.FailuresReadBack failedAt)
    (hget : before.1.approvals.get request.requestId = some request)
    (hpending : request.status = .Pending) (hdue : request.expiresAt ≤ now) :
    Handled failedAt [request] before (processRequest now failedAt before request) := by
  unfold processRequest
  rw [if_pos hdue, expireApproval_of_pending hget hpending]
  dsimp only
  obtain ⟨hkeeps, hexecutions⟩ := failExecutionOf_spec hfiled.executions request hreads
  refine ⟨fun id => ?_, fun id => ?_, hkeeps, rfl⟩
  · rw [get_insert, List.map_singleton]
    simp only [List.mem_singleton]
    split_ifs with hid
    · rw [hid, hget, Option.map_some]
    · rw [Option.map_id']
  · rw [hexecutions, List.map_singleton]
    simp only [List.mem_singleton]

theorem handled_foldl (hfiled : before.1.Filed) (hreads : before.1.FailuresReadBack failedAt)
    (hnodup : (due.map (·.requestId)).Nodup)
    (hstored : ∀ request ∈ due, before.1.approvals.get request.requestId = some request ∧
      request.status = .Pending ∧ request.expiresAt ≤ now) :
    Handled failedAt due before (due.foldl (processRequest now failedAt) before) := by
  induction due generalizing before with
  | nil => exact .nil
  | cons request due ih =>
    obtain ⟨hget, hpending, hdue⟩ := hstored request List.mem_cons_self
    obtain ⟨hnotMem, hnodup'⟩ := List.nodup_cons.mp hnodup
    have hround : Handled failedAt [request] before (processRequest now failedAt before request) :=
      handled_processRequest hfiled hreads hget hpending hdue
    refine hround.trans (ih (hround.filed hfiled) (hround.failuresReadBack hreads) hnodup' ?_)
    -- a later request is not the one that this round expires
    intro later hlater
    obtain ⟨hgetLater, hrest⟩ := hstored later (List.mem_cons_of_mem _ hlater)
    refine ⟨?_, hrest⟩
    have hother : later.requestId ∉ [request].map (·.requestId) := by
      rw [List.map_singleton, List.mem_singleton]
      intro heq
      exact hnotMem (List.mem_map.mpr ⟨later, hlater, heq⟩)
    rw [hround.approvals, hgetLater, Option.map_some, if_neg hother]

end Handled

/-! ## When a pass misses nothing -/

section Pass

variable {stores : TimeoutStores J} {hash : HashOrder (ApprovalRequest J)} {now : Time}
  {failedAt : String → Time} {request : ApprovalRequest J}

def dueListed (hash : HashOrder (ApprovalRequest J)) (now : Time) (stores : TimeoutStores J) :
    List (ApprovalRequest J) :=
  ((newestPending (hash.order stores.approvals.values)).take 1000).filter fun request =>
    request.expiresAt ≤ now

omit [TextCodec (WorkflowExecution J)] in
theorem perm_newestPending : (newestPending (hash.order stores.approvals.values)).Perm
    (stores.approvals.values.filter fun request => request.status = .Pending) :=
  (List.mergeSort_perm _ _).trans ((hash.perm _).filter _)

variable (hfiled : stores.Filed)

include hfiled

theorem mem_newestPending :
    request ∈ newestPending (hash.order stores.approvals.values) ↔
      stores.approvals.get request.requestId = some request ∧ request.status = .Pending := by
  rw [perm_newestPending.mem_iff, List.mem_filter, decide_eq_true_iff, mem_values]
  refine and_congr_left fun _ => ⟨fun ⟨id, hget⟩ => ?_, fun hget => ⟨_, hget⟩⟩
  have hid : request.requestId = id := hfiled.approvals id request hget
  rwa [hid]

theorem nodup_values : (stores.approvals.values.map (·.requestId)).Nodup := by
  have hkeys : stores.approvals.values.map (·.requestId) = stores.approvals.keys := by
    rw [values, keys, List.map_map]
    refine List.map_congr_left fun entry hentry => ?_
    exact hfiled.approvals _ _ (mem_entries_iff.mp hentry)
  exact hkeys ▸ nodup_keys _

theorem nodup_newestPending :
    ((newestPending (hash.order stores.approvals.values)).map (·.requestId)).Nodup := by
  rw [(perm_newestPending.map _).nodup_iff]
  exact (nodup_values hfiled).sublist (List.filter_sublist.map _)

omit hfiled

omit [TextCodec (WorkflowExecution J)] in
theorem mem_dueListed : request ∈ dueListed hash now stores ↔
    request ∈ (newestPending (hash.order stores.approvals.values)).take 1000 ∧
      request.expiresAt ≤ now := by
  rw [dueListed, List.mem_filter, decide_eq_true_iff]

include hfiled

theorem stored_of_mem_dueListed (h : request ∈ dueListed hash now stores) :
    stores.approvals.get request.requestId = some request ∧ request.status = .Pending ∧
      request.expiresAt ≤ now := by
  obtain ⟨hpage, hdue⟩ := mem_dueListed.mp h
  obtain ⟨hget, hpending⟩ := (mem_newestPending hfiled).mp (List.mem_of_mem_take hpage)
  exact ⟨hget, hpending, hdue⟩

theorem mem_map_dueListed {id : String} (hget : stores.approvals.get id = some request) :
    id ∈ (dueListed hash now stores).map (·.requestId) ↔ request ∈ dueListed hash now stores := by
  rw [List.mem_map]
  constructor
  · rintro ⟨request', hmem, rfl⟩
    have hget' := (stored_of_mem_dueListed hfiled hmem).1
    rw [hget] at hget'
    cases hget'
    exact hmem
  · exact fun hmem => ⟨request, hmem, hfiled.approvals id request hget⟩

variable (hash now failedAt) in
theorem handled_processExpiredApprovals (hreads : stores.FailuresReadBack failedAt) :
    Handled failedAt (dueListed hash now stores) (stores, 0)
      (processExpiredApprovals now failedAt hash stores) := by
  have hpage : listApprovalsByStatus (hash.order stores.approvals.values) .Pending 1000 0 =
      (newestPending (hash.order stores.approvals.values)).take 1000 := rfl
  have hfold : processExpiredApprovals now failedAt hash stores =
      (dueListed hash now stores).foldl (processRequest now failedAt) (stores, 0) := by
    rw [processExpiredApprovals, hpage, dueListed, List.foldl_filter]
    congr 1
    funext pass request
    unfold processRequest
    by_cases hdue : request.expiresAt ≤ now
    · rw [if_pos hdue, if_pos (decide_eq_true hdue)]
    · rw [if_neg hdue, if_neg (by simpa using hdue)]
  rw [hfold]
  refine handled_foldl hfiled hreads ?_ fun request hmem => stored_of_mem_dueListed hfiled hmem
  have hsublist : (dueListed hash now stores).Sublist
      (newestPending (hash.order stores.approvals.values)) :=
    List.filter_sublist.trans (List.take_sublist _ _)
  exact (nodup_newestPending hfiled).sublist (hsublist.map _)

variable {after : TimeoutStores J} {count : Nat}

theorem mem_expiredIn (h : Handled failedAt (dueListed hash now stores) (stores, 0) (after, count)) :
    request ∈ stores.expiredIn after ↔ request ∈ dueListed hash now stores := by
  unfold TimeoutStores.expiredIn
  rw [List.mem_filter, decide_eq_true_iff, mem_values]
  constructor
  · rintro ⟨⟨id, hget⟩, hpending, hexpired⟩
    have hid : request.requestId = id := hfiled.approvals id request hget
    rw [hid, h.approvals, hget, Option.map_some, Option.any_some, decide_eq_true_iff] at hexpired
    by_contra hnot
    rw [if_neg (mt (mem_map_dueListed hfiled hget).mp hnot), hpending] at hexpired
    cases hexpired
  · intro hmem
    obtain ⟨hget, hpending, -⟩ := stored_of_mem_dueListed hfiled hmem
    refine ⟨⟨_, hget⟩, hpending, ?_⟩
    rw [h.approvals, hget, Option.map_some, if_pos ((mem_map_dueListed hfiled hget).mpr hmem)]
    rfl

theorem length_expiredIn
    (h : Handled failedAt (dueListed hash now stores) (stores, 0) (after, count)) :
    count = (stores.expiredIn after).length := by
  have hvalues : stores.approvals.values.Nodup := (nodup_values hfiled).of_map _
  have hlisted : (dueListed hash now stores).Nodup := by
    refine List.Nodup.filter _ (List.Nodup.sublist (List.take_sublist _ _) ?_)
    exact (nodup_newestPending hfiled).of_map _
  have hperm : (dueListed hash now stores).Perm (stores.expiredIn after) :=
    (List.perm_ext_iff_of_nodup hlisted (hvalues.filter _)).mpr
      fun request => (mem_expiredIn hfiled h).symm
  have hcount : count = 0 + (dueListed hash now stores).length := h.count
  rw [← hperm.length_eq, hcount, Nat.zero_add]

omit hfiled

omit [TextCodec (WorkflowExecution J)] in
theorem mem_overdue : request ∈ stores.overdue now ↔
    request ∈ newestPending (hash.order stores.approvals.values) ∧ request.expiresAt ≤ now := by
  rw [TimeoutStores.overdue, List.mem_filter, decide_eq_true_iff, perm_newestPending.mem_iff,
    List.mem_filter, decide_eq_true_iff, and_assoc]

omit [TextCodec (WorkflowExecution J)] in
theorem mem_dueListed_of_listed
    (hlisted : ∀ request ∈ (newestPending (hash.order stores.approvals.values)).drop 1000,
      now < request.expiresAt)
    (h : request ∈ stores.overdue now) : request ∈ dueListed hash now stores := by
  obtain ⟨hmem, hdue⟩ := mem_overdue.mp h
  rw [← List.take_append_drop 1000 (newestPending _), List.mem_append] at hmem
  refine mem_dueListed.mpr ⟨hmem.resolve_right fun hdrop => ?_, hdue⟩
  exact absurd (hlisted request hdrop) (not_lt.mpr hdue)

include hfiled

theorem listed_of_expired
    (h : Handled failedAt (dueListed hash now stores) (stores, 0) (after, count))
    (hexpired : ∀ id request, after.approvals.get id = some request →
      request.status = .Pending → now < request.expiresAt) :
    ∀ request ∈ (newestPending (hash.order stores.approvals.values)).drop 1000,
      now < request.expiresAt := by
  intro request hdrop
  obtain ⟨hget, hpending⟩ := (mem_newestPending hfiled).mp (List.mem_of_mem_drop hdrop)
  have hnotListed : request ∉ dueListed hash now stores := by
    intro hmem
    have hnodup : (newestPending (hash.order stores.approvals.values)).Nodup :=
      (nodup_newestPending hfiled).of_map _
    rw [← List.take_append_drop 1000 (newestPending _)] at hnodup
    exact List.disjoint_of_nodup_append hnodup (mem_dueListed.mp hmem).1 hdrop
  refine hexpired request.requestId request ?_ hpending
  rw [h.approvals, hget, Option.map_some,
    if_neg (mt (mem_map_dueListed hfiled hget).mp hnotListed)]

theorem named_of_failed
    (hafter : Handled failedAt (dueListed hash now stores) (stores, 0) (after, count))
    (h : MissesNothing now stores after count) (hmem : request ∈ stores.overdue now)
    (hname : request.executionId = "") {execution : WorkflowExecution J}
    (hget : stores.executions.found "" = some execution) : execution.status ≠ .Paused := by
  intro hpaused
  have hlisted := listed_of_expired hfiled hafter h.expired
  have hexpired := (mem_expiredIn hfiled hafter).mpr (mem_dueListed_of_listed hlisted hmem)
  obtain ⟨execution', hget', hfailed, -⟩ :=
    h.failed request hexpired execution (hname ▸ hget) hpaused
  have hsame : after.executions.found "" = some execution := by
    rw [hafter.executions, hget, Option.map_some, if_neg fun hne => hne.1 rfl]
  rw [hname, hsame] at hget'
  cases hget'
  rw [hpaused] at hfailed
  cases hfailed

theorem missesNothing_of_withinReach
    (hafter : Handled failedAt (dueListed hash now stores) (stores, 0) (after, count))
    (h : WithinReach hash now stores) : MissesNothing now stores after count := by
  refine ⟨fun id request hget hpending => ?_, fun id request hget hlater => ?_,
    fun request hmem execution hget hpaused => ?_, length_expiredIn hfiled hafter⟩
  · rw [hafter.approvals] at hget
    obtain ⟨stored, hstored, rfl⟩ := Option.map_eq_some_iff.mp hget
    split_ifs at hpending with hmem
    rw [if_neg hmem]
    by_contra hdue
    have hid : stored.requestId = id := hfiled.approvals id stored hstored
    have hpage : stored ∈ newestPending (hash.order stores.approvals.values) :=
      (mem_newestPending hfiled).mpr ⟨hid ▸ hstored, hpending⟩
    have hoverdue : stored ∈ stores.overdue now := mem_overdue.mpr ⟨hpage, not_lt.mp hdue⟩
    exact hmem ((mem_map_dueListed hfiled hstored).mpr
      (mem_dueListed_of_listed h.listed hoverdue))
  · have hmem : request ∉ dueListed hash now stores := fun hmem =>
      absurd (mem_dueListed.mp hmem).2 (not_le.mpr hlater)
    rw [hafter.approvals, hget, Option.map_some,
      if_neg (mt (mem_map_dueListed hfiled hget).mp hmem)]
  · have hlisted := (mem_expiredIn hfiled hafter).mp hmem
    have hoverdue : request ∈ stores.overdue now := by
      obtain ⟨hpage, hdue⟩ := mem_dueListed.mp hlisted
      exact mem_overdue.mpr ⟨List.mem_of_mem_take hpage, hdue⟩
    have hname : request.executionId ≠ "" := fun hname =>
      h.named request hoverdue hname execution (hname ▸ hget) hpaused
    refine ⟨timedOut (failedAt request.executionId) execution, ?_, ?_⟩
    · rw [hafter.executions, hget, Option.map_some,
        if_pos ⟨hname, List.mem_map_of_mem hlisted⟩]
    · rw [timedOut, if_pos hpaused]
      exact ⟨execution.status_updateStatus _ _, rfl, rfl⟩

omit hfiled

end Pass

/-- A request that is due, for a paused execution, and one that is not. -/
def dueAndLater : TimeoutStores Unit :=
  let due : ApprovalRequest Unit := .new "r" "ddl_execution" "exec" "wf" 0 () 0 5 none
  let later : ApprovalRequest Unit := .new "s" "ddl_execution" "exec" "wf" 0 () 1 9 none
  ⟨(BTreeMap.empty.insert (approvals.id due) due).insert (approvals.id later) later,
    .rocksDb ⟨.insert .empty "exec" (TextCodec.toText pausedExecution)⟩⟩

section Crowd

variable {stores : TimeoutStores J} {hash : HashOrder (ApprovalRequest J)} {now : Time}
  {failedAt : String → Time} {request : ApprovalRequest J}

omit [TextCodec (WorkflowExecution J)] in
theorem pairwise_newestPending (walked : List (ApprovalRequest J)) :
    (newestPending walked).Pairwise fun a b => b.createdAt ≤ a.createdAt := by
  have h := pairwise_sortByKey (k := fun request : ApprovalRequest J =>
    OrderDual.toDual request.createdAt) (walked.filter fun request => request.status = .Pending)
  exact h

theorem missed_of_crowd (hfiled : stores.Filed) (hreads : stores.FailuresReadBack failedAt)
    (hget : stores.approvals.get request.requestId = some request)
    (hpending : request.status = .Pending) (hdue : request.expiresAt ≤ now)
    (holdest : ∀ other ∈ stores.approvals.values, other.createdAt ≤ request.createdAt →
      other = request)
    (hcrowd : 1000 < (stores.approvals.values.filter (·.status = .Pending)).length) :
    ¬ MissesNothing now stores (processExpiredApprovals now failedAt hash stores).1
      (processExpiredApprovals now failedAt hash stores).2 := by
  intro h
  have hlisted := listed_of_expired hfiled
    (handled_processExpiredApprovals hash now failedAt hfiled hreads) h.expired
  have hsorted := pairwise_newestPending (hash.order stores.approvals.values)
  have hmem : request ∈ newestPending (hash.order stores.approvals.values) :=
    (mem_newestPending hfiled).mpr ⟨hget, hpending⟩
  have hlength : (newestPending (hash.order stores.approvals.values)).length =
      (stores.approvals.values.filter (·.status = .Pending)).length := perm_newestPending.length_eq
  rw [← List.take_append_drop 1000 (newestPending _)] at hsorted hmem
  -- there is a request past the page, and none on the page is older
  obtain ⟨last, hlast⟩ := List.exists_mem_of_length_pos
    (l := (newestPending (hash.order stores.approvals.values)).drop 1000)
    (by rw [List.length_drop, hlength]; omega)
  suffices hdrop : request ∈ (newestPending (hash.order stores.approvals.values)).drop 1000 from
    absurd (hlisted request hdrop) (not_lt.mpr hdue)
  rcases List.mem_append.mp hmem with hpage | hdrop
  · have hle := (List.pairwise_append.mp hsorted).2.2 request hpage last hlast
    have hstored : last ∈ stores.approvals.values :=
      List.mem_of_mem_filter (perm_newestPending.mem_iff.mp (List.mem_of_mem_drop hlast))
    exact holdest last hstored hle ▸ hlast
  · exact hdrop

end Crowd

def crowd : List (ApprovalRequest Unit) :=
  (List.range 1001).map fun i =>
    .new (String.ofList (List.replicate i 'r')) "ddl_execution" "exec" "wf" 0 () i
      (if i = 0 then 5 else 5000) none

def crowded : TimeoutStores Unit :=
  ⟨.ofList (crowd.map fun request => (request.requestId, request)), .rocksDb .new⟩

theorem nodup_crowd :
    ((crowd.map fun request => (request.requestId, request)).map (·.1)).Nodup := by
  rw [List.map_map, crowd, List.map_map]
  refine List.Nodup.map (fun i j hij => ?_) List.nodup_range
  have hlist := String.ofList_injective hij
  simpa using congrArg List.length hlist

theorem get_crowded {id : String} {request : ApprovalRequest Unit} :
    crowded.approvals.get id = some request ↔ request ∈ crowd ∧ request.requestId = id := by
  have hperm : crowded.approvals.entries.Perm
      (crowd.map fun request => (request.requestId, request)) :=
    perm_entries_ofList nodup_crowd
  rw [← mem_entries_iff, hperm.mem_iff, List.mem_map]
  constructor
  · rintro ⟨request', hmem, heq⟩
    cases heq
    exact ⟨hmem, rfl⟩
  · rintro ⟨hmem, rfl⟩
    exact ⟨request, hmem, rfl⟩

theorem perm_crowded : crowded.approvals.values.Perm crowd := by
  have h := (perm_entries_ofList nodup_crowd).map (·.2)
  rw [List.map_map] at h
  have hsame : ((·.2) ∘ fun request : ApprovalRequest Unit => (request.requestId, request)) = id :=
    rfl
  rwa [hsame, List.map_id] at h

theorem filed_crowded : crowded.Filed := by
  constructor
  · exact fun id request hget => (get_crowded.mp hget).2
  · intro id execution hget
    cases hget

end Arcxa.Engine
