import Arcxa.Engine.ExecutionBackends
import Arcxa.Engine.Lifecycle

/-!
# Retries of a batch execution

An attempt first saves a new record of its execution, and a record is saved once: the second attempt
finds the record of the first one, and fails without running an action, as do all that follow. So
the retries are right only where there is nothing to retry (`retries_right_iff`).
-/

namespace Arcxa.Engine

variable {A V J : Type}

/-! ## One attempt -/

/-- What is executed: the id, the input in the record, and the source, with which the actions
start. -/
structure ExecutionOrder (J : Type) where
  executionId : String
  input : J
  source : J

/-- What an attempt meets: what the actions do this time, and the clock before and after them. -/
structure Attempt (A V J : Type) where
  handlers : Handlers A V J
  savedAt : Time
  endedAt : Time

/-- What came of an attempt. -/
structure Tried (J : Type) where
  store : InMemoryBackend J
  /-- The results of the actions, if they were run. -/
  ran : Option (List (ActionResult J))
  result : Except String Unit

section Attempt

variable (services : V) (workflow : Workflow A J) (order : ExecutionOrder J)
  (attempt : Attempt A V J)

def Attempt.act (route : Route A J) : List (ActionResult J) × J :=
  attempt.handlers.executeActions
    (Executions.batchContext services workflow route order.source) route.actions order.source

def settleRecord (store : InMemoryBackend J) (results : List (ActionResult J))
    (change : WorkflowExecution J → WorkflowExecution J) : Tried J :=
  match store.get order.executionId with
  | none => ⟨store, some results, .error "Execution record not found"⟩
  | some execution =>
    match store.update (change execution) with
    | .error e => ⟨store, some results, .error e⟩
    | .ok store => ⟨store, some results, .ok ()⟩

def Attempt.settle (totalActions : Nat) (store : InMemoryBackend J)
    (results : List (ActionResult J)) (data : J) : Tried J :=
  match pausedResult results with
  | some paused =>
    settleRecord order store results fun execution =>
      { execution.pauseAt paused results data 0 totalActions attempt.endedAt with
        actionResults := results }
  | none =>
    if (failedResults results).isEmpty then
      settleRecord order store results fun execution =>
        { execution.updateStatus .Completed attempt.endedAt with actionResults := results }
    else
      ⟨store, some results, .error ("Workflow execution failed: " ++
        toString (failedResults results).length ++ " actions failed")⟩

def executeWorkflowInternal (store : InMemoryBackend J) : Tried J :=
  match store.save (.new order.executionId workflow.id workflow.name order.input none
    attempt.savedAt) with
  | .error e => ⟨store, none, .error e⟩
  | .ok store =>
    match workflow.routes.head? with
    | none => ⟨store, none, .error "Workflow has no routes"⟩
    | some route =>
      let (results, data) := attempt.act services workflow order route
      attempt.settle order route.actions.length store results data

end Attempt

/-! ## Many attempts -/

/-- The fields of `BatchJobConfig` for retries. -/
structure RetryConfig where
  retryFailed : Bool
  maxRetries : UInt64

/-- How the coordinator was built and started: whether integer arithmetic is checked, and whether
debug messages are written. -/
structure Build where
  overflowChecks : Bool
  debugMessages : Bool

/-- A `u64` or `usize`; nothing where it overflows and that is checked. -/
def Build.checked (build : Build) (value : Nat) : Option UInt64 :=
  if build.overflowChecks ∧ 2 ^ 64 ≤ value then none else some (.ofNat value)

def Build.backoffMs (build : Build) (attempt : Nat) : Option UInt64 :=
  ((build.checked (2 ^ ((attempt - 1) % 2 ^ 32))).bind fun power =>
    build.checked (1000 * power.toNat)).map fun backoffMs => min backoffMs 30000

inductive RetryEnd where
  | ok
  | error (e : String)
  | panic
  /-- The attempts are counted up to the end of `usize`, and from zero again. -/
  | endless
  deriving DecidableEq

structure RetryRun (J : Type) where
  store : InMemoryBackend J
  /-- The results of the actions, attempt by attempt, if they were run. -/
  attempts : List (Option (List (ActionResult J)))
  /-- The milliseconds that were slept. -/
  backoffs : List UInt64
  ending : RetryEnd

section Retry

variable (build : Build) (config : RetryConfig) (services : V) (workflow : Workflow A J)
  (order : ExecutionOrder J) (attempts : Nat → Attempt A V J)

/-- The loop after `n` attempts. -/
def retryLoop (n : Nat) (store : InMemoryBackend J) : RetryRun J :=
  if 2 ^ 64 ≤ n + 1 then ⟨store, [], [], if build.overflowChecks then .panic else .endless⟩
  else if build.debugMessages ∧ build.checked (config.maxRetries.toNat + 1) = none then
    ⟨store, [], [], .panic⟩
  else
    let tried := executeWorkflowInternal services workflow order (attempts n) store
    match tried.result with
    | .ok () => ⟨tried.store, [tried.ran], [], .ok⟩
    | .error e =>
      if config.maxRetries.toNat < n + 1 ∨ !config.retryFailed then
        ⟨tried.store, [tried.ran], [], .error e⟩
      else
        match build.backoffMs (n + 1) with
        | none => ⟨tried.store, [tried.ran], [], .panic⟩
        | some backoffMs =>
          let run := retryLoop (n + 1) tried.store
          { run with
            attempts := tried.ran :: run.attempts
            backoffs := backoffMs :: run.backoffs }
termination_by 2 ^ 64 - n

def executeWithRetry (store : InMemoryBackend J) : RetryRun J :=
  retryLoop build config services workflow order attempts 0 store

end Retry

/-! ## What is to hold -/

def RunSucceeds (results : List (ActionResult J)) : Prop :=
  (pausedResult results).isSome ∨ failedResults results = []

def Succeeded (ran : Option (List (ActionResult J))) : Prop := ∃ results ∈ ran, RunSucceeds results

structure RetriesRight (maxRetries : Nat) (run : RetryRun J) : Prop where
  /-- Every attempt runs the actions. -/
  ran : none ∉ run.attempts
  /-- There is none after the first success. -/
  stops : ∀ ran ∈ run.attempts.dropLast, ¬ Succeeded ran
  /-- They go on until then, as far as they may. -/
  goesOn : (∃ ran ∈ run.attempts, Succeeded ran) ∨ run.attempts.length = maxRetries + 1
  bounded : run.attempts.length ≤ maxRetries + 1
  ok : run.ending = .ok ↔ ∃ ran ∈ run.attempts, Succeeded ran
  returns : run.ending = .ok ∨ ∃ e, run.ending = .error e
  backoffs : run.backoffs.map UInt64.toNat =
    (List.range (run.attempts.length - 1)).map fun i => min 30000 (1000 * 2 ^ i)

/-! ## What one attempt does -/

theorem executionId_pauseAt (execution : WorkflowExecution J) (paused : ActionResult J)
    (results : List (ActionResult J)) (data : J) (resumeFrom totalActions : Nat) (now : Time) :
    (execution.pauseAt paused results data resumeFrom totalActions now).executionId =
      execution.executionId := by
  rw [WorkflowExecution.pauseAt, WorkflowExecution.executionId_updateStatus]
  rfl

section Once

variable {services : V} {workflow : Workflow A J} {order : ExecutionOrder J}
  {attempt : Attempt A V J} {store : InMemoryBackend J}

theorem executeWorkflowInternal_of_stored
    (h : (store.executions.get order.executionId).isSome) :
    ∃ e, executeWorkflowInternal services workflow order attempt store =
      ⟨store, none, .error e⟩ := by
  unfold executeWorkflowInternal InMemoryBackend.save Entity.save
  simp only [executions, WorkflowExecution.new, h, if_true]
  exact ⟨_, rfl⟩

theorem settleRecord_ok {execution : WorkflowExecution J} {results : List (ActionResult J)}
    {change : WorkflowExecution J → WorkflowExecution J}
    (hget : store.executions.get order.executionId = some execution)
    (hid : execution.executionId = order.executionId)
    (hchange : ∀ execution, (change execution).executionId = execution.executionId) :
    (settleRecord order store results change).ran = some results ∧
      (settleRecord order store results change).result = .ok () := by
  have hread : store.get order.executionId = some (store.mergeLogs execution) := by
    rw [InMemoryBackend.get, hget, Option.map_some]
  have hsame : (change (store.mergeLogs execution)).executionId = order.executionId := by
    rw [hchange, InMemoryBackend.executionId_mergeLogs, hid]
  have hwrite : executions.update store.executions (change (store.mergeLogs execution)) = .ok _ :=
    Entity.update_of_some ((congrArg _ hsame).trans hget)
  unfold settleRecord InMemoryBackend.update
  rw [hread]
  dsimp only
  rw [hwrite]
  exact ⟨rfl, rfl⟩

def savedRecord (workflow : Workflow A J) (order : ExecutionOrder J) (attempt : Attempt A V J)
    (store : InMemoryBackend J) : InMemoryBackend J :=
  { store with
    executions := store.executions.insert order.executionId (.new order.executionId workflow.id
      workflow.name order.input none attempt.savedAt) }

theorem save_new (h : store.executions.get order.executionId = none) :
    store.save (.new order.executionId workflow.id workflow.name order.input none
      attempt.savedAt) = .ok (savedRecord workflow order attempt store) := by
  unfold InMemoryBackend.save Entity.save
  simp only [executions, WorkflowExecution.new, h, Option.isSome_none, Bool.false_eq_true, if_false]
  rfl

variable (services attempt) in
theorem executeWorkflowInternal_of_no_route
    (h : store.executions.get order.executionId = none) (hroute : workflow.routes.head? = none) :
    executeWorkflowInternal services workflow order attempt store =
      ⟨savedRecord workflow order attempt store, none, .error "Workflow has no routes"⟩ := by
  unfold executeWorkflowInternal
  rw [save_new h]
  dsimp only
  rw [hroute]

theorem settle_of_stored {execution : WorkflowExecution J} {results : List (ActionResult J)}
    {data : J} {totalActions : Nat}
    (hget : store.executions.get order.executionId = some execution)
    (hid : execution.executionId = order.executionId) :
    let tried := attempt.settle order totalActions store results data
    tried.ran = some results ∧ (RunSucceeds results → tried.result = .ok ()) ∧
      (¬ RunSucceeds results → (∃ e, tried.result = .error e) ∧ tried.store = store) := by
  dsimp only
  unfold Attempt.settle
  cases hpaused : pausedResult results with
  | some paused =>
    have hsucceeds : RunSucceeds results := .inl (Option.isSome_iff_exists.mpr ⟨paused, hpaused⟩)
    dsimp only
    refine And.imp_right (fun hresult => ⟨fun _ => hresult, fun hfails => absurd hsucceeds hfails⟩)
      (settleRecord_ok hget hid fun execution => ?_)
    exact executionId_pauseAt execution paused results data 0 totalActions attempt.endedAt
  | none =>
    dsimp only
    split_ifs with hfailed
    · have hsucceeds : RunSucceeds results := .inr (List.isEmpty_iff.mp hfailed)
      refine And.imp_right
        (fun hresult => ⟨fun _ => hresult, fun hfails => absurd hsucceeds hfails⟩)
        (settleRecord_ok hget hid fun execution => ?_)
      exact execution.executionId_updateStatus ..
    · refine ⟨rfl, fun hsucceeds => ?_, fun _ => ⟨⟨_, rfl⟩, rfl⟩⟩
      rcases hsucceeds with hsome | hnil
      · rw [hpaused] at hsome
        cases hsome
      · exact absurd (List.isEmpty_iff.mpr hnil) hfailed

variable (services attempt) in
/-- **The first attempt** runs the actions, and returns whether they have succeeded. -/
theorem executeWorkflowInternal_of_new {route : Route A J}
    (h : store.executions.get order.executionId = none)
    (hroute : workflow.routes.head? = some route) :
    let results := (attempt.act services workflow order route).1
    let tried := executeWorkflowInternal services workflow order attempt store
    tried.ran = some results ∧ (RunSucceeds results → tried.result = .ok ()) ∧
      (¬ RunSucceeds results → (∃ e, tried.result = .error e) ∧
        tried.store = savedRecord workflow order attempt store) := by
  have hget : (savedRecord workflow order attempt store).executions.get order.executionId =
      some _ := (BTreeMap.get_insert ..).trans (if_pos rfl)
  have htried : executeWorkflowInternal services workflow order attempt store =
      attempt.settle order route.actions.length (savedRecord workflow order attempt store)
        (attempt.act services workflow order route).1
        (attempt.act services workflow order route).2 := by
    unfold executeWorkflowInternal
    rw [save_new h]
    dsimp only
    rw [hroute]
  rw [htried]
  exact settle_of_stored hget rfl

end Once

/-! ## What the loop does -/

section Loop

variable {build : Build} {config : RetryConfig} {services : V} {workflow : Workflow A J}
  {order : ExecutionOrder J} {attempts : Nat → Attempt A V J}

/-- **Once the record is there, no attempt runs the actions**, and none succeeds. -/
theorem retryLoop_of_stored (n : Nat) {store : InMemoryBackend J}
    (h : (store.executions.get order.executionId).isSome) :
    let run := retryLoop build config services workflow order attempts n store
    (∀ ran ∈ run.attempts, ran = none) ∧ run.ending ≠ .ok ∧
      (run.attempts = [] → ∀ e, run.ending ≠ .error e) := by
  have htried : ∃ e, executeWorkflowInternal services workflow order (attempts n) store =
      ⟨store, none, .error e⟩ := executeWorkflowInternal_of_stored h
  obtain ⟨e, htried⟩ := htried
  rw [retryLoop, htried]
  split_ifs with hcount hchecks hdebug hlast
  · simp
  · simp
  · simp
  · simp
  · cases hbackoff : build.backoffMs (n + 1) with
    | none => simp
    | some backoffMs =>
      obtain ⟨hran, hending, -⟩ := retryLoop_of_stored (n + 1) h
      exact ⟨List.forall_mem_cons.mpr ⟨rfl, hran⟩, hending, fun hnil => by cases hnil⟩
  termination_by 2 ^ 64 - n
  decreasing_by omega

/-- The debug message of an attempt can be written: its number of attempts does not overflow. -/
def Starts (build : Build) (config : RetryConfig) : Prop :=
  ¬ (build.overflowChecks = true ∧ build.debugMessages = true ∧
    config.maxRetries.toNat + 1 = 2 ^ 64)

theorem starts_iff : Starts build config ↔
    ¬ (build.debugMessages = true ∧ build.checked (config.maxRetries.toNat + 1) = none) := by
  have hbound := config.maxRetries.toNat_lt
  have hsame : 2 ^ 64 ≤ config.maxRetries.toNat + 1 ↔ config.maxRetries.toNat + 1 = 2 ^ 64 := by
    omega
  simp only [Starts, Build.checked, hsame, ite_eq_left_iff, reduceCtorEq, imp_false, not_not]
  tauto

theorem executeWithRetry_of_not_starts (h : ¬ Starts build config) (store : InMemoryBackend J) :
    executeWithRetry build config services workflow order attempts store =
      ⟨store, [], [], .panic⟩ := by
  rw [starts_iff, not_not] at h
  rw [executeWithRetry, retryLoop, if_neg (by decide), if_pos h]

section Starting

variable (hstarts : Starts build config) {store : InMemoryBackend J} {tried : Tried J}
  (htried : executeWorkflowInternal services workflow order (attempts 0) store = tried)

include hstarts htried

theorem executeWithRetry_of_ok (hok : tried.result = .ok ()) :
    executeWithRetry build config services workflow order attempts store =
      ⟨tried.store, [tried.ran], [], .ok⟩ := by
  rw [executeWithRetry, retryLoop, if_neg (by decide), if_neg (starts_iff.mp hstarts), htried]
  dsimp only
  rw [hok]

theorem executeWithRetry_of_error {e : String} (herror : tried.result = .error e)
    (hnone : config.maxRetries = 0) :
    executeWithRetry build config services workflow order attempts store =
      ⟨tried.store, [tried.ran], [], .error e⟩ := by
  have hlast : config.maxRetries.toNat < 0 + 1 ∨ (!config.retryFailed) = true := by
    rw [hnone]
    exact .inl Nat.one_pos
  rw [executeWithRetry, retryLoop, if_neg (by decide), if_neg (starts_iff.mp hstarts), htried]
  dsimp only
  rw [herror]
  dsimp only
  rw [if_pos hlast]

theorem executeWithRetry_of_retry {e : String} (herror : tried.result = .error e)
    (hretry : config.retryFailed = true) (hsome : config.maxRetries ≠ 0)
    (hstored : (tried.store.executions.get order.executionId).isSome) :
    let run := executeWithRetry build config services workflow order attempts store
    run.ending ≠ .ok ∧ ((∃ e, run.ending = .error e) → none ∈ run.attempts) := by
  have hmore : ¬ (config.maxRetries.toNat < 0 + 1 ∨ (!config.retryFailed) = true) := by
    have hpos : config.maxRetries.toNat ≠ 0 := fun hzero => hsome (UInt64.toNat_inj.mp hzero)
    rw [hretry, Bool.not_true, or_iff_left Bool.false_ne_true]
    omega
  dsimp only
  rw [executeWithRetry, retryLoop, if_neg (by decide), if_neg (starts_iff.mp hstarts), htried]
  dsimp only
  rw [herror]
  dsimp only
  rw [if_neg hmore]
  cases hbackoff : build.backoffMs (0 + 1) with
  | none => simp
  | some backoffMs =>
    dsimp only
    obtain ⟨hran, hending, hnil⟩ :
        let run := retryLoop build config services workflow order attempts 1 tried.store
        (∀ ran ∈ run.attempts, ran = none) ∧ run.ending ≠ .ok ∧
          (run.attempts = [] → ∀ e, run.ending ≠ .error e) := retryLoop_of_stored 1 hstored
    refine ⟨hending, ?_⟩
    rintro ⟨e, he⟩
    obtain ⟨ran, hmem⟩ := List.exists_mem_of_ne_nil _ fun hattempts => hnil hattempts e he
    exact List.mem_cons_of_mem _ (hran ran hmem ▸ hmem)

end Starting

end Loop

/-! ## When the retries are right -/

section Right

variable (build : Build) (config : RetryConfig) (services : V) (workflow : Workflow A J)
  (order : ExecutionOrder J) (attempts : Nat → Attempt A V J) (store : InMemoryBackend J)

def FirstSucceeds : Prop :=
  ∃ route ∈ workflow.routes.head?, RunSucceeds ((attempts 0).act services workflow order route).1

theorem retriesRight_of_once {maxRetries : Nat} {results : List (ActionResult J)}
    {ending : RetryEnd} (hok : RunSucceeds results → ending = .ok)
    (herror : ¬ RunSucceeds results → (∃ e, ending = .error e) ∧ maxRetries = 0) :
    RetriesRight maxRetries ⟨store, [some results], [], ending⟩ := by
  have hsucceeded : (∃ ran ∈ [some results], Succeeded ran) ↔ RunSucceeds results := by
    simp [Succeeded]
  by_cases hruns : RunSucceeds results
  · exact ⟨by simp, by simp, .inl (hsucceeded.mpr hruns), by simp,
      iff_of_true (hok hruns) (hsucceeded.mpr hruns), .inl (hok hruns), rfl⟩
  · obtain ⟨⟨e, he⟩, hzero⟩ := herror hruns
    refine ⟨by simp, by simp, .inr (by rw [hzero]; rfl), by simp, ?_, .inr ⟨e, he⟩, rfl⟩
    rw [hsucceeded, he]
    exact iff_of_false (by simp) hruns

theorem saved_isSome {attempt : Attempt A V J} :
    ((savedRecord workflow order attempt store).executions.get order.executionId).isSome :=
  Option.isSome_iff_exists.mpr ⟨_, (BTreeMap.get_insert ..).trans (if_pos rfl)⟩

theorem needs_of_right (hretry : config.retryFailed = true)
    (h : RetriesRight config.maxRetries.toNat
      (executeWithRetry build config services workflow order attempts store)) :
    Starts build config ∧ store.executions.get order.executionId = none ∧
      workflow.routes ≠ [] ∧
        (config.maxRetries = 0 ∨ FirstSucceeds services workflow order attempts) := by
  have hstarts : Starts build config := by
    by_contra hnot
    have hreturns := h.returns
    rw [executeWithRetry_of_not_starts hnot] at hreturns
    simp at hreturns
  have hnew : store.executions.get order.executionId = none := by
    by_contra hstored
    obtain ⟨hran, hending, hnil⟩ :
        let run := executeWithRetry build config services workflow order attempts store
        (∀ ran ∈ run.attempts, ran = none) ∧ run.ending ≠ .ok ∧
          (run.attempts = [] → ∀ e, run.ending ≠ .error e) :=
      retryLoop_of_stored 0 (Option.ne_none_iff_isSome.mp hstored)
    obtain ⟨e, he⟩ := h.returns.resolve_left hending
    obtain ⟨ran, hmem⟩ := List.exists_mem_of_ne_nil _ fun hattempts => hnil hattempts e he
    exact h.ran (hran ran hmem ▸ hmem)
  -- a failed attempt whose record is there is not retried
  have hretried : config.maxRetries ≠ 0 → ∀ e tried,
      executeWorkflowInternal services workflow order (attempts 0) store = tried →
        tried.result = .error e →
          tried.store = savedRecord workflow order (attempts 0) store → False := by
    intro hsome e tried htried herror hsaved
    obtain ⟨hending, hnone⟩ := executeWithRetry_of_retry hstarts htried herror hretry hsome
      (hsaved ▸ saved_isSome workflow order store)
    exact h.ran (hnone (h.returns.resolve_left hending))
  cases hroute : workflow.routes.head? with
  | none =>
    have htried := executeWorkflowInternal_of_no_route services (attempts 0) hnew hroute
    by_cases hzero : config.maxRetries = 0
    · rw [executeWithRetry_of_error hstarts htried rfl hzero] at h
      exact absurd List.mem_cons_self h.ran
    · exact (hretried hzero _ _ htried rfl rfl).elim
  | some route =>
    refine ⟨hstarts, hnew, fun hnil => ?_, ?_⟩
    · rw [hnil] at hroute
      cases hroute
    · by_contra hneither
      obtain ⟨hsome, hfirst⟩ := not_or.mp hneither
      obtain ⟨-, -, hfails⟩ := executeWorkflowInternal_of_new services (attempts 0) hnew hroute
      obtain ⟨⟨e, he⟩, hsaved⟩ := hfails fun hsucceeds => hfirst ⟨route, hroute, hsucceeds⟩
      exact hretried hsome e _ rfl he hsaved

/-- **Retries are right where there is nothing to retry**: the record is new, and either the first
run of the actions succeeds or there are to be no retries. -/
theorem retries_right_iff (hretry : config.retryFailed = true) :
    RetriesRight config.maxRetries.toNat
        (executeWithRetry build config services workflow order attempts store) ↔
      Starts build config ∧ store.executions.get order.executionId = none ∧
        workflow.routes ≠ [] ∧
          (config.maxRetries = 0 ∨ FirstSucceeds services workflow order attempts) := by
  refine ⟨needs_of_right build config services workflow order attempts store hretry, ?_⟩
  rintro ⟨hstarts, hnew, hroutes, honce⟩
  obtain ⟨route, hroute⟩ := Option.isSome_iff_exists.mp (List.isSome_head?.mpr hroutes)
  obtain ⟨hran, hsucceeds, hfails⟩ :=
    executeWorkflowInternal_of_new services (attempts 0) hnew hroute
  by_cases hruns : RunSucceeds ((attempts 0).act services workflow order route).1
  · rw [executeWithRetry_of_ok hstarts rfl (hsucceeds hruns), hran]
    exact retriesRight_of_once _ (fun _ => rfl) fun hfails => absurd hruns hfails
  · obtain ⟨⟨e, he⟩, -⟩ := hfails hruns
    have hzero : config.maxRetries = 0 := by
      refine honce.resolve_right ?_
      rintro ⟨route', hroute', hfirst⟩
      rw [hroute] at hroute'
      cases hroute'
      exact hruns hfirst
    rw [executeWithRetry_of_error hstarts rfl he hzero, hran, hzero]
    exact retriesRight_of_once _ (fun hsucceeds => absurd hsucceeds hruns)
      fun _ => ⟨⟨e, rfl⟩, rfl⟩

end Right

/-! ## An action that fails once -/

def sampleOrder : ExecutionOrder Unit := ⟨"exec-1", (), ()⟩

def firstFails (n : Nat) : Attempt Unit Unit Unit where
  handlers :=
    { Executions.idleHandlers with
      run := fun _ _ data =>
        (⟨"Log", if n = 0 then .Failed else .Success, 0, none, none⟩, data)
      run_ne_paused := fun _ _ _ => by dsimp only; split_ifs <;> decide }
  savedAt := 2 * n
  endedAt := 2 * n + 1

/-- An execution that succeeds at once. -/
theorem retries_right_success : RetriesRight 3 (executeWithRetry ⟨false, false⟩ ⟨true, 3⟩ ()
    Executions.sampleWorkflow sampleOrder (fun n => firstFails (n + 1)) .new) :=
  (retries_right_iff ⟨false, false⟩ ⟨true, 3⟩ () Executions.sampleWorkflow sampleOrder
    (fun n => firstFails (n + 1)) .new rfl).mpr
    ⟨fun h => Bool.false_ne_true h.1, rfl, List.cons_ne_nil _ _, .inr ⟨_, rfl, .inr rfl⟩⟩

/-- With one retry, an action that would succeed the second time is not run a second time. -/
theorem second_attempt_not_run : ¬ ∀ (A V J : Type) (build : Build) (config : RetryConfig)
    (services : V) (workflow : Workflow A J) (order : ExecutionOrder J)
    (attempts : Nat → Attempt A V J) (store : InMemoryBackend J),
    config.retryFailed = true → workflow.routes ≠ [] →
      store.executions.get order.executionId = none →
        RetriesRight config.maxRetries.toNat
          (executeWithRetry build config services workflow order attempts store) := by
  intro h
  have hright := h Unit Unit Unit ⟨false, false⟩ ⟨true, 1⟩ () Executions.sampleWorkflow sampleOrder
    firstFails .new rfl (List.cons_ne_nil _ _) rfl
  obtain ⟨-, -, -, honce⟩ := needs_of_right _ _ _ _ _ _ _ rfl hright
  rcases honce with hzero | ⟨route, hroute, hsucceeds⟩
  · exact absurd hzero (by decide)
  · cases hroute
    rcases hsucceeds with hpaused | hfailed
    · exact Bool.false_ne_true hpaused
    · cases hfailed

end Arcxa.Engine
