import Arcxa.Lib.Calls

/-!
# The loader job manager

`LoaderJobManager` keeps the state of each job in a concurrent map. A call makes one map operation at a
time: registering looks for the job and then inserts it, starting marks the job under the entry's lock,
then spawns the worker and stores its handle, shutting down walks over the jobs and then over the
handles. A worker looks at its token before each row and marks the job when it ends. The calls and the
workers go on in any order.

Nothing but `start_job` looks at the status before it is overwritten, nothing compares the number of
running jobs with the limit of the configuration, and the check for the job's id is not part of the
insertion. The lifecycle holds in every state of a run exactly when each step happens to meet what the
code leaves out (`lifecycle_iff`).
-/

namespace Arcxa.Loader.Orchestration

/-! ## A job's state -/

inductive LoaderJobStatus where
  | Pending
  | Running
  | Completed
  | Failed
  | Cancelled
  | Paused
  deriving DecidableEq

namespace LoaderJobStatus

def isTerminal : LoaderJobStatus → Bool
  | .Completed | .Failed | .Cancelled => true
  | _ => false

def isCancellable : LoaderJobStatus → Bool
  | .Pending | .Running => true
  | _ => false

/-- The edges of the state machine in the documentation of the status, without pausing. -/
def Leads : LoaderJobStatus → LoaderJobStatus → Prop
  | .Pending, new => new = .Running
  | .Running, new => new.isTerminal
  | _, _ => False

theorem leads_isTerminal {old new : LoaderJobStatus} (h : Leads old new) (hnew : new.isTerminal) :
    old = .Running := by
  cases old with
  | Running => rfl
  | Pending => exact absurd (h ▸ hnew) (by decide)
  | Completed | Failed | Cancelled | Paused => exact h.elim

end LoaderJobStatus

/-- The cancellation token is a number: clones of a token are one token. -/
structure LoaderJobState where
  jobId : String
  name : String
  status : LoaderJobStatus
  cancelToken : Nat
  sourceFile : String
  targetTable : String
  createdAt : Nat
  startedAt : Option Nat
  completedAt : Option Nat
  errorMessage : Option String
  deriving DecidableEq

namespace LoaderJobState

def new (jobId name sourceFile targetTable : String) (cancelToken now : Nat) : LoaderJobState where
  jobId := jobId
  name := name
  status := .Pending
  cancelToken := cancelToken
  sourceFile := sourceFile
  targetTable := targetTable
  createdAt := now
  startedAt := none
  completedAt := none
  errorMessage := none

def canStart (state : LoaderJobState) : Bool := state.status = .Pending

def canCancel (state : LoaderJobState) : Bool := state.status.isCancellable

def markStarted (now : Nat) (state : LoaderJobState) : LoaderJobState :=
  { state with status := .Running, startedAt := some now }

def markCompleted (now : Nat) (state : LoaderJobState) : LoaderJobState :=
  { state with status := .Completed, completedAt := some now }

def markFailed (error : String) (now : Nat) (state : LoaderJobState) : LoaderJobState :=
  { state with status := .Failed, completedAt := some now, errorMessage := some error }

def markCancelled (now : Nat) (state : LoaderJobState) : LoaderJobState :=
  { state with status := .Cancelled, completedAt := some now }

/-- What a registration fixes is the same. -/
structure SameJob (old new : LoaderJobState) : Prop where
  jobId : new.jobId = old.jobId
  name : new.name = old.name
  sourceFile : new.sourceFile = old.sourceFile
  targetTable : new.targetTable = old.targetTable
  createdAt : new.createdAt = old.createdAt
  cancelToken : new.cancelToken = old.cancelToken

theorem sameJob_markStarted (now : Nat) (state : LoaderJobState) :
    state.SameJob (state.markStarted now) :=
  ⟨rfl, rfl, rfl, rfl, rfl, rfl⟩

theorem sameJob_markCompleted (now : Nat) (state : LoaderJobState) :
    state.SameJob (state.markCompleted now) :=
  ⟨rfl, rfl, rfl, rfl, rfl, rfl⟩

theorem sameJob_markFailed (error : String) (now : Nat) (state : LoaderJobState) :
    state.SameJob (state.markFailed error now) :=
  ⟨rfl, rfl, rfl, rfl, rfl, rfl⟩

theorem sameJob_markCancelled (now : Nat) (state : LoaderJobState) :
    state.SameJob (state.markCancelled now) :=
  ⟨rfl, rfl, rfl, rfl, rfl, rfl⟩

end LoaderJobState

/-! ## Workers -/

/-- What `LoaderWorker::run` gives: whether the job was cancelled, or an error. -/
abbrev JobResult := Except String Bool

namespace JobResult

def status : JobResult → LoaderJobStatus
  | .ok true => .Cancelled
  | .ok false => .Completed
  | .error _ => .Failed

def mark (result : JobResult) (now : Nat) : LoaderJobState → LoaderJobState :=
  match result with
  | .ok true => LoaderJobState.markCancelled now
  | .ok false => LoaderJobState.markCompleted now
  | .error error => LoaderJobState.markFailed error now

variable (result : JobResult)

@[simp] theorem status_mark (now : Nat) (state : LoaderJobState) :
    (result.mark now state).status = result.status := by
  rcases result with error | cancelled
  · rfl
  · cases cancelled <;> rfl

theorem sameJob_mark (now : Nat) (state : LoaderJobState) :
    state.SameJob (result.mark now state) := by
  rcases result with error | cancelled
  · exact state.sameJob_markFailed error now
  · cases cancelled
    · exact state.sameJob_markCompleted now
    · exact state.sameJob_markCancelled now

theorem isTerminal_status : result.status.isTerminal := by
  rcases result with error | cancelled
  · rfl
  · cases cancelled <;> rfl

end JobResult

/-- `polling`: about to look at the token; `reading`: about to read the next row, or to come to the end
of the file and load the last batch; `ended`: about to mark the job. -/
inductive WorkerPhase where
  | polling
  | reading
  | ended (result : JobResult)
  | marked
  deriving DecidableEq

structure LoaderWorker where
  jobId : String
  sourceFile : String
  targetTable : String
  cancelToken : Nat
  /-- The rows of the file that are not processed. -/
  rowsLeft : Nat
  phase : WorkerPhase
  deriving DecidableEq

namespace LoaderWorker

/-- One step of the loop, with the error that may end it. -/
def run (worker : LoaderWorker) (isCancelled : Bool) (error : Option String) : LoaderWorker :=
  match worker.phase, error with
  | .polling, some error => { worker with phase := .ended (.error error) }
  | .polling, none =>
    if isCancelled then { worker with phase := .ended (.ok true) }
    else { worker with phase := .reading }
  | .reading, some error => { worker with phase := .ended (.error error) }
  | .reading, none =>
    match worker.rowsLeft with
    | 0 => { worker with phase := .ended (.ok false) }
    | rowsLeft + 1 => { worker with rowsLeft := rowsLeft, phase := .polling }
  | _, _ => worker

/-- The worker will not look at its token again and has not failed. -/
def PastCancellation (worker : LoaderWorker) : Prop :=
  worker.phase = .ended (.ok false) ∨ worker.phase = .reading ∧ worker.rowsLeft = 0

variable {worker : LoaderWorker} {isCancelled : Bool} {error : Option String}

theorem run_jobId : (worker.run isCancelled error).jobId = worker.jobId := by
  unfold run
  repeat' split
  all_goals rfl

theorem run_cancelToken : (worker.run isCancelled error).cancelToken = worker.cancelToken := by
  unfold run
  repeat' split
  all_goals rfl

theorem run_rowsLeft (h : worker.rowsLeft = 0) : (worker.run isCancelled error).rowsLeft = 0 := by
  unfold run
  repeat' split
  all_goals first | exact h | simp_all

theorem past_run (h : (worker.run isCancelled error).PastCancellation) :
    worker.PastCancellation ∨ worker.rowsLeft = 0 ∧ isCancelled = false := by
  obtain ⟨jobId, sourceFile, targetTable, cancelToken, rowsLeft, phase⟩ := worker
  cases phase with
  | polling =>
    cases error with
    | some error => rcases h with hphase | ⟨hphase, -⟩ <;> cases hphase
    | none =>
      cases isCancelled with
      | true => rcases h with hphase | ⟨hphase, -⟩ <;> cases hphase
      | false =>
        rcases h with hphase | ⟨-, hzero⟩
        · cases hphase
        · exact .inr ⟨hzero, rfl⟩
  | reading =>
    cases error with
    | some error => rcases h with hphase | ⟨hphase, -⟩ <;> cases hphase
    | none =>
      cases rowsLeft with
      | zero => exact .inl (.inr ⟨rfl, rfl⟩)
      | succ rowsLeft => rcases h with hphase | ⟨hphase, -⟩ <;> cases hphase
  | ended result => exact .inl h
  | marked => exact .inl h

end LoaderWorker

/-! ## Calls -/

inductive Request where
  | registerJob (jobId name sourceFile targetTable : String)
  | startJob (jobId : String)
  | completeJob (jobId : String)
  | failJob (jobId error : String)
  | cancelJob (jobId : String)
  | shutdown
  deriving DecidableEq

/-- What is left of a call. -/
inductive Call where
  | entry (request : Request)
  | insert (state : LoaderJobState)
  | spawn (jobId sourceFile targetTable : String) (cancelToken : Nat)
  | storeHandle (jobId : String) (handle : Nat)
  | cancelJobs (cancelCount : Nat)
  | collectHandles (handles : List String)
  | waitFor (handles : List String) (awaited : Option Nat)

/-- What a step takes from outside: the time, the rows of the source file, the key that an iteration
comes to (none at its end), and whether the shutdown timeout is over. -/
structure Input where
  now : Nat
  rows : Nat
  key : Option String
  timedOut : Bool

inductive Action where
  | call (c : Nat) (request : Request)
  | advance (c : Nat) (input : Input)
  | work (w : Nat) (now : Nat) (error : Option String)

/-! ## The manager -/

/-- The manager's maps and limit, the tokens, the workers and the calls in progress; and for the
statements every write to the map with the value before, the registrations that gave `Ok`, and the
accepted cancellations, each with whether the job's worker had processed its last row then. -/
structure LoaderJobManager where
  jobs : BTreeMap String LoaderJobState
  taskHandles : BTreeMap String Nat
  maxConcurrentJobs : Nat
  tokens : Nat
  cancelledTokens : List Nat
  workers : List LoaderWorker
  calls : BTreeMap Nat Call
  writes : List (Option LoaderJobState × LoaderJobState)
  registered : List String
  accepted : List (String × Bool)

namespace LoaderJobManager

def new (maxConcurrentJobs : Nat) : LoaderJobManager where
  jobs := .empty
  taskHandles := .empty
  maxConcurrentJobs := maxConcurrentJobs
  tokens := 0
  cancelledTokens := []
  workers := []
  calls := .empty
  writes := []
  registered := []
  accepted := []

variable (m : LoaderJobManager)

/-- The count of `active_job_count`. -/
def activeJobCount : Nat := m.jobs.values.countP (·.status = .Running)

def put (jobId : String) (state : LoaderJobState) : LoaderJobManager :=
  { m with
    jobs := m.jobs.insert jobId state
    writes := (m.jobs.get jobId, state) :: m.writes }

/-- `if let Some(mut state) = self.jobs.get_mut(job_id)`. -/
def getMut (jobId : String) (f : LoaderJobState → LoaderJobState) : LoaderJobManager :=
  match m.jobs.get jobId with
  | none => m
  | some state => m.put jobId (f state)

def lastRowProcessed (jobId : String) : Bool :=
  m.workers.any fun worker => worker.jobId = jobId ∧ worker.rowsLeft = 0

def enter (input : Input) : Request → LoaderJobManager × Option Call
  | .registerJob jobId name sourceFile targetTable =>
    match m.jobs.get jobId with
    | some _ => (m, none)
    | none =>
      ({ m with tokens := m.tokens + 1 },
        some (.insert (.new jobId name sourceFile targetTable m.tokens input.now)))
  | .startJob jobId =>
    match m.jobs.get jobId with
    | none => (m, none)
    | some state =>
      if state.canStart then
        (m.put jobId (state.markStarted input.now),
          some (.spawn jobId state.sourceFile state.targetTable state.cancelToken))
      else (m, none)
  | .completeJob jobId => (m.getMut jobId (LoaderJobState.markCompleted input.now), none)
  | .failJob jobId error => (m.getMut jobId (LoaderJobState.markFailed error input.now), none)
  | .cancelJob jobId =>
    match m.jobs.get jobId with
    | none => (m, none)
    | some state =>
      if state.canCancel then
        ({ m with
            cancelledTokens := state.cancelToken :: m.cancelledTokens
            accepted := (jobId, m.lastRowProcessed jobId) :: m.accepted }, none)
      else (m, none)
  | .shutdown => (m, some (.cancelJobs 0))

def waitForTasks : List String → Option Nat → Option (LoaderJobManager × Option Call)
  | handles, some handle =>
    if m.workers[handle]?.all (·.phase = .marked) then some (m, some (.waitFor handles none))
    else none
  | [], none => some (m, none)
  | jobId :: handles, none =>
    some ({ m with taskHandles := m.taskHandles.remove jobId },
      some (.waitFor handles (m.taskHandles.get jobId)))

/-- The next step of a call, and what is left of it then; none where it has to wait. -/
def proceed (input : Input) : Call → Option (LoaderJobManager × Option Call)
  | .entry request => some (m.enter input request)
  | .insert state =>
    some ({ m.put state.jobId state with registered := state.jobId :: m.registered }, none)
  | .spawn jobId sourceFile targetTable cancelToken =>
    some ({ m with
      workers := m.workers ++ [⟨jobId, sourceFile, targetTable, cancelToken, input.rows, .polling⟩] },
      some (.storeHandle jobId m.workers.length))
  | .storeHandle jobId handle =>
    some ({ m with taskHandles := m.taskHandles.insert jobId handle }, none)
  | .cancelJobs cancelCount =>
    match input.key with
    | none => some (m, if cancelCount = 0 then none else some (.collectHandles []))
    | some jobId =>
      match m.jobs.get jobId with
      | none => none
      | some state =>
        if state.status = .Running then
          some ({ m with cancelledTokens := state.cancelToken :: m.cancelledTokens },
            some (.cancelJobs (cancelCount + 1)))
        else some (m, some (.cancelJobs cancelCount))
  | .collectHandles handles =>
    match input.key with
    | none => some (m, some (.waitFor handles none))
    | some jobId =>
      match m.taskHandles.get jobId with
      | none => none
      | some _ => some (m, some (.collectHandles (handles ++ [jobId])))
  | .waitFor handles awaited =>
    if input.timedOut then some (m, none) else m.waitForTasks handles awaited

def work (w : Nat) (worker : LoaderWorker) (now : Nat) (error : Option String) : LoaderJobManager :=
  match worker.phase with
  | .ended result =>
    { m.getMut worker.jobId (result.mark now) with
      workers := m.workers.set w { worker with phase := .marked } }
  | _ =>
    { m with
      workers := m.workers.set w (worker.run (worker.cancelToken ∈ m.cancelledTokens) error) }

def step : Action → Option LoaderJobManager
  | .call c request =>
    if (m.calls.get c).isSome then none
    else some { m with calls := m.calls.insert c (.entry request) }
  | .advance c input =>
    match m.calls.get c with
    | none => none
    | some call =>
      (m.proceed input call).map fun next =>
        { next.1 with calls := Pool.setCall m.calls c next.2 }
  | .work w now error =>
    match m.workers[w]? with
    | none => none
    | some worker => some (m.work w worker now error)

/-! ## The lifecycle -/

/-- A write puts a new job as pending, or moves a job along an edge of the state machine. -/
def Follows : Option LoaderJobState × LoaderJobState → Prop
  | (none, new) => new.status = .Pending
  | (some old, new) => old.SameJob new ∧ (new.status = old.status ∨ old.status.Leads new.status)

structure Lifecycle : Prop where
  follows : ∀ w ∈ m.writes, Follows w
  registeredOnce : m.registered.Nodup
  oneWorker : (m.workers.map (·.jobId)).Nodup
  limit : m.activeJobCount ≤ m.maxConcurrentJobs
  cancelled : ∀ jobId state, (jobId, false) ∈ m.accepted → m.jobs.get jobId = some state →
    state.status ≠ .Completed

/-- What a call does not look at. -/
def AllowedCall : Call → Prop
  | .insert state => m.jobs.get state.jobId = none
  | .entry (.startJob jobId) => ∀ state ∈ m.jobs.get jobId,
      state.status = .Pending → m.activeJobCount < m.maxConcurrentJobs
  | .entry (.completeJob jobId) => ∀ state ∈ m.jobs.get jobId,
      state.status = .Completed ∨ state.status = .Running ∧ (jobId, false) ∉ m.accepted
  | .entry (.failJob jobId _) => ∀ state ∈ m.jobs.get jobId,
      state.status = .Failed ∨ state.status = .Running
  | _ => True

/-- What the end of a worker's task does not look at. -/
def AllowedResult (jobId : String) : WorkerPhase → Prop
  | .ended result => ∀ state ∈ m.jobs.get jobId,
      state.status = result.status ∨ state.status = .Running
  | _ => True

def Allowed : Action → Prop
  | .call _ _ => True
  | .advance c _ => ∀ call ∈ m.calls.get c, m.AllowedCall call
  | .work w _ _ => ∀ worker ∈ m.workers[w]?, m.AllowedResult worker.jobId worker.phase

instance : ∀ call, Decidable (m.AllowedCall call)
  | .insert _ => inferInstanceAs (Decidable (_ = _))
  | .entry (.startJob _) => inferInstanceAs (Decidable (∀ _ ∈ m.jobs.get _, _ → _))
  | .entry (.completeJob _) => inferInstanceAs (Decidable (∀ _ ∈ m.jobs.get _, _ ∨ _ ∧ _ ∉ _))
  | .entry (.failJob _ _) => inferInstanceAs (Decidable (∀ _ ∈ m.jobs.get _, _ ∨ _))
  | .entry (.registerJob ..) | .entry (.cancelJob _) | .entry .shutdown | .spawn .. | .storeHandle ..
  | .cancelJobs _ | .collectHandles _ | .waitFor .. => inferInstanceAs (Decidable True)

instance (jobId : String) : ∀ phase, Decidable (m.AllowedResult jobId phase)
  | .ended _ => inferInstanceAs (Decidable (∀ _ ∈ m.jobs.get jobId, _ ∨ _))
  | .polling | .reading | .marked => inferInstanceAs (Decidable True)

instance : ∀ a, Decidable (m.Allowed a)
  | .call _ _ => inferInstanceAs (Decidable True)
  | .advance c _ => inferInstanceAs (Decidable (∀ _ ∈ m.calls.get c, m.AllowedCall _))
  | .work w _ _ => inferInstanceAs (Decidable (∀ _ ∈ m.workers[w]?, m.AllowedResult _ _))

/-! ## What single operations change -/

variable {m}

variable {state : LoaderJobState} {jobId : String}

theorem getMut_eq (h : m.jobs.get jobId = some state)
    (f : LoaderJobState → LoaderJobState) : m.getMut jobId f = m.put jobId (f state) := by
  rw [getMut, h]

theorem getMut_eq_self (h : m.jobs.get jobId = none)
    (f : LoaderJobState → LoaderJobState) : m.getMut jobId f = m := by
  rw [getMut, h]

theorem get_put (jobId : String) (state : LoaderJobState) (other : String) :
    (m.put jobId state).jobs.get other =
      if other = jobId then some state else m.jobs.get other :=
  BTreeMap.get_insert ..

theorem calls_getMut (jobId : String) (f : LoaderJobState → LoaderJobState) :
    (m.getMut jobId f).calls = m.calls := by
  unfold getMut
  split <;> rfl

theorem workers_getMut (jobId : String) (f : LoaderJobState → LoaderJobState) :
    (m.getMut jobId f).workers = m.workers := by
  unfold getMut
  split <;> rfl

theorem activeJobCount_put (m : LoaderJobManager) (jobId : String) (state : LoaderJobState) :
    (m.put jobId state).activeJobCount +
        (m.jobs.get jobId).elim 0 (fun old => if old.status = .Running then 1 else 0) =
      m.activeJobCount + if state.status = .Running then 1 else 0 := by
  have hcount := BTreeMap.countP_values_insert (·.status = .Running) m.jobs jobId state
  simp only [decide_eq_true_eq] at hcount
  exact hcount

theorem activeJobCount_start
    (hget : m.jobs.get jobId = some state) (hpending : state.status = .Pending) (now : Nat) :
    (m.put jobId (state.markStarted now)).activeJobCount = m.activeJobCount + 1 := by
  have hcount := activeJobCount_put m jobId (state.markStarted now)
  rw [hget, Option.elim_some, hpending, if_neg (by decide)] at hcount
  exact hcount

def Started (m : LoaderJobManager) (jobId : String) (cancelToken : Nat) : Prop :=
  ∃ state, m.jobs.get jobId = some state ∧ state.status ≠ .Pending ∧
    state.cancelToken = cancelToken

/-! ## The invariant -/

structure Invariant (m : LoaderJobManager) : Prop where
  lifecycle : m.Lifecycle
  registered : ∀ jobId, jobId ∈ m.registered ↔ ∃ state, m.jobs.get jobId = some state
  inserting : ∀ c state, m.calls.get c = some (.insert state) → state.status = .Pending
  spawning : ∀ c jobId sourceFile targetTable cancelToken,
    m.calls.get c = some (.spawn jobId sourceFile targetTable cancelToken) →
      m.Started jobId cancelToken ∧ jobId ∉ m.workers.map (·.jobId)
  spawningOnce : ∀ c c' jobId sourceFile sourceFile' targetTable targetTable' cancelToken cancelToken',
    m.calls.get c = some (.spawn jobId sourceFile targetTable cancelToken) →
      m.calls.get c' = some (.spawn jobId sourceFile' targetTable' cancelToken') → c = c'
  started : ∀ worker ∈ m.workers, m.Started worker.jobId worker.cancelToken
  past : ∀ worker ∈ m.workers, worker.PastCancellation →
    worker.rowsLeft = 0 ∧ (worker.jobId, false) ∉ m.accepted
  tokens : ∀ jobId processed, (jobId, processed) ∈ m.accepted →
    ∃ state, m.jobs.get jobId = some state ∧ state.cancelToken ∈ m.cancelledTokens

theorem invariant_new (maxConcurrentJobs : Nat) : (new maxConcurrentJobs).Invariant where
  lifecycle := {
    follows := fun _ hw => nomatch hw
    registeredOnce := List.nodup_nil
    oneWorker := List.nodup_nil
    limit := Nat.zero_le _
    cancelled := fun _ _ hmem => nomatch hmem }
  registered _ := iff_of_false (fun hmem => nomatch hmem) (fun h => nomatch h)
  inserting _ _ h := nomatch h
  spawning _ _ _ _ _ h := nomatch h
  spawningOnce _ _ _ _ _ _ _ _ _ h := nomatch h
  started _ hmem := nomatch hmem
  past _ hmem := nomatch hmem
  tokens _ _ hmem := nomatch hmem

/-! ## What keeps the invariant -/

namespace Invariant

theorem frame (h : m.Invariant) (taskHandles : BTreeMap String Nat) (tokens : Nat)
    {cancelledTokens : List Nat} (hcancelled : m.cancelledTokens ⊆ cancelledTokens) :
    Invariant { m with
      taskHandles := taskHandles, tokens := tokens, cancelledTokens := cancelledTokens } where
  lifecycle := ⟨h.lifecycle.follows, h.lifecycle.registeredOnce, h.lifecycle.oneWorker,
    h.lifecycle.limit, h.lifecycle.cancelled⟩
  registered := h.registered
  inserting := h.inserting
  spawning := h.spawning
  spawningOnce := h.spawningOnce
  started := h.started
  past := h.past
  tokens jobId processed hmem := by
    obtain ⟨state, hget, htoken⟩ := h.tokens jobId processed hmem
    exact ⟨state, hget, hcancelled htoken⟩

theorem setCall (h : m.Invariant) (c : Nat) {next : Option Call}
    (hinsert : ∀ state, next = some (.insert state) → state.status = .Pending)
    (hspawn : ∀ jobId sourceFile targetTable cancelToken,
      next = some (.spawn jobId sourceFile targetTable cancelToken) →
        m.Started jobId cancelToken ∧ jobId ∉ m.workers.map (·.jobId) ∧
          ∀ c' sourceFile' targetTable' cancelToken',
            m.calls.get c' ≠ some (.spawn jobId sourceFile' targetTable' cancelToken')) :
    Invariant { m with calls := Pool.setCall m.calls c next } where
  lifecycle := ⟨h.lifecycle.follows, h.lifecycle.registeredOnce, h.lifecycle.oneWorker,
    h.lifecycle.limit, h.lifecycle.cancelled⟩
  registered := h.registered
  inserting c' state hcall := by
    rw [Pool.get_setCall] at hcall
    split_ifs at hcall with heq
    · exact hinsert state hcall
    · exact h.inserting c' state hcall
  spawning c' jobId sourceFile targetTable cancelToken hcall := by
    rw [Pool.get_setCall] at hcall
    split_ifs at hcall with heq
    · exact (hspawn _ _ _ _ hcall).imp_right And.left
    · exact h.spawning c' _ _ _ _ hcall
  spawningOnce c₁ c₂ jobId _ _ _ _ _ _ hcall₁ hcall₂ := by
    rw [Pool.get_setCall] at hcall₁ hcall₂
    split_ifs at hcall₁ hcall₂ with heq₁ heq₂ heq₂
    · exact heq₁.trans heq₂.symm
    · exact ((hspawn _ _ _ _ hcall₁).2.2 c₂ _ _ _ hcall₂).elim
    · exact ((hspawn _ _ _ _ hcall₂).2.2 c₁ _ _ _ hcall₁).elim
    · exact h.spawningOnce c₁ c₂ jobId _ _ _ _ _ _ hcall₁ hcall₂
  started := h.started
  past := h.past
  tokens := h.tokens

theorem setQuiet (h : m.Invariant) (c : Nat) {next : Option Call}
    (hinsert : ∀ state, next ≠ some (.insert state))
    (hspawn : ∀ jobId sourceFile targetTable cancelToken,
      next ≠ some (.spawn jobId sourceFile targetTable cancelToken)) :
    Invariant { m with calls := Pool.setCall m.calls c next } :=
  h.setCall c (fun state hnext => (hinsert state hnext).elim)
    (fun _ _ _ _ hnext => (hspawn _ _ _ _ hnext).elim)

variable (h : m.Invariant)

include h

theorem put {registered : List String} (hfollows : Follows (m.jobs.get jobId, state))
    (hkeep : ∀ old, m.jobs.get jobId = some old →
      (old.status ≠ .Pending → state.status ≠ .Pending) ∧ state.cancelToken = old.cancelToken)
    (honce : registered.Nodup)
    (hregistered : ∀ other, other ∈ registered ↔ other = jobId ∨ other ∈ m.registered)
    (hlimit : (m.put jobId state).activeJobCount ≤ m.maxConcurrentJobs)
    (hcancelled : state.status = .Completed → (jobId, false) ∉ m.accepted) :
    Invariant { m.put jobId state with registered := registered } := by
  have hsome : ∀ other old, m.jobs.get other = some old →
      ∃ new, (m.put jobId state).jobs.get other = some new ∧
        (old.status ≠ .Pending → new.status ≠ .Pending) ∧ new.cancelToken = old.cancelToken := by
    intro other old hold
    rw [get_put]
    split_ifs with heq
    · exact ⟨state, rfl, hkeep old (heq ▸ hold)⟩
    · exact ⟨old, hold, id, rfl⟩
  have hstarted : ∀ other token, m.Started other token →
      (m.put jobId state).Started other token := by
    rintro other token ⟨old, hold, hne, htoken⟩
    obtain ⟨new, hnew, hpending, hsame⟩ := hsome other old hold
    exact ⟨new, hnew, hpending hne, hsame.trans htoken⟩
  exact {
    lifecycle := {
      follows := by
        intro w hw
        rcases List.mem_cons.mp hw with rfl | hw
        · exact hfollows
        · exact h.lifecycle.follows w hw
      registeredOnce := honce
      oneWorker := h.lifecycle.oneWorker
      limit := hlimit
      cancelled := by
        intro other new hmem hnew
        rw [get_put] at hnew
        split_ifs at hnew with heq
        · cases hnew
          subst heq
          exact fun hcompleted => hcancelled hcompleted hmem
        · exact h.lifecycle.cancelled other new hmem hnew }
    registered := by
      intro other
      show other ∈ registered ↔ ∃ new, (m.put jobId state).jobs.get other = some new
      rw [get_put, hregistered]
      split_ifs with heq
      · exact iff_of_true (.inl heq) ⟨state, rfl⟩
      · rw [or_iff_right heq]
        exact h.registered other
    inserting := h.inserting
    spawning := fun c other sourceFile targetTable cancelToken hcall =>
      (h.spawning c other sourceFile targetTable cancelToken hcall).imp_left (hstarted _ _)
    spawningOnce := h.spawningOnce
    started := fun worker hmem => hstarted _ _ (h.started worker hmem)
    past := h.past
    tokens := by
      intro other processed hmem
      obtain ⟨old, hold, htoken⟩ := h.tokens other processed hmem
      obtain ⟨new, hnew, -, hsame⟩ := hsome other old hold
      exact ⟨new, hnew, hsame ▸ htoken⟩ }

theorem putKnown {old : LoaderJobState} (hget : m.jobs.get jobId = some old)
    (hsame : old.SameJob state) (hpending : state.status ≠ .Pending)
    (hstatus : state.status = old.status ∨ old.status.Leads state.status)
    (hlimit : (m.put jobId state).activeJobCount ≤ m.maxConcurrentJobs)
    (hcancelled : state.status = .Completed → (jobId, false) ∉ m.accepted) :
    (m.put jobId state).Invariant := by
  refine h.put ?_ ?_ h.lifecycle.registeredOnce ?_ hlimit hcancelled
  · rw [hget]
    exact ⟨hsame, hstatus⟩
  · intro old' hget'
    cases Option.some.inj (hget.symm.trans hget')
    exact ⟨fun _ => hpending, hsame.cancelToken⟩
  · intro other
    refine ⟨.inr, fun hmem => hmem.elim (fun heq => ?_) id⟩
    rw [heq]
    exact (h.registered jobId).mpr ⟨old, hget⟩

theorem getMut_terminal {f : LoaderJobState → LoaderJobState} (status : LoaderJobStatus)
    (hf : ∀ state, (f state).status = status) (hterminal : status.isTerminal)
    (hsame : ∀ state : LoaderJobState, state.SameJob (f state))
    (hstatus : ∀ state, m.jobs.get jobId = some state →
      state.status = status ∨ state.status = .Running)
    (hcancelled : ∀ state, m.jobs.get jobId = some state → state.status = .Running →
      status = .Completed → (jobId, false) ∉ m.accepted) : (m.getMut jobId f).Invariant := by
  cases hget : m.jobs.get jobId with
  | none => rwa [getMut_eq_self hget]
  | some state =>
    rw [getMut_eq hget]
    refine h.putKnown hget (hsame state) ?_ ?_ ?_ ?_
    · rw [hf]
      rintro rfl
      cases hterminal
    · rw [hf]
      exact (hstatus state hget).imp Eq.symm fun hrunning => by rw [hrunning]; exact hterminal
    · have hnot : (f state).status ≠ .Running := by
        rw [hf]
        rintro rfl
        cases hterminal
      have hcount := activeJobCount_put m jobId (f state)
      rw [if_neg hnot] at hcount
      exact (Nat.le_of_add_right_le hcount.le).trans h.lifecycle.limit
    · intro hcompleted
      rw [hf] at hcompleted
      rcases hstatus state hget with hsame | hrunning
      · intro hmem
        exact h.lifecycle.cancelled jobId state hmem hget (hsame.trans hcompleted)
      · exact hcancelled state hget hrunning hcompleted

theorem insert (hstatus : state.status = .Pending) (hget : m.jobs.get state.jobId = none) :
    Invariant { m.put state.jobId state with registered := state.jobId :: m.registered } := by
  refine h.put ?_ ?_ (List.nodup_cons.mpr ⟨?_, h.lifecycle.registeredOnce⟩)
    (fun _ => List.mem_cons) ?_ ?_
  · rw [hget]
    exact hstatus
  · intro old hold
    rw [hget] at hold
    cases hold
  · intro hmem
    obtain ⟨old, hold⟩ := (h.registered state.jobId).mp hmem
    rw [hget] at hold
    cases hold
  · have hcount := activeJobCount_put m state.jobId state
    rw [hstatus, if_neg (by decide)] at hcount
    exact (Nat.le_of_add_right_le hcount.le).trans h.lifecycle.limit
  · rw [hstatus]
    exact nofun

theorem accept (hget : m.jobs.get jobId = some state) (hcan : state.canCancel)
    (htoken : state.cancelToken ∈ m.cancelledTokens) :
    Invariant { m with accepted := (jobId, m.lastRowProcessed jobId) :: m.accepted } where
  lifecycle := {
    follows := h.lifecycle.follows
    registeredOnce := h.lifecycle.registeredOnce
    oneWorker := h.lifecycle.oneWorker
    limit := h.lifecycle.limit
    cancelled := by
      intro other old hmem hold
      rcases List.mem_cons.mp hmem with heq | hmem
      · obtain ⟨rfl, -⟩ := Prod.mk.inj heq
        cases Option.some.inj (hget.symm.trans hold)
        intro hcompleted
        rw [LoaderJobState.canCancel, hcompleted] at hcan
        cases hcan
      · exact h.lifecycle.cancelled other old hmem hold }
  registered := h.registered
  inserting := h.inserting
  spawning := h.spawning
  spawningOnce := h.spawningOnce
  started := h.started
  past := by
    intro worker hworker hpast
    obtain ⟨hzero, hnot⟩ := h.past worker hworker hpast
    refine ⟨hzero, fun hmem => ?_⟩
    rcases List.mem_cons.mp hmem with heq | hmem
    · obtain ⟨hjob, hflag⟩ := Prod.mk.inj heq
      -- the worker has no row left, so the acceptance was recorded as too late
      have hprocessed : m.lastRowProcessed jobId = true :=
        List.any_eq_true.mpr ⟨worker, hworker, decide_eq_true ⟨hjob, hzero⟩⟩
      rw [hprocessed] at hflag
      cases hflag
    · exact hnot hmem
  tokens := by
    intro other processed hmem
    rcases List.mem_cons.mp hmem with heq | hmem
    · obtain ⟨rfl, -⟩ := Prod.mk.inj heq
      exact ⟨state, hget, htoken⟩
    · exact h.tokens other processed hmem

theorem addWorker {worker : LoaderWorker} (hstarted : m.Started worker.jobId worker.cancelToken)
    (hnot : worker.jobId ∉ m.workers.map (·.jobId))
    (hcalls : ∀ c sourceFile targetTable cancelToken,
      m.calls.get c ≠ some (.spawn worker.jobId sourceFile targetTable cancelToken))
    (hpast : ¬ worker.PastCancellation) :
    Invariant { m with workers := m.workers ++ [worker] } where
  lifecycle := {
    follows := h.lifecycle.follows
    registeredOnce := h.lifecycle.registeredOnce
    oneWorker := by
      rw [List.map_append, List.nodup_append_comm]
      exact List.nodup_cons.mpr ⟨hnot, h.lifecycle.oneWorker⟩
    limit := h.lifecycle.limit
    cancelled := h.lifecycle.cancelled }
  registered := h.registered
  inserting := h.inserting
  spawning c jobId sourceFile targetTable cancelToken hcall := by
    obtain ⟨hstarted', hnot'⟩ := h.spawning _ _ _ _ _ hcall
    refine ⟨hstarted', fun hmem => ?_⟩
    rw [List.map_append, List.mem_append] at hmem
    rcases hmem with hmem | hmem
    · exact hnot' hmem
    · cases List.mem_singleton.mp hmem
      exact hcalls _ _ _ _ hcall
  spawningOnce := h.spawningOnce
  started other hmem := by
    rcases List.mem_append.mp hmem with hmem | hmem
    · exact h.started other hmem
    · cases List.mem_singleton.mp hmem
      exact hstarted
  past other hmem hpast' := by
    rcases List.mem_append.mp hmem with hmem | hmem
    · exact h.past other hmem hpast'
    · cases List.mem_singleton.mp hmem
      exact absurd hpast' hpast
  tokens := h.tokens

omit h

theorem setWorker (h : m.Invariant) {w : Nat} {worker worker' : LoaderWorker}
    (hget : m.workers[w]? = some worker) (hjob : worker'.jobId = worker.jobId)
    (htoken : worker'.cancelToken = worker.cancelToken)
    (hpast : worker'.PastCancellation →
      worker'.rowsLeft = 0 ∧ (worker'.jobId, false) ∉ m.accepted) :
    Invariant { m with workers := m.workers.set w worker' } := by
  have hworker : worker ∈ m.workers := List.mem_of_getElem? hget
  have hjobs : (m.workers.set w worker').map (·.jobId) = m.workers.map (·.jobId) := by
    obtain ⟨hlt, hworker⟩ := List.getElem?_eq_some_iff.mp hget
    calc (m.workers.set w worker').map (·.jobId)
        = (m.workers.map (·.jobId)).set w worker.jobId := by rw [List.map_set, ← hjob]
      _ = (m.workers.set w worker).map (·.jobId) := List.map_set.symm
      _ = m.workers.map (·.jobId) := by rw [← hworker, List.set_getElem_self]
  have hmem : ∀ {other}, other ∈ m.workers.set w worker' → other ∈ m.workers ∨ other = worker' :=
    fun hother => List.mem_or_eq_of_mem_set hother
  exact {
    lifecycle := ⟨h.lifecycle.follows, h.lifecycle.registeredOnce,
      (congrArg List.Nodup hjobs).mpr h.lifecycle.oneWorker, h.lifecycle.limit,
      h.lifecycle.cancelled⟩
    registered := h.registered
    inserting := h.inserting
    spawning := fun c jobId sourceFile targetTable cancelToken hcall =>
      (h.spawning c jobId sourceFile targetTable cancelToken hcall).imp_right fun hnot =>
        hjobs ▸ hnot
    spawningOnce := h.spawningOnce
    started := by
      intro other hother
      rcases hmem hother with hold | rfl
      · exact h.started other hold
      · rw [hjob, htoken]
        exact h.started worker hworker
    past := by
      intro other hother hpast'
      rcases hmem hother with hold | rfl
      · exact h.past other hold hpast'
      · exact hpast hpast'
    tokens := h.tokens }

theorem token_of_accepted (h : m.Invariant) {worker : LoaderWorker} (hmem : worker ∈ m.workers)
    {processed : Bool} (haccepted : (worker.jobId, processed) ∈ m.accepted) :
    worker.cancelToken ∈ m.cancelledTokens := by
  obtain ⟨state, hget, htoken⟩ := h.tokens _ _ haccepted
  obtain ⟨state', hget', -, htoken'⟩ := h.started worker hmem
  cases Option.some.inj (hget.symm.trans hget')
  exact htoken' ▸ htoken

end Invariant

/-! ## One step -/

variable (h : m.Invariant)

include h

theorem Invariant.not_started (hget : m.jobs.get jobId = some state)
    (hpending : state.status = .Pending) :
    jobId ∉ m.workers.map (·.jobId) ∧ ∀ c sourceFile targetTable cancelToken,
      m.calls.get c ≠ some (.spawn jobId sourceFile targetTable cancelToken) := by
  have hnot : ∀ cancelToken, ¬ m.Started jobId cancelToken := by
    rintro cancelToken ⟨state', hget', hne, -⟩
    cases Option.some.inj (hget.symm.trans hget')
    exact hne hpending
  refine ⟨fun hmem => ?_, fun c sourceFile targetTable cancelToken hcall => ?_⟩
  · obtain ⟨worker, hworker, rfl⟩ := List.mem_map.mp hmem
    exact hnot _ (h.started worker hworker)
  · exact hnot _ (h.spawning c jobId sourceFile targetTable cancelToken hcall).1

theorem Invariant.start (hget : m.jobs.get jobId = some state) (hpending : state.status = .Pending)
    (hlimit : m.activeJobCount < m.maxConcurrentJobs) (now c : Nat) :
    Invariant { m.put jobId (state.markStarted now) with
      calls := Pool.setCall m.calls c
        (some (.spawn jobId state.sourceFile state.targetTable state.cancelToken)) } := by
  obtain ⟨hworker, hcalls⟩ := h.not_started hget hpending
  have hmarked : (m.put jobId (state.markStarted now)).Invariant := by
    refine h.putKnown hget (state.sameJob_markStarted now) nofun (.inr ?_) ?_ nofun
    · rw [hpending]
      rfl
    · rw [activeJobCount_start hget hpending]
      exact hlimit
  refine hmarked.setCall c nofun ?_
  intro other sourceFile targetTable cancelToken hspawn
  cases hspawn
  exact ⟨⟨state.markStarted now, by rw [get_put, if_pos rfl], nofun, rfl⟩, hworker, hcalls⟩

theorem Invariant.spawn {c : Nat} {jobId sourceFile targetTable : String} {cancelToken : Nat}
    (hcall : m.calls.get c = some (.spawn jobId sourceFile targetTable cancelToken)) (rows : Nat) :
    Invariant { m with
      workers := m.workers ++ [⟨jobId, sourceFile, targetTable, cancelToken, rows, .polling⟩]
      calls := Pool.setCall m.calls c (some (.storeHandle jobId m.workers.length)) } := by
  obtain ⟨hstarted, hnot⟩ := h.spawning c _ _ _ _ hcall
  have hquiet := @setQuiet _ h c (some (.storeHandle jobId m.workers.length)) nofun nofun
  refine hquiet.addWorker hstarted hnot ?_ (by rintro (hphase | ⟨hphase, -⟩) <;> cases hphase)
  intro c' sourceFile' targetTable' cancelToken' hcall'
  rw [Pool.get_setCall] at hcall'
  split_ifs at hcall' with heq
  · cases hcall'
  · exact heq (h.spawningOnce _ _ _ _ _ _ _ _ _ hcall' hcall)

theorem Invariant.enter {c : Nat} {request : Request}
    (hcall : m.calls.get c = some (.entry request)) {input : Input}
    (hok : m.Allowed (.advance c input)) :
    Invariant { (m.enter input request).1 with
      calls := Pool.setCall m.calls c (m.enter input request).2 } := by
  replace hok : m.AllowedCall (.entry request) := hok _ hcall
  cases request with
  | registerJob jobId name sourceFile targetTable =>
    rw [LoaderJobManager.enter]
    cases hget : m.jobs.get jobId with
    | some state => exact h.setQuiet c nofun nofun
    | none =>
      refine (h.frame m.taskHandles (m.tokens + 1) (List.Subset.refl _)).setCall c ?_ nofun
      intro state hstate
      cases hstate
      rfl
  | startJob jobId =>
    rw [LoaderJobManager.enter]
    cases hget : m.jobs.get jobId with
    | none => exact h.setQuiet c nofun nofun
    | some state =>
      simp only
      split_ifs with hcan
      · have hpending : state.status = .Pending := of_decide_eq_true hcan
        exact h.start hget hpending (hok state hget hpending) input.now c
      · exact h.setQuiet c nofun nofun
  | completeJob jobId =>
    have hmarked : (m.getMut jobId (LoaderJobState.markCompleted input.now)).Invariant := by
      refine h.getMut_terminal .Completed (fun _ => rfl) rfl
        (fun state => state.sameJob_markCompleted input.now) ?_ ?_
      · intro state hget
        exact (hok state hget).imp_right And.left
      · intro state hget hrunning _
        rcases hok state hget with hcompleted | ⟨-, hnot⟩
        · rw [hrunning] at hcompleted
          cases hcompleted
        · exact hnot
    have hdone := @Invariant.setQuiet _ hmarked c none nofun nofun
    rwa [calls_getMut] at hdone
  | failJob jobId error =>
    have hmarked : (m.getMut jobId (LoaderJobState.markFailed error input.now)).Invariant :=
      h.getMut_terminal .Failed (fun _ => rfl) rfl
        (fun state => state.sameJob_markFailed error input.now) hok (fun _ _ _ => nofun)
    have hdone := @Invariant.setQuiet _ hmarked c none nofun nofun
    rwa [calls_getMut] at hdone
  | cancelJob jobId =>
    rw [LoaderJobManager.enter]
    cases hget : m.jobs.get jobId with
    | none => exact h.setQuiet c nofun nofun
    | some state =>
      simp only
      split_ifs with hcan
      · exact ((h.frame m.taskHandles m.tokens (List.subset_cons_self state.cancelToken _)).accept hget hcan
          (List.mem_cons_self ..)).setQuiet c nofun nofun
      · exact h.setQuiet c nofun nofun
  | shutdown => exact h.setQuiet c nofun nofun

theorem Invariant.proceed {c : Nat} {call : Call} (hcall : m.calls.get c = some call)
    {input : Input} (hok : m.Allowed (.advance c input)) {next : LoaderJobManager × Option Call}
    (hnext : m.proceed input call = some next) :
    Invariant { next.1 with calls := Pool.setCall m.calls c next.2 } := by
  cases call with
  | entry request =>
    cases hnext
    exact h.enter hcall hok
  | insert state =>
    cases hnext
    exact (h.insert (h.inserting c state hcall) (hok _ hcall)).setQuiet c nofun nofun
  | spawn jobId sourceFile targetTable cancelToken =>
    cases hnext
    exact h.spawn hcall input.rows
  | storeHandle jobId handle =>
    cases hnext
    exact (h.frame _ m.tokens (List.Subset.refl _)).setQuiet c nofun nofun
  | cancelJobs cancelCount =>
    rw [LoaderJobManager.proceed] at hnext
    cases hkey : input.key with
    | none =>
      rw [hkey] at hnext
      cases hnext
      refine h.setQuiet c ?_ ?_ <;> split_ifs <;> exact nofun
    | some jobId =>
      simp only [hkey] at hnext
      cases hget : m.jobs.get jobId with
      | none =>
        rw [hget] at hnext
        cases hnext
      | some state =>
        simp only [hget] at hnext
        split_ifs at hnext with hrunning
        · cases hnext
          exact (h.frame m.taskHandles m.tokens
            (List.subset_cons_self state.cancelToken _)).setQuiet c nofun nofun
        · cases hnext
          exact h.setQuiet c nofun nofun
  | collectHandles handles =>
    rw [LoaderJobManager.proceed] at hnext
    cases hkey : input.key with
    | none =>
      rw [hkey] at hnext
      cases hnext
      exact h.setQuiet c nofun nofun
    | some jobId =>
      simp only [hkey] at hnext
      cases hget : m.taskHandles.get jobId with
      | none =>
        rw [hget] at hnext
        cases hnext
      | some handle =>
        rw [hget] at hnext
        cases hnext
        exact h.setQuiet c nofun nofun
  | waitFor handles awaited =>
    rw [LoaderJobManager.proceed] at hnext
    split_ifs at hnext with htimedOut
    · cases hnext
      exact h.setQuiet c nofun nofun
    · cases awaited with
      | some handle =>
        rw [waitForTasks] at hnext
        split_ifs at hnext
        cases hnext
        exact h.setQuiet c nofun nofun
      | none =>
        cases handles with
        | nil =>
          cases hnext
          exact h.setQuiet c nofun nofun
        | cons jobId handles =>
          cases hnext
          exact (h.frame _ m.tokens (List.Subset.refl _)).setQuiet c nofun nofun

open LoaderWorker

theorem Invariant.work {w : Nat} {worker : LoaderWorker} (hget : m.workers[w]? = some worker)
    {now : Nat} {error : Option String} (hok : m.Allowed (.work w now error)) :
    (m.work w worker now error).Invariant := by
  have hworker : worker ∈ m.workers := List.mem_of_getElem? hget
  replace hok := hok worker hget
  have hrun : Invariant { m with
      workers := m.workers.set w
        (worker.run (worker.cancelToken ∈ m.cancelledTokens) error) } := by
    refine h.setWorker hget run_jobId run_cancelToken fun hpast => ?_
    rw [run_jobId]
    rcases past_run hpast with hpast | ⟨hzero, hcancelled⟩
    · obtain ⟨hzero, hnot⟩ := h.past worker hworker hpast
      exact ⟨run_rowsLeft hzero, hnot⟩
    · refine ⟨run_rowsLeft hzero, fun haccepted => ?_⟩
      exact of_decide_eq_false hcancelled (h.token_of_accepted hworker haccepted)
  unfold LoaderJobManager.work
  cases hphase : worker.phase with
  | ended result =>
    rw [hphase] at hok
    have hmarked : (m.getMut worker.jobId (result.mark now)).Invariant := by
      refine h.getMut_terminal _ (result.status_mark now) result.isTerminal_status
        (result.sameJob_mark now) hok ?_
      intro state _ _ hcompleted
      have hresult : result = .ok false := by
        rcases result with error | cancelled
        · cases hcompleted
        · cases cancelled
          · rfl
          · cases hcompleted
      exact (h.past worker hworker (.inl (by rw [hphase, hresult]))).2
    have hdone := @setWorker _ hmarked w worker { worker with phase := .marked } (by rwa [workers_getMut]) rfl rfl (by
        rintro (hphase | ⟨hphase, -⟩) <;> cases hphase)
    rwa [workers_getMut] at hdone
  | polling => exact hrun
  | reading => exact hrun
  | marked => exact hrun

omit h

theorem Invariant.step {m' : LoaderJobManager} (h : m.Invariant) {a : Action} (hok : m.Allowed a)
    (hstep : m.step a = some m') : m'.Invariant := by
  cases a with
  | call c request =>
    rw [LoaderJobManager.step] at hstep
    split_ifs at hstep
    cases hstep
    exact @setCall _ h c (some (.entry request)) nofun nofun
  | advance c input =>
    rw [LoaderJobManager.step] at hstep
    cases hcall : m.calls.get c with
    | none =>
      rw [hcall] at hstep
      cases hstep
    | some call =>
      rw [hcall] at hstep
      obtain ⟨next, hnext, rfl⟩ := Option.map_eq_some_iff.mp hstep
      exact h.proceed hcall hok hnext
  | work w now error =>
    rw [LoaderJobManager.step] at hstep
    cases hget : m.workers[w]? with
    | none =>
      rw [hget] at hstep
      cases hstep
    | some worker =>
      rw [hget] at hstep
      cases hstep
      exact h.work hget hok

/-! ## What a step needs -/

theorem Follows.terminal {old new : LoaderJobState} (h : Follows (some old, new))
    (hterminal : new.status.isTerminal) : old.status = new.status ∨ old.status = .Running :=
  h.2.imp Eq.symm fun hleads => LoaderJobStatus.leads_isTerminal hleads hterminal

theorem Invariant.allowedCall (h : m.Invariant) {call : Call} {input : Input}
    {next : LoaderJobManager × Option Call} (hnext : m.proceed input call = some next)
    (hlifecycle : next.1.Lifecycle) : m.AllowedCall call := by
  cases call with
  | insert state =>
    cases hnext
    by_contra hne
    obtain ⟨old, hold⟩ := Option.ne_none_iff_exists'.mp hne
    exact (List.nodup_cons.mp hlifecycle.registeredOnce).1 ((h.registered _).mpr ⟨old, hold⟩)
  | entry request =>
    cases request with
    | startJob jobId =>
      intro state hget hpending
      have hcan : state.canStart := decide_eq_true hpending
      simp only [LoaderJobManager.proceed, LoaderJobManager.enter, Option.mem_def.mp hget, hcan,
        if_true, Option.some.injEq] at hnext
      subst hnext
      have hlimit : (m.put jobId (state.markStarted input.now)).activeJobCount ≤
          m.maxConcurrentJobs := hlifecycle.limit
      rw [activeJobCount_start hget hpending] at hlimit
      exact hlimit
    | completeJob jobId =>
      intro state hget
      simp only [LoaderJobManager.proceed, LoaderJobManager.enter, getMut_eq hget,
        Option.some.injEq] at hnext
      subst hnext
      have hfollows := hlifecycle.follows _ (List.mem_cons_self ..)
      rw [hget] at hfollows
      refine (hfollows.terminal rfl).imp_right fun hrunning => ⟨hrunning, fun hmem => ?_⟩
      refine hlifecycle.cancelled jobId (state.markCompleted input.now) hmem ?_ rfl
      rw [get_put, if_pos rfl]
    | failJob jobId error =>
      intro state hget
      simp only [LoaderJobManager.proceed, LoaderJobManager.enter, getMut_eq hget,
        Option.some.injEq] at hnext
      subst hnext
      have hfollows := hlifecycle.follows _ (List.mem_cons_self ..)
      rw [hget] at hfollows
      exact hfollows.terminal rfl
    | registerJob jobId name sourceFile targetTable => trivial
    | cancelJob jobId => trivial
    | shutdown => trivial
  | spawn jobId sourceFile targetTable cancelToken => trivial
  | storeHandle jobId handle => trivial
  | cancelJobs cancelCount => trivial
  | collectHandles handles => trivial
  | waitFor handles awaited => trivial

theorem allowedResult {w : Nat} {worker : LoaderWorker} {now : Nat} {error : Option String}
    (hlifecycle : (m.work w worker now error).Lifecycle) :
    m.AllowedResult worker.jobId worker.phase := by
  cases hphase : worker.phase with
  | ended result =>
    intro state hget
    simp only [LoaderJobManager.work, hphase, getMut_eq hget] at hlifecycle
    have hfollows := hlifecycle.follows _ (List.mem_cons_self ..)
    rw [hget] at hfollows
    have hterminal := hfollows.terminal (by
      rw [result.status_mark]
      exact result.isTerminal_status)
    rwa [result.status_mark] at hterminal
  | polling => trivial
  | reading => trivial
  | marked => trivial

theorem Invariant.allowed (h : m.Invariant) {a : Action} {m' : LoaderJobManager}
    (hstep : m.step a = some m') (hlifecycle : m'.Lifecycle) : m.Allowed a := by
  cases a with
  | call c request => trivial
  | advance c input =>
    intro call hcall
    rw [LoaderJobManager.step, Option.mem_def.mp hcall] at hstep
    obtain ⟨next, hnext, rfl⟩ := Option.map_eq_some_iff.mp hstep
    exact h.allowedCall hnext ⟨hlifecycle.follows, hlifecycle.registeredOnce, hlifecycle.oneWorker,
      hlifecycle.limit, hlifecycle.cancelled⟩
  | work w now error =>
    intro worker hget
    rw [LoaderJobManager.step, Option.mem_def.mp hget] at hstep
    cases hstep
    exact allowedResult hlifecycle

/-! ## Runs -/

/-- **The lifecycle of loader jobs.** In every run of the calls and workers of one manager, the
jobs follow their lifecycle in every state exactly when each step meets what the code leaves out. -/
theorem lifecycle_iff (maxConcurrentJobs : Nat) (as : List Action) {last : LoaderJobManager}
    (hexec : exec step (new maxConcurrentJobs) as = some last) :
    (∀ pre, pre <+: as → ∀ m, exec step (new maxConcurrentJobs) pre = some m → m.Lifecycle) ↔
      OkAlong step Allowed (new maxConcurrentJobs) as :=
  safety_iff_okAlong (I := Invariant) (fun _ h => h.lifecycle)
    (fun _ _ _ h hstep => ⟨h.allowed hstep, fun hok => h.step hok hstep⟩)
    (invariant_new maxConcurrentJobs) hexec

def lateCancellation : List Action :=
  let input : Input := ⟨0, 1, none, false⟩
  [.call 0 (.registerJob "load_1" "orders" "orders.csv" "ORDERS"), .advance 0 input,
    .advance 0 input, .call 1 (.startJob "load_1"), .advance 1 input, .advance 1 input,
    .advance 1 input, .work 0 0 none, .work 0 0 none, .work 0 0 none,
    .call 2 (.cancelJob "load_1"), .advance 2 input, .work 0 0 none, .work 0 0 none]

theorem lifecycle_lateCancellation : (exec step (new 1) lateCancellation).isSome ∧
    ∀ pre, pre <+: lateCancellation → ∀ m, exec step (new 1) pre = some m → m.Lifecycle := by
  have hruns : (exec step (new 1) lateCancellation).isSome := by decide
  exact ⟨hruns, (lifecycle_iff 1 lateCancellation (Option.some_get hruns).symm).mpr (by decide)⟩

def registeredTwice : List Action :=
  let input : Input := ⟨0, 1, none, false⟩
  [.call 0 (.registerJob "load_1" "orders" "orders.csv" "ORDERS"), .advance 0 input,
    .call 1 (.registerJob "load_1" "items" "items.csv" "ITEMS"), .advance 1 input,
    .advance 0 input, .call 2 (.startJob "load_1"), .advance 2 input, .advance 1 input]

theorem registeredTwice_not_lifecycle :
    ¬ ∀ (maxConcurrentJobs : Nat) (as pre : List Action), pre <+: as →
      ∀ m, exec step (new maxConcurrentJobs) pre = some m → m.Lifecycle := by
  intro h
  have hruns : (exec step (new 1) registeredTwice).isSome := by decide
  have hlifecycle := h 1 registeredTwice registeredTwice List.prefix_rfl _ (Option.some_get hruns).symm
  have htwice : ∀ hruns, ¬ ((exec step (new 1) registeredTwice).get hruns).registered.Nodup := by
    decide
  exact htwice hruns hlifecycle.registeredOnce

end LoaderJobManager

end Arcxa.Loader.Orchestration
