import Arcxa.Lib.Calls
import Arcxa.Engine.Actions

/-!
# The status of an execution

Whoever changes an execution reads its record, changes its copy and writes the copy back, and none
of them looks at what it overwrites: a run that goes on after an approval even keeps its copy until
the last action has run. A user may have stopped the execution in between, or the timeout of the
approval may have failed it. An execution keeps the terminal status it has reached, and its end is
dated when it has one, exactly when no such write lands on a terminal record with another status
(`final_iff`).
-/

namespace Arcxa.Engine

open WorkflowExecution

variable {A V J : Type}

/-! ## Calls in progress -/

/-- The requests of users to stop, pause, resume or abort an execution. -/
inductive UserRequest where
  | stop
  | pause
  | resume
  | abort
  deriving DecidableEq

namespace UserRequest

def allowed (execution : WorkflowExecution J) : UserRequest → Bool
  | stop => execution.canStop
  | pause => execution.canPause
  | resume => execution.canResume
  | abort => !execution.status.isTerminal

def status : UserRequest → ExecutionStatus
  | stop => .Stopped
  | pause => .Paused
  | resume => .Running
  | abort => .Aborted

end UserRequest

/-- What a call does after a write. -/
inductive AfterWrite (A J : Type) where
  | done
  | act (held : WorkflowExecution J) (plan : ResumePlan A J) (copy : ResumeCopy)
  | updateStatus (executionId : String) (status : ExecutionStatus)

/-- A call, at the next thing it does to the store. -/
inductive ExecutionCall (A J : Type) where
  /-- `execute_workflow_internal`: it saves a new record, runs a route of the workflow, and reads
  the record again. -/
  | execute (execution : WorkflowExecution J) (workflow : Workflow A J) (data : J)
  | executed (executionId : String) (workflow : Workflow A J) (data : J)
  /-- Both copies of `resume_execution`. -/
  | resume (executionId : String) (copy : ResumeCopy)
  | act (held : WorkflowExecution J) (plan : ResumePlan A J) (copy : ResumeCopy)
  /-- `fail_workflow_execution` of the timeout handler. -/
  | failTimedOut (executionId : String)
  | updateStatus (executionId : String) (status : ExecutionStatus)
  | setError (executionId : String) (error : String)
  /-- `mark_execution_stale`: `set_error` and then `update_status`. -/
  | markStale (executionId : String)
  | request (executionId : String) (request : UserRequest)
  /-- The write of a record. -/
  | write (execution : WorkflowExecution J) (after : AfterWrite A J)

def AfterWrite.next : AfterWrite A J → Option (ExecutionCall A J)
  | done => none
  | act held plan copy => some (.act held plan copy)
  | updateStatus executionId status => some (.updateStatus executionId status)

/-- What a step of a call meets: the clock, and the workflow store. -/
structure ExecutionMoment (A J : Type) where
  now : Time
  workflow : Option (Workflow A J)

/-- The records. For the statements only, the first terminal status of each execution. -/
structure Executions (J : Type) where
  records : BTreeMap String (WorkflowExecution J)
  ended : BTreeMap String ExecutionStatus

namespace Executions

def store (store : Executions J) (execution : WorkflowExecution J) : Executions J where
  records := store.records.insert execution.executionId execution
  ended :=
    if execution.status.isTerminal && (store.ended.get execution.executionId).isNone then
      store.ended.insert execution.executionId execution.status
    else store.ended

variable (handlers : Handlers A V J) (services : V)

/-- The context of `execute_workflow_internal`. -/
def batchContext (workflow : Workflow A J) (route : Route A J) (data : J) :
    ExecutionContext V J where
  workflowId := workflow.id
  routeId := route.id
  inputData := data
  services
  executionId := none
  actionIndex := 0
  approvalStore := false

/-- What `execute_workflow_internal` writes after the run of the first route. -/
def executed (store : Executions J) (executionId : String) (workflow : Workflow A J) (data : J)
    (now : Time) : Option (WorkflowExecution J) :=
  match workflow.routes.head? with
  | none => none
  | some route =>
    let (results, data) :=
      handlers.executeActions (batchContext services workflow route data) route.actions data
    (store.records.get executionId).bind fun execution =>
      execution.afterExecute results data route.actions.length now

/-- What `resume_execution` writes after the run of the remaining actions. -/
def acted (store : Executions J) (held : WorkflowExecution J) (plan : ResumePlan A J)
    (copy : ResumeCopy) (now : Time) : Option (WorkflowExecution J) :=
  let (results, data) :=
    handlers.executeActions (plan.context services held.executionId) plan.remaining plan.data
  held.afterResume copy (store.records.get held.executionId) plan results data now

/-- How `resume_execution` begins. -/
def resumed (execution : WorkflowExecution J) (copy : ResumeCopy)
    (moment : ExecutionMoment A J) : Option (ExecutionCall A J) :=
  match execution.planResume moment.workflow with
  | .error _ => none
  | .ok plan =>
    if plan.route.actions.length ≤ plan.resumeFrom then
      some (.write (execution.updateStatus .Completed moment.now) .done)
    else
      let running := execution.running moment.now
      some (.write running (.act running plan copy))

def afterRead (moment : ExecutionMoment A J) (execution : WorkflowExecution J) :
    ExecutionCall A J → Option (ExecutionCall A J)
  | .resume _ copy => resumed execution copy moment
  | .failTimedOut _ =>
    if execution.status = .Paused then
      some (.write ((execution.updateStatus .Failed moment.now).clearCheckpoint moment.now) .done)
    else none
  | .updateStatus _ status => some (.write (execution.updateStatus status moment.now) .done)
  | .setError _ error => some (.write (execution.setError error moment.now) .done)
  | .markStale executionId =>
    some (.write (execution.setError "Execution marked as stale after coordinator restart"
      moment.now) (.updateStatus executionId .Failed))
  | .request executionId request =>
    if request.allowed execution then some (.updateStatus executionId request.status) else none
  | _ => none

def reads : ExecutionCall A J → Option String
  | .resume executionId _ | .failTimedOut executionId | .updateStatus executionId _ |
    .setError executionId _ | .markStale executionId | .request executionId _ => some executionId
  | _ => none

def advance (store : Executions J) (call : ExecutionCall A J) (moment : ExecutionMoment A J) :
    Option (Executions J × Option (ExecutionCall A J)) :=
  match call with
  | .execute execution workflow data =>
    match executions.save store.records execution with
    | .error _ => some (store, none)
    | .ok _ => some (store.store execution, some (.executed execution.executionId workflow data))
  | .executed executionId workflow data =>
    some (store, (store.executed handlers services executionId workflow data moment.now).map
      fun execution => .write execution .done)
  | .act held plan copy =>
    some (store, (store.acted handlers services held plan copy moment.now).map
      fun execution => .write execution .done)
  | .write execution after =>
    match executions.update store.records execution with
    | .error _ => some (store, none)
    | .ok _ => some (store.store execution, after.next)
  | call =>
    some (store, (reads call).bind fun executionId =>
      (store.records.get executionId).bind fun execution => afterRead moment execution call)

def mayStart (_ : Pool (Executions J) (ExecutionCall A J)) : ExecutionCall A J → Bool
  | .execute execution _ _ => execution.status = .Pending ∧ execution.completedAt = none
  | .executed _ _ _ | .act _ _ _ | .write _ _ => false
  | _ => true

abbrev Step (A J : Type) := CallAction (ExecutionCall A J) (ExecutionMoment A J)

def step : Pool (Executions J) (ExecutionCall A J) → Step A J →
    Option (Pool (Executions J) (ExecutionCall A J)) :=
  Pool.step mayStart (advance handlers services)

def opened : Pool (Executions J) (ExecutionCall A J) := ⟨⟨.empty, .empty⟩, .empty⟩

/-! ## What is to hold -/

structure Final (store : Executions J) : Prop where
  /-- An execution has the terminal status that it had first. -/
  stays : ∀ executionId status, store.ended.get executionId = some status →
    ∃ execution, store.records.get executionId = some execution ∧ execution.status = status
  /-- Its end is dated when it has ended. -/
  dated : ∀ executionId execution, store.records.get executionId = some execution →
    execution.completedAt.isSome = execution.status.isTerminal

def KeepsEnd (p : Pool (Executions J) (ExecutionCall A J)) : Step A J → Prop
  | .start _ _ => True
  | .advance c _ => ∀ execution after, p.calls.get c = some (.write execution after) →
    ∀ stored, p.shared.records.get execution.executionId = some stored →
      stored.status.isTerminal → execution.status = stored.status

/-! ## The invariant -/

def endOf (execution : WorkflowExecution J) : Option ExecutionStatus :=
  if execution.status.isTerminal then some execution.status else none

structure Sound (store : Executions J) : Prop where
  keyed : executions.Keyed store.records
  dated : ∀ executionId execution, store.records.get executionId = some execution →
    execution.completedAt.isSome = execution.status.isTerminal
  ended : ∀ executionId,
    store.ended.get executionId = (store.records.get executionId).bind endOf

/-- A copy of a record. If its end is dated, the execution had ended when it was read, and has. -/
def Copied (store : Executions J) (execution : WorkflowExecution J) : Prop :=
  execution.completedAt.isSome →
    ∃ stored, store.records.get execution.executionId = some stored ∧ stored.status.isTerminal

/-- A record that is about to be written. -/
structure Fits (store : Executions J) (execution : WorkflowExecution J) : Prop where
  dated : execution.status.isTerminal → execution.completedAt.isSome
  copied : ¬ execution.status.isTerminal → store.Copied execution

def InHand (store : Executions J) : ExecutionCall A J → Prop
  | .execute execution _ _ => execution.status = .Pending ∧ execution.completedAt = none
  | .act held _ _ => store.Copied held
  | .write execution after =>
    store.Fits execution ∧ ∀ held plan copy, after = .act held plan copy → store.Copied held
  | _ => True

structure PoolSound (p : Pool (Executions J) (ExecutionCall A J)) : Prop where
  store : p.shared.Sound
  calls : ∀ c call, p.calls.get c = some call → p.shared.InHand call

section Records

variable {store : Executions J} {execution : WorkflowExecution J}

variable (h : store.Copied execution)

include h

theorem Copied.updateStatus (status : ExecutionStatus) (now : Time) :
    store.Fits (execution.updateStatus status now) where
  dated hterminal := by
    rw [status_updateStatus] at hterminal
    rw [completedAt_updateStatus, hterminal, Bool.or_true]
  copied hterminal hcompleted := by
    rw [status_updateStatus, Bool.not_eq_true] at hterminal
    rw [completedAt_updateStatus, hterminal, Bool.or_false] at hcompleted
    rw [executionId_updateStatus]
    exact h hcompleted

theorem Copied.running (now : Time) : store.Copied (execution.running now) :=
  (h.updateStatus .Running now).copied (by
    rw [WorkflowExecution.status_updateStatus]
    exact Bool.false_ne_true)

theorem Copied.pauseAt (paused : ActionResult J) (results : List (ActionResult J)) (data : J)
    (resumeFrom totalActions : Nat) (now : Time) :
    store.Fits (execution.pauseAt paused results data resumeFrom totalActions now) := by
  have hcheckpoint (index : Nat) (data : Checkpoint J) :
      store.Copied (execution.checkpoint index data now) := h
  exact (hcheckpoint _ _).updateStatus .Paused now

theorem Copied.afterExecute {results : List (ActionResult J)} {data : J} {totalActions : Nat}
    {now : Time} {execution' : WorkflowExecution J}
    (hafter : execution.afterExecute results data totalActions now = some execution') :
    store.Fits execution' := by
  rw [WorkflowExecution.afterExecute] at hafter
  split at hafter
  next paused _ =>
    have hfits := h.pauseAt paused results data 0 totalActions now
    exact Option.some.inj hafter ▸ ⟨hfits.dated, hfits.copied⟩
  next =>
    split_ifs at hafter
    have hfits := h.updateStatus .Completed now
    exact Option.some.inj hafter ▸ ⟨hfits.dated, hfits.copied⟩

omit h

theorem Fits.append (h : store.Fits execution) (copy : ResumeCopy)
    (results : List (ActionResult J)) : store.Fits (copy.append execution results) := by
  cases copy with
  | batch => exact ⟨h.dated, h.copied⟩
  | approval => exact h

theorem Copied.afterResume (h : store.Copied execution) {copy : ResumeCopy}
    {reread : Option (WorkflowExecution J)} (hreread : ∀ e, reread = some e → store.Copied e)
    {plan : ResumePlan A J} {results : List (ActionResult J)} {data : J} {now : Time}
    {execution' : WorkflowExecution J}
    (hafter : execution.afterResume copy reread plan results data now = some execution') :
    store.Fits execution' := by
  rw [WorkflowExecution.afterResume] at hafter
  split at hafter
  next paused _ =>
    obtain ⟨e, he, rfl⟩ := Option.map_eq_some_iff.mp hafter
    exact ((hreread e he).pauseAt paused results data _ _ now).append copy results
  next =>
    split_ifs at hafter
    · exact Option.some.inj hafter ▸ (h.updateStatus .Completed now).append copy results
    · exact Option.some.inj hafter ▸ h.updateStatus .Failed now

theorem Sound.copied (h : store.Sound) {executionId : String}
    (hget : store.records.get executionId = some execution) : store.Copied execution := by
  intro hcompleted
  have hid : execution.executionId = executionId := h.keyed executionId execution hget
  rw [h.dated executionId execution hget] at hcompleted
  exact ⟨execution, hid ▸ hget, hcompleted⟩

theorem Sound.final (h : store.Sound) : store.Final where
  stays executionId status hended := by
    rw [h.ended] at hended
    obtain ⟨execution, hget, hend⟩ := Option.bind_eq_some_iff.mp hended
    rw [endOf] at hend
    split_ifs at hend
    exact ⟨execution, hget, Option.some.inj hend⟩
  dated := h.dated

def KeepsEndOf (store : Executions J) (execution : WorkflowExecution J) : Prop :=
  ∀ stored, store.records.get execution.executionId = some stored →
    stored.status.isTerminal → execution.status = stored.status

theorem get_store (store : Executions J) (execution : WorkflowExecution J) (executionId : String) :
    (store.store execution).records.get executionId =
      if executionId = execution.executionId then some execution
      else store.records.get executionId :=
  BTreeMap.get_insert ..

theorem Sound.stored (h : store.Sound) (hfits : store.Fits execution)
    (hkeeps : store.KeepsEndOf execution) : (store.store execution).Sound where
  keyed := h.keyed.insert execution
  dated executionId stored hget := by
    rw [get_store] at hget
    split_ifs at hget with hid
    · cases hget
      cases hterminal : execution.status.isTerminal with
      | true => exact hfits.dated hterminal
      | false =>
        rw [← Bool.not_eq_true]
        intro hcompleted
        have hopen : ¬ execution.status.isTerminal := by simp [hterminal]
        obtain ⟨old, hold, hend⟩ := hfits.copied hopen hcompleted
        exact hopen (hkeeps old hold hend ▸ hend)
    · exact h.dated executionId stored hget
  ended executionId := by
    have hended := h.ended executionId
    rw [get_store]
    unfold Executions.store
    dsimp only
    split_ifs with hfirst hid hid
    · rw [Bool.and_eq_true] at hfirst
      rw [hid, BTreeMap.get_insert, if_pos rfl, Option.bind_some, endOf, if_pos hfirst.1]
    · rw [BTreeMap.get_insert, if_neg hid]
      exact hended
    · rw [Option.bind_some, endOf]
      subst hid
      by_cases hterminal : execution.status.isTerminal
      · rw [if_pos hterminal]
        rw [hterminal, Bool.true_and, Bool.not_eq_true, Option.isNone_eq_false_iff,
          Option.isSome_iff_exists] at hfirst
        obtain ⟨status, hstatus⟩ := hfirst
        rw [hstatus]
        rw [hstatus] at hended
        obtain ⟨old, hold, hend⟩ := Option.bind_eq_some_iff.mp hended.symm
        rw [endOf] at hend
        split_ifs at hend with hold'
        rw [hkeeps old hold hold', ← Option.some.inj hend]
      · rw [if_neg hterminal, hended]
        cases hold : store.records.get execution.executionId with
        | none => rfl
        | some old =>
          have hopen : ¬ old.status.isTerminal := fun hend =>
            hterminal (hkeeps old hold hend ▸ hend)
          exact if_neg hopen
    · exact hended

theorem Copied.stored {written : WorkflowExecution J} (h : store.Copied execution)
    (hkeeps : store.KeepsEndOf written) : (store.store written).Copied execution := by
  intro hcompleted
  obtain ⟨old, hold, hend⟩ := h hcompleted
  rw [get_store]
  split_ifs with hid
  · exact ⟨written, rfl, hkeeps old (hid ▸ hold) hend ▸ hend⟩
  · exact ⟨old, hold, hend⟩

variable {call : ExecutionCall A J}

theorem InHand.stored {written : WorkflowExecution J} (h : store.InHand call)
    (hkeeps : store.KeepsEndOf written) : (store.store written).InHand call := by
  cases call with
  | execute execution workflow data => exact h
  | act held plan copy => exact Copied.stored h hkeeps
  | write execution after =>
    exact ⟨⟨h.1.dated, fun hopen => (h.1.copied hopen).stored hkeeps⟩,
      fun held plan copy hafter => (h.2 held plan copy hafter).stored hkeeps⟩
  | _ => trivial

theorem Sound.keepsEndOf (h : store.Sound) (hfinal : (store.store execution).Final) :
    store.KeepsEndOf execution := by
  intro old hold hend
  have hended : store.ended.get execution.executionId = some old.status := by
    rw [h.ended, hold, Option.bind_some, endOf, if_pos hend]
  have hstill : (store.store execution).ended.get execution.executionId = some old.status := by
    unfold Executions.store
    rw [hended]
    simpa using hended
  obtain ⟨new, hnew, hstatus⟩ := hfinal.stays _ _ hstill
  rw [get_store, if_pos rfl] at hnew
  rw [Option.some.inj hnew, hstatus]

/-! ## The steps -/

theorem inHand_afterRead {moment : ExecutionMoment A J} {call call' : ExecutionCall A J}
    (h : store.Copied execution) (hnext : afterRead moment execution call = some call') :
    store.InHand call' := by
  cases call with
  | resume executionId copy =>
    rw [afterRead, resumed] at hnext
    split at hnext
    next => cases hnext
    next plan _ =>
      split_ifs at hnext
      · cases hnext
        exact ⟨h.updateStatus .Completed moment.now, fun _ _ _ hafter => (nomatch hafter)⟩
      · cases hnext
        have hrunning := h.running moment.now
        refine ⟨⟨fun hend => ?_, fun _ => hrunning⟩, fun held plan copy hafter => ?_⟩
        · have hstatus : (execution.running moment.now).status = .Running :=
            execution.status_updateStatus .Running moment.now
          rw [hstatus] at hend
          cases hend
        · cases hafter
          exact hrunning
  | failTimedOut executionId =>
    rw [afterRead] at hnext
    split_ifs at hnext
    cases hnext
    have hfits := h.updateStatus .Failed moment.now
    exact ⟨⟨hfits.dated, hfits.copied⟩, fun _ _ _ hafter => (nomatch hafter)⟩
  | updateStatus executionId status =>
    cases hnext
    exact ⟨h.updateStatus status moment.now, fun _ _ _ hafter => (nomatch hafter)⟩
  | setError executionId error =>
    cases hnext
    have herror : store.Copied { execution with error := some error } := h
    exact ⟨herror.updateStatus .Failed moment.now, fun _ _ _ hafter => (nomatch hafter)⟩
  | markStale executionId =>
    cases hnext
    have herror (error : String) : store.Copied { execution with error := some error } := h
    exact ⟨(herror _).updateStatus .Failed moment.now, fun _ _ _ hafter => (nomatch hafter)⟩
  | request executionId request =>
    rw [afterRead] at hnext
    split_ifs at hnext
    cases hnext
    trivial
  | execute execution workflow data => cases hnext
  | executed executionId workflow data => cases hnext
  | act held plan copy => cases hnext
  | write execution after => cases hnext

theorem inHand_next {after : AfterWrite A J}
    (h : ∀ held plan copy, after = .act held plan copy → store.Copied held)
    (hnext : after.next = some call) : store.InHand call := by
  cases after with
  | done => cases hnext
  | act held plan copy =>
    cases hnext
    exact h held plan copy rfl
  | updateStatus executionId status =>
    cases hnext
    trivial

variable {handlers : Handlers A V J} {services : V}

theorem Sound.executed (h : store.Sound) {executionId : String} {workflow : Workflow A J}
    {data : J} {now : Time}
    (hexecuted : store.executed handlers services executionId workflow data now =
      some execution) : store.Fits execution := by
  rw [Executions.executed] at hexecuted
  split at hexecuted
  next => cases hexecuted
  next route _ =>
    obtain ⟨read, hget, hafter⟩ := Option.bind_eq_some_iff.mp hexecuted
    exact (h.copied hget).afterExecute hafter

theorem Sound.acted (h : store.Sound) {held : WorkflowExecution J} (hheld : store.Copied held)
    {plan : ResumePlan A J} {copy : ResumeCopy} {now : Time}
    (hacted : store.acted handlers services held plan copy now = some execution) :
    store.Fits execution :=
  hheld.afterResume (fun _ hget => h.copied hget) hacted

theorem advance_cases {moment : ExecutionMoment A J} {store' : Executions J}
    {next : Option (ExecutionCall A J)} (hcall : store.InHand call) (hstore : store.Sound)
    (h : store.advance handlers services call moment = some (store', next)) :
    (∀ call', next = some call' → store.InHand call') ∧
    ((store' = store ∧ ∀ execution after, call = .write execution after →
        store.records.get execution.executionId = none) ∨
      ∃ execution, store' = store.store execution ∧ store.Fits execution ∧
        ((∃ workflow data, call = .execute execution workflow data) ∧
            store.records.get execution.executionId = none ∨
          ∃ after, call = .write execution after)) := by
  have hread : ∀ executionId, (∀ execution after, call ≠ .write execution after) →
      some (store, (store.records.get executionId).bind fun execution =>
        afterRead moment execution call) = some (store', next) →
      (∀ call', next = some call' → store.InHand call') ∧ store' = store ∧
        ∀ execution after, call = .write execution after →
          store.records.get execution.executionId = none := by
    intro executionId hwrite hsome
    obtain ⟨rfl, rfl⟩ := Prod.mk.inj (Option.some.inj hsome)
    refine ⟨fun call' hcall' => ?_, rfl, fun execution after hcall => absurd hcall (hwrite _ _)⟩
    obtain ⟨read, hget, hnext⟩ := Option.bind_eq_some_iff.mp hcall'
    exact inHand_afterRead (hstore.copied hget) hnext
  cases call with
  | execute execution workflow data =>
    rw [advance] at h
    split at h
    next =>
      cases h
      exact ⟨fun _ hnext => (nomatch hnext), .inl ⟨rfl, fun _ _ hwrite => (nomatch hwrite)⟩⟩
    next records hsave =>
      cases h
      refine ⟨fun call' hcall' => ?_, .inr ⟨execution, rfl, ⟨fun hend => ?_, fun _ hdate => ?_⟩,
        .inl ⟨⟨workflow, data, rfl⟩, (Entity.save_ok hsave).1⟩⟩⟩
      · cases hcall'
        trivial
      · rw [hcall.1] at hend
        cases hend
      · rw [hcall.2] at hdate
        cases hdate
  | executed executionId workflow data =>
    obtain ⟨rfl, rfl⟩ := Prod.mk.inj (Option.some.inj h)
    refine ⟨fun call' hcall' => ?_, .inl ⟨rfl, fun _ _ hwrite => (nomatch hwrite)⟩⟩
    obtain ⟨execution, hexecuted, rfl⟩ := Option.map_eq_some_iff.mp hcall'
    exact ⟨hstore.executed hexecuted, fun _ _ _ hafter => (nomatch hafter)⟩
  | act held plan copy =>
    obtain ⟨rfl, rfl⟩ := Prod.mk.inj (Option.some.inj h)
    refine ⟨fun call' hcall' => ?_, .inl ⟨rfl, fun _ _ hwrite => (nomatch hwrite)⟩⟩
    obtain ⟨execution, hacted, rfl⟩ := Option.map_eq_some_iff.mp hcall'
    exact ⟨hstore.acted hcall hacted, fun _ _ _ hafter => (nomatch hafter)⟩
  | write execution after =>
    rw [advance] at h
    split at h
    next e hupdate =>
      cases h
      refine ⟨fun _ hnext => (nomatch hnext), .inl ⟨rfl, fun execution' after' hwrite => ?_⟩⟩
      cases hwrite
      by_contra hsome
      obtain ⟨stored, hstored⟩ := Option.ne_none_iff_exists'.mp hsome
      rw [Entity.update_of_some (E := executions) hstored] at hupdate
      cases hupdate
    next records hupdate =>
      cases h
      exact ⟨fun call' hcall' => inHand_next hcall.2 hcall',
        .inr ⟨execution, rfl, hcall.1, .inr ⟨after, rfl⟩⟩⟩
  | resume executionId copy =>
    exact (hread executionId (fun _ _ => nofun) h).imp_right .inl
  | failTimedOut executionId =>
    exact (hread executionId (fun _ _ => nofun) h).imp_right .inl
  | updateStatus executionId status =>
    exact (hread executionId (fun _ _ => nofun) h).imp_right .inl
  | setError executionId error =>
    exact (hread executionId (fun _ _ => nofun) h).imp_right .inl
  | markStale executionId =>
    exact (hread executionId (fun _ _ => nofun) h).imp_right .inl
  | request executionId request =>
    exact (hread executionId (fun _ _ => nofun) h).imp_right .inl

theorem inHand_of_mayStart {p : Pool (Executions J) (ExecutionCall A J)}
    (h : mayStart p call = true) : store.InHand call := by
  cases call with
  | execute execution workflow data =>
    rw [mayStart, decide_eq_true_eq] at h
    exact h
  | executed executionId workflow data => cases h
  | act held plan copy => cases h
  | write execution after => cases h
  | _ => trivial

theorem PoolSound.step {p p' : Pool (Executions J) (ExecutionCall A J)} {action : Step A J}
    (h : PoolSound p) (hstep : Executions.step handlers services p action = some p') :
    (p'.shared.Final → KeepsEnd p action) ∧ (KeepsEnd p action → PoolSound p') := by
  cases action with
  | start c call =>
    obtain ⟨-, hstart, rfl⟩ := Pool.step_start hstep
    refine ⟨fun _ => trivial, fun _ => ⟨h.store, ?_⟩⟩
    show ∀ c' call', (Pool.setCall p.calls c (some call)).get c' = some call' →
      p.shared.InHand call'
    refine Pool.forall_setCall (fun call' heq => ?_) fun c' call' _ => h.calls c' call'
    exact Option.some.inj heq ▸ inHand_of_mayStart hstart
  | advance c moment =>
    obtain ⟨call, next, hcall, hadvance, hcalls⟩ := Pool.step_advance hstep
    obtain ⟨hnext, hcases⟩ := advance_cases (h.calls c call hcall) h.store hadvance
    have hbefore : ∀ c' call', p'.calls.get c' = some call' → p.shared.InHand call' :=
      hcalls ▸ Pool.forall_setCall hnext fun c' call' _ => h.calls c' call'
    rcases hcases with ⟨hsame, hunknown⟩ | ⟨execution, hstored, hfits, hwrote⟩
    · refine ⟨fun _ execution after hwrite stored hold => ?_, fun _ => ⟨hsame ▸ h.store, ?_⟩⟩
      · rw [hunknown execution after (Option.some.inj (hcall.symm.trans hwrite))] at hold
        cases hold
      · rw [hsame]
        exact hbefore
    · constructor
      · intro hfinal execution' after hwrite
        rw [hcall] at hwrite
        rcases hwrote with ⟨⟨workflow, data, rfl⟩, -⟩ | ⟨after', rfl⟩
        · cases hwrite
        · cases hwrite
          exact h.store.keepsEndOf (hstored ▸ hfinal)
      · intro hkeeps
        have hkeepsEnd : p.shared.KeepsEndOf execution := by
          rcases hwrote with ⟨-, hnew⟩ | ⟨after, rfl⟩
          · intro stored hold
            rw [hnew] at hold
            cases hold
          · exact hkeeps execution after hcall
        refine ⟨hstored ▸ h.store.stored hfits hkeepsEnd, fun c' call' hget => ?_⟩
        rw [hstored]
        exact (hbefore c' call' hget).stored hkeepsEnd

theorem sound_opened : PoolSound (opened : Pool (Executions J) (ExecutionCall A J)) where
  store :=
    { keyed := Entity.keyed_empty
      dated := fun _ _ hget => nomatch hget
      ended := fun _ => rfl }
  calls _ _ hget := nomatch hget

end Records

/-- Every execution keeps the terminal status that it has reached, and its end is dated when it has
one, exactly when no write lands on a terminal record with another status. -/
theorem final_iff (handlers : Handlers A V J) (services : V) (steps : List (Step A J))
    (p : Pool (Executions J) (ExecutionCall A J))
    (hrun : exec (step handlers services) opened steps = some p) :
    (∀ pre, pre <+: steps → ∀ q, exec (step handlers services) opened pre = some q →
        q.shared.Final) ↔
      OkAlong (step handlers services) KeepsEnd opened steps :=
  safety_iff_okAlong (P := fun q : Pool (Executions J) (ExecutionCall A J) => q.shared.Final)
    (fun _ h => h.store.final) (fun _ _ _ h hstep => h.step hstep) sound_opened hrun

/-! ## Two users -/

def idleHandlers : Handlers Unit Unit Unit where
  actionType _ := "Log"
  run _ _ data := (⟨"Log", .Success, 0, none, none⟩, data)
  run_ne_paused _ _ _ := nofun
  shouldSkipApproval _ _ _ := false
  skipped _ := ()
  requested _ := ()
  duration _ := 0

def sampleWorkflow : Workflow Unit Unit := ⟨"wf-1", "workflow", [⟨"route-1", "route", [.other ()]⟩]⟩

def sampleExecution : WorkflowExecution Unit := .new "exec-1" "wf-1" "workflow" () none 0

def atTime (now : Time) : ExecutionMoment Unit Unit := ⟨now, some sampleWorkflow⟩

def tooLate : List (Step Unit Unit) :=
  [.start 0 (.execute sampleExecution sampleWorkflow ()), .advance 0 (atTime 0),
    .advance 0 (atTime 1), .advance 0 (atTime 1),
    .start 1 (.request "exec-1" .stop), .advance 1 (atTime 2)]

theorem tooLate_final :
    ∃ p, exec (step idleHandlers ()) opened tooLate = some p ∧ p.shared.Final := by
  have hsome : (exec (step idleHandlers ()) opened tooLate).isSome := by decide
  obtain ⟨p, hrun⟩ := Option.isSome_iff_exists.mp hsome
  have hok : OkAlong (step idleHandlers ()) KeepsEnd opened tooLate := by
    refine .cons trivial rfl <| .cons ?_ rfl <| .cons ?_ rfl <| .cons ?_ rfl <|
      .cons trivial rfl <| .cons ?_ rfl trivial
    · intro execution after hcall
      cases hcall
    · intro execution after hcall
      cases hcall
    · intro execution after hcall stored hstored hend
      cases hcall
      cases hstored
      cases hend
    · intro execution after hcall
      cases hcall
  exact ⟨p, hrun, (final_iff idleHandlers () tooLate p hrun).mpr hok _ List.prefix_rfl p hrun⟩

def stoppedAndAborted : List (Step Unit Unit) :=
  [.start 0 (.execute sampleExecution sampleWorkflow ()), .advance 0 (atTime 0),
    .start 1 (.request "exec-1" .stop), .start 2 (.request "exec-1" .abort),
    .advance 1 (atTime 1), .advance 2 (atTime 1), .advance 1 (atTime 2), .advance 1 (atTime 2),
    .advance 2 (atTime 3), .advance 2 (atTime 3)]

/-- The execution is stopped, and then it is aborted. -/
theorem stopped_then_aborted : ¬ ∀ (A V J : Type) (handlers : Handlers A V J) (services : V)
    (steps : List (Step A J)) (p : Pool (Executions J) (ExecutionCall A J)),
    exec (step handlers services) opened steps = some p → p.shared.Final := by
  intro h
  have hend : ∃ p, exec (step idleHandlers ()) opened stoppedAndAborted = some p ∧
      p.shared.ended.get "exec-1" = some .Stopped ∧
      (p.shared.records.get "exec-1").map (·.status) = some .Aborted :=
    exists_exec _ (by decide) fun p _ hp => hp
  obtain ⟨p, hrun, hended, hstatus⟩ := hend
  obtain ⟨execution, hget, hstays⟩ :=
    (h Unit Unit Unit idleHandlers () stoppedAndAborted p hrun).stays _ _ hended
  rw [hget, Option.map_some, hstays] at hstatus
  cases hstatus

end Executions

end Arcxa.Engine
