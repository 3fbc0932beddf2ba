import Arcxa.Engine.Execution

/-!
# Running the actions of a route

The actions of a route are run one after the other on the same data until one of them pauses; the
ones that fail do not stop the run. An action pauses when it waits for an approval. What the other
actions do, and when an approval is skipped, are parameters (`Handlers`).
-/

namespace Arcxa.Engine

variable {A V J : Type}

/-! ## Actions -/

/-- `Action::WaitForApproval`. -/
structure WaitForApproval (J : Type) where
  approvalId : String
  approvalType : String
  approvalPayload : J
  timeoutSecs : Nat
  skipIf : Option String
  deriving DecidableEq

inductive Action (A J : Type) where
  | waitForApproval (wait : WaitForApproval J)
  | other (action : A)
  deriving DecidableEq

/-- What an action sees besides its data. `services` are the rule executor, the transformers and
the other connections of the context, and `approvalStore` says whether it has an approval store. -/
structure ExecutionContext (V J : Type) where
  workflowId : String
  routeId : String
  inputData : J
  services : V
  executionId : Option String
  actionIndex : Nat
  approvalStore : Bool

/-- What the actions do. -/
structure Handlers (A V J : Type) where
  /-- `action_type`. -/
  actionType : A → String
  /-- `execute_action` for the actions that do not wait, with the time it takes. -/
  run : ExecutionContext V J → A → J → ActionResult J × J
  /-- None of them pauses. -/
  run_ne_paused : ∀ context action data, (run context action data).1.status ≠ .Paused
  /-- `should_skip_approval`. -/
  shouldSkipApproval : String → J → ExecutionContext V J → Bool
  /-- What a skipped approval and a requested one give as their output, and how long they take. -/
  skipped : String → J
  requested : WaitForApproval J → J
  duration : WaitForApproval J → Nat

namespace Handlers

variable (handlers : Handlers A V J) (context : ExecutionContext V J)

def skipsOn (wait : WaitForApproval J) (data : J) : Option String :=
  wait.skipIf.filter fun condition => handlers.shouldSkipApproval condition data context

/-- `execute_wait_for_approval`. The request has a fresh id, so that it is saved. -/
def executeWaitForApproval (wait : WaitForApproval J) (data : J) :
    ActionStatus × Option String × Option J :=
  match handlers.skipsOn context wait data with
  | some condition =>
    (.Success, some ("Approval skipped (condition: " ++ condition ++ ")"),
      some (handlers.skipped condition))
  | none =>
    if !context.approvalStore then
      (.Failed, some "Approval store not configured - cannot create approval request", none)
    else
      match context.executionId with
      | none =>
        (.Failed, some "Execution ID not available - cannot create approval request", none)
      | some _ => (.Paused, none, some (handlers.requested wait))

/-- `execute_action`: the result, and the data afterwards. -/
def executeAction (action : Action A J) (data : J) : ActionResult J × J :=
  match action with
  | .waitForApproval wait =>
    let (status, error, output) := handlers.executeWaitForApproval context wait data
    (⟨"WaitForApproval", status, handlers.duration wait, error, output⟩, data)
  | .other action => handlers.run context action data

/-- `execute_actions`: the results, and the data afterwards. -/
def executeActions : List (Action A J) → J → List (ActionResult J) × J
  | [], data => ([], data)
  | action :: actions, data =>
    let (result, data) := handlers.executeAction context action data
    if result.status = .Paused then ([result], data)
    else
      let (results, data) := executeActions actions data
      (result :: results, data)

end Handlers

/-! ## Routes and workflows -/

structure Route (A J : Type) where
  id : String
  name : String
  actions : List (Action A J)

structure Workflow (A J : Type) where
  id : String
  name : String
  routes : List (Route A J)

/-! ## What becomes of an execution -/

def pausedResult (results : List (ActionResult J)) : Option (ActionResult J) :=
  results.find? fun result => result.status = .Paused

def failedResults (results : List (ActionResult J)) : List (ActionResult J) :=
  results.filter fun result => result.status = .Failed

namespace WorkflowExecution

variable (execution : WorkflowExecution J)

/-- The execution when the actions from `resumeFrom` on have paused, of `totalActions`. -/
def pauseAt (paused : ActionResult J) (results : List (ActionResult J)) (data : J)
    (resumeFrom totalActions : Nat) (now : Time) : WorkflowExecution J :=
  let checkpointIndex := resumeFrom + results.length - 1
  (execution.checkpoint checkpointIndex
    { pausedActionType := paused.actionType
      pausedActionOutput := paused.output
      intermediateData := some data
      totalActions
      executedActions := checkpointIndex + 1 } now).updateStatus .Paused now

/-- What `execute_workflow_internal` makes of the record that it reads after the run; nothing when
an action has failed. -/
def afterExecute (results : List (ActionResult J)) (data : J) (totalActions : Nat) (now : Time) :
    Option (WorkflowExecution J) :=
  match pausedResult results with
  | some paused =>
    some { execution.pauseAt paused results data 0 totalActions now with actionResults := results }
  | none =>
    if (failedResults results).isEmpty then
      some { execution.updateStatus .Completed now with actionResults := results }
    else none

end WorkflowExecution

/-- The two copies of `resume_execution`: the one of the batch executor, which appends the results
to those of the record, and the one that runs when an approval is granted, which does not. -/
inductive ResumeCopy where
  | batch
  | approval
  deriving DecidableEq

def ResumeCopy.append (copy : ResumeCopy) (execution : WorkflowExecution J)
    (results : List (ActionResult J)) : WorkflowExecution J :=
  match copy with
  | .batch => { execution with actionResults := execution.actionResults ++ results }
  | .approval => execution

/-- Where a resumed execution goes on. -/
structure ResumePlan (A J : Type) where
  workflowId : String
  route : Route A J
  resumeFrom : Nat
  data : J

namespace ResumePlan

variable (plan : ResumePlan A J)

def remaining : List (Action A J) := plan.route.actions.drop plan.resumeFrom

def context (services : V) (executionId : String) : ExecutionContext V J where
  workflowId := plan.workflowId
  routeId := plan.route.id
  inputData := plan.data
  services
  executionId := some executionId
  actionIndex := plan.resumeFrom
  approvalStore := false

end ResumePlan

namespace WorkflowExecution

variable (execution : WorkflowExecution J)

/-- The checks that both copies of `resume_execution` begin with. -/
def planResume (workflow : Option (Workflow A J)) : Except String (ResumePlan A J) :=
  if execution.status ≠ .Paused then
    .error ("Cannot resume execution " ++ execution.executionId ++ " - status is " ++
      execution.status.debug ++ ", expected Paused")
  else
    match execution.checkpointActionIndex with
    | none => .error ("No checkpoint found for paused execution " ++ execution.executionId)
    | some checkpointActionIndex =>
      match execution.checkpointData with
      | none => .error ("No checkpoint data found for execution " ++ execution.executionId)
      | some checkpoint =>
        match checkpoint.intermediateData with
        | none => .error "Checkpoint missing intermediate_data field"
        | some data =>
          match workflow with
          | none => .error ("Workflow not found: " ++ execution.workflowId)
          | some workflow =>
            match workflow.routes.head? with
            | none => .error "Workflow has no routes"
            | some route => .ok ⟨workflow.id, route, checkpointActionIndex + 1, data⟩

def running (now : Time) : WorkflowExecution J :=
  (execution.updateStatus .Running now).clearCheckpoint now

/-- What `resume_execution` writes after the run: over the record it reads then when the run has
paused again, else over the one it has kept. -/
def afterResume (copy : ResumeCopy) (reread : Option (WorkflowExecution J))
    (plan : ResumePlan A J) (results : List (ActionResult J)) (data : J) (now : Time) :
    Option (WorkflowExecution J) :=
  match pausedResult results with
  | some paused =>
    reread.map fun execution =>
      copy.append
        (execution.pauseAt paused results data plan.resumeFrom plan.route.actions.length now)
        results
  | none =>
    if (failedResults results).isEmpty then
      some (copy.append (execution.updateStatus .Completed now) results)
    else some (execution.updateStatus .Failed now)

end WorkflowExecution

end Arcxa.Engine
