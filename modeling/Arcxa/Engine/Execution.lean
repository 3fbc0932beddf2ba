import Arcxa.Engine.Persistence

/-!
# Workflow executions

The record of one execution and what changes its status. `update_status` takes any status from any
status; it dates the end of the execution the first time the status is terminal, and never takes
that date back.
-/

namespace Arcxa.Engine

variable {J : Type}

/-! ## Statuses -/

inductive ExecutionStatus where
  | Pending
  | Running
  | Paused
  | Completed
  | Failed
  | Stopped
  | Aborted
  deriving DecidableEq

namespace ExecutionStatus

def isTerminal : ExecutionStatus → Bool
  | .Completed | .Failed | .Stopped | .Aborted => true
  | .Pending | .Running | .Paused => false

/-- The status as `{:?}` writes it. -/
def debug : ExecutionStatus → String
  | .Pending => "Pending"
  | .Running => "Running"
  | .Paused => "Paused"
  | .Completed => "Completed"
  | .Failed => "Failed"
  | .Stopped => "Stopped"
  | .Aborted => "Aborted"

end ExecutionStatus

inductive ActionStatus where
  | Success
  | Failed
  | Skipped
  | Paused
  deriving DecidableEq

/-! ## Records -/

structure ActionResult (J : Type) where
  actionType : String
  status : ActionStatus
  durationMs : Nat
  error : Option String
  output : Option J
  deriving DecidableEq

inductive LogLevel where
  | Debug
  | Info
  | Warning
  | Error
  deriving DecidableEq

structure ExecutionLog (J : Type) where
  timestamp : Time
  level : LogLevel
  stepId : Option String
  message : String
  details : Option J
  deriving DecidableEq

/-- The object that is stored when an execution pauses. `intermediateData` is what
`get("intermediate_data")` finds in it. -/
structure Checkpoint (J : Type) where
  pausedActionType : String
  pausedActionOutput : Option J
  intermediateData : Option J
  totalActions : Nat
  executedActions : Nat
  deriving DecidableEq

/-- `WorkflowExecution`; `J` is the type of JSON values. -/
structure WorkflowExecution (J : Type) where
  executionId : String
  workflowId : String
  workflowName : String
  status : ExecutionStatus
  input : J
  output : Option J
  matchedRoute : Option String
  matchedRouteName : Option String
  startedAt : Time
  updatedAt : Time
  completedAt : Option Time
  durationMs : Option Nat
  error : Option String
  logs : List (ExecutionLog J)
  triggeredBy : Option String
  checkpointActionIndex : Option Nat
  checkpointData : Option (Checkpoint J)
  actionResults : List (ActionResult J)
  deriving DecidableEq

namespace WorkflowExecution

variable (execution : WorkflowExecution J)

def new (executionId workflowId workflowName : String) (input : J) (triggeredBy : Option String)
    (now : Time) : WorkflowExecution J where
  executionId
  workflowId
  workflowName
  status := .Pending
  input
  output := none
  matchedRoute := none
  matchedRouteName := none
  startedAt := now
  updatedAt := now
  completedAt := none
  durationMs := none
  error := none
  logs := []
  triggeredBy
  checkpointActionIndex := none
  checkpointData := none
  actionResults := []

/-- Milliseconds between two times, rounded towards zero, as a `u64`. -/
def millisecondsBetween (start stop : Time) : Nat :=
  (((stop - start).tdiv 1000000) % 2 ^ 64).toNat

/-- The clock is read once for both dates. -/
def updateStatus (status : ExecutionStatus) (now : Time) : WorkflowExecution J :=
  let execution := { execution with status, updatedAt := now }
  if status.isTerminal && execution.completedAt.isNone then
    { execution with
      completedAt := some now
      durationMs := some (millisecondsBetween execution.startedAt now) }
  else execution

def addLog (log : ExecutionLog J) (now : Time) : WorkflowExecution J :=
  { execution with
    logs := execution.logs ++ [log]
    updatedAt := now }

def setError (error : String) (now : Time) : WorkflowExecution J :=
  { execution with error := some error }.updateStatus .Failed now

def canStop : Bool :=
  match execution.status with
  | .Pending | .Running | .Paused => true
  | _ => false

def canPause : Bool :=
  match execution.status with
  | .Running | .Pending => true
  | _ => false

def canResume : Bool := execution.status = .Paused

def checkpoint (actionIndex : Nat) (data : Checkpoint J) (now : Time) : WorkflowExecution J :=
  { execution with
    checkpointActionIndex := some actionIndex
    checkpointData := some data
    updatedAt := now }

def clearCheckpoint (now : Time) : WorkflowExecution J :=
  { execution with
    checkpointActionIndex := none
    checkpointData := none
    updatedAt := now }

@[simp] theorem executionId_updateStatus (status : ExecutionStatus) (now : Time) :
    (execution.updateStatus status now).executionId = execution.executionId := by
  unfold updateStatus
  dsimp only
  split_ifs <;> rfl

@[simp] theorem status_updateStatus (status : ExecutionStatus) (now : Time) :
    (execution.updateStatus status now).status = status := by
  unfold updateStatus
  dsimp only
  split_ifs <;> rfl

theorem completedAt_updateStatus (status : ExecutionStatus) (now : Time) :
    (execution.updateStatus status now).completedAt.isSome =
      (execution.completedAt.isSome || status.isTerminal) := by
  unfold updateStatus
  dsimp only
  split_ifs with hend <;> cases hcompleted : execution.completedAt <;> simp_all

end WorkflowExecution

/-! ## The store -/

def executions : Entity (WorkflowExecution J) := ⟨"WorkflowExecution", (·.executionId)⟩

/-- `get_required`. -/
def getRequiredExecution (records : BTreeMap String (WorkflowExecution J)) (executionId : String) :
    Except String (WorkflowExecution J) :=
  match records.get executionId with
  | none => .error ("Execution '" ++ executionId ++ "' not found")
  | some execution => .ok execution

end Arcxa.Engine
