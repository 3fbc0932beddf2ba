import Arcxa.Engine.Persistence
import Arcxa.Lib.Text
import Arcxa.Lib.Transition

/-!
# Transaction boundaries of a batch job

`TransactionCoordinator` groups the files of a batch job into transactions: one for each file, one
for the job, or one for each `batchSize` files. In the last two modes commits are deferred; a full
batch is committed by the `beginTransaction` that follows it.
-/

namespace Arcxa.Engine

inductive TransactionState where
  | NotStarted
  | Active
  | Committed
  | RolledBack
  deriving DecidableEq

def TransactionState.Decided (state : TransactionState) : Prop :=
  state = .Committed ∨ state = .RolledBack

instance (state : TransactionState) : Decidable state.Decided := by
  unfold TransactionState.Decided
  infer_instance

structure TransactionInfo where
  transactionId : String
  state : TransactionState
  fileIds : List String
  startedAt : Option Time
  endedAt : Option Time
  error : Option String
  deriving DecidableEq

namespace TransactionInfo

def new (transactionId : String) : TransactionInfo where
  transactionId
  state := .NotStarted
  fileIds := []
  startedAt := none
  endedAt := none
  error := none

variable (txn : TransactionInfo)

def begin (now : Time) : TransactionInfo := { txn with state := .Active, startedAt := some now }

def addFile (fileId : String) : TransactionInfo := { txn with fileIds := txn.fileIds ++ [fileId] }

def commit (now : Time) : TransactionInfo := { txn with state := .Committed, endedAt := some now }

def rollback (error : String) (now : Time) : TransactionInfo :=
  { txn with state := .RolledBack, endedAt := some now, error := some error }

def started (transactionId fileId : String) (now : Time) : TransactionInfo :=
  ((new transactionId).begin now).addFile fileId

end TransactionInfo

inductive TransactionMode where
  | PerFile
  | AllOrNothing
  | Batched (batchSize : Nat)
  deriving DecidableEq

/-- What the coordinator reads of a `BatchJob`. -/
structure TransactionJob where
  jobId : String
  transactionMode : TransactionMode

namespace TransactionJob

variable (job : TransactionJob)

def fileTxn (fileId : String) : String := "txn_" ++ job.jobId ++ "_" ++ fileId

def allTxn : String := "txn_" ++ job.jobId ++ "_all"

def batchTxn (batch : Nat) : String := "txn_" ++ job.jobId ++ "_batch_" ++ toString batch

variable {job}

theorem fileTxn_inj {f g : String} (h : job.fileTxn f = job.fileTxn g) : f = g :=
  (String.append_right_inj _).mp h

theorem batchTxn_inj {m n : Nat} (h : job.batchTxn m = job.batchTxn n) : m = n :=
  natToString_inj ((String.append_right_inj _).mp h)

end TransactionJob

structure TransactionSummary where
  transactionMode : TransactionMode
  totalTransactions : Nat
  committed : Nat
  rolledBack : Nat
  transactions : List TransactionInfo

structure TransactionCoordinator where
  batchJob : TransactionJob
  transactions : BTreeMap String TransactionInfo
  currentTransactionId : Option String
  batchCounter : Nat
  currentBatchFiles : List String

namespace TransactionCoordinator

def new (batchJob : TransactionJob) : TransactionCoordinator where
  batchJob
  transactions := .empty
  currentTransactionId := none
  batchCounter := 0
  currentBatchFiles := []

variable (coordinator : TransactionCoordinator)

def put (id : String) (txn : TransactionInfo) : TransactionCoordinator :=
  { coordinator with transactions := coordinator.transactions.insert id txn }

/-- `if let Some(txn) = self.transactions.get_mut(id) { txn.add_file(file_id) }` -/
def addTo (id fileId : String) : TransactionCoordinator :=
  match coordinator.transactions.get id with
  | some txn => coordinator.put id (txn.addFile fileId)
  | none => coordinator

def settle (id : String) (decision : TransactionInfo → TransactionInfo) :
    Except String TransactionCoordinator :=
  match coordinator.transactions.get id with
  | some txn =>
    .ok (if txn.state = .Active then coordinator.put id (decision txn) else coordinator)
  | none => .error ("Transaction not found: " ++ id)

def commitTransactionInternal (id : String) (now : Time) : Except String TransactionCoordinator :=
  coordinator.settle id (·.commit now)

def rollbackTransaction (id error : String) (now : Time) : Except String TransactionCoordinator :=
  coordinator.settle id (·.rollback error now)

def closeBatch (now : Time) : Except String TransactionCoordinator :=
  let committed :=
    match coordinator.currentTransactionId with
    | some id => coordinator.commitTransactionInternal id now
    | none => .ok coordinator
  committed.map (fun coordinator =>
    { coordinator with
      currentBatchFiles := []
      batchCounter := coordinator.batchCounter + 1
      currentTransactionId := none })

/-- The file goes to the batch's transaction, which it opens where there is none. -/
def joinBatch (fileId : String) (now : Time) : String × TransactionCoordinator :=
  match coordinator.currentTransactionId with
  | some id =>
    (id,
      { coordinator.addTo id fileId with
        currentBatchFiles := coordinator.currentBatchFiles ++ [fileId] })
  | none =>
    let id := coordinator.batchJob.batchTxn coordinator.batchCounter
    (id,
      { coordinator.put id (.started id fileId now) with
        currentTransactionId := some id
        currentBatchFiles := coordinator.currentBatchFiles ++ [fileId] })

def beginTransaction (fileId : String) (now : Time) :
    Except String (String × TransactionCoordinator) :=
  match coordinator.batchJob.transactionMode with
  | .PerFile =>
    let id := coordinator.batchJob.fileTxn fileId
    .ok (id, coordinator.put id (.started id fileId now))
  | .AllOrNothing =>
    match coordinator.currentTransactionId with
    | some id => .ok (id, coordinator.addTo id fileId)
    | none =>
      let id := coordinator.batchJob.allTxn
      .ok (id, { coordinator.put id (.started id fileId now) with currentTransactionId := some id })
  | .Batched batchSize =>
    if batchSize ≤ coordinator.currentBatchFiles.length then
      (coordinator.closeBatch now).map (fun coordinator => coordinator.joinBatch fileId now)
    else
      .ok (coordinator.joinBatch fileId now)

def commitTransaction (id : String) (now : Time) : Except String TransactionCoordinator :=
  match coordinator.batchJob.transactionMode with
  | .PerFile => coordinator.commitTransactionInternal id now
  | .AllOrNothing => .ok coordinator
  | .Batched _ => .ok coordinator

def getSummary : TransactionSummary where
  transactionMode := coordinator.batchJob.transactionMode
  totalTransactions := coordinator.transactions.entries.length
  committed := coordinator.transactions.values.countP (·.state = .Committed)
  rolledBack := coordinator.transactions.values.countP (·.state = .RolledBack)
  transactions := coordinator.transactions.values

def decideCurrent (success : Bool) (error : String) (now : Time) :
    Except String TransactionCoordinator :=
  match coordinator.currentTransactionId with
  | some id =>
    if success then coordinator.commitTransactionInternal id now
    else coordinator.rollbackTransaction id error now
  | none => .ok coordinator

def finalize (overallSuccess : Bool) (now : Time) :
    Except String (TransactionSummary × TransactionCoordinator) :=
  match coordinator.batchJob.transactionMode with
  | .PerFile => .ok (coordinator.getSummary, coordinator)
  | .AllOrNothing =>
    (coordinator.decideCurrent overallSuccess "Batch job had failures - rolling back all changes"
      now).map (fun coordinator => (coordinator.getSummary, coordinator))
  | .Batched _ =>
    (coordinator.decideCurrent overallSuccess "Final batch had failures" now).map
      (fun coordinator => (coordinator.getSummary, coordinator))

end TransactionCoordinator

/-- A call made for a file of the job. -/
inductive TransactionCall where
  | begin (fileId : String) (now : Time)
  | commit (transactionId : String) (now : Time)
  | rollback (transactionId error : String) (now : Time)

def TransactionCall.Settles (id : String) : TransactionCall → Prop
  | .begin _ _ => False
  | .commit id' _ => id' = id
  | .rollback id' _ _ => id' = id

/-- The calls of a job, and its end. -/
inductive TransactionStep where
  | call (call : TransactionCall)
  | finalize (overallSuccess : Bool) (now : Time)

namespace TransactionCoordinator

def step (coordinator : TransactionCoordinator) : TransactionStep → TransactionCoordinator
  | .call (.begin fileId now) =>
    ((coordinator.beginTransaction fileId now).map (·.2)).toOption.getD coordinator
  | .call (.commit id now) => (coordinator.commitTransaction id now).toOption.getD coordinator
  | .call (.rollback id error now) =>
    (coordinator.rollbackTransaction id error now).toOption.getD coordinator
  | .finalize success now =>
    ((coordinator.finalize success now).map (·.2)).toOption.getD coordinator

def after (job : TransactionJob) (steps : List TransactionStep) : TransactionCoordinator :=
  steps.foldl step (new job)

/-- The steps of a job whose calls are `calls`. -/
def steps (calls : List TransactionCall) (success : Bool) (now : Time) : List TransactionStep :=
  calls.map .call ++ [.finalize success now]

/-- The boundaries that the coordinator promises for a job with these calls. -/
structure Boundaries (job : TransactionJob) (calls : List TransactionCall) (success : Bool)
    (now : Time) : Prop where
  /-- A file that was begun is, from then on, in the transaction that was returned for it. -/
  begun : ∀ before fileId moment mid,
    before ++ .call (.begin fileId moment) :: mid <+: steps calls success now →
      ∃ id coordinator, (after job before).beginTransaction fileId moment = .ok (id, coordinator) ∧
        ∃ txn, (after job (before ++ .call (.begin fileId moment) :: mid)).transactions.get id =
          some txn ∧ fileId ∈ txn.fileIds
  /-- An outcome never changes. -/
  kept : ∀ before mid, before ++ mid <+: steps calls success now → ∀ id txn,
    (after job before).transactions.get id = some txn → txn.state.Decided →
      ∃ txn', (after job (before ++ mid)).transactions.get id = some txn' ∧ txn'.state = txn.state
  /-- The job's end leaves no transaction open. -/
  closed : ∀ id txn, (after job (steps calls success now)).transactions.get id = some txn →
    txn.state ≠ .Active
  /-- One transaction for all files, committed only in the end and only when all went well. -/
  shared : job.transactionMode = .AllOrNothing → ∀ id txn,
    (after job (steps calls success now)).transactions.get id = some txn →
      id = job.allTxn ∧ (txn.state = .Committed → success = true)
  /-- No batch holds more files than one, or than the batch size. -/
  bounded : ∀ batchSize, job.transactionMode = .Batched batchSize → ∀ before,
    before <+: steps calls success now → ∀ id txn,
      (after job before).transactions.get id = some txn → txn.fileIds.length ≤ max 1 batchSize
  /-- What was rolled back for a file is not committed, where transactions hold several files. -/
  rolledBack : job.transactionMode ≠ .PerFile → ∀ before id error moment,
    before ++ [.call (.rollback id error moment)] <+: steps calls success now →
      (∃ coordinator, (after job before).rollbackTransaction id error moment = .ok coordinator) →
        ∀ txn, (after job (steps calls success now)).transactions.get id = some txn →
          txn.state ≠ .Committed

/-- A file is not begun again once its own transaction is decided, and a full batch is not rolled
back once the next one has committed it. -/
def InTime (coordinator : TransactionCoordinator) : TransactionStep → Prop
  | .call (.begin fileId _) => coordinator.batchJob.transactionMode = .PerFile →
    ∀ txn ∈ coordinator.transactions.get (coordinator.batchJob.fileTxn fileId), ¬ txn.state.Decided
  | .call (.commit _ _) => True
  | .call (.rollback id _ _) => (∃ b, coordinator.batchJob.transactionMode = .Batched b) →
    ∀ txn ∈ coordinator.transactions.get id, txn.state ≠ .Committed
  | .finalize _ _ => True

/-- A file with a transaction of its own is committed or rolled back after it was begun. -/
def AllSettled (job : TransactionJob) (calls : List TransactionCall) : Prop :=
  job.transactionMode = .PerFile → ∀ before fileId now rest,
    calls = before ++ .begin fileId now :: rest → ∃ call ∈ rest, call.Settles (job.fileTxn fileId)

end TransactionCoordinator

end Arcxa.Engine
