import Arcxa.Lib.Transition
import Arcxa.Loader.DeadLetterQueue

/-!
# The loader worker

`LoaderWorker::run` reads a source row by row, buffers what it can process, loads full batches, and saves
its position as it goes; a later run of the job starts from there. The steps of a run lie between what
it does to the target, to the dead letter queue and to the checkpoint file, so that it may crash between
any two of them. Runs that return an error are not steps.
-/

namespace Arcxa.Loader

abbrev StringRecord := List String

/-! ## The reader -/

structure CsvError where
  rowNumber : Nat
  error : String

structure AsyncCsvReader where
  rowNumber : Nat
  errors : List CsvError

/-- The default of `AsyncCsvReaderConfig`, which the worker does not change. -/
def maxCsvErrors : Nat := 1000

namespace AsyncCsvReader

def skip (reader : AsyncCsvReader) (error : String) : AsyncCsvReader where
  rowNumber := reader.rowNumber + 1
  errors := reader.errors ++ [⟨reader.rowNumber + 1, error⟩]

def nextRow : List (Except String StringRecord) → AsyncCsvReader →
    Option (Option StringRecord × AsyncCsvReader)
  | [], reader => some (none, reader)
  | .ok record :: _, reader => some (some record, { reader with rowNumber := reader.rowNumber + 1 })
  | .error error :: lines, reader =>
    if maxCsvErrors ≤ (reader.skip error).errors.length then none
    else nextRow lines (reader.skip error)

def seekToRow (source : List (Except String StringRecord)) : Nat → AsyncCsvReader →
    Option AsyncCsvReader
  | 0, reader => some reader
  | target + 1, reader =>
    match nextRow (source.drop reader.rowNumber) reader with
    | some (some _, reader) => seekToRow source target reader
    | _ => none

end AsyncCsvReader

/-! ## The checkpoint -/

inductive LoadState where
  | NotStarted
  | Running
  | Completed
  | Failed
  | Aborted
  | Paused
  deriving DecidableEq

structure Checkpoint where
  currentRow : Nat
  rowsProcessed : Nat
  rowsFailed : Nat
  totalErrors : Nat
  state : LoadState

structure CheckpointConfig where
  checkpointIntervalRows : Nat
  maxRetries : Nat
  maxErrors : Nat
  autoResume : Bool

structure CheckpointManager where
  checkpoint : Checkpoint
  rowsSinceCheckpoint : Nat

namespace CheckpointManager

def new : CheckpointManager := ⟨⟨0, 0, 0, 0, .NotStarted⟩, 0⟩

def resume (checkpoint : Checkpoint) : Option CheckpointManager :=
  if checkpoint.state = .Completed then none else some ⟨checkpoint, 0⟩

def resumeOrCreate (config : CheckpointConfig) (file : Option Checkpoint) :
    Option CheckpointManager :=
  match file with
  | some checkpoint => if config.autoResume then resume checkpoint else some new
  | none => some new

variable (manager : CheckpointManager)

def recordSuccess (rowNumber : Nat) : CheckpointManager where
  checkpoint :=
    { manager.checkpoint with
      currentRow := rowNumber
      rowsProcessed := manager.checkpoint.rowsProcessed + 1 }
  rowsSinceCheckpoint := manager.rowsSinceCheckpoint + 1

def recordError (config : CheckpointConfig) : Option CheckpointManager :=
  if config.maxErrors ≤ manager.checkpoint.totalErrors + 1 then none
  else
    some { manager with
      checkpoint :=
        { manager.checkpoint with
          totalErrors := manager.checkpoint.totalErrors + 1
          rowsFailed := manager.checkpoint.rowsFailed + 1 } }

/-- `elapsed`: the interval's duration is over. -/
def shouldCheckpoint (config : CheckpointConfig) (elapsed : Bool) : Bool :=
  config.checkpointIntervalRows ≤ manager.rowsSinceCheckpoint ∨ elapsed

def save : CheckpointManager := ⟨{ manager.checkpoint with state := .Paused }, 0⟩

def finalize : Checkpoint := { manager.checkpoint with state := .Completed }


end CheckpointManager

def ErrorCategory.isTransient : ErrorCategory → Bool
  | .DatabaseConnection | .Timeout | .ResourceExhaustion => true
  | _ => false

/-! ## The run -/

structure LoaderWorkerConfig where
  batchSize : Nat
  checkpointConfig : CheckpointConfig

/-- `process_row_with_retries`, with what `process_row` gives at each attempt; an error is the category
of its message. -/
def processRowWithRetries (config : CheckpointConfig) : Nat → List (Except ErrorCategory StringRecord) →
    Option (Except ErrorCategory StringRecord)
  | _, [] => none
  | _, .ok row :: _ => some (.ok row)
  | retryCount, .error category :: attempts =>
    if category.isTransient ∧ retryCount < config.maxRetries then
      processRowWithRetries config (retryCount + 1) attempts
    else some (.error category)

/-- Where a run is: at the head of the loop, after a row that failed, before a full batch, before the
periodic checkpoint, or before the end. -/
inductive Phase where
  | head
  | failed
  | full
  | due
  | last
  deriving DecidableEq

/-- A run. The rows of the batch have their row numbers with them. -/
structure Worker where
  reader : AsyncCsvReader
  manager : CheckpointManager
  currentBatch : List (Nat × StringRecord)
  phase : Phase

/-- What was loaded and given to the dead letter queue so far, with row numbers, and the run. -/
structure System where
  file : Option Checkpoint
  loaded : List (Nat × StringRecord)
  deadLetters : List (Nat × StringRecord × ErrorCategory)
  worker : Option Worker

def System.init : System := ⟨none, [], [], none⟩

inductive Action where
  | start
  | cancel
  | crash
  | row (attempts : List (Except ErrorCategory StringRecord))
  | recordError
  | executeBatch
  | checkpoint (elapsed : Bool)
  | endOfFile
  | finalize

namespace System

variable (config : LoaderWorkerConfig) (source : List (Except String StringRecord))
variable (s : System) (worker : Worker)

def start : Option System := do
  let manager ← CheckpointManager.resumeOrCreate config.checkpointConfig s.file
  let reader ← AsyncCsvReader.seekToRow source manager.checkpoint.currentRow ⟨0, []⟩
  some { s with worker := some ⟨reader, manager, [], .head⟩ }

def cancel : System := { s with file := some worker.manager.save.checkpoint, worker := none }

def buffer (reader : AsyncCsvReader) (row : StringRecord) : System :=
  { s with
    worker := some
      { reader
        manager := worker.manager.recordSuccess reader.rowNumber
        currentBatch := worker.currentBatch ++ [(reader.rowNumber, row)]
        phase := if config.batchSize ≤ worker.currentBatch.length + 1 then .full else .due } }

def writeFailedRow (reader : AsyncCsvReader) (record : StringRecord) (category : ErrorCategory) :
    System :=
  { s with
    deadLetters := s.deadLetters ++ [(reader.rowNumber, record, category)]
    worker := some { worker with reader, phase := .failed } }

def row (attempts : List (Except ErrorCategory StringRecord)) : Option System :=
  match AsyncCsvReader.nextRow (source.drop worker.reader.rowNumber) worker.reader with
  | some (some record, reader) =>
    match processRowWithRetries config.checkpointConfig 0 attempts with
    | some (.ok row) => some (s.buffer config worker reader row)
    | some (.error category) => some (s.writeFailedRow worker reader record category)
    | none => none
  | _ => none

def recordError : Option System :=
  (worker.manager.recordError config.checkpointConfig).map fun manager =>
    { s with worker := some { worker with manager, phase := .due } }

def executeBatch : System :=
  { s with
    loaded := s.loaded ++ worker.currentBatch
    worker := some { worker with currentBatch := [], phase := .due } }

def checkpoint (elapsed : Bool) : System :=
  if worker.manager.shouldCheckpoint config.checkpointConfig elapsed then
    { s with
      file := some worker.manager.save.checkpoint
      worker := some { worker with manager := worker.manager.save, phase := .head } }
  else { s with worker := some { worker with phase := .head } }

def endOfFile : Option System :=
  match AsyncCsvReader.nextRow (source.drop worker.reader.rowNumber) worker.reader with
  | some (none, reader) =>
    some { s with
      loaded := s.loaded ++ worker.currentBatch
      worker := some { worker with reader, currentBatch := [], phase := .last } }
  | _ => none

def finalize : System := { s with file := some worker.manager.finalize, worker := none }

def step : Action → Option System
  | .start => if s.worker.isNone then s.start config source else none
  | .crash => s.worker.map fun _ => { s with worker := none }
  | .cancel => (running .head).map s.cancel
  | .row attempts => (running .head).bind fun worker => s.row config source worker attempts
  | .recordError => (running .failed).bind fun worker => s.recordError config worker
  | .executeBatch => (running .full).map s.executeBatch
  | .checkpoint elapsed => (running .due).map fun worker => s.checkpoint config worker elapsed
  | .endOfFile => (running .head).bind fun worker => s.endOfFile source worker
  | .finalize => (running .last).map s.finalize
where
  running (phase : Phase) : Option Worker := s.worker.filter (·.phase = phase)

def handled : List Nat := s.loaded.map Prod.fst ++ s.deadLetters.map Prod.fst

end System

end Arcxa.Loader
