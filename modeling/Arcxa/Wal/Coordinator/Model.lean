import Arcxa.Wal.System

/-!
# The WAL coordinator (`storage/wal/coordinator.rs`)

`WalCoordinator` runs two-phase commit for any number of transactions over one
`FileWal`. Each operation on a transaction takes the transaction's map entry for
writing and holds it across its awaits, so that two operations on one transaction never
overlap, while operations on different transactions interleave at every await. A
`Task` is an operation in progress, cut where it awaits:

* `append`: it is about to call the WAL;
* `reserved`: it holds LSNs and waits for the segment lock;
* `store` and `publish`: a commit whose record is logged writes its events to storage
  and then moves the watermark;
* `remove`: the operation has let go of the entry and is about to remove it. Whoever
  takes the entry in between finds a terminated transaction and does nothing.

The timeout handler calls `abort` like any other caller; when it fires is up to the
environment. So is every failure: of the disk-space check, of each write, of the
`fsync`, of the rotation that an `append` starts, of `write_batch` (after any number of
events) and of `commit_batch`. `stored` is a ghost field, the events that reached
storage.
-/

namespace Arcxa.Wal

inductive TransactionStatus where
  | Active | Preparing | Prepared | Committing | Committed | Aborting | Aborted
  deriving DecidableEq, Repr

structure StorageParticipant where
  storageType : StorageType
  prepared : Bool
  committed : Bool
  rollbackData : Option Bytes
  deriving DecidableEq, Repr

structure TransactionState (E : Type) where
  participants : List StorageParticipant
  entries : List (WalEntry E)
  lsns : List Nat
  status : TransactionStatus
  parentTx : Option Nat

/-- The name `{:?}` prints. -/
def StorageType.debugName : StorageType → String
  | .RocksDb => "RocksDb"
  | .Kafka => "Kafka"
  | .Parquet => "Parquet"
  | .Archive => "Archive"

/-! ## Operations and their WAL entries -/

/-- An operation with what it took from the transaction when it started. -/
inductive Operation (E : Type) where
  | Begin (now : UInt64)
  | AddLineage (events : List E) (parentTx : Option Nat) (now : UInt64)
  | Prepare (participants : List String) (now : UInt64)
  | Commit (commitLsn : Nat) (now : UInt64)
  | Abort (reason : String) (now : UInt64)

namespace Operation

variable {E : Type}

/-- The entries the operation appends for the transaction `txId`. -/
def entries (txId : Nat) : Operation E → List (WalEntry E)
  | .Begin now => [WalEntry.new 0 .TransactionBegin (.Transaction (.Begin txId 30000)) now]
  | .AddLineage events parentTx now =>
    events.map (fun event =>
      { WalEntry.lineage 0 event now with
        transaction := some
          { txId
            parentTxId := parentTx
            isolationLevel := .ReadCommitted
            participants := ["rocksdb", "kafka"] } })
  | .Prepare participants now =>
    [WalEntry.new 0 .TransactionPrepare (.Transaction (.Prepare txId participants)) now]
  | .Commit commitLsn now =>
    [WalEntry.new 0 .TransactionCommit (.Transaction (.Commit txId commitLsn)) now]
  | .Abort reason now =>
    [WalEntry.new 0 .TransactionAbort (.Transaction (.Abort txId reason)) now]

/-- `add_lineage` calls `append_batch`, the others `append`. -/
def isBatch : Operation E → Bool
  | .AddLineage .. => true
  | _ => false

end Operation

inductive Stage where
  | append
  | reserved (lsn : Nat)
  | store
  | publish
  | remove
  deriving DecidableEq, Repr

structure Task (E : Type) where
  op : Operation E
  stage : Stage

/-! ## State and actions -/

structure WalCoordinator (E : Type) where
  wal : FileWal E
  storage : Bool
  transactions : AList (fun _ : Nat => TransactionState E)
  nextTxId : Nat
  tasks : AList (fun _ : Nat => Task E)
  stored : List (Nat × E)

/-- A call on an existing transaction. -/
inductive Request (E : Type) where
  | addLineage (events : List E)
  | prepare
  | commit
  | abort (reason : String)

/-- The background work on the WAL. -/
inductive Background where
  | rotateLoad
  | rotateCreate (i : Nat) (createOk : Bool)
  | rotateSwap (i : Nat) (syncOk : Bool)
  | compactSelect
  | compactNext (copyOk removeOk : Bool)
  deriving DecidableEq, Repr

inductive CoordinatorAction (E : Type) where
  | connectStorage
  | beginTransaction (now : UInt64)
  | request (txId : Nat) (req : Request E) (now : UInt64)
  | reserve (txId : Nat) (available : Nat)
  | write (txId : Nat) (io : Nat → FileWal.IoOutcome) (syncOk rotateOk : Bool)
  | store (txId : Nat) (failedAfter : Option Nat)
  | publish (txId : Nat) (ok : Bool)
  | remove (txId : Nat)
  | background (work : Background)

variable {E : Type}

def FileWal.background (w : FileWal E) : Background → Option (FileWal E)
  | .rotateLoad => some w.rotateLoad
  | .rotateCreate i createOk => w.rotateCreate i createOk
  | .rotateSwap i syncOk => w.rotateSwap i syncOk
  | .compactSelect => some w.compactSelect
  | .compactNext copyOk removeOk => w.compactNext copyOk removeOk

namespace WalCoordinator

/-- `WalCoordinator::new` over a new WAL. -/
def new (config : WalConfig) : WalCoordinator E where
  wal := FileWal.new config
  storage := false
  transactions := ∅
  nextTxId := 1
  tasks := ∅
  stored := []

/-! ### Starting an operation -/

/-- What `add_lineage`, `prepare`, `commit` and `abort` check and change before they call the
WAL; `none` when they return at once. -/
def checkRequest (tx : TransactionState E) (now : UInt64) :
    Request E → Option (TransactionState E × Operation E)
  | .addLineage events =>
    if tx.status = .Active then some (tx, .AddLineage events tx.parentTx now) else none
  | .prepare =>
    if tx.status = .Active then
      some ({ tx with status := .Preparing },
        .Prepare (tx.participants.map (fun p => p.storageType.debugName)) now)
    else none
  | .commit =>
    if tx.status = .Prepared then
      some ({ tx with status := .Committing }, .Commit (tx.lsns.max?.getD 0) now)
    else none
  | .abort reason =>
    -- a transaction that failed to commit can still be aborted
    if tx.status = .Committed ∨ tx.status = .Aborted then none
    else some ({ tx with status := .Aborting }, .Abort reason now)

/-! ### Finishing an append -/

/-- The state `begin_transaction` creates. -/
def newTransaction (lsns : List Nat) : TransactionState E where
  participants := []
  entries := []
  lsns
  status := .Active
  parentTx := none

def addParticipant (participants : List StorageParticipant) (storageType : StorageType) :
    List StorageParticipant :=
  if participants.any (fun p => p.storageType = storageType) then participants
  else
    participants ++ [{ storageType, prepared := false, committed := false, rollbackData := none }]

/-- The transaction after `add_lineage` has logged its entries. -/
def lineageAdded (tx : TransactionState E) (entries : List (WalEntry E)) (lsns : List Nat) :
    TransactionState E :=
  { tx with
    entries := tx.entries ++ entries
    lsns := tx.lsns ++ lsns
    participants := addParticipant (addParticipant tx.participants .RocksDb) .Kafka }

/-- `prepare` on one participant. -/
def prepareParticipant (p : StorageParticipant) : StorageParticipant :=
  match p.storageType with
  | .RocksDb => { p with rollbackData := some [], prepared := true }
  | .Kafka => { p with prepared := true }
  | .Parquet => { p with prepared := true }
  | .Archive => p

/-- The transaction after `prepare` has logged its record. -/
def prepared (tx : TransactionState E) (lsns : List Nat) : TransactionState E :=
  let participants := tx.participants.map prepareParticipant
  { tx with
    lsns := tx.lsns ++ lsns
    participants
    status := if participants.all (fun p => p.prepared) then .Prepared else .Aborting }

/-- What each operation does once its append has returned `Ok`. -/
def complete (s : WalCoordinator E) (txId : Nat) (op : Operation E) (lsns : List Nat) :
    Option (WalCoordinator E) :=
  match op with
  | .Begin _ =>
    some { s with
      transactions := s.transactions.insert txId (newTransaction lsns)
      tasks := s.tasks.erase txId }
  | .AddLineage .. => do
    let tx ← s.transactions.lookup txId
    some { s with
      transactions := s.transactions.insert txId (lineageAdded tx (op.entries txId) lsns)
      tasks := s.tasks.erase txId }
  | .Prepare .. => do
    let tx ← s.transactions.lookup txId
    some { s with
      transactions := s.transactions.insert txId (prepared tx lsns)
      tasks := s.tasks.erase txId }
  | .Commit .. => some { s with tasks := s.tasks.insert txId { op, stage := .store } }
  | .Abort .. => do
    let tx ← s.transactions.lookup txId
    some { s with
      transactions := s.transactions.insert txId { tx with status := .Aborted }
      tasks := s.tasks.insert txId { op, stage := .remove } }

/-! ### Finishing a commit -/

def lineageEvents (tx : TransactionState E) : List E :=
  tx.entries.filterMap (fun e =>
    match e.payload with
    | .Lineage event => some event
    | _ => none)

def commitParticipants (tx : TransactionState E) : TransactionState E :=
  { tx with participants := tx.participants.map (fun p => { p with committed := true }) }

def endTask (s : WalCoordinator E) (txId : Nat) : WalCoordinator E :=
  { s with tasks := s.tasks.erase txId }

def setStage (s : WalCoordinator E) (txId : Nat) (task : Task E) (stage : Stage) :
    WalCoordinator E :=
  { s with tasks := s.tasks.insert txId { task with stage } }

variable (fmt : Format E)

/-- One atomic step of some operation or background worker. -/
def step (s : WalCoordinator E) : CoordinatorAction E → Option (WalCoordinator E)
  | .connectStorage => some { s with storage := true }
  | .beginTransaction now =>
    some { s with
      nextTxId := s.nextTxId + 1
      tasks := s.tasks.insert s.nextTxId { op := .Begin now, stage := .append } }
  | .request txId req now =>
    match s.transactions.lookup txId with
    | none => some s
    | some tx =>
      -- the map entry is taken as long as another operation works on the transaction
      if (s.tasks.lookup txId).isSome then none
      else
        match checkRequest tx now req with
        | none => some s
        | some (tx', op) =>
          some { s with
            transactions := s.transactions.insert txId tx'
            tasks := s.tasks.insert txId { op, stage := .append } }
  | .reserve txId available => do
    let task ← s.tasks.lookup txId
    guard (task.stage = .append)
    let entries := task.op.entries txId
    match FileWal.ensureSufficientDiskSpace s.wal.config available
        (entries.map (fun e => (e.toBytes fmt).length)).sum with
    | .error _ => some (s.endTask txId)
    | .ok () =>
      let (lsn, wal) := s.wal.fetchAdd entries.length
      some ({ s with wal }.setStage txId task (.reserved lsn))
  | .write txId io syncOk rotateOk => do
    let task ← s.tasks.lookup txId
    match task.stage with
    | .reserved lsn =>
      match FileWal.appendLocked fmt s.wal task.op.isBatch lsn (task.op.entries txId) io syncOk with
      | (.ok lsns, wal) =>
        -- `append` may have to rotate before it returns, and fails when that fails
        if task.op.isBatch || rotateOk then complete { s with wal } txId task.op lsns
        else some ({ s with wal }.endTask txId)
      | (.error _, wal) => some ({ s with wal }.endTask txId)
    | _ => none
  | .store txId failedAfter => do
    let task ← s.tasks.lookup txId
    guard (task.stage = .store)
    let tx ← s.transactions.lookup txId
    if s.storage then
      let events := lineageEvents tx
      match failedAfter with
      | some n =>
        -- an empty batch is not written at all
        if events.isEmpty then none
        else
          let stored := s.stored ++ (events.take n).map (fun e => (txId, e))
          some ({ s with stored }.endTask txId)
      | none =>
        let stored := s.stored ++ events.map (fun e => (txId, e))
        let transactions := s.transactions.insert txId (commitParticipants tx)
        some ({ s with stored, transactions }.setStage txId task .publish)
    else some (s.setStage txId task .publish)
  | .publish txId ok => do
    let task ← s.tasks.lookup txId
    guard (task.stage = .publish)
    let tx ← s.transactions.lookup txId
    if ok then
      let wal := s.wal.commitBatch tx.lsns
      let transactions := s.transactions.insert txId { tx with status := .Committed }
      some ({ s with wal, transactions }.setStage txId task .remove)
    else some (s.endTask txId)
  | .remove txId => do
    let task ← s.tasks.lookup txId
    guard (task.stage = .remove)
    some ({ s with transactions := s.transactions.erase txId }.endTask txId)
  | .background work => (s.wal.background work).map ({ s with wal := · })

end WalCoordinator

end Arcxa.Wal
