import Arcxa.Wal.System
import Arcxa.Kafka.CircuitBreaker

/-!
# The durable Kafka sink

`send_with_durability` writes an event to the WAL, tracks it as pending, and sends it to Kafka
through the circuit breaker. Kafka's acknowledgment removes the pending record and commits the
LSN; a send that fails, or that the breaker refuses, leaves the record pending and the call
returns `Ok`.

The call is cut where other calls can run in between; `sendWithDurability` puts the pieces
together for a call that runs alone. What the environment decides is in `SendEnv`. Event ids
are numbered in the order in which they are drawn, so that no two are equal.
-/

namespace Arcxa.Wal.FileWal

variable {E : Type} (fmt : Format E)

/-! ## The WAL for one caller -/

/-- `FileWal::new` on a directory with files in it: segment 0 is opened again, and the LSNs start
again at 0. -/
def openOn (config : WalConfig) (disk : Disk) : FileWal E :=
  { new config with disk := createFile config disk 0 }

/-- How the environment answers an `append`: the free disk space, the write, the `fsync`, and,
if the segment is due for rotation, the creation of the next one and the `fsync` of this one. -/
structure AppendEnv where
  available : Nat
  io : IoOutcome
  fsyncOk : Bool
  rotation : Option (Bool × Bool)

/-- `rotate_internal` without another task in between. -/
def rotateInternal (w : FileWal E) (createOk syncOk : Bool) : Bool × FileWal E :=
  let i := w.rotations.length
  let created := (w.rotateLoad.rotateCreate i createOk).getD w
  if createOk then (syncOk, (created.rotateSwap i syncOk).getD created) else (false, created)

/-- `append` without another task in between. -/
def append (w : FileWal E) (entry : WalEntry E) (env : AppendEnv) :
    Except WalError Nat × FileWal E :=
  match ensureSufficientDiskSpace w.config env.available (entry.toBytes fmt).length with
  | .error err => (.error err, w)
  | .ok () =>
    let (lsn, w) := w.fetchAdd 1
    match appendLocked fmt w false lsn [entry] (fun _ => env.io) env.fsyncOk with
    | (.error err, w) => (.error err, w)
    | (.ok _, w) =>
      match env.rotation with
      | none => (.ok lsn, w)
      | some (createOk, syncOk) =>
        match w.rotateInternal createOk syncOk with
        | (true, w) => (.ok lsn, w)
        | (false, w) => (.error .Io, w)

end Arcxa.Wal.FileWal

namespace Arcxa.Kafka

open Arcxa.Wal

variable {E : Type}

/-! ## The acknowledgment tracker -/

structure PendingAck (E : Type) where
  eventId : Nat
  lsn : Nat
  event : E
  writtenAt : Nat
  partition : Option Int
  offset : Option Int
  retryCount : Nat
  deriving DecidableEq

structure AckTrackingConfig where
  ackRetention : Nat
  maxPending : Nat

/-- `acknowledged` has the time and the LSN of each acknowledgment. -/
structure AcknowledgmentTracker (E : Type) where
  pending : AList (fun _ : Nat => PendingAck E)
  acknowledged : AList (fun _ : Nat => Nat × Nat)

namespace AcknowledgmentTracker

def new : AcknowledgmentTracker E where
  pending := ∅
  acknowledged := ∅

def trackPending (t : AcknowledgmentTracker E) (now eventId lsn : Nat) (event : E) :
    AcknowledgmentTracker E :=
  { t with
    pending := t.pending.insert eventId
      { eventId, lsn, event, writtenAt := now, partition := none, offset := none,
        retryCount := 0 } }

/-- `mark_acknowledged`, up to the commit: the LSN to commit, if the event was pending. -/
def markAcknowledged (t : AcknowledgmentTracker E) (now eventId : Nat) :
    Option Nat × AcknowledgmentTracker E :=
  match t.pending.lookup eventId with
  | some ack =>
    (some ack.lsn,
      { pending := t.pending.erase eventId
        acknowledged := t.acknowledged.insert eventId (now, ack.lsn) })
  | none => (none, t)

def markFailed (t : AcknowledgmentTracker E) (eventId : Nat) : AcknowledgmentTracker E :=
  match t.pending.lookup eventId with
  | some ack =>
    { t with
      pending := t.pending.insert eventId { ack with retryCount := ack.retryCount + 1 } }
  | none => t

def isAcknowledged (t : AcknowledgmentTracker E) (eventId : Nat) : Bool :=
  (t.acknowledged.lookup eventId).isSome

def getPending (t : AcknowledgmentTracker E) : List (PendingAck E) :=
  t.pending.entries.map (fun p => p.2)

def pendingCount (t : AcknowledgmentTracker E) : Nat := t.pending.entries.length

def isAtCapacity (config : AckTrackingConfig) (t : AcknowledgmentTracker E) : Bool :=
  config.maxPending ≤ t.pendingCount

def cleanupAcknowledged (config : AckTrackingConfig) (now : Nat) (t : AcknowledgmentTracker E) :
    AcknowledgmentTracker E :=
  { t with
    acknowledged :=
      ⟨t.acknowledged.entries.filter (fun p => now - config.ackRetention ≤ p.2.1),
        t.acknowledged.nodupKeys.sublist List.filter_sublist⟩ }

end AcknowledgmentTracker

/-! ## The sink -/

structure DurableKafkaLineageSink (E : Type) where
  wal : FileWal E
  ackTracker : AcknowledgmentTracker E
  circuitBreaker : CircuitBreaker
  now : Nat
  /-- The event ids drawn so far. -/
  drawn : Nat
  /-- The events Kafka has accepted, in order. -/
  sent : List E

/-- How the environment answers one `send_with_durability`. `kafka` is the partition and the
offset, or `none` if the send fails. -/
structure SendEnv where
  timestampUs : UInt64
  append : FileWal.AppendEnv
  syncOk : Bool
  kafka : Option (Int × Int)
  sendTime : Nat

namespace DurableKafkaLineageSink

/-- A new process on the WAL directory `disk`. Event ids and what Kafka has accepted outlive the
process. -/
def new (walConfig : WalConfig) (disk : Disk) (now drawn : Nat) (sent : List E) :
    DurableKafkaLineageSink E where
  wal := FileWal.openOn walConfig disk
  ackTracker := .new
  circuitBreaker := .new
  now
  drawn
  sent

variable (fmt : Format E) (config : AckTrackingConfig)

def beginSend (s : DurableKafkaLineageSink E) : Nat × DurableKafkaLineageSink E :=
  let s' := { s with drawn := s.drawn + 1 }
  (s.drawn, if s.ackTracker.isAtCapacity config then { s' with now := s.now + 100 } else s')

/-- The entry that `write_to_wal` appends. -/
def walEntry (event : E) (timestampUs : UInt64) : WalEntry E :=
  WalEntry.new 0 .KafkaPublish (.Lineage event) timestampUs

/-- Step 4. -/
def writeToWal (s : DurableKafkaLineageSink E) (event : E) (env : SendEnv) :
    Except WalError Nat × DurableKafkaLineageSink E :=
  match s.wal.append fmt (walEntry event env.timestampUs) env.append with
  | (.error err, wal) => (.error err, { s with wal })
  | (.ok lsn, wal) => (if env.syncOk then .ok lsn else .error .Io, { s with wal })

/-- Step 5. -/
def trackPending (s : DurableKafkaLineageSink E) (eventId lsn : Nat) (event : E) :
    DurableKafkaLineageSink E :=
  { s with ackTracker := s.ackTracker.trackPending s.now eventId lsn event }

def admitSend (s : DurableKafkaLineageSink E) : Bool × DurableKafkaLineageSink E :=
  let (allowed, circuitBreaker) := s.circuitBreaker.shouldAllowRequest .production s.now
  (allowed, { s with circuitBreaker })

def deliver (s : DurableKafkaLineageSink E) (event : E) : DurableKafkaLineageSink E :=
  { s with
    circuitBreaker := s.circuitBreaker.recordSuccess .production
    sent := s.sent ++ [event] }

def failSend (s : DurableKafkaLineageSink E) (eventId : Nat) : DurableKafkaLineageSink E :=
  { s with
    circuitBreaker := s.circuitBreaker.recordFailure .production s.now
    ackTracker := s.ackTracker.markFailed eventId }

/-- Step 7: `mark_acknowledged`, with the commit. -/
def acknowledge (s : DurableKafkaLineageSink E) (eventId : Nat) : DurableKafkaLineageSink E :=
  match s.ackTracker.markAcknowledged s.now eventId with
  | (some lsn, ackTracker) => { s with ackTracker, wal := s.wal.commit lsn }
  | (none, ackTracker) => { s with ackTracker }

theorem acknowledge_cases (s : DurableKafkaLineageSink E) (eventId : Nat) :
    (∃ ack, s.ackTracker.pending.lookup eventId = some ack ∧
      s.acknowledge eventId =
        { s with
          wal := s.wal.commit ack.lsn
          ackTracker :=
            { pending := s.ackTracker.pending.erase eventId
              acknowledged := s.ackTracker.acknowledged.insert eventId (s.now, ack.lsn) } }) ∨
    (s.ackTracker.pending.lookup eventId = none ∧ s.acknowledge eventId = s) := by
  unfold acknowledge AcknowledgmentTracker.markAcknowledged
  cases s.ackTracker.pending.lookup eventId with
  | some ack => exact .inl ⟨ack, rfl, rfl⟩
  | none => exact .inr ⟨rfl, rfl⟩

def sendWithDurability (s : DurableKafkaLineageSink E) (event : E) (env : SendEnv) :
    Except String Unit × DurableKafkaLineageSink E :=
  let (eventId, s) := s.beginSend config
  if s.ackTracker.isAcknowledged eventId then (.ok (), s)
  else
    match s.writeToWal fmt event env with
    | (.error _, s) =>
      (.error "Failed to write lineage event to WAL - THIS SHOULD NEVER FAIL", s)
    | (.ok lsn, s) =>
      match (s.trackPending eventId lsn event).admitSend with
      -- the circuit is open: the event stays in the WAL only
      | (false, s) => (.ok (), s)
      | (true, s) =>
        let s := { s with now := s.now + env.sendTime }
        match env.kafka with
        | some _ => (.ok (), (s.deliver event).acknowledge eventId)
        | none => (.ok (), s.failSend eventId)

/-- Where `write` is called from: outside of a runtime, in a task of one, or in a thread that has
entered the handle of one. -/
inductive Runtime where
  | none
  | async
  | entered
  deriving DecidableEq

/-- `LineageSink::write`, which blocks on the call; `none` is a panic. `Handle::block_on` panics
within an asynchronous execution context. -/
def write (runtime : Runtime) (s : DurableKafkaLineageSink E) (event : E) (env : SendEnv) :
    Option (Except String Unit × DurableKafkaLineageSink E) :=
  match runtime with
  | .none => some (.error "No tokio runtime available for DurableKafkaLineageSink", s)
  | .async => none
  | .entered => some (s.sendWithDurability fmt config event env)

/-! ## A concrete sink -/

/-- `AckTrackingConfig` of the production configuration. -/
def sampleAckConfig : AckTrackingConfig where
  ackRetention := 7200000
  maxPending := 500000

/-- An environment in which everything works, and in which Kafka answers with `kafka`. -/
def sampleEnv (kafka : Option (Int × Int)) : SendEnv where
  timestampUs := 0
  append := { available := 0, io := .ok, fsyncOk := true, rotation := none }
  syncOk := true
  kafka
  sendTime := 10

def sampleSink : DurableKafkaLineageSink Nat := new sampleConfig ∅ 0 0 []

end DurableKafkaLineageSink

end Arcxa.Kafka
