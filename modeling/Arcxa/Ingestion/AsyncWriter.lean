import Arcxa.Lib.Transition

/-!
# The async storage writer

`run_async_writer` gathers events into a batch and flushes it when it is large or old enough, and once
more when the channel closes. A flush writes the batch to the store; where that fails it retries event by
event, and what still fails goes to the tiered dead letter queue, as does the whole batch while the
circuit breaker is open. The queue writes to its primary, else to a bounded secondary that a background
task drains to the primary at any time.

The primary opens its file at the first write and panics where it does not open; the writer, or the
background task, ends there, and the event it was writing is in neither queue.

Each flush counts what it wrote and, by a subtraction from the size of the batch, what it did not. At two
of the three flush points the size is taken before the flush; at the third, when the channel closes, it is
taken after the flush has drained the batch. So the writer accounts for its events exactly when the batch
is empty as the channel closes and the file opens (`accounts_iff`).
-/

namespace Arcxa.Ingestion

variable {E : Type}

/-! ## The circuit breaker -/

inductive BreakerState where
  | Closed
  | Open
  | HalfOpen
  deriving DecidableEq

structure CircuitBreaker where
  state : BreakerState
  consecutiveFailures : Nat
  consecutiveSuccesses : Nat
  deriving DecidableEq

namespace CircuitBreaker

def failureThreshold : Nat := 5

def successThreshold : Nat := 2

variable (breaker : CircuitBreaker)

def isOpen : Bool := breaker.state = .Open

def recordSuccess : CircuitBreaker :=
  match breaker.state with
  | .Closed => { breaker with consecutiveFailures := 0 }
  | .HalfOpen =>
    if successThreshold ≤ breaker.consecutiveSuccesses + 1 then ⟨.Closed, 0, 0⟩
    else { breaker with consecutiveSuccesses := breaker.consecutiveSuccesses + 1 }
  | .Open => { breaker with state := .Closed }

def recordFailure : CircuitBreaker :=
  match breaker.state with
  | .Closed =>
    if failureThreshold ≤ breaker.consecutiveFailures + 1 then
      { breaker with state := .Open, consecutiveFailures := 0 }
    else { breaker with consecutiveFailures := breaker.consecutiveFailures + 1 }
  | .HalfOpen => { breaker with state := .Open, consecutiveSuccesses := 0 }
  | .Open => breaker

end CircuitBreaker

/-! ## The tiered dead letter queue -/

structure DlqRecord (E : Type) where
  event : E
  error : String
  retryCount : Nat
  deriving DecidableEq

/-- The file of the primary queue: a panic while it is opened poisons the lock around it. -/
inductive DlqFile where
  | unopened
  | opened
  | poisoned
  deriving DecidableEq

/-- What the file system does at a write: whether the file opens, asked at the first one only, and
whether it takes the line. -/
structure DlqIo where
  opens : Bool
  accepts : Bool

structure DeadLetterQueue (E : Type) where
  file : DlqFile
  records : List (DlqRecord E)

namespace DeadLetterQueue

variable (queue : DeadLetterQueue E)

/-- The answer is whether the write is `Ok`, or none if it panics. -/
def write (io : DlqIo) (record : DlqRecord E) : DeadLetterQueue E × Option Bool :=
  let append : DeadLetterQueue E × Option Bool :=
    (⟨.opened, queue.records ++ if io.accepts then [record] else []⟩, some io.accepts)
  match queue.file with
  | .poisoned => (queue, none)
  | .unopened => if io.opens then append else ({ queue with file := .poisoned }, none)
  | .opened => append

def Opens (io : DlqIo) : Prop :=
  queue.file = .opened ∨ queue.file = .unopened ∧ io.opens = true

instance (io : DlqIo) : Decidable (queue.Opens io) := inferInstanceAs (Decidable (_ ∨ _))

variable {queue} {io : DlqIo}

theorem Opens.ne_poisoned (h : queue.Opens io) : queue.file ≠ .poisoned := by
  rcases h with hfile | ⟨hfile, -⟩
  · rw [hfile]
    nofun
  · rw [hfile]
    nofun

theorem write_of_opens (h : queue.Opens io) (record : DlqRecord E) : queue.write io record =
    (⟨.opened, queue.records ++ if io.accepts then [record] else []⟩, some io.accepts) := by
  rcases h with hfile | ⟨hfile, hopens⟩
  · simp only [write, hfile]
  · simp only [write, hfile, hopens, if_true]

theorem write_of_not_opens (h : ¬ queue.Opens io) (record : DlqRecord E) :
    queue.write io record = (⟨.poisoned, queue.records⟩, none) := by
  obtain ⟨file, records⟩ := queue
  cases file with
  | opened => exact absurd (.inl rfl) h
  | poisoned => rfl
  | unopened =>
    have hopens : io.opens = false := Bool.eq_false_iff.mpr fun hopens => h (.inr ⟨rfl, hopens⟩)
    simp only [write, hopens, Bool.false_eq_true, if_false]

end DeadLetterQueue

structure TieredDeadLetterQueue (E : Type) where
  primary : DeadLetterQueue E
  secondary : List (DlqRecord E)
  memoryCapacity : Nat

/-- The loop of a drain: the primary, what is left of the secondary, and the number of records drained,
or none where a write panics. The record of that write is in neither queue. -/
def drainRecords (queue : DeadLetterQueue E) :
    List (DlqRecord E) → List DlqIo → DeadLetterQueue E × List (DlqRecord E) × Option Nat
  | [], _ => (queue, [], some 0)
  | record :: records, ios =>
    match queue.write (ios.headD ⟨true, true⟩) record with
    | (queue, some true) =>
      let (queue, rest, drained) := drainRecords queue records ios.tail
      (queue, rest, drained.map (· + 1))
    | (queue, some false) => (queue, record :: records, some 0)
    | (queue, none) => (queue, records, none)

/-- The first write of a drain, if there is one, finds the file open or opens it. -/
def DrainOpens (queue : DeadLetterQueue E) (records : List (DlqRecord E)) (ios : List DlqIo) : Prop :=
  records = [] ∨ queue.Opens (ios.headD ⟨true, true⟩)

instance (queue : DeadLetterQueue E) (records : List (DlqRecord E)) (ios : List DlqIo) :
    Decidable (DrainOpens queue records ios) :=
  decidable_of_iff (records.isEmpty = true ∨ queue.Opens (ios.headD ⟨true, true⟩))
    (or_congr List.isEmpty_iff Iff.rfl)

theorem drainRecords_of_opens {queue : DeadLetterQueue E} {records : List (DlqRecord E)}
    {ios : List DlqIo} (h : DrainOpens queue records ios) {queue' : DeadLetterQueue E}
    {rest : List (DlqRecord E)} {drained : Option Nat}
    (hdrain : drainRecords queue records ios = (queue', rest, drained)) :
    queue'.records ++ rest = queue.records ++ records ∧
      (queue'.file ≠ .poisoned ↔ queue.file ≠ .poisoned) ∧
      drained.map (· + rest.length) = some records.length := by
  induction records generalizing queue ios queue' rest drained with
  | nil =>
    cases hdrain
    exact ⟨rfl, Iff.rfl, rfl⟩
  | cons record records ih =>
    have hopens := h.resolve_left (List.cons_ne_nil _ _)
    have hsound : queue.file ≠ .poisoned := hopens.ne_poisoned
    rw [drainRecords, DeadLetterQueue.write_of_opens hopens] at hdrain
    cases haccepts : (ios.headD ⟨true, true⟩).accepts with
    | false =>
      simp only [haccepts, Bool.false_eq_true, if_false, List.append_nil] at hdrain
      cases hdrain
      exact ⟨rfl, iff_of_true nofun hsound, congrArg some (Nat.zero_add _)⟩
    | true =>
      simp only [haccepts, if_true] at hdrain
      cases hdrain
      obtain ⟨hrecords, hfile, hcount⟩ :=
        @ih ⟨.opened, queue.records ++ [record]⟩ ios.tail (.inr (.inl rfl)) _ _ _ rfl
      refine ⟨hrecords.trans (List.append_assoc ..), iff_of_true (hfile.mpr nofun) hsound, ?_⟩
      cases hdrained : (drainRecords ⟨.opened, queue.records ++ [record]⟩ records ios.tail).2.2 with
      | none =>
        rw [hdrained] at hcount
        cases hcount
      | some n =>
        rw [hdrained, Option.map_some, Option.some.injEq] at hcount
        rw [Option.map_some, Option.map_some, List.length_cons, ← hcount]
        exact congrArg some (Nat.add_right_comm ..)

theorem drainRecords_of_not_opens {queue : DeadLetterQueue E} {records : List (DlqRecord E)}
    {ios : List DlqIo} (h : ¬ DrainOpens queue records ios) : ∃ record rest,
      records = record :: rest ∧
        drainRecords queue records ios = (⟨.poisoned, queue.records⟩, rest, none) := by
  cases records with
  | nil => exact absurd (.inl rfl) h
  | cons record rest =>
    refine ⟨record, rest, rfl, ?_⟩
    rw [drainRecords, DeadLetterQueue.write_of_not_opens fun hopens => h (.inr hopens)]

namespace TieredDeadLetterQueue

def new (memoryCapacity : Nat) : TieredDeadLetterQueue E := ⟨⟨.unopened, []⟩, [], memoryCapacity⟩

variable (dlq : TieredDeadLetterQueue E)

/-- The answer is whether the write is `Ok`; a panic of the primary's goes on to the caller. -/
def write (io : DlqIo) (event : E) (error : String) (retryCount : Nat) :
    TieredDeadLetterQueue E × Option Bool :=
  match dlq.primary.write io ⟨event, error, retryCount⟩ with
  | (primary, some true) => ({ dlq with primary }, some true)
  | (primary, some false) =>
    if dlq.secondary.length < dlq.memoryCapacity then
      ({ dlq with primary, secondary := dlq.secondary ++ [⟨event, error, retryCount⟩] }, some true)
    else ({ dlq with primary }, some false)
  | (primary, none) => ({ dlq with primary }, none)

def drainSecondaryToPrimary (ios : List DlqIo) : TieredDeadLetterQueue E × Option Nat :=
  let (primary, secondary, drained) := drainRecords dlq.primary dlq.secondary ios
  ({ dlq with primary, secondary }, drained)

def records : List (DlqRecord E) := dlq.primary.records ++ dlq.secondary

/-- The secondary is within its capacity, and whatever the file system does in a drain, once the file is
open the records stay what they are and the drained ones are counted. -/
structure Sound : Prop where
  capacity : dlq.secondary.length ≤ dlq.memoryCapacity
  drain : ∀ ios, DrainOpens dlq.primary dlq.secondary ios →
    (dlq.drainSecondaryToPrimary ios).1.records = dlq.records ∧
      (dlq.drainSecondaryToPrimary ios).2.map
        (· + (dlq.drainSecondaryToPrimary ios).1.secondary.length) = some dlq.secondary.length

variable {dlq}

theorem drain_of_opens {ios : List DlqIo} (h : DrainOpens dlq.primary dlq.secondary ios) :
    (dlq.drainSecondaryToPrimary ios).1.records = dlq.records ∧
      ((dlq.drainSecondaryToPrimary ios).1.primary.file ≠ .poisoned ↔
        dlq.primary.file ≠ .poisoned) ∧
      (dlq.drainSecondaryToPrimary ios).2.map
        (· + (dlq.drainSecondaryToPrimary ios).1.secondary.length) = some dlq.secondary.length :=
  drainRecords_of_opens h rfl

theorem drain_of_not_opens {ios : List DlqIo} (h : ¬ DrainOpens dlq.primary dlq.secondary ios) :
    ∃ record : DlqRecord E, (dlq.records.map DlqRecord.event).Perm
        ((dlq.drainSecondaryToPrimary ios).1.records.map DlqRecord.event ++ [record.event]) ∧
      (dlq.drainSecondaryToPrimary ios).1.primary.file = .poisoned ∧
      (dlq.drainSecondaryToPrimary ios).1.secondary.length < dlq.secondary.length := by
  obtain ⟨record, rest, hsecondary, hdrain⟩ := drainRecords_of_not_opens h
  refine ⟨record, ?_, ?_, ?_⟩
  · rw [records, records, drainSecondaryToPrimary, hdrain, hsecondary, List.map_append,
      List.map_append, List.map_cons, List.append_assoc]
    exact (List.perm_append_singleton _ _).symm.append_left _
  · rw [drainSecondaryToPrimary, hdrain]
  · rw [drainSecondaryToPrimary, hdrain, hsecondary]
    exact Nat.lt_succ_self _

theorem sound_of_capacity (h : dlq.secondary.length ≤ dlq.memoryCapacity) : dlq.Sound :=
  ⟨h, fun _ hopens => ⟨(drain_of_opens hopens).1, (drain_of_opens hopens).2.2⟩⟩

theorem capacity_drain (h : dlq.secondary.length ≤ dlq.memoryCapacity) (ios : List DlqIo) :
    (dlq.drainSecondaryToPrimary ios).1.secondary.length ≤ dlq.memoryCapacity := by
  by_cases hopens : DrainOpens dlq.primary dlq.secondary ios
  · obtain ⟨-, -, hcount⟩ := drain_of_opens hopens
    obtain ⟨drained, -, hcount⟩ := Option.map_eq_some_iff.mp hcount
    omega
  · obtain ⟨-, -, -, hlt⟩ := drain_of_not_opens hopens
    omega

theorem write_of_not_opens {io : DlqIo} (h : ¬ dlq.primary.Opens io) (event : E) (error : String)
    (retryCount : Nat) : dlq.write io event error retryCount =
      ({ dlq with primary := ⟨.poisoned, dlq.primary.records⟩ }, none) := by
  rw [write, DeadLetterQueue.write_of_not_opens h]

/-- Once the file is open, a write puts the event into the queue or answers that it did not. -/
theorem write_of_opens {io : DlqIo} (h : dlq.primary.Opens io) (event : E) (error : String)
    (retryCount : Nat) : ∃ dlq', ∃ ok : Bool, dlq.write io event error retryCount = (dlq', some ok) ∧
      dlq'.primary.file = .opened ∧ dlq'.memoryCapacity = dlq.memoryCapacity ∧
      (dlq.secondary.length ≤ dlq.memoryCapacity →
        dlq'.secondary.length ≤ dlq.memoryCapacity) ∧
      (dlq'.records.map DlqRecord.event ++ if ok then [] else [event]).Perm
        (dlq.records.map DlqRecord.event ++ [event]) := by
  rw [write, DeadLetterQueue.write_of_opens h]
  cases io.accepts with
  | true =>
    refine ⟨_, true, rfl, rfl, rfl, id, ?_⟩
    show ((dlq.primary.records ++ [_] ++ dlq.secondary).map DlqRecord.event ++ []).Perm
      ((dlq.primary.records ++ dlq.secondary).map DlqRecord.event ++ [event])
    simp only [List.map_append, List.map_singleton, List.append_assoc, List.append_nil]
    exact List.perm_append_comm.append_left _
  | false =>
    simp only [Bool.false_eq_true, if_false, List.append_nil]
    by_cases hroom : dlq.secondary.length < dlq.memoryCapacity
    · refine ⟨_, true, if_pos hroom, rfl, rfl, fun _ => ?_, ?_⟩
      · rw [List.length_append]
        exact hroom
      · show ((dlq.primary.records ++ (dlq.secondary ++ [_])).map DlqRecord.event ++ []).Perm
          ((dlq.primary.records ++ dlq.secondary).map DlqRecord.event ++ [event])
        simp only [List.map_append, List.map_singleton, List.append_assoc, List.append_nil]
        exact List.Perm.refl _
    · exact ⟨_, false, if_neg hroom, rfl, rfl, id, List.Perm.refl _⟩

end TieredDeadLetterQueue

/-! ## The writer task -/

structure AsyncStorageWriterConfig where
  minBatchSize : Nat
  maxBatchSize : Nat
  maxWaitMs : Nat

/-- Where in the loop a flush was called. -/
inductive FlushPoint where
  | size
  | aged
  | closed
  deriving DecidableEq

/-- What the task does next. `size` is the size of the batch before the flush, which the first two flush
points keep and the third does not; `written` counts the single writes that succeeded; the first of the events of `retrying` is being
written, after `attempt` failures. -/
inductive Phase (E : Type) where
  | receiving
  | flushing (point : FlushPoint) (size : Nat)
  | rejecting (point : FlushPoint) (size : Nat) (events : List E)
  | retrying (point : FlushPoint) (size written attempt : Nat) (events : List E)
  | queueing (point : FlushPoint) (size written : Nat) (error : String) (event : E)
      (events : List E)
  | flushed (point : FlushPoint) (size written : Nat)
  | ended
  | panicked

/-- The task's variables, the store and the queue; and for the statements the received events, those that
the queue's write returned an error for, and whether a subtraction went below zero. -/
structure Writer (E : Type) where
  config : AsyncStorageWriterConfig
  breaker : Option CircuitBreaker
  batch : List E
  totalWritten : Nat
  totalFailed : Nat
  phase : Phase E
  stored : List E
  dlq : TieredDeadLetterQueue E
  received : List E
  dropped : List E
  underflow : Bool

inductive Action (E : Type) where
  | receive (event : E) (batchAgeMs : Nat)
  | timeout (batchAgeMs : Nat)
  | close
  /-- The next step of a flush, with the answer of the store if the step asks it, an error or none, and
  that of the file system if the step writes to the queue. -/
  | proceed (answer : Option String) (io : DlqIo)
  | drain (ios : List DlqIo)

/-- Subtraction of `u64` as a release build does it. -/
def wrappingSub (a b : Nat) : Nat := if b ≤ a then a - b else a + 2 ^ 64 - b

def maxRetries : Nat := 3

namespace Writer

def new (config : AsyncStorageWriterConfig) (breaker : Option CircuitBreaker)
    (memoryCapacity : Nat) : Writer E where
  config := config
  breaker := breaker
  batch := []
  totalWritten := 0
  totalFailed := 0
  phase := .receiving
  stored := []
  dlq := .new memoryCapacity
  received := []
  dropped := []
  underflow := false

variable (w : Writer E)

def shouldFlush (batchAgeMs : Nat) : Bool :=
  w.config.maxBatchSize ≤ w.batch.length ∨
    w.config.minBatchSize ≤ w.batch.length ∧ w.config.maxWaitMs ≤ batchAgeMs

def receive (event : E) (batchAgeMs : Nat) : Writer E :=
  let w := { w with batch := w.batch ++ [event], received := w.received ++ [event] }
  if w.shouldFlush batchAgeMs then { w with phase := .flushing .size w.batch.length } else w

def timeout (batchAgeMs : Nat) : Writer E :=
  if w.batch ≠ [] ∧ w.config.maxWaitMs ≤ batchAgeMs then
    { w with phase := .flushing .aged w.batch.length }
  else w

def close : Writer E :=
  if w.batch ≠ [] then { w with phase := .flushing .closed w.batch.length }
  else { w with phase := .ended }

/-- `dlq.write`, whose error is only logged and whose panic ends the task. -/
def queue (io : DlqIo) (event : E) (error : String) (retryCount : Nat) (phase : Phase E) : Writer E :=
  match w.dlq.write io event error retryCount with
  | (dlq, some ok) => { w with dlq, dropped := w.dropped ++ if ok then [] else [event], phase }
  | (dlq, none) => { w with dlq, phase := .panicked }

/-- The start of `flush_batch`, up to the answer to `write_batch`. -/
def flush (answer : Option String) (point : FlushPoint) (size : Nat) : Writer E :=
  if w.batch = [] then { w with phase := .flushed point size 0 }
  else if w.breaker.any (·.isOpen) then
    { w with batch := [], phase := .rejecting point size w.batch }
  else
    match answer with
    | none =>
      { w with
        breaker := w.breaker.map (·.recordSuccess)
        batch := []
        stored := w.stored ++ w.batch
        phase := .flushed point size w.batch.length }
    | some _ =>
      { w with
        breaker := w.breaker.map (·.recordFailure)
        batch := []
        phase := .retrying point size 0 0 w.batch }

/-- What the loop does with the number that `flush_batch` returns. -/
def count (point : FlushPoint) (size written : Nat) : Writer E :=
  let batchSize := match point with
    | .size | .aged => size
    | .closed => w.batch.length
  { w with
    totalWritten := w.totalWritten + written
    totalFailed := w.totalFailed + wrappingSub batchSize written
    underflow := w.underflow || batchSize < written
    phase := if point = .closed then .ended else .receiving }

def proceed (answer : Option String) (io : DlqIo) : Option (Writer E) :=
  match w.phase with
  | .receiving => none
  | .flushing point size => some (w.flush answer point size)
  | .rejecting point size [] => some { w with phase := .flushed point size 0 }
  | .rejecting point size (event :: events) =>
    some (w.queue io event "Circuit breaker open" 1 (.rejecting point size events))
  | .retrying point size written _ [] => some { w with phase := .flushed point size written }
  | .retrying point size written attempt (event :: events) =>
    match answer with
    | none =>
      some { w with
        stored := w.stored ++ [event]
        phase := .retrying point size (written + 1) 0 events }
    | some error =>
      if maxRetries ≤ attempt + 1 then
        some { w with phase := .queueing point size written error event events }
      else some { w with phase := .retrying point size written (attempt + 1) (event :: events) }
  | .queueing point size written error event events =>
    some (w.queue io event ("Write failed after retries: " ++ error) 3
      (.retrying point size written 0 events))
  | .flushed point size written => some (w.count point size written)
  | .ended | .panicked => none

def isReceiving : Bool :=
  match w.phase with
  | .receiving => true
  | _ => false

def step : Action E → Option (Writer E)
  | .receive event batchAgeMs => if w.isReceiving then some (w.receive event batchAgeMs) else none
  | .timeout batchAgeMs => if w.isReceiving then some (w.timeout batchAgeMs) else none
  | .close => if w.isReceiving then some w.close else none
  | .proceed answer io => w.proceed answer io
  | .drain ios => some { w with dlq := (w.dlq.drainSecondaryToPrimary ios).1 }

/-! ## The accounts -/

/-- Every received event is stored or queued exactly once, or the queue refused it; and the totals add up
to the received events without a subtraction below zero. -/
structure Accounts : Prop where
  once : w.received.Perm (w.stored ++ w.dlq.records.map DlqRecord.event ++ w.dropped)
  totals : w.totalWritten + w.totalFailed = w.received.length
  noUnderflow : w.underflow = false

/-- The task has come to its end, by itself or by a panic. -/
def isOver : Bool :=
  match w.phase with
  | .ended | .panicked => true
  | _ => false

/-- The next step of the flush writes to the queue. -/
def queues : Bool :=
  match w.phase with
  | .rejecting _ _ (_ :: _) | .queueing .. => true
  | _ => false

def ClosesEmpty : Action E → Prop
  | .close => w.batch = []
  | _ => True

/-- A write to the primary finds its file open or opens it. -/
def PrimaryOpens : Action E → Prop
  | .proceed _ io => w.queues = true → w.dlq.primary.Opens io
  | .drain ios => DrainOpens w.dlq.primary w.dlq.secondary ios
  | _ => True

def Careful (a : Action E) : Prop := w.ClosesEmpty a ∧ w.PrimaryOpens a

end Writer

/-! ## Where the events are -/

namespace Phase

def inFlight : Phase E → List E
  | .rejecting _ _ events | .retrying _ _ _ _ events => events
  | .queueing _ _ _ _ event events => event :: events
  | _ => []

def point : Phase E → Option FlushPoint
  | .receiving | .ended | .panicked => none
  | .flushing point _ | .rejecting point _ _ | .retrying point _ _ _ _
  | .queueing point _ _ _ _ _ | .flushed point _ _ => some point

end Phase

namespace Writer

variable {w w' : Writer E}

/-- What the phase has of the totals: with a flush of `size` events in progress, the totals are those
before it, and no more single writes succeeded than events have gone. -/
def Balanced (w : Writer E) : Prop :=
  match w.phase with
  | .receiving => w.totalWritten + w.totalFailed + w.batch.length = w.received.length ∧
      w.underflow = false
  | .flushing _ size => w.totalWritten + w.totalFailed + size = w.received.length ∧
      w.underflow = false ∧ 0 < size ∧ w.batch.length = size
  | .rejecting _ size _ => w.totalWritten + w.totalFailed + size = w.received.length ∧
      w.underflow = false ∧ 0 < size ∧ w.batch = []
  | .retrying _ size written _ events =>
      w.totalWritten + w.totalFailed + size = w.received.length ∧
      w.underflow = false ∧ 0 < size ∧ w.batch = [] ∧ written + events.length ≤ size
  | .queueing _ size written _ _ events =>
      w.totalWritten + w.totalFailed + size = w.received.length ∧
      w.underflow = false ∧ 0 < size ∧ w.batch = [] ∧ written + events.length ≤ size
  | .flushed _ size written => w.totalWritten + w.totalFailed + size = w.received.length ∧
      w.underflow = false ∧ 0 < size ∧ w.batch = [] ∧ written ≤ size
  | .ended => w.batch = []
  | .panicked => True

/-! ## What a step does -/

/-- The task goes on to `phase` and is done with the events `done`. -/
structure Turns (w : Writer E) (done : List E) (phase : Phase E) : Prop where
  flight : w.phase.inFlight = done ++ phase.inFlight
  point : phase.point = w.phase.point
  flushes : w.phase.point ≠ none
  balanced : w.Balanced → Balanced { w with phase }

theorem Turns.ne_panicked {done : List E} {phase : Phase E} (h : w.Turns done phase) :
    phase ≠ .panicked := by
  rintro rfl
  exact h.flushes h.point.symm

/-- **What a step of a flush does**, and whether it writes to the queue. -/
inductive Proceeds (w : Writer E) (answer : Option String) (io : DlqIo) : Writer E → Prop where
  | flush (point : FlushPoint) (size : Nat) (hphase : w.phase = .flushing point size)
      (hquiet : w.queues = false) : Proceeds w answer io (w.flush answer point size)
  | turn (phase : Phase E) (hturns : w.Turns [] phase) (hquiet : w.queues = false) :
      Proceeds w answer io { w with phase }
  | store (event : E) (phase : Phase E) (hturns : w.Turns [event] phase)
      (hquiet : w.queues = false) :
      Proceeds w answer io { w with stored := w.stored ++ [event], phase }
  | queue (event : E) (error : String) (retryCount : Nat) (phase : Phase E)
      (hturns : w.Turns [event] phase) (hqueues : w.queues = true) :
      Proceeds w answer io (w.queue io event error retryCount phase)
  | count (point : FlushPoint) (size written : Nat) (hphase : w.phase = .flushed point size written)
      (hquiet : w.queues = false) : Proceeds w answer io (w.count point size written)

variable {answer : Option String} {io : DlqIo}

theorem proceeds_of_proceed (hstep : w.proceed answer io = some w') : w.Proceeds answer io w' := by
  obtain ⟨config, breaker, batch, totalWritten, totalFailed, phase, stored, dlq, received, dropped,
    underflow⟩ := w
  cases phase with
  | receiving | ended | panicked => cases hstep
  | flushing point size =>
    cases hstep
    exact .flush point size rfl rfl
  | flushed point size written =>
    cases hstep
    exact .count point size written rfl rfl
  | rejecting point size events =>
    cases events with
    | nil =>
      cases hstep
      exact .turn _ ⟨rfl, rfl, nofun, fun h => ⟨h.1, h.2.1, h.2.2.1, h.2.2.2, Nat.zero_le _⟩⟩ rfl
    | cons event events =>
      cases hstep
      exact .queue event _ 1 _ ⟨rfl, rfl, nofun, id⟩ rfl
  | retrying point size written attempt events =>
    cases events with
    | nil =>
      cases hstep
      exact .turn _ ⟨rfl, rfl, nofun, id⟩ rfl
    | cons event events =>
      -- one event fewer waits, whether it was written or goes to the queue
      have hle : written + (event :: events).length ≤ size → written + 1 + events.length ≤ size := by
        rw [List.length_cons]
        omega
      cases answer with
      | none =>
        cases hstep
        exact .store event _ ⟨rfl, rfl, nofun, fun h =>
          ⟨h.1, h.2.1, h.2.2.1, h.2.2.2.1, hle h.2.2.2.2⟩⟩ rfl
      | some error =>
        change (if maxRetries ≤ attempt + 1 then some _ else some _) = some w' at hstep
        split_ifs at hstep <;> cases hstep
        · exact .turn _ ⟨rfl, rfl, nofun, fun h =>
            ⟨h.1, h.2.1, h.2.2.1, h.2.2.2.1, by have := hle h.2.2.2.2; omega⟩⟩ rfl
        · exact .turn _ ⟨rfl, rfl, nofun, id⟩ rfl
  | queueing point size written error event events =>
    cases hstep
    exact .queue event _ 3 _ ⟨rfl, rfl, nofun, id⟩ rfl

variable {a : Action E}

/-- What a step does to the queue: nothing, or one write, or a drain. -/
theorem dlq_step (hstep : w.step a = some w') :
    w'.dlq = w.dlq ∧ w.PrimaryOpens a ∨
      (∃ ios, a = .drain ios ∧ w' = { w with dlq := (w.dlq.drainSecondaryToPrimary ios).1 }) ∨
      ∃ answer io event error retryCount phase, a = .proceed answer io ∧ w.queues = true ∧
        w' = w.queue io event error retryCount phase := by
  cases a with
  | receive event batchAgeMs =>
    rw [step] at hstep
    split_ifs at hstep
    cases hstep
    unfold receive
    dsimp only
    split_ifs <;> exact .inl ⟨rfl, trivial⟩
  | timeout batchAgeMs =>
    rw [step] at hstep
    split_ifs at hstep
    cases hstep
    unfold timeout
    split_ifs <;> exact .inl ⟨rfl, trivial⟩
  | close =>
    rw [step] at hstep
    split_ifs at hstep
    cases hstep
    unfold close
    split_ifs <;> exact .inl ⟨rfl, trivial⟩
  | drain ios => exact .inr (.inl ⟨ios, rfl, (Option.some.inj hstep).symm⟩)
  | proceed answer io =>
    have hopens : w.queues = false → w.PrimaryOpens (.proceed answer io) := fun hquiet hqueues =>
      absurd (hquiet.symm.trans hqueues) Bool.false_ne_true
    cases proceeds_of_proceed hstep with
    | flush point size hphase hquiet =>
      refine .inl ⟨?_, hopens hquiet⟩
      unfold flush
      split_ifs
      · rfl
      · rfl
      · cases answer <;> rfl
    | turn phase hturns hquiet => exact .inl ⟨rfl, hopens hquiet⟩
    | store event phase hturns hquiet => exact .inl ⟨rfl, hopens hquiet⟩
    | queue event error retryCount phase hturns hqueues =>
      exact .inr (.inr ⟨answer, io, event, error, retryCount, phase, rfl, hqueues, rfl⟩)
    | count point size written hphase hquiet => exact .inl ⟨rfl, hopens hquiet⟩

/-! ## Nothing is lost but by a panic -/

/-- Every received event is somewhere, but for those that a panic has lost. The first panic poisons the
primary's lock. -/
def Placed (w : Writer E) : Prop :=
  ∃ lost, w.received.Perm (w.stored ++ w.dlq.records.map DlqRecord.event ++ w.dropped ++ w.batch ++
    w.phase.inFlight ++ lost) ∧
    (lost = [] ↔ w.dlq.primary.file ≠ .poisoned) ∧ (w.phase = .panicked → lost ≠ [])

variable (config : AsyncStorageWriterConfig) (breaker : Option CircuitBreaker)
  (memoryCapacity : Nat)

theorem placed_new : (new config breaker memoryCapacity : Writer E).Placed :=
  ⟨[], List.Perm.refl [], iff_of_true rfl nofun, nofun⟩

open TieredDeadLetterQueue

theorem queue_of_opens (h : w.dlq.primary.Opens io) (event : E) (error : String) (retryCount : Nat)
    (phase : Phase E) : ∃ dlq, ∃ ok : Bool,
      w.queue io event error retryCount phase =
        { w with dlq, dropped := w.dropped ++ if ok then [] else [event], phase } ∧
      dlq.primary.file = .opened ∧ dlq.memoryCapacity = w.dlq.memoryCapacity ∧
      (w.dlq.secondary.length ≤ w.dlq.memoryCapacity →
        dlq.secondary.length ≤ w.dlq.memoryCapacity) ∧
      (dlq.records.map DlqRecord.event ++ if ok then [] else [event]).Perm
        (w.dlq.records.map DlqRecord.event ++ [event]) := by
  obtain ⟨dlq, ok, hwrite, hspec⟩ :=
    write_of_opens h event error retryCount
  exact ⟨dlq, ok, by rw [queue, hwrite], hspec⟩

theorem queue_of_not_opens (h : ¬ w.dlq.primary.Opens io) (event : E) (error : String)
    (retryCount : Nat) (phase : Phase E) : w.queue io event error retryCount phase =
      { w with
        dlq := { w.dlq with primary := ⟨.poisoned, w.dlq.primary.records⟩ }
        phase := .panicked } := by
  rw [queue, write_of_not_opens h]

open Classical in
theorem placed_queue (h : w.Placed) {event : E} {events : List E}
    (hflight : w.phase.inFlight = event :: events) {phase : Phase E}
    (hphase : phase.inFlight = events) (hgoes : phase ≠ .panicked) (error : String)
    (retryCount : Nat) : (w.queue io event error retryCount phase).Placed := by
  obtain ⟨lost, hperm, hlost, -⟩ := h
  rw [hflight] at hperm
  by_cases hopens : w.dlq.primary.Opens io
  · obtain ⟨dlq, ok, heq, hfile, -, -, hwrite⟩ := queue_of_opens hopens event error retryCount phase
    rw [heq]
    have hnone : lost = [] := hlost.mpr hopens.ne_poisoned
    refine ⟨[], List.perm_iff_count.mpr fun a => ?_, iff_of_true rfl ?_, fun h => absurd h hgoes⟩
    · replace hperm := hperm.count_eq a
      replace hwrite := hwrite.count_eq a
      rw [hnone, ← List.singleton_append] at hperm
      simp only [hphase, List.count_append] at hperm hwrite ⊢
      omega
    · rw [hfile]
      nofun
  · -- the panic loses the event and those that were to follow
    rw [queue_of_not_opens hopens]
    refine ⟨event :: events ++ lost, ?_, iff_of_false (List.cons_ne_nil _ _) fun h => h rfl,
      fun _ => List.cons_ne_nil _ _⟩
    simpa only [Phase.inFlight, records, List.append_assoc, List.nil_append]
      using hperm

/-- What the task has without the events that a panic lost. -/
def held (w : Writer E) : List E :=
  w.stored ++ w.dlq.records.map DlqRecord.event ++ w.dropped ++ w.batch ++ w.phase.inFlight

theorem Placed.of_perm (h : w.Placed) (hfile : w'.dlq.primary.file = w.dlq.primary.file)
    (hphase : w'.phase ≠ .panicked)
    (hperm : ∀ lost, w.received.Perm (w.held ++ lost) → w'.received.Perm (w'.held ++ lost)) :
    w'.Placed := by
  obtain ⟨lost, hplaced, hlost, -⟩ := h
  exact ⟨lost, hperm lost hplaced, hfile ▸ hlost, fun h => absurd h hphase⟩

variable {point : FlushPoint}

open Classical in
theorem placed_flush (h : w.Placed) {size : Nat} (hphase : w.phase = .flushing point size)
    (answer : Option String) : (w.flush answer point size).Placed := by
  unfold flush
  split_ifs with hbatch hopen
  · refine h.of_perm rfl nofun fun lost hperm => List.perm_iff_count.mpr fun a => ?_
    replace hperm := hperm.count_eq a
    simp only [held, hphase, Phase.inFlight, List.count_append, List.count_nil, hbatch] at hperm ⊢
    omega
  · refine h.of_perm rfl nofun fun lost hperm => List.perm_iff_count.mpr fun a => ?_
    replace hperm := hperm.count_eq a
    simp only [held, hphase, Phase.inFlight, List.count_append, List.count_nil] at hperm ⊢
    omega
  · cases answer <;>
    · refine h.of_perm rfl nofun fun lost hperm => List.perm_iff_count.mpr fun a => ?_
      replace hperm := hperm.count_eq a
      simp only [held, hphase, Phase.inFlight, List.count_append, List.count_nil] at hperm ⊢
      omega

open Classical in
theorem placed_proceed (h : w.Placed) (hstep : w.proceed answer io = some w') : w'.Placed := by
  cases proceeds_of_proceed hstep with
  | flush point size hphase hquiet => exact placed_flush h hphase answer
  | turn phase hturns hquiet =>
    refine h.of_perm rfl hturns.ne_panicked fun lost hperm => ?_
    rwa [held, hturns.flight] at hperm
  | store event phase hturns hquiet =>
    refine h.of_perm rfl hturns.ne_panicked fun lost hperm => List.perm_iff_count.mpr fun a => ?_
    replace hperm := hperm.count_eq a
    simp only [held, hturns.flight, List.count_append] at hperm ⊢
    omega
  | queue event error retryCount phase hturns hqueues =>
    exact placed_queue h hturns.flight rfl hturns.ne_panicked error retryCount
  | count point size written hphase hquiet =>
    refine h.of_perm rfl (by cases point <;> exact nofun) fun lost hperm => ?_
    rw [held, hphase] at hperm
    cases point <;> exact hperm

theorem phase_of_isReceiving (h : w.isReceiving = true) : w.phase = .receiving := by
  unfold isReceiving at h
  cases hphase : w.phase <;> first | rfl | simp [hphase] at h

open Classical in
theorem placed_drain (h : w.Placed) (ios : List DlqIo) :
    Placed { w with dlq := (w.dlq.drainSecondaryToPrimary ios).1 } := by
  obtain ⟨lost, hperm, hlost, hpanicked⟩ := h
  by_cases hopens : DrainOpens w.dlq.primary w.dlq.secondary ios
  · obtain ⟨hrecords, hfile, -⟩ := drain_of_opens hopens
    refine ⟨lost, ?_, ?_, hpanicked⟩
    · simp only [hrecords]
      exact hperm
    · exact hlost.trans hfile.symm
  · obtain ⟨record, hrecords, hfile, -⟩ := drain_of_not_opens hopens
    have hne : record.event :: lost ≠ [] := List.cons_ne_nil _ _
    refine ⟨record.event :: lost, List.perm_iff_count.mpr fun a => ?_,
      iff_of_false hne fun h => h hfile, fun _ => hne⟩
    replace hperm := hperm.count_eq a
    replace hrecords := hrecords.count_eq a
    rw [← List.singleton_append]
    simp only [List.count_append] at hperm hrecords ⊢
    omega

open Classical in
theorem placed_step (h : w.Placed) (hstep : w.step a = some w') : w'.Placed := by
  have hflight : w.isReceiving = true → w.phase.inFlight = [] := by
    intro hrec
    rw [phase_of_isReceiving hrec]
    rfl
  cases a with
  | receive event batchAgeMs =>
    rw [step] at hstep
    split_ifs at hstep with hrec
    cases hstep
    have hperm : ∀ lost, w.received.Perm (w.held ++ lost) → (w.received ++ [event]).Perm
        (w.stored ++ w.dlq.records.map DlqRecord.event ++ w.dropped ++ (w.batch ++ [event]) ++
          [] ++ lost) := by
      intro lost hperm
      refine List.perm_iff_count.mpr fun a => ?_
      replace hperm := hperm.count_eq a
      simp only [held, hflight hrec, List.count_append] at hperm ⊢
      omega
    unfold receive
    dsimp only
    split_ifs
    · exact h.of_perm rfl nofun hperm
    · refine h.of_perm rfl (by rw [phase_of_isReceiving hrec]; nofun) fun lost hlost => ?_
      rw [held, hflight hrec]
      exact hperm lost hlost
  | timeout batchAgeMs =>
    rw [step] at hstep
    split_ifs at hstep with hrec
    cases hstep
    unfold timeout
    split_ifs
    · refine h.of_perm rfl nofun fun lost hlost => ?_
      rwa [held, hflight hrec] at hlost
    · exact h
  | close =>
    rw [step] at hstep
    split_ifs at hstep with hrec
    cases hstep
    unfold close
    split_ifs <;>
    · refine h.of_perm rfl nofun fun lost hlost => ?_
      rwa [held, hflight hrec] at hlost
  | proceed answer io => exact placed_proceed h hstep
  | drain ios =>
    cases hstep
    exact placed_drain h ios

/-! ## The totals -/

def Exact (w : Writer E) : Prop :=
  w.totalWritten + w.totalFailed = w.received.length ∧ w.underflow = false

/-- No step undoes this: the task is on its way to the right totals. -/
def OnTrack (w : Writer E) : Prop :=
  w.phase.point ≠ some .closed ∧ (w.phase = .ended → w.Exact)

def OffTrack (w : Writer E) : Prop :=
  w.phase.point = some .closed ∨ w.phase = .ended ∧ ¬ w.Exact

theorem onTrack_of_point (h : w.phase.point = some point) (hne : point ≠ .closed) : w.OnTrack := by
  refine ⟨fun hclosed => hne (Option.some.inj (h.symm.trans hclosed)), fun hended => ?_⟩
  rw [hended] at h
  cases h

theorem balanced_queue (hopens : w.dlq.primary.Opens io) (event : E) (error : String)
    (retryCount : Nat) {phase : Phase E} (h : Balanced { w with phase }) :
    (w.queue io event error retryCount phase).Balanced ∧
      (w.queue io event error retryCount phase).phase.point = phase.point := by
  obtain ⟨dlq, ok, heq, -⟩ := queue_of_opens hopens event error retryCount phase
  rw [heq]
  refine ⟨?_, rfl⟩
  cases phase <;> exact h

theorem balanced_flush (h : w.Balanced) {size : Nat} (hphase : w.phase = .flushing point size)
    (answer : Option String) :
    (w.flush answer point size).Balanced ∧ (w.flush answer point size).phase.point = some point := by
  rw [Balanced, hphase] at h
  obtain ⟨htotals, hunderflow, hpos, hlength⟩ := h
  unfold flush
  split_ifs with hbatch hopen
  · rw [hbatch, List.length_nil] at hlength
    omega
  · exact ⟨⟨htotals, hunderflow, hpos, rfl⟩, rfl⟩
  · cases answer with
    | none => exact ⟨⟨htotals, hunderflow, hpos, rfl, hlength.le⟩, rfl⟩
    | some error =>
      refine ⟨⟨htotals, hunderflow, hpos, rfl, ?_⟩, rfl⟩
      rw [hlength, Nat.zero_add]

theorem balanced_proceed (h : w.Balanced) (hstep : w.proceed answer io = some w')
    (hopens : w.queues = true → w.dlq.primary.Opens io)
    (hphase : ∀ point size written, w.phase ≠ .flushed point size written) :
    w'.Balanced ∧ w'.phase.point = w.phase.point ∧ w.phase.point ≠ none := by
  cases proceeds_of_proceed hstep with
  | flush point size hflushing hquiet =>
    obtain ⟨hbalanced, hpoint⟩ := balanced_flush h hflushing answer
    rw [hflushing]
    exact ⟨hbalanced, hpoint, nofun⟩
  | turn phase hturns hquiet => exact ⟨hturns.balanced h, hturns.point, hturns.flushes⟩
  | store event phase hturns hquiet =>
    refine ⟨?_, hturns.point, hturns.flushes⟩
    have hbalanced := hturns.balanced h
    cases phase <;> exact hbalanced
  | queue event error retryCount phase hturns hqueues =>
    obtain ⟨hbalanced, hpoint⟩ :=
      balanced_queue (hopens hqueues) event error retryCount (hturns.balanced h)
    exact ⟨hbalanced, hpoint.trans hturns.point, hturns.flushes⟩
  | count point size written hflushed hquiet => exact absurd hflushed (hphase point size written)

theorem balanced_count (h : w.Balanced) {size written : Nat}
    (hphase : w.phase = .flushed point size written) :
    (w.count point size written).Balanced ∧
      (point ≠ .closed → (w.count point size written).OnTrack) ∧
      (point = .closed → (w.count point size written).OffTrack) := by
  rw [Balanced, hphase] at h
  obtain ⟨htotals, hunderflow, hpos, hbatch, hle⟩ := h
  have hkept : ∀ point, point ≠ FlushPoint.closed →
      w.totalWritten + written + (w.totalFailed + wrappingSub size written) + w.batch.length =
        w.received.length ∧ (w.underflow || size < written) = false := by
    intro point _
    rw [wrappingSub, if_pos hle, hbatch, hunderflow, List.length_nil]
    refine ⟨by omega, ?_⟩
    rw [Bool.false_or, decide_eq_false_iff_not]
    omega
  cases point with
  | size => exact ⟨hkept .size nofun, fun _ => ⟨nofun, nofun⟩, nofun⟩
  | aged => exact ⟨hkept .aged nofun, fun _ => ⟨nofun, nofun⟩, nofun⟩
  | closed =>
    refine ⟨hbatch, fun hne => absurd rfl hne, fun _ => .inr ⟨rfl, ?_⟩⟩
    rintro ⟨hexact, hnone⟩
    change w.totalWritten + written + (w.totalFailed + wrappingSub w.batch.length written) =
      w.received.length at hexact
    change (w.underflow || decide (w.batch.length < written)) = false at hnone
    rw [hunderflow, hbatch, Bool.false_or, decide_eq_false_iff_not, List.length_nil] at hnone
    rw [hbatch, List.length_nil, wrappingSub, if_pos (by omega)] at hexact
    omega

/-! ## One step -/

structure Invariant (w : Writer E) : Prop where
  placed : w.Placed
  capacity : w.dlq.secondary.length ≤ w.dlq.memoryCapacity
  balanced : w.Balanced

theorem invariant_new : (new config breaker memoryCapacity : Writer E).Invariant :=
  ⟨placed_new config breaker memoryCapacity, Nat.zero_le _, rfl, rfl⟩

theorem onTrack_new : (new config breaker memoryCapacity : Writer E).OnTrack :=
  ⟨nofun, nofun⟩

theorem capacity_queue (h : w.dlq.secondary.length ≤ w.dlq.memoryCapacity) (io : DlqIo) (event : E)
    (error : String) (retryCount : Nat) (phase : Phase E) :
    (w.queue io event error retryCount phase).dlq.secondary.length ≤
      (w.queue io event error retryCount phase).dlq.memoryCapacity := by
  by_cases hopens : w.dlq.primary.Opens io
  · obtain ⟨dlq, ok, heq, -, hcapacity, hle, -⟩ :=
      queue_of_opens hopens event error retryCount phase
    rw [heq, hcapacity]
    exact hle h
  · rw [queue_of_not_opens hopens]
    exact h

theorem capacity_step (h : w.dlq.secondary.length ≤ w.dlq.memoryCapacity)
    (hstep : w.step a = some w') : w'.dlq.secondary.length ≤ w'.dlq.memoryCapacity := by
  rcases dlq_step hstep with ⟨hdlq, -⟩ | ⟨ios, -, rfl⟩ |
    ⟨answer, io, event, error, retryCount, phase, -, -, rfl⟩
  · rw [hdlq]
    exact h
  · exact capacity_drain h ios
  · exact capacity_queue h io event error retryCount phase

/-- While the primary opens, the totals stay balanced and the task stays on its track, unless it closes
with a batch. -/
theorem balanced_step (h : w.Balanced) (hopens : w.PrimaryOpens a) (hstep : w.step a = some w') :
    w'.Balanced ∧ (w.OnTrack → w.ClosesEmpty a → w'.OnTrack) ∧
      (¬ w.ClosesEmpty a ∨ w.OffTrack → w'.OffTrack) := by
  -- a task that receives is on its track
  have hreceiving : w.isReceiving = true → ¬ w.OffTrack := by
    intro hrec hoff
    have hphase := phase_of_isReceiving hrec
    rcases hoff with hpoint | ⟨hended, -⟩
    · rw [hphase] at hpoint
      cases hpoint
    · rw [hphase] at hended
      cases hended
  have hbalance : w.isReceiving = true →
      w.totalWritten + w.totalFailed + w.batch.length = w.received.length ∧
        w.underflow = false := by
    intro hrec
    rwa [Balanced, phase_of_isReceiving hrec] at h
  cases a with
  | receive event batchAgeMs =>
    rw [step] at hstep
    split_ifs at hstep with hrec
    cases hstep
    obtain ⟨htotals, hunderflow⟩ := hbalance hrec
    have htotals' : w.totalWritten + w.totalFailed + (w.batch ++ [event]).length =
        (w.received ++ [event]).length := by
      rw [List.length_append, List.length_append]
      omega
    have hoff : ¬ (¬ w.ClosesEmpty (.receive event batchAgeMs) ∨ w.OffTrack) :=
      not_or.mpr ⟨not_not.mpr trivial, hreceiving hrec⟩
    refine ⟨?_, fun _ _ => ?_, fun h => absurd h hoff⟩
    all_goals
      unfold receive
      dsimp only
    · split_ifs
      · refine ⟨htotals', hunderflow, ?_, rfl⟩
        rw [List.length_append, List.length_singleton]
        omega
      · rw [Balanced, phase_of_isReceiving hrec]
        exact ⟨htotals', hunderflow⟩
    · split_ifs
      · exact onTrack_of_point rfl nofun
      · refine ⟨?_, ?_⟩ <;> rw [phase_of_isReceiving hrec] <;> nofun
  | timeout batchAgeMs =>
    rw [step] at hstep
    split_ifs at hstep with hrec
    cases hstep
    obtain ⟨htotals, hunderflow⟩ := hbalance hrec
    have hoff : ¬ (¬ w.ClosesEmpty (.timeout batchAgeMs) ∨ w.OffTrack) :=
      not_or.mpr ⟨not_not.mpr trivial, hreceiving hrec⟩
    refine ⟨?_, fun hon _ => ?_, fun h => absurd h hoff⟩
    all_goals unfold timeout
    · split_ifs with haged
      · exact ⟨htotals, hunderflow, List.length_pos_of_ne_nil haged.1, rfl⟩
      · exact h
    · split_ifs
      · exact onTrack_of_point rfl nofun
      · exact hon
  | close =>
    rw [step] at hstep
    split_ifs at hstep with hrec
    cases hstep
    obtain ⟨htotals, hunderflow⟩ := hbalance hrec
    unfold close
    by_cases hbatch : w.batch = []
    · rw [if_neg (not_not.mpr hbatch)]
      rw [hbatch] at htotals
      refine ⟨hbatch, fun _ _ => ⟨nofun, fun _ => ⟨htotals, hunderflow⟩⟩, fun hoff => ?_⟩
      exact absurd hoff (not_or.mpr ⟨not_not.mpr hbatch, hreceiving hrec⟩)
    · rw [if_pos hbatch]
      refine ⟨⟨htotals, hunderflow, List.length_pos_of_ne_nil hbatch, rfl⟩,
        fun _ hempty => absurd hempty hbatch, fun _ => .inl rfl⟩
  | drain ios =>
    cases hstep
    exact ⟨h, fun hon _ => hon, fun hoff => hoff.resolve_left (not_not.mpr trivial)⟩
  | proceed answer io =>
    change w.proceed answer io = some w' at hstep
    by_cases hflushed : ∃ point size written, w.phase = .flushed point size written
    · obtain ⟨point, size, written, hphase⟩ := hflushed
      have hcount : w.count point size written = w' := by
        unfold proceed at hstep
        simpa only [hphase, Option.some.injEq] using hstep
      obtain ⟨hbalanced, hon, hoff⟩ := balanced_count h hphase
      rw [hcount] at hbalanced hon hoff
      refine ⟨hbalanced, fun hbefore _ => hon ?_, fun hbefore => hoff ?_⟩
      · rintro rfl
        exact hbefore.1 (by rw [hphase]; rfl)
      · rcases hbefore.resolve_left (not_not.mpr trivial) with hpoint | ⟨hended, -⟩
        · rw [hphase] at hpoint
          exact Option.some.inj hpoint
        · rw [hphase] at hended
          cases hended
    · obtain ⟨hbalanced, hpoint, hsome⟩ := balanced_proceed h hstep hopens
        fun point size written heq => hflushed ⟨point, size, written, heq⟩
      refine ⟨hbalanced, fun hbefore _ => ⟨hpoint ▸ hbefore.1, fun hended => ?_⟩, fun hbefore => ?_⟩
      · rw [hended] at hpoint
        exact absurd hpoint.symm hsome
      · rcases hbefore.resolve_left (not_not.mpr trivial) with hclosed | ⟨hended, -⟩
        · exact .inl (hpoint.trans hclosed)
        · rw [hended] at hsome
          exact absurd rfl hsome

/-- What a panic does to the lock of the primary, and nothing else. -/
theorem poisoned_step (hstep : w.step a = some w') :
    w'.dlq.primary.file = .poisoned ↔ w.dlq.primary.file = .poisoned ∨ ¬ w.PrimaryOpens a := by
  rcases dlq_step hstep with ⟨hdlq, hopens⟩ | ⟨ios, rfl, rfl⟩ |
    ⟨answer, io, event, error, retryCount, phase, rfl, hqueues, rfl⟩
  · rw [hdlq]
    exact (or_iff_left (not_not.mpr hopens)).symm
  · by_cases hopens : DrainOpens w.dlq.primary w.dlq.secondary ios
    · have hfile := (drain_of_opens hopens).2.1
      exact (not_iff_not.mp hfile).trans (or_iff_left (not_not.mpr hopens)).symm
    · obtain ⟨-, -, hfile, -⟩ := drain_of_not_opens hopens
      exact iff_of_true hfile (.inr hopens)
  · by_cases hopens : w.dlq.primary.Opens io
    · obtain ⟨dlq, ok, heq, hfile, -⟩ := queue_of_opens hopens event error retryCount phase
      rw [heq, hfile]
      exact iff_of_false nofun
        (not_or.mpr ⟨hopens.ne_poisoned, not_not.mpr fun _ => hopens⟩)
    · rw [queue_of_not_opens hopens]
      exact iff_of_true rfl (.inr fun h => hopens (h hqueues))

theorem balanced_of_not_opens (h : w.Balanced) (hopens : ¬ w.PrimaryOpens a)
    (hstep : w.step a = some w') : w'.Balanced := by
  rcases dlq_step hstep with ⟨-, hopens'⟩ | ⟨ios, rfl, rfl⟩ |
    ⟨answer, io, event, error, retryCount, phase, rfl, hqueues, rfl⟩
  · exact absurd hopens' hopens
  · exact h
  · rw [queue_of_not_opens fun hopens' => hopens fun _ => hopens']
    trivial

theorem invariant_step (h : w.Invariant) (hstep : w.step a = some w') : w'.Invariant := by
  refine ⟨placed_step h.placed hstep, capacity_step h.capacity hstep, ?_⟩
  by_cases hopens : w.PrimaryOpens a
  · exact (balanced_step h.balanced hopens hstep).1
  · exact balanced_of_not_opens h.balanced hopens hstep

/-! ## Whole runs -/

def Good (w : Writer E) : Prop := w.OnTrack ∧ w.dlq.primary.file ≠ .poisoned

def Bad (w : Writer E) : Prop := w.OffTrack ∨ w.dlq.primary.file = .poisoned

/-- Careful steps keep the task on its way to the right accounts; any other step leads off it for good. -/
theorem careful_step (w : Writer E) (a : Action E) (w' : Writer E) (h : w.Invariant)
    (hstep : w.step a = some w') : w'.Invariant ∧ (w.Good → w.Careful a → w'.Good) ∧
      (¬ w.Careful a ∨ w.Bad → w'.Bad) := by
  refine ⟨invariant_step h hstep, ?_, fun hbad => ?_⟩
  · rintro ⟨hon, hfile⟩ ⟨hempty, hopens⟩
    exact ⟨(balanced_step h.balanced hopens hstep).2.1 hon hempty,
      fun hpoisoned => ((poisoned_step hstep).mp hpoisoned).elim hfile (· hopens)⟩
  · by_cases hopens : w.PrimaryOpens a
    · have hcases : (¬ w.ClosesEmpty a ∨ w.OffTrack) ∨ w.dlq.primary.file = .poisoned := by
        rcases hbad with hnot | hoff | hfile
        · exact .inl (.inl fun hempty => hnot ⟨hempty, hopens⟩)
        · exact .inl (.inr hoff)
        · exact .inr hfile
      exact hcases.imp (balanced_step h.balanced hopens hstep).2.2
        fun hfile => (poisoned_step hstep).mpr (.inl hfile)
    · exact .inr ((poisoned_step hstep).mpr (.inr hopens))

theorem accounts_of_onTrack (h : w.Invariant) (hon : w.OnTrack)
    (hfile : w.dlq.primary.file ≠ .poisoned) (hover : w.isOver = true) : w.Accounts := by
  obtain ⟨lost, hplaced, hlost, hpanicked⟩ := h.placed
  have hnone := hlost.mpr hfile
  have hended : w.phase = .ended := by
    unfold isOver at hover
    split at hover
    next hended => exact hended
    next hphase => exact absurd hnone (hpanicked hphase)
    next => cases hover
  obtain ⟨htotals, hunderflow⟩ := hon.2 hended
  have hbatch : w.batch = [] := by
    have hbalanced := h.balanced
    rwa [Balanced, hended] at hbalanced
  rw [hnone, List.append_nil, hended, hbatch, List.append_nil,
    show (Phase.ended : Phase E).inFlight = [] from rfl, List.append_nil] at hplaced
  exact ⟨hplaced, htotals, hunderflow⟩

theorem not_accounts_of_offTrack (hoff : w.OffTrack) (hover : w.isOver = true) : ¬ w.Accounts := by
  rintro ⟨-, htotals, hunderflow⟩
  rcases hoff with hpoint | ⟨-, hnot⟩
  · unfold isOver at hover
    split at hover
    next hended =>
      rw [hended] at hpoint
      cases hpoint
    next hphase =>
      rw [hphase] at hpoint
      cases hpoint
    next => cases hover
  · exact hnot ⟨htotals, hunderflow⟩

theorem not_accounts_of_poisoned (h : w.Placed) (hfile : w.dlq.primary.file = .poisoned) :
    ¬ w.Accounts := by
  rintro ⟨honce, -, -⟩
  obtain ⟨lost, hplaced, hlost, -⟩ := h
  have hne : lost ≠ [] := fun hnone => hlost.mp hnone hfile
  have hlength := (honce.symm.trans hplaced).length_eq
  have hpos := List.length_pos_of_ne_nil hne
  simp only [List.length_append] at hlength
  omega

instance : ∀ a : Action E, Decidable (w.Careful a)
  | .close => inferInstanceAs (Decidable (w.batch = [] ∧ True))
  | .receive .. | .timeout _ => inferInstanceAs (Decidable (True ∧ True))
  | .proceed _ io => inferInstanceAs (Decidable (True ∧ (w.queues = true → w.dlq.primary.Opens io)))
  | .drain ios => inferInstanceAs (Decidable (True ∧ DrainOpens w.dlq.primary w.dlq.secondary ios))

/-- A disk that is full for what the store writes, and takes the lines of the queue from the second on. -/
def flushedRun : List (Action Nat) :=
  [.receive 1 0, .receive 2 0, .proceed (some "disk full") ⟨true, true⟩, .proceed none ⟨true, true⟩,
    .proceed (some "disk full") ⟨true, true⟩, .proceed (some "disk full") ⟨true, true⟩,
    .proceed (some "disk full") ⟨true, true⟩, .proceed none ⟨true, false⟩, .drain [⟨false, true⟩],
    .proceed none ⟨true, true⟩, .proceed none ⟨true, true⟩, .close]

def closedRun : List (Action Nat) :=
  [.receive 1 0, .close, .proceed none ⟨true, true⟩, .proceed none ⟨true, true⟩]

end Writer

end Arcxa.Ingestion
