import Arcxa.Lib.Iter
import Arcxa.Kafka.DurableSink
import Arcxa.Kafka.Election

/-!
# The replay manager

`recover_on_startup` takes the pending events from the tracker and writes them through a sink
again, in batches. The sink is a parameter here (`Target`), and what every write and every
pause keeps, the recovery keeps (`recoverEvents_invariant`).

With the durable sink, a replayed event gets a new event id, so that the acknowledgment of the
replay does not retire the old pending record. A recovery converges exactly when nothing is
pending (`replay_converges_iff`).
-/

namespace Arcxa.Kafka

variable {S E : Type}

/-- Times are in milliseconds. -/
structure ReplayConfig where
  batchSize : Nat
  batchInterval : Nat
  maxRetryAttempts : Nat
  retryBackoff : Nat
  maxBackoff : Nat

namespace ReplayConfig

protected def default : ReplayConfig where
  batchSize := 500
  batchInterval := 1000
  maxRetryAttempts := 3
  retryBackoff := 1000
  maxBackoff := 60000

end ReplayConfig

structure RecoveryReport where
  totalEvents : Nat
  replayedEvents : Nat
  failedEvents : Nat
  failures : List String
  batchesProcessed : Nat
  retryAttempts : Nat
  deriving DecidableEq

def RecoveryReport.isSuccessful (report : RecoveryReport) : Bool := report.failedEvents == 0

/-- Where events are replayed to: a write, which can panic (`none`), and the passing of time. -/
structure Target (S E : Type) where
  write : S → E → Option (Except String Unit × S)
  sleep : Nat → S → S

namespace ReplayManager

variable (target : Target S E) (config : ReplayConfig)

/-! ## Batches -/

/-- The loop of `replay_batch`, with the events replayed so far. -/
def replayEvents : Nat → S → List E → Option (Nat × S)
  | replayed, s, [] => some (replayed, s)
  | replayed, s, event :: events =>
    match target.write s event with
    | none => none
    | some (.ok _, s) => replayEvents (replayed + 1) s events
    | some (.error _, s) => replayEvents replayed s events

def replayBatch (s : S) (batch : List E) : Option (Except String Nat × S) :=
  (replayEvents target 0 s batch).map fun (replayed, s) =>
    if replayed = 0 then (.error "No events replayed in batch", s) else (.ok replayed, s)

/-- The loop of `replay_batch_with_retry`, with the attempts that are left. The result is the
number of events replayed and of retries. -/
def replayBatchWithRetry (batch : List E) :
    Nat → Nat → Nat → S → Option (Except String (Nat × Nat) × S)
  | attempts, backoff, retries, s =>
    match replayBatch target s batch with
    | none => none
    | some (.ok replayed, s) => some (.ok (replayed, retries), s)
    | some (.error err, s) =>
      match attempts with
      | 0 => some (.error err, s)
      | attempts + 1 =>
        replayBatchWithRetry batch attempts (min (backoff * 2) config.maxBackoff) (retries + 1)
          (target.sleep backoff s)

def addBatch (report : RecoveryReport) (batchIdx : Nat) (batch : List E) :
    Except String (Nat × Nat) → RecoveryReport
  | .ok (replayed, retries) =>
    { report with
      replayedEvents := report.replayedEvents + replayed
      retryAttempts := report.retryAttempts + retries
      batchesProcessed := report.batchesProcessed + 1 }
  | .error err =>
    { report with
      failedEvents := report.failedEvents + batch.length
      failures := report.failures ++ [s!"Batch {batchIdx + 1} failed: {err}"] }

/-- The loop over the batches, of which there are `batches`, from the one with index
`batchIdx` on. -/
def replayBatches (batches : Nat) :
    Nat → RecoveryReport → S → List (List E) → Option (RecoveryReport × S)
  | _, report, s, [] => some (report, s)
  | batchIdx, report, s, batch :: rest =>
    match replayBatchWithRetry target config batch config.maxRetryAttempts config.retryBackoff 0 s with
    | none => none
    | some (result, s) =>
      -- rate limiting between batches
      let s := if batchIdx < batches - 1 then target.sleep config.batchInterval s else s
      replayBatches batches (batchIdx + 1) (addBatch report batchIdx batch result) s rest

/-- `recover_on_startup` for the unacknowledged events `events`. `slice::chunks` panics when the
batch size is 0. -/
def recoverEvents (s : S) (events : List E) : Option (RecoveryReport × S) :=
  let report : RecoveryReport :=
    { totalEvents := events.length, replayedEvents := 0, failedEvents := 0, failures := [],
      batchesProcessed := 0, retryAttempts := 0 }
  if events = [] then some (report, s)
  else if config.batchSize = 0 then none
  else
    replayBatches target config ((events.length + config.batchSize - 1) / config.batchSize) 0
      report s (chunks config.batchSize events)

/-! ## What a recovery keeps -/

section Invariant

variable {target} {config} {P : S → Prop}
  (hwrite : ∀ s e r s', P s → target.write s e = some (r, s') → P s')
  (hsleep : ∀ d s, P s → P (target.sleep d s))

include hwrite in
theorem replayEvents_invariant {n n' : Nat} {s s' : S} {events : List E} (hs : P s)
    (h : replayEvents target n s events = some (n', s')) : P s' := by
  induction events generalizing n s with
  | nil =>
    cases h
    exact hs
  | cons event events ih =>
    unfold replayEvents at h
    split at h
    next => cases h
    next s₁ hw => exact ih (hwrite s event _ s₁ hs hw) h
    next s₁ hw => exact ih (hwrite s event _ s₁ hs hw) h

include hwrite in
theorem replayBatch_invariant {s s' : S} {batch : List E} {r : Except String Nat} (hs : P s)
    (h : replayBatch target s batch = some (r, s')) : P s' := by
  obtain ⟨⟨n, s₁⟩, hloop, hres⟩ := Option.map_eq_some_iff.mp h
  have hs₁ : P s₁ := replayEvents_invariant hwrite hs hloop
  dsimp only at hres
  split_ifs at hres
  · cases hres
    exact hs₁
  · cases hres
    exact hs₁

include hwrite hsleep in
theorem replayBatchWithRetry_invariant {batch : List E} {attempts backoff retries : Nat} {s s' : S}
    {r : Except String (Nat × Nat)} (hs : P s)
    (h : replayBatchWithRetry target config batch attempts backoff retries s = some (r, s')) :
    P s' := by
  induction attempts generalizing backoff retries s with
  | zero =>
    unfold replayBatchWithRetry at h
    split at h
    next => cases h
    next hb =>
      cases h
      exact replayBatch_invariant hwrite hs hb
    next hb =>
      cases h
      exact replayBatch_invariant hwrite hs hb
  | succ attempts ih =>
    unfold replayBatchWithRetry at h
    split at h
    next => cases h
    next hb =>
      cases h
      exact replayBatch_invariant hwrite hs hb
    next hb => exact ih (hsleep _ _ (replayBatch_invariant hwrite hs hb)) h

include hwrite hsleep in
theorem replayBatches_invariant {batches idx : Nat} {report report' : RecoveryReport} {s s' : S}
    {rest : List (List E)} (hs : P s)
    (h : replayBatches target config batches idx report s rest = some (report', s')) : P s' := by
  induction rest generalizing idx report s with
  | nil =>
    cases h
    exact hs
  | cons batch rest ih =>
    unfold replayBatches at h
    split at h
    next => cases h
    next result s₁ hb =>
      have hs₁ : P s₁ := replayBatchWithRetry_invariant hwrite hsleep hs hb
      refine ih ?_ h
      split_ifs
      · exact hsleep _ _ hs₁
      · exact hs₁

include hwrite hsleep in
theorem recoverEvents_invariant {s s' : S} {events : List E} {report : RecoveryReport} (hs : P s)
    (h : recoverEvents target config s events = some (report, s')) : P s' := by
  unfold recoverEvents at h
  dsimp only at h
  split_ifs at h
  · cases h
    exact hs
  · exact replayBatches_invariant hwrite hsleep hs h

end Invariant

end ReplayManager

/-! ## Replay through the durable sink -/

namespace DurableKafkaLineageSink

open Arcxa.Wal

variable (fmt : Format E) (ackConfig : AckTrackingConfig) (config : ReplayConfig)
  (runtime : Runtime) (env : Nat → SendEnv)

/-- The sink as a target; `env n` is the environment of the call that draws the event id `n`. -/
def target : Target (DurableKafkaLineageSink E) E where
  write s event := s.write fmt ackConfig runtime event (env s.drawn)
  sleep d s := { s with now := s.now + d }

def findUnacknowledgedEvents (s : DurableKafkaLineageSink E) : List E :=
  s.ackTracker.getPending.map (fun ack => ack.event)

def recoverOnStartup (s : DurableKafkaLineageSink E) :
    Option (RecoveryReport × DurableKafkaLineageSink E) :=
  ReplayManager.recoverEvents (target fmt ackConfig runtime env) config s
    s.findUnacknowledgedEvents

/-- Each pending event is sent once, none of them stays pending, and a second recovery sends
nothing. -/
def ReplayConverges (s : DurableKafkaLineageSink E) : Prop :=
  ∃ report s', s.recoverOnStartup fmt ackConfig config runtime env = some (report, s') ∧
    (∃ sent, s'.sent = s.sent ++ sent ∧ sent.Perm s.findUnacknowledgedEvents) ∧
    (∀ id ∈ s.ackTracker.pending, id ∉ s'.ackTracker.pending) ∧
    ∃ report' s'', s'.recoverOnStartup fmt ackConfig config runtime env = some (report', s'') ∧
      s''.sent = s'.sent

/-! ## The pending records a call touches -/

/-- Only the pending record of one event id is touched, and no id is drawn. -/
structure TouchesOnly (id : Nat) (s s' : DurableKafkaLineageSink E) : Prop where
  drawn : s'.drawn = s.drawn
  pending : ∀ id', id' ≠ id →
    s'.ackTracker.pending.lookup id' = s.ackTracker.pending.lookup id'

theorem TouchesOnly.trans {id : Nat} {s₁ s₂ s₃ : DurableKafkaLineageSink E}
    (h₁ : TouchesOnly id s₁ s₂) (h₂ : TouchesOnly id s₂ s₃) : TouchesOnly id s₁ s₃ where
  drawn := h₂.drawn.trans h₁.drawn
  pending id' hid := (h₂.pending id' hid).trans (h₁.pending id' hid)

section Phases

variable (s : DurableKafkaLineageSink E) (id : Nat)

theorem touchesOnly_writeToWal (event : E) (sendEnv : SendEnv) :
    TouchesOnly id s (s.writeToWal fmt event sendEnv).2 := by
  unfold writeToWal
  split <;> exact ⟨rfl, fun _ _ => rfl⟩

theorem touchesOnly_trackPending (lsn : Nat) (event : E) :
    TouchesOnly id s (s.trackPending id lsn event) where
  drawn := rfl
  pending _ hid := AList.lookup_insert_ne hid

theorem touchesOnly_admitSend : TouchesOnly id s s.admitSend.2 := ⟨rfl, fun _ _ => rfl⟩

theorem touchesOnly_deliver (event : E) : TouchesOnly id s (s.deliver event) :=
  ⟨rfl, fun _ _ => rfl⟩

theorem touchesOnly_failSend : TouchesOnly id s (s.failSend id) := by
  refine ⟨rfl, fun id' hid => ?_⟩
  show (s.ackTracker.markFailed id).pending.lookup id' = _
  unfold AcknowledgmentTracker.markFailed
  split
  · exact AList.lookup_insert_ne hid
  · rfl

theorem touchesOnly_acknowledge : TouchesOnly id s (s.acknowledge id) := by
  rcases s.acknowledge_cases id with ⟨ack, -, heq⟩ | ⟨-, heq⟩ <;> rw [heq]
  · exact ⟨rfl, fun id' hid => AList.lookup_erase_ne hid⟩
  · exact ⟨rfl, fun _ _ => rfl⟩

theorem sendWithDurability_touches (event : E) (sendEnv : SendEnv) :
    (s.sendWithDurability fmt ackConfig event sendEnv).2.drawn = s.drawn + 1 ∧
      ∀ id', id' ≠ s.drawn →
        (s.sendWithDurability fmt ackConfig event sendEnv).2.ackTracker.pending.lookup id' =
          s.ackTracker.pending.lookup id' := by
  have hbegin : (s.beginSend ackConfig).1 = s.drawn ∧
      (s.beginSend ackConfig).2.drawn = s.drawn + 1 ∧
      (s.beginSend ackConfig).2.ackTracker = s.ackTracker := by
    unfold beginSend
    dsimp only
    split_ifs <;> exact ⟨rfl, rfl, rfl⟩
  obtain ⟨hid, hdrawn, htracker⟩ := hbegin
  -- after the id is drawn, everything touches the record of that id only
  suffices h : TouchesOnly s.drawn (s.beginSend ackConfig).2
      (s.sendWithDurability fmt ackConfig event sendEnv).2 by
    refine ⟨h.drawn.trans hdrawn, fun id' hne => ?_⟩
    rw [h.pending id' hne, htracker]
  unfold sendWithDurability
  cases hb : s.beginSend ackConfig with
  | mk eventId s₀ =>
    rw [hb] at hid
    cases hid
    dsimp only
    split_ifs
    · exact ⟨rfl, fun _ _ => rfl⟩
    have hwal := touchesOnly_writeToWal fmt s₀ s.drawn event sendEnv
    cases hw : s₀.writeToWal fmt event sendEnv with
    | mk result s₁ =>
      rw [hw] at hwal
      cases result with
      | error err => exact hwal
      | ok lsn =>
        have htrack := hwal.trans (touchesOnly_trackPending s₁ s.drawn lsn event)
        have hallowed := htrack.trans (touchesOnly_admitSend _ s.drawn)
        dsimp only
        cases ha : (s₁.trackPending s.drawn lsn event).admitSend with
        | mk allowed s₂ =>
          rw [ha] at hallowed
          cases allowed with
          | false => exact hallowed
          | true =>
            dsimp only at hallowed ⊢
            have hsend : TouchesOnly s.drawn s₀ { s₂ with now := s₂.now + sendEnv.sendTime } :=
              hallowed.trans ⟨rfl, fun _ _ => rfl⟩
            cases sendEnv.kafka with
            | some location =>
              exact (hsend.trans (touchesOnly_deliver _ _ event)).trans
                (touchesOnly_acknowledge _ _)
            | none => exact hsend.trans (touchesOnly_failSend _ _)

end Phases

theorem lookup_pending_recover {s s' : DurableKafkaLineageSink E} {report : RecoveryReport}
    (h : s.recoverOnStartup fmt ackConfig config runtime env = some (report, s')) {id : Nat}
    (hid : id < s.drawn) :
    s'.ackTracker.pending.lookup id = s.ackTracker.pending.lookup id := by
  have hkept : s.drawn ≤ s'.drawn ∧ ∀ id, id < s.drawn →
      s'.ackTracker.pending.lookup id = s.ackTracker.pending.lookup id := by
    refine ReplayManager.recoverEvents_invariant
      (P := fun t => s.drawn ≤ t.drawn ∧ ∀ id, id < s.drawn →
        t.ackTracker.pending.lookup id = s.ackTracker.pending.lookup id) ?_ ?_
      ⟨le_refl _, fun _ _ => rfl⟩ h
    · intro t event result t' ht hwrite
      cases runtime with
      | none =>
        cases hwrite
        exact ht
      | async => cases hwrite
      | entered =>
        have hsend := sendWithDurability_touches fmt ackConfig t event (env t.drawn)
        rw [show t.sendWithDurability fmt ackConfig event (env t.drawn) = (result, t') from
          Option.some.inj hwrite] at hsend
        dsimp only at hsend
        refine ⟨by omega, fun id hid => ?_⟩
        rw [hsend.2 id (by omega), ht.2 id hid]
    · intro d t ht
      exact ht
  exact hkept.2 id hid

theorem recoverOnStartup_of_empty {s : DurableKafkaLineageSink E}
    (h : s.ackTracker.pending = ∅) :
    ∃ report, s.recoverOnStartup fmt ackConfig config runtime env = some (report, s) := by
  have hnone : s.findUnacknowledgedEvents = [] := by
    rw [findUnacknowledgedEvents, AcknowledgmentTracker.getPending, h]
    rfl
  unfold recoverOnStartup ReplayManager.recoverEvents
  rw [hnone]
  exact ⟨_, rfl⟩

/-- **A recovery converges** exactly when nothing is pending, for every configuration and every
environment. The ids of the pending records are among those drawn. -/
theorem replay_converges_iff (s : DurableKafkaLineageSink E)
    (hdrawn : ∀ id ∈ s.ackTracker.pending, id < s.drawn) :
    ReplayConverges fmt ackConfig config runtime env s ↔ s.ackTracker.pending = ∅ := by
  constructor
  · rintro ⟨report, s', hrecover, -, hretired, -⟩
    by_contra hpending
    obtain ⟨p, hp⟩ := List.exists_mem_of_ne_nil s.ackTracker.pending.entries
      (fun h => hpending (AList.ext h))
    have hid : p.1 ∈ s.ackTracker.pending := List.mem_keys_of_mem hp
    have hkept := lookup_pending_recover fmt ackConfig config runtime env hrecover (hdrawn _ hid)
    have hgone := hretired _ hid
    rw [← AList.lookup_eq_none, hkept, AList.lookup_eq_none] at hgone
    exact hgone hid
  · intro hempty
    obtain ⟨report, hrecover⟩ :=
      recoverOnStartup_of_empty fmt ackConfig config runtime env hempty
    refine ⟨report, s, hrecover, ⟨[], (List.append_nil _).symm, ?_⟩, ?_, report, s, hrecover, rfl⟩
    · rw [findUnacknowledgedEvents, AcknowledgmentTracker.getPending, hempty]
      exact List.Perm.refl _
    · intro id hid
      rw [hempty] at hid
      exact absurd hid (AList.notMem_empty id)

/-- A sink after one event, which Kafka refuses or acknowledges. -/
def sampleAfter (ack : Option (Int × Int)) : DurableKafkaLineageSink Nat :=
  (sampleSink.sendWithDurability bincode sampleAckConfig 7 (sampleEnv ack)).2

def samplePending : DurableKafkaLineageSink Nat := sampleAfter none

/-- With its one event pending, a recovery that sends it again does not converge; after an
acknowledged event nothing is left to do. -/
theorem replay_converges_sample :
    ¬ ReplayConverges bincode sampleAckConfig .default .entered
      (fun _ => sampleEnv (some (0, 0))) samplePending ∧
    ReplayConverges bincode sampleAckConfig .default .entered
      (fun _ => sampleEnv (some (0, 0))) (sampleAfter (some (0, 0))) := by
  have hdrawn : ∀ s : DurableKafkaLineageSink Nat, s.ackTracker.pending.keys ⊆ [0] →
      s.drawn = 1 → ∀ id ∈ s.ackTracker.pending, id < s.drawn := by
    intro s hkeys hone id hid
    rw [hone, List.mem_singleton.mp (hkeys (AList.mem_keys.mp hid))]
    decide
  have hempty : ∀ s : DurableKafkaLineageSink Nat, s.ackTracker.pending.keys = [] →
      s.ackTracker.pending = ∅ := fun s hkeys => AList.ext (List.map_eq_nil_iff.mp hkeys)
  constructor
  · intro h
    have hempty := (replay_converges_iff bincode sampleAckConfig .default .entered _ samplePending
      (hdrawn _ (by decide +kernel) (by decide +kernel))).mp h
    exact absurd (congrArg AList.keys hempty) (by decide +kernel)
  · exact (replay_converges_iff bincode sampleAckConfig .default .entered _ _
      (hdrawn _ (by decide +kernel) (by decide +kernel))).mpr (hempty _ (by decide +kernel))

/-- A recovery of `s` in which Kafka accepts everything. -/
def sampleRecover (runtime : Runtime) (s : DurableKafkaLineageSink Nat) :
    Option (RecoveryReport × DurableKafkaLineageSink Nat) :=
  s.recoverOnStartup bincode sampleAckConfig .default runtime (fun _ => sampleEnv (some (0, 0)))

/-- Two recoveries send the event twice, and its record is pending still. Within an asynchronous
task the recovery panics. -/
theorem replay_diverges :
    (sampleRecover .entered samplePending).map
        (fun p => (p.2.sent, p.2.ackTracker.pending.keys)) = some ([7], [0]) ∧
    ((sampleRecover .entered samplePending).bind (fun p => sampleRecover .entered p.2)).map
        (fun p => (p.2.sent, p.2.ackTracker.pending.keys)) = some ([7, 7], [0]) ∧
    (sampleRecover .async samplePending).isNone = true ∧
    ∀ runtime, ¬ ReplayConverges bincode sampleAckConfig .default runtime
      (fun _ => sampleEnv (some (0, 0))) samplePending := by
  refine ⟨by decide +kernel, by decide +kernel, by decide +kernel, ?_⟩
  rintro runtime ⟨report, s', hrecover, -, hretired, -⟩
  have hpending : 0 ∈ samplePending.ackTracker.pending := by decide +kernel
  have hdrawn : 0 < samplePending.drawn := by decide +kernel
  have hkept := lookup_pending_recover _ _ _ _ _ hrecover hdrawn
  have hgone := hretired 0 hpending
  rw [← AList.lookup_eq_none, hkept, AList.lookup_eq_none] at hgone
  exact hgone hpending

end DurableKafkaLineageSink

end Arcxa.Kafka
