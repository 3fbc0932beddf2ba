import Arcxa.Lib.Codec
import Arcxa.Traceability.Store

/-!
# The Kafka consumer of evidence events

The consumer receives one message at a time, applies it, and commits its offset; when one of these
fails it tries the same message again until it succeeds. A message that cannot be decoded is
counted and its offset committed. But this is for messages with a text: one without a payload, or
whose payload is not UTF-8, ends the loop before it is looked at (`run`, which asks for the text
with `?`).

`consumer_survives_iff` is the statement over all runs: the consumer keeps its promises exactly when every
message it receives has a text.
-/

namespace Arcxa.Traceability.EventBus

variable {S : Schema}

def MIGRATION_EVIDENCE_EVENT_SCHEMA_VERSION : Nat := 1

/-- `MigrationEvidenceEventEnvelope`, as far as the consumer looks at it. -/
structure Envelope (S : Schema) where
  schemaVersion : Nat
  event : Event S

/-- How texts and envelopes are read. -/
structure Decoder (S : Schema) where
  /-- `str::from_utf8`. -/
  fromUtf8 : Bytes → Option String
  /-- `serde_json::from_str`. -/
  fromStr : String → Option (Envelope S)

def decodeEventEnvelope (decoder : Decoder S) (payload : String) : Except String (Envelope S) :=
  match decoder.fromStr payload with
  | none => .error "failed to deserialize migration evidence event envelope"
  | some envelope =>
    if envelope.schemaVersion ≠ MIGRATION_EVIDENCE_EVENT_SCHEMA_VERSION then
      .error ("unsupported migration evidence event schema version " ++
        toString envelope.schemaVersion)
    else
      .ok envelope

/-! ## Messages and offsets -/

/-- A message of the topic. -/
structure Message where
  partition : Int
  offset : Nat
  payload : Option Bytes
  deriving DecidableEq

structure CommitCursor where
  partition : Int
  offset : Nat
  deriving DecidableEq

def CommitCursor.fromMessage (message : Message) : CommitCursor :=
  ⟨message.partition, message.offset⟩

/-- An offset of a partition, zero where there is none (`auto.offset.reset`). -/
def offsetOf (offsets : BTreeMap Int Nat) (partition : Int) : Nat :=
  (offsets.get partition).getD 0

theorem offsetOf_insert (offsets : BTreeMap Int Nat) (p q : Int) (offset : Nat) :
    offsetOf (offsets.insert p offset) q = if q = p then offset else offsetOf offsets q := by
  unfold offsetOf
  rw [BTreeMap.get_insert]
  split_ifs <;> rfl

/-! ## The consumer -/

inductive ConsumerState where
  | Running
  | Recovering
  | Stopped
  deriving DecidableEq

/-- The counters of `EventBusRuntimeMonitor`. -/
structure RuntimeMonitor where
  consumerState : ConsumerState
  malformedMessageCount : Nat
  processedMessageCount : Nat
  retryAttemptCount : Nat

namespace RuntimeMonitor

def markRetry (monitor : RuntimeMonitor) : RuntimeMonitor :=
  { monitor with
    consumerState := .Recovering
    retryAttemptCount := monitor.retryAttemptCount + 1 }

def markPoisonMessage (monitor : RuntimeMonitor) : RuntimeMonitor :=
  { monitor with malformedMessageCount := monitor.malformedMessageCount + 1 }

def markProcessed (monitor : RuntimeMonitor) : RuntimeMonitor :=
  { monitor with
    consumerState := .Running
    processedMessageCount := monitor.processedMessageCount + 1 }

def markStopped (monitor : RuntimeMonitor) : RuntimeMonitor :=
  { monitor with consumerState := .Stopped }

end RuntimeMonitor

/-- What becomes of a commit. One that is not acknowledged is an error to the consumer, whether the
broker has stored it or not. -/
inductive Commit where
  | acknowledged
  | unacknowledged
  | lost
  deriving DecidableEq

/-- What one attempt meets: the clock, the write of the store, and the commit. -/
structure Moment where
  persistedAt : Nat → Time
  now : Time
  writes : Bool
  commit : Commit

def Moment.Works (moment : Moment) : Prop :=
  moment.writes = true ∧ moment.commit = .acknowledged

structure Consumer (S : Schema) where
  monitor : RuntimeMonitor
  store : Store S
  /-- The offsets of the group, at the broker. -/
  committed : BTreeMap Int Nat

inductive ProcessOutcome where
  | Committed
  | SkippedPoison
  deriving DecidableEq

namespace Consumer

variable (decoder : Decoder S) (consumer : Consumer S)

def commitCursor (cursor : CommitCursor) (context : String) (commit : Commit) :
    Consumer S × Except String Unit :=
  let committed := consumer.committed.insert cursor.partition (cursor.offset + 1)
  match commit with
  | .acknowledged => ({ consumer with committed }, .ok ())
  | .unacknowledged => ({ consumer with committed }, .error ("failed to commit " ++ context))
  | .lost => (consumer, .error ("failed to commit " ++ context))

variable [TextCodec (LoggedEvent S)]

def ingestEvents (event : Event S) (moment : Moment) : Consumer S × Except String Unit :=
  let (store, result) := Traceability.ingestEvents consumer.store
    ⟨[event], moment.persistedAt, moment.now, moment.writes⟩
  ({ consumer with store }, result.map fun _ => ())

def processMessage (payload : String) (cursor : CommitCursor) (moment : Moment) :
    Consumer S × Except String ProcessOutcome :=
  match decodeEventEnvelope decoder payload with
  | .error _ =>
    let consumer := { consumer with monitor := consumer.monitor.markPoisonMessage }
    let (consumer, result) := consumer.commitCursor cursor "malformed Kafka message" moment.commit
    (consumer, result.map fun _ => .SkippedPoison)
  | .ok envelope =>
    match consumer.ingestEvents envelope.event moment with
    | (consumer, .error e) => (consumer, .error e)
    | (consumer, .ok _) =>
      let consumer := { consumer with monitor := consumer.monitor.markProcessed }
      let (consumer, result) :=
        consumer.commitCursor cursor "processed Kafka message" moment.commit
      (consumer, result.map fun _ => .Committed)

/-- One turn of the loop of `process_with_retry`, and whether it was the last. -/
def attempt (payload : String) (cursor : CommitCursor) (moment : Moment) : Consumer S × Bool :=
  match consumer.processMessage decoder payload cursor moment with
  | (consumer, .ok _) => (consumer, true)
  | (consumer, .error _) => ({ consumer with monitor := consumer.monitor.markRetry }, false)

end Consumer

/-- `payload_view::<str>`, as `run` takes it. -/
def payloadText (decoder : Decoder S) (message : Message) : Except String String :=
  match message.payload with
  | none => .error "migration evidence Kafka message payload was empty"
  | some bytes =>
    match decoder.fromUtf8 bytes with
    | none => .error "failed to decode Kafka payload as UTF-8"
    | some text => .ok text

/-! ## The loop -/

inductive Exit where
  | receive
  | payload (error : String)
  deriving DecidableEq

inductive Phase where
  | receiving
  | processing (message : Message) (payload : String)
  | stopped (exit : Exit)
  deriving DecidableEq

/-- The consumer in its loop. -/
structure Loop (S : Schema) where
  consumer : Consumer S
  phase : Phase
  /-- The offsets from which on the broker delivers. -/
  position : BTreeMap Int Nat
  /-- For the statements only: the messages received, those that were counted as malformed, and
  those for whose event `ingest_events` has returned `Ok`. -/
  received : List Message
  counted : List Message
  ingested : List Message

/-- What happens: a message is received, or there is an error instead; or the message in hand is
tried once. -/
inductive Action where
  | recv (message : Option Message)
  | attempt (moment : Moment)

namespace Loop

variable (decoder : Decoder S)

def started (store : Store S) (committed : BTreeMap Int Nat) : Loop S where
  consumer := ⟨⟨.Running, 0, 0, 0⟩, store, committed⟩
  phase := .receiving
  position := committed
  received := []
  counted := []
  ingested := []

def stop (loop : Loop S) (exit : Exit) : Loop S :=
  { loop with
    phase := .stopped exit
    consumer := { loop.consumer with monitor := loop.consumer.monitor.markStopped } }

def deliver (loop : Loop S) (message : Message) : Loop S :=
  { loop with
    position := loop.position.insert message.partition (message.offset + 1)
    received := loop.received ++ [message] }

variable [TextCodec (LoggedEvent S)]

def attempt (loop : Loop S) (message : Message) (payload : String) (moment : Moment) : Loop S :=
  let (consumer, done) :=
    loop.consumer.attempt decoder payload (.fromMessage message) moment
  { loop with
    consumer
    phase := if done then .receiving else loop.phase
    counted :=
      match decodeEventEnvelope decoder payload with
      | .error _ => loop.counted ++ [message]
      | .ok _ => loop.counted
    ingested :=
      match decodeEventEnvelope decoder payload with
      | .error _ => loop.ingested
      | .ok envelope =>
        match (loop.consumer.ingestEvents envelope.event moment).2 with
        | .error _ => loop.ingested
        | .ok _ => loop.ingested ++ [message] }

def step (loop : Loop S) : Action → Option (Loop S)
  | .recv none =>
    match loop.phase with
    | .receiving => some (loop.stop .receive)
    | _ => none
  | .recv (some message) =>
    match loop.phase with
    | .receiving =>
      if offsetOf loop.position message.partition ≤ message.offset then
        match payloadText decoder message with
        | .error e => some ((loop.deliver message).stop (.payload e))
        | .ok payload => some { loop.deliver message with phase := .processing message payload }
      else none
    | _ => none
  | .attempt moment =>
    match loop.phase with
    | .processing message payload => some (loop.attempt decoder message payload moment)
    | _ => none

end Loop

/-! ## What is to hold -/

def Readable (decoder : Decoder S) (message : Message) : Prop :=
  ∃ payload, payloadText decoder message = .ok payload

instance (decoder : Decoder S) (message : Message) : Decidable (Readable decoder message) :=
  decidable_of_iff ((payloadText decoder message).isOk = true) <| by
    unfold Readable
    cases payloadText decoder message <;> simp [Except.isOk, Except.toBool]

def WellFormed (decoder : Decoder S) (message : Message) : Prop :=
  ∃ payload envelope, payloadText decoder message = .ok payload ∧
    decodeEventEnvelope decoder payload = .ok envelope

/-- The consumer survives what it receives and skips nothing good. -/
structure Survives [TextCodec (LoggedEvent S)] (decoder : Decoder S) (loop : Loop S) : Prop where
  /-- The loop has not ended because of a message. -/
  running : ∀ e, loop.phase ≠ .stopped (.payload e)
  /-- A malformed message has been counted and its offset committed, or it is the one in hand. -/
  malformed : ∀ message ∈ loop.received, ¬ WellFormed decoder message →
    (∃ payload, loop.phase = .processing message payload) ∨
      message ∈ loop.counted ∧
        message.offset < offsetOf loop.consumer.committed message.partition
  /-- Every message counted has been counted in the monitor. -/
  counted : loop.consumer.monitor.malformedMessageCount = loop.counted.length
  /-- The committed offset passes a well-formed message after its event was ingested. -/
  wellFormed : ∀ message ∈ loop.received, WellFormed decoder message →
    message.offset < offsetOf loop.consumer.committed message.partition →
      message ∈ loop.ingested
  /-- A message is done with as soon as nothing fails. -/
  progress : ∀ moment loop', moment.Works → loop.step decoder (.attempt moment) = some loop' →
    loop'.phase = .receiving

/-! ## One attempt -/

section Attempt

variable [TextCodec (LoggedEvent S)] {decoder : Decoder S} {loop : Loop S} {message : Message}
  {payload : String} {moment : Moment}

def Loop.passed (loop : Loop S) (message : Message) : BTreeMap Int Nat :=
  loop.consumer.committed.insert message.partition (message.offset + 1)

/-- What an attempt can do: it gets to the commit, or it changes neither the offsets nor the
message in hand. -/
structure Attempted (decoder : Decoder S) (loop : Loop S) (message : Message) (payload : String)
    (loop' : Loop S) : Prop where
  received : loop'.received = loop.received
  position : loop'.position = loop.position
  counts : loop.consumer.monitor.malformedMessageCount = loop.counted.length →
    loop'.consumer.monitor.malformedMessageCount = loop'.counted.length
  counted : ∀ m ∈ loop.counted, m ∈ loop'.counted
  ingested : ∀ m ∈ loop.ingested, m ∈ loop'.ingested
  outcome :
    loop'.consumer.committed = loop.consumer.committed ∧ loop'.phase = loop.phase ∨
    loop'.consumer.committed = loop.passed message ∧
      (loop'.phase = .receiving ∨ loop'.phase = loop.phase) ∧
      ((∃ e, decodeEventEnvelope decoder payload = .error e) → message ∈ loop'.counted) ∧
      ((∃ envelope, decodeEventEnvelope decoder payload = .ok envelope) →
        message ∈ loop'.ingested)

open Consumer

theorem attempt_of_malformed {e : String} (hdecode : decodeEventEnvelope decoder payload = .error e) :
    loop.attempt decoder message payload moment =
      { loop with
        consumer := { loop.consumer with
          monitor :=
            if moment.commit = .acknowledged then loop.consumer.monitor.markPoisonMessage
            else loop.consumer.monitor.markPoisonMessage.markRetry
          committed :=
            if moment.commit = .lost then loop.consumer.committed else loop.passed message }
        phase := if moment.commit = .acknowledged then .receiving else loop.phase
        counted := loop.counted ++ [message] } := by
  cases hcommit : moment.commit <;>
    simp [Loop.attempt, attempt, processMessage, commitCursor, hdecode,
      hcommit, Loop.passed, CommitCursor.fromMessage, Except.map]

theorem attempt_of_wellFormed {envelope : Envelope S} {consumer : Consumer S} {u : Unit}
    (hdecode : decodeEventEnvelope decoder payload = .ok envelope)
    (hingest : loop.consumer.ingestEvents envelope.event moment = (consumer, .ok u)) :
    loop.attempt decoder message payload moment =
      { loop with
        consumer := { consumer with
          monitor :=
            if moment.commit = .acknowledged then consumer.monitor.markProcessed
            else consumer.monitor.markProcessed.markRetry
          committed :=
            if moment.commit = .lost then loop.consumer.committed else loop.passed message }
        phase := if moment.commit = .acknowledged then .receiving else loop.phase
        ingested := loop.ingested ++ [message] } := by
  have hcommitted : consumer.committed = loop.consumer.committed :=
    congrArg (fun r => r.1.committed) hingest.symm
  cases hcommit : moment.commit <;>
    simp [Loop.attempt, attempt, processMessage, commitCursor, hdecode,
      hingest, hcommit, hcommitted, Loop.passed, CommitCursor.fromMessage, Except.map]

theorem attempt_of_error {envelope : Envelope S} {consumer : Consumer S} {e : String}
    (hdecode : decodeEventEnvelope decoder payload = .ok envelope)
    (hingest : loop.consumer.ingestEvents envelope.event moment = (consumer, .error e)) :
    loop.attempt decoder message payload moment =
      { loop with consumer := { consumer with monitor := consumer.monitor.markRetry } } := by
  simp [Loop.attempt, attempt, processMessage, hdecode, hingest]

theorem attempted (decoder : Decoder S) (loop : Loop S) (message : Message) (payload : String)
    (moment : Moment) :
    Attempted decoder loop message payload (loop.attempt decoder message payload moment) := by
  cases hdecode : decodeEventEnvelope decoder payload with
  | error e =>
    rw [attempt_of_malformed hdecode]
    refine ⟨rfl, rfl, ?_, fun m hm => List.mem_append_left _ hm, fun m hm => hm, ?_⟩
    · intro hcount
      cases moment.commit <;> simp [RuntimeMonitor.markPoisonMessage, RuntimeMonitor.markRetry, hcount]
    · cases moment.commit <;> simp [hdecode]
  | ok envelope =>
    cases hingest : loop.consumer.ingestEvents envelope.event moment with
    | mk consumer result =>
      have hmonitor : consumer.monitor = loop.consumer.monitor :=
        congrArg (fun r => r.1.monitor) hingest.symm
      cases result with
      | error e =>
        have hcommitted : consumer.committed = loop.consumer.committed :=
          congrArg (fun r => r.1.committed) hingest.symm
        rw [attempt_of_error hdecode hingest]
        exact ⟨rfl, rfl, fun hcount => hmonitor ▸ hcount, fun m hm => hm, fun m hm => hm,
          .inl ⟨hcommitted, rfl⟩⟩
      | ok u =>
        rw [attempt_of_wellFormed hdecode hingest]
        refine ⟨rfl, rfl, ?_, fun m hm => hm, fun m hm => List.mem_append_left _ hm, ?_⟩
        · intro hcount
          cases moment.commit <;>
            simp [RuntimeMonitor.markProcessed, RuntimeMonitor.markRetry, hmonitor, hcount]
        · cases moment.commit <;> simp [hdecode]

theorem phase_attempt_of_works (hworks : moment.Works) :
    (loop.attempt decoder message payload moment).phase = .receiving := by
  obtain ⟨hwrites, hcommit⟩ := hworks
  cases hdecode : decodeEventEnvelope decoder payload with
  | error e =>
    rw [attempt_of_malformed hdecode]
    exact if_pos hcommit
  | ok envelope =>
    cases hingest : loop.consumer.ingestEvents envelope.event moment with
    | mk consumer result =>
      cases result with
      | error e =>
        have herror : (loop.consumer.ingestEvents envelope.event moment).2 = .error e := by
          rw [hingest]
        simp [Consumer.ingestEvents, Traceability.ingestEvents, persist, hwrites, Except.map] at herror
      | ok u =>
        rw [attempt_of_wellFormed hdecode hingest]
        exact if_pos hcommit

end Attempt

/-! ## Runs -/

def Loop.Done (decoder : Decoder S) (loop : Loop S) (message : Message) : Prop :=
  message.offset < offsetOf loop.consumer.committed message.partition ∧
    (¬ WellFormed decoder message → message ∈ loop.counted) ∧
    (WellFormed decoder message → message ∈ loop.ingested)

/-- The invariant of the loop as long as it receives texts. -/
structure Loop.Sound (decoder : Decoder S) (loop : Loop S) : Prop where
  running : ∀ e, loop.phase ≠ .stopped (.payload e)
  counts : loop.consumer.monitor.malformedMessageCount = loop.counted.length
  committed_le : ∀ p, offsetOf loop.consumer.committed p ≤ offsetOf loop.position p
  done : ∀ message ∈ loop.received,
    (∃ payload, loop.phase = .processing message payload) ∨ loop.Done decoder message
  /-- The message in hand is the last one of its partition; it may have been committed already, by
  a commit that was not acknowledged. -/
  inHand : ∀ message payload, loop.phase = .processing message payload →
    payloadText decoder message = .ok payload ∧
    offsetOf loop.position message.partition = message.offset + 1 ∧
    (message.offset < offsetOf loop.consumer.committed message.partition →
      WellFormed decoder message → message ∈ loop.ingested)

section Runs

variable [TextCodec (LoggedEvent S)] {decoder : Decoder S} {loop loop' : Loop S} {message : Message}
  {payload : String} {moment : Moment}

theorem Loop.Sound.survives (h : loop.Sound decoder) : Survives decoder loop where
  running := h.running
  malformed message hmem hmalformed :=
    (h.done message hmem).imp_right fun hdone => ⟨hdone.2.1 hmalformed, hdone.1⟩
  counted := h.counts
  wellFormed message hmem hwell hcommitted := by
    rcases h.done message hmem with ⟨payload, hphase⟩ | hdone
    · exact (h.inHand message payload hphase).2.2 hcommitted hwell
    · exact hdone.2.2 hwell
  progress moment loop' hworks hstep := by
    rw [Loop.step] at hstep
    split at hstep
    next message payload _ => exact Option.some.inj hstep ▸ phase_attempt_of_works hworks
    next => cases hstep

omit [TextCodec (LoggedEvent S)] in
theorem Loop.sound_started (store : Store S) (committed : BTreeMap Int Nat) :
    (Loop.started store committed).Sound decoder where
  running _ := nofun
  counts := rfl
  committed_le _ := le_rfl
  done _ := nofun
  inHand _ _ := nofun

omit [TextCodec (LoggedEvent S)] in
theorem wellFormed_iff (htext : payloadText decoder message = .ok payload) :
    WellFormed decoder message ↔ ∃ envelope, decodeEventEnvelope decoder payload = .ok envelope := by
  constructor
  · rintro ⟨payload', envelope, htext', hdecode⟩
    rw [htext] at htext'
    exact ⟨envelope, Except.ok.inj htext' ▸ hdecode⟩
  · rintro ⟨envelope, hdecode⟩
    exact ⟨payload, envelope, htext, hdecode⟩

theorem Loop.Sound.attempt (h : loop.Sound decoder) (hphase : loop.phase = .processing message payload) :
    (loop.attempt decoder message payload moment).Sound decoder := by
  have hattempted := attempted decoder loop message payload moment
  generalize loop.attempt decoder message payload moment = after at hattempted ⊢
  obtain ⟨htext, hposition, hearlier⟩ := h.inHand message payload hphase
  have hwell := wellFormed_iff htext
  have hmalformed : ¬ WellFormed decoder message →
      ∃ e, decodeEventEnvelope decoder payload = .error e := by
    intro hnot
    cases hdecode : decodeEventEnvelope decoder payload with
    | error e => exact ⟨e, rfl⟩
    | ok envelope => exact absurd (hwell.mpr ⟨envelope, hdecode⟩) hnot
  have hkept : ∀ m, offsetOf loop.consumer.committed m.partition ≤
      offsetOf after.consumer.committed m.partition → loop.Done decoder m → after.Done decoder m := by
    intro m hle hdone
    exact ⟨hdone.1.trans_le hle, fun hm => hattempted.counted m (hdone.2.1 hm),
      fun hm => hattempted.ingested m (hdone.2.2 hm)⟩
  have hsame : ∀ m payload', loop.phase = .processing m payload' → m = message ∧ payload' = payload := by
    intro m payload' hm
    rw [hphase] at hm
    cases hm
    exact ⟨rfl, rfl⟩
  rcases hattempted.outcome with ⟨hcommitted, hphase'⟩ | ⟨hcommitted, hphase', hcounted, hingested⟩
  · refine ⟨fun e => hphase' ▸ h.running e, hattempted.counts h.counts, ?_, ?_, ?_⟩
    · intro p
      rw [hcommitted, hattempted.position]
      exact h.committed_le p
    · intro m hm
      rw [hattempted.received] at hm
      rw [hphase']
      exact (h.done m hm).imp_right (hkept m (hcommitted ▸ le_rfl))
    · intro m payload' hm
      rw [hphase'] at hm
      rw [hattempted.position, hcommitted]
      obtain ⟨htext', hposition', hearlier'⟩ := h.inHand m payload' hm
      exact ⟨htext', hposition', fun hlt hm => hattempted.ingested m (hearlier' hlt hm)⟩
  · have hoffset : ∀ p, offsetOf after.consumer.committed p =
        if p = message.partition then message.offset + 1 else offsetOf loop.consumer.committed p := by
      intro p
      rw [hcommitted, Loop.passed, offsetOf_insert]
    have hmono : ∀ p, offsetOf loop.consumer.committed p ≤ offsetOf after.consumer.committed p := by
      intro p
      rw [hoffset]
      split_ifs with hp
      · rw [hp, ← hposition]
        exact h.committed_le message.partition
      · exact le_rfl
    have hhand : after.Done decoder message := by
      refine ⟨?_, fun hm => hcounted (hmalformed hm), fun hm => hingested (hwell.mp hm)⟩
      rw [hoffset, if_pos rfl]
      exact Nat.lt_succ_self _
    refine ⟨?_, hattempted.counts h.counts, ?_, ?_, ?_⟩
    · intro e he
      rcases hphase' with hreceiving | hsame
      · rw [hreceiving] at he
        cases he
      · exact h.running e (hsame ▸ he)
    · intro p
      rw [hoffset, hattempted.position]
      split_ifs with hp
      · rw [hp, hposition]
      · exact h.committed_le p
    · intro m hm
      rw [hattempted.received] at hm
      rcases h.done m hm with ⟨payload', hm'⟩ | hdone
      · exact .inr ((hsame m payload' hm').1 ▸ hhand)
      · exact .inr (hkept m (hmono _) hdone)
    · intro m payload' hm
      have hbefore : loop.phase = .processing m payload' := by
        rcases hphase' with hreceiving | hsame
        · rw [hreceiving] at hm
          cases hm
        · exact hsame ▸ hm
      obtain ⟨rfl, rfl⟩ := hsame m payload' hbefore
      rw [hattempted.position]
      exact ⟨htext, hposition, fun _ => hhand.2.2⟩

omit [TextCodec (LoggedEvent S)] in
theorem Loop.Sound.deliver (h : loop.Sound decoder) (hphase : loop.phase = .receiving)
    (hoffset : offsetOf loop.position message.partition ≤ message.offset)
    (htext : payloadText decoder message = .ok payload) :
    Sound decoder { loop.deliver message with phase := .processing message payload } where
  running _ := nofun
  counts := h.counts
  committed_le p := by
    refine (h.committed_le p).trans ?_
    show _ ≤ offsetOf (loop.position.insert _ _) p
    rw [offsetOf_insert]
    split_ifs with hp
    · rw [hp]
      omega
    · exact le_rfl
  done m hm := by
    rcases List.mem_append.mp hm with hm | hm
    · rcases h.done m hm with ⟨payload', hm'⟩ | hdone
      · rw [hphase] at hm'
        cases hm'
      · exact .inr hdone
    · exact .inl ⟨payload, by rw [List.mem_singleton.mp hm]⟩
  inHand m payload' hm := by
    cases hm
    refine ⟨htext, ?_, ?_⟩
    · show offsetOf (loop.position.insert _ _) message.partition = _
      rw [offsetOf_insert, if_pos rfl]
    · intro hlt
      have hle := h.committed_le message.partition
      have hlt' : message.offset < offsetOf loop.consumer.committed message.partition := hlt
      omega

omit [TextCodec (LoggedEvent S)] in
theorem Loop.Sound.stop (h : loop.Sound decoder) (hphase : loop.phase = .receiving) :
    (loop.stop .receive).Sound decoder where
  running _ := nofun
  counts := h.counts
  committed_le := h.committed_le
  done m hm := by
    rcases h.done m hm with ⟨payload', hm'⟩ | hdone
    · rw [hphase] at hm'
      cases hm'
    · exact .inr hdone
  inHand _ _ := nofun

/-- The action brings no message without a text. -/
def Action.Readable (decoder : Decoder S) : Action → Prop
  | .recv (some message) => EventBus.Readable decoder message
  | _ => True

theorem Loop.Sound.step {action : Action} (h : loop.Sound decoder)
    (hstep : loop.step decoder action = some loop') :
    (Survives decoder loop' → action.Readable decoder) ∧
      (action.Readable decoder → loop'.Sound decoder) := by
  cases action with
  | recv received =>
    cases received with
    | none =>
      refine ⟨fun _ => trivial, fun _ => ?_⟩
      rw [Loop.step] at hstep
      split at hstep
      next hphase => exact Option.some.inj hstep ▸ h.stop hphase
      next => cases hstep
    | some message =>
      rw [Loop.step] at hstep
      split at hstep
      next hphase =>
        split_ifs at hstep with hoffset
        cases htext : payloadText decoder message with
        | error e =>
          rw [htext] at hstep
          constructor
          · intro hsurvives
            exact absurd (Option.some.inj hstep ▸ rfl) (hsurvives.running e)
          · rintro ⟨payload, hpayload⟩
            rw [htext] at hpayload
            cases hpayload
        | ok payload =>
          rw [htext] at hstep
          exact ⟨fun _ => ⟨payload, htext⟩,
            fun _ => Option.some.inj hstep ▸ h.deliver hphase hoffset htext⟩
      next => cases hstep
  | attempt moment =>
    refine ⟨fun _ => trivial, fun _ => ?_⟩
    rw [Loop.step] at hstep
    split at hstep
    next message payload hphase => exact Option.some.inj hstep ▸ h.attempt hphase
    next => cases hstep

end Runs

/-- The consumer survives everything it receives, and skips nothing good, exactly when every
message it receives has a text. -/
theorem consumer_survives_iff [TextCodec (LoggedEvent S)] (decoder : Decoder S) (store : Store S)
    (committed : BTreeMap Int Nat) (actions : List Action) (last : Loop S)
    (hrun : exec (Loop.step decoder) (Loop.started store committed) actions = some last) :
    (∀ pre, pre <+: actions → ∀ loop,
        exec (Loop.step decoder) (Loop.started store committed) pre = some loop →
          Survives decoder loop) ↔
      ∀ message, Action.recv (some message) ∈ actions → Readable decoder message := by
  have hsafety := safety_iff_okAlong (I := Loop.Sound decoder) (fun _ h => Loop.Sound.survives h)
    (fun _ _ _ h hstep => Loop.Sound.step h hstep) (Loop.sound_started store committed) hrun
  rw [hsafety, okAlong_iff_forall_mem hrun]
  constructor
  · intro h message hmem
    exact h _ hmem
  · intro h action hmem
    cases action with
    | recv received =>
      cases received with
      | none => trivial
      | some message => exact h message hmem
    | attempt moment => trivial

/-! ## Two runs -/

def utf8 (text : String) : Bytes := text.toUTF8.data.toList

def sampleText : String :=
  "\x7b\"schema_version\":1,\"published_at\":\"2024-05-01T12:00:00Z\",\"connector_id\":\"c\"," ++
  "\"run_id\":\"r\",\"program_id\":\"program-1\",\"object_id\":\"program-1\",\"event\":" ++
  "\x7b\"event_id\":\"event-1\",\"connector_id\":\"c\",\"run_id\":\"r\",\"vendor\":\"generic\"," ++
  "\"program_id\":\"program-1\",\"object_id\":\"program-1\",\"artifact_type\":\"program\"," ++
  "\"captured_at\":\"2024-05-01T12:00:00Z\",\"payload\":\"program-1\"\x7d\x7d"

def sampleDecoder : Decoder idsOnly where
  fromUtf8 bytes :=
    if bytes.all (· < 128) then some (String.ofList (bytes.map fun b => Char.ofNat b.toNat))
    else none
  fromStr text := if text = sampleText then some ⟨1, newProgram⟩ else none

def meets (writes : Bool) (commit : Commit) : Action := .attempt ⟨fun _ => 0, 0, writes, commit⟩

def failing : List Action :=
  [.recv (some ⟨0, 0, some (utf8 "\x7b")⟩), meets true .unacknowledged, meets true .acknowledged,
    .recv (some ⟨0, 1, some (utf8 sampleText)⟩), meets false .acknowledged, meets true .lost,
    meets true .acknowledged]

theorem failing_survives : ∃ last,
    exec (Loop.step sampleDecoder) (Loop.started (.opened 0) .empty) failing = some last ∧
      Survives sampleDecoder last := by
  have hsome :
      (exec (Loop.step sampleDecoder) (Loop.started (.opened 0) .empty) failing).isSome := by
    decide +kernel
  obtain ⟨last, hrun⟩ := Option.isSome_iff_exists.mp hsome
  have hreadable : ∀ message, Action.recv (some message) ∈ failing →
      Readable sampleDecoder message := by
    intro message hmem
    simp only [failing, meets, List.mem_cons, Action.recv.injEq, Option.some.injEq, reduceCtorEq,
      false_or, List.not_mem_nil, or_false] at hmem
    rcases hmem with rfl | rfl <;> decide +kernel
  have hall := consumer_survives_iff sampleDecoder (.opened 0) .empty failing last hrun
  exact ⟨last, hrun, hall.mpr hreadable failing List.prefix_rfl last hrun⟩

/-- A message without a payload, as compacted topics have them. -/
theorem absent_stops : ¬ ∀ (S : Schema) [TextCodec (LoggedEvent S)] (decoder : Decoder S)
    (store : Store S) (committed : BTreeMap Int Nat) (actions : List Action) (last : Loop S),
    exec (Loop.step decoder) (Loop.started store committed) actions = some last →
      Survives decoder last := by
  intro h
  have hsurvives := h idsOnly sampleDecoder (.opened 0) .empty [.recv (some ⟨0, 0, none⟩)] _ rfl
  exact hsurvives.running _ rfl

end Arcxa.Traceability.EventBus
