import Arcxa.Kafka.Replay

/-!
# Durability across crashes

The sink as a system: any number of `send_with_durability` calls in flight, the WAL's rotation
and compaction tasks, the cleanup of the tracker, and crashes that are followed by a restart
and `recover_on_startup`. The pending records are in memory, so that after a restart there is
nothing to recover; and an acknowledgment stores its LSN as `committed_lsn` even when events
with smaller LSNs are not sent yet.

`Durable` is what the sink promises of a step, and `Careful` is the condition on the state
before it under which the code keeps the promise. Along every run they agree
(`durable_iff_careful`).
-/

namespace Arcxa.Kafka

open Arcxa.Wal

variable {E : Type}

/-- How far a call has got: it holds an LSN, its entry is written, its record is pending, its
send is on the way, Kafka has accepted it. -/
inductive SendPhase where
  | reserved
  | logged
  | tracked
  | sending
  | delivered
  deriving DecidableEq

structure SendCall (E : Type) where
  event : E
  timestampUs : UInt64
  eventId : Nat
  lsn : Nat
  phase : SendPhase

/-- `returned` has the events of the calls that returned `Ok`, with the LSN of their WAL entry
(ghost). -/
structure DurableSystem (E : Type) where
  sink : DurableKafkaLineageSink E
  calls : List (SendCall E)
  returned : List (E × Option Nat)

inductive SinkAction (E : Type) where
  | send (event : E) (timestampUs : UInt64) (available : Nat)
  | append (i : Nat) (io : FileWal.IoOutcome) (fsyncOk : Bool)
  | sync (i : Nat) (ok : Bool)
  | request (i : Nat)
  | deliver (i : Nat)
  | fail (i : Nat) (arrived : Bool)
  | acknowledge (i : Nat)
  | tick (elapsed : Nat)
  | cleanup
  | maintain (task : Wal.Action E)
  | restart (runtime : DurableKafkaLineageSink.Runtime) (config : ReplayConfig)
      (env : Nat → SendEnv)

def SinkAction.isRestart : SinkAction E → Bool
  | .restart .. => true
  | _ => false

namespace DurableSystem

variable (fmt : Format E) (config : AckTrackingConfig)

def new (walConfig : WalConfig) : DurableSystem E where
  sink := .new walConfig ∅ 0 0 []
  calls := []
  returned := []

/-! ## Steps -/

/-- The `i`-th call returns `Ok`. -/
def returnOk (s : DurableSystem E) (i : Nat) (c : SendCall E) : DurableSystem E :=
  { s with
    calls := s.calls.eraseIdx i
    returned := s.returned ++ [(c.event, some c.lsn)] }

/-- The `i`-th call goes on. -/
def advance (s : DurableSystem E) (i : Nat) (c : SendCall E) (phase : SendPhase) :
    DurableSystem E :=
  { s with calls := s.calls.set i { c with phase } }

/-- The `i`-th call, if it is in the phase. -/
def callIn (s : DurableSystem E) (i : Nat) (phase : SendPhase) : Option (SendCall E) :=
  (s.calls[i]?).filter (fun c => c.phase = phase)

def maintain (w : FileWal E) : Wal.Action E → Option (FileWal E)
  | .rotateLoad => some w.rotateLoad
  | .rotateCreate i createOk => w.rotateCreate i createOk
  | .rotateSwap i syncOk => w.rotateSwap i syncOk
  | .compactSelect => some w.compactSelect
  | .compactNext copyOk removeOk => w.compactNext copyOk removeOk
  | _ => none

def startCall (s : DurableSystem E) (event : E) (timestampUs : UInt64) (available : Nat) :
    DurableSystem E :=
  let (eventId, sink) := s.sink.beginSend config
  if sink.ackTracker.isAcknowledged eventId then
    { s with sink, returned := s.returned ++ [(event, none)] }
  else
    let entry := DurableKafkaLineageSink.walEntry event timestampUs
    match FileWal.ensureSufficientDiskSpace sink.wal.config available (entry.toBytes fmt).length with
    | .error _ => { s with sink }
    | .ok () =>
      let (lsn, wal) := sink.wal.fetchAdd 1
      { s with
        sink := { sink with wal }
        calls := s.calls ++ [{ event, timestampUs, eventId, lsn, phase := .reserved }] }

/-- One step of some task. -/
def step (s : DurableSystem E) : SinkAction E → Option (DurableSystem E)
  | .send event timestampUs available => some (s.startCall fmt config event timestampUs available)
  | .append i io fsyncOk =>
    (s.callIn i .reserved).map fun c =>
      match FileWal.appendLocked fmt s.sink.wal false c.lsn
          [DurableKafkaLineageSink.walEntry c.event c.timestampUs] (fun _ => io) fsyncOk with
      | (.ok _, wal) => { s with sink := { s.sink with wal } }.advance i c .logged
      | (.error _, wal) =>
        { s with sink := { s.sink with wal }, calls := s.calls.eraseIdx i }
  | .sync i ok =>
    (s.callIn i .logged).map fun c =>
      -- the rotation that the append starts can fail too
      if ok then
        { s with sink := s.sink.trackPending c.eventId c.lsn c.event }.advance i c .tracked
      else { s with calls := s.calls.eraseIdx i }
  | .request i =>
    (s.callIn i .tracked).map fun c =>
      match s.sink.admitSend with
      | (true, sink) => { s with sink }.advance i c .sending
      | (false, sink) => { s with sink }.returnOk i c
  | .deliver i =>
    (s.callIn i .sending).map fun c =>
      { s with sink := s.sink.deliver c.event }.advance i c .delivered
  | .fail i arrived =>
    (s.callIn i .sending).map fun c =>
      -- a send that timed out may have arrived
      let sink :=
        if arrived then { s.sink with sent := s.sink.sent ++ [c.event] } else s.sink
      { s with sink := sink.failSend c.eventId }.returnOk i c
  | .acknowledge i =>
    (s.callIn i .delivered).map fun c =>
      { s with sink := s.sink.acknowledge c.eventId }.returnOk i c
  | .tick elapsed => some { s with sink := { s.sink with now := s.sink.now + elapsed } }
  | .cleanup =>
    some
      { s with
        sink :=
          { s.sink with ackTracker := s.sink.ackTracker.cleanupAcknowledged config s.sink.now } }
  | .maintain task =>
    (maintain s.sink.wal task).map fun wal => { s with sink := { s.sink with wal } }
  | .restart runtime replayConfig env =>
    let sink : DurableKafkaLineageSink E :=
      .new s.sink.wal.config s.sink.wal.disk s.sink.now s.sink.drawn s.sink.sent
    (sink.recoverOnStartup fmt config replayConfig runtime env).map fun (_, sink) =>
      { sink, calls := [], returned := s.returned }

/-! ## The promise and the condition -/

/-- Each event that returned `Ok` is sent, or has an LSN above `committed`. -/
def AllLogged (sent : List E) (committed : Nat) (returned : List (E × Option Nat)) : Prop :=
  ∀ p ∈ returned, p.1 ∈ sent ∨ ∃ lsn ∈ p.2, committed < lsn

/-- Until it is sent, the WAL entry of an event that returned `Ok` is above `committed_lsn`. -/
def Logged (s : DurableSystem E) : Prop :=
  AllLogged s.sink.sent s.sink.wal.committedLsn s.returned

/-- Every event that returned `Ok` has been sent. -/
def Delivered (s : DurableSystem E) : Prop := ∀ p ∈ s.returned, p.1 ∈ s.sink.sent

def Durable (s : DurableSystem E) (a : SinkAction E) : Prop :=
  ∀ s' ∈ s.step fmt config a, s'.Logged ∧ (a.isRestart = true → s'.Delivered)

/-- A call that returns without having sent its event has an LSN above `committed_lsn`; an
acknowledgment commits no LSN at or above that of an event that returned `Ok` and is not sent;
the process does not crash while there is such an event. -/
def Careful (s : DurableSystem E) : SinkAction E → Prop
  | .request i => s.sink.admitSend.1 = false →
    ∀ c ∈ s.calls[i]?, c.event ∈ s.sink.sent ∨ s.sink.wal.committedLsn < c.lsn
  | .fail i arrived => arrived = false →
    ∀ c ∈ s.calls[i]?, c.event ∈ s.sink.sent ∨ s.sink.wal.committedLsn < c.lsn
  | .acknowledge i => ∀ c ∈ s.calls[i]?, ∀ ack ∈ s.sink.ackTracker.pending.lookup c.eventId,
    AllLogged s.sink.sent ack.lsn s.returned
  | .restart .. => s.Delivered
  | _ => True

section Decidable

variable [DecidableEq E]

instance (sent : List E) (committed : Nat) (returned : List (E × Option Nat)) :
    Decidable (AllLogged sent committed returned) :=
  inferInstanceAs (Decidable (∀ p ∈ returned, p.1 ∈ sent ∨ ∃ _ ∈ p.2, _))

instance (s : DurableSystem E) : Decidable s.Logged :=
  inferInstanceAs (Decidable (AllLogged ..))

instance (s : DurableSystem E) : Decidable s.Delivered :=
  inferInstanceAs (Decidable (∀ p ∈ s.returned, p.1 ∈ s.sink.sent))

instance (s : DurableSystem E) (a : SinkAction E) : Decidable (s.Durable fmt config a) :=
  inferInstanceAs (Decidable (∀ s' ∈ s.step fmt config a, s'.Logged ∧ (_ → s'.Delivered)))

instance (s : DurableSystem E) (a : SinkAction E) : Decidable (s.Careful a) :=
  match a with
  | .request i | .fail i _ =>
    inferInstanceAs (Decidable (_ → ∀ c ∈ s.calls[i]?, c.event ∈ s.sink.sent ∨ _))
  | .acknowledge i => inferInstanceAs (Decidable (∀ c ∈ s.calls[i]?,
      ∀ _ ∈ s.sink.ackTracker.pending.lookup c.eventId, AllLogged ..))
  | .restart .. => inferInstanceAs (Decidable s.Delivered)
  | .send .. | .append .. | .sync .. | .deliver _ | .tick _ | .cleanup | .maintain _ =>
    isTrue trivial

end Decidable

/-! ## What a step keeps -/

variable {fmt config} {s s' : DurableSystem E}

theorem callIn_eq_some {i : Nat} {phase : SendPhase} {c : SendCall E} :
    s.callIn i phase = some c ↔ s.calls[i]? = some c ∧ c.phase = phase := by
  simp [callIn, Option.filter_eq_some_iff]

theorem AllLogged.mono {sent sent' : List E} {committed : Nat} {returned : List (E × Option Nat)}
    (h : AllLogged sent committed returned) (hsub : sent ⊆ sent') :
    AllLogged sent' committed returned :=
  fun p hp => (h p hp).imp_left (fun hmem => hsub hmem)

theorem allLogged_append {sent : List E} {committed lsn : Nat} {event : E}
    {returned : List (E × Option Nat)} :
    AllLogged sent committed (returned ++ [(event, some lsn)]) ↔
      AllLogged sent committed returned ∧ (event ∈ sent ∨ committed < lsn) := by
  unfold AllLogged
  rw [List.forall_mem_append, List.forall_mem_singleton]
  simp

theorem committedLsn_maintain {w w' : FileWal E} {task : Wal.Action E}
    (h : maintain w task = some w') : w'.committedLsn = w.committedLsn := by
  cases task with
  | reserve | write | finish | commit | commitBatch | truncateIndex => cases h
  | rotateLoad =>
    cases h
    rfl
  | rotateCreate i createOk =>
    obtain ⟨r, -, -, rfl | rfl⟩ := FileWal.rotateCreate_cases h <;> rfl
  | rotateSwap i syncOk =>
    obtain ⟨r, id, -, -, ⟨-, rfl⟩ | ⟨-, rfl⟩⟩ := FileWal.rotateSwap_cases h <;> rfl
  | compactSelect =>
    cases h
    unfold FileWal.compactSelect
    dsimp only
    split <;> rfl
  | compactNext copyOk removeOk =>
    obtain ⟨info, rest, -, rfl⟩ := FileWal.compactNext_cases h
    show (w.compactSegment info copyOk removeOk).committedLsn = _
    unfold FileWal.compactSegment
    split <;> rfl

variable (fmt) in
theorem committedLsn_appendLocked (w : FileWal E) (lsn : Nat) (entries : List (WalEntry E))
    (io : Nat → FileWal.IoOutcome) (fsyncOk : Bool) :
    (FileWal.appendLocked fmt w false lsn entries io fsyncOk).2.committedLsn = w.committedLsn := by
  rcases FileWal.appendLocked_spec fmt w false lsn entries io fsyncOk with
    ⟨w', hres, hw⟩ | ⟨err, k, w', hres, hw⟩ <;> rw [hres] <;> exact hw.committedLsn

/-- Event ids are drawn once, and a call that Kafka has accepted has been sent. -/
structure Tracked (s : DurableSystem E) : Prop where
  acknowledged : ∀ id ∈ s.sink.ackTracker.acknowledged, id < s.sink.drawn
  drawn : ∀ c ∈ s.calls, c.eventId < s.sink.drawn
  delivered : ∀ c ∈ s.calls, c.phase = .delivered → c.event ∈ s.sink.sent

theorem tracked_new (walConfig : WalConfig) : Tracked (new walConfig : DurableSystem E) where
  acknowledged id hid := absurd hid (AList.notMem_empty id)
  drawn c hc := by cases hc
  delivered c hc := by cases hc

theorem Tracked.of_calls (h : Tracked s) (hdrawn : s'.sink.drawn = s.sink.drawn)
    (hack : s'.sink.ackTracker.acknowledged = s.sink.ackTracker.acknowledged)
    (hsent : s.sink.sent ⊆ s'.sink.sent)
    (hcalls : ∀ c ∈ s'.calls, c ∈ s.calls ∨
      ∃ d ∈ s.calls, c.eventId = d.eventId ∧ (c.phase = .delivered → c.event ∈ s'.sink.sent)) :
    Tracked s' where
  acknowledged := by
    rw [hack, hdrawn]
    exact h.acknowledged
  drawn c hc := by
    rw [hdrawn]
    rcases hcalls c hc with hold | ⟨d, hd, hid, -⟩
    · exact h.drawn c hold
    · rw [hid]
      exact h.drawn d hd
  delivered c hc hphase := by
    rcases hcalls c hc with hold | ⟨d, -, -, hdelivered⟩
    · exact hsent (h.delivered c hold hphase)
    · exact hdelivered hphase

theorem mem_calls_set {i : Nat} {c d : SendCall E} {phase : SendPhase} {sent : List E}
    (hd : s.calls[i]? = some d) (hsent : phase = .delivered → d.event ∈ sent)
    (h : c ∈ s.calls.set i { d with phase }) :
    c ∈ s.calls ∨
      ∃ d ∈ s.calls, c.eventId = d.eventId ∧ (c.phase = .delivered → c.event ∈ sent) := by
  rcases List.mem_or_eq_of_mem_set h with hold | rfl
  · exact .inl hold
  · exact .inr ⟨d, List.mem_of_getElem? hd, rfl, hsent⟩

variable (fmt config) in
/-- A call that starts: it returns at once, fails, or holds an LSN; the first only if its new id
is acknowledged already. -/
theorem startCall_cases (s : DurableSystem E) (event : E) (timestampUs : UInt64)
    (available : Nat) :
    ∃ sink, sink.drawn = s.sink.drawn + 1 ∧ sink.ackTracker = s.sink.ackTracker ∧
      sink.sent = s.sink.sent ∧ sink.wal.committedLsn = s.sink.wal.committedLsn ∧
      ((s.sink.drawn ∈ s.sink.ackTracker.acknowledged ∧
          s.startCall fmt config event timestampUs available =
            { s with sink, returned := s.returned ++ [(event, none)] }) ∨
        s.startCall fmt config event timestampUs available = { s with sink } ∨
        ∃ lsn, s.startCall fmt config event timestampUs available =
          { s with
            sink
            calls := s.calls ++
              [{ event, timestampUs, eventId := s.sink.drawn, lsn, phase := .reserved }] }) := by
  have hbegin : (s.sink.beginSend config).1 = s.sink.drawn ∧
      (s.sink.beginSend config).2.drawn = s.sink.drawn + 1 ∧
      (s.sink.beginSend config).2.ackTracker = s.sink.ackTracker ∧
      (s.sink.beginSend config).2.sent = s.sink.sent ∧
      (s.sink.beginSend config).2.wal = s.sink.wal := by
    unfold DurableKafkaLineageSink.beginSend
    dsimp only
    split_ifs <;> exact ⟨rfl, rfl, rfl, rfl, rfl⟩
  unfold startCall
  cases hb : s.sink.beginSend config with
  | mk eventId sink =>
    rw [hb] at hbegin
    obtain ⟨rfl, hdrawn, htracker, hsent, hwal⟩ := hbegin
    have hcommitted : sink.wal.committedLsn = s.sink.wal.committedLsn := by rw [hwal]
    dsimp only
    split_ifs with hacked
    · rw [htracker, AcknowledgmentTracker.isAcknowledged, AList.lookup_isSome] at hacked
      exact ⟨sink, hdrawn, htracker, hsent, hcommitted, .inl ⟨hacked, rfl⟩⟩
    · split
      · exact ⟨sink, hdrawn, htracker, hsent, hcommitted, .inr (.inl rfl)⟩
      · exact ⟨{ sink with wal := (sink.wal.fetchAdd 1).2 }, hdrawn, htracker, hsent, hcommitted,
          .inr (.inr ⟨_, rfl⟩)⟩

theorem step_request {i : Nat} (hstep : s.step fmt config (.request i) = some s') :
    ∃ c circuitBreaker, s.calls[i]? = some c ∧
      ((s.sink.admitSend.1 = true ∧
          s' = { s with sink := { s.sink with circuitBreaker } }.advance i c .sending) ∨
        (s.sink.admitSend.1 = false ∧
          s' = { s with sink := { s.sink with circuitBreaker } }.returnOk i c)) := by
  obtain ⟨c, hc, rfl⟩ := Option.map_eq_some_iff.mp hstep
  obtain ⟨hget, -⟩ := callIn_eq_some.mp hc
  refine ⟨c, s.sink.admitSend.2.circuitBreaker, hget, ?_⟩
  have hsink : s.sink.admitSend.2 =
      { s.sink with circuitBreaker := s.sink.admitSend.2.circuitBreaker } := rfl
  cases hallowed : s.sink.admitSend with
  | mk allowed sink =>
    rw [hallowed] at hsink
    dsimp only at hsink ⊢
    cases allowed with
    | true => exact .inl ⟨rfl, by rw [← hsink]⟩
    | false => exact .inr ⟨rfl, by rw [← hsink]⟩

theorem step_fail {i : Nat} {arrived : Bool} (hstep : s.step fmt config (.fail i arrived) = some s') :
    ∃ c sink, s.calls[i]? = some c ∧ sink.drawn = s.sink.drawn ∧
      sink.ackTracker.acknowledged = s.sink.ackTracker.acknowledged ∧ sink.wal = s.sink.wal ∧
      sink.sent = (if arrived then s.sink.sent ++ [c.event] else s.sink.sent) ∧
      s' = { s with sink }.returnOk i c := by
  obtain ⟨c, hc, rfl⟩ := Option.map_eq_some_iff.mp hstep
  obtain ⟨hget, -⟩ := callIn_eq_some.mp hc
  have hack : ∀ t : AcknowledgmentTracker E, ∀ id,
      (t.markFailed id).acknowledged = t.acknowledged := by
    intro t id
    unfold AcknowledgmentTracker.markFailed
    split <;> rfl
  refine ⟨c, _, hget, ?_, ?_, ?_, ?_, rfl⟩
  · cases arrived <;> rfl
  · cases arrived <;> exact hack _ _
  · cases arrived <;> rfl
  · cases arrived <;> rfl

theorem step_restart {runtime : DurableKafkaLineageSink.Runtime} {replayConfig : ReplayConfig}
    {env : Nat → SendEnv}
    (hstep : s.step fmt config (.restart runtime replayConfig env) = some s') :
    s' =
      { sink := .new s.sink.wal.config s.sink.wal.disk s.sink.now s.sink.drawn s.sink.sent
        calls := []
        returned := s.returned } := by
  simp only [step] at hstep
  obtain ⟨⟨report, sink⟩, hrecover, rfl⟩ := Option.map_eq_some_iff.mp hstep
  obtain ⟨report', hempty⟩ := DurableKafkaLineageSink.recoverOnStartup_of_empty fmt config
    replayConfig runtime env
    (s := .new s.sink.wal.config s.sink.wal.disk s.sink.now s.sink.drawn s.sink.sent) rfl
  rw [hempty] at hrecover
  cases hrecover
  rfl

theorem tracked_step {a : SinkAction E} (h : Tracked s) (hstep : s.step fmt config a = some s') :
    Tracked s' := by
  cases a with
  | send event timestampUs available =>
    obtain ⟨sink, hdrawn, htracker, hsent, -, hcase⟩ :=
      startCall_cases fmt config s event timestampUs available
    have hack : ∀ id ∈ sink.ackTracker.acknowledged, id < sink.drawn := by
      rw [htracker, hdrawn]
      exact fun id hid => Nat.lt_succ_of_lt (h.acknowledged id hid)
    have hcalls : ∀ c ∈ s.calls, c.eventId < sink.drawn := by
      rw [hdrawn]
      exact fun c hc => Nat.lt_succ_of_lt (h.drawn c hc)
    have hdelivered : ∀ c ∈ s.calls, c.phase = .delivered → c.event ∈ sink.sent := by
      rw [hsent]
      exact h.delivered
    rcases hcase with ⟨-, heq⟩ | heq | ⟨lsn, heq⟩ <;> rw [step, heq] at hstep <;> cases hstep
    · exact ⟨hack, hcalls, hdelivered⟩
    · exact ⟨hack, hcalls, hdelivered⟩
    · refine ⟨hack, ?_, ?_⟩
      · rw [List.forall_mem_append, List.forall_mem_singleton]
        exact ⟨hcalls, by dsimp only; omega⟩
      · rw [List.forall_mem_append, List.forall_mem_singleton]
        exact ⟨hdelivered, fun hphase => by cases hphase⟩
  | append i io fsyncOk =>
    obtain ⟨c, hc, rfl⟩ := Option.map_eq_some_iff.mp hstep
    obtain ⟨hget, -⟩ := callIn_eq_some.mp hc
    split
    · exact h.of_calls rfl rfl (List.Subset.refl _) (fun d => mem_calls_set hget (by simp))
    · exact h.of_calls rfl rfl (List.Subset.refl _) (fun d hd => .inl (List.mem_of_mem_eraseIdx hd))
  | sync i ok =>
    obtain ⟨c, hc, rfl⟩ := Option.map_eq_some_iff.mp hstep
    obtain ⟨hget, -⟩ := callIn_eq_some.mp hc
    split_ifs
    · exact h.of_calls rfl rfl (List.Subset.refl _) (fun d => mem_calls_set hget (by simp))
    · exact h.of_calls rfl rfl (List.Subset.refl _) (fun d hd => .inl (List.mem_of_mem_eraseIdx hd))
  | request i =>
    obtain ⟨c, breaker, hget, ⟨-, rfl⟩ | ⟨-, rfl⟩⟩ := step_request hstep
    · exact h.of_calls rfl rfl (List.Subset.refl _) (fun d => mem_calls_set hget (by simp))
    · exact h.of_calls rfl rfl (List.Subset.refl _) (fun d hd => .inl (List.mem_of_mem_eraseIdx hd))
  | deliver i =>
    obtain ⟨c, hc, rfl⟩ := Option.map_eq_some_iff.mp hstep
    obtain ⟨hget, -⟩ := callIn_eq_some.mp hc
    refine h.of_calls rfl rfl (List.subset_append_left _ _) (fun d => mem_calls_set hget ?_)
    exact fun _ => List.mem_append_right _ List.mem_cons_self
  | fail i arrived =>
    obtain ⟨c, sink, hget, hdrawn, hack, -, hsent, rfl⟩ := step_fail hstep
    refine h.of_calls hdrawn hack ?_ (fun d hd => .inl (List.mem_of_mem_eraseIdx hd))
    show s.sink.sent ⊆ sink.sent
    rw [hsent]
    split_ifs
    · exact List.subset_append_left _ _
    · exact List.Subset.refl _
  | acknowledge i =>
    obtain ⟨c, hc, rfl⟩ := Option.map_eq_some_iff.mp hstep
    obtain ⟨hget, -⟩ := callIn_eq_some.mp hc
    have hid := h.drawn c (List.mem_of_getElem? hget)
    have hdrawn : ∀ d ∈ s.calls.eraseIdx i, d.eventId < s.sink.drawn :=
      fun d hd => h.drawn d (List.mem_of_mem_eraseIdx hd)
    have hdelivered : ∀ d ∈ s.calls.eraseIdx i, d.phase = .delivered → d.event ∈ s.sink.sent :=
      fun d hd => h.delivered d (List.mem_of_mem_eraseIdx hd)
    rcases s.sink.acknowledge_cases c.eventId with ⟨ack, -, heq⟩ | ⟨-, heq⟩ <;> rw [heq]
    · refine ⟨fun id hmem => ?_, hdrawn, hdelivered⟩
      rcases AList.mem_insert _ |>.mp hmem with rfl | hold
      · exact hid
      · exact h.acknowledged id hold
    · exact ⟨h.acknowledged, hdrawn, hdelivered⟩
  | tick elapsed =>
    cases hstep
    exact ⟨h.acknowledged, h.drawn, h.delivered⟩
  | cleanup =>
    cases hstep
    refine ⟨fun id hid => h.acknowledged id ?_, h.drawn, h.delivered⟩
    exact List.filter_sublist.map _ |>.subset hid
  | maintain task =>
    obtain ⟨wal, -, rfl⟩ := Option.map_eq_some_iff.mp hstep
    exact ⟨h.acknowledged, h.drawn, h.delivered⟩
  | restart runtime replayConfig env =>
    rw [step_restart hstep]
    exact
      { acknowledged := fun id hid => absurd hid (AList.notMem_empty id)
        drawn := fun c hc => by cases hc
        delivered := fun c hc => by cases hc }

/-! ## The promise is kept exactly under the condition -/

/-- What the runs keep. -/
structure Inv (s : DurableSystem E) : Prop extends Tracked s where
  logged : s.Logged

theorem durable_iff_logged {a : SinkAction E} (hrestart : a.isRestart = false)
    (hstep : s.step fmt config a = some s') : s.Durable fmt config a ↔ s'.Logged := by
  unfold Durable
  rw [hstep, hrestart]
  simp

/-- No call returns and nothing is committed. -/
structure Quiet (s s' : DurableSystem E) : Prop where
  sent : s.sink.sent ⊆ s'.sink.sent
  committed : s'.sink.wal.committedLsn = s.sink.wal.committedLsn
  returned : s'.returned = s.returned

def isQuiet : SinkAction E → Bool
  | .request _ | .fail .. | .acknowledge _ | .restart .. => false
  | _ => true

theorem quiet_step {a : SinkAction E} (h : Tracked s) (hquiet : isQuiet a = true)
    (hstep : s.step fmt config a = some s') : Quiet s s' := by
  cases a with
  | request | fail | acknowledge | restart => cases hquiet
  | send event timestampUs available =>
    obtain ⟨sink, -, -, hsent, hcommitted, hcase⟩ :=
      startCall_cases fmt config s event timestampUs available
    have hsub : s.sink.sent ⊆ sink.sent := hsent ▸ List.Subset.refl _
    rcases hcase with ⟨hacked, -⟩ | heq | ⟨lsn, heq⟩
    · -- the id is new, so that it is not acknowledged
      exact absurd (h.acknowledged _ hacked) (lt_irrefl _)
    · rw [step, heq] at hstep
      cases hstep
      exact ⟨hsub, hcommitted, rfl⟩
    · rw [step, heq] at hstep
      cases hstep
      exact ⟨hsub, hcommitted, rfl⟩
  | append i io fsyncOk =>
    obtain ⟨c, -, rfl⟩ := Option.map_eq_some_iff.mp hstep
    have hcommitted := committedLsn_appendLocked fmt s.sink.wal c.lsn
      [DurableKafkaLineageSink.walEntry c.event c.timestampUs] (fun _ => io) fsyncOk
    split
    next heq =>
      rw [heq] at hcommitted
      exact ⟨List.Subset.refl _, hcommitted, rfl⟩
    next heq =>
      rw [heq] at hcommitted
      exact ⟨List.Subset.refl _, hcommitted, rfl⟩
  | sync i ok =>
    obtain ⟨c, -, rfl⟩ := Option.map_eq_some_iff.mp hstep
    split_ifs <;> exact ⟨List.Subset.refl _, rfl, rfl⟩
  | deliver i =>
    obtain ⟨c, -, rfl⟩ := Option.map_eq_some_iff.mp hstep
    exact ⟨List.subset_append_left _ _, rfl, rfl⟩
  | tick elapsed =>
    cases hstep
    exact ⟨List.Subset.refl _, rfl, rfl⟩
  | cleanup =>
    cases hstep
    exact ⟨List.Subset.refl _, rfl, rfl⟩
  | maintain task =>
    obtain ⟨wal, hwal, rfl⟩ := Option.map_eq_some_iff.mp hstep
    exact ⟨List.Subset.refl _, committedLsn_maintain hwal, rfl⟩

theorem Quiet.logged (h : Quiet s s') (hlogged : s.Logged) : s'.Logged := by
  unfold Logged
  rw [h.committed, h.returned]
  exact hlogged.mono h.sent

theorem durable_step {a : SinkAction E} (hinv : Inv s) (hstep : s.step fmt config a = some s') :
    s.Durable fmt config a ↔ s.Careful a := by
  have hlogged : AllLogged s.sink.sent s.sink.wal.committedLsn s.returned := hinv.logged
  cases a with
  | send | append | sync | deliver | tick | cleanup | maintain =>
    refine iff_of_true ?_ trivial
    rw [durable_iff_logged rfl hstep]
    exact (quiet_step hinv.toTracked rfl hstep).logged hinv.logged
  | request i =>
    rw [durable_iff_logged rfl hstep]
    obtain ⟨c, breaker, hget, ⟨hallowed, rfl⟩ | ⟨hallowed, rfl⟩⟩ := step_request hstep
    · refine iff_of_true hlogged (fun hrefused => ?_)
      rw [hallowed] at hrefused
      cases hrefused
    · show AllLogged s.sink.sent s.sink.wal.committedLsn (s.returned ++ [(c.event, some c.lsn)]) ↔ _
      rw [allLogged_append, and_iff_right hlogged, Careful, hget]
      simp [hallowed]
  | fail i arrived =>
    rw [durable_iff_logged rfl hstep]
    obtain ⟨c, sink, hget, -, -, hwal, hsent, rfl⟩ := step_fail hstep
    show AllLogged sink.sent sink.wal.committedLsn (s.returned ++ [(c.event, some c.lsn)]) ↔ _
    rw [allLogged_append, hwal, hsent, Careful, hget]
    cases arrived with
    | true =>
      refine iff_of_true ⟨?_, .inl ?_⟩ (fun h => by cases h)
      · exact hlogged.mono (List.subset_append_left _ _)
      · exact List.mem_append_right _ List.mem_cons_self
    | false =>
      rw [if_neg (by decide), and_iff_right hlogged]
      simp
  | acknowledge i =>
    rw [durable_iff_logged rfl hstep]
    obtain ⟨c, hc, rfl⟩ := Option.map_eq_some_iff.mp hstep
    obtain ⟨hget, hphase⟩ := callIn_eq_some.mp hc
    have hdelivered : c.event ∈ s.sink.sent :=
      hinv.delivered c (List.mem_of_getElem? hget) hphase
    rw [Careful, hget]
    rcases s.sink.acknowledge_cases c.eventId with ⟨ack, hack, heq⟩ | ⟨hack, heq⟩ <;>
      rw [heq] <;> simp only [Option.mem_some_iff, forall_eq', hack]
    · -- the LSN of the record is the new watermark
      show AllLogged s.sink.sent ack.lsn (s.returned ++ [(c.event, some c.lsn)]) ↔ _
      rw [allLogged_append, and_iff_left (.inl hdelivered)]
    · show AllLogged s.sink.sent s.sink.wal.committedLsn (s.returned ++ [(c.event, some c.lsn)]) ↔ _
      rw [allLogged_append]
      exact iff_of_true ⟨hlogged, .inl hdelivered⟩ (fun ack h => by cases h)
  | restart runtime replayConfig env =>
    have heq := step_restart hstep
    unfold Durable
    rw [hstep, heq]
    constructor
    · intro h
      exact (h _ rfl).2 rfl
    · intro hdelivered t ht
      cases ht
      exact ⟨fun p hp => .inl (hdelivered p hp), fun _ => hdelivered⟩

/-- **No event that returned `Ok` is lost**, and until it is sent its WAL entry is above
`committed_lsn`, in every step of a run, exactly when every step of the run meets the
condition. -/
theorem durable_iff_careful (fmt : Format E) (config : AckTrackingConfig) (walConfig : WalConfig)
    (actions : List (SinkAction E)) (s : DurableSystem E)
    (hrun : exec (step fmt config) (new walConfig) actions = some s) :
    OkAlong (step fmt config) (Durable fmt config) (new walConfig) actions ↔
      OkAlong (step fmt config) Careful (new walConfig) actions := by
  refine okAlong_congr (I := Inv) ?_ ⟨tracked_new walConfig, fun p hp => by cases hp⟩ hrun
  intro s a s' hinv hstep
  refine ⟨durable_step hinv hstep, fun hdurable => ?_⟩
  exact ⟨tracked_step hinv.toTracked hstep, (hdurable s' hstep).1⟩

def sampleSend (event : Nat) : List (SinkAction Nat) :=
  [.send event 0 0, .append 0 .ok true, .sync 0 true, .request 0]

def sampleRestart : SinkAction Nat :=
  .restart .entered .default (fun _ => DurableKafkaLineageSink.sampleEnv (some (0, 0)))

def sampleActions : List (SinkAction Nat) :=
  sampleSend 7 ++ [.deliver 0, .acknowledge 0, sampleRestart] ++
    sampleSend 8 ++ [.deliver 0, .acknowledge 0] ++ sampleSend 9 ++ [.fail 0 false]

theorem durable_sample :
    ∃ s, exec (step bincode DurableKafkaLineageSink.sampleAckConfig) (new sampleConfig)
        sampleActions = some s ∧
      s.returned = [(7, some 0), (8, some 0), (9, some 1)] ∧ s.sink.sent = [7, 8] ∧
      OkAlong (step bincode DurableKafkaLineageSink.sampleAckConfig)
        (Durable bincode DurableKafkaLineageSink.sampleAckConfig) (new sampleConfig)
        sampleActions := by
  apply exists_exec (fun s => s.returned = [(7, some 0), (8, some 0), (9, some 1)] ∧
    s.sink.sent = [7, 8]) (by decide +kernel)
  intro s hrun hq
  obtain ⟨hreturned, hsent⟩ := hq
  refine ⟨hreturned, hsent, (durable_iff_careful bincode _ sampleConfig sampleActions s hrun).mpr ?_⟩
  decide +kernel

/-- Event 7 fails to be sent and returns `Ok`; after a crash, the restart and the recovery it is
not sent. Event 8 fails between two that are acknowledged: the watermark passes it. -/
theorem durable_event_lost :
    ((exec (step bincode DurableKafkaLineageSink.sampleAckConfig) (new sampleConfig)
        (sampleSend 7 ++ [.fail 0 false, sampleRestart])).map
          (fun s => (s.returned, s.sink.sent)) = some ([(7, some 0)], [])) ∧
    ((exec (step bincode DurableKafkaLineageSink.sampleAckConfig) (new sampleConfig)
        (sampleSend 7 ++ [.deliver 0, .acknowledge 0] ++ sampleSend 8 ++ [.fail 0 false] ++
          sampleSend 9 ++ [.deliver 0, .acknowledge 0])).map
          (fun s => (s.returned, s.sink.sent, s.sink.wal.committedLsn)) =
      some ([(7, some 0), (8, some 1), (9, some 2)], [7, 9], 2)) ∧
    ¬ OkAlong (step bincode DurableKafkaLineageSink.sampleAckConfig)
      (Durable bincode DurableKafkaLineageSink.sampleAckConfig) (new sampleConfig)
      (sampleSend 7 ++ [.fail 0 false, sampleRestart]) := by
  refine ⟨by decide +kernel, by decide +kernel, by decide +kernel⟩

end DurableSystem

end Arcxa.Kafka
