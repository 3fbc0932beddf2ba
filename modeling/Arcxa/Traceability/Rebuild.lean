import Arcxa.Lib.Calls
import Arcxa.Traceability.Store

/-!
# Rebuilding the read models while events come in

A rebuild reads the event log, folds it into a fresh state, and puts that state in the place of the
live one. Only the last step takes the lock: events that are logged after the log was read are not
in the state that replaces theirs, and the numbers they were given are given again. Nothing is lost
in a run if and only if every rebuild, when it replaces the state, finds the log as it read it, no
write fails for a batch with something new, and what is logged reads back
(`rebuild_loses_nothing_iff`).
-/

namespace Arcxa.Traceability

variable {S : Schema}

/-! ## Rebuilding -/

/-- The state that `rebuild_read_models` folds the events into. -/
def rebuiltState (events : List (Event S)) (now : Time) : TraceabilityState S :=
  { (applyEventsToState (.default now) events).1 with
    processedEventIds := .ofList (events.map fun event => (event.eventId, ()))
    lastEventSequence := events.length }

/-- `replace_state_from_replay`. -/
def replaceStateFromReplay [TextCodec (LoggedEvent S)] (store : Store S)
    (state : TraceabilityState S) (now : Time)
    (writes : Bool) : Store S × Except String Unit :=
  persist { store with memory := { state with updatedAt := now, lastRebuildAt := some now } } []
    writes

/-- `rebuild_read_models`, what is left of it. -/
inductive Rebuild (S : Schema) where
  | replayEvents
  | applyEvents (events : List (Event S))
  | replaceState (events : List (Event S)) (state : TraceabilityState S)

/-- A call in progress. A call of `ingest_events` holds the lock from its begin to its end and is
one step. -/
inductive Task (S : Schema) where
  | ingest (call : Call S)
  | rebuild (rebuild : Rebuild S)

/-- The clock, and whether the database does what it is asked to. -/
structure Moment where
  now : Time
  works : Bool

/-- The store, with the log entries that the calls of `ingest_events` have made. -/
structure Evidence (S : Schema) where
  store : Store S
  accepted : List (LoggedEvent S)

def Evidence.opened (now : Time) : Evidence S := ⟨.opened now, []⟩

variable [TextCodec (LoggedEvent S)]

/-- The evidence after a call of `ingest_events`. -/
def Evidence.ingest (evidence : Evidence S) (call : Call S) : Evidence S :=
  ⟨ingestStep evidence.store call, evidence.accepted ++
    if call.writes then appendedBy evidence.store call else []⟩

def advance (evidence : Evidence S) (task : Task S) (moment : Moment) :
    Option (Evidence S × Option (Task S)) :=
  match task with
  | .ingest call => some (evidence.ingest call, none)
  | .rebuild .replayEvents =>
    -- an entry that cannot be read is an error
    some (evidence, (if moment.works then evidence.store.eventLog else none).map
      fun events => .rebuild (.applyEvents events))
  | .rebuild (.applyEvents events) =>
    some (evidence, some (.rebuild (.replaceState events (rebuiltState events moment.now))))
  | .rebuild (.replaceState _ state) =>
    some ({ evidence with
      store := (replaceStateFromReplay evidence.store state moment.now moment.works).1 }, none)

def mayStart (_ : Pool (Evidence S) (Task S)) : Task S → Bool
  | .ingest _ => true
  | .rebuild .replayEvents => true
  | .rebuild _ => false

abbrev Action (S : Schema) := CallAction (Task S) Moment

def step : Pool (Evidence S) (Task S) → Action S → Option (Pool (Evidence S) (Task S)) :=
  Pool.step mayStart advance

def opened (now : Time) : Pool (Evidence S) (Task S) := ⟨.opened now, .empty⟩

/-! ## What is to hold -/

structure NothingLost (evidence : Evidence S) : Prop where
  /-- Every accepted event is in the log, under the number it was given. -/
  logged : ∀ e ∈ evidence.accepted,
    (evidence.store.events.get e.sequence).bind TextCodec.fromText = some e
  /-- The number of the last event is the number of events in the log. -/
  counted : evidence.store.memory.lastEventSequence = evidence.store.events.entries.length
  /-- The read models are those of the accepted events. -/
  models : evidence.store.memory.toReadModels =
    (evidence.accepted.map (·.event)).foldl ReadModels.applyEvent .default

def LogAsRead (p : Pool (Evidence S) (Task S)) : Action S → Prop
  | .start _ _ => True
  | .advance c _ =>
    match p.calls.get c with
    | some (.ingest call) => NothingNew p.shared.store call ∧ LogsReadably p.shared.store call
    | some (.rebuild (.replaceState events _)) => p.shared.store.eventLog = some events
    | _ => True

/-! ## The invariant -/

/-- What a rebuild has in hand: the log of some time, and the state that it gives. -/
def Rebuild.Sound (log : List (Event S)) : Rebuild S → Prop
  | .replayEvents => True
  | .applyEvents events => events <+: log
  | .replaceState events state => events <+: log ∧ ∃ now, state = rebuiltState events now

/-- The log is in step with the read models, and has what was accepted. -/
structure Evidence.Sound (evidence : Evidence S) : Prop where
  inStep : InStepWith evidence.store evidence.accepted
  log : evidence.store.events.entries =
    evidence.accepted.map fun e => (e.sequence, TextCodec.toText e)
  reads : ∀ e ∈ evidence.accepted, TextCodec.ReadsBack e

structure Sound (p : Pool (Evidence S) (Task S)) : Prop where
  evidence : p.shared.Sound
  rebuilds : ∀ c rebuild, p.calls.get c = some (.rebuild rebuild) →
    rebuild.Sound (p.shared.accepted.map (·.event))

omit [TextCodec (LoggedEvent S)] in
theorem Rebuild.Sound.mono {log log' : List (Event S)} (hlog : log <+: log') {rebuild : Rebuild S}
    (h : rebuild.Sound log) : rebuild.Sound log' := by
  cases rebuild with
  | replayEvents => exact trivial
  | applyEvents events => exact List.IsPrefix.trans h hlog
  | replaceState events state => exact ⟨h.1.trans hlog, h.2⟩

namespace InStepWith

variable {store : Store S} {log : List (LoggedEvent S)}

variable (h : InStepWith store log)

include h

theorem length_entries : store.events.entries.length = store.memory.lastEventSequence := by
  have hlength := congrArg List.length h.numbers.1
  rwa [BTreeMap.keys, List.length_map, List.length_range'] at hlength

theorem length_log : (log.map (·.event)).length = store.memory.lastEventSequence := by
  have hlength := congrArg List.length h.numbers.2
  rw [List.length_map, List.length_range'] at hlength
  rw [List.length_map, hlength]

theorem eventLog_eq : store.eventLog = some (log.map (·.event)) := by
  rw [Store.eventLog, h.read, Option.map_some]

/-- **A rebuild of the log as it is** gives the state that is there, but for its times. -/
theorem rebuiltState_eq (now : Time) :
    rebuiltState (log.map (·.event)) now =
      { store.memory with updatedAt := now, lastRebuildAt := none, legacyImportedAt := none } := by
  have hprocessed : BTreeMap.ofList ((log.map (·.event)).map fun event => (event.eventId, ())) =
      store.memory.processedEventIds := by
    refine BTreeMap.ext_set fun id => ?_
    rw [BTreeMap.isSome_get_ofList, h.processed, List.map_map, List.map_map]
    rfl
  have hmodels : (log.map (·.event)).foldl ReadModels.applyEvent .default =
      store.memory.toReadModels := h.models.symm
  have hrebuilt : rebuiltState (log.map (·.event)) now =
      ⟨(log.map (·.event)).foldl ReadModels.applyEvent .default,
        .ofList ((log.map (·.event)).map fun event => (event.eventId, ())), now,
        (log.map (·.event)).length, none, none⟩ := rfl
  rw [hrebuilt, hprocessed, hmodels, h.length_log]

end InStepWith

/-! ## The steps -/

section Steps

variable {evidence : Evidence S}

theorem Evidence.Sound.nothingLost (h : evidence.Sound) : NothingLost evidence := by
  refine ⟨fun e he => ?_, h.inStep.length_entries.symm, h.inStep.models⟩
  have hmem : (e.sequence, TextCodec.toText e) ∈ evidence.store.events.entries := by
    rw [h.log]
    exact List.mem_map_of_mem he
  rw [BTreeMap.mem_entries_iff.mp hmem]
  exact h.reads e he

omit [TextCodec (LoggedEvent S)] in
theorem nothingNew_of_accept {store : Store S} {call : Call S}
    (h : (accept store.memory.processedEventIds call.events).2 = []) : NothingNew store call := by
  refine .inr fun event hevent => ?_
  obtain ⟨-, -, hprocessed⟩ := accept_spec store.memory.processedEventIds call.events
  have hid : event.eventId ∈ call.events.map (·.eventId) := List.mem_map_of_mem hevent
  have hsome := (get_accept store.memory.processedEventIds call.events event.eventId).mpr
    (.inr hid)
  rw [hprocessed, h, List.map_nil, or_iff_left List.not_mem_nil] at hsome
  exact hsome

theorem Evidence.Sound.ingest (h : evidence.Sound) {call : Call S}
    (hnew : NothingNew evidence.store call) (hreads : LogsReadably evidence.store call) :
    (evidence.ingest call).Sound := by
  cases hwrite : call.writes with
  | true =>
    rw [Evidence.ingest, hwrite, if_pos rfl]
    refine ⟨h.inStep.of_write hreads hwrite, ?_, fun e he => ?_⟩
    · show (ingestStep evidence.store call).events.entries = _
      rw [entries_of_write h.inStep.numbers.1 hwrite, h.log, List.map_append]
    · exact (List.mem_append.mp he).elim (h.reads e) (hreads hwrite e)
  | false =>
    rw [Evidence.ingest, hwrite, if_neg Bool.false_ne_true, List.append_nil]
    refine ⟨h.inStep.of_processed hwrite (hnew.resolve_left (by rw [hwrite]; exact Bool.false_ne_true)),
      ?_, h.reads⟩
    rw [ingestStep_of_failure hwrite]
    exact h.log

/-- **An ingest** loses nothing exactly when a write that fails has nothing new, and what is logged reads
back. -/
theorem Evidence.Sound.ingest_iff (h : evidence.Sound) (call : Call S) :
    NothingLost (evidence.ingest call) ↔
      NothingNew evidence.store call ∧ LogsReadably evidence.store call := by
  refine ⟨fun hlost => ?_, fun hok => (h.ingest hok.1 hok.2).nothingLost⟩
  cases hwrite : call.writes with
  | true =>
    refine ⟨.inl hwrite, fun _ e he => ?_⟩
    have hlogged := hlost.logged e (by
      rw [Evidence.ingest, hwrite]
      exact List.mem_append_right _ he)
    have hmem : (e.sequence, TextCodec.toText e) ∈ (evidence.ingest call).store.events.entries := by
      show _ ∈ (ingestStep evidence.store call).events.entries
      rw [entries_of_write h.inStep.numbers.1 hwrite]
      exact List.mem_append_right _ (List.mem_map_of_mem he)
    rw [BTreeMap.mem_entries_iff.mp hmem] at hlogged
    exact hlogged
  | false =>
    refine ⟨nothingNew_of_accept ?_, fun hwrites => absurd (hwrite.symm.trans hwrites) Bool.false_ne_true⟩
    -- the events are counted and are not in the log
    have hcounted : (ingestStep evidence.store call).memory.lastEventSequence =
        (ingestStep evidence.store call).events.entries.length := hlost.counted
    rw [memory_ingestStep, ingestStep_of_failure hwrite] at hcounted
    have hlength : evidence.store.memory.lastEventSequence +
        (accept evidence.store.memory.processedEventIds call.events).2.length =
          evidence.store.events.entries.length := hcounted
    rw [h.inStep.length_entries] at hlength
    exact List.eq_nil_of_length_eq_zero (by omega)

/-- **A replacement** loses nothing exactly when the log is as it was read. -/
theorem Evidence.Sound.replace_iff (h : evidence.Sound) {events : List (Event S)}
    (hread : events <+: evidence.accepted.map (·.event)) (rebuilt now : Time) (writes : Bool) :
    let replaced : Evidence S := { evidence with
      store := (replaceStateFromReplay evidence.store (rebuiltState events rebuilt) now writes).1 }
    (NothingLost replaced ↔ evidence.store.eventLog = some events) ∧
      (evidence.store.eventLog = some events → replaced.Sound) := by
  intro replaced
  have hevents : replaced.store.events = evidence.store.events := by
    show (replaceStateFromReplay ..).1.events = _
    unfold replaceStateFromReplay persist
    cases writes <;> rfl
  have hmemory : replaced.store.memory =
      { rebuiltState events rebuilt with updatedAt := now, lastRebuildAt := some now } := by
    show (replaceStateFromReplay ..).1.memory = _
    unfold replaceStateFromReplay persist
    cases writes <;> rfl
  have hkeep : evidence.store.eventLog = some events → replaced.Sound := by
    intro hsame
    rw [h.inStep.eventLog_eq] at hsame
    have hrebuilt := h.inStep.rebuiltState_eq rebuilt
    rw [Option.some.inj hsame] at hrebuilt
    refine ⟨⟨?_, ?_, h.inStep.once, ?_, ?_, ?_⟩, ?_, h.reads⟩
    · rw [Store.loggedEvents, hevents]
      exact h.inStep.read
    · rw [hmemory, hevents, hrebuilt]
      exact h.inStep.numbers
    · rw [hmemory, hrebuilt]
      exact h.inStep.processed
    · rw [hmemory, hrebuilt]
      exact h.inStep.models
    · rw [hmemory, hrebuilt]
      show (replaceStateFromReplay ..).1.stored.toReadModels = _ ∧
        (replaceStateFromReplay ..).1.stored.processedEventIds = _ ∧
        (replaceStateFromReplay ..).1.stored.lastEventSequence = _
      unfold replaceStateFromReplay persist
      rw [hrebuilt]
      cases writes with
      | true => exact ⟨rfl, rfl, rfl⟩
      | false => exact h.inStep.stored
    · rw [hevents]
      exact h.log
  refine ⟨⟨fun hlost => ?_, fun hsame => (hkeep hsame).nothingLost⟩, hkeep⟩
  have hcounted := hlost.counted
  rw [hmemory, hevents, h.inStep.length_entries] at hcounted
  have hlength : events.length = evidence.store.memory.lastEventSequence := hcounted
  rw [← h.inStep.length_log] at hlength
  rw [h.inStep.eventLog_eq, hread.eq_of_length hlength]

end Steps

/-! ## Runs -/

namespace Sound

variable {p p' : Pool (Evidence S) (Task S)}

theorem opened (now : Time) : Sound (opened now : Pool (Evidence S) (Task S)) :=
  ⟨⟨.opened now, rfl, nofun⟩, nofun⟩

theorem move (h : Sound p) {evidence : Evidence S} (hevidence : evidence.Sound)
    (hlog : p.shared.accepted <+: evidence.accepted) (c : Nat) {next : Option (Task S)}
    (hnext : ∀ rebuild, next = some (.rebuild rebuild) →
      rebuild.Sound (evidence.accepted.map (·.event))) :
    Sound ⟨evidence, Pool.setCall p.calls c next⟩ := by
  refine ⟨hevidence, fun c' rebuild hcall => ?_⟩
  rw [Pool.get_setCall] at hcall
  split_ifs at hcall
  · exact hnext rebuild hcall
  · exact (h.rebuilds c' rebuild hcall).mono (hlog.map _)

/-- **One step** loses nothing exactly when it is as `LogAsRead` says. -/
theorem step_iff (h : Sound p) {a : Action S} (hstep : step p a = some p') :
    (NothingLost p'.shared ↔ LogAsRead p a) ∧ (LogAsRead p a → Sound p') := by
  cases a with
  | start c task =>
    obtain ⟨-, hmay, rfl⟩ := Pool.step_start hstep
    have hnext : ∀ rebuild, some task = some (.rebuild rebuild) →
        rebuild.Sound (p.shared.accepted.map (·.event)) := by
      intro rebuild heq
      cases heq
      cases rebuild with
      | replayEvents => exact trivial
      | applyEvents events => cases hmay
      | replaceState events state => cases hmay
    have hsound := h.move h.evidence List.prefix_rfl c hnext
    exact ⟨iff_of_true hsound.evidence.nothingLost trivial, fun _ => hsound⟩
  | advance c moment =>
    obtain ⟨task, next, hcall, hadvance, hcalls⟩ := Pool.step_advance hstep
    obtain ⟨shared, calls⟩ := p'
    obtain rfl : calls = Pool.setCall p.calls c next := hcalls
    cases task with
    | ingest call =>
      have hok : LogAsRead p (.advance c moment) ↔
          NothingNew p.shared.store call ∧ LogsReadably p.shared.store call := by
        rw [LogAsRead, hcall]
      rw [hok]
      cases hadvance
      exact ⟨h.evidence.ingest_iff call, fun hnew =>
        h.move (h.evidence.ingest hnew.1 hnew.2) (List.prefix_append ..) c nofun⟩
    | rebuild rebuild =>
      have hrebuild := h.rebuilds c rebuild hcall
      cases rebuild with
      | replayEvents =>
        have hok : LogAsRead p (.advance c moment) := by
          rw [LogAsRead, hcall]
          exact trivial
        cases hadvance
        have hread : ∀ rebuild, ((if moment.works then p.shared.store.eventLog else none).map
            fun events => Task.rebuild (.applyEvents events)) = some (.rebuild rebuild) →
              rebuild.Sound (p.shared.accepted.map (·.event)) := by
          intro rebuild heq
          rw [h.evidence.inStep.eventLog_eq] at heq
          split_ifs at heq
          · cases heq
            exact List.prefix_rfl
          · cases heq
        have hsound := h.move h.evidence List.prefix_rfl c hread
        exact ⟨iff_of_true hsound.evidence.nothingLost hok, fun _ => hsound⟩
      | applyEvents events =>
        have hok : LogAsRead p (.advance c moment) := by
          rw [LogAsRead, hcall]
          exact trivial
        cases hadvance
        have hnext : ∀ rebuild, some (Task.rebuild (.replaceState events
            (rebuiltState events moment.now))) = some (.rebuild rebuild) →
              rebuild.Sound (p.shared.accepted.map (·.event)) := by
          intro rebuild heq
          cases heq
          exact ⟨hrebuild, moment.now, rfl⟩
        have hsound := h.move h.evidence List.prefix_rfl c hnext
        exact ⟨iff_of_true hsound.evidence.nothingLost hok, fun _ => hsound⟩
      | replaceState events state =>
        obtain ⟨hread, rebuilt, rfl⟩ := hrebuild
        obtain ⟨hiff, hkeep⟩ := h.evidence.replace_iff hread rebuilt moment.now moment.works
        have hok : LogAsRead p (.advance c moment) ↔ p.shared.store.eventLog = some events := by
          rw [LogAsRead, hcall]
        rw [hok]
        cases hadvance
        exact ⟨hiff, fun hsame => h.move (hkeep hsame) List.prefix_rfl c nofun⟩

end Sound

/-- **A rebuild loses nothing**: in every state of a run every accepted event is in the log under
its own number, the events are counted, and the read models have every accepted event, exactly when
every rebuild finds the log as it read it when it replaces the state, every write that fails is for a
batch with nothing new, and every entry that is logged reads back. -/
theorem rebuild_loses_nothing_iff (now : Time) (actions : List (Action S))
    (p : Pool (Evidence S) (Task S)) (hrun : exec step (opened now) actions = some p) :
    (∀ pre, pre <+: actions → ∀ q, exec step (opened now) pre = some q → NothingLost q.shared) ↔
      OkAlong step LogAsRead (opened now) actions := by
  have hopened : Sound (opened now : Pool (Evidence S) (Task S)) := .opened now
  rw [forall_exec_prefix_iff_okAlong step (fun q => NothingLost q.shared),
    and_iff_right hopened.evidence.nothingLost]
  refine okAlong_congr (I := Sound) ?_ hopened hrun
  intro q a q' hq hstep
  obtain ⟨hiff, hkeep⟩ := hq.step_iff hstep
  have hnext : (∀ q' ∈ step q a, NothingLost q'.shared) ↔ NothingLost q'.shared := by
    rw [hstep]
    exact ⟨fun hall => hall q' rfl, fun hlost q'' hq'' => Option.some.inj hq'' ▸ hlost⟩
  rw [hnext]
  exact ⟨hiff, fun hlost => hkeep (hiff.mp hlost)⟩

/-! ## A rebuild that is overtaken -/

def ingestOf (event : Event idsOnly) : Task idsOnly := .ingest ⟨[event], fun _ => 0, 0, true⟩

def working : Moment := ⟨0, true⟩

def orderly : List (Action idsOnly) :=
  [.start 0 (ingestOf newProgram), .advance 0 working, .start 1 (.rebuild .replayEvents),
    .advance 1 working, .advance 1 working, .advance 1 working,
    .start 2 (ingestOf otherProgram), .advance 2 working]

theorem orderly_loses_nothing :
    ∃ p, exec step (opened 0) orderly = some p ∧ NothingLost p.shared := by
  have hsome : (exec step (opened 0) orderly).isSome := by decide
  obtain ⟨p, hrun⟩ := Option.isSome_iff_exists.mp hsome
  have hfirst : TextCodec.ReadsBack (⟨1, 0, newProgram⟩ : LoggedEvent idsOnly) := rfl
  have hsecond : TextCodec.ReadsBack (⟨2, 0, otherProgram⟩ : LoggedEvent idsOnly) := rfl
  have hok : OkAlong step LogAsRead (opened 0) orderly :=
    .cons trivial rfl <| .cons ⟨.inl rfl, fun _ => List.forall_mem_singleton.mpr hfirst⟩ rfl <|
      .cons trivial rfl <| .cons trivial rfl <| .cons trivial rfl <| .cons rfl rfl <|
      .cons trivial rfl <| .cons ⟨.inl rfl, fun _ => List.forall_mem_singleton.mpr hsecond⟩ rfl trivial
  exact ⟨p, hrun, (rebuild_loses_nothing_iff 0 orderly p hrun).mpr hok _ List.prefix_rfl p hrun⟩

def overtaken : List (Action idsOnly) :=
  [.start 0 (.rebuild .replayEvents), .advance 0 working, .start 1 (ingestOf newProgram),
    .advance 1 working, .advance 0 working, .advance 0 working,
    .start 2 (ingestOf otherProgram), .advance 2 working]

/-- Both events get the number one, and the second one is in the log. -/
theorem overtaken_loses : ¬ ∀ (now : Time) (actions : List (Action idsOnly))
    (p : Pool (Evidence idsOnly) (Task idsOnly)), exec step (opened now) actions = some p →
      p.calls.entries = [] → NothingLost p.shared := by
  intro h
  have hend : ∃ p, exec step (opened 0) overtaken = some p ∧ p.calls.entries = [] ∧
      (p.shared.accepted.map fun e => (e.sequence, e.event.eventId)) =
        [(1, "event-1"), (1, "event-2")] :=
    exists_exec _ (by decide) fun p _ hp => hp
  obtain ⟨p, hrun, hcalls, haccepted⟩ := hend
  have hlost := h 0 overtaken p hrun hcalls
  have hlogged : ∀ id, (1, id) ∈ p.shared.accepted.map (fun e => (e.sequence, e.event.eventId)) →
      ((p.shared.store.events.get 1).bind TextCodec.fromText).map
        (fun e : LoggedEvent idsOnly => e.event.eventId) = some id := by
    intro id hid
    obtain ⟨e, he, heq⟩ := List.mem_map.mp hid
    obtain ⟨hsequence, rfl⟩ := Prod.mk.inj heq
    rw [← hsequence, hlost.logged e he]
    rfl
  rw [haccepted] at hlogged
  have hfirst := hlogged "event-1" (by decide)
  rw [hlogged "event-2" (by decide)] at hfirst
  exact absurd hfirst (by decide)

end Arcxa.Traceability
