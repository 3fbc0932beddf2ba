import Arcxa.Lib.TextCodec
import Arcxa.Lib.Transition
import Arcxa.Traceability.State

/-!
# The evidence store

A batch of events is deduplicated by event id, applied to the read models in memory, and then
written, together with the events that were new, in one write. The memory is changed before the
write and stays changed when the write fails: the ids of events that were never logged count as
processed, and a retry of the same events writes read models to the store whose events are not in
the log. The log has its entries as JSON texts, and cannot be read where one of them cannot. Where what
is logged reads back, log and read models stay in step if and only if every write that fails is for a
batch with nothing new (`in_step_iff`).
-/

namespace Arcxa.Traceability

variable {S : Schema}

structure LoggedEvent (S : Schema) where
  sequence : Nat
  persistedAt : Time
  event : Event S

/-- The store and its database. A write replaces the read models and adds to the events, whose keys
are in the order of the numbers; an event is stored as the JSON text of its entry. -/
structure Store (S : Schema) where
  memory : TraceabilityState S
  stored : TraceabilityState S
  events : BTreeMap Nat String

def Store.opened (now : Time) : Store S := ⟨.default now, .default now, .empty⟩

section Codec

variable [TextCodec (LoggedEvent S)]

def Store.loggedEvents (store : Store S) : Option (List (LoggedEvent S)) :=
  store.events.values.mapM TextCodec.fromText

/-- `read_event_log`: `none` where an entry cannot be read. -/
def Store.eventLog (store : Store S) : Option (List (Event S)) :=
  store.loggedEvents.map (·.map (·.event))

/-! ## Calls -/

/-- A call of `ingest_events`: the batch, the clock, and whether the write goes through. -/
structure Call (S : Schema) where
  events : List (Event S)
  persistedAt : Nat → Time
  now : Time
  writes : Bool

def accept (processed : BTreeMap String Unit) :
    List (Event S) → BTreeMap String Unit × List (Event S)
  | [] => (processed, [])
  | event :: events =>
    if (processed.get event.eventId).isSome then accept processed events
    else
      let (processed, accepted) := accept (processed.insert event.eventId ()) events
      (processed, event :: accepted)

def logged (start : Nat) (persistedAt : Nat → Time) (accepted : List (Event S)) :
    List (LoggedEvent S) :=
  accepted.zipIdx.map fun p => ⟨start + p.2 + 1, persistedAt p.2, p.1⟩

/-- `persist_rocksdb`. -/
def persist (store : Store S) (appended : List (LoggedEvent S)) (writes : Bool) :
    Store S × Except String Unit :=
  if writes then
    ({ store with
      stored := store.memory
      events := appended.foldl (fun events e => events.insert e.sequence (TextCodec.toText e))
        store.events }, .ok ())
  else
    (store, .error "failed to persist traceability RocksDB state")

/-- `ingest_events`: `append_events_and_mutate` with `apply_events_to_state`. -/
def ingestEvents (store : Store S) (call : Call S) :
    Store S × Except String (Nat × List String × List String) :=
  let (processed, accepted) := accept store.memory.processedEventIds call.events
  let appended := logged store.memory.lastEventSequence call.persistedAt accepted
  let (memory, summary) :=
    applyEventsToState { store.memory with processedEventIds := processed } accepted
  let memory := { memory with
    lastEventSequence := memory.lastEventSequence + accepted.length
    updatedAt := call.now }
  let (store, result) := persist { store with memory } appended call.writes
  (store, result.map fun _ => (summary.ingestedCount, summary.programIds, summary.objectIds))

def ingestStep (store : Store S) (call : Call S) : Store S := (ingestEvents store call).1

def ingestAll (now : Time) (calls : List (Call S)) : Store S :=
  calls.foldl ingestStep (.opened now)

/-! ## What is to hold -/

/-- Log, read models and the set of ids tell the same story. -/
structure InStepWith (store : Store S) (log : List (LoggedEvent S)) : Prop where
  /-- The log can be read. -/
  read : store.loggedEvents = some log
  /-- It has the numbers from one on, without a gap. -/
  numbers : store.events.keys = List.range' 1 store.memory.lastEventSequence ∧
    log.map (·.sequence) = List.range' 1 store.memory.lastEventSequence
  /-- It has each event once. -/
  once : (log.map (·.event.eventId)).Nodup
  /-- It has the events that were processed. -/
  processed : ∀ id, (store.memory.processedEventIds.get id).isSome ↔
    id ∈ log.map (·.event.eventId)
  /-- The read models are those of the log. -/
  models : store.memory.toReadModels = (log.map (·.event)).foldl ReadModels.applyEvent .default
  /-- What is stored is what is in memory. -/
  stored : store.stored.toReadModels = store.memory.toReadModels ∧
    store.stored.processedEventIds = store.memory.processedEventIds ∧
    store.stored.lastEventSequence = store.memory.lastEventSequence

def InStep (store : Store S) : Prop := ∃ log, InStepWith store log

/-- A call that returns an error leaves the memory as it was, and one that does not leaves all its
events in the log. -/
structure Settles (store : Store S) (call : Call S) : Prop where
  error : ∀ e, (ingestEvents store call).2 = .error e →
    (ingestEvents store call).1.memory = store.memory
  ok : ∀ r, (ingestEvents store call).2 = .ok r →
    ∃ log, (ingestEvents store call).1.loggedEvents = some log ∧
      ∀ event ∈ call.events, event.eventId ∈ log.map (·.event.eventId)

end Codec

/-- The batch of a call whose write fails has only events that were processed before. -/
def NothingNew (store : Store S) (call : Call S) : Prop :=
  call.writes = true ∨
    ∀ event ∈ call.events, (store.memory.processedEventIds.get event.eventId).isSome

/-- And the clock shows what it showed at the call before. -/
def NothingChanged (store : Store S) (call : Call S) : Prop :=
  call.writes = true ∨
    (∀ event ∈ call.events, (store.memory.processedEventIds.get event.eventId).isSome) ∧
      call.now = store.memory.updatedAt

/-! ## Accepting -/

theorem accept_of_processed {processed : BTreeMap String Unit} {events : List (Event S)}
    (h : ∀ event ∈ events, (processed.get event.eventId).isSome) :
    accept processed events = (processed, []) := by
  induction events with
  | nil => rfl
  | cons event events ih =>
    rw [List.forall_mem_cons] at h
    rw [accept, if_pos h.1, ih h.2]

variable (processed : BTreeMap String Unit)

theorem get_accept (events : List (Event S)) (id : String) :
    ((accept processed events).1.get id).isSome ↔
      (processed.get id).isSome ∨ id ∈ events.map (·.eventId) := by
  induction events generalizing processed with
  | nil => simp [accept]
  | cons event events ih =>
    rw [accept, List.map_cons, List.mem_cons]
    split_ifs with hseen
    · rw [ih]
      refine or_congr_right' fun hid => (or_iff_right ?_).symm
      rintro rfl
      exact hid hseen
    · rw [ih, BTreeMap.get_insert]
      split_ifs with hid
      · simp [hid]
      · rw [or_iff_right hid]

theorem accept_spec (events : List (Event S)) :
    ((accept processed events).2.map (·.eventId)).Nodup ∧
      (∀ event ∈ (accept processed events).2, processed.get event.eventId = none) ∧
      ∀ id, ((accept processed events).1.get id).isSome ↔
        (processed.get id).isSome ∨ id ∈ (accept processed events).2.map (·.eventId) := by
  induction events generalizing processed with
  | nil => simp [accept]
  | cons event events ih =>
    rw [accept]
    split_ifs with hseen
    · exact ih processed
    · obtain ⟨hnodup, hnew, hprocessed⟩ := ih (processed.insert event.eventId ())
      have hfresh : ∀ e ∈ (accept (processed.insert event.eventId ()) events).2,
          e.eventId ≠ event.eventId ∧ processed.get e.eventId = none := by
        intro e he
        have hnone := hnew e he
        rw [BTreeMap.get_insert] at hnone
        split_ifs at hnone with hid
        exact ⟨hid, hnone⟩
      refine ⟨?_, ?_, ?_⟩
      · rw [List.map_cons, List.nodup_cons]
        refine ⟨fun hmem => ?_, hnodup⟩
        obtain ⟨e, he, hid⟩ := List.mem_map.mp hmem
        exact (hfresh e he).1 hid
      · rw [List.forall_mem_cons]
        refine ⟨?_, fun e he => (hfresh e he).2⟩
        rwa [Bool.not_eq_true, Option.isSome_eq_false_iff, Option.isNone_iff_eq_none] at hseen
      · intro id
        rw [hprocessed, BTreeMap.get_insert, List.map_cons, List.mem_cons]
        split_ifs with hid
        · simp [hid]
        · rw [or_iff_right hid]

theorem accept_append (events events' : List (Event S)) :
    accept processed (events ++ events') =
      ((accept (accept processed events).1 events').1,
        (accept processed events).2 ++ (accept (accept processed events).1 events').2) := by
  induction events generalizing processed with
  | nil => rfl
  | cons event events ih =>
    rw [List.cons_append, accept, accept]
    split_ifs
    · exact ih processed
    · rw [ih]
      rfl

theorem mem_of_mem_accept {processed : BTreeMap String Unit} {events : List (Event S)}
    {event : Event S} (h : event ∈ (accept processed events).2) : event ∈ events := by
  induction events generalizing processed with
  | nil => cases h
  | cons first events ih =>
    rw [accept] at h
    split_ifs at h
    · exact List.mem_cons_of_mem _ (ih h)
    · rcases List.mem_cons.mp h with rfl | hmem
      · exact List.mem_cons_self
      · exact List.mem_cons_of_mem _ (ih hmem)

/-! ## The log -/

theorem entries_append [TextCodec (LoggedEvent S)] {events : BTreeMap Nat String} {last : Nat}
    (hlast : ∀ k ∈ events.keys, k ≤ last) {appended : List (LoggedEvent S)}
    (hnumbers : appended.map (·.sequence) = List.range' (last + 1) appended.length) :
    (appended.foldl (fun events e => events.insert e.sequence (TextCodec.toText e)) events).entries =
      events.entries ++ appended.map (fun e => (e.sequence, TextCodec.toText e)) := by
  induction appended generalizing events last with
  | nil => exact (List.append_nil _).symm
  | cons e appended ih =>
    rw [List.map_cons, List.length_cons, List.range'_succ] at hnumbers
    obtain ⟨hnumber, hrest⟩ := List.cons.inj hnumbers
    have hentries : (events.insert e.sequence (TextCodec.toText e)).entries =
        events.entries ++ [(e.sequence, TextCodec.toText e)] := by
      refine BTreeMap.entries_insert_last (fun p hp => ?_) _
      have hle := hlast p.1 (List.mem_map_of_mem hp)
      omega
    have hlast' : ∀ k ∈ (events.insert e.sequence (TextCodec.toText e)).keys, k ≤ last + 1 := by
      intro k hk
      rw [BTreeMap.keys, hentries, List.map_append, List.mem_append, List.map_singleton,
        List.mem_singleton] at hk
      rcases hk with hk | rfl
      · exact Nat.le_succ_of_le (hlast k hk)
      · exact hnumber.le
    rw [List.foldl_cons, ih hlast' hrest, hentries, List.append_assoc]
    rfl

theorem logged_sequences (start : Nat) (persistedAt : Nat → Time) (accepted : List (Event S)) :
    (logged start persistedAt accepted).map (·.sequence) =
      List.range' (start + 1) (logged start persistedAt accepted).length := by
  apply List.ext_getElem
  · rw [List.length_map, List.length_range']
  · intro i h₁ h₂
    simp only [logged, List.getElem_map, List.getElem_zipIdx, List.getElem_range']
    omega

theorem logged_events (start : Nat) (persistedAt : Nat → Time) (accepted : List (Event S)) :
    (logged start persistedAt accepted).map (·.event) = accepted := by
  rw [logged, List.map_map]
  exact List.zipIdx_map_fst 0 accepted

/-! ## One call -/

def memoryAfter (store : Store S) (call : Call S) : TraceabilityState S :=
  let (processed, accepted) := accept store.memory.processedEventIds call.events
  { store.memory with
    toReadModels := accepted.foldl ReadModels.applyEvent store.memory.toReadModels
    processedEventIds := processed
    lastEventSequence := store.memory.lastEventSequence + accepted.length
    updatedAt := call.now }

def appendedBy (store : Store S) (call : Call S) : List (LoggedEvent S) :=
  logged store.memory.lastEventSequence call.persistedAt
    (accept store.memory.processedEventIds call.events).2

section Ingest

variable [TextCodec (LoggedEvent S)] {store : Store S} {call : Call S}

theorem ingestStep_of_write (h : call.writes = true) : ingestStep store call =
    { memory := memoryAfter store call
      stored := memoryAfter store call
      events := (appendedBy store call).foldl (fun events e =>
        events.insert e.sequence (TextCodec.toText e)) store.events } := by
  unfold ingestStep ingestEvents persist
  rw [h]
  rfl

theorem ingestStep_of_failure (h : call.writes = false) :
    ingestStep store call = { store with memory := memoryAfter store call } := by
  unfold ingestStep ingestEvents persist
  rw [h]
  rfl

theorem ingestEvents_result_error {e : String} :
    (ingestEvents store call).2 = .error e → call.writes = false := by
  unfold ingestEvents persist
  cases call.writes with
  | true => exact nofun
  | false => exact fun _ => rfl

theorem memory_ingestStep : (ingestStep store call).memory = memoryAfter store call := by
  cases h : call.writes with
  | true => rw [ingestStep_of_write h]
  | false => rw [ingestStep_of_failure h]

omit [TextCodec (LoggedEvent S)] in
theorem memoryAfter_of_processed
    (h : ∀ event ∈ call.events, (store.memory.processedEventIds.get event.eventId).isSome) :
    memoryAfter store call = { store.memory with updatedAt := call.now } := by
  unfold memoryAfter
  rw [accept_of_processed h]
  rfl

theorem entries_of_write (hkeys : store.events.keys = List.range' 1 store.memory.lastEventSequence)
    (h : call.writes = true) : (ingestStep store call).events.entries = store.events.entries ++
      (appendedBy store call).map (fun e => (e.sequence, TextCodec.toText e)) := by
  have hlast : ∀ k ∈ store.events.keys, k ≤ store.memory.lastEventSequence := by
    intro k hk
    rw [hkeys] at hk
    obtain ⟨-, hlt⟩ := List.mem_range'_1.mp hk
    omega
  rw [ingestStep_of_write h]
  exact entries_append hlast (logged_sequences ..)

/-- Every entry that the call logs reads back. -/
def LogsReadably (store : Store S) (call : Call S) : Prop :=
  call.writes = true → ∀ e ∈ appendedBy store call, TextCodec.ReadsBack e

theorem loggedEvents_of_write {log : List (LoggedEvent S)} (hread : store.loggedEvents = some log)
    (hkeys : store.events.keys = List.range' 1 store.memory.lastEventSequence)
    (hreads : LogsReadably store call) (h : call.writes = true) :
    (ingestStep store call).loggedEvents = some (log ++ appendedBy store call) := by
  have hvalues : (ingestStep store call).events.values =
      store.events.values ++ (appendedBy store call).map TextCodec.toText := by
    rw [BTreeMap.values, entries_of_write hkeys h, List.map_append, List.map_map]
    rfl
  have hread' : store.events.values.mapM TextCodec.fromText = some log := hread
  rw [Store.loggedEvents, hvalues, List.mapM_append, hread', TextCodec.mapM_fromText (hreads h)]
  rfl

omit [TextCodec (LoggedEvent S)] in
theorem ids_appendedBy : (appendedBy store call).map (·.event.eventId) =
    (accept store.memory.processedEventIds call.events).2.map (·.eventId) := by
  rw [← logged_events store.memory.lastEventSequence call.persistedAt
    (accept store.memory.processedEventIds call.events).2, List.map_map]
  rfl

end Ingest

namespace InStepWith

variable [TextCodec (LoggedEvent S)] {store : Store S} {call : Call S} {log : List (LoggedEvent S)}

theorem opened (now : Time) : InStepWith (.opened now : Store S) [] := by
  refine ⟨rfl, ⟨rfl, rfl⟩, List.nodup_nil, fun id => ?_, rfl, rfl, rfl, rfl⟩
  exact iff_of_false nofun List.not_mem_nil

variable (h : InStepWith store log)

include h

/-- **A write** adds the events that are new to the log and to the read models. -/
theorem of_write (hreads : LogsReadably store call) (hwrite : call.writes = true) :
    InStepWith (ingestStep store call) (log ++ appendedBy store call) := by
  obtain ⟨hnodup, hnew, hprocessed⟩ := accept_spec store.memory.processedEventIds call.events
  have hmemory : (ingestStep store call).memory = memoryAfter store call := memory_ingestStep
  have hlength : (appendedBy store call).length =
      (accept store.memory.processedEventIds call.events).2.length := by
    rw [appendedBy, logged, List.length_map, List.length_zipIdx]
  have hsequences : (appendedBy store call).map (·.sequence) =
      List.range' (1 + store.memory.lastEventSequence)
        (accept store.memory.processedEventIds call.events).2.length := by
    rw [Nat.add_comm, ← hlength]
    exact logged_sequences ..
  have hevents : (appendedBy store call).map (·.event) =
      (accept store.memory.processedEventIds call.events).2 := logged_events ..
  refine ⟨loggedEvents_of_write h.read h.numbers.1 hreads hwrite, ⟨?_, ?_⟩, ?_, fun id => ?_, ?_, ?_⟩
  · rw [BTreeMap.keys, entries_of_write h.numbers.1 hwrite, List.map_append, List.map_map, hmemory]
    show store.events.keys ++ (appendedBy store call).map (·.sequence) = _
    rw [h.numbers.1, hsequences, List.range'_append_1]
    rfl
  · rw [List.map_append, h.numbers.2, hsequences, hmemory, List.range'_append_1]
    rfl
  · rw [List.map_append, ids_appendedBy, List.nodup_append]
    refine ⟨h.once, hnodup, fun id hid id' hid' heq => ?_⟩
    obtain ⟨event, hevent, rfl⟩ := List.mem_map.mp hid'
    have hsome := (h.processed id).mpr hid
    rw [heq, hnew event hevent] at hsome
    cases hsome
  · rw [hmemory, List.map_append, ids_appendedBy, List.mem_append, ← h.processed id]
    exact hprocessed id
  · rw [hmemory, List.map_append, List.foldl_append, ← h.models, hevents]
    rfl
  · rw [ingestStep_of_write hwrite]
    exact ⟨rfl, rfl, rfl⟩

theorem of_processed (hfailure : call.writes = false)
    (hseen : ∀ event ∈ call.events, (store.memory.processedEventIds.get event.eventId).isSome) :
    InStepWith (ingestStep store call) log := by
  rw [ingestStep_of_failure hfailure, memoryAfter_of_processed hseen]
  exact ⟨h.read, h.numbers, h.once, h.processed, h.models, h.stored⟩

/-- **One call** leaves log and read models in step exactly when a failing write has nothing
new. -/
theorem step_iff (hreads : LogsReadably store call) :
    InStep (ingestStep store call) ↔ NothingNew store call := by
  cases hwrite : call.writes with
  | true => exact iff_of_true ⟨_, h.of_write hreads hwrite⟩ (.inl hwrite)
  | false =>
    unfold NothingNew
    rw [hwrite, or_iff_right Bool.false_ne_true]
    refine ⟨fun ⟨log', h'⟩ event hevent => ?_, fun hseen => ⟨log, h.of_processed hwrite hseen⟩⟩
    have hprocessed :
        ((ingestStep store call).memory.processedEventIds.get event.eventId).isSome := by
      rw [memory_ingestStep]
      exact (get_accept ..).mpr (.inr (List.mem_map_of_mem hevent))
    -- the log is what it was
    have hread := h'.read
    rw [ingestStep_of_failure hwrite] at hread
    obtain rfl : log = log' := Option.some.inj (h.read.symm.trans hread)
    exact (h.processed _).mpr ((h'.processed _).mp hprocessed)

theorem settles_iff (hreads : LogsReadably store call) :
    InStep (ingestStep store call) ∧ Settles store call ↔ NothingChanged store call := by
  constructor
  · rintro ⟨-, hsettles⟩
    cases hwrite : call.writes with
    | true => exact .inl hwrite
    | false =>
      have hmemory : memoryAfter store call = store.memory := by
        rw [← memory_ingestStep]
        refine hsettles.error "failed to persist traceability RocksDB state" ?_
        unfold ingestEvents persist
        rw [hwrite]
        rfl
      refine .inr ⟨fun event hevent => ?_, congrArg (·.updatedAt) hmemory⟩
      have hprocessed := congrArg (·.processedEventIds.get event.eventId) hmemory
      rw [← hprocessed]
      exact (get_accept ..).mpr (.inr (List.mem_map_of_mem hevent))
  · intro hnothing
    have hstep : InStep (ingestStep store call) :=
      (h.step_iff hreads).mpr (hnothing.imp_right And.left)
    refine ⟨hstep, ⟨fun e herror => ?_, fun r _ => ?_⟩⟩
    · have hwrite := ingestEvents_result_error herror
      obtain ⟨hseen, hnow⟩ := hnothing.resolve_left (by rw [hwrite]; exact Bool.false_ne_true)
      show (ingestStep store call).memory = store.memory
      rw [memory_ingestStep, memoryAfter_of_processed hseen, hnow]
    · obtain ⟨log', h'⟩ := hstep
      refine ⟨log', h'.read, fun event hevent => (h'.processed _).mp ?_⟩
      rw [memory_ingestStep]
      exact (get_accept ..).mpr (.inr (List.mem_map_of_mem hevent))

end InStepWith

/-! ## Sequences of calls -/

/-- **Log and read models never drift**, where the entries of the log read back, exactly when every write
that fails is for a batch with nothing new; and every call that fails leaves the memory as it was, and
every other one leaves its events in the log, exactly when the clock has not moved either at a write that
fails. -/
theorem in_step_iff [TextCodec (LoggedEvent S)] (now : Time) (calls : List (Call S))
    (hreads : OkAlong (fun store call => some (ingestStep store call)) LogsReadably (.opened now) calls) :
    ((∀ pre, pre <+: calls → InStep (ingestAll now pre)) ↔
      OkAlong (fun store call => some (ingestStep store call)) NothingNew (.opened now) calls) ∧
    (((∀ pre, pre <+: calls → InStep (ingestAll now pre)) ∧
        ∀ pre call, pre ++ [call] <+: calls → Settles (ingestAll now pre) call) ↔
      OkAlong (fun store call => some (ingestStep store call)) NothingChanged (.opened now)
        calls) := by
  have hexec := exec_total (ingestStep (S := S)) (.opened now) calls
  have hinit : InStep (.opened now : Store S) := ⟨[], .opened now⟩
  have hrun := forall_prefix_iff_okAlong (ingestStep (S := S)) InStep (.opened now) calls
  have hcalls := forall_step_iff_okAlong (ingestStep (S := S)) Settles (.opened now) calls
  rw [show (∀ pre, pre <+: calls → InStep (ingestAll now pre)) ↔ _ from hrun, and_iff_right hinit,
    show (∀ pre call, pre ++ [call] <+: calls → Settles (ingestAll now pre) call) ↔ _ from hcalls,
    okAlong_and]
  constructor
  · refine okAlong_congr_along (I := InStep) ?_ hinit hreads hexec
    rintro store call store' ⟨log, hstore⟩ hlogs hstep
    cases hstep
    exact ⟨hstore.step_iff hlogs, id⟩
  · refine okAlong_congr_along (I := InStep) ?_ hinit hreads hexec
    rintro store call store' ⟨log, hstore⟩ hlogs hstep
    cases hstep
    exact ⟨hstore.settles_iff hlogs, And.left⟩

def idsOnly : Schema where
  Payload := String
  Program := String
  Object := String
  Rule := String
  Execution := String
  Exception := String
  Control := String
  Approval := String
  Packet := String
  program := some
  programId := id
  object := some
  objectId := id
  rule := some
  ruleId := id
  execution := some
  executionId := id
  exception := some
  exceptionId := id
  control := some
  controlId := id
  approval := some
  approvalId := id
  packet := some
  packetId := id
  packetValueKey := id

def newProgram : Event idsOnly := ⟨"event-1", "program-1", "", .Program, none, "program-1"⟩

def otherProgram : Event idsOnly := ⟨"event-2", "program-2", "", .Program, none, "program-2"⟩

def LoggedEvent.label (e : LoggedEvent S) : String := toString e.sequence ++ ":" ++ e.event.eventId

instance : TextCodec (LoggedEvent idsOnly) := .ofTable LoggedEvent.label
  [⟨1, 0, newProgram⟩, ⟨1, 0, otherProgram⟩, ⟨2, 0, otherProgram⟩,
    ⟨1, 1, { newProgram with eventId := "legacy-0" }⟩]

/-- A program is logged, its write is tried again in vain, and another program is logged. -/
def retried : List (Call idsOnly) :=
  [⟨[newProgram], fun _ => 0, 0, true⟩, ⟨[newProgram], fun _ => 0, 3, false⟩,
    ⟨[otherProgram, newProgram], fun _ => 0, 5, true⟩]

/-- The log and the read models stay in step, and the clock of the call that fails has moved. -/
theorem retried_in_step : (∀ pre, pre <+: retried → InStep (ingestAll 0 pre)) ∧
    ¬ ∀ pre call, pre ++ [call] <+: retried → Settles (ingestAll 0 pre) call := by
  have hfirst : TextCodec.ReadsBack (⟨1, 0, newProgram⟩ : LoggedEvent idsOnly) := rfl
  have hsecond : TextCodec.ReadsBack (⟨2, 0, otherProgram⟩ : LoggedEvent idsOnly) := rfl
  obtain ⟨hinStep, hsettled⟩ := in_step_iff 0 retried
    (.cons (fun _ => List.forall_mem_singleton.mpr hfirst) rfl <|
      .cons nofun rfl <| .cons (fun _ => List.forall_mem_singleton.mpr hsecond) rfl trivial)
  have hall := hinStep.mpr <|
    .cons (.inl rfl) rfl <| .cons (.inr (List.forall_mem_singleton.mpr rfl)) rfl <|
      .cons (.inl rfl) rfl trivial
  refine ⟨hall, fun hsettles => ?_⟩
  obtain ⟨-, hrest⟩ := hsettled.mp ⟨hall, hsettles⟩
  obtain ⟨hwrites | ⟨-, hnow⟩, -⟩ := hrest _ rfl
  · exact Bool.false_ne_true hwrites
  · exact absurd hnow (by decide)

/-- The write of a new event fails, and the retry goes through: the program is in the read models,
and the log is empty. -/
theorem retry_not_logged : ¬ ∀ (now : Time) (calls : List (Call idsOnly)),
    (∀ pre, pre <+: calls → InStep (ingestAll now pre)) ∧
      ∀ pre call, pre ++ [call] <+: calls → Settles (ingestAll now pre) call := by
  intro h
  obtain ⟨log, hstep⟩ := (h 0 [⟨[newProgram], fun _ => 0, 0, false⟩,
    ⟨[newProgram], fun _ => 0, 0, true⟩]).1 _ List.prefix_rfl
  have hlogged := (hstep.processed "event-1").mp (by decide)
  have hread : (some [] : Option (List (LoggedEvent idsOnly))) = some log := hstep.read
  cases hread
  cases hlogged

end Arcxa.Traceability
