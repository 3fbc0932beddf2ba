import Arcxa.Lib.Calls
import Arcxa.Lib.LostUpdate
import Arcxa.Lineage.RowId

/-!
# The row lineage store

`RowLineageStore` keeps the events of a row in one list under the row's key, and an event with an
output row under that row's key too. A call that writes events reads one list after the other, puts each
with its event at the end into a batch, and writes the batch last; single events wait in a buffer for a
call that writes them together. Between two reads, and before the batch is written, other calls go on.

A batch keeps one list for a key, the one that was put last, and every list is made from what is stored
and not from what the batch holds. So two events of a row in one batch leave one of them, and a batch
takes back what another call wrote since the list was read. Nothing makes up for that
(`keepsEveryEvent_iff`).
-/

namespace Arcxa.Lineage

open BTreeMap

variable {D : Type}

instance {K V : Type} [LinearOrder K] [DecidableEq V] : DecidableEq (BTreeMap K V) := fun m m' =>
  decidable_of_iff (m.entries = m'.entries) ⟨BTreeMap.ext, congrArg BTreeMap.entries⟩

deriving instance DecidableEq for RowPosition, RowId

/-- `data`: the fields that the store does not look at for its lists of rows. -/
structure RowLineageEvent (D : Type) where
  rowId : RowId
  outputRowId : Option RowId
  data : D
  deriving DecidableEq

namespace RowLineageEvent

def rows (event : RowLineageEvent D) : List RowId := event.rowId :: event.outputRowId.toList

def Concerns (row : RowId) (event : RowLineageEvent D) : Bool := row ∈ event.rows

def IsUnder (key : String) (event : RowLineageEvent D) : Bool :=
  event.rows.any fun row => row.toKey = key

theorem isUnder_iff {key : String} {event : RowLineageEvent D} :
    event.IsUnder key ↔ ∃ row, event.Concerns row ∧ row.toKey = key := by
  simp only [IsUnder, Concerns, List.any_eq_true, decide_eq_true_eq]

end RowLineageEvent

/-! ## The store -/

/-- A value that a batch has for a key: the list of a row. -/
structure Put (D : Type) where
  key : String
  events : List (RowLineageEvent D)

/-- The column family of the rows and the buffer; and for the statements the events of the batches
written so far and the events that each call was given. -/
structure RowLineageStore (D : Type) where
  byRow : BTreeMap String (List (RowLineageEvent D))
  writeBuffer : List (RowLineageEvent D)
  maxBufferSize : Nat
  written : List (RowLineageEvent D)
  recorded : List (List (RowLineageEvent D))

/-- What is left of a call: `todo` are the appends of `write_events_internal` to come, `batch` the
values put so far, the last one first, and `next` the events that are written after these. -/
inductive RowCall (D : Type) where
  | writeRow (event : RowLineageEvent D)
  | writeRowsBatch (events : List (RowLineageEvent D))
  | flushBuffer
  | writeEventsInternal (events : List (RowLineageEvent D))
      (todo : List (String × RowLineageEvent D)) (batch : List (Put D))
      (next : List (RowLineageEvent D))

namespace RowCall

/-- The calls of the loop over the events to `append_event_to_row_index`. -/
def appends (events : List (RowLineageEvent D)) : List (String × RowLineageEvent D) :=
  events.flatMap fun event => event.rows.map fun row => (row.toKey, event)

def writing (events next : List (RowLineageEvent D)) : RowCall D :=
  .writeEventsInternal events (appends events) [] next

def isEntry : RowCall D → Bool
  | .writeEventsInternal .. => false
  | _ => true

end RowCall

namespace RowLineageStore

def new : RowLineageStore D where
  byRow := .empty
  writeBuffer := []
  maxBufferSize := 1000
  written := []
  recorded := []

variable (store : RowLineageStore D)

def eventsAt (key : String) : List (RowLineageEvent D) := (store.byRow.get key).getD []

def getRowLineage (row : RowId) : List (RowLineageEvent D) := store.eventsAt row.toKey

def appendEventToRowIndex (key : String) (event : RowLineageEvent D) : Put D where
  key := key
  events := store.eventsAt key ++ [event]

def writeBatch (events : List (RowLineageEvent D)) (batch : List (Put D)) : RowLineageStore D :=
  { store with
    byRow := batch.foldr (fun put byRow => byRow.insert put.key put.events) store.byRow
    written := store.written ++ events }

def record (events : List (RowLineageEvent D)) : RowLineageStore D :=
  { store with recorded := store.recorded ++ [events] }

def takeBuffer (next : List (RowLineageEvent D)) : RowLineageStore D × Option (RowCall D) :=
  if store.writeBuffer = [] then (store, if next = [] then none else some (.writing next []))
  else ({ store with writeBuffer := [] }, some (.writing store.writeBuffer next))

def pushBuffer (event : RowLineageEvent D) : RowLineageStore D :=
  { store.record [event] with writeBuffer := store.writeBuffer ++ [event] }

def writeRow (event : RowLineageEvent D) : RowLineageStore D × Option (RowCall D) :=
  if store.maxBufferSize ≤ (store.pushBuffer event).writeBuffer.length then
    (store.pushBuffer event).takeBuffer []
  else (store.pushBuffer event, none)

def writeRowsBatch (events : List (RowLineageEvent D)) :
    RowLineageStore D × Option (RowCall D) :=
  if events = [] then (store, none) else (store.record events).takeBuffer events

def flushBuffer : RowLineageStore D × Option (RowCall D) := store.takeBuffer []

/-- A call's next step; each holds the buffer's lock, or makes one read or one write. -/
def advance : RowCall D → RowLineageStore D × Option (RowCall D)
  | .writeRow event => store.writeRow event
  | .writeRowsBatch events => store.writeRowsBatch events
  | .flushBuffer => store.flushBuffer
  | .writeEventsInternal events ((key, event) :: todo) batch next =>
    (store, some (.writeEventsInternal events todo
      (store.appendEventToRowIndex key event :: batch) next))
  | .writeEventsInternal events [] batch next =>
    (store.writeBatch events batch, if next = [] then none else some (.writing next []))

end RowLineageStore

/-! ## Runs -/

abbrev RowPool (D : Type) := Pool (RowLineageStore D) (RowCall D)

namespace RowPool

def step : RowPool D → CallAction (RowCall D) Unit → Option (RowPool D) :=
  Pool.step (fun _ call => call.isEntry) (fun store call _ => some (store.advance call))

def start : RowPool D := ⟨.new, .empty⟩

def Finished (p : RowPool D) : Prop := p.calls = .empty ∧ p.shared.writeBuffer = []

/-- The events that a row was recorded with are in its list, each as often as it was recorded and those
of one call in the call's order. -/
def KeepsEveryEvent (p : RowPool D) : Prop :=
  ∀ row, ((p.shared.getRowLineage row).filter (·.Concerns row)).Perm
      (p.shared.recorded.flatten.filter (·.Concerns row)) ∧
    ∀ events ∈ p.shared.recorded,
      (events.filter (·.Concerns row)).Sublist (p.shared.getRowLineage row)

end RowPool

/-- One event of the batch is under each key of the batch, and the list that is written adds an entry
to what is stored when it is written. -/
def RowLineageStore.AllowedWrite (store : RowLineageStore D) : RowCall D → Prop
  | .writeEventsInternal events [] batch _ => ∀ put ∈ batch,
      events.countP (·.IsUnder put.key) = 1 ∧
      ∀ last ∈ batch.find? (·.key = put.key), last.events.dropLast = store.eventsAt put.key
  | _ => True

instance [DecidableEq D] (store : RowLineageStore D) :
    ∀ call, Decidable (store.AllowedWrite call)
  | .writeEventsInternal events [] batch _ => inferInstanceAs (Decidable (∀ put ∈ batch,
      events.countP (·.IsUnder put.key) = 1 ∧
      ∀ last ∈ batch.find? (·.key = put.key), last.events.dropLast = store.eventsAt put.key))
  | .writeEventsInternal _ (_ :: _) _ _ | .writeRow _ | .writeRowsBatch _ | .flushBuffer =>
    inferInstanceAs (Decidable True)

def RowPool.Allowed (p : RowPool D) : CallAction (RowCall D) Unit → Prop
  | .start _ _ => True
  | .advance c _ => ∀ call ∈ p.calls.get c, p.shared.AllowedWrite call

instance [DecidableEq D] (p : RowPool D) : ∀ a, Decidable (p.Allowed a)
  | .start _ _ => inferInstanceAs (Decidable True)
  | .advance c _ =>
    inferInstanceAs (Decidable (∀ call ∈ p.calls.get c, p.shared.AllowedWrite call))

/-! ## Single steps -/

namespace RowLineageStore

variable (store : RowLineageStore D)

theorem eventsAt_writeBatch (events : List (RowLineageEvent D)) (batch : List (Put D))
    (key : String) : (store.writeBatch events batch).eventsAt key =
      ((batch.find? (·.key = key)).map Put.events).getD (store.eventsAt key) := by
  unfold eventsAt writeBatch
  induction batch with
  | nil => rfl
  | cons put batch ih =>
    rw [List.foldr_cons, get_insert, List.find?_cons]
    by_cases hkey : put.key = key
    · rw [if_pos hkey.symm, decide_eq_true hkey]
      rfl
    · rw [if_neg (Ne.symm hkey), decide_eq_false hkey]
      exact ih

end RowLineageStore

namespace RowCall

def batch : RowCall D → List (Put D)
  | .writeEventsInternal _ _ batch _ => batch
  | _ => []

def pending : RowCall D → List (RowLineageEvent D)
  | .writeEventsInternal events _ _ next => events ++ next
  | _ => []

/-- Each put ends with an event of the call under its key, each append to come is of such an event,
and no key of an event is left out. -/
structure Complete (events : List (RowLineageEvent D)) (todo : List (String × RowLineageEvent D))
    (batch : List (Put D)) : Prop where
  last : ∀ put ∈ batch, ∃ old, ∃ event ∈ events,
    put.events = old ++ [event] ∧ event.IsUnder put.key
  under : ∀ append ∈ todo, append.2 ∈ events ∧ append.2.IsUnder append.1
  keys : ∀ event ∈ events, ∀ key, event.IsUnder key →
    (∃ append ∈ todo, append.1 = key) ∨ ∃ put ∈ batch, put.key = key

def Ok : RowCall D → Prop
  | .writeEventsInternal events todo batch _ => Complete events todo batch
  | _ => True

theorem complete_appends (events : List (RowLineageEvent D)) :
    Complete events (appends events) [] where
  last := fun _ hput => nomatch hput
  under := by
    intro append happend
    obtain ⟨event, hevent, hrow⟩ := List.mem_flatMap.mp happend
    obtain ⟨row, hmem, rfl⟩ := List.mem_map.mp hrow
    exact ⟨hevent, List.any_eq_true.mpr ⟨row, hmem, decide_eq_true rfl⟩⟩
  keys := by
    intro event hevent key hunder
    obtain ⟨row, hrow, hkey⟩ := List.any_eq_true.mp hunder
    refine .inl ⟨(row.toKey, event), ?_, of_decide_eq_true hkey⟩
    exact List.mem_flatMap.mpr ⟨event, hevent, List.mem_map.mpr ⟨row, hrow, rfl⟩⟩

theorem ok_writing (events next : List (RowLineageEvent D)) : (writing events next).Ok :=
  complete_appends events

end RowCall

namespace RowLineageStore

variable {store : RowLineageStore D}

/-- What an entry does under the buffer's lock: it notes what it was given, and the rest of the call
writes what it has taken. -/
structure Entered (store store' : RowLineageStore D) (given : List (List (RowLineageEvent D)))
    (next : Option (RowCall D)) : Prop where
  byRow : store'.byRow = store.byRow
  written : store'.written = store.written
  recorded : store'.recorded = store.recorded ++ given
  writes : ∀ call ∈ next, ∃ events rest, call = .writing events rest
  buffer : store'.writeBuffer ++ next.toList.flatMap RowCall.pending =
    store.writeBuffer ++ given.flatten
  given : ∀ events ∈ given, events.length ≤ 1 ∨
    ∃ old rest, next = some (.writing old rest) ∧ (events = rest ∨ rest = [] ∧ events = old)

theorem entered_takeBuffer {store' : RowLineageStore D} {given : List (List (RowLineageEvent D))}
    {next : List (RowLineageEvent D)} (hrow : store'.byRow = store.byRow)
    (hwritten : store'.written = store.written) (hrecorded : store'.recorded = store.recorded ++ given)
    (hbuffer : store'.writeBuffer ++ next = store.writeBuffer ++ given.flatten)
    (hgiven : ∀ events ∈ given, events.length ≤ 1 ∨ events = next) :
    Entered store (store'.takeBuffer next).1 given (store'.takeBuffer next).2 := by
  unfold takeBuffer
  split_ifs with hempty hnext
  · refine ⟨hrow, hwritten, hrecorded, fun call hcall => ?_, by rwa [hnext] at hbuffer,
      fun events hmem => .inl ?_⟩
    · cases hcall
    rcases hgiven events hmem with hshort | rfl
    · exact hshort
    · rw [hnext]
      exact Nat.zero_le 1
  · refine ⟨hrow, hwritten, hrecorded, ?_, ?_, fun events hmem => ?_⟩
    · rintro call ⟨⟩
      exact ⟨next, [], rfl⟩
    · rw [← hbuffer]
      exact congrArg _ ((List.append_nil _).trans (List.append_nil _))
    · exact (hgiven events hmem).imp_right fun heq => ⟨next, [], rfl, .inr ⟨rfl, heq⟩⟩
  · refine ⟨hrow, hwritten, hrecorded, ?_, ?_, fun events hmem => ?_⟩
    · rintro call ⟨⟩
      exact ⟨_, next, rfl⟩
    · rw [← hbuffer]
      exact List.append_nil _
    · exact (hgiven events hmem).imp_right fun heq => ⟨store'.writeBuffer, next, rfl, .inl heq⟩

variable (store) in
theorem exists_entered {call : RowCall D} (h : call.isEntry) :
    ∃ given, Entered store (store.advance call).1 given (store.advance call).2 := by
  have hone : ∀ event : RowLineageEvent D, ∀ events ∈ [[event]], events.length ≤ 1 := by
    intro event events hmem
    rw [List.mem_singleton.mp hmem]
    exact Nat.le_refl 1
  cases call with
  | writeRow event =>
    refine ⟨[[event]], ?_⟩
    show Entered store (store.writeRow event).1 _ (store.writeRow event).2
    unfold writeRow
    split_ifs
    · have hbuffer := List.append_nil (store.pushBuffer event).writeBuffer
      exact entered_takeBuffer rfl rfl rfl hbuffer fun events hmem => .inl (hone event events hmem)
    · refine ⟨rfl, rfl, rfl, fun call hcall => ?_, List.append_nil _, fun events hmem =>
        .inl (hone event events hmem)⟩
      cases hcall
  | writeRowsBatch events =>
    show ∃ given, Entered store (store.writeRowsBatch events).1 given (store.writeRowsBatch events).2
    unfold writeRowsBatch
    split_ifs
    · refine ⟨[], rfl, rfl, (List.append_nil _).symm, fun call h => ?_, rfl, fun given h => ?_⟩ <;>
        cases h
    · have hbuffer : (store.record events).writeBuffer ++ events =
          store.writeBuffer ++ [events].flatten := by rw [List.flatten_singleton]; rfl
      exact ⟨[events], entered_takeBuffer rfl rfl rfl hbuffer fun given hmem =>
        .inr (List.mem_singleton.mp hmem)⟩
  | flushBuffer =>
    have hrecorded : store.recorded = store.recorded ++ [] := (List.append_nil _).symm
    have hbuffer : store.writeBuffer ++ [] = store.writeBuffer ++ [].flatten := rfl
    refine ⟨[], ?_⟩
    show Entered store (store.takeBuffer []).1 [] (store.takeBuffer []).2
    exact entered_takeBuffer rfl rfl hrecorded hbuffer fun events h => absurd h List.not_mem_nil
  | writeEventsInternal events todo batch next => cases h

theorem exists_of_not_isEntry {call : RowCall D} (h : call.isEntry = false) :
    ∃ events todo batch next, call = .writeEventsInternal events todo batch next := by
  cases call with
  | writeEventsInternal events todo batch next => exact ⟨events, todo, batch, next, rfl⟩
  | writeRow event => cases h
  | writeRowsBatch events => cases h
  | flushBuffer => cases h

variable (store) in
theorem advance_quiet {call : RowCall D} (hcall : ∀ events batch next,
      call ≠ .writeEventsInternal events [] batch next) :
    (store.advance call).1.byRow = store.byRow ∧
      (store.advance call).1.written = store.written ∧
      ∀ next ∈ (store.advance call).2, ∀ put ∈ next.batch, put ∈ call.batch ∨
        ∃ event, put.events = store.eventsAt put.key ++ [event] := by
  cases hentry : call.isEntry with
  | true =>
    obtain ⟨given, h⟩ := exists_entered store hentry
    refine ⟨h.byRow, h.written, fun next hnext put hput => ?_⟩
    obtain ⟨events, rest, rfl⟩ := h.writes next hnext
    cases hput
  | false =>
    obtain ⟨events, todo, batch, next, rfl⟩ := exists_of_not_isEntry hentry
    cases todo with
    | nil => exact absurd rfl (hcall events batch next)
    | cons append todo =>
      refine ⟨rfl, rfl, ?_⟩
      intro next' hnext put hput
      obtain rfl : RowCall.writeEventsInternal events todo
          (store.appendEventToRowIndex append.1 append.2 :: batch) next = next' :=
        Option.some.inj hnext
      rcases List.mem_cons.mp hput with rfl | hput
      · exact .inr ⟨append.2, rfl⟩
      · exact .inl hput

variable (store) in
theorem advance_ok {call : RowCall D} (h : call.Ok) : ∀ next ∈ (store.advance call).2, next.Ok := by
  intro next hnext
  cases hentry : call.isEntry with
  | true =>
    obtain ⟨given, hentered⟩ := exists_entered store hentry
    obtain ⟨events, rest, rfl⟩ := hentered.writes next hnext
    exact RowCall.ok_writing events rest
  | false =>
    obtain ⟨events, todo, batch, next', rfl⟩ := exists_of_not_isEntry hentry
    cases todo with
    | nil =>
      change (if next' = [] then none else some (.writing next' [])) = some next at hnext
      split_ifs at hnext
      cases hnext
      exact RowCall.ok_writing next' []
    | cons append todo =>
      cases hnext
      obtain ⟨hevent, hunder⟩ := h.under append (List.mem_cons_self ..)
      refine ⟨?_, fun other hother => h.under other (List.mem_cons_of_mem _ hother), ?_⟩
      · intro put hput
        rcases List.mem_cons.mp hput with rfl | hput
        · exact ⟨_, append.2, hevent, rfl, hunder⟩
        · exact h.last put hput
      · intro event hevent' key hunder'
        rcases h.keys event hevent' key hunder' with ⟨other, hother, hkey⟩ | ⟨put, hput, hkey⟩
        · rcases List.mem_cons.mp hother with rfl | hother
          · exact .inr ⟨_, List.mem_cons_self .., hkey⟩
          · exact .inl ⟨other, hother, hkey⟩
        · exact .inr ⟨put, List.mem_cons_of_mem _ hput, hkey⟩

end RowLineageStore

/-! ## What is stored under one key -/

namespace RowPool

def fullAt (p : RowPool D) (key : String) : List (RowLineageEvent D) :=
  p.shared.written.filter (·.IsUnder key)

def PendingAt (p : RowPool D) (key : String) (events : List (RowLineageEvent D)) : Prop :=
  ∃ c call, p.calls.get c = some call ∧ ∃ put ∈ call.batch, put.key = key ∧ put.events = events

def TrackedAt (p : RowPool D) (key : String) : Prop :=
  Tracked (p.shared.eventsAt key) (p.fullAt key) (p.PendingAt key)

variable {p p' : RowPool D} {c : Nat} {call : RowCall D} {next : Option (RowCall D)}

theorem pendingAt_setCall (hcalls : p'.calls = Pool.setCall p.calls c next) {key : String}
    {events : List (RowLineageEvent D)} (h : p'.PendingAt key events) :
    p.PendingAt key events ∨
      ∃ call' ∈ next, ∃ put ∈ call'.batch, put.key = key ∧ put.events = events := by
  obtain ⟨c', call', hget, hput⟩ := h
  rw [hcalls, Pool.get_setCall] at hget
  split_ifs at hget with heq
  · exact .inr ⟨call', hget, hput⟩
  · exact .inl ⟨c', call', hget, hput⟩

theorem trackedAt_quiet (hget : p.calls.get c = some call)
    (hcall : ∀ events batch next, call ≠ .writeEventsInternal events [] batch next)
    (hadvance : p.shared.advance call = (p'.shared, next))
    (hcalls : p'.calls = Pool.setCall p.calls c next) (key : String) (h : p.TrackedAt key) :
    p'.shared.eventsAt key = p.shared.eventsAt key ∧ p'.fullAt key = p.fullAt key ∧
      p'.TrackedAt key := by
  obtain ⟨hrow, hwritten, hnext⟩ := RowLineageStore.advance_quiet p.shared hcall
  rw [hadvance] at hrow hwritten hnext
  have hevents : p'.shared.eventsAt key = p.shared.eventsAt key := by
    rw [RowLineageStore.eventsAt, hrow, ← RowLineageStore.eventsAt]
  have hfull : p'.fullAt key = p.fullAt key := by rw [fullAt, hwritten, ← fullAt]
  refine ⟨hevents, hfull, ?_⟩
  unfold TrackedAt
  rw [hevents, hfull]
  refine h.read fun events hevents => ?_
  rcases pendingAt_setCall hcalls hevents with hold | ⟨call', hcall', put, hput, rfl, rfl⟩
  · exact .inl hold
  · rcases hnext call' hcall' put hput with hput' | ⟨event, hevent⟩
    · exact .inl ⟨c, call, hget, put, hput', rfl, rfl⟩
    · exact .inr ⟨event, hevent⟩

def AllowedAt (store : RowLineageStore D) (events : List (RowLineageEvent D))
    (last : Put D) (key : String) : Prop :=
  events.countP (·.IsUnder key) = 1 ∧ last.events.dropLast = store.eventsAt key

section Write

variable {events rest : List (RowLineageEvent D)} {batch : List (Put D)}

variable (hok : RowCall.Complete events [] batch)

include hok

theorem write_other (hshared : p'.shared = p.shared.writeBatch events batch) {key : String}
    (hfind : batch.find? (·.key = key) = none) :
    p'.shared.eventsAt key = p.shared.eventsAt key ∧ p'.fullAt key = p.fullAt key := by
  have hnone : events.filter (·.IsUnder key) = [] := by
    refine List.filter_eq_nil_iff.mpr fun event hevent hunder => ?_
    rcases hok.keys event hevent key hunder with ⟨_, hmem, -⟩ | ⟨put, hput, hkey⟩
    · cases hmem
    · exact List.find?_eq_none.mp hfind put hput (decide_eq_true hkey)
  rw [hshared]
  constructor
  · rw [RowLineageStore.eventsAt_writeBatch, hfind]
    rfl
  · show (p'.shared.written).filter _ = _
    rw [hshared]
    show (p.shared.written ++ events).filter _ = _
    rw [List.filter_append, hnone, List.append_nil, fullAt]

theorem write_put (hshared : p'.shared = p.shared.writeBatch events batch) {key : String}
    {last : Put D} (hfind : batch.find? (·.key = key) = some last) :
    p'.shared.eventsAt key = last.events ∧
      p'.fullAt key = p.fullAt key ++ events.filter (·.IsUnder key) ∧ last ∈ batch ∧
      ∃ old, ∃ event ∈ events.filter (·.IsUnder key), last.events = old ++ [event] := by
  have hmem : last ∈ batch := List.mem_of_find?_eq_some hfind
  have hkey : last.key = key := by simpa using List.find?_some hfind
  obtain ⟨old, event, hevent, hlast, hunder⟩ := hok.last last hmem
  refine ⟨?_, ?_, hmem, old, event, ?_, hlast⟩
  · rw [hshared, RowLineageStore.eventsAt_writeBatch, hfind]
    rfl
  · unfold fullAt
    rw [hshared]
    exact List.filter_append ..
  · exact List.mem_filter.mpr ⟨hevent, hkey ▸ hunder⟩

theorem trackedAt_write (hget : p.calls.get c = some (.writeEventsInternal events [] batch rest))
    (hshared : p'.shared = p.shared.writeBatch events batch)
    (hcalls : p'.calls = Pool.setCall p.calls c next) (hnext : ∀ call' ∈ next, call'.batch = [])
    (key : String) (h : p.TrackedAt key) :
    p'.TrackedAt key ∧
      ((p.fullAt key).length ≤ (p.shared.eventsAt key).length →
        (∀ last ∈ batch.find? (·.key = key), AllowedAt p.shared events last key) →
        (p'.fullAt key).length ≤ (p'.shared.eventsAt key).length) ∧
      ((∃ last ∈ batch.find? (·.key = key), ¬ AllowedAt p.shared events last key) ∨
          (p.shared.eventsAt key).length < (p.fullAt key).length →
        (p'.shared.eventsAt key).length < (p'.fullAt key).length) := by
  have hsub : ∀ l, p'.PendingAt key l → p.PendingAt key l := by
    intro l hl
    refine (pendingAt_setCall hcalls hl).resolve_right ?_
    rintro ⟨call', hcall', put, hput, -⟩
    rw [hnext call' hcall'] at hput
    cases hput
  cases hfind : batch.find? (·.key = key) with
  | none =>
    obtain ⟨hevents, hfull⟩ := write_other hok hshared hfind
    unfold TrackedAt
    rw [hevents, hfull]
    refine ⟨h.mono hsub, fun hle _ => hle, fun hbad => hbad.resolve_left ?_⟩
    rintro ⟨last, hlast, -⟩
    cases hlast
  | some last =>
    obtain ⟨hevents, hfull, hmem, old, event, hevent, hlast⟩ := write_put hok hshared hfind
    have hkey : last.key = key := by simpa using List.find?_some hfind
    have hpending : p.PendingAt key last.events :=
      ⟨c, _, hget, last, hmem, hkey, rfl⟩
    have hne : events.filter (·.IsUnder key) ≠ [] := List.ne_nil_of_mem hevent
    have hlost : Lost (p.shared.eventsAt key) (p.fullAt key) (p.PendingAt key) →
        Lost (p'.shared.eventsAt key) (p'.fullAt key) (p'.PendingAt key) := by
      intro hlost
      rw [hevents, hfull]
      exact hlost.write hsub hpending hne
    have hnot : Intact (p.shared.eventsAt key) (p.fullAt key) (p.PendingAt key) →
        ¬ AllowedAt p.shared events last key →
        Lost (p'.shared.eventsAt key) (p'.fullAt key) (p'.PendingAt key) := by
      intro hintact hnot
      rw [hevents, hfull]
      refine hintact.lost hsub hpending hne fun hone => hnot ?_
      obtain ⟨hlength, event', hadds⟩ := hone
      exact ⟨List.countP_eq_length_filter ▸ hlength, by rw [hadds, List.dropLast_concat]⟩
    have hintact : Intact (p.shared.eventsAt key) (p.fullAt key) (p.PendingAt key) →
        AllowedAt p.shared events last key →
        Intact (p'.shared.eventsAt key) (p'.fullAt key) (p'.PendingAt key) := by
      rintro hintact ⟨hcount, hadds⟩
      rw [List.countP_eq_length_filter] at hcount
      obtain ⟨only, honly⟩ := List.length_eq_one_iff.mp hcount
      rw [honly, List.mem_singleton] at hevent
      rw [hlast, List.dropLast_concat] at hadds
      rw [hevents, hfull, honly, hlast, hadds, hevent]
      exact hintact.write hsub only
    by_cases hallowed : AllowedAt p.shared events last key
    · have hlost' : ¬ ∃ last' ∈ some last, ¬ AllowedAt p.shared events last' key := by
        rintro ⟨last', hlast', hnot'⟩
        cases hlast'
        exact hnot' hallowed
      refine ⟨h.imp (fun h => hintact h hallowed) hlost, fun hle _ => ?_, fun hbad => ?_⟩
      · have heq := (hintact (h.intact hle) hallowed).stored_eq
        rw [heq]
      · have hlt := hbad.resolve_left hlost'
        exact (hlost (h.resolve_left fun h => absurd (h.stored_eq ▸ hlt) (lt_irrefl _))).shorter
    · have hlost' : Lost (p'.shared.eventsAt key) (p'.fullAt key) (p'.PendingAt key) :=
        h.elim (fun h => hnot h hallowed) hlost
      exact ⟨.inr hlost', fun _ hall => absurd (hall last rfl) hallowed, fun _ => hlost'.shorter⟩

end Write

/-! ## Where the recorded events are -/

def inCalls (p : RowPool D) : List (RowLineageEvent D) := p.calls.values.flatMap RowCall.pending

def Accounted (p : RowPool D) : Prop :=
  p.shared.recorded.flatten.Perm (p.shared.written ++ p.shared.writeBuffer ++ p.inCalls)

end RowPool

namespace RowLineageStore

variable {store : RowLineageStore D}

variable (store) in
theorem advance_accounted (call : RowCall D) : ∃ given : List (RowLineageEvent D),
    (store.advance call).1.recorded.flatten = store.recorded.flatten ++ given ∧
      ((store.advance call).1.written ++ (store.advance call).1.writeBuffer ++
        (store.advance call).2.toList.flatMap RowCall.pending).Perm
        (store.written ++ store.writeBuffer ++ call.pending ++ given) := by
  cases hentry : call.isEntry with
  | true =>
    obtain ⟨given, h⟩ := exists_entered store hentry
    have hpending : call.pending = [] := by
      cases call with
      | writeEventsInternal events todo batch next => cases hentry
      | _ => rfl
    refine ⟨given.flatten, by rw [h.recorded, List.flatten_append], ?_⟩
    rw [h.written, List.append_assoc, h.buffer, hpending, List.append_nil, List.append_assoc]
  | false =>
    obtain ⟨events, todo, batch, next, rfl⟩ := exists_of_not_isEntry hentry
    refine ⟨[], ?_, ?_⟩
    · cases todo <;> exact (List.append_nil _).symm
    · cases todo with
      | cons append todo =>
        show (store.written ++ store.writeBuffer ++ ((events ++ next) ++ [])).Perm _
        simp only [RowCall.pending, List.append_nil]
        exact List.Perm.refl _
      | nil =>
        have hnext : (if next = [] then none else some (RowCall.writing next [])).toList.flatMap
            RowCall.pending = next := by
          split_ifs with hempty
          · rw [hempty]
            rfl
          · show (next ++ []) ++ [] = next
            rw [List.append_nil, List.append_nil]
        show (store.written ++ events ++ store.writeBuffer ++
          (if next = [] then none else some (RowCall.writing next [])).toList.flatMap
            RowCall.pending).Perm _
        rw [hnext]
        simp only [RowCall.pending, List.append_nil, List.append_assoc]
        exact (List.perm_append_comm_assoc ..).append_left _

end RowLineageStore

namespace RowPool

variable {p p' : RowPool D} {c : Nat} {call : RowCall D} {next : Option (RowCall D)}

theorem accounted_advance (h : p.Accounted) (hget : p.calls.get c = some call)
    (hadvance : p.shared.advance call = (p'.shared, next))
    (hcalls : p'.calls = Pool.setCall p.calls c next) : p'.Accounted := by
  obtain ⟨given, hrecorded, hperm⟩ := RowLineageStore.advance_accounted p.shared call
  rw [hadvance] at hrecorded hperm
  have hbefore : p.inCalls.Perm (call.pending ++ (p.calls.remove c).values.flatMap RowCall.pending) :=
    (perm_values_of_get hget).flatMap_right _
  have hafter : p'.inCalls.Perm
      (next.toList.flatMap RowCall.pending ++ (p.calls.remove c).values.flatMap RowCall.pending) := by
    unfold inCalls
    rw [hcalls]
    cases next with
    | none => exact List.Perm.refl _
    | some call' =>
      refine ((perm_values_insert p.calls c call').flatMap_right _).trans ?_
      rw [List.flatMap_cons, Option.toList_some, List.flatMap_singleton]
  unfold Accounted
  rw [hrecorded]
  have hgiven : List.Perm (p.shared.recorded.flatten ++ given)
      ((p.shared.written ++ p.shared.writeBuffer ++ call.pending ++ given) ++
        (p.calls.remove c).values.flatMap RowCall.pending) := by
    refine ((h.trans (hbefore.append_left _)).append_right given).trans ?_
    simp only [List.append_assoc]
    exact ((List.perm_append_comm.append_left _).append_left _).append_left _
  refine (hgiven.trans (hperm.symm.append_right _)).trans ?_
  rw [List.append_assoc]
  exact hafter.symm.append_left _

/-! ## Events of one call -/

def Apart (events : List (RowLineageEvent D)) : Prop :=
  ∀ key, events.countP (·.IsUnder key) ≤ 1

def Owns : RowCall D → List (RowLineageEvent D) → Prop
  | .writeEventsInternal events _ _ next, given => given = next ∨ next = [] ∧ given = events
  | _, _ => False

theorem apart_of_allowed {events next : List (RowLineageEvent D)} {batch : List (Put D)}
    (hok : RowCall.Complete events [] batch) {store : RowLineageStore D}
    (hallowed : store.AllowedWrite (.writeEventsInternal events [] batch next)) :
    Apart events := by
  intro key
  rcases Nat.eq_zero_or_pos (events.countP (·.IsUnder key)) with hzero | hpos
  · omega
  · obtain ⟨event, hevent, hunder⟩ := List.countP_pos_iff.mp hpos
    rcases hok.keys event hevent key hunder with ⟨_, hmem, -⟩ | ⟨put, hput, rfl⟩
    · cases hmem
    · exact (hallowed put hput).1.le

theorem owns_advance (store : RowLineageStore D) {given : List (RowLineageEvent D)}
    (hok : call.Ok) (hallowed : store.AllowedWrite call) (howns : Owns call given) :
    Apart given ∨ ∃ call' ∈ (store.advance call).2, Owns call' given := by
  cases call with
  | writeRow event => exact howns.elim
  | writeRowsBatch events => exact howns.elim
  | flushBuffer => exact howns.elim
  | writeEventsInternal events todo batch next =>
    cases todo with
    | cons append todo => exact .inr ⟨_, rfl, howns⟩
    | nil =>
      rcases howns with rfl | ⟨-, rfl⟩
      · show _ ∨ ∃ call' ∈ (if given = [] then none else some (RowCall.writing given [])), _
        split_ifs with hempty
        · rw [hempty]
          exact .inl fun key => Nat.zero_le 1
        · exact .inr ⟨_, rfl, .inr ⟨rfl, rfl⟩⟩
      · exact .inl (apart_of_allowed hok hallowed)

theorem recorded_advance (store : RowLineageStore D) {given : List (RowLineageEvent D)}
    (hgiven : given ∈ (store.advance call).1.recorded) :
    given ∈ store.recorded ∨ Apart given ∨ ∃ call' ∈ (store.advance call).2, Owns call' given := by
  cases hentry : call.isEntry with
  | true =>
    obtain ⟨entered, h⟩ := RowLineageStore.exists_entered store hentry
    rw [h.recorded] at hgiven
    refine (List.mem_append.mp hgiven).imp_right fun hmem => ?_
    rcases h.given given hmem with hshort | ⟨old, rest, hnext, howns⟩
    · exact .inl fun key => List.countP_le_length.trans hshort
    · exact .inr ⟨_, hnext, howns⟩
  | false =>
    obtain ⟨events, todo, batch, next, rfl⟩ := RowLineageStore.exists_of_not_isEntry hentry
    cases todo <;> exact .inl hgiven

/-! ## The invariants -/

structure Invariant (p : RowPool D) : Prop where
  ok : ∀ c call, p.calls.get c = some call → call.Ok
  tracked : ∀ key, p.TrackedAt key
  accounted : p.Accounted

/-- Nothing is lost so far. -/
structure Kept (p : RowPool D) : Prop where
  full : ∀ key, (p.fullAt key).length ≤ (p.shared.eventsAt key).length
  apart : ∀ events ∈ p.shared.recorded,
    Apart events ∨ ∃ c call, p.calls.get c = some call ∧ Owns call events

def Missing (p : RowPool D) : Prop :=
  ∃ key, (p.shared.eventsAt key).length < (p.fullAt key).length

theorem invariant_start : (start : RowPool D).Invariant where
  ok := fun _ _ hget => nomatch hget
  tracked := fun key => tracked_nil.mono fun l hl => by
    obtain ⟨c, call, hget, -⟩ := hl
    cases hget
  accounted := List.Perm.refl []

theorem kept_start : (start : RowPool D).Kept := ⟨fun _ => Nat.le_refl 0, fun _ h => nomatch h⟩

theorem keep_start (h : p.Invariant) (hfree : p.calls.get c = none) (hentry : call.isEntry) :
    Invariant { p with calls := p.calls.insert c call } ∧
      (p.Kept → Kept { p with calls := p.calls.insert c call }) ∧
      (p.Missing → Missing { p with calls := p.calls.insert c call }) := by
  have hbatch : call.batch = [] ∧ call.pending = [] ∧ call.Ok := by
    cases call with
    | writeEventsInternal events todo batch next => cases hentry
    | writeRow event => exact ⟨rfl, rfl, trivial⟩
    | writeRowsBatch events => exact ⟨rfl, rfl, trivial⟩
    | flushBuffer => exact ⟨rfl, rfl, trivial⟩
  have hcalls : p.calls.insert c call = Pool.setCall p.calls c (some call) := rfl
  refine ⟨⟨?_, ?_, ?_⟩, fun hkept => ⟨hkept.full, ?_⟩, id⟩
  · exact hcalls ▸ Pool.forall_setCall
      (fun call' hcall' => Option.some.inj hcall' ▸ hbatch.2.2) fun c call _ => h.ok c call
  · intro key
    refine (h.tracked key).mono fun l hl => ?_
    refine (pendingAt_setCall (p := p) hcalls hl).resolve_right ?_
    rintro ⟨call', hcall', put, hput, -⟩
    cases hcall'
    rw [hbatch.1] at hput
    cases hput
  · refine h.accounted.trans (List.Perm.append_left _ ?_)
    have hperm := (perm_values_insert p.calls c call).flatMap_right RowCall.pending
    rw [List.flatMap_cons, hbatch.2.1, remove_eq_self hfree] at hperm
    exact hperm.symm
  · intro events hevents
    refine (hkept.apart events hevents).imp_right ?_
    rintro ⟨c', call', hget, howns⟩
    refine ⟨c', call', ?_, howns⟩
    show (p.calls.insert c call).get c' = _
    rw [get_insert, if_neg, hget]
    rintro rfl
    rw [hfree] at hget
    cases hget

theorem keep_advance (h : p.Invariant) (hget : p.calls.get c = some call)
    (hadvance : p.shared.advance call = (p'.shared, next))
    (hcalls : p'.calls = Pool.setCall p.calls c next) :
    p'.Invariant ∧ (p.Kept → p.shared.AllowedWrite call → p'.Kept) ∧
      (¬ p.shared.AllowedWrite call ∨ p.Missing → p'.Missing) := by
  have hok : call.Ok := h.ok c call hget
  have hnext : ∀ call' ∈ next, call'.Ok := by
    have hnext := RowLineageStore.advance_ok p.shared hok
    rwa [hadvance] at hnext
  -- what the step does under each key
  have hkeys : (∀ key, p'.TrackedAt key) ∧
      ((∀ key, (p.fullAt key).length ≤ (p.shared.eventsAt key).length) →
        p.shared.AllowedWrite call →
        ∀ key, (p'.fullAt key).length ≤ (p'.shared.eventsAt key).length) ∧
      (¬ p.shared.AllowedWrite call ∨ p.Missing → p'.Missing) := by
    by_cases hwrite : ∃ events batch rest, call = .writeEventsInternal events [] batch rest
    · obtain ⟨events, batch, rest, rfl⟩ := hwrite
      obtain ⟨hshared, hrest⟩ := Prod.mk.inj hadvance
      have hempty : ∀ call' ∈ next, call'.batch = [] := by
        intro call' hcall'
        rw [← hrest] at hcall'
        split_ifs at hcall'
        · cases hcall'
        · cases hcall'
          rfl
      have hat := fun key =>
        trackedAt_write (p := p) hok hget hshared.symm hcalls hempty key (h.tracked key)
      refine ⟨fun key => (hat key).1, fun hfull hallowed key => ?_, ?_⟩
      · refine (hat key).2.1 (hfull key) fun last hlast => ?_
        have hmem := List.mem_of_find?_eq_some hlast
        have hkey : last.key = key := by simpa using List.find?_some hlast
        obtain ⟨hcount, hadds⟩ := hallowed last hmem
        rw [hkey] at hcount hadds
        exact ⟨hcount, hadds last hlast⟩
      · rintro (hnot | ⟨key, hlt⟩)
        · simp only [RowLineageStore.AllowedWrite, not_forall] at hnot
          obtain ⟨put, hput, hnot⟩ := hnot
          refine ⟨put.key, (hat put.key).2.2 (.inl ?_)⟩
          cases hfind : batch.find? (·.key = put.key) with
          | none => exact absurd (decide_eq_true rfl) (List.find?_eq_none.mp hfind put hput)
          | some last =>
            refine ⟨last, rfl, fun hallowed => hnot ⟨hallowed.1, fun last' hlast' => ?_⟩⟩
            cases Option.some.inj (hfind.symm.trans hlast')
            exact hallowed.2
        · exact ⟨key, (hat key).2.2 (.inr hlt)⟩
    · have hcall : ∀ events batch rest, call ≠ .writeEventsInternal events [] batch rest :=
        fun events batch rest heq => hwrite ⟨events, batch, rest, heq⟩
      have hat := fun key => trackedAt_quiet (p := p) hget hcall hadvance hcalls key (h.tracked key)
      have hallowed : p.shared.AllowedWrite call := by
        cases call with
        | writeRow event => trivial
        | writeRowsBatch events => trivial
        | flushBuffer => trivial
        | writeEventsInternal events todo batch rest =>
          cases todo with
          | nil => exact absurd rfl (hcall events batch rest)
          | cons append todo => trivial
      refine ⟨fun key => (hat key).2.2, fun hfull _ key => ?_, ?_⟩
      · rw [(hat key).1, (hat key).2.1]
        exact hfull key
      · rintro (hnot | ⟨key, hlt⟩)
        · exact absurd hallowed hnot
        · refine ⟨key, ?_⟩
          rw [(hat key).1, (hat key).2.1]
          exact hlt
  have hcallsOk := hcalls ▸ Pool.forall_setCall hnext fun c call _ => h.ok c call
  refine ⟨⟨hcallsOk, hkeys.1, accounted_advance h.accounted hget hadvance
    hcalls⟩, fun hkept hallowed => ⟨hkeys.2.1 hkept.full hallowed, ?_⟩, hkeys.2.2⟩
  have hcontinues : ∀ {events}, (∃ call' ∈ next, Owns call' events) →
      ∃ c' call', p'.calls.get c' = some call' ∧ Owns call' events := by
    rintro events ⟨call', hcall', howns⟩
    refine ⟨c, call', ?_, howns⟩
    rw [hcalls, Pool.get_setCall, if_pos rfl]
    exact hcall'
  intro events hevents
  rw [show p'.shared = (p.shared.advance call).1 by rw [hadvance]] at hevents
  have hrecorded := recorded_advance p.shared hevents
  rw [hadvance] at hrecorded
  rcases hrecorded with hold | hapart | howns
  · rcases hkept.apart events hold with hapart | ⟨c', call', hget', howns⟩
    · exact .inl hapart
    · by_cases heq : c' = c
      · subst heq
        cases Option.some.inj (hget.symm.trans hget')
        have hcontinue := owns_advance p.shared hok hallowed howns
        rw [hadvance] at hcontinue
        exact hcontinue.imp_right hcontinues
      · refine .inr ⟨c', call', ?_, howns⟩
        rw [hcalls, Pool.get_setCall, if_neg heq, hget']
  · exact .inl hapart
  · exact .inr (hcontinues howns)

theorem keep_step {a : CallAction (RowCall D) Unit} (h : p.Invariant) (hstep : p.step a = some p') :
    p'.Invariant ∧ (p.Kept → p.Allowed a → p'.Kept) ∧ (¬ p.Allowed a ∨ p.Missing → p'.Missing) := by
  cases a with
  | start c call =>
    obtain ⟨hfree, hentry, rfl⟩ := Pool.step_start hstep
    obtain ⟨hinv, hkept, hmissing⟩ := keep_start h hfree hentry
    exact ⟨hinv, fun h _ => hkept h, fun h => hmissing (h.resolve_left (not_not.mpr trivial))⟩
  | advance c input =>
    obtain ⟨call, next, hget, hadvance, hcalls⟩ := Pool.step_advance hstep
    obtain ⟨hinv, hkept, hmissing⟩ := keep_advance h hget (Option.some.inj hadvance) hcalls
    have hallowed : p.Allowed (.advance c input) ↔ p.shared.AllowedWrite call := by
      refine ⟨fun h => h call hget, fun h call' hget' => ?_⟩
      exact Option.some.inj (hget.symm.trans hget') ▸ h
    rw [hallowed]
    exact ⟨hinv, hkept, hmissing⟩

/-! ## Whole runs -/

theorem written_of_finished (h : p.Invariant) (hdone : p.Finished) :
    p.shared.recorded.flatten.Perm p.shared.written := by
  have hperm := h.accounted
  rw [Accounted, inCalls, hdone.1, hdone.2, List.append_nil] at hperm
  rwa [show (empty : BTreeMap Nat (RowCall D)).values.flatMap RowCall.pending = [] from rfl,
    List.append_nil] at hperm

theorem filter_isUnder (row : RowId) (events : List (RowLineageEvent D)) :
    (events.filter (·.IsUnder row.toKey)).filter (·.Concerns row) =
      events.filter (·.Concerns row) := by
  rw [List.filter_filter]
  refine List.filter_congr fun event _ => ?_
  rw [Bool.and_eq_left_iff_imp]
  exact fun hconcerns => RowLineageEvent.isUnder_iff.mpr ⟨row, hconcerns, rfl⟩

theorem keepsEveryEvent_of_kept (h : p.Invariant) (hkept : p.Kept) (hdone : p.Finished) :
    p.KeepsEveryEvent := by
  intro row
  have hstored : p.shared.getRowLineage row = p.fullAt row.toKey :=
    ((h.tracked row.toKey).intact (hkept.full row.toKey)).stored_eq
  have hperm : (p.shared.recorded.flatten.filter (·.Concerns row)).Perm
      ((p.shared.getRowLineage row).filter (·.Concerns row)) := by
    rw [hstored, fullAt, filter_isUnder]
    exact (written_of_finished h hdone).filter _
  refine ⟨hperm.symm, fun events hevents => ?_⟩
  have hapart : Apart events := by
    refine (hkept.apart events hevents).resolve_right ?_
    rintro ⟨c, call, hget, -⟩
    rw [hdone.1] at hget
    cases hget
  -- a call has at most one event of the row
  have hone : (events.filter (·.Concerns row)).length ≤ 1 := by
    rw [← filter_isUnder, ← List.countP_eq_length_filter]
    exact List.countP_le_length.trans (List.countP_eq_length_filter ▸ hapart row.toKey)
  cases hfilter : events.filter (·.Concerns row) with
  | nil => exact List.nil_sublist _
  | cons event others =>
    rw [hfilter] at hone
    cases List.length_eq_zero_iff.mp (Nat.le_zero.mp (Nat.le_of_succ_le_succ hone))
    have hmem : event ∈ events.filter (·.Concerns row) := hfilter ▸ List.mem_cons_self ..
    obtain ⟨hevent, hconcerns⟩ := List.mem_filter.mp hmem
    refine List.singleton_sublist.mpr (List.mem_filter.mp (hperm.mem_iff.mp ?_)).1
    exact List.mem_filter.mpr ⟨List.mem_flatten.mpr ⟨events, hevents, hevent⟩, hconcerns⟩

open Classical in
theorem not_keepsEveryEvent_of_missing (h : p.Invariant) (hmissing : p.Missing)
    (hdone : p.Finished) : ¬ p.KeepsEveryEvent := by
  rintro hkeeps
  obtain ⟨key, hlt⟩ := hmissing
  -- each event under the key is stored as often as it was written
  have hperm : ((p.shared.eventsAt key).filter (·.IsUnder key)).Perm (p.fullAt key) := by
    refine List.perm_iff_count.mpr fun event => ?_
    by_cases hunder : event.IsUnder key
    · obtain ⟨row, hconcerns, rfl⟩ := RowLineageEvent.isUnder_iff.mp hunder
      have hcount := ((hkeeps row).1.trans ((written_of_finished h hdone).filter _)).count_eq event
      rw [List.count_filter hconcerns, List.count_filter hconcerns] at hcount
      rw [fullAt, List.count_filter hunder, List.count_filter hunder]
      exact hcount
    · rw [List.count_eq_zero_of_not_mem fun hmem => hunder (List.mem_filter.mp hmem).2, fullAt,
        List.count_eq_zero_of_not_mem fun hmem => hunder (List.mem_filter.mp hmem).2]
  have hle := List.length_filter_le (·.IsUnder key) (p.shared.eventsAt key)
  rw [hperm.length_eq] at hle
  omega

/-- **No event is lost.** After a run whose calls have all returned and whose buffer is flushed, the
store has every recorded event exactly when each write of the run found one event of its own under each
of its keys, and under the key what it had read. -/
theorem keepsEveryEvent_iff (as : List (CallAction (RowCall D) Unit))
    (hexec : exec step start as = some p) (hdone : p.Finished) :
    p.KeepsEveryEvent ↔ OkAlong step Allowed start as := by
  obtain ⟨hinv, hkept, hmissing⟩ := final_iff_okAlong Invariant Kept Missing
    (fun _ _ _ h hstep => keep_step h hstep) invariant_start hexec
  constructor
  · intro hkeeps
    by_contra hnot
    exact not_keepsEveryEvent_of_missing hinv (hmissing (.inl hnot)) hdone hkeeps
  · exact fun hok => keepsEveryEvent_of_kept hinv (hkept kept_start hok) hdone

def copied (row : UInt64) (data : Nat) : RowLineageEvent Nat :=
  ⟨.csv "in.csv" row, some (.csv "out.csv" row), data⟩

def keptRun : List (CallAction (RowCall Nat) Unit) :=
  [.start 0 (.writeRow (copied 1 0)), .start 1 (.writeRowsBatch [copied 1 1, copied 2 2]),
    .advance 0 (), .start 2 .flushBuffer] ++ List.replicate 9 (.advance 1 ()) ++ [.advance 2 ()]

theorem keptRun_keepsEveryEvent : ∃ p, exec step start keptRun = some p ∧ p.KeepsEveryEvent := by
  have hruns : (exec step start keptRun).isSome := by decide
  have hcalls : ∀ hruns, ((exec step start keptRun).get hruns).calls.entries = [] ∧
      ((exec step start keptRun).get hruns).shared.writeBuffer = [] := by decide
  have hexec := (Option.some_get hruns).symm
  exact ⟨_, hexec, (keepsEveryEvent_iff keptRun hexec
    ⟨ext (hcalls hruns).1, (hcalls hruns).2⟩).mpr (by decide)⟩

def lostRun : List (CallAction (RowCall Nat) Unit) :=
  .start 0 (.writeRowsBatch [copied 1 0, copied 1 1]) :: List.replicate 6 (.advance 0 ())

theorem lostRun_not_keepsEveryEvent :
    ¬ ∀ (as : List (CallAction (RowCall Nat) Unit)) (p : RowPool Nat),
      exec step start as = some p → p.Finished → p.KeepsEveryEvent := by
  intro h
  have hruns : (exec step start lostRun).isSome := by decide
  have hlast : ∀ hruns, ((exec step start lostRun).get hruns).calls.entries = [] ∧
      ((exec step start lostRun).get hruns).shared.writeBuffer = [] ∧
      ((exec step start lostRun).get hruns).shared.getRowLineage (.csv "in.csv" 1) =
        [copied 1 1] ∧
      ((exec step start lostRun).get hruns).shared.recorded =
        [[copied 1 0, copied 1 1]] := by decide
  obtain ⟨hcalls, hbuffer, hstored, hrecorded⟩ := hlast hruns
  have hkeeps := h lostRun _ (Option.some_get hruns).symm ⟨ext hcalls, hbuffer⟩
    (.csv "in.csv" 1)
  rw [hstored, hrecorded] at hkeeps
  exact absurd hkeeps.1.length_eq (by decide)

end RowPool

end Arcxa.Lineage
