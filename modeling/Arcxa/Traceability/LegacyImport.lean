import Arcxa.Lib.Distinct
import Arcxa.Traceability.Artifacts
import Arcxa.Traceability.Rebuild

/-!
# Importing the state of a file

A store that is opened on an empty database takes over the state of a file. The file has no events:
the import makes one for each artifact that it finds, from the objects and their indexes, drops
those whose text (type, id, object, value) it has seen, and logs them under new event ids. What a
rebuild makes of these events is the state of the file exactly when `Importable` says so; the ids
of the events that were processed before are forgotten whenever there were any
(`import_preserves_iff`). This is for files and events whose JSON texts read back.
-/

namespace Arcxa.Traceability

variable {S : Schema}

/-- What the import looks at besides the ids, and how artifacts are written to JSON. -/
structure Legacy (S : Schema) where
  objectProgramId : S.Object → String
  packetProgramId : S.Packet → String
  packetObjectId : S.Packet → String
  /-- `serde_json::to_value`. -/
  toValue : (k : ArtifactType) → k.Artifact S → S.Payload
  /-- What came from JSON is read back. -/
  parse_toValue : ∀ (k : ArtifactType) (payload : S.Payload) (a : k.Artifact S),
    k.parse payload = some a → k.parse (toValue k a) = some a

/-- An order in which hash maps are walked. -/
structure Walk where
  entries : {V : Type} → BTreeMap String V → List (String × V)
  perm : ∀ {V : Type} (m : BTreeMap String V), (entries m).Perm m.entries

/-! ## The events that are made -/

/-- An event of `push_synthetic_event`, before it gets an id. -/
structure Synthetic (S : Schema) where
  artifactType : ArtifactType
  artifact : artifactType.Artifact S
  programId : String
  objectId : String
  valueKey : Option String

/-- `{:?}`. -/
def ArtifactType.debug : ArtifactType → String
  | .Program => "Program"
  | .Object => "Object"
  | .TransformationRule => "TransformationRule"
  | .ExecutionEvent => "ExecutionEvent"
  | .ExceptionRecord => "ExceptionRecord"
  | .ControlResult => "ControlResult"
  | .ApprovalEvent => "ApprovalEvent"
  | .EvidencePacket => "EvidencePacket"

namespace Synthetic

/-- `payload_identity`. -/
def id (event : Synthetic S) : String := event.artifactType.artifactId event.artifact

def identity (event : Synthetic S) : String :=
  event.artifactType.debug ++ "|" ++ event.id ++ "|" ++ event.objectId ++ "|" ++
    event.valueKey.getD ""

def toEvent (L : Legacy S) (eventId : String) (event : Synthetic S) : Event S where
  eventId := eventId
  programId := event.programId
  objectId := event.objectId
  artifactType := event.artifactType
  valueKey := event.valueKey
  payload := L.toValue event.artifactType event.artifact

end Synthetic

section Import

variable (L : Legacy S) (walk : Walk)

def pushEventsForIds {k : ArtifactType} (store : BTreeMap String (k.Artifact S))
    (programId objectId : String) (ids : List String) (valueKey : Option String) :
    List (Synthetic S) :=
  ids.filterMap fun id => (store.get id).map fun a => ⟨k, a, programId, objectId, valueKey⟩

def pushEventsForMap {k : ArtifactType} (store : BTreeMap String (k.Artifact S))
    (programId objectId : String) (idsByValueKey : BTreeMap String (List String)) :
    List (Synthetic S) :=
  (walk.entries idsByValueKey).flatMap fun p =>
    pushEventsForIds store programId objectId p.2 (some p.1)

def pushIndexedEvents (models : ReadModels S) (object : S.Object) (index : ObjectIndex)
    (k : ArtifactType) : List (Synthetic S) :=
  pushEventsForMap walk (k.store models) (L.objectProgramId object) (S.objectId object)
    (index.valueKeyIds k) ++
  pushEventsForIds (k.store models) (L.objectProgramId object) (S.objectId object)
    (index.objectLevelIds k) none

def indexedTypes : List ArtifactType :=
  [.TransformationRule, .ExecutionEvent, .ExceptionRecord, .ControlResult, .ApprovalEvent]

def programEvent (models : ReadModels S) (program : S.Program) : Synthetic S :=
  ⟨.Program, program, S.programId program,
    (models.linkedObjects (S.programId program)).head?.getD "", none⟩

def objectEvent (object : S.Object) : Synthetic S :=
  ⟨.Object, object, L.objectProgramId object, S.objectId object, none⟩

def packetEvent (packet : S.Packet) : Synthetic S :=
  ⟨.EvidencePacket, packet, L.packetProgramId packet, L.packetObjectId packet,
    some (S.packetValueKey packet)⟩

/-- What the loops of `legacy_state_to_events` push. -/
def syntheticEvents (models : ReadModels S) : List (Synthetic S) :=
  (walk.entries models.programs).map (fun p => programEvent models p.2) ++
  (walk.entries models.objects).flatMap (fun p => objectEvent L p.2 ::
    match models.objectIndexes.get (S.objectId p.2) with
    | none => []
    | some index => indexedTypes.flatMap (pushIndexedEvents L walk models p.2 index)) ++
  (walk.entries models.packets).map (fun p => packetEvent L p.2)

/-- The first event for each text. -/
def keptEvents (models : ReadModels S) : List (Synthetic S) :=
  firsts Synthetic.identity (syntheticEvents L walk models)

/-- `legacy_state_to_events`, with the ids that the events are given. -/
def legacyStateToEvents (fresh : Nat → String) (models : ReadModels S) : List (Event S) :=
  ((syntheticEvents L walk models).foldl (insertUnseen Synthetic.identity) ([], [])).2.zipIdx.map
    fun p => p.1.toEvent L (fresh p.2)

variable [TextCodec (LoggedEvent S)] [TextCodec (TraceabilityState S)]

/-- `import_legacy_file`, of the text in the file. -/
def importLegacyFile (fresh : Nat → String) (store : Store S) (file : String) (now : Time)
    (writes : Bool) : Store S × Except String Unit :=
  match TextCodec.fromText file with
  | none => (store, .error "failed to deserialize legacy traceability state")
  | some (state : TraceabilityState S) =>
    let synthetic := legacyStateToEvents L walk fresh state.toReadModels
    let memory := { state with
      processedEventIds := .ofList (synthetic.map fun event => (event.eventId, ()))
      updatedAt := now
      legacyImportedAt := some now
      lastEventSequence := synthetic.length }
    persist { store with memory } (logged 0 (fun _ => now) synthetic) writes

/-- `none` where the file or the log cannot be read. -/
def importAndRebuild (fresh : Nat → String) (file : String) (now : Time) :
    Option (TraceabilityState S) :=
  match importLegacyFile L walk fresh (.opened now) file now true with
  | (_, .error _) => none
  | (store, .ok _) => store.eventLog.map fun events =>
    (replaceStateFromReplay store (rebuiltState events now) now true).1.memory

/-- The file and the events that are made from it read back. -/
structure ImportReadsBack (fresh : Nat → String) (state : TraceabilityState S) (now : Time) : Prop where
  file : TextCodec.ReadsBack state
  events : ∀ e ∈ logged 0 (fun _ => now) (legacyStateToEvents L walk fresh state.toReadModels),
    TextCodec.ReadsBack e

end Import

/-- The state of a store with a file after some calls of `ingest_events`; what is written to the
file is the text of the state in memory. -/
def fileState [TextCodec (LoggedEvent S)] (now : Time) (calls : List (Call S)) : TraceabilityState S :=
  (ingestAll now calls).memory

/-! ## What is to hold -/

structure SameEvidence (models models' : ReadModels S) : Prop where
  stores : ∀ k : ArtifactType, k.store models = k.store models'
  links : ∀ programId objectId,
    objectId ∈ models.linkedObjects programId ↔ objectId ∈ models'.linkedObjects programId
  indexes : ∀ objectId k key id,
    id ∈ models.indexedIds objectId k key ↔ id ∈ models'.indexedIds objectId k key

def Remembers (state state' : TraceabilityState S) : Prop :=
  ∀ id, (state.processedEventIds.get id).isSome → (state'.processedEventIds.get id).isSome

/-- The events that an import makes from a state. -/
inductive Made (L : Legacy S) (models : ReadModels S) : Synthetic S → Prop where
  | program {id : String} {program : S.Program} (h : models.programs.get id = some program) :
    Made L models (programEvent models program)
  | object {id : String} {object : S.Object} (h : models.objects.get id = some object) :
    Made L models (objectEvent L object)
  | indexed {objectId id : String} {object : S.Object} {k : ArtifactType} {key : Option String}
    {a : k.Artifact S} (hobject : models.objects.get objectId = some object)
    (hk : k ∈ indexedTypes) (hid : id ∈ models.indexedIds (S.objectId object) k key)
    (ha : (k.store models).get id = some a) :
    Made L models ⟨k, a, L.objectProgramId object, S.objectId object, key⟩
  | packet {id : String} {packet : S.Packet} (h : models.packets.get id = some packet) :
    Made L models (packetEvent L packet)

/-- When the read models of a file survive. -/
structure Importable (L : Legacy S) (models : ReadModels S) : Prop where
  /-- Objects with an index have a record. -/
  recorded : ∀ k ∈ indexedTypes, ∀ objectId key id, id ∈ models.indexedIds objectId k key →
    (models.objects.get objectId).isSome
  /-- Artifacts have an object. -/
  indexed : ∀ k ∈ indexedTypes, ∀ id, ((k.store models).get id).isSome →
    ∃ objectId key, id ∈ models.indexedIds objectId k key
  /-- Packets are noted under their own object and their own value, and nowhere else. -/
  packets : ∀ objectId key id, id ∈ models.indexedIds objectId .EvidencePacket key ↔
    ∃ packet, models.packets.get id = some packet ∧ L.packetObjectId packet = objectId ∧
      objectId ≠ "" ∧ key = some (S.packetValueKey packet)
  /-- The objects of a program are those whose record or whose packet says so. -/
  links : ∀ programId objectId, objectId ∈ models.linkedObjects programId ↔ objectId ≠ "" ∧
    ((∃ object, models.objects.get objectId = some object ∧
        L.objectProgramId object = programId) ∨
      ∃ id packet, models.packets.get id = some packet ∧ L.packetProgramId packet = programId ∧
        L.packetObjectId packet = objectId)
  /-- The texts by which events are dropped tell them apart. -/
  apart : ∀ event event', Made L models event → Made L models event' →
    event.identity = event'.identity → event = event'

/-! ## What is made -/

section Made

variable {L : Legacy S} {walk : Walk} {models : ReadModels S} {event : Synthetic S}

theorem mem_entries_walk {V : Type} {m : BTreeMap String V} {p : String × V} :
    p ∈ walk.entries m ↔ m.get p.1 = some p.2 := by
  rw [(walk.perm m).mem_iff, BTreeMap.mem_entries_iff]

theorem mem_pushEventsForIds {k : ArtifactType} {store : BTreeMap String (k.Artifact S)}
    {programId objectId : String} {ids : List String} {valueKey : Option String} :
    event ∈ pushEventsForIds store programId objectId ids valueKey ↔
      ∃ id ∈ ids, ∃ a, store.get id = some a ∧
        event = ⟨k, a, programId, objectId, valueKey⟩ := by
  simp only [pushEventsForIds, List.mem_filterMap, Option.map_eq_some_iff, @eq_comm _ event]

theorem mem_pushIndexedEvents {object : S.Object} {index : ObjectIndex} {k : ArtifactType}
    (hindex : models.objectIndexes.get (S.objectId object) = some index) :
    event ∈ pushIndexedEvents L walk models object index k ↔
      ∃ key, ∃ id ∈ models.indexedIds (S.objectId object) k key, ∃ a,
        (k.store models).get id = some a ∧
          event = ⟨k, a, L.objectProgramId object, S.objectId object, key⟩ := by
  have hids : ∀ key, models.indexedIds (S.objectId object) k key = index.ids k key := by
    intro key
    rw [ReadModels.indexedIds, hindex]
    rfl
  simp only [pushIndexedEvents, pushEventsForMap, List.mem_append, List.mem_flatMap,
    mem_pushEventsForIds, hids]
  constructor
  · rintro (⟨⟨key, ids⟩, hentry, id, hid, hevent⟩ | ⟨id, hid, hevent⟩)
    · refine ⟨some key, id, ?_, hevent⟩
      rw [mem_entries_walk] at hentry
      show id ∈ ((index.valueKeyIds k).get key).getD []
      rw [hentry]
      exact hid
    · exact ⟨none, id, hid, hevent⟩
  · rintro ⟨key, id, hid, hevent⟩
    cases key with
    | none => exact .inr ⟨id, hid, hevent⟩
    | some key =>
      have hid' : id ∈ ((index.valueKeyIds k).get key).getD [] := hid
      cases hget : (index.valueKeyIds k).get key with
      | none =>
        rw [hget] at hid'
        cases hid'
      | some ids =>
        rw [hget] at hid'
        exact .inl ⟨(key, ids), mem_entries_walk.mpr hget, id, hid', hevent⟩

/-- **The events that the loops push** are those that are `Made`. -/
theorem mem_syntheticEvents : event ∈ syntheticEvents L walk models ↔ Made L models event := by
  simp only [syntheticEvents, List.mem_append, List.mem_map, List.mem_flatMap, List.mem_cons]
  constructor
  · rintro ((⟨p, hp, rfl⟩ | ⟨p, hp, hevent⟩) | ⟨p, hp, rfl⟩)
    · exact .program (mem_entries_walk.mp hp)
    · rcases hevent with rfl | hevent
      · exact .object (mem_entries_walk.mp hp)
      · cases hindex : models.objectIndexes.get (S.objectId p.2) with
        | none =>
          rw [hindex] at hevent
          cases hevent
        | some index =>
          rw [hindex] at hevent
          obtain ⟨k, hk, hevent⟩ := List.mem_flatMap.mp hevent
          obtain ⟨key, id, hid, a, ha, rfl⟩ := (mem_pushIndexedEvents hindex).mp hevent
          exact .indexed (mem_entries_walk.mp hp) hk hid ha
    · exact .packet (mem_entries_walk.mp hp)
  · intro hmade
    cases hmade with
    | program h => exact .inl (.inl ⟨(_, _), mem_entries_walk.mpr h, rfl⟩)
    | object h => exact .inl (.inr ⟨(_, _), mem_entries_walk.mpr h, .inl rfl⟩)
    | @indexed objectId id object k key a hobject hk hid ha =>
      refine .inl (.inr ⟨(_, _), mem_entries_walk.mpr hobject, .inr ?_⟩)
      cases hindex : models.objectIndexes.get (S.objectId object) with
      | none =>
        rw [ReadModels.indexedIds, hindex] at hid
        cases key <;> cases k <;> cases hid
      | some index =>
        rw [List.mem_flatMap]
        exact ⟨k, hk, (mem_pushIndexedEvents hindex).mpr ⟨key, id, hid, a, ha, rfl⟩⟩
    | packet h => exact .inr ⟨(_, _), mem_entries_walk.mpr h, rfl⟩

namespace Made

theorem stored (h : models.Grown) (hmade : Made L models event) :
    (event.artifactType.store models).get event.id = some event.artifact := by
  cases hmade with
  | @program id program hget =>
    obtain ⟨rfl, -⟩ := h.filed (k := .Program) hget
    exact hget
  | @object id object hget =>
    obtain ⟨rfl, -⟩ := h.filed (k := .Object) hget
    exact hget
  | indexed hobject hk hid ha =>
    obtain ⟨rfl, -⟩ := h.filed ha
    exact ha
  | @packet id packet hget =>
    obtain ⟨rfl, -⟩ := h.filed (k := .EvidencePacket) hget
    exact hget

theorem eq_of_id (h : models.Grown) {event' : Synthetic S} (hmade : Made L models event)
    (hmade' : Made L models event') (htype : event.artifactType = event'.artifactType)
    (hid : event.id = event'.id) (hplace : event.artifactType ∈ indexedTypes →
      event.objectId = event'.objectId ∧ event.valueKey = event'.valueKey) : event = event' := by
  have hstored := hmade.stored h
  have hstored' := hmade'.stored h
  rw [← hid] at hstored'
  cases hmade with
  | program hget =>
    cases hmade' with
    | program hget' =>
      cases Option.some.inj (hstored.symm.trans hstored')
      rfl
    | object hget' => cases htype
    | indexed hobject hk hmem ha =>
      cases htype
      exact absurd hk (by decide)
    | packet hget' => cases htype
  | object hget =>
    cases hmade' with
    | program hget' => cases htype
    | object hget' =>
      cases Option.some.inj (hstored.symm.trans hstored')
      rfl
    | indexed hobject hk hmem ha =>
      cases htype
      exact absurd hk (by decide)
    | packet hget' => cases htype
  | indexed hobject hk hmem ha =>
    obtain ⟨hobjectId, hkey⟩ := hplace hk
    cases hmade' with
    | program hget' =>
      cases htype
      exact absurd hk (by decide)
    | object hget' =>
      cases htype
      exact absurd hk (by decide)
    | indexed hobject' hk' hmem' ha' =>
      cases htype
      cases hkey
      cases Option.some.inj (hstored.symm.trans hstored')
      -- the objects are the ones that are filed under their common id
      obtain ⟨rfl, -⟩ := h.filed (k := .Object) hobject
      obtain ⟨rfl, -⟩ := h.filed (k := .Object) hobject'
      have hsame : ArtifactType.Object.artifactId _ = ArtifactType.Object.artifactId _ := hobjectId
      rw [hsame] at hobject
      cases Option.some.inj (hobject.symm.trans hobject')
      rfl
    | packet hget' =>
      cases htype
      exact absurd hk (by decide)
  | packet hget =>
    cases hmade' with
    | program hget' => cases htype
    | object hget' => cases htype
    | indexed hobject hk hmem ha =>
      cases htype
      exact absurd hk (by decide)
    | packet hget' =>
      cases Option.some.inj (hstored.symm.trans hstored')
      rfl

theorem artifact_toEvent (h : models.Grown) (hmade : Made L models event) (eventId : String) :
    (event.toEvent L eventId).artifact event.artifactType = some event.artifact := by
  obtain ⟨-, payload, hparse⟩ := h.filed (hmade.stored h)
  exact (artifact_of_type rfl).trans (L.parse_toValue _ payload _ hparse)

theorem indexed_inv (h : models.Grown) (hmade : Made L models event)
    (htype : event.artifactType ∈ indexedTypes) :
    ∃ object, models.objects.get event.objectId = some object ∧
      L.objectProgramId object = event.programId ∧
        event.id ∈ models.indexedIds event.objectId event.artifactType event.valueKey := by
  cases hmade with
  | program hget => exact absurd htype (show ArtifactType.Program ∉ indexedTypes by decide)
  | object hget => exact absurd htype (show ArtifactType.Object ∉ indexedTypes by decide)
  | @indexed objectId id object k key a hobject hk hid ha =>
    obtain ⟨rfl, -⟩ := h.filed (k := .Object) hobject
    obtain ⟨rfl, -⟩ := h.filed ha
    exact ⟨object, hobject, rfl, hid⟩
  | packet hget => exact absurd htype (show ArtifactType.EvidencePacket ∉ indexedTypes by decide)

theorem object_inv (h : models.Grown) (hmade : Made L models event)
    (htype : event.artifactType = .Object) : ∃ object,
      models.objects.get event.objectId = some object ∧ L.objectProgramId object = event.programId := by
  cases hmade with
  | program hget => cases htype
  | @object id object hget =>
    obtain ⟨rfl, -⟩ := h.filed (k := .Object) hget
    exact ⟨object, hget, rfl⟩
  | indexed hobject hk hid ha =>
    cases htype
    exact absurd hk (by decide)
  | packet hget => cases htype

theorem packet_inv (h : models.Grown) (hmade : Made L models event)
    (htype : event.artifactType = .EvidencePacket) : ∃ packet,
      models.packets.get event.id = some packet ∧ L.packetProgramId packet = event.programId ∧
        L.packetObjectId packet = event.objectId ∧
          some (S.packetValueKey packet) = event.valueKey := by
  cases hmade with
  | program hget => cases htype
  | object hget => cases htype
  | indexed hobject hk hid ha =>
    cases htype
    exact absurd hk (by decide)
  | @packet id packet hget =>
    obtain ⟨rfl, -⟩ := h.filed (k := .EvidencePacket) hget
    exact ⟨packet, hget, rfl, rfl, rfl⟩

theorem noteKey_eq (hmade : Made L models event) :
    event.artifactType.noteKey event.artifact event.valueKey = event.valueKey := by
  cases hmade with
  | program h => rfl
  | object h => rfl
  | @indexed objectId id object k key a hobject hk hid ha =>
    cases k with
    | EvidencePacket => exact absurd hk (by decide)
    | _ => rfl
  | packet h => rfl

theorem exists_artifact_iff (h : models.Grown) (hmade : Made L models event) (eventId : String)
    (k : ArtifactType) (P : k.Artifact S → Prop) :
    (∃ a, (event.toEvent L eventId).artifact k = some a ∧ P a) ↔
      ∃ htype : event.artifactType = k, P (htype ▸ event.artifact) := by
  have hartifact := hmade.artifact_toEvent h eventId
  constructor
  · rintro ⟨a, ha, hP⟩
    obtain rfl : event.artifactType = k := type_of_artifact ha
    obtain rfl : event.artifact = a := Option.some.inj (hartifact.symm.trans ha)
    exact ⟨rfl, hP⟩
  · rintro ⟨rfl, hP⟩
    exact ⟨event.artifact, hartifact, hP⟩

end Made

/-! ## What is rebuilt -/

theorem kept_of_legacy {fresh : Nat → String} {logged : Event S}
    (h : logged ∈ legacyStateToEvents L walk fresh models) :
    ∃ event ∈ keptEvents L walk models, ∃ eventId,
      logged = event.toEvent L eventId := by
  rw [legacyStateToEvents, foldl_insertUnseen_nil] at h
  obtain ⟨p, hp, rfl⟩ := List.mem_map.mp h
  exact ⟨p.1, List.fst_mem_of_mem_zipIdx hp, _, rfl⟩

theorem made_of_kept
    (h : event ∈ keptEvents L walk models) :
    Made L models event :=
  mem_syntheticEvents.mp (mem_of_mem_firsts h)

theorem exists_legacy_iff {fresh : Nat → String} {P : Event S → Prop} {Q : Synthetic S → Prop}
    (hPQ : ∀ event, Made L models event → ∀ eventId, P (event.toEvent L eventId) ↔ Q event) :
    (∃ event ∈ legacyStateToEvents L walk fresh models, P event) ↔
      ∃ event ∈ keptEvents L walk models, Q event := by
  constructor
  · rintro ⟨logged, hlogged, hP⟩
    obtain ⟨event, hkept, eventId, rfl⟩ := kept_of_legacy hlogged
    exact ⟨event, hkept, (hPQ event (made_of_kept hkept) eventId).mp hP⟩
  · rintro ⟨event, hkept, hQ⟩
    obtain ⟨n, hn⟩ := List.mem_iff_getElem?.mp hkept
    refine ⟨event.toEvent L (fresh n), ?_, (hPQ event (made_of_kept hkept) _).mpr hQ⟩
    rw [legacyStateToEvents, foldl_insertUnseen_nil]
    exact List.mem_map.mpr ⟨(event, n), List.mem_zipIdx_iff_getElem?.mpr hn, rfl⟩

variable (L walk) in
def rebuiltModels (fresh : Nat → String) (models : ReadModels S) : ReadModels S :=
  (legacyStateToEvents L walk fresh models).foldl ReadModels.applyEvent .default

section Rebuilt

variable {fresh : Nat → String}

theorem isSome_rebuilt (h : models.Grown) (k : ArtifactType) (id : String) :
    ((k.store (rebuiltModels L walk fresh models)).get id).isSome ↔
      ∃ event ∈ keptEvents L walk models,
        event.artifactType = k ∧ event.id = id := by
  rw [rebuiltModels, isSome_store_foldl, ReadModels.Grown.store_default, BTreeMap.get_empty,
    Option.isSome_none, or_iff_right Bool.false_ne_true]
  refine exists_legacy_iff fun event hmade eventId => ?_
  rw [hmade.exists_artifact_iff h eventId k fun a => k.artifactId a = id]
  constructor
  · rintro ⟨rfl, hid⟩
    exact ⟨rfl, hid⟩
  · rintro ⟨rfl, hid⟩
    exact ⟨rfl, hid⟩

theorem get_rebuilt (h : models.Grown) {k : ArtifactType} {id : String} {a : k.Artifact S}
    (hget : (k.store (rebuiltModels L walk fresh models)).get id = some a) :
    (k.store models).get id = some a := by
  refine get_store_foldl _ _ (fun logged hlogged a ha => ?_) (fun id a hget => ?_) id a hget
  · obtain ⟨event, hkept, eventId, rfl⟩ := kept_of_legacy hlogged
    have hmade := made_of_kept hkept
    obtain rfl : event.artifactType = k := type_of_artifact ha
    obtain rfl : event.artifact = a :=
      Option.some.inj ((hmade.artifact_toEvent h eventId).symm.trans ha)
    exact hmade.stored h
  · rw [ReadModels.Grown.store_default] at hget
    cases hget

theorem noted_iff {k : ArtifactType} :
    (k ≠ .Program ∧ k ≠ .Object) ↔ k ∈ indexedTypes ∨ k = .EvidencePacket := by
  cases k <;> decide

theorem mem_indexedIds_rebuilt (h : models.Grown) (objectId : String) (k : ArtifactType)
    (key : Option String) (id : String) :
    id ∈ (rebuiltModels L walk fresh models).indexedIds objectId k key ↔
      ∃ event ∈ keptEvents L walk models,
        (k ∈ indexedTypes ∨ k = .EvidencePacket) ∧ event.artifactType = k ∧
          event.objectId = objectId ∧ objectId ≠ "" ∧ event.valueKey = key ∧ event.id = id := by
  rw [rebuiltModels, mem_indexedIds_foldl, ReadModels.Grown.indexedIds_default,
    or_iff_right List.not_mem_nil]
  refine exists_legacy_iff fun event hmade eventId => ?_
  have hindexed : (event.toEvent L eventId).isIndexed = true ↔
      event.artifactType ≠ .Program ∧ event.objectId ≠ "" := isIndexed_iff
  constructor
  · rintro ⟨hisIndexed, hobject, hnoted, hartifact⟩
    obtain ⟨htype, hne⟩ := hindexed.mp hisIndexed
    obtain ⟨rfl, hkey, hid⟩ := (hmade.exists_artifact_iff h eventId k fun a =>
      k.noteKey a event.valueKey = key ∧ k.artifactId a = id).mp hartifact
    refine ⟨noted_iff.mp ⟨htype, hnoted⟩, rfl, hobject, hobject ▸ hne, ?_, hid⟩
    exact hmade.noteKey_eq.symm.trans hkey
  · rintro ⟨hnoted, rfl, hobject, hne, hkey, hid⟩
    obtain ⟨htype, hnoted⟩ := noted_iff.mpr hnoted
    refine ⟨hindexed.mpr ⟨htype, hobject ▸ hne⟩, hobject, hnoted, ?_⟩
    exact ⟨event.artifact, hmade.artifact_toEvent h eventId, hmade.noteKey_eq.trans hkey, hid⟩

theorem mem_linkedObjects_rebuilt (programId objectId : String) :
    objectId ∈ (rebuiltModels L walk fresh models).linkedObjects programId ↔
      ∃ event ∈ keptEvents L walk models,
        event.artifactType ≠ .Program ∧ event.objectId = objectId ∧ objectId ≠ "" ∧
          event.programId = programId := by
  rw [rebuiltModels, mem_linkedObjects_foldl]
  have hnone : objectId ∉ (ReadModels.default : ReadModels S).linkedObjects programId :=
    List.not_mem_nil
  rw [or_iff_right hnone]
  refine exists_legacy_iff fun event hmade eventId => ?_
  have hindexed : (event.toEvent L eventId).isIndexed = true ↔
      event.artifactType ≠ .Program ∧ event.objectId ≠ "" := isIndexed_iff
  constructor
  · rintro ⟨hisIndexed, hprogram, rfl⟩
    obtain ⟨htype, hne⟩ := hindexed.mp hisIndexed
    exact ⟨htype, rfl, hne, hprogram⟩
  · rintro ⟨htype, rfl, hne, hprogram⟩
    exact ⟨hindexed.mpr ⟨htype, hne⟩, hprogram, rfl⟩

end Rebuilt

/-! ### Nothing is dropped -/

theorem kept_of_same {fresh : Nat → String} (h : models.Grown)
    (hsame : SameEvidence models (rebuiltModels L walk fresh models))
    (hmade : Made L models event) :
    event ∈ keptEvents L walk models := by
  by_cases htype : event.artifactType ∈ indexedTypes
  · obtain ⟨object, -, -, hid⟩ := hmade.indexed_inv h htype
    rw [hsame.indexes, mem_indexedIds_rebuilt h] at hid
    obtain ⟨event', hkept, -, htype', hobject, -, hkey, hid⟩ := hid
    have heq := (made_of_kept hkept).eq_of_id h hmade htype' hid fun _ => ⟨hobject, hkey⟩
    exact heq ▸ hkept
  · have hstored : ((event.artifactType.store (rebuiltModels L walk fresh models)).get
        event.id).isSome := by
      rw [← hsame.stores, hmade.stored h]
      rfl
    obtain ⟨event', hkept, htype', hid⟩ := (isSome_rebuilt h _ _).mp hstored
    have heq := (made_of_kept hkept).eq_of_id h hmade htype' hid fun hmem =>
      absurd (htype' ▸ hmem) htype
    exact heq ▸ hkept

theorem kept_of_apart (hapart : ∀ event event', Made L models event → Made L models event' →
      event.identity = event'.identity → event = event')
    (hmade : Made L models event) :
    event ∈ keptEvents L walk models := by
  have hmem : event ∈ syntheticEvents L walk models := mem_syntheticEvents.mpr hmade
  have hnew : event.identity ∉ ([] : List String) := List.not_mem_nil
  obtain ⟨event', hkept, hidentity⟩ := exists_mem_firstMarks hmem hnew
  have hkept' : event' ∈ keptEvents L walk models := hkept
  exact hapart event' event (made_of_kept hkept') hmade hidentity ▸ hkept'

theorem kept_unique {event' : Synthetic S}
    (h : event ∈ keptEvents L walk models)
    (h' : event' ∈ keptEvents L walk models)
    (hidentity : event.identity = event'.identity) : event = event' :=
  List.inj_on_of_nodup_map (nodup_firsts Synthetic.identity (syntheticEvents L walk models)) h h'
    hidentity

end Made

/-! ## When the read models survive -/

section Survive

variable {L : Legacy S} {walk : Walk} {models : ReadModels S} {fresh : Nat → String}

theorem linked_kept_iff (h : models.Grown)
    (hkept : ∀ event, Made L models event → event ∈ keptEvents L walk models)
    (programId objectId : String) :
    (∃ event ∈ keptEvents L walk models,
      event.artifactType ≠ .Program ∧ event.objectId = objectId ∧ objectId ≠ "" ∧
        event.programId = programId) ↔
      objectId ≠ "" ∧ ((∃ object, models.objects.get objectId = some object ∧
          L.objectProgramId object = programId) ∨
        ∃ id packet, models.packets.get id = some packet ∧ L.packetProgramId packet = programId ∧
          L.packetObjectId packet = objectId) := by
  constructor
  · rintro ⟨event, hevent, htype, rfl, hne, rfl⟩
    have hmade := made_of_kept hevent
    refine ⟨hne, ?_⟩
    by_cases hobject : event.artifactType = .Object
    · exact .inl (hmade.object_inv h hobject)
    · rcases noted_iff.mp ⟨htype, hobject⟩ with hindexed | hpacket
      · obtain ⟨object, hget, hprogram, -⟩ := hmade.indexed_inv h hindexed
        exact .inl ⟨object, hget, hprogram⟩
      · obtain ⟨packet, hget, hprogram, hobject, -⟩ := hmade.packet_inv h hpacket
        exact .inr ⟨event.id, packet, hget, hprogram, hobject⟩
  · rintro ⟨hne, ⟨object, hget, hprogram⟩ | ⟨id, packet, hget, hprogram, hobject⟩⟩
    · have hid : S.objectId object = objectId := (h.filed (k := .Object) hget).1
      exact ⟨objectEvent L object, hkept _ (.object hget), nofun, hid, hne, hprogram⟩
    · exact ⟨packetEvent L packet, hkept _ (.packet hget), nofun, hobject, hne, hprogram⟩

theorem packet_kept_iff (h : models.Grown)
    (hkept : ∀ event, Made L models event → event ∈ keptEvents L walk models)
    (objectId : String) (key : Option String) (id : String) :
    (∃ event ∈ keptEvents L walk models,
      (ArtifactType.EvidencePacket ∈ indexedTypes ∨
        ArtifactType.EvidencePacket = .EvidencePacket) ∧ event.artifactType = .EvidencePacket ∧
          event.objectId = objectId ∧ objectId ≠ "" ∧ event.valueKey = key ∧ event.id = id) ↔
      ∃ packet, models.packets.get id = some packet ∧ L.packetObjectId packet = objectId ∧
        objectId ≠ "" ∧ key = some (S.packetValueKey packet) := by
  constructor
  · rintro ⟨event, hevent, -, htype, rfl, hne, rfl, rfl⟩
    obtain ⟨packet, hget, -, hobject, hkey⟩ := (made_of_kept hevent).packet_inv h htype
    exact ⟨packet, hget, hobject, hne, hkey.symm⟩
  · rintro ⟨packet, hget, hobject, hne, hkey⟩
    have hid : S.packetId packet = id := (h.filed (k := .EvidencePacket) hget).1
    exact ⟨packetEvent L packet, hkept _ (.packet hget), .inr rfl, rfl, hobject, hne, hkey.symm,
      hid⟩

theorem importable_of_same (h : models.Grown)
    (hsame : SameEvidence models (rebuiltModels L walk fresh models)) : Importable L models := by
  have hkept : ∀ event, Made L models event → event ∈ keptEvents L walk models :=
    fun event hmade => kept_of_same h hsame hmade
  constructor
  · intro k hk objectId key id hid
    rw [hsame.indexes, mem_indexedIds_rebuilt h] at hid
    obtain ⟨event, hevent, -, htype, rfl, -⟩ := hid
    obtain ⟨object, hobject, -⟩ := (made_of_kept hevent).indexed_inv h (htype ▸ hk)
    rw [hobject]
    rfl
  · intro k hk id hstored
    rw [hsame.stores, isSome_rebuilt h] at hstored
    obtain ⟨event, hevent, rfl, rfl⟩ := hstored
    obtain ⟨object, -, -, hid⟩ := (made_of_kept hevent).indexed_inv h hk
    exact ⟨event.objectId, event.valueKey, hid⟩
  · intro objectId key id
    rw [hsame.indexes, mem_indexedIds_rebuilt h]
    exact packet_kept_iff h hkept objectId key id
  · intro programId objectId
    rw [hsame.links, mem_linkedObjects_rebuilt]
    exact linked_kept_iff h hkept programId objectId
  · intro event event' hmade hmade' hidentity
    exact kept_unique (hkept event hmade) (hkept event' hmade') hidentity

theorem exists_made (h : models.Grown) (himportable : Importable L models) {k : ArtifactType}
    {id : String} {a : k.Artifact S} (hget : (k.store models).get id = some a) :
    ∃ event, Made L models event ∧ event.artifactType = k ∧ event.id = id := by
  have hid := (h.filed hget).1
  have hindexed : k ∈ indexedTypes →
      ∃ event, Made L models event ∧ event.artifactType = k ∧ event.id = id := by
    intro hk
    obtain ⟨objectId, key, hmem⟩ := himportable.indexed k hk id (hget ▸ rfl)
    obtain ⟨object, hobject⟩ :=
      Option.isSome_iff_exists.mp (himportable.recorded k hk objectId key id hmem)
    obtain ⟨rfl, -⟩ := h.filed (k := .Object) hobject
    exact ⟨_, .indexed hobject hk hmem hget, rfl, hid⟩
  cases k with
  | Program => exact ⟨_, .program hget, rfl, hid⟩
  | Object => exact ⟨_, .object hget, rfl, hid⟩
  | EvidencePacket => exact ⟨_, .packet hget, rfl, hid⟩
  | _ => exact hindexed (by decide)

theorem same_of_importable (h : models.Grown) (himportable : Importable L models) :
    SameEvidence models (rebuiltModels L walk fresh models) := by
  have hkept : ∀ event, Made L models event → event ∈ keptEvents L walk models :=
    fun event hmade => kept_of_apart himportable.apart hmade
  constructor
  · intro k
    refine BTreeMap.ext_get fun id => ?_
    cases hget : (k.store models).get id with
    | none =>
      cases hrebuilt : (k.store (rebuiltModels L walk fresh models)).get id with
      | none => rfl
      | some a =>
        rw [get_rebuilt h hrebuilt] at hget
        cases hget
    | some a =>
      obtain ⟨event, hmade, htype, hid⟩ := exists_made h himportable hget
      have hsome : ((k.store (rebuiltModels L walk fresh models)).get id).isSome :=
        (isSome_rebuilt h k id).mpr ⟨event, hkept event hmade, htype, hid⟩
      obtain ⟨b, hb⟩ := Option.isSome_iff_exists.mp hsome
      rw [hb, ← get_rebuilt h hb, hget]
  · intro programId objectId
    rw [himportable.links, mem_linkedObjects_rebuilt]
    exact (linked_kept_iff h hkept programId objectId).symm
  · intro objectId k key id
    rw [mem_indexedIds_rebuilt h]
    by_cases hk : k ∈ indexedTypes
    · constructor
      · intro hid
        obtain ⟨hstored, hne, -⟩ := h.stored_of_indexed hid
        obtain ⟨a, ha⟩ := Option.isSome_iff_exists.mp hstored
        obtain ⟨object, hobject⟩ :=
          Option.isSome_iff_exists.mp (himportable.recorded k hk objectId key id hid)
        obtain ⟨rfl, -⟩ := h.filed (k := .Object) hobject
        exact ⟨_, hkept _ (.indexed hobject hk hid ha), .inl hk, rfl, rfl, hne, rfl,
          (h.filed ha).1⟩
      · rintro ⟨event, hevent, -, rfl, rfl, -, rfl, rfl⟩
        obtain ⟨object, -, -, hid⟩ := (made_of_kept hevent).indexed_inv h hk
        exact hid
    · by_cases hpacket : k = .EvidencePacket
      · subst hpacket
        rw [himportable.packets]
        exact (packet_kept_iff h hkept objectId key id).symm
      · have hnot : ¬(k ∈ indexedTypes ∨ k = .EvidencePacket) := by
          rw [not_or]
          exact ⟨hk, hpacket⟩
        refine iff_of_false (fun hid => hnot ?_) ?_
        · obtain ⟨-, -, hobject, hprogram⟩ := h.stored_of_indexed hid
          exact noted_iff.mp ⟨hprogram, hobject⟩
        · rintro ⟨event, -, hnoted, -⟩
          exact hnot hnoted

end Survive

/-! ## Import and rebuild -/

section Whole

variable (L : Legacy S) (walk : Walk) (fresh : Nat → String) (now : Time)

variable [TextCodec (LoggedEvent S)] [TextCodec (TraceabilityState S)]

variable {L walk fresh now} in
theorem importAndRebuild_eq {state : TraceabilityState S} (h : ImportReadsBack L walk fresh state now) :
    ∃ rebuilt, importAndRebuild L walk fresh (TextCodec.toText state) now = some rebuilt ∧
      rebuilt.toReadModels = rebuiltModels L walk fresh state.toReadModels ∧
      ∀ id, (rebuilt.processedEventIds.get id).isSome → ∃ n, fresh n = id := by
  obtain ⟨store, himport, hevents⟩ : ∃ store : Store S,
      importLegacyFile L walk fresh (.opened now) (TextCodec.toText state) now true = (store, .ok ()) ∧
        store.events = (logged 0 (fun _ => now)
          (legacyStateToEvents L walk fresh state.toReadModels)).foldl (fun events e =>
            events.insert e.sequence (TextCodec.toText e)) .empty := by
    rw [importLegacyFile, show TextCodec.fromText _ = some state from h.file]
    exact ⟨_, rfl, rfl⟩
  -- the log is what was made
  have hempty : ∀ k ∈ (BTreeMap.empty : BTreeMap Nat String).keys, k ≤ 0 := nofun
  have hentries := entries_append hempty (logged_sequences 0 (fun _ => now)
    (legacyStateToEvents L walk fresh state.toReadModels))
  have hlog : store.eventLog = some (legacyStateToEvents L walk fresh state.toReadModels) := by
    rw [Store.eventLog, Store.loggedEvents, hevents, BTreeMap.values, hentries, List.map_append,
      List.map_map]
    refine (congrArg (Option.map _) (TextCodec.mapM_fromText h.events)).trans ?_
    rw [Option.map_some, logged_events]
  refine ⟨{ rebuiltState (legacyStateToEvents L walk fresh state.toReadModels) now with
    updatedAt := now, lastRebuildAt := some now }, ?_, rfl, fun id hid => ?_⟩
  · simp only [importAndRebuild, himport, hlog]
    rfl
  · have hset : (BTreeMap.ofList ((legacyStateToEvents L walk fresh state.toReadModels).map
        fun event => (event.eventId, ()))).get id |>.isSome := hid
    rw [BTreeMap.isSome_get_ofList, List.map_map] at hset
    obtain ⟨event, hevent, rfl⟩ := List.mem_map.mp hset
    obtain ⟨p, -, rfl⟩ := List.mem_map.mp hevent
    exact ⟨p.2, rfl⟩

omit [TextCodec (TraceabilityState S)]

theorem fileState_append (calls : List (Call S)) (call : Call S) :
    fileState now (calls ++ [call]) = memoryAfter (ingestAll now calls) call := by
  rw [fileState, ingestAll, List.foldl_append]
  exact memory_ingestStep

theorem grown_fileState (calls : List (Call S)) : (fileState now calls).toReadModels.Grown := by
  induction calls using List.reverseRecOn with
  | nil => exact ⟨[], rfl⟩
  | append_singleton calls call ih =>
    obtain ⟨events, hevents⟩ := ih
    rw [fileState_append]
    refine ⟨events ++ (accept (ingestAll now calls).memory.processedEventIds call.events).2, ?_⟩
    rw [List.foldl_append, ← hevents]
    rfl

theorem processed_fileState (calls : List (Call S)) (id : String) :
    ((fileState now calls).processedEventIds.get id).isSome ↔
      ∃ call ∈ calls, id ∈ call.events.map (·.eventId) := by
  induction calls using List.reverseRecOn with
  | nil => exact iff_of_false nofun nofun
  | append_singleton calls call ih =>
    have haccept := get_accept (ingestAll now calls).memory.processedEventIds call.events id
    rw [fileState_append]
    show ((accept (ingestAll now calls).memory.processedEventIds call.events).1.get id).isSome ↔ _
    rw [haccept]
    show ((fileState now calls).processedEventIds.get id).isSome ∨ _ ↔ _
    rw [ih]
    simp only [List.mem_append, List.mem_singleton, or_and_right, exists_or, exists_eq_left]

end Whole

theorem models_fileState_of_empty [TextCodec (LoggedEvent S)] (now : Time) {calls : List (Call S)}
    (h : ∀ call ∈ calls, call.events = []) : (fileState now calls).toReadModels = .default := by
  induction calls using List.reverseRecOn with
  | nil => rfl
  | append_singleton calls call ih =>
    have hcall := h call (List.mem_append_right _ (List.mem_singleton_self call))
    rw [fileState_append, memoryAfter, hcall]
    exact ih fun call hmem => h call (List.mem_append_left _ hmem)

theorem importable_default (L : Legacy S) : Importable L (.default : ReadModels S) := by
  have hindexed : ∀ objectId k key id,
      id ∉ (ReadModels.default : ReadModels S).indexedIds objectId k key := by
    intro objectId k key id
    rw [ReadModels.Grown.indexedIds_default]
    exact List.not_mem_nil
  constructor
  · intro k hk objectId key id hid
    exact absurd hid (hindexed objectId k key id)
  · intro k hk id hstored
    rw [ReadModels.Grown.store_default] at hstored
    cases hstored
  · intro objectId key id
    refine iff_of_false (hindexed objectId _ key id) ?_
    rintro ⟨packet, hget, -⟩
    cases hget
  · intro programId objectId
    refine iff_of_false (show objectId ∉ ([] : List String) from List.not_mem_nil) ?_
    rintro ⟨-, ⟨object, hget, -⟩ | ⟨id, packet, hget, -⟩⟩ <;> cases hget
  · intro event event' hmade
    cases hmade with
    | program hget => cases hget
    | object hget => cases hget
    | indexed hobject hk hid ha => cases hobject
    | packet hget => cases hget

/-- **Import and replay preserve the evidence** of a file that reads back, that is its read models,
exactly when they are importable; and the events that were processed are still rejected as well exactly
when no event was ever ingested. -/
theorem import_preserves_iff [TextCodec (LoggedEvent S)] [TextCodec (TraceabilityState S)]
    (L : Legacy S) (walk : Walk) (fresh : Nat → String) (now later : Time) (calls : List (Call S))
    (hfresh : ∀ n, (fileState now calls).processedEventIds.get (fresh n) = none)
    (hreads : ImportReadsBack L walk fresh (fileState now calls) later) :
    let result := importAndRebuild L walk fresh (TextCodec.toText (fileState now calls)) later
    ((∃ rebuilt, result = some rebuilt ∧
        SameEvidence (fileState now calls).toReadModels rebuilt.toReadModels) ↔
      Importable L (fileState now calls).toReadModels) ∧
    ((∃ rebuilt, result = some rebuilt ∧
        SameEvidence (fileState now calls).toReadModels rebuilt.toReadModels ∧
        Remembers (fileState now calls) rebuilt) ↔
      ∀ call ∈ calls, call.events = []) := by
  intro result
  obtain ⟨rebuilt, hresult, hmodels, hids⟩ := importAndRebuild_eq hreads
  rw [show result = some rebuilt from hresult]
  simp only [Option.some.injEq, exists_eq_left']
  have hgrown := grown_fileState now calls
  rw [hmodels]
  have hsame : SameEvidence (fileState now calls).toReadModels
      (rebuiltModels L walk fresh (fileState now calls).toReadModels) ↔
        Importable L (fileState now calls).toReadModels :=
    ⟨importable_of_same hgrown, same_of_importable hgrown⟩
  refine ⟨hsame, ?_⟩
  constructor
  · rintro ⟨-, hremembers⟩ call hcall
    refine List.eq_nil_iff_forall_not_mem.mpr fun event hevent => ?_
    have hprocessed : ((fileState now calls).processedEventIds.get event.eventId).isSome :=
      (processed_fileState now calls event.eventId).mpr
        ⟨call, hcall, List.mem_map_of_mem hevent⟩
    -- the ids that are there afterwards are new
    obtain ⟨n, hn⟩ := hids event.eventId (hremembers event.eventId hprocessed)
    rw [← hn, hfresh n] at hprocessed
    cases hprocessed
  · intro hempty
    refine ⟨hsame.mpr ?_, fun id hprocessed => ?_⟩
    · rw [models_fileState_of_empty now hempty]
      exact importable_default L
    · obtain ⟨call, hcall, hid⟩ := (processed_fileState now calls id).mp hprocessed
      rw [hempty call hcall] at hid
      cases hid

/-! ## A rule without an object -/

def idsLegacy : Legacy idsOnly where
  objectProgramId := fun _ => "program-1"
  packetProgramId := fun _ => "program-1"
  packetObjectId := fun _ => "object-1"
  toValue := fun k =>
    match k with
    | .Program | .Object | .TransformationRule | .ExecutionEvent | .ExceptionRecord
    | .ControlResult | .ApprovalEvent | .EvidencePacket => fun a => a
  parse_toValue := by
    intro k payload a _
    cases k <;> rfl

def inOrder : Walk := ⟨BTreeMap.entries, fun m => List.Perm.refl m.entries⟩

def legacyId (n : Nat) : String := "legacy-" ++ toString n

def programCalls : List (Call idsOnly) := [⟨[newProgram], fun _ => 0, 0, true⟩]

def orphanRule : Event idsOnly :=
  ⟨"event-1", "program-1", "object-1", .TransformationRule, none, "rule-1"⟩

def orphanCalls : List (Call idsOnly) := [⟨[orphanRule], fun _ => 0, 0, true⟩]

instance : TextCodec (TraceabilityState idsOnly) where
  toText state := if (state.rules.get "rule-1").isSome then "orphan" else "program"
  fromText text := some (fileState 0 (if text = "orphan" then orphanCalls else programCalls))

/-- After one program was ingested, its event is not known any more. -/
theorem program_not_remembered : ¬ ∃ rebuilt,
    importAndRebuild idsLegacy inOrder legacyId (TextCodec.toText (fileState 0 programCalls)) 1 =
        some rebuilt ∧
      SameEvidence (fileState 0 programCalls).toReadModels rebuilt.toReadModels ∧
      Remembers (fileState 0 programCalls) rebuilt := by
  intro h
  have hfresh : ∀ n, (fileState 0 programCalls).processedEventIds.get (legacyId n) = none := by
    intro n
    have hne : legacyId n ≠ "event-1" := by
      intro heq
      have hhead := congrArg (fun s => s.toList.head?) heq
      simp [legacyId] at hhead
    show (if legacyId n = "event-1" then some () else none) = none
    exact if_neg hne
  have hlogged : TextCodec.ReadsBack
      (⟨1, 1, { newProgram with eventId := "legacy-0" }⟩ : LoggedEvent idsOnly) := rfl
  have hreads : ImportReadsBack idsLegacy inOrder legacyId (fileState 0 programCalls) 1 :=
    ⟨rfl, List.forall_mem_singleton.mpr hlogged⟩
  have hempty := (import_preserves_iff idsLegacy inOrder legacyId 0 1 programCalls hfresh hreads).2.mp h _
    (List.mem_singleton_self _)
  cases hempty

/-- A rule of an object without a record is lost, and its event is not known any more. -/
theorem orphan_rule_lost :
    (¬ ∀ calls : List (Call idsOnly), ∃ rebuilt,
      importAndRebuild idsLegacy inOrder legacyId (TextCodec.toText (fileState 0 calls)) 1 =
          some rebuilt ∧
        SameEvidence (fileState 0 calls).toReadModels rebuilt.toReadModels) ∧
    ¬ ∀ calls : List (Call idsOnly), ∃ rebuilt,
      importAndRebuild idsLegacy inOrder legacyId (TextCodec.toText (fileState 0 calls)) 1 =
          some rebuilt ∧
        Remembers (fileState 0 calls) rebuilt := by
  constructor
  · intro h
    obtain ⟨rebuilt, hresult, hsame⟩ := h orphanCalls
    have hrules := congrArg (fun rules => (rules.get "rule-1").isSome)
      (hsame.stores .TransformationRule)
    have hlost := congrArg (Option.map fun state => (state.rules.get "rule-1").isSome) hresult
    rw [Option.map_some, show (rebuilt.rules.get "rule-1").isSome = true from hrules.symm] at hlost
    revert hlost
    decide
  · intro h
    obtain ⟨rebuilt, hresult, hremembers⟩ := h orphanCalls
    have hknown := hremembers "event-1" (by decide)
    have hlost := congrArg (Option.map fun state => (state.processedEventIds.get "event-1").isSome) hresult
    rw [Option.map_some, hknown] at hlost
    revert hlost
    decide

end Arcxa.Traceability
