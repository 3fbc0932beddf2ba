import Arcxa.Traceability.Explanation

/-!
# What a packet on request covers

A packet for a key is to hold the evidence that the index of the object has under this key, or for
the whole object, and is to be the one that a later request returns. It holds what the index has
under the key of the locator. These are two keys for every object with a target record, and the
packet covers the value only when nothing makes the difference (`packet_covers_iff`).
-/

namespace Arcxa.Traceability

open Workflow (Float64)
open Audit (FixedBytes)
open EvidencePacket

/-! ## Fresh events -/

section Ingest

variable {S : Schema} [TextCodec (LoggedEvent S)] {store : Store S} {call : Call S}

theorem models_ingest_fresh {event : Event S} (hevents : call.events = [event])
    (hfresh : store.memory.processedEventIds.get event.eventId = none) :
    (ingestEvents store call).1.memory.toReadModels =
      store.memory.toReadModels.applyEvent event := by
  have hnew : ¬ (store.memory.processedEventIds.get event.eventId).isSome := by
    rw [hfresh]
    exact Bool.false_ne_true
  show (ingestStep store call).memory.toReadModels = _
  rw [memory_ingestStep, memoryAfter, hevents, accept, if_neg hnew]
  rfl

theorem ingestEvents_result_of_write (h : call.writes = true) :
    ∃ r, (ingestEvents store call).2 = .ok r := by
  unfold ingestEvents persist
  rw [h]
  exact ⟨_, rfl⟩

theorem ingestEvents_result_of_failure (h : call.writes = false) :
    ∃ e, (ingestEvents store call).2 = .error e := by
  unfold ingestEvents persist
  rw [h]
  exact ⟨_, rfl⟩

end Ingest

/-! ## Keys -/

variable {object : MigrationObject}

theorem mem_valueKeyCandidates {raw key : String} :
    key ∈ valueKeyCandidates object raw ↔ key = raw ∨ (¬ "::".toList <:+: raw.toList ∧
      ((∃ r ∈ object.targetRecordId, key = recordKey r raw) ∨
        ∃ r ∈ object.sourceRecordId, key = recordKey r raw)) := by
  have hmap : ∀ key, key ∈ (object.targetRecordId.toList ++ object.sourceRecordId.toList).map
      (recordKey · raw) ↔ (∃ r ∈ object.targetRecordId, key = recordKey r raw) ∨
        ∃ r ∈ object.sourceRecordId, key = recordKey r raw := by
    intro key
    rw [List.map_append, List.mem_append, List.mem_map, List.mem_map]
    simp only [Option.mem_toList, Option.mem_def, eq_comm]
  rw [valueKeyCandidates, mem_sortedIds, List.mem_cons]
  refine or_congr_right ?_
  split_ifs with hinfix
  · exact iff_of_false List.not_mem_nil fun h => h.1 hinfix
  · rw [and_iff_right hinfix, hmap]

theorem separator_infix_recordKey (r path : String) :
    "::".toList <:+: (recordKey r path).toList := by
  rw [recordKey, String.toList_append, String.toList_append]
  exact ⟨r.toList, path.toList, rfl⟩

/-- The value that a request for `raw` explains. -/
def requestLocator (object : MigrationObject) (raw : String) : ValueLocator where
  programId := object.programId
  objectId := object.objectId
  targetFieldPath := raw
  targetRecordId := object.targetRecordId
  sourceRecordId := object.sourceRecordId

def requestKey (object : MigrationObject) (raw : String) : String :=
  (requestLocator object raw).valueKey

theorem requestKey_none (h : object.targetRecordId = none) (raw : String) :
    requestKey object raw = raw := by
  simp only [requestKey, ValueLocator.valueKey, requestLocator, h]

theorem requestKey_some {r : String} (h : object.targetRecordId = some r) (raw : String) :
    requestKey object raw = recordKey r raw := by
  simp only [requestKey, ValueLocator.valueKey, requestLocator, h]

theorem candidates_requestKey {raw key : String}
    (h : key ∈ valueKeyCandidates object (requestKey object raw)) :
    key = requestKey object raw ∨ key ∈ valueKeyCandidates object raw := by
  cases htarget : object.targetRecordId with
  | none =>
    rw [requestKey_none htarget] at h
    exact .inr h
  | some r =>
    rw [requestKey_some htarget, mem_valueKeyCandidates] at h
    rw [requestKey_some htarget]
    exact h.imp_right fun h => absurd (separator_infix_recordKey r raw) h.1

/-! ## What the index gathers -/

section Gathered

variable {S : Schema} {models : ReadModels S} {o : String} {k : ArtifactType} {key : String}

def idsUnder (models : ReadModels S) (o : String) (k : ArtifactType) (key : String) :
    List String :=
  models.indexedIds o k (some key) ++ models.indexedIds o k none

def gathered (models : ReadModels S) (o : String) (k : ArtifactType) (key : String) :
    List (k.Artifact S) :=
  collectByIds (k.store models) (some (models.indexedIds o k (some key)))
    (models.indexedIds o k none)

variable (h : models.Grown)

include h

theorem mem_gathered {a : k.Artifact S} : a ∈ gathered models o k key ↔
    k.artifactId a ∈ idsUnder models o k key ∧ (k.store models).get (k.artifactId a) = some a := by
  rw [gathered, collectByIds, List.mem_filterMap]
  constructor
  · rintro ⟨id, hid, hget⟩
    obtain ⟨rfl, -⟩ := h.filed hget
    exact ⟨mem_firsts_id.mp hid, hget⟩
  · rintro ⟨hid, hget⟩
    exact ⟨_, mem_firsts_id.mpr hid, hget⟩

theorem nodup_gathered : (gathered models o k key).Nodup := by
  have hids := nodup_firsts id (idsUnder models o k key)
  rw [List.map_id_fun, id] at hids
  refine hids.filterMap fun id id' a ha ha' => ?_
  exact (h.filed ha).1.symm.trans (h.filed ha').1

theorem exists_mem_gathered {id : String} (hid : id ∈ idsUnder models o k key) :
    ∃ a ∈ gathered models o k key, k.artifactId a = id := by
  have hsome : ((k.store models).get id).isSome := by
    rcases List.mem_append.mp hid with hid | hid <;> exact (h.stored_of_indexed hid).1
  obtain ⟨a, ha⟩ := Option.isSome_iff_exists.mp hsome
  obtain ⟨rfl, -⟩ := h.filed ha
  exact ⟨a, (mem_gathered h).mpr ⟨hid, ha⟩, rfl⟩

omit h

theorem gathered_eq_nil (h : ∀ id, id ∉ idsUnder models o k key) :
    gathered models o k key = [] := by
  have hids : idsUnder models o k key = [] := List.eq_nil_iff_forall_not_mem.mpr h
  show (firsts id (idsUnder models o k key)).filterMap (k.store models).get = []
  rw [hids]
  rfl

theorem gathered_singleton (h : models.Grown) {a : k.Artifact S} {id : String}
    (hids : ∀ id', id' ∈ idsUnder models o k key ↔ id' = id)
    (hget : (k.store models).get id = some a) : gathered models o k key = [a] := by
  refine List.perm_singleton.mp ((List.perm_ext_iff_of_nodup (nodup_gathered h)
    (List.nodup_singleton a)).mpr fun b => ?_)
  rw [mem_gathered h, hids, List.mem_singleton]
  constructor
  · rintro ⟨hid, hb⟩
    rw [hid, hget] at hb
    exact (Option.some.inj hb).symm
  · rintro rfl
    obtain ⟨hid, -⟩ := h.filed hget
    exact ⟨hid, hid ▸ hget⟩

theorem index_of_gathered (h : gathered models o k key ≠ []) :
    ∃ index, models.objectIndexes.get o = some index := by
  cases hindex : models.objectIndexes.get o with
  | some index => exact ⟨index, rfl⟩
  | none =>
    refine absurd (gathered_eq_nil fun id => ?_) h
    unfold idsUnder ReadModels.indexedIds
    rw [hindex]
    cases k <;> exact List.not_mem_nil

theorem collectByIds_eq_gathered {index : ObjectIndex}
    (h : models.objectIndexes.get o = some index) (key : String) :
    collectByIds models.rules (index.valueKeyRules.get key) index.objectLevelRuleIds =
        gathered models o .TransformationRule key ∧
      collectByIds models.executions (index.valueKeyExecutionIds.get key)
        index.objectLevelExecutionIds = gathered models o .ExecutionEvent key ∧
      collectByIds models.exceptions (index.valueKeyExceptionIds.get key)
        index.objectLevelExceptionIds = gathered models o .ExceptionRecord key ∧
      collectByIds models.controls (index.valueKeyControlIds.get key)
        index.objectLevelControlIds = gathered models o .ControlResult key ∧
      collectByIds models.approvals (index.valueKeyApprovalIds.get key)
        index.objectLevelApprovalIds = gathered models o .ApprovalEvent key ∧
      collectByIds models.packets (index.valueKeyPacketIds.get key)
        index.objectLevelPacketIds = gathered models o .EvidencePacket key := by
  have hall : ∀ k : ArtifactType,
      collectByIds (k.store models) ((index.valueKeyIds k).get key) (index.objectLevelIds k) =
        gathered models o k key := by
    intro k
    unfold gathered ReadModels.indexedIds
    rw [h]
    rfl
  exact ⟨hall .TransformationRule, hall .ExecutionEvent, hall .ExceptionRecord,
    hall .ControlResult, hall .ApprovalEvent, hall .EvidencePacket⟩

include h

theorem gathered_perm_iff {A : Type} (f : k.Artifact S → A) (g : A → String)
    (hg : ∀ a, g (f a) = k.artifactId a) {key' : String} :
    ((gathered models o k key).map f).Perm ((gathered models o k key').map f) ↔
      ∀ id, id ∈ idsUnder models o k key ↔ id ∈ idsUnder models o k key' := by
  have hids : ∀ key id, id ∈ ((gathered models o k key).map f).map g ↔
      id ∈ idsUnder models o k key := by
    intro key id
    rw [List.map_map, List.mem_map]
    constructor
    · rintro ⟨a, ha, rfl⟩
      rw [Function.comp_apply, hg]
      exact ((mem_gathered h).mp ha).1
    · intro hid
      obtain ⟨a, ha, rfl⟩ := exists_mem_gathered h hid
      exact ⟨a, ha, hg a⟩
  constructor
  · intro hperm id
    rw [← hids key, ← hids key', (hperm.map g).mem_iff]
  · intro hsame
    refine List.Perm.map f ?_
    rw [List.perm_ext_iff_of_nodup (nodup_gathered h) (nodup_gathered h)]
    intro a
    rw [mem_gathered h, mem_gathered h, hsame]

theorem objectLevelPacketIds_eq_nil : models.indexedIds o .EvidencePacket none = [] := by
  obtain ⟨events, rfl⟩ := h
  refine List.eq_nil_iff_forall_not_mem.mpr fun id hid => ?_
  rw [mem_indexedIds_foldl, ReadModels.Grown.indexedIds_default,
    or_iff_right List.not_mem_nil] at hid
  obtain ⟨event, -, hnotes⟩ := hid
  obtain ⟨a, -, hkey, -⟩ := hnotes.artifact
  cases hkey

theorem mem_packetIdsUnder {id : String} :
    id ∈ idsUnder models o .EvidencePacket key ↔
      id ∈ models.indexedIds o .EvidencePacket (some key) := by
  rw [idsUnder, objectLevelPacketIds_eq_nil h, List.append_nil]

end Gathered

/-! ## Packets that are there -/

section Existing

variable {F T K V : Type} [Float64 F] [Rfc3339 T] [LinearOrder T]
  {models : ReadModels (evidenceSchema F T)} {object : MigrationObject} {raw : String}

theorem findExistingPacket_eq : findExistingPacket models object (some raw) =
    maxByKey (·.generatedAt) ((sortedIds ((valueKeyCandidates object raw).flatMap fun key =>
      models.indexedIds object.objectId .EvidencePacket (some key))).filterMap
        models.packets.get) := by
  unfold findExistingPacket ReadModels.indexedIds
  cases models.objectIndexes.get object.objectId with
  | none =>
    have hnil : ((valueKeyCandidates object raw).flatMap fun key =>
        ObjectIndex.default.ids .EvidencePacket (some key)) = [] :=
      List.flatMap_eq_nil_iff.mpr fun _ _ => rfl
    dsimp only [Option.getD_none]
    rw [hnil]
    rfl
  | some index => rfl

theorem findExistingPacket_eq_none (h : ∀ key ∈ valueKeyCandidates object raw,
    models.indexedIds object.objectId .EvidencePacket (some key) = []) :
    findExistingPacket models object (some raw) = none := by
  rw [findExistingPacket_eq, List.flatMap_eq_nil_iff.mpr h]
  rfl

theorem findExistingPacket_eq_some {packetId : String} {packet : EvidencePacket F T}
    (hids : ∀ id, (∃ key ∈ valueKeyCandidates object raw,
      id ∈ models.indexedIds object.objectId .EvidencePacket (some key)) ↔ id = packetId)
    (hget : models.packets.get packetId = some packet) :
    findExistingPacket models object (some raw) = some packet := by
  have hsorted : sortedIds ((valueKeyCandidates object raw).flatMap fun key =>
      models.indexedIds object.objectId .EvidencePacket (some key)) = [packetId] := by
    refine List.perm_singleton.mp ((List.perm_ext_iff_of_nodup (nodup_sortedIds _)
      (List.nodup_singleton _)).mpr fun id => ?_)
    rw [mem_sortedIds, List.mem_flatMap, hids, List.mem_singleton]
  rw [findExistingPacket_eq, hsorted, List.filterMap_cons_some hget]
  rfl

end Existing

/-! ## Explaining -/

theorem pickTargetField_eq_none {F : Type} {rule : TransformationRule F} {path : String} :
    pickTargetField rule path = none ↔ rule.targetFields = [] := by
  rw [pickTargetField, Option.or_eq_none_iff, List.head?_eq_none_iff, and_iff_right_iff_imp]
  intro h
  rw [h]
  rfl

theorem mem_of_pickRule {F : Type} {rules : List (TransformationRule F)} {path : String}
    {rule : TransformationRule F} (h : pickRule rules path = some rule) : rule ∈ rules := by
  rcases Option.or_eq_some_iff.mp h with hfind | ⟨-, hhead⟩
  · exact List.mem_of_find?_eq_some hfind
  · exact List.mem_of_mem_head? hhead

section Explaining

variable {F T K V : Type} [Float64 F] [Rfc3339 T] [LinearOrder T]
  [TextCodec (LoggedEvent (evidenceSchema F T))]
  {libs : SigningLibs F K V} {signingKey : K} {env : RequestEnv T}
  {store : Store (evidenceSchema F T)} {locator : ValueLocator}

def explanationBy (env : RequestEnv T) (models : ReadModels (evidenceSchema F T))
    (locator : ValueLocator) (rule : TransformationRule F) (sourceField targetField : FieldRef) :
    ValueExplanation F T :=
  let exceptions := gathered models locator.objectId .ExceptionRecord locator.valueKey
  let controls := gathered models locator.objectId .ControlResult locator.valueKey
  { explanationId := env.explanationId
    locator
    sourceField
    targetField
    sourceValue := (exceptions.head?.bind (·.sourceValue)).or
      (controls.head?.bind (·.expectedValue))
    targetValue := (exceptions.head?.bind (·.targetValue)).or
      (controls.head?.bind (·.actualValue))
    transformationRule := some rule
    executionEvent := primaryExecution
      (gathered models locator.objectId .ExecutionEvent locator.valueKey)
    exceptions
    controls
    approvals := gathered models locator.objectId .ApprovalEvent locator.valueKey
    evidencePacketId := none
    graphRefs := []
    confidenceSummary := some ("Evidence graph assembled from transformation, execution, " ++
      "control, and approval artifacts")
    generatedAt := env.explainedAt }

theorem explainValue_of_packet {packet : EvidencePacket F T} {packets : List (EvidencePacket F T)}
    (h : gathered store.memory.toReadModels locator.objectId .EvidencePacket locator.valueKey =
      packet :: packets) :
    ∃ explanation : ValueExplanation F T, explanation.locator = locator ∧
      explainValue libs signingKey env store locator = (store, .ok explanation) := by
  obtain ⟨index, hindex⟩ := index_of_gathered (h ▸ List.cons_ne_nil _ _)
  obtain ⟨-, -, -, -, -, hpackets⟩ := collectByIds_eq_gathered hindex locator.valueKey
  unfold explainValue
  simp only [hindex, hpackets, h, List.head?_cons, Option.map_some, Option.or_some]
  exact ⟨_, rfl, rfl⟩

variable (hpackets : gathered store.memory.toReadModels locator.objectId .EvidencePacket
  locator.valueKey = [])

include hpackets

theorem explainValue_of_rule {rule : TransformationRule F} {sourceField targetField : FieldRef}
    (hrule : pickRule (gathered store.memory.toReadModels locator.objectId .TransformationRule
      locator.valueKey) locator.targetFieldPath = some rule)
    (hsource : rule.sourceFields.head? = some sourceField)
    (htarget : pickTargetField rule locator.targetFieldPath = some targetField) :
    let explanation := explanationBy env store.memory.toReadModels locator rule sourceField
      targetField
    explainValue libs signingKey env store locator =
      ((buildEvidencePacket libs signingKey env.explain store explanation).1,
        (buildEvidencePacket libs signingKey env.explain store explanation).2.map
          explanation.withPacket) := by
  have hne : gathered store.memory.toReadModels locator.objectId .TransformationRule
      locator.valueKey ≠ [] := by
    intro hnil
    rw [hnil] at hrule
    cases hrule
  obtain ⟨index, hindex⟩ := index_of_gathered hne
  obtain ⟨hrules, hexecutions, hexceptions, hcontrols, happrovals, hcollected⟩ :=
    collectByIds_eq_gathered hindex locator.valueKey
  unfold explainValue explanationBy
  simp only [hindex, hrules, hexecutions, hexceptions, hcontrols, happrovals, hcollected, hpackets,
    hrule, hsource, htarget, Option.bind_some, Option.some_or]
  rfl

theorem explainValue_error (h : ∀ rule, pickRule (gathered store.memory.toReadModels
    locator.objectId .TransformationRule locator.valueKey) locator.targetFieldPath = some rule →
      rule.sourceFields = [] ∨ rule.targetFields = []) :
    ∃ e, explainValue libs signingKey env store locator = (store, .error e) := by
  unfold explainValue
  cases hindex : store.memory.objectIndexes.get locator.objectId with
  | none =>
    dsimp only
    rw [hindex]
    exact ⟨_, rfl⟩
  | some index =>
    obtain ⟨hrules, -, -, -, -, hcollected⟩ := collectByIds_eq_gathered hindex locator.valueKey
    simp only [hindex, hrules, hcollected, hpackets]
    cases hrule : pickRule (gathered store.memory.toReadModels locator.objectId
        .TransformationRule locator.valueKey) locator.targetFieldPath with
    | none => exact ⟨_, rfl⟩
    | some rule =>
      rw [Option.bind_some, Option.bind_some]
      cases htarget : pickTargetField rule locator.targetFieldPath with
      | none => exact ⟨_, rfl⟩
      | some targetField =>
        have hnone : rule.targetFields ≠ [] := by
          intro hnil
          rw [pickTargetField_eq_none.mpr hnil] at htarget
          cases htarget
        rw [(h rule hrule).resolve_right hnone]
        exact ⟨_, rfl⟩

end Explaining

/-! ## Asking again -/

section Again

variable {F T K V : Type} [Float64 F] [Rfc3339 T] [LinearOrder T]
  [TextCodec (LoggedEvent (evidenceSchema F T))]
  {libs : SigningLibs F K V} {signingKey : K}
  {store : Store (evidenceSchema F T)} {object : MigrationObject} {raw : String}
  {packet : EvidencePacket F T}

def LooksUnder (object : MigrationObject) (raw key : String) : Prop :=
  key = requestKey object raw ∨ key ∈ valueKeyCandidates object raw

/-- The packet is the only one that a request finds. -/
structure Answers (models : ReadModels (evidenceSchema F T)) (object : MigrationObject)
    (raw : String) (packet : EvidencePacket F T) : Prop where
  grown : models.Grown
  known : models.objects.get object.objectId = some object
  stored : models.packets.get packet.packetId = some packet
  only : ∀ key, LooksUnder object raw key → ∀ id,
    id ∈ models.indexedIds object.objectId .EvidencePacket (some key) ↔
      key = requestKey object raw ∧ id = packet.packetId

variable (h : Answers store.memory.toReadModels object raw packet)

include h

omit [TextCodec (LoggedEvent (evidenceSchema F T))] in
theorem Answers.find {key : String}
    (hkeys : ∀ key', key' ∈ valueKeyCandidates object key → LooksUnder object raw key')
    (hkey : requestKey object raw ∈ valueKeyCandidates object key) :
    findExistingPacket store.memory.toReadModels object (some key) = some packet := by
  refine findExistingPacket_eq_some (fun id => ?_) h.stored
  constructor
  · rintro ⟨key', hkey', hid⟩
    exact ((h.only key' (hkeys key' hkey') id).mp hid).2
  · rintro rfl
    exact ⟨_, hkey, (h.only _ (.inl rfl) _).mpr ⟨rfl, rfl⟩⟩

theorem Answers.build {env : BuildEnv T} {explanation : ValueExplanation F T}
    (hobject : explanation.locator.objectId = object.objectId)
    (hkey : explanation.locator.valueKey = requestKey object raw) :
    buildEvidencePacket libs signingKey env store explanation = (store, .ok packet) := by
  have hfind : findExistingPacket store.memory.toReadModels object
      (some (requestKey object raw)) = some packet :=
    h.find (fun key' hkey' => candidates_requestKey hkey') (mem_valueKeyCandidates.mpr (.inl rfl))
  unfold buildEvidencePacket
  simp only [hobject, hkey, h.known, Option.bind_some, hfind]

/-- **A request that finds a packet** returns it. -/
theorem Answers.request (env : RequestEnv T) :
    evidencePacketForObject libs signingKey env store object.objectId (some raw) =
      (store, .ok packet) := by
  unfold evidencePacketForObject
  simp only [h.known]
  by_cases hkey : requestKey object raw ∈ valueKeyCandidates object raw
  · rw [h.find (fun _ => .inr) hkey]
  · -- it is found when the value is explained
    have hnone : findExistingPacket store.memory.toReadModels object (some raw) = none := by
      refine findExistingPacket_eq_none fun key hcandidate => ?_
      refine List.eq_nil_iff_forall_not_mem.mpr fun id hid => hkey ?_
      rw [← ((h.only key (.inr hcandidate) id).mp hid).1]
      exact hcandidate
    have hgathered : gathered store.memory.toReadModels object.objectId .EvidencePacket
        (requestKey object raw) = [packet] := by
      refine gathered_singleton h.grown (fun id => ?_) h.stored
      rw [mem_packetIdsUnder h.grown, h.only _ (.inl rfl), and_iff_right rfl]
    rw [hnone]
    have hexplained : ∃ explanation : ValueExplanation F T,
        explanation.locator = requestLocator object raw ∧
          explainValue libs signingKey env store (requestLocator object raw) =
            (store, .ok explanation) := explainValue_of_packet hgathered
    obtain ⟨explanation, hlocator, hexplain⟩ := hexplained
    rw [requestLocator] at hexplain
    simp only [Option.getD_some, hexplain]
    exact h.build (by rw [hlocator]; rfl) (by rw [hlocator]; rfl)

/-- An event that has to do neither with the object, nor with the packet, nor with the value. -/
structure Leaves (event : Event (evidenceSchema F T)) (object : MigrationObject)
    (raw packetId : String) : Prop where
  value : ∀ key, LooksUnder object raw key → ∀ id,
    ¬ event.Notes object.objectId .EvidencePacket (some key) id
  packet : ∀ other, event.artifact .EvidencePacket = some other → other.packetId ≠ packetId
  object : ∀ other, event.artifact .Object = some other → other.objectId ≠ object.objectId

omit h

omit [TextCodec (LoggedEvent (evidenceSchema F T))] in
omit [LinearOrder T] in
theorem Answers.applyEvent {models : ReadModels (evidenceSchema F T)}
    {event : Event (evidenceSchema F T)} (h : Answers models object raw packet)
    (hleaves : Leaves event object raw packet.packetId) :
    Answers (models.applyEvent event) object raw packet := by
  have hget : ∀ (k : ArtifactType) (id : String),
      (∀ a, event.artifact k = some a → k.artifactId a ≠ id) →
        (k.store (models.applyEvent event)).get id = (k.store models).get id := by
    intro k id hother
    rw [store_applyEvent]
    cases hartifact : event.artifact k with
    | none => rfl
    | some a =>
      dsimp only
      rw [BTreeMap.get_insert, if_neg (Ne.symm (hother a hartifact))]
  constructor
  · obtain ⟨events, rfl⟩ := h.grown
    exact ⟨events ++ [event], by rw [List.foldl_append]; rfl⟩
  · exact (hget .Object _ hleaves.object).trans h.known
  · exact (hget .EvidencePacket _ hleaves.packet).trans h.stored
  · intro key hlooks id
    rw [mem_indexedIds_applyEvent, or_iff_left (hleaves.value key hlooks id), h.only key hlooks]

omit [LinearOrder T] in
theorem Answers.foldl {later : List (Call (evidenceSchema F T))}
    (h : Answers store.memory.toReadModels object raw packet)
    (hleaves : ∀ call ∈ later, ∀ event ∈ call.events, Leaves event object raw packet.packetId) :
    Answers (later.foldl ingestStep store).memory.toReadModels object raw packet := by
  refine List.foldlRecOn
    (motive := fun store => Answers store.memory.toReadModels object raw packet) later ingestStep h
    fun store hstore call hcall => ?_
  rw [memory_ingestStep]
  refine List.foldlRecOn (motive := fun models => Answers models object raw packet) _
    ReadModels.applyEvent hstore fun models hmodels event hevent => ?_
  exact hmodels.applyEvent (hleaves call hcall event (mem_of_mem_accept hevent))

end Again

/-! ## A new packet -/

section New

variable {F T K V : Type} [Float64 F] [Rfc3339 T] [LinearOrder T]
  [TextCodec (LoggedEvent (evidenceSchema F T))]
  {libs : SigningLibs F K V} {signingKey : K} {object : MigrationObject} {raw : String}

/-- Nothing is found yet. -/
def NoPacketYet (models : ReadModels (evidenceSchema F T)) (object : MigrationObject)
    (raw : String) : Prop :=
  ∀ key, LooksUnder object raw key →
    models.indexedIds object.objectId .EvidencePacket (some key) = []

omit [TextCodec (LoggedEvent (evidenceSchema F T))] in
omit [LinearOrder T] in
theorem noPacketYet_of_events {events : List (Event (evidenceSchema F T))}
    (h : ∀ event ∈ events, event.artifactType ≠ .EvidencePacket) :
    NoPacketYet (modelsOf events) object raw := by
  refine fun key _ => List.eq_nil_iff_forall_not_mem.mpr fun id hid => ?_
  rw [modelsOf, mem_indexedIds_foldl, ReadModels.Grown.indexedIds_default,
    or_iff_right List.not_mem_nil] at hid
  obtain ⟨event, hevent, hnotes⟩ := hid
  obtain ⟨a, ha, -⟩ := hnotes.artifact
  exact h event hevent (type_of_artifact ha)

/-- The packet has what the index has under the key and for the whole object. Maps may come in
another order. -/
structure Covers (models : ReadModels (evidenceSchema F T)) (o key : String)
    (packet : EvidencePacket F T) : Prop where
  rule : ∃ rule ∈ gathered models o .TransformationRule key,
    packet.transformationRule.map TransformationRule.sorted = some (TransformationRule.sorted rule)
  exceptions : (packet.exceptions.map ExceptionRecord.sorted).Perm
    ((gathered models o .ExceptionRecord key).map ExceptionRecord.sorted)
  controls : (packet.controls.map ControlResult.sorted).Perm
    ((gathered models o .ControlResult key).map ControlResult.sorted)
  approvals : (packet.approvals.map ApprovalEvent.sorted).Perm
    ((gathered models o .ApprovalEvent key).map ApprovalEvent.sorted)

/-- The key of the locator does for the value: it has a rule with its fields, which is one of the
value, and the same exceptions, controls and approvals. -/
structure KeyFits (models : ReadModels (evidenceSchema F T)) (object : MigrationObject)
    (raw : String) : Prop where
  rule : ∃ rule, pickRule (gathered models object.objectId .TransformationRule
      (requestKey object raw)) raw = some rule ∧
    rule.sourceFields ≠ [] ∧ rule.targetFields ≠ [] ∧
      rule.ruleId ∈ idsUnder models object.objectId .TransformationRule raw
  same : ∀ k ∈ collectedTypes, ∀ id,
    id ∈ idsUnder models object.objectId k (requestKey object raw) ↔
      id ∈ idsUnder models object.objectId k raw

def signedPacketOf (libs : SigningLibs F K V) (signingKey : K) (env : BuildEnv T)
    (explanation : ValueExplanation F T) : EvidencePacket F T :=
  (packetOf env explanation).signed libs signingKey env.signedAt

section Build

variable {env : BuildEnv T} {store : Store (evidenceSchema F T)}
  {explanation : ValueExplanation F T}

theorem buildEvidencePacket_new (hlibs : libs.Lawful)
    (hobject : explanation.locator.objectId = object.objectId)
    (hkey : explanation.locator.valueKey = requestKey object raw)
    (hknown : store.memory.objects.get object.objectId = some object)
    (hnone : NoPacketYet store.memory.toReadModels object raw) :
    let packet := signedPacketOf libs signingKey env explanation
    let call := packetCall env (requestKey object raw) packet
    buildEvidencePacket libs signingKey env store explanation =
      ((ingestEvents store call).1, (ingestEvents store call).2.map fun _ => packet) := by
  have hfind : findExistingPacket store.memory.toReadModels object
      (some (requestKey object raw)) = none :=
    findExistingPacket_eq_none fun key hcandidate => hnone key (candidates_requestKey hcandidate)
  have hverify : verifyEvidencePacketSignature libs
      ((packetOf env explanation).signed libs signingKey env.signedAt)
      (buildEvidencePacketSignature libs (packetOf env explanation) signingKey env.signedAt) =
        true :=
    verify_of_payload libs hlibs
      (canonicalPacketPayload_of_sorted (by rw [unsigned_signed]))
  unfold signed at hverify
  unfold buildEvidencePacket signedPacketOf signed
  simp only [hobject, hkey, hknown, Option.bind_some, hfind, hverify, if_true]

omit [TextCodec (LoggedEvent (evidenceSchema F T))] in
omit [LinearOrder T] in
theorem answers_applyEvent {models : ReadModels (evidenceSchema F T)}
    {packet : EvidencePacket F T} {event : Event (evidenceSchema F T)}
    (hgrown : models.Grown) (hknown : models.objects.get object.objectId = some object)
    (hnone : NoPacketYet models object raw) (hnamed : object.objectId ≠ "")
    (htype : event.artifactType = .EvidencePacket) (hobject : event.objectId = object.objectId)
    (hkey : event.valueKey = some (requestKey object raw))
    (hpacket : event.artifact .EvidencePacket = some packet) :
    Answers (models.applyEvent event) object raw packet := by
  have hindexed : event.isIndexed = true := by
    rw [isIndexed_iff, htype, hobject]
    exact ⟨by decide, hnamed⟩
  constructor
  · obtain ⟨events, rfl⟩ := hgrown
    exact ⟨events ++ [event], by rw [List.foldl_append]; rfl⟩
  · have hsame := store_applyEvent models event .Object
    rw [artifact_of_other (by rw [htype]; decide)] at hsame
    exact (congrArg (BTreeMap.get · object.objectId) hsame).trans hknown
  · have hsame := store_applyEvent models event .EvidencePacket
    rw [hpacket] at hsame
    refine (congrArg (BTreeMap.get · packet.packetId) hsame).trans ?_
    exact (BTreeMap.get_insert ..).trans (if_pos rfl)
  · intro key hlooks id
    rw [mem_indexedIds_applyEvent, hnone key hlooks, or_iff_right List.not_mem_nil]
    constructor
    · rintro ⟨-, -, -, a, ha, hnoted, rfl⟩
      rw [hpacket] at ha
      cases ha
      rw [hkey] at hnoted
      exact ⟨(Option.some.inj hnoted).symm, rfl⟩
    · rintro ⟨rfl, rfl⟩
      refine ⟨hindexed, hobject, by decide, packet, hpacket, ?_, rfl⟩
      rw [hkey]
      rfl

end Build

variable (libs signingKey) in
/-- What a request is to do for a value without a packet: make one that has the exceptions, the
controls, the approvals and the rule of the value, and that is found from then on. -/
def RequestCovered (env : RequestEnv T) (store : Store (evidenceSchema F T))
    (object : MigrationObject) (raw : String) : Prop :=
  ∃ store' packet,
    evidencePacketForObject libs signingKey env store object.objectId (some raw) =
      (store', .ok packet) ∧
    Covers store.memory.toReadModels object.objectId raw packet ∧
    ∀ later : List (Call (evidenceSchema F T)),
      (∀ call ∈ later, ∀ event ∈ call.events, Leaves event object raw packet.packetId) →
        ∀ env', ∃ packet', (evidencePacketForObject libs signingKey env'
          (later.foldl ingestStep store') object.objectId (some raw)).2 = .ok packet' ∧
            packet'.packetId = packet.packetId

/-! ### Requests for a value without a packet -/

variable {env : RequestEnv T} {store : Store (evidenceSchema F T)}

omit [TextCodec (LoggedEvent (evidenceSchema F T))] in
omit [LinearOrder T] in
theorem NoPacketYet.gathered_eq_nil (h : NoPacketYet store.memory.toReadModels object raw)
    (hgrown : store.memory.toReadModels.Grown) :
    gathered store.memory.toReadModels object.objectId .EvidencePacket (requestKey object raw) =
      [] := by
  refine Traceability.gathered_eq_nil fun id => ?_
  rw [mem_packetIdsUnder hgrown, h _ (.inl rfl)]
  exact List.not_mem_nil

section Explained

variable (hknown : store.memory.objects.get object.objectId = some object)
  (hnone : NoPacketYet store.memory.toReadModels object raw)
  {store' : Store (evidenceSchema F T)}

include hknown hnone

theorem request_of_error {e : String}
    (h : explainValue libs signingKey env store (requestLocator object raw) = (store', .error e)) :
    evidencePacketForObject libs signingKey env store object.objectId (some raw) =
      (store', .error e) := by
  have hfind : findExistingPacket store.memory.toReadModels object (some raw) = none :=
    findExistingPacket_eq_none fun key hcandidate => hnone key (.inr hcandidate)
  unfold requestLocator at h
  unfold evidencePacketForObject
  simp only [hknown, hfind, Option.getD_some, h]

theorem request_of_explanation {explanation : ValueExplanation F T}
    (h : explainValue libs signingKey env store (requestLocator object raw) =
      (store', .ok explanation)) :
    evidencePacketForObject libs signingKey env store object.objectId (some raw) =
      buildEvidencePacket libs signingKey env.build store' explanation := by
  have hfind : findExistingPacket store.memory.toReadModels object (some raw) = none :=
    findExistingPacket_eq_none fun key hcandidate => hnone key (.inr hcandidate)
  unfold requestLocator at h
  unfold evidencePacketForObject
  simp only [hknown, hfind, Option.getD_some, h]

end Explained

omit [TextCodec (LoggedEvent (evidenceSchema F T))] in
omit [LinearOrder T] in
theorem idsUnder_named {models : ReadModels (evidenceSchema F T)} (hgrown : models.Grown)
    {o key id : String} {k : ArtifactType} (h : id ∈ idsUnder models o k key) : o ≠ "" := by
  rcases List.mem_append.mp h with hid | hid <;> exact (hgrown.stored_of_indexed hid).2.1

def newPacket (libs : SigningLibs F K V) (signingKey : K) (env : RequestEnv T)
    (models : ReadModels (evidenceSchema F T)) (object : MigrationObject) (raw : String)
    (rule : TransformationRule F) (sourceField targetField : FieldRef) : EvidencePacket F T :=
  signedPacketOf libs signingKey env.explain
    (explanationBy env models (requestLocator object raw) rule sourceField targetField)

variable {rule : TransformationRule F}

omit [TextCodec (LoggedEvent (evidenceSchema F T))] in
theorem newPacket_fromJson (hgrown : store.memory.toReadModels.Grown)
    {sourceField targetField : FieldRef}
    (hrule : rule ∈ gathered store.memory.toReadModels object.objectId .TransformationRule
      (requestKey object raw)) :
    (newPacket libs signingKey env store.memory.toReadModels object raw rule sourceField
      targetField).FromJson := by
  have hread : ∀ (k : ArtifactType) a, a ∈ gathered store.memory.toReadModels object.objectId k
      (requestKey object raw) → ∃ v, k.parse (S := evidenceSchema F T) v = some a := by
    intro k a ha
    exact (hgrown.filed ((mem_gathered hgrown).mp ha).2).2
  refine ⟨fun a ha => ?_, hread .ExceptionRecord, hread .ControlResult⟩
  cases Option.some.inj ha
  exact hread .TransformationRule rule hrule

variable (signingKey) in
/-- **A rule with its fields makes a packet**, if its write goes through. -/
theorem request_of_rule (hlibs : libs.Lawful) (hgrown : store.memory.toReadModels.Grown)
    (hknown : store.memory.objects.get object.objectId = some object)
    (hfresh : store.memory.processedEventIds.get env.explain.eventId = none)
    (hnone : NoPacketYet store.memory.toReadModels object raw) {sourceField targetField : FieldRef}
    (hrule : pickRule (gathered store.memory.toReadModels object.objectId .TransformationRule
      (requestKey object raw)) raw = some rule)
    (hsource : rule.sourceFields.head? = some sourceField)
    (htarget : pickTargetField rule raw = some targetField) :
    let packet := newPacket libs signingKey env store.memory.toReadModels object raw rule
      sourceField targetField
    let store' := (ingestEvents store (packetCall env.explain (requestKey object raw) packet)).1
    (env.explain.writes = false → ∃ e, evidencePacketForObject libs signingKey env store
      object.objectId (some raw) = (store', .error e)) ∧
    (env.explain.writes = true → evidencePacketForObject libs signingKey env store
      object.objectId (some raw) = (store', .ok packet.sorted) ∧
        Answers store'.memory.toReadModels object raw packet.sorted) := by
  intro packet store'
  have hexplain : explainValue libs signingKey env store (requestLocator object raw) =
      ((buildEvidencePacket libs signingKey env.explain store _).1,
        (buildEvidencePacket libs signingKey env.explain store _).2.map _) :=
    explainValue_of_rule (hnone.gathered_eq_nil hgrown) hrule hsource htarget
  have hbuild : buildEvidencePacket libs signingKey env.explain store (explanationBy env
      store.memory.toReadModels (requestLocator object raw) rule sourceField targetField) =
        (store', (ingestEvents store (packetCall env.explain (requestKey object raw) packet)).2.map
          fun _ => packet) :=
    buildEvidencePacket_new hlibs rfl rfl hknown hnone
  rw [hbuild] at hexplain
  constructor
  · intro hwrites
    have hfailed : ∃ e, (ingestEvents store
        (packetCall env.explain (requestKey object raw) packet)).2 = .error e :=
      ingestEvents_result_of_failure hwrites
    obtain ⟨e, he⟩ := hfailed
    rw [he] at hexplain
    exact ⟨e, request_of_error hknown hnone hexplain⟩
  · intro hwrites
    have hwritten : ∃ r, (ingestEvents store
        (packetCall env.explain (requestKey object raw) packet)).2 = .ok r :=
      ingestEvents_result_of_write hwrites
    obtain ⟨r, hr⟩ := hwritten
    rw [hr] at hexplain
    have hmem := mem_of_pickRule hrule
    have hread : serde.fromValue (serde.toValue packet) =
        some packet.sorted := (newPacket_fromJson hgrown hmem).read
    have hanswers : Answers store'.memory.toReadModels object raw packet.sorted := by
      rw [models_ingest_fresh rfl hfresh]
      exact answers_applyEvent hgrown hknown hnone
        (idsUnder_named hgrown ((mem_gathered hgrown).mp hmem).1) rfl rfl rfl hread
    refine ⟨?_, hanswers⟩
    rw [request_of_explanation hknown hnone hexplain]
    exact hanswers.build rfl rfl

omit [LinearOrder T] [Float64 F] [Rfc3339 T] in
theorem map_sorted_sorted (packet : EvidencePacket F T) :
    packet.sorted.transformationRule.map TransformationRule.sorted =
        packet.transformationRule.map TransformationRule.sorted ∧
      packet.sorted.exceptions.map ExceptionRecord.sorted =
        packet.exceptions.map ExceptionRecord.sorted ∧
      packet.sorted.controls.map ControlResult.sorted =
        packet.controls.map ControlResult.sorted ∧
      packet.sorted.approvals.map ApprovalEvent.sorted =
        packet.approvals.map ApprovalEvent.sorted := by
  simp [sorted, Function.comp_def, TransformationRule.sorted_sorted,
    ExceptionRecord.sorted_sorted, ControlResult.sorted_sorted, ApprovalEvent.sorted_sorted]

omit [TextCodec (LoggedEvent (evidenceSchema F T))] in
omit [LinearOrder T] in
theorem covers_sorted_iff {models : ReadModels (evidenceSchema F T)} (hgrown : models.Grown)
    {packet : EvidencePacket F T} {o : String} {key key' : String}
    (hrule : packet.transformationRule = some rule)
    (hmem : rule ∈ gathered models o .TransformationRule key')
    (hexceptions : packet.exceptions = gathered models o .ExceptionRecord key')
    (hcontrols : packet.controls = gathered models o .ControlResult key')
    (happrovals : packet.approvals = gathered models o .ApprovalEvent key') :
    Covers models o key packet.sorted ↔ rule.ruleId ∈ idsUnder models o .TransformationRule key ∧
      ∀ k ∈ collectedTypes, ∀ id, id ∈ idsUnder models o k key' ↔ id ∈ idsUnder models o k key := by
  obtain ⟨hrule', hexceptions', hcontrols', happrovals'⟩ := map_sorted_sorted packet
  rw [hrule, Option.map_some] at hrule'
  rw [hexceptions] at hexceptions'
  rw [hcontrols] at hcontrols'
  rw [happrovals] at happrovals'
  constructor
  · rintro ⟨⟨rule', hmem', heq⟩, hexceptions, hcontrols, happrovals⟩
    rw [hrule'] at heq
    rw [hexceptions'] at hexceptions
    rw [hcontrols'] at hcontrols
    rw [happrovals'] at happrovals
    have hsorted := Option.some.inj heq
    have hid : rule.ruleId = rule'.ruleId := by
      show rule.sorted.ruleId = rule'.ruleId
      rw [hsorted]
      rfl
    refine ⟨hid ▸ ((mem_gathered hgrown).mp hmem').1, List.forall_mem_cons.mpr ⟨?_,
      List.forall_mem_cons.mpr ⟨?_, List.forall_mem_singleton.mpr ?_⟩⟩⟩
    · exact (gathered_perm_iff (k := .ControlResult) hgrown ControlResult.sorted
        ControlResult.controlId fun _ => rfl).mp hcontrols
    · exact (gathered_perm_iff (k := .ExceptionRecord) hgrown ExceptionRecord.sorted
        ExceptionRecord.exceptionId fun _ => rfl).mp hexceptions
    · exact (gathered_perm_iff (k := .ApprovalEvent) hgrown ApprovalEvent.sorted
        ApprovalEvent.approvalId fun _ => rfl).mp happrovals
  · rintro ⟨hid, hsame⟩
    refine ⟨⟨rule, (mem_gathered hgrown).mpr ⟨hid, ((mem_gathered hgrown).mp hmem).2⟩, hrule'⟩,
      ?_, ?_, ?_⟩
    · rw [hexceptions']
      exact (gathered_perm_iff (k := .ExceptionRecord) hgrown ExceptionRecord.sorted
        ExceptionRecord.exceptionId fun _ => rfl).mpr (hsame _ (by decide))
    · rw [hcontrols']
      exact (gathered_perm_iff (k := .ControlResult) hgrown ControlResult.sorted
        ControlResult.controlId fun _ => rfl).mpr (hsame _ (by decide))
    · rw [happrovals']
      exact (gathered_perm_iff (k := .ApprovalEvent) hgrown ApprovalEvent.sorted
        ApprovalEvent.approvalId fun _ => rfl).mpr (hsame _ (by decide))

/-- **When a request makes a packet that covers its value.** -/
theorem requestCovered_iff (hlibs : libs.Lawful) (hgrown : store.memory.toReadModels.Grown)
    (hknown : store.memory.objects.get object.objectId = some object)
    (hfresh : store.memory.processedEventIds.get env.explain.eventId = none)
    (hnone : NoPacketYet store.memory.toReadModels object raw) :
    RequestCovered libs signingKey env store object raw ↔
      env.explain.writes = true ∧ KeyFits store.memory.toReadModels object raw := by
  by_cases hpick : ∃ rule, pickRule (gathered store.memory.toReadModels object.objectId
      .TransformationRule (requestKey object raw)) raw = some rule ∧
        rule.sourceFields ≠ [] ∧ rule.targetFields ≠ []
  · obtain ⟨rule, hrule, hsource, htarget⟩ := hpick
    obtain ⟨sourceField, hsource'⟩ := Option.isSome_iff_exists.mp (List.isSome_head?.mpr hsource)
    have htarget' : ∃ targetField, pickTargetField rule raw = some targetField := by
      rwa [← Option.ne_none_iff_exists', Ne, pickTargetField_eq_none]
    obtain ⟨targetField, htarget'⟩ := htarget'
    obtain ⟨hfailed, hwritten⟩ :=
      request_of_rule signingKey hlibs hgrown hknown hfresh hnone hrule hsource' htarget'
    cases hwrites : env.explain.writes with
    | false =>
      refine iff_of_false ?_ fun h => Bool.false_ne_true h.1
      rintro ⟨store', packet, hrequest, -⟩
      obtain ⟨e, he⟩ := hfailed hwrites
      rw [he] at hrequest
      cases hrequest
    | true =>
      obtain ⟨hrequest, hanswers⟩ := hwritten hwrites
      have hcovers : Covers store.memory.toReadModels object.objectId raw (newPacket libs signingKey
          env store.memory.toReadModels object raw rule sourceField targetField).sorted ↔ _ :=
        covers_sorted_iff hgrown rfl (mem_of_pickRule hrule) rfl rfl rfl
      rw [and_iff_right rfl]
      constructor
      · rintro ⟨store', packet, hok, hpacket, -⟩
        rw [hrequest] at hok
        cases hok
        obtain ⟨hid, hsame⟩ := hcovers.mp hpacket
        exact ⟨⟨rule, hrule, hsource, htarget, hid⟩, hsame⟩
      · rintro ⟨⟨rule', hrule', -, -, hid⟩, hsame⟩
        cases Option.some.inj (hrule.symm.trans hrule')
        refine ⟨_, _, hrequest, hcovers.mpr ⟨hid, hsame⟩, fun later hleaves env' => ?_⟩
        exact ⟨_, congrArg Prod.snd ((hanswers.foldl hleaves).request env'), rfl⟩
  · have herror : ∃ e, explainValue libs signingKey env store (requestLocator object raw) =
        (store, .error e) := by
      refine explainValue_error (hnone.gathered_eq_nil hgrown) fun rule hrule => ?_
      by_contra hfields
      exact hpick ⟨rule, hrule, not_or.mp hfields⟩
    obtain ⟨e, he⟩ := herror
    refine iff_of_false ?_ ?_
    · rintro ⟨store', packet, hrequest, -⟩
      rw [request_of_error hknown hnone he] at hrequest
      cases hrequest
    · rintro ⟨-, ⟨rule, hrule, hsource, htarget, -⟩, -⟩
      exact hpick ⟨rule, hrule, hsource, htarget⟩

/-- **When a new packet covers the value that it was requested for**: when the key of the locator
does for it, and the write goes through. -/
theorem packet_covers_iff (hlibs : libs.Lawful) (signingKey : K)
    (events : List (Event (evidenceSchema F T))) (store : Store (evidenceSchema F T))
    (hmodels : store.memory.toReadModels = modelsOf events) (env : RequestEnv T)
    (object : MigrationObject) (raw : String)
    (hknown : store.memory.objects.get object.objectId = some object)
    (hfresh : store.memory.processedEventIds.get env.explain.eventId = none)
    (hnone : NoPacketYet store.memory.toReadModels object raw) :
    RequestCovered libs signingKey env store object raw ↔
      env.explain.writes = true ∧ KeyFits (modelsOf events) object raw := by
  rw [← hmodels]
  exact requestCovered_iff hlibs ⟨events, hmodels⟩ hknown hfresh hnone

def RuleIngested (events : List (Event (evidenceSchema F T))) (o key : String) : Prop :=
  ∃ event ∈ events, event.isIndexed = true ∧ event.objectId = o ∧ event.valueKey = some key ∧
    ∃ rule : TransformationRule F, event.artifact .TransformationRule = some rule ∧
      rule.sourceFields ≠ [] ∧ rule.targetFields ≠ []

end New

/-! ### A key with the record in front -/

instance : LinearOrder TimeText :=
  LinearOrder.lift' TimeText.text fun _ _ h => congrArg TimeText.mk h

def sampleObject : MigrationObject where
  objectId := "object-1"
  programId := "program-1"
  objectType := .BusinessObject
  name := "Sales order"
  description := none
  sourceRecordId := none
  targetRecordId := some "SO-1"
  tags := []
  metadata := .empty

def sampleRule : TransformationRule Int where
  ruleId := "rule-1"
  ruleType := .Mapping
  name := "Net amount"
  description := none
  sourceFields := [sampleField "ECC"]
  targetFields := [sampleField "S4"]
  expression := none
  filterPredicate := none
  defaultValue := none
  aggregation := none
  metadata := .empty

def sampleApproval : ApprovalEvent TimeText where
  approvalId := "approval-1"
  programId := "program-1"
  objectId := "object-1"
  approverRole := "owner"
  approverId := "user-1"
  status := .Approved
  comment := none
  approvedAt := sampleTime
  evidenceRefs := []
  attestationRef := none
  metadata := .empty

/-- An object with a target record, a rule, and evidence that is for the whole object. -/
def sampleCall (ruleKey : Option String) : Call (evidenceSchema Int TimeText) where
  events := [
    ⟨"event-1", "program-1", "object-1", .Object, none, MigrationObject.serde.toValue sampleObject⟩,
    ⟨"event-2", "program-1", "object-1", .TransformationRule, ruleKey,
      TransformationRule.serde.toValue sampleRule⟩,
    ⟨"event-4", "program-1", "object-1", .ExceptionRecord, none,
      ExceptionRecord.serde.toValue (sampleException none)⟩,
    ⟨"event-5", "program-1", "object-1", .ControlResult, none,
      ControlResult.serde.toValue sampleControl⟩,
    ⟨"event-6", "program-1", "object-1", .ApprovalEvent, none,
      ApprovalEvent.serde.toValue sampleApproval⟩]
  persistedAt _ := 0
  now := 0
  writes := true

instance : TextCodec (LoggedEvent (evidenceSchema Int TimeText)) := .ofTable LoggedEvent.label
  (logged 0 (fun _ => 0) ((sampleCall none).events ++ (sampleCall "SO-1::$.amount").events))

def sampleBuild : BuildEnv TimeText where
  packetId := "1"
  generatedAt := sampleTime
  signedAt := sampleTime
  eventId := "event-3"
  persistedAt _ := 0
  now := 0
  writes := true

def sampleEnv : RequestEnv TimeText where
  explanationId := "explanation-1"
  explainedAt := sampleTime
  explain := sampleBuild
  build := sampleBuild

def sampleStore (ruleKey : Option String) : Store (evidenceSchema Int TimeText) :=
  ingestAll 0 [sampleCall ruleKey]

def sampleEvidenceLibs : SigningLibs Int (FixedBytes 32) (FixedBytes 32) := sampleLibs [] .null

theorem noPacketYet_sampleStore (ruleKey : Option String) (raw : String) :
    NoPacketYet (sampleStore ruleKey).memory.toReadModels sampleObject raw := by
  have hmodels := (memory_ingestAll 0 [sampleCall ruleKey]).1
  have htypes : ∀ k ∈ [ArtifactType.Object, .TransformationRule, .ExceptionRecord, .ControlResult,
      .ApprovalEvent], k ≠ .EvidencePacket := by decide
  rw [sampleStore, hmodels]
  exact noPacketYet_of_events fun event hevent =>
    htypes _ (List.mem_map_of_mem (f := (·.artifactType)) (mem_of_mem_accept hevent))

/-- The rule is for the whole object too. -/
theorem packet_covers_amount : RequestCovered sampleEvidenceLibs sampleKey sampleEnv
    (sampleStore none) sampleObject "$.amount" := by
  refine (packet_covers_iff (sampleLibs_lawful _ _) sampleKey (ingestedEvents [sampleCall none])
    (sampleStore none) (memory_ingestAll 0 _).1 sampleEnv sampleObject "$.amount" rfl rfl
    (noPacketYet_sampleStore none "$.amount")).mpr
    ⟨rfl, ⟨sampleRule, rfl, List.cons_ne_nil _ _, List.cons_ne_nil _ _, by decide⟩, ?_⟩
  simp only [collectedTypes, List.forall_mem_cons]
  exact ⟨fun id => .rfl, fun id => .rfl, fun id => .rfl, List.forall_mem_nil _⟩

/-- The rule is for the key with the record of the object in front, and so is the request. The
locator puts the record in front once more. -/
theorem record_twice_in_front : ¬ ∀ (F T K V : Type) [Float64 F] [Rfc3339 T] [LinearOrder T]
    [TextCodec (LoggedEvent (evidenceSchema F T))] (libs : SigningLibs F K V) (signingKey : K) (now : Time)
    (calls : List (Call (evidenceSchema F T))) (env : RequestEnv T) (object : MigrationObject)
    (raw : String),
    let store := ingestAll now calls
    libs.Lawful → store.memory.objects.get object.objectId = some object →
      store.memory.processedEventIds.get env.explain.eventId = none →
      env.explain.writes = true → NoPacketYet store.memory.toReadModels object raw →
      RuleIngested (ingestedEvents calls) object.objectId raw →
        RequestCovered libs signingKey env store object raw := by
  intro h
  have hnone := noPacketYet_sampleStore (some "SO-1::$.amount") "SO-1::$.amount"
  have hrule : RuleIngested (ingestedEvents [sampleCall (some "SO-1::$.amount")])
      "object-1" "SO-1::$.amount" :=
    ⟨_, .tail _ (.head _), rfl, rfl, rfl, sampleRule, rfl, List.cons_ne_nil _ _,
      List.cons_ne_nil _ _⟩
  have hgrown : (sampleStore (some "SO-1::$.amount")).memory.toReadModels.Grown :=
    ⟨_, (memory_ingestAll 0 _).1⟩
  have hcovered := h Int TimeText _ _ sampleEvidenceLibs sampleKey 0
    [sampleCall (some "SO-1::$.amount")] sampleEnv sampleObject
    "SO-1::$.amount" (sampleLibs_lawful _ _) rfl rfl rfl hnone hrule
  have hfits := (requestCovered_iff (sampleLibs_lawful _ _) hgrown rfl rfl hnone).mp hcovered
  obtain ⟨-, ⟨rule, hpicked, -⟩, -⟩ := hfits
  have hpick : pickRule (gathered (sampleStore (some "SO-1::$.amount")).memory.toReadModels
    "object-1" .TransformationRule "SO-1::SO-1::$.amount") "SO-1::$.amount" = none := rfl
  cases hpick.symm.trans hpicked

end Arcxa.Traceability
