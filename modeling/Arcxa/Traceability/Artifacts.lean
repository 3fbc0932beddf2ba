import Arcxa.Lib.Transition
import Arcxa.Traceability.State

/-!
# What the read models hold

The read models seen from outside: the artifacts of each type by their ids, the ids that the index
of an object has for a type and a value, the objects of a program. An event adds its artifact, one
id to one place of one index, and one object to one program (`get_store_applyEvent`,
`mem_indexedIds_applyEvent`, `mem_linkedObjects_applyEvent`), so that read models are known from
the events that were applied, in whatever order.
-/

namespace Arcxa.Traceability

open ArtifactType ReadModels BTreeMap

variable {S : Schema}

/-! ## Types of artifacts -/

namespace ArtifactType

def Artifact (S : Schema) : ArtifactType → Type
  | .Program => S.Program
  | .Object => S.Object
  | .TransformationRule => S.Rule
  | .ExecutionEvent => S.Execution
  | .ExceptionRecord => S.Exception
  | .ControlResult => S.Control
  | .ApprovalEvent => S.Approval
  | .EvidencePacket => S.Packet

def parse : (k : ArtifactType) → S.Payload → Option (k.Artifact S)
  | .Program => S.program
  | .Object => S.object
  | .TransformationRule => S.rule
  | .ExecutionEvent => S.execution
  | .ExceptionRecord => S.exception
  | .ControlResult => S.control
  | .ApprovalEvent => S.approval
  | .EvidencePacket => S.packet

def artifactId : (k : ArtifactType) → k.Artifact S → String
  | .Program => S.programId
  | .Object => S.objectId
  | .TransformationRule => S.ruleId
  | .ExecutionEvent => S.executionId
  | .ExceptionRecord => S.exceptionId
  | .ControlResult => S.controlId
  | .ApprovalEvent => S.approvalId
  | .EvidencePacket => S.packetId

def store : (k : ArtifactType) → ReadModels S → BTreeMap String (k.Artifact S)
  | .Program => ReadModels.programs
  | .Object => ReadModels.objects
  | .TransformationRule => ReadModels.rules
  | .ExecutionEvent => ReadModels.executions
  | .ExceptionRecord => ReadModels.exceptions
  | .ControlResult => ReadModels.controls
  | .ApprovalEvent => ReadModels.approvals
  | .EvidencePacket => ReadModels.packets

def noteKey : (k : ArtifactType) → k.Artifact S → Option String → Option String
  | .EvidencePacket => fun packet valueKey => some (valueKey.getD (S.packetValueKey packet))
  | _ => fun _ valueKey => valueKey

end ArtifactType

namespace ObjectIndex

def valueKeyIds : ArtifactType → ObjectIndex → BTreeMap String (List String)
  | .TransformationRule => valueKeyRules
  | .ExecutionEvent => valueKeyExecutionIds
  | .ExceptionRecord => valueKeyExceptionIds
  | .ControlResult => valueKeyControlIds
  | .ApprovalEvent => valueKeyApprovalIds
  | .EvidencePacket => valueKeyPacketIds
  | .Program | .Object => fun _ => .empty

def objectLevelIds : ArtifactType → ObjectIndex → List String
  | .TransformationRule => objectLevelRuleIds
  | .ExecutionEvent => objectLevelExecutionIds
  | .ExceptionRecord => objectLevelExceptionIds
  | .ControlResult => objectLevelControlIds
  | .ApprovalEvent => objectLevelApprovalIds
  | .EvidencePacket => objectLevelPacketIds
  | .Program | .Object => fun _ => []

def ids (index : ObjectIndex) (k : ArtifactType) : Option String → List String
  | some key => ((index.valueKeyIds k).get key).getD []
  | none => index.objectLevelIds k

end ObjectIndex

namespace ReadModels

def indexedIds (models : ReadModels S) (objectId : String) (k : ArtifactType)
    (key : Option String) : List String :=
  ((models.objectIndexes.get objectId).getD .default).ids k key

def linkedObjects (models : ReadModels S) (programId : String) : List String :=
  (models.programToObjects.get programId).getD []

end ReadModels

def Event.artifact (event : Event S) (k : ArtifactType) : Option (k.Artifact S) :=
  if event.artifactType = k then k.parse event.payload else none

/-- The event notes an id in the index of an object. -/
structure Event.Notes (event : Event S) (objectId : String) (k : ArtifactType)
    (key : Option String) (id : String) : Prop where
  indexed : event.isIndexed = true
  object : event.objectId = objectId
  noted : k ≠ .Object
  artifact : ∃ a, event.artifact k = some a ∧ k.noteKey a event.valueKey = key ∧
    k.artifactId a = id

/-- The event links an object to a program. -/
structure Event.Links (event : Event S) (programId objectId : String) : Prop where
  indexed : event.isIndexed = true
  program : event.programId = programId
  object : event.objectId = objectId

/-! ## One event -/

theorem mem_pushUnique {items : List String} {value id : String} :
    id ∈ pushUnique items value ↔ id ∈ items ∨ value = id := by
  unfold pushUnique
  split_ifs with h
  · exact ⟨.inl, fun hid => hid.elim (fun hmem => hmem) fun heq => heq ▸ h⟩
  · rw [List.mem_append, List.mem_singleton, eq_comm (a := id)]

variable {k : ArtifactType} {event : Event S}

theorem artifact_of_type (h : event.artifactType = k) :
    event.artifact k = k.parse event.payload := if_pos h

theorem artifact_of_other (h : event.artifactType ≠ k) :
    event.artifact k = none := if_neg h

theorem type_of_artifact {a : k.Artifact S}
    (h : event.artifact k = some a) : event.artifactType = k := by
  by_contra hne
  rw [artifact_of_other hne] at h
  cases h

theorem isIndexed_iff :
    event.isIndexed = true ↔ event.artifactType ≠ .Program ∧ event.objectId ≠ "" := by
  simp [Event.isIndexed]

section Stores

variable (models : ReadModels S) (event : Event S) (k : ArtifactType)

theorem store_addObject : k.store (models.addObject event) = k.store models := by
  unfold addObject
  split_ifs
  · cases k <;> rfl
  · rfl

theorem store_onIndex (change : ObjectIndex → ObjectIndex) :
    k.store (models.onIndex event change) = k.store models := by
  unfold onIndex
  split_ifs
  · cases k <;> rfl
  · rfl

/-- **An event files its artifact under its id.** -/
theorem store_applyEvent : k.store (models.applyEvent event) =
    match event.artifact k with
    | none => k.store models
    | some a => (k.store models).insert (k.artifactId a) a := by
  rw [← store_addObject models event k]
  unfold applyEvent Event.artifact
  generalize models.addObject event = models'
  cases htype : event.artifactType with
  | Program =>
    cases hparse : S.program event.payload with
    | none => cases k <;> simp only [parse, hparse] <;> rfl
    | some program => cases k <;> simp only [parse, hparse] <;> rfl
  | Object =>
    cases hparse : S.object event.payload with
    | none => cases k <;> simp only [parse, hparse] <;> rfl
    | some object => cases k <;> simp only [parse, hparse] <;> rfl
  | TransformationRule =>
    cases hparse : S.rule event.payload with
    | none => cases k <;> simp only [parse, hparse] <;> rfl
    | some rule =>
      rw [← store_onIndex models' event k (.noteRule event.valueKey (S.ruleId rule))]
      cases k <;> simp only [parse, hparse] <;> rfl
  | ExecutionEvent =>
    cases hparse : S.execution event.payload with
    | none => cases k <;> simp only [parse, hparse] <;> rfl
    | some execution =>
      rw [← store_onIndex models' event k (.noteExecution event.valueKey (S.executionId execution))]
      cases k <;> simp only [parse, hparse] <;> rfl
  | ExceptionRecord =>
    cases hparse : S.exception event.payload with
    | none => cases k <;> simp only [parse, hparse] <;> rfl
    | some exception =>
      rw [← store_onIndex models' event k (.noteException event.valueKey (S.exceptionId exception))]
      cases k <;> simp only [parse, hparse] <;> rfl
  | ControlResult =>
    cases hparse : S.control event.payload with
    | none => cases k <;> simp only [parse, hparse] <;> rfl
    | some control =>
      rw [← store_onIndex models' event k (.noteControl event.valueKey (S.controlId control))]
      cases k <;> simp only [parse, hparse] <;> rfl
  | ApprovalEvent =>
    cases hparse : S.approval event.payload with
    | none => cases k <;> simp only [parse, hparse] <;> rfl
    | some approval =>
      rw [← store_onIndex models' event k (.noteApproval event.valueKey (S.approvalId approval))]
      cases k <;> simp only [parse, hparse] <;> rfl
  | EvidencePacket =>
    cases hparse : S.packet event.payload with
    | none => cases k <;> simp only [parse, hparse] <;> rfl
    | some packet =>
      rw [← store_onIndex models' event k
        (.notePacket event.valueKey (S.packetValueKey packet) (S.packetId packet))]
      cases k <;> simp only [parse, hparse] <;> rfl

end Stores

/-! ### Indexes and links -/

namespace ObjectIndex

theorem mem_ids_note {k₀ : ArtifactType}
    {keyed : (BTreeMap String (List String) → BTreeMap String (List String)) →
      ObjectIndex → ObjectIndex}
    {level : (List String → List String) → ObjectIndex → ObjectIndex}
    (hkeyed : ∀ f index k, (keyed f index).valueKeyIds k =
      if k = k₀ then f (index.valueKeyIds k) else index.valueKeyIds k)
    (hkeyed' : ∀ f index k, (keyed f index).objectLevelIds k = index.objectLevelIds k)
    (hlevel : ∀ f index k, (level f index).objectLevelIds k =
      if k = k₀ then f (index.objectLevelIds k) else index.objectLevelIds k)
    (hlevel' : ∀ f index k, (level f index).valueKeyIds k = index.valueKeyIds k)
    (valueKey : Option String) (id₀ : String) (index : ObjectIndex) (k : ArtifactType)
    (key : Option String) (id : String) :
    id ∈ (note keyed level valueKey id₀ index).ids k key ↔
      id ∈ index.ids k key ∨ (k = k₀ ∧ valueKey = key ∧ id₀ = id) := by
  cases valueKey with
  | none =>
    cases key with
    | none =>
      show id ∈ (level _ index).objectLevelIds k ↔ id ∈ index.objectLevelIds k ∨ _
      rw [hlevel]
      split_ifs with hk
      · rw [mem_pushUnique]
        simp [hk]
      · simp [hk]
    | some key =>
      show id ∈ (((level _ index).valueKeyIds k).get key).getD [] ↔ _
      rw [hlevel']
      exact (or_iff_left fun h => nomatch h.2.1).symm
  | some key₀ =>
    cases key with
    | none =>
      show id ∈ (keyed _ index).objectLevelIds k ↔ _
      rw [hkeyed']
      exact (or_iff_left fun h => nomatch h.2.1).symm
    | some key =>
      show id ∈ (((keyed _ index).valueKeyIds k).get key).getD [] ↔
        id ∈ ((index.valueKeyIds k).get key).getD [] ∨ _
      rw [hkeyed]
      split_ifs with hk
      · rw [get_upsert]
        split_ifs with hkey
        · rw [Option.getD_some, mem_pushUnique, hkey]
          simp [hk]
        · simp [Ne.symm hkey]
      · simp [hk]

variable (valueKey : Option String) (id₀ : String) (index : ObjectIndex) (k : ArtifactType)
  (key : Option String) (id : String)

theorem mem_ids_noteRule : id ∈ (noteRule valueKey id₀ index).ids k key ↔
    id ∈ index.ids k key ∨ (k = .TransformationRule ∧ valueKey = key ∧ id₀ = id) := by
  apply mem_ids_note <;> intro f index k <;> cases k <;> rfl

theorem mem_ids_noteExecution : id ∈ (noteExecution valueKey id₀ index).ids k key ↔
    id ∈ index.ids k key ∨ (k = .ExecutionEvent ∧ valueKey = key ∧ id₀ = id) := by
  apply mem_ids_note <;> intro f index k <;> cases k <;> rfl

theorem mem_ids_noteException : id ∈ (noteException valueKey id₀ index).ids k key ↔
    id ∈ index.ids k key ∨ (k = .ExceptionRecord ∧ valueKey = key ∧ id₀ = id) := by
  apply mem_ids_note <;> intro f index k <;> cases k <;> rfl

theorem mem_ids_noteControl : id ∈ (noteControl valueKey id₀ index).ids k key ↔
    id ∈ index.ids k key ∨ (k = .ControlResult ∧ valueKey = key ∧ id₀ = id) := by
  apply mem_ids_note <;> intro f index k <;> cases k <;> rfl

theorem mem_ids_noteApproval : id ∈ (noteApproval valueKey id₀ index).ids k key ↔
    id ∈ index.ids k key ∨ (k = .ApprovalEvent ∧ valueKey = key ∧ id₀ = id) := by
  apply mem_ids_note <;> intro f index k <;> cases k <;> rfl

theorem mem_ids_notePacket (ownKey : String) :
    id ∈ (notePacket valueKey ownKey id₀ index).ids k key ↔ id ∈ index.ids k key ∨
      (k = .EvidencePacket ∧ some (valueKey.getD ownKey) = key ∧ id₀ = id) := by
  cases key with
  | none => cases k <;> exact (or_iff_left fun h => nomatch h.2.1).symm
  | some key =>
    by_cases hk : k = .EvidencePacket
    · subst hk
      show id ∈ ((index.valueKeyPacketIds.upsert _ _).get key).getD [] ↔
        id ∈ (index.valueKeyPacketIds.get key).getD [] ∨ _
      rw [get_upsert]
      split_ifs with hkey
      · rw [Option.getD_some, mem_pushUnique, hkey]
        simp
      · simp [Ne.symm hkey]
    · rw [or_iff_left fun h => hk h.1]
      cases k with
      | EvidencePacket => exact absurd rfl hk
      | _ => exact Iff.rfl

end ObjectIndex

section Indexes

variable {models : ReadModels S} {event : Event S} {objectId : String} {k : ArtifactType}
  {key : Option String} {id : String}

theorem indexedIds_addObject :
    (models.addObject event).indexedIds objectId k key = models.indexedIds objectId k key := by
  unfold addObject
  split_ifs
  · unfold indexedIds
    dsimp only
    rw [get_upsert]
    split_ifs with hobject
    · rw [hobject, Option.getD_some]
    · rfl
  · rfl

theorem mem_indexedIds_onIndex {k₀ : ArtifactType} {a : k₀.Artifact S}
    {change : ObjectIndex → ObjectIndex} (hartifact : event.artifact k₀ = some a)
    (hnoted : k₀ ≠ .Object)
    (hchange : ∀ index k key id, id ∈ (change index).ids k key ↔ id ∈ index.ids k key ∨
      (k = k₀ ∧ k₀.noteKey a event.valueKey = key ∧ k₀.artifactId a = id)) :
    id ∈ ((models.addObject event).onIndex event change).indexedIds objectId k key ↔
      id ∈ models.indexedIds objectId k key ∨ event.Notes objectId k key id := by
  have hnotes : event.Notes objectId k key id ↔ (event.isIndexed = true ∧
      event.objectId = objectId) ∧ k = k₀ ∧ k₀.noteKey a event.valueKey = key ∧
        k₀.artifactId a = id := by
    constructor
    · rintro ⟨hindexed, hobject, -, b, hb, hkey, hid⟩
      obtain rfl : k = k₀ := (type_of_artifact hb).symm.trans (type_of_artifact hartifact)
      obtain rfl : b = a := Option.some.inj (hb.symm.trans hartifact)
      exact ⟨⟨hindexed, hobject⟩, rfl, hkey, hid⟩
    · rintro ⟨⟨hindexed, hobject⟩, rfl, hkey, hid⟩
      exact ⟨hindexed, hobject, hnoted, a, hartifact, hkey, hid⟩
  have hadd : (models.addObject event).indexedIds objectId k key =
      models.indexedIds objectId k key := indexedIds_addObject
  rw [hnotes, ← hadd]
  generalize models.addObject event = models'
  unfold onIndex
  split_ifs with hindexed
  · unfold indexedIds
    dsimp only
    rw [get_upsert]
    split_ifs with hobject
    · rw [Option.getD_some, hchange, hobject]
      simp [hindexed]
    · simp [Ne.symm hobject]
  · simp [hindexed]

/-- **An event notes its artifact** in one place of the index of its object. -/
theorem mem_indexedIds_applyEvent : id ∈ (models.applyEvent event).indexedIds objectId k key ↔
    id ∈ models.indexedIds objectId k key ∨ event.Notes objectId k key id := by
  have hnothing : (∀ k, k ≠ .Object → event.isIndexed = true → event.artifact k = none) →
      (id ∈ (models.addObject event).indexedIds objectId k key ↔
        id ∈ models.indexedIds objectId k key ∨ event.Notes objectId k key id) := by
    intro hnone
    rw [indexedIds_addObject, or_iff_left]
    rintro ⟨hindexed, -, hnoted, a, ha, -⟩
    rw [hnone k hnoted hindexed] at ha
    cases ha
  have hfailed : event.artifact event.artifactType = none →
      ∀ k, k ≠ .Object → event.isIndexed = true → event.artifact k = none := by
    intro hparse k _ _
    by_cases hk : event.artifactType = k
    · exact hk ▸ hparse
    · exact artifact_of_other hk
  unfold applyEvent
  cases htype : event.artifactType with
  | Program =>
    have hnone : ∀ k, k ≠ .Object → event.isIndexed = true → event.artifact k = none := by
      intro k _ hindexed
      rw [Event.isIndexed, htype] at hindexed
      cases hindexed
    cases hparse : S.program event.payload with
    | none => exact hnothing hnone
    | some program => exact hnothing hnone
  | Object =>
    have hnone : ∀ k, k ≠ .Object → event.isIndexed = true → event.artifact k = none :=
      fun k hk _ => artifact_of_other fun heq => hk (heq.symm.trans htype)
    cases hparse : S.object event.payload with
    | none => exact hnothing hnone
    | some object => exact hnothing hnone
  | TransformationRule =>
    have hartifact := artifact_of_type htype
    rw [htype] at hfailed
    cases hparse : S.rule event.payload with
    | none => exact hnothing (hfailed (hartifact.trans hparse))
    | some rule =>
      exact mem_indexedIds_onIndex (hartifact.trans hparse) nofun
        (ObjectIndex.mem_ids_noteRule event.valueKey (S.ruleId rule))
  | ExecutionEvent =>
    have hartifact := artifact_of_type htype
    rw [htype] at hfailed
    cases hparse : S.execution event.payload with
    | none => exact hnothing (hfailed (hartifact.trans hparse))
    | some execution =>
      exact mem_indexedIds_onIndex (hartifact.trans hparse) nofun
        (ObjectIndex.mem_ids_noteExecution event.valueKey (S.executionId execution))
  | ExceptionRecord =>
    have hartifact := artifact_of_type htype
    rw [htype] at hfailed
    cases hparse : S.exception event.payload with
    | none => exact hnothing (hfailed (hartifact.trans hparse))
    | some exception =>
      exact mem_indexedIds_onIndex (hartifact.trans hparse) nofun
        (ObjectIndex.mem_ids_noteException event.valueKey (S.exceptionId exception))
  | ControlResult =>
    have hartifact := artifact_of_type htype
    rw [htype] at hfailed
    cases hparse : S.control event.payload with
    | none => exact hnothing (hfailed (hartifact.trans hparse))
    | some control =>
      exact mem_indexedIds_onIndex (hartifact.trans hparse) nofun
        (ObjectIndex.mem_ids_noteControl event.valueKey (S.controlId control))
  | ApprovalEvent =>
    have hartifact := artifact_of_type htype
    rw [htype] at hfailed
    cases hparse : S.approval event.payload with
    | none => exact hnothing (hfailed (hartifact.trans hparse))
    | some approval =>
      exact mem_indexedIds_onIndex (hartifact.trans hparse) nofun
        (ObjectIndex.mem_ids_noteApproval event.valueKey (S.approvalId approval))
  | EvidencePacket =>
    have hartifact := artifact_of_type htype
    rw [htype] at hfailed
    cases hparse : S.packet event.payload with
    | none => exact hnothing (hfailed (hartifact.trans hparse))
    | some packet =>
      exact mem_indexedIds_onIndex (hartifact.trans hparse) nofun
        (fun index k key id => ObjectIndex.mem_ids_notePacket event.valueKey (S.packetId packet)
          index k key id (S.packetValueKey packet))

end Indexes

theorem programToObjects_onIndex (models : ReadModels S) (event : Event S)
    (change : ObjectIndex → ObjectIndex) :
    (models.onIndex event change).programToObjects = models.programToObjects := by
  unfold onIndex
  split_ifs <;> rfl

theorem indexes_applyEvent (models : ReadModels S) (event : Event S) :
    (models.applyEvent event).programToObjects = (models.addObject event).programToObjects ∧
      ((models.applyEvent event).objectIndexes = (models.addObject event).objectIndexes ∨
        ∃ change, (models.applyEvent event).objectIndexes =
          ((models.addObject event).onIndex event change).objectIndexes) := by
  unfold applyEvent
  cases event.artifactType with
  | Program => cases S.program event.payload <;> exact ⟨rfl, .inl rfl⟩
  | Object => cases S.object event.payload <;> exact ⟨rfl, .inl rfl⟩
  | TransformationRule =>
    cases S.rule event.payload with
    | none => exact ⟨rfl, .inl rfl⟩
    | some rule => exact ⟨programToObjects_onIndex .., .inr ⟨_, rfl⟩⟩
  | ExecutionEvent =>
    cases S.execution event.payload with
    | none => exact ⟨rfl, .inl rfl⟩
    | some execution => exact ⟨programToObjects_onIndex .., .inr ⟨_, rfl⟩⟩
  | ExceptionRecord =>
    cases S.exception event.payload with
    | none => exact ⟨rfl, .inl rfl⟩
    | some exception => exact ⟨programToObjects_onIndex .., .inr ⟨_, rfl⟩⟩
  | ControlResult =>
    cases S.control event.payload with
    | none => exact ⟨rfl, .inl rfl⟩
    | some control => exact ⟨programToObjects_onIndex .., .inr ⟨_, rfl⟩⟩
  | ApprovalEvent =>
    cases S.approval event.payload with
    | none => exact ⟨rfl, .inl rfl⟩
    | some approval => exact ⟨programToObjects_onIndex .., .inr ⟨_, rfl⟩⟩
  | EvidencePacket =>
    cases S.packet event.payload with
    | none => exact ⟨rfl, .inl rfl⟩
    | some packet => exact ⟨programToObjects_onIndex .., .inr ⟨_, rfl⟩⟩

theorem linkedObjects_applyEvent (models : ReadModels S) (event : Event S) (programId : String) :
    (models.applyEvent event).linkedObjects programId =
      if event.isIndexed = true ∧ event.programId = programId then
        pushUnique (models.linkedObjects programId) event.objectId
      else models.linkedObjects programId := by
  unfold linkedObjects
  rw [(indexes_applyEvent models event).1]
  unfold addObject
  split_ifs with hindexed hboth hboth
  · dsimp only
    rw [get_upsert, if_pos hboth.2.symm, Option.getD_some, hboth.2]
  · dsimp only
    rw [get_upsert, if_neg fun heq => hboth ⟨hindexed, heq.symm⟩]
  · exact absurd hboth.1 hindexed
  · rfl

/-- **An event links its object** to its program. -/
theorem mem_linkedObjects_applyEvent {models : ReadModels S}
    {programId objectId : String} : objectId ∈ (models.applyEvent event).linkedObjects programId ↔
      objectId ∈ models.linkedObjects programId ∨ event.Links programId objectId := by
  have hlinks : event.Links programId objectId ↔
      (event.isIndexed = true ∧ event.programId = programId) ∧ event.objectId = objectId :=
    ⟨fun h => ⟨⟨h.indexed, h.program⟩, h.object⟩, fun h => ⟨h.1.1, h.1.2, h.2⟩⟩
  rw [linkedObjects_applyEvent, hlinks]
  split_ifs with hboth
  · rw [mem_pushUnique, and_iff_right hboth]
  · rw [or_iff_left fun h => hboth h.1]

/-- **An event gives its object an index.** -/
theorem isSome_index_applyEvent {models : ReadModels S} {objectId : String} :
    ((models.applyEvent event).objectIndexes.get objectId).isSome ↔
      (models.objectIndexes.get objectId).isSome ∨
        (event.isIndexed = true ∧ event.objectId = objectId) := by
  have hadd : ((models.addObject event).objectIndexes.get objectId).isSome ↔
      (models.objectIndexes.get objectId).isSome ∨
        (event.isIndexed = true ∧ event.objectId = objectId) := by
    unfold addObject
    split_ifs with hindexed
    · dsimp only
      rw [get_upsert]
      split_ifs with hobject
      · simp [hindexed, hobject]
      · simp [Ne.symm hobject]
    · simp [hindexed]
  rw [← hadd]
  rcases (indexes_applyEvent models event).2 with hsame | ⟨change, hchange⟩
  · rw [hsame]
  · rw [hchange]
    unfold onIndex
    split_ifs with hindexed
    · dsimp only
      rw [get_upsert, hadd]
      split_ifs with hobject
      · simp [hindexed, hobject]
      · rw [hadd]
    · rfl

/-! ## Many events -/

section Many

variable (models : ReadModels S) (events : List (Event S))

theorem mem_indexedIds_foldl (objectId : String) (k : ArtifactType) (key : Option String)
    (id : String) :
    id ∈ (events.foldl ReadModels.applyEvent models).indexedIds objectId k key ↔
      id ∈ models.indexedIds objectId k key ∨ ∃ event ∈ events, event.Notes objectId k key id :=
  @foldl_iff_exists (ReadModels S) (Event S) ReadModels.applyEvent
    (fun models => id ∈ models.indexedIds objectId k key)
    (fun event => event.Notes objectId k key id) (fun _ _ => mem_indexedIds_applyEvent) models events

theorem mem_linkedObjects_foldl (programId objectId : String) :
    objectId ∈ (events.foldl ReadModels.applyEvent models).linkedObjects programId ↔
      objectId ∈ models.linkedObjects programId ∨ ∃ event ∈ events, event.Links programId objectId :=
  @foldl_iff_exists (ReadModels S) (Event S) ReadModels.applyEvent
    (fun models => objectId ∈ models.linkedObjects programId)
    (fun event => event.Links programId objectId) (fun _ _ => mem_linkedObjects_applyEvent)
    models events

theorem isSome_index_foldl (objectId : String) :
    ((events.foldl ReadModels.applyEvent models).objectIndexes.get objectId).isSome ↔
      (models.objectIndexes.get objectId).isSome ∨
        ∃ event ∈ events, event.isIndexed = true ∧ event.objectId = objectId :=
  @foldl_iff_exists (ReadModels S) (Event S) ReadModels.applyEvent
    (fun models => (models.objectIndexes.get objectId).isSome)
    (fun event => event.isIndexed = true ∧ event.objectId = objectId)
    (fun _ _ => isSome_index_applyEvent) models events

theorem nodup_linkedObjects_foldl {programId : String}
    (h : (models.linkedObjects programId).Nodup) :
    ((events.foldl ReadModels.applyEvent models).linkedObjects programId).Nodup := by
  induction events generalizing models with
  | nil => exact h
  | cons event events ih =>
    refine ih (models.applyEvent event) ?_
    rw [linkedObjects_applyEvent, pushUnique]
    split_ifs with hboth hmem
    · exact h
    · exact List.nodup_append.mpr ⟨h, List.nodup_singleton _, by
        rintro id hid _ hsame rfl
        exact hmem (List.mem_singleton.mp hsame ▸ hid)⟩
    · exact h

theorem isSome_store_foldl (k : ArtifactType) (id : String) :
    ((k.store (events.foldl ReadModels.applyEvent models)).get id).isSome ↔
      ((k.store models).get id).isSome ∨
        ∃ event ∈ events, ∃ a, event.artifact k = some a ∧ k.artifactId a = id := by
  refine @foldl_iff_exists (ReadModels S) (Event S) applyEvent
    (fun models => ((k.store models).get id).isSome)
    (fun event => ∃ a, event.artifact k = some a ∧ k.artifactId a = id) (fun models event => ?_)
    models events
  rw [store_applyEvent]
  cases event.artifact k with
  | none => simp
  | some a =>
    dsimp only
    rw [get_insert]
    split_ifs with hid
    · simp [hid]
    · simp [Ne.symm hid]

theorem get_store_foldl {all : BTreeMap String (k.Artifact S)}
    (hevents : ∀ event ∈ events, ∀ a, event.artifact k = some a →
      all.get (k.artifactId a) = some a)
    (hmodels : ∀ id a, (k.store models).get id = some a → all.get id = some a) (id : String)
    (a : k.Artifact S)
    (hget : (k.store (events.foldl ReadModels.applyEvent models)).get id = some a) :
    all.get id = some a := by
  induction events generalizing models with
  | nil => exact hmodels id a hget
  | cons event events ih =>
    rw [List.forall_mem_cons] at hevents
    refine ih (models.applyEvent event) hevents.2 (fun id a hget => ?_) hget
    rw [store_applyEvent] at hget
    cases hartifact : event.artifact k with
    | none =>
      rw [hartifact] at hget
      exact hmodels id a hget
    | some b =>
      rw [hartifact] at hget
      dsimp only at hget
      rw [get_insert] at hget
      split_ifs at hget with hid
      · rw [hid, ← Option.some.inj hget]
        exact hevents.1 b hartifact
      · exact hmodels id a hget

end Many

def ReadModels.Grown (models : ReadModels S) : Prop :=
  ∃ events : List (Event S), models = events.foldl ReadModels.applyEvent .default

namespace ReadModels.Grown

variable {models : ReadModels S}

theorem indexedIds_default (objectId : String) (k : ArtifactType) (key : Option String) :
    (ReadModels.default : ReadModels S).indexedIds objectId k key = [] := by
  cases key <;> cases k <;> rfl

theorem store_default (k : ArtifactType) : k.store (ReadModels.default : ReadModels S) = .empty := by
  cases k <;> rfl

theorem filed (h : models.Grown) {id : String} {a : k.Artifact S}
    (hget : (k.store models).get id = some a) :
    k.artifactId a = id ∧ ∃ payload, k.parse payload = some a := by
  obtain ⟨events, rfl⟩ := h
  induction events using List.reverseRecOn generalizing a with
  | nil =>
    rw [List.foldl_nil, store_default] at hget
    cases hget
  | append_singleton events event ih =>
    rw [List.foldl_append, List.foldl_cons, List.foldl_nil, store_applyEvent] at hget
    cases hartifact : event.artifact k with
    | none =>
      rw [hartifact] at hget
      exact ih hget
    | some b =>
      rw [hartifact] at hget
      dsimp only at hget
      rw [get_insert] at hget
      split_ifs at hget with hid
      · obtain rfl : b = a := Option.some.inj hget
        rw [artifact_of_type (type_of_artifact hartifact)] at hartifact
        exact ⟨hid.symm, event.payload, hartifact⟩
      · exact ih hget

theorem stored_of_indexed (h : models.Grown) {objectId : String}
    {key : Option String} {id : String} (hid : id ∈ models.indexedIds objectId k key) :
    ((k.store models).get id).isSome ∧ objectId ≠ "" ∧ k ≠ .Object ∧ k ≠ .Program := by
  obtain ⟨events, rfl⟩ := h
  rw [mem_indexedIds_foldl, indexedIds_default, or_iff_right List.not_mem_nil] at hid
  obtain ⟨event, hevent, hnotes⟩ := hid
  obtain ⟨htype, hobject⟩ := isIndexed_iff.mp hnotes.indexed
  obtain ⟨a, ha, -, hid⟩ := hnotes.artifact
  refine ⟨?_, hnotes.object ▸ hobject, hnotes.noted, type_of_artifact ha ▸ htype⟩
  rw [isSome_store_foldl]
  exact .inr ⟨event, hevent, a, ha, hid⟩

end ReadModels.Grown

end Arcxa.Traceability
