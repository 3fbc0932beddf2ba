import Mathlib.Data.List.Infix
import Arcxa.Traceability.Queries
import Arcxa.Traceability.Reading
import Arcxa.Traceability.Signing

/-!
# Packets on request

A value of an object is asked for by a key, a field path or a record and a field path. The key is
used as it is, and with the records of the object in front, when a packet for it is looked for. To
make a new one, it becomes the field path of a locator, whose own key has the target record in
front of it whatever the key had. The evidence of the packet is what the index has under that key.
-/

namespace Arcxa.Traceability

open Workflow (Value Float64)

variable {F T K V : Type}

/-! ## Programs and objects -/

inductive MigrationObjectType where
  | Table
  | BusinessObject
  | ApiEntity
  | Interface
  | CustomCodeArtifact
  | Record
  | FieldGroup
  deriving DecidableEq

def MigrationObjectType.name : MigrationObjectType → String
  | .Table => "table"
  | .BusinessObject => "business_object"
  | .ApiEntity => "api_entity"
  | .Interface => "interface"
  | .CustomCodeArtifact => "custom_code_artifact"
  | .Record => "record"
  | .FieldGroup => "field_group"

def MigrationObjectType.serde : Serde F MigrationObjectType :=
  .variants [.Table, .BusinessObject, .ApiEntity, .Interface, .CustomCodeArtifact, .Record,
    .FieldGroup] name (fun a => by cases a <;> decide) (by decide)

structure MigrationObject where
  objectId : String
  programId : String
  objectType : MigrationObjectType
  name : String
  description : Option String
  sourceRecordId : Option String
  targetRecordId : Option String
  tags : List String
  metadata : HashMap

def MigrationObject.record : Record F MigrationObject :=
  (Record.cons "object_id" (.required .string) <|
    .cons "program_id" (.required .string) <|
    .cons "object_type" (.required MigrationObjectType.serde) <|
    .cons "name" (.required .string) <|
    .cons "description" (.optional .string) <|
    .cons "source_record_id" (.optional .string) <|
    .cons "target_record_id" (.optional .string) <|
    .cons "tags" (.default (.list .string) []) <|
    .cons "metadata" (.default .map .empty) .nil).of
  (fun object => (object.objectId, object.programId, object.objectType, object.name,
    object.description, object.sourceRecordId, object.targetRecordId, object.tags,
    object.metadata, ()))
  (fun (a, b, c, d, e, f, g, h, i, ()) => ⟨a, b, c, d, e, f, g, h, i⟩) fun _ => rfl

def MigrationObject.serde : Serde F MigrationObject :=
  MigrationObject.record.serde (of_decide_eq_true rfl)

structure MigrationProgram (T : Type) where
  programId : String
  name : String
  customerName : Option String
  sourceLandscape : Option String
  targetLandscape : Option String
  tags : List String
  metadata : HashMap
  createdAt : T
  updatedAt : T

def MigrationProgram.record [Rfc3339 T] : Record F (MigrationProgram T) :=
  (Record.cons "program_id" (.required .string) <|
    .cons "name" (.required .string) <|
    .cons "customer_name" (.optional .string) <|
    .cons "source_landscape" (.optional .string) <|
    .cons "target_landscape" (.optional .string) <|
    .cons "tags" (.default (.list .string) []) <|
    .cons "metadata" (.default .map .empty) <|
    .cons "created_at" (.required .dateTime) <|
    .cons "updated_at" (.required .dateTime) .nil).of
  (fun program => (program.programId, program.name, program.customerName,
    program.sourceLandscape, program.targetLandscape, program.tags, program.metadata,
    program.createdAt, program.updatedAt, ()))
  (fun (a, b, c, d, e, f, g, h, i, ()) => ⟨a, b, c, d, e, f, g, h, i⟩) fun _ => rfl

def MigrationProgram.serde [Rfc3339 T] : Serde F (MigrationProgram T) :=
  MigrationProgram.record.serde (of_decide_eq_true rfl)

abbrev evidenceSchema (F T : Type) [Float64 F] [Rfc3339 T] : Schema where
  Payload := Value F
  Program := MigrationProgram T
  Object := MigrationObject
  Rule := TransformationRule F
  Execution := ExecutionEvent T
  Exception := ExceptionRecord F T
  Control := ControlResult F T
  Approval := ApprovalEvent T
  Packet := EvidencePacket F T
  program := MigrationProgram.serde.fromValue
  programId := MigrationProgram.programId
  object := MigrationObject.serde.fromValue
  objectId := MigrationObject.objectId
  rule := TransformationRule.serde.fromValue
  ruleId := TransformationRule.ruleId
  execution := ExecutionEvent.serde.fromValue
  executionId := ExecutionEvent.executionId
  exception := ExceptionRecord.serde.fromValue
  exceptionId := ExceptionRecord.exceptionId
  control := ControlResult.serde.fromValue
  controlId := ControlResult.controlId
  approval := ApprovalEvent.serde.fromValue
  approvalId := ApprovalEvent.approvalId
  packet := EvidencePacket.serde.fromValue
  packetId := EvidencePacket.packetId
  packetValueKey := EvidencePacket.valueKey

structure ValueLocator where
  programId : String
  objectId : String
  targetFieldPath : String
  targetRecordId : Option String
  sourceRecordId : Option String

structure ValueExplanation (F T : Type) where
  explanationId : String
  locator : ValueLocator
  sourceField : FieldRef
  targetField : FieldRef
  sourceValue : Option (Json F)
  targetValue : Option (Json F)
  transformationRule : Option (TransformationRule F)
  executionEvent : Option (ExecutionEvent T)
  exceptions : List (ExceptionRecord F T)
  controls : List (ControlResult F T)
  approvals : List (ApprovalEvent T)
  evidencePacketId : Option String
  graphRefs : List String
  confidenceSummary : Option String
  generatedAt : T

/-! ## Keys and references -/

/-- `format!("{record_id}::{path}")`. -/
def recordKey (recordId path : String) : String := recordId ++ "::" ++ path

def ValueLocator.valueKey (locator : ValueLocator) : String :=
  match locator.targetRecordId with
  | some recordId => recordKey recordId locator.targetFieldPath
  | none => locator.targetFieldPath

def valueKeyCandidates (object : MigrationObject) (raw : String) : List String :=
  sortedIds (raw :: if "::".toList <:+: raw.toList then [] else
    (object.targetRecordId.toList ++ object.sourceRecordId.toList).map (recordKey · raw))

def sanitize (value : String) : String :=
  String.ofList (value.toList.flatMap fun c =>
    if c = ':' ∨ c = '/' ∨ c = '.' then ['_'] else if c = '$' then "root".toList else [c])

def objectRef (objectId : String) : String := "urn:arcxa:migration-evidence:object:" ++ objectId

def valueRef (objectId valueKey : String) : String :=
  "urn:arcxa:migration-evidence:value:" ++ objectId ++ ":" ++ sanitize valueKey

def packetRef (packetId : String) : String := "urn:arcxa:migration-evidence:packet:" ++ packetId

def explanationGraphRefs (explanation : ValueExplanation F T) (packetId : String) : List String :=
  sortedIds [objectRef explanation.locator.objectId,
    valueRef explanation.locator.objectId explanation.locator.valueKey, packetRef packetId]

def ValueExplanation.withPacket (explanation : ValueExplanation F T)
    (packet : EvidencePacket F T) : ValueExplanation F T :=
  { explanation with
    evidencePacketId := some packet.packetId
    graphRefs := explanationGraphRefs explanation packet.packetId }

/-! ## Looking up -/

/-- `Iterator::max_by_key`: the last one of the largest. -/
def maxByKey {A B : Type} [LinearOrder B] (key : A → B) (l : List A) : Option A :=
  l.foldl (fun best a =>
    match best with
    | none => some a
    | some b => if key b ≤ key a then some a else some b) none

def collectByIds {A : Type} (store : BTreeMap String A) (valueSpecific : Option (List String))
    (objectLevel : List String) : List A :=
  (firsts id (valueSpecific.getD [] ++ objectLevel)).filterMap store.get

def pickRule (rules : List (TransformationRule F)) (path : String) :
    Option (TransformationRule F) :=
  (rules.find? fun rule => rule.targetFields.any (·.fieldPath = path)).or rules.head?

def pickTargetField (rule : TransformationRule F) (path : String) : Option FieldRef :=
  (rule.targetFields.find? (·.fieldPath = path)).or rule.targetFields.head?

def primaryExecution [LinearOrder T] (events : List (ExecutionEvent T)) :
    Option (ExecutionEvent T) :=
  let nonVerification := events.filter fun event => event.stage.toLower ≠ "verification"
  if nonVerification.isEmpty then maxByKey (·.happenedAt) events
  else maxByKey (·.happenedAt) nonVerification

def buildNarrative (explanation : ValueExplanation F T) : String :=
  " ".intercalate (
    [explanation.sourceField.fieldPath ++ " maps to " ++ explanation.targetField.fieldPath] ++
    (explanation.transformationRule.toList.map fun rule => "via rule '" ++ rule.name ++ "'") ++
    (explanation.executionEvent.toList.map fun event =>
      "during " ++ event.toolName ++ " stage '" ++ event.stage ++ "'") ++
    (if explanation.controls.isEmpty then [] else
      ["with " ++ toString explanation.controls.length ++ " control result(s)"]) ++
    (if explanation.approvals.isEmpty then [] else
      ["and " ++ toString explanation.approvals.length ++ " approval event(s)"]))

section Requests

variable [Float64 F] [Rfc3339 T] [LinearOrder T]

def findExistingPacket (models : ReadModels (evidenceSchema F T))
    (object : MigrationObject) (requestedValueKey : Option String) :
    Option (EvidencePacket F T) :=
  match models.objectIndexes.get object.objectId with
  | none => none
  | some index =>
    let candidateIds :=
      match requestedValueKey with
      | some valueKey => (valueKeyCandidates object valueKey).flatMap fun key =>
          (index.valueKeyPacketIds.get key).getD []
      | none => index.objectLevelPacketIds ++ index.valueKeyPacketIds.values.flatten
    maxByKey (·.generatedAt) ((sortedIds candidateIds).filterMap models.packets.get)

/-! ## Requests -/

/-- What the building of a packet draws and reads from the clock, and whether the write of its
event goes through. -/
structure BuildEnv (T : Type) where
  packetId : String
  generatedAt : T
  signedAt : T
  eventId : String
  persistedAt : Nat → Time
  now : Time
  writes : Bool

variable (libs : SigningLibs F K V) (signingKey : K)

def packetOf (env : BuildEnv T) (explanation : ValueExplanation F T) : EvidencePacket F T :=
  let packetId := "packet-" ++ env.packetId
  { packetId
    programId := explanation.locator.programId
    objectId := explanation.locator.objectId
    valueKey := explanation.locator.valueKey
    generatedAt := env.generatedAt
    sourceField := explanation.sourceField
    targetField := explanation.targetField
    transformationRule := explanation.transformationRule
    executionEvent := explanation.executionEvent
    exceptions := explanation.exceptions
    controls := explanation.controls
    approvals := explanation.approvals
    graphRefs := explanationGraphRefs explanation packetId
    narrative := some (buildNarrative explanation)
    signature := none
    metadata := .empty }

def packetCall (env : BuildEnv T) (valueKey : String) (packet : EvidencePacket F T) :
    Call (evidenceSchema F T) where
  events := [{
    eventId := env.eventId
    programId := packet.programId
    objectId := packet.objectId
    artifactType := .EvidencePacket
    valueKey := some valueKey
    payload := EvidencePacket.serde.toValue packet }]
  persistedAt := env.persistedAt
  now := env.now
  writes := env.writes

variable [TextCodec (LoggedEvent (evidenceSchema F T))]

def buildEvidencePacket (env : BuildEnv T) (store : Store (evidenceSchema F T))
    (explanation : ValueExplanation F T) :
    Store (evidenceSchema F T) × Except String (EvidencePacket F T) :=
  let valueKey := explanation.locator.valueKey
  let existing := (store.memory.objects.get explanation.locator.objectId).bind fun object =>
    findExistingPacket store.memory.toReadModels object (some valueKey)
  match existing with
  | some packet => (store, .ok packet)
  | none =>
    let packet := packetOf env explanation
    let signature := buildEvidencePacketSignature libs packet signingKey env.signedAt
    let packet := { packet with signature := some signature }
    if verifyEvidencePacketSignature libs packet signature then
      let (store, result) := ingestEvents store (packetCall env valueKey packet)
      (store, result.map fun _ => packet)
    else
      (store, .error "generated evidence packet signature failed verification")

/-- What a request draws and reads from the clock. -/
structure RequestEnv (T : Type) where
  explanationId : String
  explainedAt : T
  /-- For a packet that `explain_value` builds. -/
  explain : BuildEnv T
  /-- For one that is built afterwards. -/
  build : BuildEnv T

def explainValue (env : RequestEnv T) (store : Store (evidenceSchema F T))
    (locator : ValueLocator) :
    Store (evidenceSchema F T) × Except String (ValueExplanation F T) :=
  let models := store.memory.toReadModels
  match models.objectIndexes.get locator.objectId with
  | none => (store, .error s!"no evidence found for object '{locator.objectId}'")
  | some index =>
    let key := locator.valueKey
    let rules := collectByIds models.rules (index.valueKeyRules.get key) index.objectLevelRuleIds
    let executions := collectByIds models.executions (index.valueKeyExecutionIds.get key)
      index.objectLevelExecutionIds
    let exceptions := collectByIds models.exceptions (index.valueKeyExceptionIds.get key)
      index.objectLevelExceptionIds
    let controls := collectByIds models.controls (index.valueKeyControlIds.get key)
      index.objectLevelControlIds
    let approvals := collectByIds models.approvals (index.valueKeyApprovalIds.get key)
      index.objectLevelApprovalIds
    let packets := collectByIds models.packets (index.valueKeyPacketIds.get key)
      index.objectLevelPacketIds
    let targetRule := pickRule rules locator.targetFieldPath
    let targetField := (targetRule.bind fun rule => pickTargetField rule locator.targetFieldPath).or
      (packets.head?.map (·.targetField))
    let sourceField := (targetRule.bind fun rule => rule.sourceFields.head?).or
      (packets.head?.map (·.sourceField))
    match targetField with
    | none => (store, .error
        s!"no target field evidence found for '{locator.objectId}:{locator.targetFieldPath}'")
    | some targetField =>
      match sourceField with
      | none => (store, .error
          s!"no source field evidence found for '{locator.objectId}:{locator.targetFieldPath}'")
      | some sourceField =>
        let explanation : ValueExplanation F T := {
          explanationId := env.explanationId
          locator
          sourceField
          targetField
          sourceValue := (exceptions.head?.bind (·.sourceValue)).or
            (controls.head?.bind (·.expectedValue))
          targetValue := (exceptions.head?.bind (·.targetValue)).or
            (controls.head?.bind (·.actualValue))
          transformationRule := targetRule
          executionEvent := primaryExecution executions
          exceptions
          controls
          approvals
          evidencePacketId := none
          graphRefs := []
          confidenceSummary := some ("Evidence graph assembled from transformation, execution, " ++
            "control, and approval artifacts")
          generatedAt := env.explainedAt }
        match packets.head? with
        | some packet => (store, .ok (explanation.withPacket packet))
        | none =>
          let (store, result) := buildEvidencePacket libs signingKey env.explain store explanation
          (store, result.map explanation.withPacket)

def evidencePacketForObject (env : RequestEnv T) (store : Store (evidenceSchema F T))
    (objectId : String) (valueKey : Option String) :
    Store (evidenceSchema F T) × Except String (EvidencePacket F T) :=
  match store.memory.objects.get objectId with
  | none => (store, .error s!"unknown migration object '{objectId}'")
  | some object =>
    match findExistingPacket store.memory.toReadModels object valueKey with
    | some packet => (store, .ok packet)
    | none =>
      let locator : ValueLocator := {
        programId := object.programId
        objectId
        targetFieldPath := valueKey.getD "$.value"
        targetRecordId := object.targetRecordId
        sourceRecordId := object.sourceRecordId }
      match explainValue libs signingKey env store locator with
      | (store, .error e) => (store, .error e)
      | (store, .ok explanation) =>
        buildEvidencePacket libs signingKey env.build store explanation

end Requests

end Arcxa.Traceability
