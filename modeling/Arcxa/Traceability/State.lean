import Arcxa.Lib.BTreeMap

/-!
# The read models of the evidence log

An event carries one artifact of a migration, as JSON. `applyEvent` files the artifact under its
id and notes the id in the index of the object it is about, under the value it explains or, without
one, for the whole object. What the kinds of artifacts hold beyond their ids, and how they are read
from JSON, is a parameter (`Schema`). The triples that are pushed to a shard afterwards are left
out; nothing here depends on them.
-/

namespace Arcxa.Traceability

/-- The kinds of artifacts and how they are read from a payload. -/
structure Schema where
  Payload : Type
  Program : Type
  Object : Type
  Rule : Type
  Execution : Type
  Exception : Type
  Control : Type
  Approval : Type
  Packet : Type
  program : Payload → Option Program
  programId : Program → String
  object : Payload → Option Object
  objectId : Object → String
  rule : Payload → Option Rule
  ruleId : Rule → String
  execution : Payload → Option Execution
  executionId : Execution → String
  exception : Payload → Option Exception
  exceptionId : Exception → String
  control : Payload → Option Control
  controlId : Control → String
  approval : Payload → Option Approval
  approvalId : Approval → String
  packet : Payload → Option Packet
  packetId : Packet → String
  packetValueKey : Packet → String

inductive ArtifactType where
  | Program
  | Object
  | TransformationRule
  | ExecutionEvent
  | ExceptionRecord
  | ControlResult
  | ApprovalEvent
  | EvidencePacket
  deriving DecidableEq

/-- `MigrationEvidenceEvent`, as far as it is looked at. -/
structure Event (S : Schema) where
  eventId : String
  programId : String
  objectId : String
  artifactType : ArtifactType
  valueKey : Option String
  payload : S.Payload

structure ObjectIndex where
  valueKeyRules : BTreeMap String (List String)
  valueKeyExecutionIds : BTreeMap String (List String)
  valueKeyExceptionIds : BTreeMap String (List String)
  valueKeyControlIds : BTreeMap String (List String)
  valueKeyApprovalIds : BTreeMap String (List String)
  valueKeyPacketIds : BTreeMap String (List String)
  objectLevelRuleIds : List String
  objectLevelExecutionIds : List String
  objectLevelExceptionIds : List String
  objectLevelControlIds : List String
  objectLevelApprovalIds : List String
  objectLevelPacketIds : List String

structure ReadModels (S : Schema) where
  programs : BTreeMap String S.Program
  objects : BTreeMap String S.Object
  rules : BTreeMap String S.Rule
  executions : BTreeMap String S.Execution
  exceptions : BTreeMap String S.Exception
  controls : BTreeMap String S.Control
  approvals : BTreeMap String S.Approval
  packets : BTreeMap String S.Packet
  objectIndexes : BTreeMap String ObjectIndex
  programToObjects : BTreeMap String (List String)

abbrev Time := Int

structure TraceabilityState (S : Schema) extends ReadModels S where
  /-- A set. -/
  processedEventIds : BTreeMap String Unit
  updatedAt : Time
  /-- A natural number: no log has `2 ^ 64` entries. -/
  lastEventSequence : Nat
  lastRebuildAt : Option Time
  legacyImportedAt : Option Time

def ObjectIndex.default : ObjectIndex where
  valueKeyRules := .empty
  valueKeyExecutionIds := .empty
  valueKeyExceptionIds := .empty
  valueKeyControlIds := .empty
  valueKeyApprovalIds := .empty
  valueKeyPacketIds := .empty
  objectLevelRuleIds := []
  objectLevelExecutionIds := []
  objectLevelExceptionIds := []
  objectLevelControlIds := []
  objectLevelApprovalIds := []
  objectLevelPacketIds := []

def ReadModels.default {S : Schema} : ReadModels S where
  programs := .empty
  objects := .empty
  rules := .empty
  executions := .empty
  exceptions := .empty
  controls := .empty
  approvals := .empty
  packets := .empty
  objectIndexes := .empty
  programToObjects := .empty

def TraceabilityState.default {S : Schema} (now : Time) : TraceabilityState S :=
  { ReadModels.default with
    processedEventIds := .empty
    updatedAt := now
    lastEventSequence := 0
    lastRebuildAt := none
    legacyImportedAt := none }

/-! ## Indexes -/

def pushUnique (items : List String) (value : String) : List String :=
  if value ∈ items then items else items ++ [value]

namespace ObjectIndex

/-- Note an id in two fields of an index: in the first one under the value it is about, in the
second one if it is about the whole object. -/
def note (keyed : (BTreeMap String (List String) → BTreeMap String (List String)) →
      ObjectIndex → ObjectIndex)
    (level : (List String → List String) → ObjectIndex → ObjectIndex) (valueKey : Option String)
    (id : String) (index : ObjectIndex) : ObjectIndex :=
  match valueKey with
  | some key => keyed (fun ids => ids.upsert key fun old => pushUnique (old.getD []) id) index
  | none => level (fun ids => pushUnique ids id) index

def noteRule : Option String → String → ObjectIndex → ObjectIndex :=
  note (fun f index => { index with valueKeyRules := f index.valueKeyRules })
    (fun f index => { index with objectLevelRuleIds := f index.objectLevelRuleIds })

def noteExecution : Option String → String → ObjectIndex → ObjectIndex :=
  note (fun f index => { index with valueKeyExecutionIds := f index.valueKeyExecutionIds })
    (fun f index => { index with objectLevelExecutionIds := f index.objectLevelExecutionIds })

def noteException : Option String → String → ObjectIndex → ObjectIndex :=
  note (fun f index => { index with valueKeyExceptionIds := f index.valueKeyExceptionIds })
    (fun f index => { index with objectLevelExceptionIds := f index.objectLevelExceptionIds })

def noteControl : Option String → String → ObjectIndex → ObjectIndex :=
  note (fun f index => { index with valueKeyControlIds := f index.valueKeyControlIds })
    (fun f index => { index with objectLevelControlIds := f index.objectLevelControlIds })

def noteApproval : Option String → String → ObjectIndex → ObjectIndex :=
  note (fun f index => { index with valueKeyApprovalIds := f index.valueKeyApprovalIds })
    (fun f index => { index with objectLevelApprovalIds := f index.objectLevelApprovalIds })

def notePacket (valueKey : Option String) (ownKey id : String) (index : ObjectIndex) :
    ObjectIndex :=
  { index with
    valueKeyPacketIds := index.valueKeyPacketIds.upsert (valueKey.getD ownKey)
      (fun old => pushUnique (old.getD []) id) }

end ObjectIndex

/-! ## Applying events -/

section Apply

variable {S : Schema}

def Event.isIndexed (event : Event S) : Bool :=
  event.artifactType ≠ .Program && event.objectId ≠ ""

def ReadModels.onIndex (models : ReadModels S) (event : Event S)
    (change : ObjectIndex → ObjectIndex) : ReadModels S :=
  if event.isIndexed then
    { models with
      objectIndexes := models.objectIndexes.upsert event.objectId
        (fun index => change (index.getD .default)) }
  else
    models

def ReadModels.addObject (models : ReadModels S) (event : Event S) : ReadModels S :=
  if event.isIndexed then
    { models with
      programToObjects := models.programToObjects.upsert event.programId
        (fun objects => pushUnique (objects.getD []) event.objectId)
      objectIndexes := models.objectIndexes.upsert event.objectId
        (fun index => index.getD .default) }
  else
    models

/-- One round of the loop of `apply_events_to_state`. -/
def ReadModels.applyEvent (models : ReadModels S) (event : Event S) : ReadModels S :=
  let models := models.addObject event
  match event.artifactType with
  | .Program =>
    match S.program event.payload with
    | none => models
    | some program =>
      { models with programs := models.programs.insert (S.programId program) program }
  | .Object =>
    match S.object event.payload with
    | none => models
    | some object => { models with objects := models.objects.insert (S.objectId object) object }
  | .TransformationRule =>
    match S.rule event.payload with
    | none => models
    | some rule =>
      let models := models.onIndex event (ObjectIndex.noteRule event.valueKey (S.ruleId rule))
      { models with rules := models.rules.insert (S.ruleId rule) rule }
  | .ExecutionEvent =>
    match S.execution event.payload with
    | none => models
    | some execution =>
      let models := models.onIndex event
        (ObjectIndex.noteExecution event.valueKey (S.executionId execution))
      { models with
        executions := models.executions.insert (S.executionId execution) execution }
  | .ExceptionRecord =>
    match S.exception event.payload with
    | none => models
    | some exception =>
      let models := models.onIndex event
        (ObjectIndex.noteException event.valueKey (S.exceptionId exception))
      { models with
        exceptions := models.exceptions.insert (S.exceptionId exception) exception }
  | .ControlResult =>
    match S.control event.payload with
    | none => models
    | some control =>
      let models := models.onIndex event
        (ObjectIndex.noteControl event.valueKey (S.controlId control))
      { models with controls := models.controls.insert (S.controlId control) control }
  | .ApprovalEvent =>
    match S.approval event.payload with
    | none => models
    | some approval =>
      let models := models.onIndex event
        (ObjectIndex.noteApproval event.valueKey (S.approvalId approval))
      { models with approvals := models.approvals.insert (S.approvalId approval) approval }
  | .EvidencePacket =>
    match S.packet event.payload with
    | none => models
    | some packet =>
      let models := models.onIndex event
        (ObjectIndex.notePacket event.valueKey (S.packetValueKey packet) (S.packetId packet))
      { models with packets := models.packets.insert (S.packetId packet) packet }

structure AppliedEventSummary where
  ingestedCount : Nat
  programIds : List String
  objectIds : List String
  deriving DecidableEq

/-- `sort` and `dedup`. -/
def sortedIds (ids : List String) : List String :=
  (BTreeMap.ofList (ids.map fun id => (id, ()))).keys

def applyEventsToState (state : TraceabilityState S) (events : List (Event S)) :
    TraceabilityState S × AppliedEventSummary :=
  ({ state with toReadModels := events.foldl ReadModels.applyEvent state.toReadModels },
    { ingestedCount := events.length
      programIds := sortedIds (events.map (·.programId))
      objectIds := sortedIds ((events.filter (·.isIndexed)).map (·.objectId)) })

end Apply

end Arcxa.Traceability
