import Arcxa.Traceability.Serde

/-!
# Evidence packets

The record that explains one migrated value, with everything it is made of, and how it stands as
JSON. Times are a type `T` that is written as RFC 3339 text.
-/

namespace Arcxa.Traceability

open Workflow (Value Float64)

variable {F T A : Type}

/-- `chrono::DateTime<Utc>`, which reads back what it writes. -/
class Rfc3339 (T : Type) where
  format : T → String
  parse : String → Option T
  parse_format : ∀ t, parse (format t) = some t

namespace Serde

def dateTime [Rfc3339 T] : Serde F T := .text Rfc3339.format Rfc3339.parse Rfc3339.parse_format

def variants (all : List A) (name : A → String) (hall : ∀ a, a ∈ all)
    (hnames : (all.map name).Nodup) : Serde F A :=
  .text name (fun text => all.find? (name · == text)) fun a => by
    have hfound : (all.find? (name · == name a)).isSome :=
      List.find?_isSome.mpr ⟨a, hall a, beq_self_eq_true _⟩
    obtain ⟨b, hb⟩ := Option.isSome_iff_exists.mp hfound
    have hname : name b = name a := by simpa using List.find?_some hb
    rw [hb, List.inj_on_of_nodup_map hnames (hall b) (hall a) hname]

end Serde

/-! ## What a packet is made of -/

inductive TransformationRuleType where
  | Mapping
  | Conversion
  | Harmonization
  | Filter
  | DefaultValue
  | Aggregation
  | Enrichment
  deriving DecidableEq

/-- `#[serde(rename_all = "snake_case")]`, here and below. -/
def TransformationRuleType.name : TransformationRuleType → String
  | .Mapping => "mapping"
  | .Conversion => "conversion"
  | .Harmonization => "harmonization"
  | .Filter => "filter"
  | .DefaultValue => "default_value"
  | .Aggregation => "aggregation"
  | .Enrichment => "enrichment"

def TransformationRuleType.serde : Serde F TransformationRuleType :=
  .variants [.Mapping, .Conversion, .Harmonization, .Filter, .DefaultValue, .Aggregation,
    .Enrichment] name (fun a => by cases a <;> decide) (by decide)

inductive ExecutionStatus where
  | Succeeded
  | Failed
  | Partial
  | Running
  deriving DecidableEq

def ExecutionStatus.name : ExecutionStatus → String
  | .Succeeded => "succeeded"
  | .Failed => "failed"
  | .Partial => "partial"
  | .Running => "running"

def ExecutionStatus.serde : Serde F ExecutionStatus :=
  .variants [.Succeeded, .Failed, .Partial, .Running] name (fun a => by cases a <;> decide)
    (by decide)

inductive ExceptionSeverity where
  | Info
  | Warning
  | Error
  | Critical
  deriving DecidableEq

def ExceptionSeverity.name : ExceptionSeverity → String
  | .Info => "info"
  | .Warning => "warning"
  | .Error => "error"
  | .Critical => "critical"

def ExceptionSeverity.serde : Serde F ExceptionSeverity :=
  .variants [.Info, .Warning, .Error, .Critical] name (fun a => by cases a <;> decide) (by decide)

inductive ExceptionStatus where
  | Open
  | Overridden
  | Remediated
  | Accepted
  deriving DecidableEq

def ExceptionStatus.name : ExceptionStatus → String
  | .Open => "open"
  | .Overridden => "overridden"
  | .Remediated => "remediated"
  | .Accepted => "accepted"

def ExceptionStatus.serde : Serde F ExceptionStatus :=
  .variants [.Open, .Overridden, .Remediated, .Accepted] name (fun a => by cases a <;> decide)
    (by decide)

inductive ControlStatus where
  | Passed
  | Failed
  | Warning
  | NotRun
  deriving DecidableEq

def ControlStatus.name : ControlStatus → String
  | .Passed => "passed"
  | .Failed => "failed"
  | .Warning => "warning"
  | .NotRun => "not_run"

def ControlStatus.serde : Serde F ControlStatus :=
  .variants [.Passed, .Failed, .Warning, .NotRun] name (fun a => by cases a <;> decide) (by decide)

inductive ApprovalStatus where
  | Pending
  | Approved
  | Rejected
  | Waived
  deriving DecidableEq

def ApprovalStatus.name : ApprovalStatus → String
  | .Pending => "pending"
  | .Approved => "approved"
  | .Rejected => "rejected"
  | .Waived => "waived"

def ApprovalStatus.serde : Serde F ApprovalStatus :=
  .variants [.Pending, .Approved, .Rejected, .Waived] name (fun a => by cases a <;> decide)
    (by decide)

/-- `SourceFieldRef` and `TargetFieldRef`, which have the same fields. -/
structure FieldRef where
  system : String
  objectName : String
  fieldName : String
  fieldPath : String
  semanticType : Option String
  recordId : Option String

def FieldRef.record : Record F FieldRef :=
  (Record.cons "system" (.required .string) <|
    .cons "object_name" (.required .string) <|
    .cons "field_name" (.required .string) <|
    .cons "field_path" (.required .string) <|
    .cons "semantic_type" (.optional .string) <|
    .cons "record_id" (.optional .string) .nil).of
  (fun ref => (ref.system, ref.objectName, ref.fieldName, ref.fieldPath, ref.semanticType,
    ref.recordId, ()))
  (fun (a, b, c, d, e, f, ()) => ⟨a, b, c, d, e, f⟩) fun _ => rfl

def FieldRef.serde : Serde F FieldRef := FieldRef.record.serde (of_decide_eq_true rfl)

structure TransformationRule (F : Type) where
  ruleId : String
  ruleType : TransformationRuleType
  name : String
  description : Option String
  sourceFields : List FieldRef
  targetFields : List FieldRef
  expression : Option String
  filterPredicate : Option String
  defaultValue : Option (Json F)
  aggregation : Option String
  metadata : HashMap

def TransformationRule.record : Record F (TransformationRule F) :=
  (Record.cons "rule_id" (.required .string) <|
    .cons "rule_type" (.required TransformationRuleType.serde) <|
    .cons "name" (.required .string) <|
    .cons "description" (.optional .string) <|
    .cons "source_fields" (.default (.list FieldRef.serde) []) <|
    .cons "target_fields" (.default (.list FieldRef.serde) []) <|
    .cons "expression" (.optional .string) <|
    .cons "filter_predicate" (.optional .string) <|
    .cons "default_value" (.optional .json) <|
    .cons "aggregation" (.optional .string) <|
    .cons "metadata" (.default .map .empty) .nil).of
  (fun rule => (rule.ruleId, rule.ruleType, rule.name, rule.description, rule.sourceFields,
    rule.targetFields, rule.expression, rule.filterPredicate, rule.defaultValue, rule.aggregation,
    rule.metadata, ()))
  (fun (a, b, c, d, e, f, g, h, i, j, k, ()) => ⟨a, b, c, d, e, f, g, h, i, j, k⟩) fun _ => rfl

def TransformationRule.serde : Serde F (TransformationRule F) :=
  TransformationRule.record.serde (of_decide_eq_true rfl)

structure ExecutionEvent (T : Type) where
  executionId : String
  programId : String
  objectId : String
  connectorRunId : String
  toolName : String
  toolRunId : String
  stage : String
  status : ExecutionStatus
  happenedAt : T
  sourceSnapshotRef : Option String
  targetSnapshotRef : Option String
  recordsExamined : Option UInt64
  recordsAffected : Option UInt64
  metadata : HashMap

def ExecutionEvent.record [Rfc3339 T] : Record F (ExecutionEvent T) :=
  (Record.cons "execution_id" (.required .string) <|
    .cons "program_id" (.required .string) <|
    .cons "object_id" (.required .string) <|
    .cons "connector_run_id" (.required .string) <|
    .cons "tool_name" (.required .string) <|
    .cons "tool_run_id" (.required .string) <|
    .cons "stage" (.required .string) <|
    .cons "status" (.required ExecutionStatus.serde) <|
    .cons "happened_at" (.required .dateTime) <|
    .cons "source_snapshot_ref" (.optional .string) <|
    .cons "target_snapshot_ref" (.optional .string) <|
    .cons "records_examined" (.optional .u64) <|
    .cons "records_affected" (.optional .u64) <|
    .cons "metadata" (.default .map .empty) .nil).of
  (fun event => (event.executionId, event.programId, event.objectId, event.connectorRunId,
    event.toolName, event.toolRunId, event.stage, event.status, event.happenedAt,
    event.sourceSnapshotRef, event.targetSnapshotRef, event.recordsExamined, event.recordsAffected,
    event.metadata, ()))
  (fun (a, b, c, d, e, f, g, h, i, j, k, l, m, n, ()) =>
    ⟨a, b, c, d, e, f, g, h, i, j, k, l, m, n⟩) fun _ => rfl

def ExecutionEvent.serde [Rfc3339 T] : Serde F (ExecutionEvent T) :=
  ExecutionEvent.record.serde (of_decide_eq_true rfl)

structure ExceptionRecord (F T : Type) where
  exceptionId : String
  programId : String
  objectId : String
  severity : ExceptionSeverity
  status : ExceptionStatus
  category : String
  message : String
  sourceValue : Option (Json F)
  targetValue : Option (Json F)
  remediation : Option String
  detectedAt : T
  resolvedAt : Option T
  metadata : HashMap

def ExceptionRecord.record [Rfc3339 T] : Record F (ExceptionRecord F T) :=
  (Record.cons "exception_id" (.required .string) <|
    .cons "program_id" (.required .string) <|
    .cons "object_id" (.required .string) <|
    .cons "severity" (.required ExceptionSeverity.serde) <|
    .cons "status" (.required ExceptionStatus.serde) <|
    .cons "category" (.required .string) <|
    .cons "message" (.required .string) <|
    .cons "source_value" (.optional .json) <|
    .cons "target_value" (.optional .json) <|
    .cons "remediation" (.optional .string) <|
    .cons "detected_at" (.required .dateTime) <|
    .cons "resolved_at" (.optional .dateTime) <|
    .cons "metadata" (.default .map .empty) .nil).of
  (fun exception => (exception.exceptionId, exception.programId, exception.objectId,
    exception.severity, exception.status, exception.category, exception.message,
    exception.sourceValue, exception.targetValue, exception.remediation, exception.detectedAt,
    exception.resolvedAt, exception.metadata, ()))
  (fun (a, b, c, d, e, f, g, h, i, j, k, l, m, ()) => ⟨a, b, c, d, e, f, g, h, i, j, k, l, m⟩)
  fun _ => rfl

def ExceptionRecord.serde [Rfc3339 T] : Serde F (ExceptionRecord F T) :=
  ExceptionRecord.record.serde (of_decide_eq_true rfl)

structure ControlResult (F T : Type) where
  controlId : String
  programId : String
  objectId : String
  controlName : String
  controlType : String
  status : ControlStatus
  summary : String
  expectedValue : Option (Json F)
  actualValue : Option (Json F)
  tolerance : Option (Double F)
  executedAt : T
  evidenceRefs : List String
  metadata : HashMap

def ControlResult.record [Float64 F] [Rfc3339 T] : Record F (ControlResult F T) :=
  (Record.cons "control_id" (.required .string) <|
    .cons "program_id" (.required .string) <|
    .cons "object_id" (.required .string) <|
    .cons "control_name" (.required .string) <|
    .cons "control_type" (.required .string) <|
    .cons "status" (.required ControlStatus.serde) <|
    .cons "summary" (.required .string) <|
    .cons "expected_value" (.optional .json) <|
    .cons "actual_value" (.optional .json) <|
    .cons "tolerance" (.optional .double) <|
    .cons "executed_at" (.required .dateTime) <|
    .cons "evidence_refs" (.default (.list .string) []) <|
    .cons "metadata" (.default .map .empty) .nil).of
  (fun control => (control.controlId, control.programId, control.objectId, control.controlName,
    control.controlType, control.status, control.summary, control.expectedValue,
    control.actualValue, control.tolerance, control.executedAt, control.evidenceRefs,
    control.metadata, ()))
  (fun (a, b, c, d, e, f, g, h, i, j, k, l, m, ()) => ⟨a, b, c, d, e, f, g, h, i, j, k, l, m⟩)
  fun _ => rfl

def ControlResult.serde [Float64 F] [Rfc3339 T] : Serde F (ControlResult F T) :=
  ControlResult.record.serde (of_decide_eq_true rfl)

structure ApprovalEvent (T : Type) where
  approvalId : String
  programId : String
  objectId : String
  approverRole : String
  approverId : String
  status : ApprovalStatus
  comment : Option String
  approvedAt : T
  evidenceRefs : List String
  attestationRef : Option String
  metadata : HashMap

def ApprovalEvent.record [Rfc3339 T] : Record F (ApprovalEvent T) :=
  (Record.cons "approval_id" (.required .string) <|
    .cons "program_id" (.required .string) <|
    .cons "object_id" (.required .string) <|
    .cons "approver_role" (.required .string) <|
    .cons "approver_id" (.required .string) <|
    .cons "status" (.required ApprovalStatus.serde) <|
    .cons "comment" (.optional .string) <|
    .cons "approved_at" (.required .dateTime) <|
    .cons "evidence_refs" (.default (.list .string) []) <|
    .cons "attestation_ref" (.optional .string) <|
    .cons "metadata" (.default .map .empty) .nil).of
  (fun approval => (approval.approvalId, approval.programId, approval.objectId,
    approval.approverRole, approval.approverId, approval.status, approval.comment,
    approval.approvedAt, approval.evidenceRefs, approval.attestationRef, approval.metadata, ()))
  (fun (a, b, c, d, e, f, g, h, i, j, k, ()) => ⟨a, b, c, d, e, f, g, h, i, j, k⟩) fun _ => rfl

def ApprovalEvent.serde [Rfc3339 T] : Serde F (ApprovalEvent T) :=
  ApprovalEvent.record.serde (of_decide_eq_true rfl)

structure EvidencePacketSignature (T : Type) where
  algorithm : String
  payloadHashAlgorithm : String
  payloadHash : String
  publicKey : String
  keyFingerprint : String
  signature : String
  signedAt : T

def EvidencePacketSignature.record [Rfc3339 T] : Record F (EvidencePacketSignature T) :=
  (Record.cons "algorithm" (.required .string) <|
    .cons "payload_hash_algorithm" (.required .string) <|
    .cons "payload_hash" (.required .string) <|
    .cons "public_key" (.required .string) <|
    .cons "key_fingerprint" (.required .string) <|
    .cons "signature" (.required .string) <|
    .cons "signed_at" (.required .dateTime) .nil).of
  (fun signature => (signature.algorithm, signature.payloadHashAlgorithm, signature.payloadHash,
    signature.publicKey, signature.keyFingerprint, signature.signature, signature.signedAt, ()))
  (fun (a, b, c, d, e, f, g, ()) => ⟨a, b, c, d, e, f, g⟩) fun _ => rfl

def EvidencePacketSignature.serde [Rfc3339 T] : Serde F (EvidencePacketSignature T) :=
  EvidencePacketSignature.record.serde (of_decide_eq_true rfl)

structure EvidencePacket (F T : Type) where
  packetId : String
  programId : String
  objectId : String
  valueKey : String
  generatedAt : T
  sourceField : FieldRef
  targetField : FieldRef
  transformationRule : Option (TransformationRule F)
  executionEvent : Option (ExecutionEvent T)
  exceptions : List (ExceptionRecord F T)
  controls : List (ControlResult F T)
  approvals : List (ApprovalEvent T)
  graphRefs : List String
  narrative : Option String
  signature : Option (EvidencePacketSignature T)
  metadata : HashMap

def EvidencePacket.record [Float64 F] [Rfc3339 T] : Record F (EvidencePacket F T) :=
  (Record.cons "packet_id" (.required .string) <|
    .cons "program_id" (.required .string) <|
    .cons "object_id" (.required .string) <|
    .cons "value_key" (.required .string) <|
    .cons "generated_at" (.required .dateTime) <|
    .cons "source_field" (.required FieldRef.serde) <|
    .cons "target_field" (.required FieldRef.serde) <|
    .cons "transformation_rule" (.optional TransformationRule.serde) <|
    .cons "execution_event" (.optional ExecutionEvent.serde) <|
    .cons "exceptions" (.default (.list ExceptionRecord.serde) []) <|
    .cons "controls" (.default (.list ControlResult.serde) []) <|
    .cons "approvals" (.default (.list ApprovalEvent.serde) []) <|
    .cons "graph_refs" (.default (.list .string) []) <|
    .cons "narrative" (.optional .string) <|
    .cons "signature" (.optional EvidencePacketSignature.serde) <|
    .cons "metadata" (.default .map .empty) .nil).of
  (fun packet => (packet.packetId, packet.programId, packet.objectId, packet.valueKey,
    packet.generatedAt, packet.sourceField, packet.targetField, packet.transformationRule,
    packet.executionEvent, packet.exceptions, packet.controls, packet.approvals, packet.graphRefs,
    packet.narrative, packet.signature, packet.metadata, ()))
  (fun (a, b, c, d, e, f, g, h, i, j, k, l, m, n, o, p, ()) =>
    ⟨a, b, c, d, e, f, g, h, i, j, k, l, m, n, o, p⟩) fun _ => rfl

def EvidencePacket.serde [Float64 F] [Rfc3339 T] : Serde F (EvidencePacket F T) :=
  EvidencePacket.record.serde (of_decide_eq_true rfl)

/-! ## Packets up to the order of their maps -/

def TransformationRule.sorted (rule : TransformationRule F) : TransformationRule F :=
  { rule with metadata := rule.metadata.sorted }

def ExecutionEvent.sorted (event : ExecutionEvent T) : ExecutionEvent T :=
  { event with metadata := event.metadata.sorted }

def ExceptionRecord.sorted (exception : ExceptionRecord F T) : ExceptionRecord F T :=
  { exception with metadata := exception.metadata.sorted }

def ControlResult.sorted (control : ControlResult F T) : ControlResult F T :=
  { control with metadata := control.metadata.sorted }

def ApprovalEvent.sorted (approval : ApprovalEvent T) : ApprovalEvent T :=
  { approval with metadata := approval.metadata.sorted }

def EvidencePacket.sorted (packet : EvidencePacket F T) : EvidencePacket F T :=
  { packet with
    transformationRule := packet.transformationRule.map TransformationRule.sorted
    executionEvent := packet.executionEvent.map ExecutionEvent.sorted
    exceptions := packet.exceptions.map ExceptionRecord.sorted
    controls := packet.controls.map ControlResult.sorted
    approvals := packet.approvals.map ApprovalEvent.sorted
    metadata := packet.metadata.sorted }

def EvidencePacket.Finite (packet : EvidencePacket F T) : Prop :=
  ∀ control ∈ packet.controls, ∀ tolerance ∈ control.tolerance, tolerance.IsFinite

/-! ## What comes back through JSON text -/

/-- A `null` does not. -/
def Json.rereadOption (r : F → F) (json : Option (Json F)) : Option (Json F) :=
  json.bind fun json => if json.value.isNull then none else some (json.reread r)

/-- Infinities and NaNs are written as `null`. -/
def Double.rereadOption (r : F → F) (x : Option (Double F)) : Option (Double F) :=
  x.bind fun
    | .finite x => some (.finite (r x))
    | .nonFinite _ => none

def TransformationRule.reread (r : F → F) (rule : TransformationRule F) : TransformationRule F :=
  { rule.sorted with defaultValue := Json.rereadOption r rule.defaultValue }

def ExceptionRecord.reread (r : F → F) (exception : ExceptionRecord F T) : ExceptionRecord F T :=
  { exception.sorted with
    sourceValue := Json.rereadOption r exception.sourceValue
    targetValue := Json.rereadOption r exception.targetValue }

def ControlResult.reread (r : F → F) (control : ControlResult F T) : ControlResult F T :=
  { control.sorted with
    expectedValue := Json.rereadOption r control.expectedValue
    actualValue := Json.rereadOption r control.actualValue
    tolerance := Double.rereadOption r control.tolerance }

def EvidencePacket.reread (r : F → F) (packet : EvidencePacket F T) : EvidencePacket F T :=
  { packet.sorted with
    transformationRule := packet.transformationRule.map (TransformationRule.reread r)
    exceptions := packet.exceptions.map (ExceptionRecord.reread r)
    controls := packet.controls.map (ControlResult.reread r) }

/-! ## The codecs, by component -/

section Times

variable [Rfc3339 T]

@[simp] theorem Serde.sorted_dateTime : (Serde.dateTime : Serde F T).sorted = id := rfl

@[simp] theorem Serde.finite_dateTime (t : T) : (Serde.dateTime : Serde F T).Finite t ↔ True := .rfl

variable (r : F → F)

@[simp] theorem Serde.reread_dateTime :
    (Serde.dateTime : Serde F T).reread r = id := rfl

@[simp] theorem FieldRef.sorted_serde : (FieldRef.serde : Serde F FieldRef).sorted = id := by
  funext ref
  simp [FieldRef.serde, FieldRef.record]

@[simp] theorem FieldRef.reread_serde : (FieldRef.serde : Serde F FieldRef).reread r = id := by
  funext ref
  simp [FieldRef.serde, FieldRef.record]

@[simp] theorem FieldRef.finite_serde (ref : FieldRef) :
    (FieldRef.serde : Serde F FieldRef).Finite ref ↔ True := by
  simp [FieldRef.serde, FieldRef.record]

theorem Json.reread_optional (json : Option (Json F)) :
    (Field.optional .json).reread r json = Json.rereadOption r json := rfl

open Serde

theorem TransformationRule.components :
    (serde : Serde F (TransformationRule F)).sorted = sorted ∧ serde.reread r = reread r ∧
      ∀ rule : TransformationRule F, serde.Finite rule := by
  refine ⟨funext fun rule => ?_, funext fun rule => ?_, fun rule => ?_⟩ <;>
    simp [serde, record, sorted, reread, TransformationRuleType.serde, variants,
      Json.reread_optional]

theorem ExecutionEvent.components :
    (serde : Serde F (ExecutionEvent T)).sorted = sorted ∧
      (serde : Serde F (ExecutionEvent T)).reread r = sorted ∧
      ∀ event, (serde : Serde F (ExecutionEvent T)).Finite event := by
  refine ⟨funext fun event => ?_, funext fun event => ?_, fun event => ?_⟩ <;>
    simp [serde, record, sorted, ExecutionStatus.serde, variants, dateTime]

theorem ExceptionRecord.components :
    (serde : Serde F (ExceptionRecord F T)).sorted = sorted ∧
      (serde : Serde F (ExceptionRecord F T)).reread r = reread r ∧
      ∀ exception : ExceptionRecord F T, serde.Finite exception := by
  refine ⟨funext fun exception => ?_, funext fun exception => ?_, fun exception => ?_⟩ <;>
    simp [serde, record, sorted, reread, ExceptionSeverity.serde, ExceptionStatus.serde,
      variants, dateTime, Json.reread_optional]

theorem ApprovalEvent.components :
    (serde : Serde F (ApprovalEvent T)).sorted = sorted ∧
      (serde : Serde F (ApprovalEvent T)).reread r = sorted ∧
      ∀ approval, (serde : Serde F (ApprovalEvent T)).Finite approval := by
  refine ⟨funext fun approval => ?_, funext fun approval => ?_, fun approval => ?_⟩ <;>
    simp [serde, record, sorted, ApprovalStatus.serde, variants, dateTime]

theorem EvidencePacketSignature.components :
    (serde : Serde F (EvidencePacketSignature T)).sorted = id ∧
      (serde : Serde F (EvidencePacketSignature T)).reread r = id ∧
      ∀ signature, (serde : Serde F (EvidencePacketSignature T)).Finite signature := by
  refine ⟨funext fun signature => ?_, funext fun signature => ?_, fun signature => ?_⟩ <;>
    simp [serde, record, dateTime]

variable [Float64 F]

theorem Double.reread_optional (x : Option (Double F)) :
    (Field.optional .double).reread r x = Double.rereadOption r x := by
  cases x with
  | none => rfl
  | some x => cases x <;> rfl

theorem ControlResult.components :
    (serde : Serde F (ControlResult F T)).sorted = sorted ∧
      (serde : Serde F (ControlResult F T)).reread r = reread r ∧
      ∀ control : ControlResult F T, serde.Finite control ↔
        ∀ tolerance ∈ control.tolerance, tolerance.IsFinite := by
  refine ⟨funext fun control => ?_, funext fun control => ?_, fun control => ?_⟩ <;>
    simp [serde, record, sorted, reread, ControlStatus.serde, variants, dateTime,
      Json.reread_optional, Double.reread_optional]

theorem EvidencePacket.components :
    (serde : Serde F (EvidencePacket F T)).sorted = sorted ∧
      (serde : Serde F (EvidencePacket F T)).reread r = reread r ∧
      ∀ packet : EvidencePacket F T, serde.Finite packet ↔ packet.Finite := by
  have hrule (a : Option (TransformationRule F)) := Field.reread_optional
    (s := TransformationRule.serde) (fun _ => rfl) r a
  have hevent (a : Option (ExecutionEvent T)) := Field.reread_optional (F := F)
    (s := ExecutionEvent.serde) (fun _ => rfl) r a
  have hsignature (a : Option (EvidencePacketSignature T)) := Field.reread_optional (F := F)
    (s := EvidencePacketSignature.serde) (fun _ => rfl) r a
  refine ⟨funext fun packet => ?_, funext fun packet => ?_, fun packet => ?_⟩ <;>
    simp [serde, record, sorted, reread, EvidencePacket.Finite, dateTime,
      TransformationRule.components r, ExecutionEvent.components r, ExceptionRecord.components r,
      ControlResult.components r, ApprovalEvent.components r, EvidencePacketSignature.components r,
      hrule, hevent, hsignature]

end Times

/-! ## Which packets come back -/

def EvidencePacket.values (packet : EvidencePacket F T) : List (Json F) :=
  packet.transformationRule.toList.flatMap (fun rule => rule.defaultValue.toList) ++
    packet.exceptions.flatMap (fun exception =>
      exception.sourceValue.toList ++ exception.targetValue.toList) ++
    packet.controls.flatMap fun control => control.expectedValue.toList ++ control.actualValue.toList

/-- No value is `null`, and every float is read as the one that was written. -/
structure EvidencePacket.ReadsBack (r : F → F) (packet : EvidencePacket F T) : Prop where
  values : ∀ json ∈ packet.values, json.value.isNull = false ∧ ∀ x ∈ json.value.floats, r x = x
  tolerances : ∀ control ∈ packet.controls, ∀ tolerance ∈ control.tolerance,
    ∃ x, tolerance = .finite x ∧ r x = x

variable (r : F → F)

theorem Json.rereadOption_eq_self_iff (json : Option (Json F)) :
    Json.rereadOption r json = json ↔
      ∀ j ∈ json.toList, j.value.isNull = false ∧ ∀ x ∈ j.value.floats, r x = x := by
  cases json with
  | none => exact iff_of_true rfl nofun
  | some j =>
    rw [Option.toList_some, List.forall_mem_singleton, ← Value.reread_eq_self_iff, rereadOption,
      Option.bind_some]
    split_ifs with hnull
    · exact iff_of_false nofun fun h => by rw [h.1] at hnull; cases hnull
    · rw [Option.some.injEq, and_iff_right (eq_false_of_ne_true hnull)]
      exact ⟨fun h => congrArg Json.value h, fun h => Json.ext h⟩

theorem Double.rereadOption_eq_self_iff (x : Option (Double F)) :
    Double.rereadOption r x = x ↔ ∀ y ∈ x, ∃ z, y = .finite z ∧ r z = z := by
  cases x with
  | none => exact iff_of_true rfl nofun
  | some y => cases y <;> simp [rereadOption]

theorem TransformationRule.reread_eq_sorted_iff (rule : TransformationRule F) :
    rule.reread r = rule.sorted ↔ Json.rereadOption r rule.defaultValue = rule.defaultValue := by
  simp [reread, sorted]

theorem ExceptionRecord.reread_eq_sorted_iff (exception : ExceptionRecord F T) :
    exception.reread r = exception.sorted ↔
      Json.rereadOption r exception.sourceValue = exception.sourceValue ∧
        Json.rereadOption r exception.targetValue = exception.targetValue := by
  simp [reread, sorted]

theorem ControlResult.reread_eq_sorted_iff (control : ControlResult F T) :
    control.reread r = control.sorted ↔
      Json.rereadOption r control.expectedValue = control.expectedValue ∧
        Json.rereadOption r control.actualValue = control.actualValue ∧
        Double.rereadOption r control.tolerance = control.tolerance := by
  simp [reread, sorted]

theorem EvidencePacket.reread_eq_sorted_iff (packet : EvidencePacket F T) :
    packet.reread r = packet.sorted ↔ packet.ReadsBack r := by
  have hparts : packet.reread r = packet.sorted ↔
      packet.transformationRule.map (TransformationRule.reread r) =
        packet.transformationRule.map TransformationRule.sorted ∧
      packet.exceptions.map (ExceptionRecord.reread r) =
        packet.exceptions.map ExceptionRecord.sorted ∧
      packet.controls.map (ControlResult.reread r) = packet.controls.map ControlResult.sorted := by
    simp [reread, sorted]
  have hrule : packet.transformationRule.map (TransformationRule.reread r) =
      packet.transformationRule.map TransformationRule.sorted ↔
        ∀ rule ∈ packet.transformationRule.toList, rule.reread r = rule.sorted := by
    cases packet.transformationRule <;> simp
  rw [hparts, hrule, List.map_inj_left, List.map_inj_left]
  simp only [TransformationRule.reread_eq_sorted_iff, ExceptionRecord.reread_eq_sorted_iff,
    ControlResult.reread_eq_sorted_iff, Json.rereadOption_eq_self_iff,
    Double.rereadOption_eq_self_iff]
  constructor
  · rintro ⟨hrules, hexceptions, hcontrols⟩
    refine ⟨?_, fun control hcontrol => (hcontrols control hcontrol).2.2⟩
    rw [values, List.forall_mem_append, List.forall_mem_append, List.forall_mem_flatMap,
      List.forall_mem_flatMap, List.forall_mem_flatMap]
    refine ⟨⟨hrules, fun exception hexception => ?_⟩, fun control hcontrol => ?_⟩
    · exact List.forall_mem_append.mpr (hexceptions exception hexception)
    · obtain ⟨hexpected, hactual, -⟩ := hcontrols control hcontrol
      exact List.forall_mem_append.mpr ⟨hexpected, hactual⟩
  · rintro ⟨hvalues, htolerances⟩
    rw [values, List.forall_mem_append, List.forall_mem_append, List.forall_mem_flatMap,
      List.forall_mem_flatMap, List.forall_mem_flatMap] at hvalues
    obtain ⟨⟨hrules, hexceptions⟩, hcontrols⟩ := hvalues
    refine ⟨hrules, fun exception hexception => ?_, fun control hcontrol => ?_⟩
    · exact List.forall_mem_append.mp (hexceptions exception hexception)
    · obtain ⟨hexpected, hactual⟩ := List.forall_mem_append.mp (hcontrols control hcontrol)
      exact ⟨hexpected, hactual, htolerances control hcontrol⟩

theorem TransformationRule.sorted_sorted (rule : TransformationRule F) :
    rule.sorted.sorted = rule.sorted := by
  simp [sorted, HashMap.sorted_sorted]

theorem ExecutionEvent.sorted_sorted (event : ExecutionEvent T) :
    event.sorted.sorted = event.sorted := by
  simp [sorted, HashMap.sorted_sorted]

theorem ExceptionRecord.sorted_sorted (exception : ExceptionRecord F T) :
    exception.sorted.sorted = exception.sorted := by
  simp [sorted, HashMap.sorted_sorted]

theorem ControlResult.sorted_sorted (control : ControlResult F T) :
    control.sorted.sorted = control.sorted := by
  simp [sorted, HashMap.sorted_sorted]

theorem ApprovalEvent.sorted_sorted (approval : ApprovalEvent T) :
    approval.sorted.sorted = approval.sorted := by
  simp [sorted, HashMap.sorted_sorted]

theorem EvidencePacket.sorted_reread (packet : EvidencePacket F T) :
    (packet.reread r).sorted = packet.reread r := by
  have hrule (rule : TransformationRule F) : (rule.reread r).sorted = rule.reread r := by
    simp [TransformationRule.reread, TransformationRule.sorted, HashMap.sorted_sorted]
  have hexception (exception : ExceptionRecord F T) :
      (exception.reread r).sorted = exception.reread r := by
    simp [ExceptionRecord.reread, ExceptionRecord.sorted, HashMap.sorted_sorted]
  have hcontrol (control : ControlResult F T) : (control.reread r).sorted = control.reread r := by
    simp [ControlResult.reread, ControlResult.sorted, HashMap.sorted_sorted]
  simp [reread, sorted, HashMap.sorted_sorted, Function.comp_def, hrule,
    ExecutionEvent.sorted_sorted, hexception, hcontrol, ApprovalEvent.sorted_sorted]

end Arcxa.Traceability
