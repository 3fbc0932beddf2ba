import Arcxa.Traceability.EvidencePacket

/-!
# What was read comes back

A record that was read from JSON has no `null` for an optional value, and its floats are finite. So
it comes back when it is written as JSON and read again, with its maps in the order of their keys.
A packet that is made of such records does as well.
-/

namespace Arcxa.Traceability

open Workflow (Value Float64)

variable {F A B S T : Type}

/-- What was read comes back, and was no `null` unless that was read. -/
class Serde.ComesBack (s : Serde F A) : Prop where
  same : ∀ v a, s.fromValue v = some a → s.Finite a ∧ s.reread id a = s.sorted a
  notNull : ∀ v a, s.fromValue v = some a → v.isNull = false → (s.toValue a).isNull = false

class Field.ComesBack (field : Field F A) : Prop where
  same : ∀ v a, field.read v = some a → field.Finite a ∧ field.reread id a = field.sorted a

class Record.ComesBack (record : Record F A) : Prop where
  same : ∀ get a, record.read get = some a → record.Finite a ∧ record.reread id a = record.sorted a

/-! ## Codecs -/

namespace Serde

instance comesBack_string : (string : Serde F String).ComesBack :=
  ⟨fun _ _ _ => ⟨trivial, rfl⟩, fun _ _ _ _ => rfl⟩

theorem comesBack_text (toText : A → String) (ofText : String → Option A)
    (h : ∀ a, ofText (toText a) = some a) : (text toText ofText h : Serde F A).ComesBack :=
  ⟨fun _ _ _ => ⟨trivial, rfl⟩, fun _ _ _ _ => rfl⟩

instance comesBack_variants (all : List A) (name : A → String) (hall : ∀ a, a ∈ all)
    (hnames : (all.map name).Nodup) : (variants all name hall hnames : Serde F A).ComesBack :=
  comesBack_text _ _ _

instance comesBack_dateTime [Rfc3339 T] : (dateTime : Serde F T).ComesBack := comesBack_text _ _ _

instance comesBack_json : (json : Serde F (Json F)).ComesBack := by
  refine ⟨fun v a _ => ⟨trivial, ?_⟩, ?_⟩
  · exact Json.ext ((Value.reread_eq_self_iff id a.value).mpr fun _ _ => rfl)
  · intro v a hread hnull
    cases Option.some.inj hread
    cases v <;> first | rfl | cases hnull

instance comesBack_double [Float64 F] : (double : Serde F (Double F)).ComesBack := by
  have hfinite : ∀ v (a : Double F), double.fromValue v = some a → ∃ x, a = .finite x := by
    intro v a hread
    cases v with
    | number n => exact ⟨_, (Option.some.inj hread).symm⟩
    | null | bool | string | array | object => cases hread
  constructor
  · intro v a hread
    obtain ⟨x, rfl⟩ := hfinite v a hread
    exact ⟨trivial, rfl⟩
  · intro v a hread _
    obtain ⟨x, rfl⟩ := hfinite v a hread
    rfl

instance comesBack_map : (map : Serde F HashMap).ComesBack :=
  ⟨fun _ _ _ => ⟨trivial, rfl⟩, fun _ _ _ _ => rfl⟩

instance comesBack_list {s : Serde F A} [h : s.ComesBack] : s.list.ComesBack := by
  constructor
  · intro v l hread
    cases v with
    | array items =>
      have hread : items.mapM s.fromValue = some l := hread
      have hall : ∀ a ∈ l, s.Finite a ∧ s.reread id a = s.sorted a := by
        induction items generalizing l with
        | nil =>
          cases Option.some.inj hread
          exact List.forall_mem_nil _
        | cons v items ih =>
          rw [List.mapM_cons] at hread
          obtain ⟨a, ha, hread⟩ := Option.bind_eq_some_iff.mp hread
          obtain ⟨rest, hrest, hread⟩ := Option.bind_eq_some_iff.mp hread
          cases Option.some.inj hread
          exact List.forall_mem_cons.mpr ⟨h.same v a ha, ih rest hrest hrest⟩
      exact ⟨fun a ha => (hall a ha).1, List.map_congr_left fun a ha => (hall a ha).2⟩
    | null | bool | number | string | object => cases hread
  · intro v l _ _
    rfl

end Serde

/-! ## Fields and records -/

namespace Field

instance comesBack_required {s : Serde F A} [h : s.ComesBack] : (required s).ComesBack := by
  refine ⟨fun v a hread => ?_⟩
  obtain ⟨w, -, hw⟩ := Option.bind_eq_some_iff.mp hread
  exact h.same w a hw

theorem comesBack_default {s : Serde F A} [h : s.ComesBack] {d : A}
    (hd : s.Finite d ∧ s.reread id d = s.sorted d) : (default s d).ComesBack := by
  refine ⟨fun v a hread => ?_⟩
  cases v with
  | none =>
    cases Option.some.inj hread
    exact hd
  | some v => exact h.same v a hread

instance comesBack_defaultList {s : Serde F A} [s.ComesBack] : (default s.list []).ComesBack :=
  comesBack_default ⟨List.forall_mem_nil _, rfl⟩

instance comesBack_metadata : (default Serde.map .empty : Field F HashMap).ComesBack :=
  comesBack_default ⟨trivial, rfl⟩

instance comesBack_optional {s : Serde F A} [h : s.ComesBack] : (optional s).ComesBack := by
  refine ⟨fun v a hread => ?_⟩
  have hnone : (optional s).Finite none ∧ (optional s).reread id none = (optional s).sorted none :=
    ⟨nofun, rfl⟩
  cases v with
  | none =>
    cases Option.some.inj hread
    exact hnone
  | some v =>
    have hread : (if v.isNull then some none else (s.fromValue v).map some) = some a := hread
    split_ifs at hread with hnull
    · cases Option.some.inj hread
      exact hnone
    · obtain ⟨x, hx, rfl⟩ := Option.map_eq_some_iff.mp hread
      obtain ⟨hfinite, hsame⟩ := h.same v x hx
      refine ⟨fun y hy => Option.some.inj hy ▸ hfinite, ?_⟩
      show (if (s.toValue x).isNull then none else some (s.reread id x)) = some (s.sorted x)
      rw [h.notNull v x hx (eq_false_of_ne_true hnull), hsame]
      rfl

end Field

namespace Record

instance comesBack_nil : (nil : Record F Unit).ComesBack := ⟨fun _ _ _ => ⟨trivial, rfl⟩⟩

instance comesBack_cons {name : String} {field : Field F A} {rest : Record F B}
    [hfield : field.ComesBack] [hrest : rest.ComesBack] : (cons name field rest).ComesBack := by
  refine ⟨fun get p hread => ?_⟩
  obtain ⟨a, ha, hread⟩ := Option.bind_eq_some_iff.mp hread
  obtain ⟨b, hb, hread⟩ := Option.bind_eq_some_iff.mp hread
  cases Option.some.inj hread
  obtain ⟨hfa, hsa⟩ := hfield.same _ a ha
  obtain ⟨hfb, hsb⟩ := hrest.same get b hb
  exact ⟨⟨hfa, hfb⟩, Prod.ext hsa hsb⟩

instance comesBack_of {record : Record F A} [hrecord : record.ComesBack] {fields : S → A}
    {make : A → S} (h : ∀ a, fields (make a) = a) : (record.of fields make h).ComesBack := by
  refine ⟨fun get s hread => ?_⟩
  obtain ⟨a, ha, rfl⟩ := Option.map_eq_some_iff.mp hread
  obtain ⟨hfinite, hsame⟩ := hrecord.same get a ha
  simp only [finite_of, reread_of, sorted_of, h]
  exact ⟨hfinite, congrArg make hsame⟩

instance comesBack_serde {record : Record F A} [hrecord : record.ComesBack]
    (hnames : record.names.Nodup) : (record.serde hnames).ComesBack := by
  constructor
  · intro v a hread
    cases v with
    | object fields => exact hrecord.same _ a hread
    | null | bool | number | string | array => cases hread
  · intro v a _ _
    rfl

end Record

/-! ## Artifacts -/

section Artifacts

instance : (TransformationRuleType.serde : Serde F _).ComesBack := Serde.comesBack_variants _ _ _ _

instance : (ExceptionSeverity.serde : Serde F _).ComesBack := Serde.comesBack_variants _ _ _ _

instance : (ExceptionStatus.serde : Serde F _).ComesBack := Serde.comesBack_variants _ _ _ _

instance : (ControlStatus.serde : Serde F _).ComesBack := Serde.comesBack_variants _ _ _ _

instance FieldRef.comesBack : (FieldRef.serde : Serde F FieldRef).ComesBack := by
  refine @Record.comesBack_serde _ _ _ ?_ _
  unfold FieldRef.record
  infer_instance

instance TransformationRule.comesBack :
    (TransformationRule.serde : Serde F (TransformationRule F)).ComesBack := by
  refine @Record.comesBack_serde _ _ _ ?_ _
  unfold TransformationRule.record
  infer_instance

instance ExceptionRecord.comesBack [Rfc3339 T] :
    (ExceptionRecord.serde : Serde F (ExceptionRecord F T)).ComesBack := by
  refine @Record.comesBack_serde _ _ _ ?_ _
  unfold ExceptionRecord.record
  infer_instance

instance ControlResult.comesBack [Float64 F] [Rfc3339 T] :
    (ControlResult.serde : Serde F (ControlResult F T)).ComesBack := by
  refine @Record.comesBack_serde _ _ _ ?_ _
  unfold ControlResult.record
  infer_instance

end Artifacts

/-! ## Packets -/

section Packets

theorem TransformationRule.reread_eq_sorted {rule : TransformationRule F} {v : Value F}
    (h : TransformationRule.serde.fromValue v = some rule) : rule.reread id = rule.sorted := by
  obtain ⟨hsorted, hreread, -⟩ := TransformationRule.components (F := F) id
  rw [← hsorted, ← hreread]
  exact (TransformationRule.comesBack.same v rule h).2

variable [Rfc3339 T]

theorem ExceptionRecord.reread_eq_sorted {exception : ExceptionRecord F T} {v : Value F}
    (h : ExceptionRecord.serde.fromValue v = some exception) :
    exception.reread id = exception.sorted := by
  obtain ⟨hsorted, hreread, -⟩ := ExceptionRecord.components (F := F) (T := T) id
  rw [← hsorted, ← hreread]
  exact (ExceptionRecord.comesBack.same v exception h).2

variable [Float64 F]

/-- What a packet is made of was read from JSON. -/
structure EvidencePacket.FromJson (packet : EvidencePacket F T) : Prop where
  rule : ∀ rule ∈ packet.transformationRule,
    ∃ v : Value F, TransformationRule.serde.fromValue v = some rule
  exceptions : ∀ exception ∈ packet.exceptions,
    ∃ v : Value F, ExceptionRecord.serde.fromValue v = some exception
  controls : ∀ control ∈ packet.controls,
    ∃ v : Value F, ControlResult.serde.fromValue v = some control

theorem ControlResult.reread_eq_sorted {control : ControlResult F T} {v : Value F}
    (h : ControlResult.serde.fromValue v = some control) :
    control.reread id = control.sorted ∧ ∀ tolerance ∈ control.tolerance, tolerance.IsFinite := by
  obtain ⟨hsorted, hreread, hfinite⟩ := ControlResult.components (F := F) (T := T) id
  rw [← hsorted, ← hreread, ← hfinite]
  exact (ControlResult.comesBack.same v control h).symm

/-- **A packet that is made of what was read comes back**, with its maps in key order. -/
theorem EvidencePacket.FromJson.read {packet : EvidencePacket F T} (h : packet.FromJson) :
    EvidencePacket.serde.fromValue (EvidencePacket.serde.toValue packet) = some packet.sorted := by
  obtain ⟨-, hreread, hfinite⟩ := EvidencePacket.components (F := F) (T := T) id
  have hpacket : packet.Finite := by
    intro control hcontrol
    obtain ⟨v, hv⟩ := h.controls control hcontrol
    exact (ControlResult.reread_eq_sorted hv).2
  have hback := EvidencePacket.serde.fromValue_reread id packet ((hfinite packet).mpr hpacket)
  rw [(Value.reread_eq_self_iff id _).mpr fun _ _ => rfl, hreread] at hback
  rw [hback]
  have hrule : packet.transformationRule.map (TransformationRule.reread id) =
      packet.transformationRule.map TransformationRule.sorted := by
    refine Option.map_congr fun rule hrule => ?_
    obtain ⟨v, hv⟩ := h.rule rule hrule
    exact TransformationRule.reread_eq_sorted hv
  have hexceptions : packet.exceptions.map (ExceptionRecord.reread id) =
      packet.exceptions.map ExceptionRecord.sorted := by
    refine List.map_congr_left fun exception hexception => ?_
    obtain ⟨v, hv⟩ := h.exceptions exception hexception
    exact ExceptionRecord.reread_eq_sorted hv
  have hcontrols : packet.controls.map (ControlResult.reread id) =
      packet.controls.map ControlResult.sorted := by
    refine List.map_congr_left fun control hcontrol => ?_
    obtain ⟨v, hv⟩ := h.controls control hcontrol
    exact (ControlResult.reread_eq_sorted hv).1
  rw [EvidencePacket.reread, hrule, hexceptions, hcontrols]
  rfl

end Packets

end Arcxa.Traceability
