import Arcxa.Audit.Bytes
import Arcxa.Lib.Base64
import Arcxa.Traceability.EvidencePacket

/-!
# Signatures of evidence packets

A packet is signed over its canonical payload: its JSON without the signature, with the keys of
every object in order. SHA-256, base64, Ed25519 and the reading of JSON text are libraries
(`SigningLibs`).

A signature binds the packet, all of it but the signature itself, and does not depend on the order
in which its maps are iterated. It does not always outlive JSON text: an optional value that is
`null` is read as no value, a float may be read as a neighbouring one, and text that is nested more
than 127 deep is not read at all. `binds_iff` has these as the exact conditions.
-/

namespace Arcxa.Traceability

open Workflow (Value Float64 Decimal)
open Audit (FixedBytes Hash)
open EvidencePacket

variable {F T K V : Type}

/-- The library functions, for signing keys `K` and verifying keys `V`. -/
structure SigningLibs (F K V : Type) where
  sha256 : Bytes → Hash
  base64Encode : Bytes → String
  base64Decode : String → Option Bytes
  verifyingKey : K → V
  keyToBytes : V → FixedBytes 32
  keyFromBytes : FixedBytes 32 → Option V
  sign : K → Bytes → FixedBytes 64
  verify : V → Bytes → FixedBytes 64 → Bool
  /-- `serde_json::from_slice`. -/
  fromSlice : Bytes → Option (Value F)
  /-- The float that is read where another one was written. -/
  readFloat : F → F

/-- Base64 and keys come back from their texts and bytes, and Ed25519 accepts what was signed. -/
structure SigningLibs.Lawful (libs : SigningLibs F K V) : Prop where
  base64 : ∀ bytes, libs.base64Decode (libs.base64Encode bytes) = some bytes
  keyFromBytes : ∀ k, libs.keyFromBytes (libs.keyToBytes (libs.verifyingKey k)) =
    some (libs.verifyingKey k)
  verify : ∀ k message, libs.verify (libs.verifyingKey k) message (libs.sign k message) = true

section Signing

variable [Float64 F] [Rfc3339 T] (libs : SigningLibs F K V)

def SIGNATURE_ALGORITHM : String := "ed25519"

def HASH_ALGORITHM : String := "sha256"

def sha256Prefixed (value : Bytes) : String := "sha256:" ++ (libs.sha256 value).toHex

def canonicalPacketPayload (packet : EvidencePacket F T) : Bytes :=
  let value : Value F := match EvidencePacket.serde.toValue packet with
    | .object fields => .object (fields.filter fun field => decide (field.1 ≠ "signature"))
    | value => value
  value.canonicalizeValue.toVec

def buildEvidencePacketSignature (packet : EvidencePacket F T) (signingKey : K) (now : T) :
    EvidencePacketSignature T :=
  let payload := canonicalPacketPayload packet
  let signature := libs.sign signingKey payload
  let publicKey := libs.keyToBytes (libs.verifyingKey signingKey)
  { algorithm := SIGNATURE_ALGORITHM
    payloadHashAlgorithm := HASH_ALGORITHM
    payloadHash := sha256Prefixed libs payload
    publicKey := libs.base64Encode publicKey.bytes
    keyFingerprint := sha256Prefixed libs publicKey.bytes
    signature := libs.base64Encode signature.bytes
    signedAt := now }

/-- `try_into` an array. -/
def toArray (n : Nat) (bytes : Bytes) : Option (FixedBytes n) :=
  if h : bytes.length = n then some ⟨bytes, h⟩ else none

def verifyEvidencePacketSignature (packet : EvidencePacket F T)
    (signature : EvidencePacketSignature T) : Bool :=
  if signature.algorithm ≠ SIGNATURE_ALGORITHM ∨ signature.payloadHashAlgorithm ≠ HASH_ALGORITHM then
    false
  else
    let payload := canonicalPacketPayload packet
    if signature.payloadHash ≠ sha256Prefixed libs payload then
      false
    else
      match (libs.base64Decode signature.publicKey).bind (toArray 32) with
      | none => false
      | some publicKeyBytes =>
        if signature.keyFingerprint ≠ sha256Prefixed libs publicKeyBytes.bytes then
          false
        else
          match libs.keyFromBytes publicKeyBytes with
          | none => false
          | some verifyingKey =>
            match (libs.base64Decode signature.signature).bind (toArray 64) with
            | none => false
            | some signature => libs.verify verifyingKey payload signature

end Signing

/-! ## The payload -/

def EvidencePacket.unsigned (packet : EvidencePacket F T) : EvidencePacket F T :=
  { packet with signature := none }

variable {packet other : EvidencePacket F T}

theorem EvidencePacket.sorted_of_unsigned
    (hsignature : other.signature = packet.signature)
    (h : other.unsigned.sorted = packet.unsigned.sorted) : other.sorted = packet.sorted := by
  simp only [unsigned, sorted, mk.injEq] at h ⊢
  simp only [h, hsignature, and_self]

theorem EvidencePacket.unsigned_of_sorted
    (h : other.sorted = packet.sorted) : other.signature = packet.signature ∧
      other.unsigned.sorted = packet.unsigned.sorted := by
  simp only [unsigned, sorted, mk.injEq] at h ⊢
  simp only [h, and_self]

section Payload

variable [Rfc3339 T]

theorem EvidencePacketSignature.names_nodup :
    (record : Record F (EvidencePacketSignature T)).names.Nodup := of_decide_eq_true rfl

theorem EvidencePacketSignature.depth_toValue_le (signature : EvidencePacketSignature T) :
    (serde.toValue signature : Value F).depth ≤ 1 := by
  refine (record.depth_toValue_le_iff names_nodup).mpr fun v hv => ?_
  have hstring : ∃ s, v = .string s := by
    simp only [record, Record.of, Record.cons, Record.nil, Field.required, Serde.string, Serde.plain,
      Serde.dateTime, Serde.text, List.mem_cons, Option.some.injEq, List.not_mem_nil, or_false] at hv
    rcases hv with rfl | rfl | rfl | rfl | rfl | rfl | rfl <;> exact ⟨_, rfl⟩
  obtain ⟨s, rfl⟩ := hstring
  exact Nat.le_refl 0

variable [Float64 F]

theorem EvidencePacket.names_nodup :
    (record : Record F (EvidencePacket F T)).names.Nodup := of_decide_eq_true rfl

theorem EvidencePacket.write_unsigned (packet : EvidencePacket F T) :
    record.write packet.unsigned = (record : Record F (EvidencePacket F T)).names.zipWith
      (fun name value => if name = "signature" then none else value) (record.write packet) := by
  simp [record, unsigned, Field.optional]

theorem canonicalPacketPayload_eq (packet : EvidencePacket F T) :
    canonicalPacketPayload packet = (EvidencePacket.serde.toValue packet.unsigned).toVec := by
  have hskipped : record.object packet.unsigned =
      (record.object packet).remove "signature" :=
    record.object_of_skipped names_nodup packet.write_unsigned
  have hordered := serde.ordered packet.unsigned
  have hvalue : serde.toValue packet.unsigned = Value.object
      ((record.object packet).entries.filter fun field =>
        decide (field.1 ≠ "signature")) := by
    show Value.object (record.object packet.unsigned).entries = _
    rw [hskipped]
    rfl
  rw [← Value.canonicalizeValue_of_ordered hordered, hvalue]
  rfl

theorem EvidencePacket.toValue_sorted (packet : EvidencePacket F T) :
    serde.toValue packet.sorted = serde.toValue packet := by
  rw [← (components (F := F) (T := T) id).1, serde.toValue_sorted]

theorem canonicalPacketPayload_of_sorted
    (h : other.unsigned.sorted = packet.unsigned.sorted) :
    canonicalPacketPayload other = canonicalPacketPayload packet := by
  rw [canonicalPacketPayload_eq, canonicalPacketPayload_eq,
    ← toValue_sorted other.unsigned, h, toValue_sorted]

theorem sorted_of_canonicalPacketPayload [Decimal F]
    (hfinite : packet.Finite) (h : canonicalPacketPayload other = canonicalPacketPayload packet) :
    other.unsigned.sorted = packet.unsigned.sorted := by
  rw [canonicalPacketPayload_eq, canonicalPacketPayload_eq] at h
  have hvalue := (Value.toVec_injective h).symm
  obtain ⟨hsorted, -, hcomponents⟩ := components (F := F) (T := T) id
  have heq := serde.sorted_of_toValue packet.unsigned other.unsigned
    ((hcomponents _).mpr hfinite) hvalue
  rw [hsorted] at heq
  exact heq.symm

theorem EvidencePacket.depth_signed_le_iff (packet : EvidencePacket F T)
    (signature : EvidencePacketSignature T) :
    (serde.toValue { packet with signature := some signature }).depth ≤ 127 ↔
      (serde.toValue packet.unsigned).depth ≤ 127 := by
  have hsignature : (EvidencePacketSignature.serde.toValue signature : Value F).depth ≤ 126 :=
    le_trans signature.depth_toValue_le (by decide)
  refine (record.depth_toValue_le_iff names_nodup).trans
    (Iff.trans ?_ (record.depth_toValue_le_iff names_nodup).symm)
  simp [record, unsigned, Field.optional, or_imp, forall_and, hsignature]

end Payload

/-! ## Verification -/

theorem digitChar_inj {n m : Nat} (hn : n < 16) (hm : m < 16)
    (h : Nat.digitChar n = Nat.digitChar m) : n = m := by
  have hall : ∀ n m : Fin 16, Nat.digitChar n = Nat.digitChar m → n = m := by decide
  exact congrArg Fin.val (hall ⟨n, hn⟩ ⟨m, hm⟩ h)

theorem toHex_inj {a b : Hash} (h : a.toHex = b.toHex) : a = b := by
  have hchars := String.ofList_inj.mp h
  have hbytes : ∀ l l' : Bytes,
      l.flatMap (fun b => [Nat.digitChar (b.toNat / 16), Nat.digitChar (b.toNat % 16)]) =
        l'.flatMap (fun b => [Nat.digitChar (b.toNat / 16), Nat.digitChar (b.toNat % 16)]) →
      l = l' := by
    intro l
    induction l with
    | nil =>
      intro l' heq
      cases l' with
      | nil => rfl
      | cons b l' => cases heq
    | cons b l ih =>
      intro l' heq
      cases l' with
      | nil => cases heq
      | cons c l' =>
        obtain ⟨hhigh, htail⟩ := List.cons.inj heq
        obtain ⟨hlow, htail⟩ := List.cons.inj htail
        have hb := b.toNat_lt
        have hc := c.toNat_lt
        have hdiv := digitChar_inj (by omega) (by omega) hhigh
        have hmod := digitChar_inj (by omega) (by omega) hlow
        have hbyte : b = c := UInt8.toNat_inj.mp (by omega)
        rw [hbyte, ih l' htail]
  exact Audit.FixedBytes.ext (hbytes _ _ hchars)

section Verification

variable (libs : SigningLibs F K V)

theorem sha256Prefixed_inj {bytes bytes' : Bytes}
    (h : sha256Prefixed libs bytes = sha256Prefixed libs bytes') :
    libs.sha256 bytes = libs.sha256 bytes' := by
  have hchars := congrArg String.toList h
  rw [sha256Prefixed, sha256Prefixed, String.toList_append, String.toList_append] at hchars
  exact toHex_inj (String.toList_inj.mp (List.append_cancel_left hchars))

theorem toArray_bytes {n : Nat} (bytes : FixedBytes n) : toArray n bytes.bytes = some bytes := by
  rw [toArray, dif_pos bytes.length_bytes]

variable [Float64 F] [Rfc3339 T]

theorem payloadHash_of_verify {packet : EvidencePacket F T} {signature : EvidencePacketSignature T}
    (h : verifyEvidencePacketSignature libs packet signature = true) :
    signature.payloadHash = sha256Prefixed libs (canonicalPacketPayload packet) := by
  unfold verifyEvidencePacketSignature at h
  by_contra hne
  simp only [hne, ne_eq, not_false_eq_true, if_true] at h
  split_ifs at h

theorem verify_of_payload (hlibs : libs.Lawful) {k : K} {now : T}
    (h : canonicalPacketPayload other = canonicalPacketPayload packet) :
    verifyEvidencePacketSignature libs other (buildEvidencePacketSignature libs packet k now) =
      true := by
  simp only [verifyEvidencePacketSignature, buildEvidencePacketSignature, h, ne_eq, not_true_eq_false,
    or_self, if_false, hlibs.base64, Option.bind_some, toArray_bytes, hlibs.keyFromBytes,
    hlibs.verify]

end Verification

/-! ## What a signature binds -/

section Binding

variable [Float64 F] [Rfc3339 T] (libs : SigningLibs F K V)

def EvidencePacket.signed (packet : EvidencePacket F T) (k : K) (now : T) : EvidencePacket F T :=
  { packet with signature := some (buildEvidencePacketSignature libs packet k now) }

theorem EvidencePacket.unsigned_signed (packet : EvidencePacket F T) (k : K) (now : T) :
    (packet.signed libs k now).unsigned = packet.unsigned := by
  unfold signed unsigned
  rfl

theorem EvidencePacket.signature_signed (packet : EvidencePacket F T) (k : K) (now : T) :
    (packet.signed libs k now).signature =
      some (buildEvidencePacketSignature libs packet k now) := by
  unfold signed
  rfl

/-- What is assumed of the libraries where they meet a packet. -/
structure SigningLibs.Trusted (packet : EvidencePacket F T) (k : K) (now : T) : Prop where
  /-- Nothing else has the hash of the payload. -/
  collisionFree : ∀ bytes, libs.sha256 bytes = libs.sha256 (canonicalPacketPayload packet) →
    bytes = canonicalPacketPayload packet
  /-- JSON text is read as it was written, but for its floats and up to the recursion limit. -/
  fromSlice : ∀ value, value = EvidencePacket.serde.toValue (packet.signed libs k now) →
    libs.fromSlice value.toVec = if value.depth ≤ 127 then some (value.reread libs.readFloat) else none

/-- A signature binds the whole packet. -/
structure Binds (packet : EvidencePacket F T) (k : K) (now : T) : Prop where
  verifies : verifyEvidencePacketSignature libs (packet.signed libs k now)
    (buildEvidencePacketSignature libs packet k now) = true
  /-- The payload depends neither on the order of the maps nor on the signature. -/
  payload : ∀ other : EvidencePacket F T, other.unsigned.sorted = packet.unsigned.sorted →
    canonicalPacketPayload other = canonicalPacketPayload packet
  /-- The signed packet comes back through JSON text as one whose signature is accepted, however
  its maps are iterated. -/
  survives : ∃ value back,
    libs.fromSlice (EvidencePacket.serde.toValue (packet.signed libs k now)).toVec = some value ∧
      EvidencePacket.serde.fromValue value = some back ∧
      ∀ other : EvidencePacket F T, other.sorted = back.sorted →
        ∃ signature, other.signature = some signature ∧
          verifyEvidencePacketSignature libs other signature = true
  /-- No other packet has the signature. -/
  binds : ∀ other : EvidencePacket F T,
    verifyEvidencePacketSignature libs other (buildEvidencePacketSignature libs packet k now) = true →
      other.unsigned.sorted = packet.unsigned.sorted

variable {libs}

theorem sorted_of_verify [Decimal F] {k : K} {now : T}
    (hfinite : packet.Finite) (htrusted : libs.Trusted packet k now)
    (h : verifyEvidencePacketSignature libs other
      (buildEvidencePacketSignature libs packet k now) = true) :
    other.unsigned.sorted = packet.unsigned.sorted := by
  have hhash := sha256Prefixed_inj libs (payloadHash_of_verify libs h)
  exact sorted_of_canonicalPacketPayload hfinite (htrusted.collisionFree _ hhash.symm)

theorem EvidencePacket.readsBack_signed (r : F → F) (packet : EvidencePacket F T) (k : K) (now : T) :
    (packet.signed libs k now).ReadsBack r ↔ packet.ReadsBack r :=
  ⟨fun h => ⟨h.values, h.tolerances⟩, fun h => ⟨h.values, h.tolerances⟩⟩

theorem read_signed {packet : EvidencePacket F T} {k : K} {now : T} (hfinite : packet.Finite) :
    EvidencePacket.serde.fromValue
        ((EvidencePacket.serde.toValue (packet.signed libs k now)).reread libs.readFloat) =
      some ((packet.signed libs k now).reread libs.readFloat) := by
  obtain ⟨-, hreread, hcomponents⟩ :=
    components (F := F) (T := T) libs.readFloat
  have hread := serde.fromValue_reread libs.readFloat (packet.signed libs k now)
    ((hcomponents _).mpr hfinite)
  rw [hread, hreread]

section Outcome

variable [Decimal F] {packet : EvidencePacket F T} {k : K} {now : T} (hlibs : libs.Lawful)
  (hfinite : packet.Finite) (htrusted : libs.Trusted packet k now)

include hfinite htrusted

theorem readsBack_of_binds (h : Binds libs packet k now) : packet.ReadsBack libs.readFloat ∧
    (EvidencePacket.serde.toValue (packet.signed libs k now)).depth ≤ 127 := by
  have hfrom := htrusted.fromSlice _ rfl
  obtain ⟨value, back, hvalue, hback, hverify⟩ := h.survives
  have hlimit : (serde.toValue (packet.signed libs k now)).depth ≤ 127 := by
    by_contra hdeep
    rw [hfrom, if_neg hdeep] at hvalue
    cases hvalue
  rw [hfrom, if_pos hlimit] at hvalue
  cases hvalue
  rw [read_signed hfinite] at hback
  cases hback
  obtain ⟨signature, hsignature, haccepted⟩ := hverify _ rfl
  have hsigned : ((packet.signed libs k now).reread libs.readFloat).signature =
      (packet.signed libs k now).signature := by
    unfold reread sorted
    rfl
  rw [hsigned, packet.signature_signed] at hsignature
  rw [← Option.some.inj hsignature] at haccepted
  refine ⟨?_, hlimit⟩
  have hsame := sorted_of_verify hfinite htrusted haccepted
  rw [← packet.unsigned_signed libs k now] at hsame
  rw [← packet.readsBack_signed _ k now, ← reread_eq_sorted_iff,
    ← sorted_reread]
  exact sorted_of_unsigned hsigned hsame

include hlibs

theorem binds_of_readsBack (hreads : packet.ReadsBack libs.readFloat)
    (hlimit : (EvidencePacket.serde.toValue (packet.signed libs k now)).depth ≤ 127) :
    Binds libs packet k now := by
  have hfrom := htrusted.fromSlice _ rfl
  have hpayload : canonicalPacketPayload (packet.signed libs k now) =
      canonicalPacketPayload packet :=
    canonicalPacketPayload_of_sorted (by rw [packet.unsigned_signed])
  refine ⟨verify_of_payload libs hlibs hpayload, fun other => canonicalPacketPayload_of_sorted, ?_,
    fun other => sorted_of_verify hfinite htrusted⟩
  have hback : (packet.signed libs k now).reread libs.readFloat =
      (packet.signed libs k now).sorted :=
    (reread_eq_sorted_iff _ _).mpr
      ((packet.readsBack_signed libs.readFloat k now).mpr hreads)
  rw [hfrom, if_pos hlimit]
  refine ⟨_, _, rfl, read_signed hfinite, fun other hother => ?_⟩
  rw [sorted_reread, hback] at hother
  obtain ⟨hsignature, hunsigned⟩ := unsigned_of_sorted hother
  rw [packet.signature_signed] at hsignature
  rw [packet.unsigned_signed] at hunsigned
  exact ⟨_, hsignature, verify_of_payload libs hlibs (canonicalPacketPayload_of_sorted hunsigned)⟩

end Outcome

/-- **A signature binds its packet** through all that may happen to it exactly when the packet comes
back through JSON text: no optional value in it is `null`, every float is read as it was written,
and its JSON is at most 127 deep. -/
theorem binds_iff [Decimal F] (hlibs : libs.Lawful) (packet : EvidencePacket F T) (k : K) (now : T)
    (hfinite : packet.Finite) (htrusted : libs.Trusted packet k now) :
    Binds libs packet k now ↔ packet.ReadsBack libs.readFloat ∧
      (EvidencePacket.serde.toValue packet.unsigned).depth ≤ 127 := by
  have hdepth : (serde.toValue (packet.signed libs k now)).depth ≤ 127 ↔
      (serde.toValue packet.unsigned).depth ≤ 127 :=
    packet.depth_signed_le_iff (buildEvidencePacketSignature libs packet k now)
  rw [← hdepth]
  exact ⟨readsBack_of_binds hfinite htrusted,
    fun h => binds_of_readsBack hlibs hfinite htrusted h.1 h.2⟩

end Binding

/-! ## A value that is `null` -/

/-- Times as their texts. -/
structure TimeText where
  text : String

instance : Rfc3339 TimeText where
  format t := t.text
  parse text := some ⟨text⟩
  parse_format _ := rfl

def sampleTime : TimeText := ⟨"2024-05-01T12:00:00Z"⟩

def sampleField (system : String) : FieldRef where
  system
  objectName := "VBAK"
  fieldName := "NETWR"
  fieldPath := "$.amount"
  semanticType := none
  recordId := some "record-1"

def sampleException (sourceValue : Option (Json Int)) : ExceptionRecord Int TimeText where
  exceptionId := "exc-1"
  programId := "program-1"
  objectId := "object-1"
  severity := .Warning
  status := .Accepted
  category := "delta"
  message := "accepted delta"
  sourceValue
  targetValue := none
  remediation := none
  detectedAt := sampleTime
  resolvedAt := none
  metadata := .empty

def sampleControl : ControlResult Int TimeText where
  controlId := "control-1"
  programId := "program-1"
  objectId := "object-1"
  controlName := "Net amount"
  controlType := "reconciliation"
  status := .Passed
  summary := "within tolerance"
  expectedValue := some ⟨.number (.float 100), .number _⟩
  actualValue := none
  tolerance := some (.finite 5)
  executedAt := sampleTime
  evidenceRefs := []
  metadata := .empty

def samplePacket (sourceValue : Option (Json Int)) : EvidencePacket Int TimeText where
  packetId := "packet-1"
  programId := "program-1"
  objectId := "object-1"
  valueKey := "record-1::$.amount"
  generatedAt := sampleTime
  sourceField := sampleField "ECC"
  targetField := sampleField "S4"
  transformationRule := none
  executionEvent := none
  exceptions := [sampleException sourceValue]
  controls := [sampleControl]
  approvals := []
  graphRefs := []
  narrative := none
  signature := none
  metadata := ⟨[("b", "2"), ("a", "1")], by decide⟩

def sampleSha256 (message bytes : Bytes) : Hash :=
  if bytes = message then Audit.sha256 message
  else ⟨(Audit.sha256 message).bytes.map (· + 1), by
    rw [List.length_map, (Audit.sha256 message).length_bytes]⟩

theorem sampleSha256_inj (message : Bytes) {bytes : Bytes}
    (h : sampleSha256 message bytes = sampleSha256 message message) : bytes = message := by
  by_contra hne
  rw [sampleSha256, sampleSha256, if_neg hne, if_pos rfl] at h
  have hbytes := congrArg FixedBytes.bytes h
  have hlength := (Audit.sha256 message).length_bytes
  cases hlist : (Audit.sha256 message).bytes with
  | nil =>
    rw [hlist] at hlength
    cases hlength
  | cons b rest =>
    simp [hlist] at hbytes

def sampleLibs (payload : Bytes) (written : Value Int) :
    SigningLibs Int (FixedBytes 32) (FixedBytes 32) where
  sha256 := sampleSha256 payload
  base64Encode := Base64.encode
  base64Decode := Base64.decode
  verifyingKey k := k
  keyToBytes v := v
  keyFromBytes bytes := some bytes
  sign := Audit.keyedDigest
  verify key message signature := signature == Audit.keyedDigest key message
  fromSlice bytes := if bytes = written.toVec ∧ written.depth ≤ 127 then some written else none
  readFloat x := x

theorem sampleLibs_lawful (payload : Bytes) (written : Value Int) :
    (sampleLibs payload written).Lawful where
  base64 := Base64.decode_encode
  keyFromBytes _ := rfl
  verify _ _ := beq_self_eq_true _

def sampleKey : FixedBytes 32 := ⟨List.replicate 32 7, List.length_replicate⟩

theorem sampleLibs_fromSlice (payload : Bytes) (written : Value Int) :
    (sampleLibs payload written).fromSlice written.toVec =
      if written.depth ≤ 127 then
        some (written.reread (sampleLibs payload written).readFloat)
      else none := by
  have hreread : written.reread (sampleLibs payload written).readFloat = written :=
    (Value.reread_eq_self_iff _ _).mpr fun _ _ => rfl
  rw [hreread]
  simp only [sampleLibs, true_and]

theorem signed_sampleLibs (payload : Bytes) (written written' : Value Int)
    (packet : EvidencePacket Int TimeText) (k : FixedBytes 32) (now : TimeText) :
    packet.signed (sampleLibs payload written) k now =
      packet.signed (sampleLibs payload written') k now := by
  unfold signed buildEvidencePacketSignature sha256Prefixed
  rfl

def libsFor (packet : EvidencePacket Int TimeText) :
    SigningLibs Int (FixedBytes 32) (FixedBytes 32) :=
  sampleLibs (canonicalPacketPayload packet) (EvidencePacket.serde.toValue
    (packet.signed (sampleLibs (canonicalPacketPayload packet) .null) sampleKey sampleTime))

theorem libsFor_trusted (packet : EvidencePacket Int TimeText) :
    (libsFor packet).Trusted packet sampleKey sampleTime := by
  have hsha256 : (libsFor packet).sha256 = sampleSha256 (canonicalPacketPayload packet) := by
    unfold libsFor sampleLibs
    rfl
  constructor
  · intro bytes h
    rw [hsha256] at h
    exact sampleSha256_inj _ h
  · intro value hvalue
    have hsigned : packet.signed (libsFor packet) sampleKey sampleTime =
        packet.signed (sampleLibs (canonicalPacketPayload packet) .null) sampleKey sampleTime := by
      unfold libsFor
      rw [signed_sampleLibs _ _ .null]
    have hlibs : libsFor packet = sampleLibs (canonicalPacketPayload packet) value := by
      unfold libsFor
      rw [hvalue, hsigned]
    rw [hlibs]
    exact sampleLibs_fromSlice _ _

theorem finite_samplePacket (sourceValue : Option (Json Int)) :
    (samplePacket sourceValue).Finite := by
  refine List.forall_mem_singleton.mpr fun tolerance htolerance => ?_
  cases htolerance
  trivial

def sampleText : Json Int := ⟨.string "98.00", .string _⟩

/-- The metadata is not in key order. -/
theorem samplePacket_binds : Binds (libsFor (samplePacket (some sampleText)))
    (samplePacket (some sampleText)) sampleKey sampleTime := by
  refine (binds_iff (sampleLibs_lawful _ _) _ _ _ (finite_samplePacket _)
    (libsFor_trusted _)).mpr ⟨⟨fun json hjson => ?_, fun control hcontrol tolerance h => ?_⟩, ?_⟩
  · have hvalue : json.value.isNull = false := by
      simp only [values, samplePacket, sampleException, sampleControl] at hjson
      revert json
      decide
    exact ⟨hvalue, fun x _ => rfl⟩
  · cases List.mem_singleton.mp hcontrol
    cases h
    exact ⟨5, rfl, rfl⟩
  · decide

/-- A source value that is `null`, which is not the same as none. -/
theorem null_value_lost : ¬ ∀ (F T K V : Type) [Float64 F] [Decimal F] [Rfc3339 T]
    (libs : SigningLibs F K V) (packet : EvidencePacket F T) (k : K) (now : T), libs.Lawful →
      packet.Finite → libs.Trusted packet k now → Binds libs packet k now := by
  intro h
  have hbinds := h Int TimeText _ _ (libsFor (samplePacket (some ⟨.null, .null⟩))) _ sampleKey
    sampleTime (sampleLibs_lawful _ _) (finite_samplePacket _) (libsFor_trusted _)
  have hreads := (readsBack_of_binds (finite_samplePacket _) (libsFor_trusted _) hbinds).1
  have hnull := (hreads.values ⟨.null, .null⟩ (List.mem_cons_self ..)).1
  cases hnull

end Arcxa.Traceability
