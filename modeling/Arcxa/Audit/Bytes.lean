import Arcxa.Lib.Sha256
import Arcxa.Workflow.Json
import Arcxa.Audit.Entry

/-!
# Concrete libraries for audit entries

The library functions behind `Libs` as concrete runs use them: SHA-256, the compact JSON
of an entry with its fields in the order of the struct, and bincode (integers in little
endian, strings and sequences behind their length, times as RFC 3339 strings). Ed25519 is
replaced by a scheme whose signature is the public key followed by the hash of the message;
it accepts exactly what was signed with the key.
-/

namespace Arcxa.Audit

open Codec

def sha256 (data : Bytes) : Hash := ⟨Sha256.digest data, Sha256.length_digest data⟩

/-! ## JSON -/

def digits (width n : Nat) : String :=
  String.ofList ((List.range width).reverse.map fun i => Nat.digitChar (n / 10 ^ i % 10))

def DateTime.rfc3339 (t : DateTime) : String :=
  digits 4 t.year ++ "-" ++ digits 2 t.month ++ "-" ++ digits 2 t.day ++ "T" ++
    digits 2 t.hour ++ ":" ++ digits 2 t.minute ++ ":" ++ digits 2 t.second ++ "Z"

def AuditOperation.name : AuditOperation → String
  | .Insert => "Insert"
  | .Update => "Update"
  | .Delete => "Delete"
  | .Query => "Query"

def optionJson : Option String → String
  | none => "null"
  | some s => Workflow.quote s

def AuditEntry.json (e : AuditEntry) : String :=
  "\x7b\"tx_id\":\x7b\"seq\":" ++ toString e.txId.seq ++
    ",\"timestamp\":" ++ Workflow.quote e.txId.timestamp.rfc3339 ++
    ",\"node_id\":" ++ toString e.txId.nodeId ++
    "\x7d,\"operation\":" ++ Workflow.quote e.operation.name ++
    ",\"node_id\":" ++ toString e.nodeId ++
    ",\"timestamp\":" ++ toString e.timestamp ++
    ",\"subject\":" ++ optionJson e.subject ++
    ",\"predicate\":" ++ optionJson e.predicate ++
    ",\"object\":" ++ optionJson e.object ++
    ",\"initiator\":" ++ Workflow.quote e.initiator ++ "\x7d"

/-! ## bincode -/

/-- `[u8; n]`, without a length. -/
def fixedCodec (n : Nat) : Codec (FixedBytes n) where
  encode a := a.bytes
  decode bytes :=
    if h : n ≤ bytes.length then some (⟨bytes.take n, List.length_take_of_le h⟩, bytes.drop n)
    else none

/-- A byte sequence that has to have length `n`. -/
def sizedCodec (n : Nat) : Codec (FixedBytes n) :=
  Codec.byte.list.map (·.bytes) (fun bytes => if h : bytes.length = n then some ⟨bytes, h⟩ else none)

def digitsValue (cs : List Char) : Nat := cs.foldl (fun n c => 10 * n + (c.toNat - 48)) 0

def DateTime.parse (s : String) : Option DateTime :=
  match s.toList with
  | [y1, y2, y3, y4, '-', m1, m2, '-', d1, d2, 'T', h1, h2, ':', n1, n2, ':', s1, s2, 'Z'] =>
    if [y1, y2, y3, y4, m1, m2, d1, d2, h1, h2, n1, n2, s1, s2].all Char.isDigit then
      some ⟨digitsValue [y1, y2, y3, y4], digitsValue [m1, m2], digitsValue [d1, d2],
        digitsValue [h1, h2], digitsValue [n1, n2], digitsValue [s1, s2], 0⟩
    else none
  | _ => none

def AuditOperation.all : List AuditOperation := [.Insert, .Update, .Delete, .Query]

def transactionIdCodec : Codec TransactionId :=
  (Codec.u64.seq ((Codec.string.map DateTime.rfc3339 DateTime.parse).seq
    ((Codec.nat 2).map UInt16.toNat (fun n => some (UInt16.ofNat n))))).map
    (fun t => (t.seq, t.timestamp, t.nodeId)) (fun p => some ⟨p.1, p.2.1, p.2.2⟩)

def auditEntryCodec : Codec AuditEntry :=
  (transactionIdCodec.seq
    (((Codec.nat 4).map AuditOperation.all.idxOf (AuditOperation.all[·]?)).seq
    (Codec.u64.seq (Codec.u64.seq (Codec.string.option.seq (Codec.string.option.seq
      (Codec.string.option.seq Codec.string))))))).map
    (fun e => (e.txId, e.operation, e.nodeId, e.timestamp, e.subject, e.predicate, e.object,
      e.initiator))
    (fun p => some ⟨p.1, p.2.1, p.2.2.1, p.2.2.2.1, p.2.2.2.2.1, p.2.2.2.2.2.1,
      p.2.2.2.2.2.2.1, p.2.2.2.2.2.2.2⟩)

def signedAuditEntryCodec : Codec SignedAuditEntry :=
  (auditEntryCodec.seq ((fixedCodec 32).seq ((fixedCodec 32).seq
    ((sizedCodec 64).seq (fixedCodec 32))))).map
    (fun e => (e.entry, e.entryHash, e.previousHash, e.signature, e.publicKey))
    (fun p => some ⟨p.1, p.2.1, p.2.2.1, p.2.2.2.1, p.2.2.2.2⟩)

theorem fixedCodec_roundTrips {n : Nat} (a : FixedBytes n) : (fixedCodec n).RoundTrips a := by
  intro rest
  have hle : n ≤ (a.bytes ++ rest).length := by
    rw [List.length_append, a.length_bytes]
    omega
  simp only [fixedCodec, dif_pos hle]
  refine congrArg some (Prod.ext (FixedBytes.ext ?_) ?_)
  · exact List.take_left' a.length_bytes
  · exact List.drop_left' a.length_bytes

theorem sizedCodec_roundTrips {n : Nat} (hn : n < 256 ^ 8) (a : FixedBytes n) :
    (sizedCodec n).RoundTrips a := by
  apply map_roundTrips
  · exact list_roundTrips (by rw [a.length_bytes]; exact hn)
      (fun b _ => byte_roundTrips b)
  · rw [dif_pos a.length_bytes]

theorem option_roundTrips {α : Type} {c : Codec α} (o : Option α) (h : ∀ a ∈ o, c.RoundTrips a) :
    c.option.RoundTrips o := by
  cases o with
  | none => exact option_none_roundTrips c
  | some a => exact option_some_roundTrips (h a rfl)

/-- The time is in whole seconds and years have four digits, and no string is too long to count
its bytes in eight bytes. -/
structure AuditEntry.Exportable (e : AuditEntry) : Prop where
  time : DateTime.parse e.txId.timestamp.rfc3339 = some e.txId.timestamp
  timeString : Codec.string.RoundTrips e.txId.timestamp.rfc3339
  subject : ∀ s ∈ e.subject, Codec.string.RoundTrips s
  predicate : ∀ s ∈ e.predicate, Codec.string.RoundTrips s
  object : ∀ s ∈ e.object, Codec.string.RoundTrips s
  initiator : Codec.string.RoundTrips e.initiator

theorem signedAuditEntryCodec_roundTrips {e : SignedAuditEntry} (h : e.entry.Exportable) :
    signedAuditEntryCodec.RoundTrips e := by
  have htx : transactionIdCodec.RoundTrips e.entry.txId := by
    refine map_roundTrips (seq_roundTrips (u64_roundTrips _)
      (seq_roundTrips (map_roundTrips h.timeString h.time)
        (map_roundTrips (nat_roundTrips ?_) (by simp)))) rfl
    exact e.entry.txId.nodeId.toNat_lt
  have hop : ((nat 4).map AuditOperation.all.idxOf (AuditOperation.all[·]?)).RoundTrips
      e.entry.operation := by
    refine map_roundTrips (nat_roundTrips ?_) ?_
    · cases e.entry.operation <;> decide
    · cases e.entry.operation <;> decide
  have hentry : auditEntryCodec.RoundTrips e.entry :=
    map_roundTrips (seq_roundTrips htx (seq_roundTrips hop
      (seq_roundTrips (u64_roundTrips _) (seq_roundTrips (u64_roundTrips _)
      (seq_roundTrips (option_roundTrips _ h.subject)
      (seq_roundTrips (option_roundTrips _ h.predicate)
      (seq_roundTrips (option_roundTrips _ h.object) h.initiator))))))) rfl
  exact map_roundTrips (seq_roundTrips hentry
    (seq_roundTrips (fixedCodec_roundTrips _) (seq_roundTrips (fixedCodec_roundTrips _)
    (seq_roundTrips (sizedCodec_roundTrips (by decide) _) (fixedCodec_roundTrips _))))) rfl

/-! ## Signatures -/

theorem length_append_hash (key : FixedBytes 32) (hash : Hash) :
    (key.bytes ++ hash.bytes).length = 64 := by
  rw [List.length_append, key.length_bytes, hash.length_bytes]

def keyedDigest (key : FixedBytes 32) (message : Bytes) : FixedBytes 64 :=
  ⟨key.bytes ++ (sha256 message).bytes, length_append_hash key (sha256 message)⟩

def concreteLibs : Libs (FixedBytes 32) (FixedBytes 32) where
  sha256 := sha256
  toJson e := e.json.toUTF8.toList
  verifyingKey k := k
  keyToBytes v := v
  keyFromBytes bytes := some bytes
  sign := keyedDigest
  verify key message signature := signature == keyedDigest key message
  bincode := signedAuditEntryCodec

theorem concreteLibs_signs : concreteLibs.Signs where
  keyFromBytes _ := rfl
  verify _ _ := beq_self_eq_true _

def sampleTime : DateTime := ⟨2009, 2, 13, 23, 31, 30, 0⟩

theorem sampleTime_parse : DateTime.parse sampleTime.rfc3339 = some sampleTime := by
  decide +kernel

theorem sampleTime_length : sampleTime.rfc3339.toUTF8.data.toList.length < 256 ^ 8 := by
  decide +kernel

theorem sampleUser_length : "test_user".toUTF8.data.toList.length < 256 ^ 8 := by decide +kernel

def sampleEntry (seq : UInt64) : AuditEntry :=
  AuditEntry.new ⟨seq, sampleTime, 1⟩ .Insert 1 "test_user" 1234567890000

example : (sampleEntry 7).json =
    "\x7b\"tx_id\":\x7b\"seq\":7,\"timestamp\":\"2009-02-13T23:31:30Z\",\"node_id\":1\x7d," ++
    "\"operation\":\"Insert\",\"node_id\":1,\"timestamp\":1234567890000,\"subject\":null," ++
    "\"predicate\":null,\"object\":null,\"initiator\":\"test_user\"\x7d" := by decide +kernel

theorem sampleTexts : concreteLibs.toJson (sampleEntry 7) ≠ concreteLibs.toJson (sampleEntry 8) ∧
    64 < (concreteLibs.toJson (sampleEntry 7)).length ∧
    64 < (concreteLibs.toJson (sampleEntry 8)).length := by decide +kernel

def sampleMessages : List Bytes :=
  [concreteLibs.toJson (sampleEntry 7), concreteLibs.toJson (sampleEntry 8),
    ((sampleEntry 7).computeHash concreteLibs).bytes ++
      ((sampleEntry 8).computeHash concreteLibs).bytes]

/-! The kernel evaluates each hash once; everything else goes by the digests. -/

def sampleDigest7 : Bytes :=
  [0x07, 0x07, 0xe8, 0x96, 0xbb, 0xc6, 0x86, 0x5d, 0xe2, 0xe0, 0x9d, 0x3e, 0xbf, 0x42, 0xb4, 0x13,
    0xe2, 0x13, 0x04, 0x82, 0xd0, 0xac, 0x47, 0x3a, 0xa3, 0xb7, 0xbb, 0x79, 0xba, 0xe0, 0x12, 0x81]

def sampleDigest8 : Bytes :=
  [0xf5, 0xb3, 0x9c, 0x89, 0x5d, 0x79, 0x90, 0x31, 0x70, 0x15, 0xfc, 0xe0, 0x05, 0xe5, 0x07, 0x8f,
    0x99, 0x8b, 0xc3, 0xe4, 0x49, 0xb4, 0xe5, 0xca, 0xc1, 0xce, 0x79, 0xdb, 0x0f, 0x3e, 0xa7, 0x0c]

def sampleDigestPair : Bytes :=
  [0x02, 0x37, 0x8e, 0xb1, 0xc7, 0x87, 0x55, 0xaf, 0xcf, 0x06, 0x90, 0xaa, 0xbb, 0x7e, 0x63, 0x3f,
    0x48, 0xcb, 0x2f, 0x3b, 0xc0, 0xf5, 0x64, 0x0a, 0x5e, 0xe2, 0x98, 0xbe, 0x64, 0x36, 0x76, 0xb5]

theorem digests_samples : (sha256 (concreteLibs.toJson (sampleEntry 7))).bytes = sampleDigest7 ∧
    (sha256 (concreteLibs.toJson (sampleEntry 8))).bytes = sampleDigest8 ∧
    (sha256 (sampleDigest7 ++ sampleDigest8)).bytes = sampleDigestPair := by
  refine ⟨?_, ?_, ?_⟩
  · decide +kernel
  · decide +kernel
  · decide +kernel

theorem sampleMessages_digests : sampleMessages.map (fun m => (sha256 m).bytes) =
    [sampleDigest7, sampleDigest8, sampleDigestPair] := by
  obtain ⟨h7, h8, hboth⟩ := digests_samples
  have hpair : ((sampleEntry 7).computeHash concreteLibs).bytes ++
      ((sampleEntry 8).computeHash concreteLibs).bytes = sampleDigest7 ++ sampleDigest8 :=
    congrArg₂ (· ++ ·) h7 h8
  rw [sampleMessages, hpair, List.map_cons, List.map_cons, List.map_cons, List.map_nil,
    h7, h8, hboth]

theorem sampleMessages_inj : ∀ m ∈ sampleMessages, ∀ m' ∈ sampleMessages,
    sha256 m = sha256 m' → m = m' := by
  have hnodup : (sampleMessages.map (fun m => (sha256 m).bytes)).Nodup := by
    rw [sampleMessages_digests]
    decide
  intro m hm m' hm' heq
  exact List.inj_on_of_nodup_map hnodup hm hm' (congrArg FixedBytes.bytes heq)

theorem sampleMessages_ne_zero : ∀ m ∈ sampleMessages, sha256 m ≠ Hash.ZERO := by
  have hdigests : ∀ digest ∈ sampleMessages.map (fun m => (sha256 m).bytes),
      digest ≠ Hash.ZERO.bytes := by
    rw [sampleMessages_digests]
    decide
  intro m hm heq
  exact hdigests _ (List.mem_map_of_mem hm) (congrArg FixedBytes.bytes heq)

theorem exportable_sampleEntry (seq : UInt64) : (sampleEntry seq).Exportable where
  time := sampleTime_parse
  timeString := by
    show string.RoundTrips sampleTime.rfc3339
    exact string_roundTrips sampleTime_length
  subject s hs := by cases hs
  predicate s hs := by cases hs
  object s hs := by cases hs
  initiator := by
    show string.RoundTrips "test_user"
    exact string_roundTrips sampleUser_length

def sampleKey (b : UInt8) : FixedBytes 32 := ⟨List.replicate 32 b, List.length_replicate⟩

end Arcxa.Audit
