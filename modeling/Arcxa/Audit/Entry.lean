import Arcxa.Lib.Codec

/-!
# Signed audit entries

An audit entry is hashed as JSON, signed together with the hash of the entry before it,
and carries the public key its signature is checked with. SHA-256, Ed25519, `serde_json`
and bincode are libraries: their functions are the fields of `Libs`, and what the code
relies on of them is stated where it is used.
-/

namespace Arcxa.Audit

/-- `[u8; n]`. -/
structure FixedBytes (n : Nat) where
  bytes : Bytes
  length_bytes : bytes.length = n
  deriving DecidableEq

theorem FixedBytes.ext {n : Nat} {a b : FixedBytes n} (h : a.bytes = b.bytes) : a = b := by
  cases a
  cases b
  cases h
  rfl

abbrev Hash := FixedBytes 32

namespace Hash

def ZERO : Hash := ⟨List.replicate 32 0, List.length_replicate⟩

/-- `hex::encode`. -/
def toHex (hash : Hash) : String :=
  String.ofList (hash.bytes.flatMap fun b =>
    [Nat.digitChar (b.toNat / 16), Nat.digitChar (b.toNat % 16)])

theorem append_inj {a b c d : Hash} (h : a.bytes ++ b.bytes = c.bytes ++ d.bytes) :
    a = c ∧ b = d := by
  have hlen : a.bytes.length = c.bytes.length := by rw [a.length_bytes, c.length_bytes]
  obtain ⟨hac, hbd⟩ := List.append_inj h hlen
  exact ⟨FixedBytes.ext hac, FixedBytes.ext hbd⟩

end Hash

/-! ## Entries -/

inductive AuditOperation where
  | Insert
  | Update
  | Delete
  | Query
  deriving DecidableEq

/-- A `chrono` UTC time. -/
structure DateTime where
  year : Nat
  month : Nat
  day : Nat
  hour : Nat
  minute : Nat
  second : Nat
  nanos : Nat
  deriving DecidableEq

structure TransactionId where
  seq : UInt64
  timestamp : DateTime
  nodeId : UInt16
  deriving DecidableEq

structure AuditEntry where
  txId : TransactionId
  operation : AuditOperation
  nodeId : UInt64
  timestamp : UInt64
  subject : Option String
  predicate : Option String
  object : Option String
  initiator : String
  deriving DecidableEq

structure SignedAuditEntry where
  entry : AuditEntry
  entryHash : Hash
  previousHash : Hash
  signature : FixedBytes 64
  publicKey : FixedBytes 32
  deriving DecidableEq

/-- The library functions that the audit trail calls, for signing keys `K` and verifying
keys `V`. -/
structure Libs (K V : Type) where
  /-- `sha2::Sha256`. -/
  sha256 : Bytes → Hash
  /-- `serde_json::to_string` of an entry, as bytes. -/
  toJson : AuditEntry → Bytes
  verifyingKey : K → V
  keyToBytes : V → FixedBytes 32
  keyFromBytes : FixedBytes 32 → Option V
  sign : K → Bytes → FixedBytes 64
  verify : V → Bytes → FixedBytes 64 → Bool
  /-- bincode of one signed entry. -/
  bincode : Codec SignedAuditEntry

variable {K V : Type} (libs : Libs K V)

/-- Ed25519 accepts what was signed with the key, and keys come back from their bytes. -/
structure Libs.Signs : Prop where
  keyFromBytes : ∀ k, libs.keyFromBytes (libs.keyToBytes (libs.verifyingKey k)) =
    some (libs.verifyingKey k)
  verify : ∀ k message, libs.verify (libs.verifyingKey k) message (libs.sign k message) = true

def Libs.publicKey (k : K) : FixedBytes 32 := libs.keyToBytes (libs.verifyingKey k)

namespace AuditEntry

def new (txId : TransactionId) (operation : AuditOperation) (nodeId : UInt64)
    (initiator : String) (now : UInt64) : AuditEntry where
  txId
  operation
  nodeId
  timestamp := now
  subject := none
  predicate := none
  object := none
  initiator

def computeHash (entry : AuditEntry) : Hash := libs.sha256 (libs.toJson entry)

def sign (entry : AuditEntry) (signingKey : K) (previousHash : Hash) : SignedAuditEntry where
  entry
  entryHash := entry.computeHash libs
  previousHash
  signature := libs.sign signingKey ((entry.computeHash libs).bytes ++ previousHash.bytes)
  publicKey := libs.publicKey signingKey

end AuditEntry

namespace SignedAuditEntry

def message (e : SignedAuditEntry) : Bytes := e.entryHash.bytes ++ e.previousHash.bytes

def verifySignature (e : SignedAuditEntry) : Bool :=
  match libs.keyFromBytes e.publicKey with
  | some key => libs.verify key e.message e.signature
  | none => false

def verifyEntryHash (e : SignedAuditEntry) : Bool := e.entry.computeHash libs == e.entryHash

def verify (e : SignedAuditEntry) : Bool := e.verifyEntryHash libs && e.verifySignature libs

variable {libs}

theorem entryHash_of_verifyEntryHash {e : SignedAuditEntry} (h : e.verifyEntryHash libs = true) :
    e.entryHash = libs.sha256 (libs.toJson e.entry) :=
  (beq_iff_eq.mp h).symm

theorem verify_iff {e : SignedAuditEntry} :
    e.verify libs = true ↔ e.verifyEntryHash libs = true ∧ e.verifySignature libs = true := by
  rw [verify, Bool.and_eq_true]

theorem verifyEntryHash_sign (entry : AuditEntry) (key : K) (previousHash : Hash) :
    (entry.sign libs key previousHash).verifyEntryHash libs = true :=
  beq_self_eq_true _

theorem verify_sign (hsigns : libs.Signs) (entry : AuditEntry) (key : K) (previousHash : Hash) :
    (entry.sign libs key previousHash).verify libs = true := by
  rw [verify_iff]
  constructor
  · exact verifyEntryHash_sign entry key previousHash
  · unfold verifySignature
    rw [show (entry.sign libs key previousHash).publicKey =
      libs.keyToBytes (libs.verifyingKey key) from rfl, hsigns.keyFromBytes]
    exact hsigns.verify _ _

end SignedAuditEntry

end Arcxa.Audit
