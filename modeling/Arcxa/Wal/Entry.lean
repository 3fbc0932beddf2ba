import Arcxa.Lib.Codec

/-!
# WAL entries and their bytes (`storage/wal/entry.rs`)

An entry is a fixed-size header, a payload and an optional transaction context.
`WalEntry.toBytes` writes the three one after the other, with no length in front:
the only sizes on disk are the header's `payload_size` and whatever the payload
encoding carries itself. `WalEntry.fromBytes` reads an entry from a slice that is
*exactly* as long as the entry, since it takes any byte after the payload for a
transaction context.

A `LogSequenceNumber` is a natural number: the counter never wraps in the model, and
takes eight bytes on disk. The header is written by bincode with fixed-width
little-endian integers, so its codec is concrete. The payload and transaction
encodings, and the CRC, come from libraries and are the parameters of `Format`.
-/

namespace Arcxa.Wal

open Codec

/-- Entry types for the different operations, in the order of their bincode tags. -/
inductive EntryType where
  | LineageWrite | QualityViolation | ProfileUpdate
  | RdfInsertTriple | RdfDeleteTriple | RdfInsertBatch | RdfUpdateTriple
  | TransactionBegin | TransactionPrepare | TransactionCommit | TransactionAbort
  | RocksDbWrite | KafkaPublish | ParquetFlush
  | Checkpoint | RotationMarker | CompactionMarker
  deriving DecidableEq, Repr

namespace EntryType

def all : List EntryType :=
  [LineageWrite, QualityViolation, ProfileUpdate, RdfInsertTriple, RdfDeleteTriple,
    RdfInsertBatch, RdfUpdateTriple, TransactionBegin, TransactionPrepare, TransactionCommit,
    TransactionAbort, RocksDbWrite, KafkaPublish, ParquetFlush, Checkpoint, RotationMarker,
    CompactionMarker]

def tag (t : EntryType) : Nat := all.idxOf t

def ofTag (n : Nat) : Option EntryType := all[n]?

theorem ofTag_tag (t : EntryType) : ofTag t.tag = some t := by cases t <;> rfl

theorem tag_lt (t : EntryType) : t.tag < 256 ^ 4 := by cases t <;> decide

end EntryType

inductive IsolationLevel where
  | ReadUncommitted | ReadCommitted | RepeatableRead | Serializable
  deriving DecidableEq, Repr

structure TransactionContext where
  txId : Nat
  parentTxId : Option Nat
  isolationLevel : IsolationLevel
  participants : List String
  deriving DecidableEq, Repr

inductive TransactionOp where
  | Begin (txId : Nat) (timeoutMs : Nat)
  | Prepare (txId : Nat) (participants : List String)
  | Commit (txId : Nat) (commitLsn : Nat)
  | Abort (txId : Nat) (reason : String)
  deriving DecidableEq, Repr

def TransactionOp.txId : TransactionOp → Nat
  | .Begin t _ | .Prepare t _ | .Commit t _ | .Abort t _ => t

inductive StorageType where
  | RocksDb | Kafka | Parquet | Archive
  deriving DecidableEq, Repr

structure StorageOptions where
  partition : Option String
  replication : Option UInt8
  compression : Option String
  deriving DecidableEq, Repr

structure StorageCheckpoint where
  storageType : StorageType
  lastFlushedLsn : Nat
  pendingWrites : Nat
  state : Bytes
  deriving DecidableEq, Repr

inductive RdfOperation where
  | Insert | Delete
  deriving DecidableEq, Repr

structure RdfTripleEntry where
  subject : String
  predicate : String
  object : String
  datatype : Option String
  language : Option String
  graph : String
  shardId : String
  operation : RdfOperation
  timestampUs : UInt64
  deriving DecidableEq, Repr

/-- Payloads over a type `E` of lineage events, which the WAL stores without looking
inside them. -/
inductive EntryPayload (E : Type) where
  | Lineage (event : E)
  | LineageBatch (events : List E)
  | QualityViolation (dataset ruleId : String) (recordIds : List String) (severity : String)
  | RdfTriple (triple : RdfTripleEntry)
  | RdfTripleBatch (triples : List RdfTripleEntry)
  | RdfUpdate (oldTriple newTriple : RdfTripleEntry)
  | StorageWrite (storageType : StorageType) (key value : Bytes) (options : StorageOptions)
  | Transaction (op : TransactionOp)
  | Checkpoint (lsn : Nat) (storageStates : List StorageCheckpoint)
  | Raw (bytes : Bytes)
  deriving DecidableEq, Repr

structure EntryFlags where
  compressed : Bool := false
  encrypted : Bool := false
  idempotent : Bool := false
  requiresSync : Bool := true
  deriving DecidableEq, Repr

structure EntryHeader where
  lsn : Nat
  previousLsn : Nat
  entryType : EntryType
  timestampUs : UInt64
  payloadSize : UInt32
  checksum : UInt32
  flags : EntryFlags
  deriving DecidableEq, Repr

structure WalEntry (E : Type) where
  header : EntryHeader
  payload : EntryPayload E
  transaction : Option TransactionContext
  deriving DecidableEq, Repr

/-- The library parts of the on-disk format: bincode for payloads and transaction
contexts, and the checksum. -/
structure Format (E : Type) where
  payload : Codec (EntryPayload E)
  transaction : Codec TransactionContext
  crc32 : Bytes → UInt32

/-! ## The header -/

/-- `std::mem::size_of::<EntryHeader>()`. -/
def headerSize : Nat := 40

def EntryFlags.codec : Codec EntryFlags :=
  (Codec.bool.seq (Codec.bool.seq (Codec.bool.seq Codec.bool))).map
    (fun f => (f.compressed, f.encrypted, f.idempotent, f.requiresSync))
    (fun p => some ⟨p.1, p.2.1, p.2.2.1, p.2.2.2⟩)

/-- The header as bincode writes it: fixed-width fields in declaration order, the
entry type as a four-byte tag. -/
def EntryHeader.codec : Codec EntryHeader :=
  ((Codec.nat 8).seq ((Codec.nat 8).seq (((Codec.nat 4).map EntryType.tag EntryType.ofTag).seq
    (Codec.u64.seq (Codec.u32.seq (Codec.u32.seq EntryFlags.codec)))))).map
    (fun h => (h.lsn, h.previousLsn, h.entryType, h.timestampUs, h.payloadSize, h.checksum, h.flags))
    (fun p => some ⟨p.1, p.2.1, p.2.2.1, p.2.2.2.1, p.2.2.2.2.1, p.2.2.2.2.2.1, p.2.2.2.2.2.2⟩)

theorem EntryFlags.codec_roundTrips (f : EntryFlags) : EntryFlags.codec.RoundTrips f := by
  refine map_roundTrips ?_ rfl
  exact seq_roundTrips (bool_roundTrips _) (seq_roundTrips
    (bool_roundTrips _) (seq_roundTrips (bool_roundTrips _)
      (bool_roundTrips _)))

theorem EntryFlags.codec_hasWidth : EntryFlags.codec.HasWidth 4 :=
  Codec.map_hasWidth (Codec.seq_hasWidth Codec.bool_hasWidth (Codec.seq_hasWidth
    Codec.bool_hasWidth (Codec.seq_hasWidth Codec.bool_hasWidth Codec.bool_hasWidth))) _ _

theorem EntryHeader.codec_roundTrips {h : EntryHeader} (hlsn : h.lsn < 256 ^ 8)
    (hprev : h.previousLsn < 256 ^ 8) : EntryHeader.codec.RoundTrips h := by
  refine map_roundTrips ?_ rfl
  have htype : ((nat 4).map EntryType.tag EntryType.ofTag).RoundTrips h.entryType :=
    map_roundTrips (nat_roundTrips h.entryType.tag_lt) (EntryType.ofTag_tag _)
  exact seq_roundTrips (nat_roundTrips hlsn) (seq_roundTrips
    (nat_roundTrips hprev) (seq_roundTrips htype (seq_roundTrips
      (u64_roundTrips _) (seq_roundTrips (u32_roundTrips _)
        (seq_roundTrips (u32_roundTrips _) (EntryFlags.codec_roundTrips _))))))

theorem EntryHeader.codec_hasWidth : EntryHeader.codec.HasWidth headerSize :=
  Codec.map_hasWidth (Codec.seq_hasWidth (Codec.nat_hasWidth 8) (Codec.seq_hasWidth
    (Codec.nat_hasWidth 8) (Codec.seq_hasWidth (Codec.map_hasWidth (Codec.nat_hasWidth 4) _ _)
      (Codec.seq_hasWidth Codec.u64_hasWidth (Codec.seq_hasWidth Codec.u32_hasWidth
        (Codec.seq_hasWidth Codec.u32_hasWidth EntryFlags.codec_hasWidth)))))) _ _

theorem EntryHeader.lsn_of_decode {bytes rest : Bytes} {h : EntryHeader}
    (hdec : EntryHeader.codec.decode bytes = some (h, rest)) :
    h.lsn = Codec.leValue (bytes.take 8) := by
  simp only [EntryHeader.codec, map, seq, Option.bind_eq_bind,
    Option.bind_eq_some_iff] at hdec
  obtain ⟨⟨tuple, r⟩, ⟨⟨lsn, r₁⟩, hlsn, ⟨⟨tail, r₂⟩, -, hpair⟩⟩, h', hmk, hres⟩ := hdec
  have hval : lsn = leValue (bytes.take 8) := by
    simp only [nat] at hlsn
    split at hlsn
    · simp only [Option.some.injEq, Prod.mk.injEq] at hlsn
      exact hlsn.1.symm
    · cases hlsn
  cases hpair
  cases hmk
  cases hres
  exact hval

namespace WalEntry

variable {E : Type}

/-- `WalEntry::new`: sizes and checksum are filled in during serialization. -/
def new (lsn : Nat) (entryType : EntryType) (payload : EntryPayload E)
    (timestampUs : UInt64) : WalEntry E where
  header :=
    { lsn, previousLsn := lsn - 1, entryType, timestampUs, payloadSize := 0, checksum := 0,
      flags := {} }
  payload
  transaction := none

/-- `WalEntry::lineage`. -/
def lineage (lsn : Nat) (event : E) (timestampUs : UInt64) : WalEntry E :=
  new lsn .LineageWrite (.Lineage event) timestampUs

variable (fmt : Format E)

def payloadBytes (e : WalEntry E) : Bytes := fmt.payload.encode e.payload

def contextBytes : Option TransactionContext → Bytes
  | none => []
  | some tx => fmt.transaction.encode tx

def transactionBytes (e : WalEntry E) : Bytes := contextBytes fmt e.transaction

/-- The entry as `to_bytes` leaves it: `payload_size` is the payload length cast to `u32`
and the checksum covers the payload and transaction bytes. -/
def sealed (e : WalEntry E) : WalEntry E :=
  { e with
    header :=
      { e.header with
        payloadSize := UInt32.ofNat (e.payloadBytes fmt).length
        checksum := fmt.crc32 (e.payloadBytes fmt ++ e.transactionBytes fmt) } }

/-- `WalEntry::to_bytes`. -/
def toBytes (e : WalEntry E) : Bytes :=
  EntryHeader.codec.encode (e.sealed fmt).header ++ e.payloadBytes fmt ++ e.transactionBytes fmt

/-- `WalEntry::size_bytes`: the header and the payload. The transaction context is not counted. -/
def sizeBytes (e : WalEntry E) : Nat := headerSize + e.header.payloadSize.toNat

/-- What `from_bytes` can report. -/
inductive ReadError where
  | tooShortForHeader | header | tooShortForPayload | payload | transaction | checksum
  deriving DecidableEq, Repr

/-- The text of a read error, up to the words bincode adds to it. -/
def ReadError.message : ReadError → String
  | .tooShortForHeader => "Data too short for header"
  | .header => "Header deserialize error: "
  | .tooShortForPayload => "Data too short for payload"
  | .payload => "Payload deserialize error: "
  | .transaction => "Transaction deserialize error: "
  | .checksum => "Checksum validation failed"

/-- The transaction context `from_bytes` sees behind the payload: none only when the data
ends there. -/
def readTransaction (bytes : Bytes) : Except ReadError (Option TransactionContext) :=
  if bytes = [] then .ok none
  else
    match fmt.transaction.decodeFront bytes with
    | some tx => .ok (some tx)
    | none => .error .transaction

/-- `WalEntry::from_bytes`. -/
def fromBytes (data : Bytes) : Except ReadError (WalEntry E) :=
  if data.length < headerSize then .error .tooShortForHeader
  else
    match EntryHeader.codec.decodeFront (data.take headerSize) with
    | none => .error .header
    | some header =>
      let payloadEnd := headerSize + header.payloadSize.toNat
      if data.length < payloadEnd then .error .tooShortForPayload
      else
        let payloadSlice := (data.drop headerSize).take header.payloadSize.toNat
        match fmt.payload.decodeFront payloadSlice with
        | none => .error .payload
        | some payload =>
          match readTransaction fmt (data.drop payloadEnd) with
          | .error e => .error e
          | .ok transaction =>
            if fmt.crc32 (payloadSlice ++ contextBytes fmt transaction) = header.checksum then
              .ok { header, payload, transaction }
            else .error .checksum

/-! ## What the format guarantees -/

@[simp] theorem sealed_lsn (e : WalEntry E) : (e.sealed fmt).header.lsn = e.header.lsn := rfl

@[simp] theorem sealed_previousLsn (e : WalEntry E) :
    (e.sealed fmt).header.previousLsn = e.header.previousLsn := rfl

theorem length_headerBytes (h : EntryHeader) : (EntryHeader.codec.encode h).length = headerSize :=
  EntryHeader.codec_hasWidth h

theorem length_toBytes (e : WalEntry E) : (e.toBytes fmt).length =
    headerSize + (e.payloadBytes fmt).length + (e.transactionBytes fmt).length := by
  simp [toBytes, length_headerBytes, Nat.add_assoc]

theorem headerSize_le_length_toBytes (e : WalEntry E) : headerSize ≤ (e.toBytes fmt).length := by
  rw [length_toBytes]
  omega

theorem lsn_of_fromBytes {data : Bytes} {e : WalEntry E} (h : fromBytes fmt data = .ok e) :
    e.header.lsn = Codec.leValue (data.take 8) := by
  unfold fromBytes at h
  split at h
  · cases h
  next hlen =>
    split at h
    · cases h
    next header hheader =>
      have hlsn : header.lsn = leValue (data.take 8) := by
        obtain ⟨⟨h', rest⟩, hdec, rfl⟩ := Option.map_eq_some_iff.mp hheader
        rw [EntryHeader.lsn_of_decode hdec, List.take_take]
        rfl
      dsimp only at h
      split at h
      · cases h
      split at h
      · cases h
      split at h
      · cases h
      split at h
      · cases h
        exact hlsn
      · cases h

theorem length_of_fromBytes {data : Bytes} {e : WalEntry E} (h : fromBytes fmt data = .ok e) :
    headerSize ≤ data.length := by
  by_contra hshort
  rw [fromBytes, if_pos (by omega)] at h
  cases h

/-- The entries whose own bytes read back: LSNs of eight bytes, a payload whose length fits
`u32`, and payload and context that bincode can decode. -/
structure Readable (e : WalEntry E) : Prop where
  lsn_lt : e.header.lsn < 256 ^ 8
  previousLsn_lt : e.header.previousLsn < 256 ^ 8
  payload_lt : (e.payloadBytes fmt).length < 2 ^ 32
  payload_decodes : fmt.payload.decodeFront (fmt.payload.encode e.payload) = some e.payload
  transaction_decodes : ∀ tx, e.transaction = some tx → fmt.transaction.encode tx ≠ [] ∧
    fmt.transaction.decodeFront (fmt.transaction.encode tx) = some tx

theorem Readable.readTransaction {e : WalEntry E} (h : e.Readable fmt) :
    WalEntry.readTransaction fmt (e.transactionBytes fmt) = .ok e.transaction := by
  unfold WalEntry.readTransaction transactionBytes contextBytes
  cases htx : e.transaction with
  | none => rfl
  | some tx =>
    obtain ⟨hne, hdec⟩ := h.transaction_decodes tx htx
    simp only [hne, if_false, hdec]

/-- **Round trip.** A readable entry comes back from its own bytes, sealed. -/
theorem fromBytes_toBytes {e : WalEntry E} (h : e.Readable fmt) :
    fromBytes fmt (e.toBytes fmt) = .ok (e.sealed fmt) := by
  have hheader : EntryHeader.codec.decodeFront ((e.toBytes fmt).take headerSize) =
      some (e.sealed fmt).header := by
    have hround : EntryHeader.codec.RoundTrips (e.sealed fmt).header := by
      apply EntryHeader.codec_roundTrips
      · rw [sealed_lsn]
        exact h.lsn_lt
      · rw [sealed_previousLsn]
        exact h.previousLsn_lt
    unfold toBytes
    rw [List.append_assoc, List.take_left' (length_headerBytes _)]
    exact hround.decodeFront_encode
  have hsize : (e.sealed fmt).header.payloadSize.toNat = (e.payloadBytes fmt).length :=
    UInt32.toNat_ofNat_of_lt' h.payload_lt
  have hdrop : (e.toBytes fmt).drop headerSize = e.payloadBytes fmt ++ e.transactionBytes fmt := by
    unfold toBytes
    rw [List.append_assoc, List.drop_left' (length_headerBytes _)]
  have hslice : ((e.toBytes fmt).drop headerSize).take (e.payloadBytes fmt).length =
      e.payloadBytes fmt := by
    rw [hdrop, List.take_left' rfl]
  have htail : (e.toBytes fmt).drop (headerSize + (e.payloadBytes fmt).length) =
      e.transactionBytes fmt := by
    rw [← List.drop_drop, hdrop, List.drop_left' rfl]
  have hlong : ¬ (e.toBytes fmt).length < headerSize := by
    have := headerSize_le_length_toBytes fmt e
    omega
  have hpayload : ¬ (e.toBytes fmt).length < headerSize + (e.payloadBytes fmt).length := by
    rw [length_toBytes]
    omega
  have hdecodes : fmt.payload.decodeFront (e.payloadBytes fmt) = some e.payload :=
    h.payload_decodes
  -- the checksum is recomputed over the very bytes it was taken from
  have hcrc : fmt.crc32 (e.payloadBytes fmt ++ contextBytes fmt e.transaction) =
      (e.sealed fmt).header.checksum := rfl
  unfold fromBytes
  rw [if_neg hlong, hheader]
  simp only [hsize, if_neg hpayload, hslice, htail, hdecodes, h.readTransaction, hcrc, if_true]
  rfl

end WalEntry

end Arcxa.Wal
