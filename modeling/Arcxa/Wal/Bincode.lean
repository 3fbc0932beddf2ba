import Arcxa.Wal.Entry

/-!
# A concrete entry format

The library functions behind `Format` on the payloads that concrete runs write: the
CRC-32 of `crc32fast`, and the bytes bincode gives raw payloads and transaction
markers (a four-byte variant tag, integers in eight bytes, sequences behind their
length). Lineage events are opaque to the WAL; here an event is a number. The payloads
that no such run writes have no bytes.
-/

namespace Arcxa.Wal

/-! ## CRC-32 -/

def crc32Bit (crc : UInt32) : UInt32 :=
  if crc &&& 1 = 1 then (crc >>> 1) ^^^ 0xEDB88320 else crc >>> 1

def crc32Byte (crc : UInt32) (b : UInt8) : UInt32 :=
  crc32Bit (crc32Bit (crc32Bit (crc32Bit (crc32Bit (crc32Bit (crc32Bit (crc32Bit
    (crc ^^^ b.toUInt32))))))))

/-- `crc32fast::hash`. -/
def crc32 (bytes : Bytes) : UInt32 := bytes.foldl crc32Byte 0xFFFFFFFF ^^^ 0xFFFFFFFF

example : crc32 "123456789".toUTF8.toList = 0xCBF43926 := by decide +kernel

/-! ## Transaction markers -/

def TransactionOp.encode : TransactionOp → Bytes
  | .Begin txId timeoutMs => Codec.leBytes 4 0 ++ Codec.leBytes 8 txId ++ Codec.leBytes 8 timeoutMs
  | .Prepare txId participants =>
    Codec.leBytes 4 1 ++ Codec.leBytes 8 txId ++ Codec.string.list.encode participants
  | .Commit txId commitLsn => Codec.leBytes 4 2 ++ Codec.leBytes 8 txId ++ Codec.leBytes 8 commitLsn
  | .Abort txId reason => Codec.leBytes 4 3 ++ Codec.leBytes 8 txId ++ Codec.string.encode reason

def TransactionOp.decode (bytes : Bytes) : Option (TransactionOp × Bytes) := do
  let (tag, rest) ← (Codec.nat 4).decode bytes
  let (txId, rest) ← (Codec.nat 8).decode rest
  match tag with
  | 0 =>
    let (timeoutMs, rest) ← (Codec.nat 8).decode rest
    pure (.Begin txId timeoutMs, rest)
  | 1 =>
    let (participants, rest) ← Codec.string.list.decode rest
    pure (.Prepare txId participants, rest)
  | 2 =>
    let (commitLsn, rest) ← (Codec.nat 8).decode rest
    pure (.Commit txId commitLsn, rest)
  | 3 =>
    let (reason, rest) ← Codec.string.decode rest
    pure (.Abort txId reason, rest)
  | _ => none

def TransactionOp.codec : Codec TransactionOp where
  encode := TransactionOp.encode
  decode := TransactionOp.decode

/-! ## Payloads and contexts -/

def bincodePayload : Codec (EntryPayload Nat) where
  encode
    | .Lineage event => Codec.leBytes 4 0 ++ Codec.leBytes 8 event
    | .Transaction op => Codec.leBytes 4 7 ++ TransactionOp.codec.encode op
    | .Raw bytes => Codec.leBytes 4 9 ++ Codec.byte.list.encode bytes
    | _ => []
  decode bytes := do
    let (tag, rest) ← (Codec.nat 4).decode bytes
    match tag with
    | 0 => ((Codec.nat 8).decode rest).map (fun p => (.Lineage p.1, p.2))
    | 7 => (TransactionOp.codec.decode rest).map (fun p => (.Transaction p.1, p.2))
    | 9 => (Codec.byte.list.decode rest).map (fun p => (.Raw p.1, p.2))
    | _ => none

def IsolationLevel.all : List IsolationLevel :=
  [.ReadUncommitted, .ReadCommitted, .RepeatableRead, .Serializable]

def bincodeTransaction : Codec TransactionContext :=
  ((Codec.nat 8).seq ((Codec.nat 8).option.seq
    (((Codec.nat 4).map IsolationLevel.all.idxOf (IsolationLevel.all[·]?)).seq
      Codec.string.list))).map
    (fun c => (c.txId, c.parentTxId, c.isolationLevel, c.participants))
    (fun p => some ⟨p.1, p.2.1, p.2.2.1, p.2.2.2⟩)

def bincode : Format Nat where
  payload := bincodePayload
  transaction := bincodeTransaction
  crc32 := crc32

theorem bincode_raw_roundTrips {bytes : Bytes} (hlen : bytes.length < 256 ^ 8) :
    bincode.payload.RoundTrips (.Raw bytes) := by
  intro rest
  have htag : (Codec.nat 4).RoundTrips 9 := Codec.nat_roundTrips (by decide)
  have hbytes := Codec.list_roundTrips hlen (fun b _ => Codec.byte_roundTrips b)
  simp only [bincode, bincodePayload, List.append_assoc]
  rw [show Codec.leBytes 4 9 = (Codec.nat 4).encode 9 from rfl, htag]
  simp [hbytes rest]

end Arcxa.Wal
