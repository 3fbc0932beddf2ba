import Arcxa.Workflow.Json

/-!
# Deduplication entries and their bytes

What the deduplicator remembers of a key, and bincode's form of it in RocksDB. JSON values
are written there but cannot be read back, because bincode does not say of a value which
kind it has. The entries of the deduplicator never hold one: `Storable` is the class of
entries that come back from their bytes. It has the entries of new keys (`storable_new`)
and whatever is read from the database (`storable_of_deserialize`), and it is closed under
updates (`Storable.update`).
-/

namespace Arcxa.Workflow

open Codec

variable {F : Type}

structure DedupEntry (F : Type) where
  firstSeenIdx : UInt64
  firstRowId : Option String
  firstTimestamp : Int64
  lastSeenIdx : UInt64
  lastRowId : Option String
  lastTimestamp : Int64
  occurrenceCount : UInt32
  accessCount : UInt32
  qualityScore : Option F
  qualityMetadata : Option (Value F)
  mergedFields : Option (Row F)

namespace DedupEntry

def new (idx : UInt64) (rowId : Option String) (now : Int64) : DedupEntry F where
  firstSeenIdx := idx
  firstRowId := rowId
  firstTimestamp := now
  lastSeenIdx := idx
  lastRowId := rowId
  lastTimestamp := now
  occurrenceCount := 1
  accessCount := 1
  qualityScore := none
  qualityMetadata := none
  mergedFields := none

def update (entry : DedupEntry F) (idx : UInt64) (rowId : Option String) (now : Int64) :
    DedupEntry F :=
  { entry with
    lastSeenIdx := idx
    lastRowId := rowId
    lastTimestamp := now
    occurrenceCount := entry.occurrenceCount + 1
    accessCount := entry.accessCount + 1 }

end DedupEntry

/-! ## bincode -/

section Bincode

variable [Float64 F]

def f64Codec : Codec F := Codec.u64.map Float64.toBits (fun bits => some (Float64.ofBits bits))

theorem f64Codec_canonical : (f64Codec : Codec F).Canonical := by
  intro bytes x rest h
  obtain ⟨bits, -, hbits⟩ := map_decode_inv h
  cases hbits
  refine map_roundTrips (u64_roundTrips _) ?_
  rw [Float64.toBits_ofBits]

def numberBytes : Number F → Bytes
  | .int n => Codec.leBytes 8 (n.val % 2 ^ 64).toNat
  | .float x => f64Codec.encode x

mutual

def valueBytes : Value F → Bytes
  | .null => []
  | .bool b => Codec.bool.encode b
  | .number n => numberBytes n
  | .string s => Codec.string.encode s
  | .array items => Codec.leBytes 8 items.length ++ itemsBytes items
  | .object fields => Codec.leBytes 8 fields.length ++ fieldsBytes fields

def itemsBytes : List (Value F) → Bytes
  | [] => []
  | v :: rest => valueBytes v ++ itemsBytes rest

def fieldsBytes : List (String × Value F) → Bytes
  | [] => []
  | (k, v) :: rest => Codec.string.encode k ++ valueBytes v ++ fieldsBytes rest

end

def valueCodec : Codec (Value F) := Codec.writeOnly valueBytes

def fieldsCodec : Codec (Row F) :=
  (Codec.string.seq valueCodec).list.map BTreeMap.entries (fun fields => some (BTreeMap.ofList fields))

theorem fieldsCodec_canonical : (fieldsCodec : Codec (Row F)).Canonical := by
  intro bytes row rest h
  obtain ⟨fields, hfields, hrow⟩ := map_decode_inv h
  have hnil : fields = [] := by
    obtain ⟨⟨n, mid⟩, -, hn⟩ := Option.bind_eq_some_iff.mp hfields
    cases n with
    | zero =>
      cases hn
      rfl
    | succ n =>
      obtain ⟨⟨p, mid'⟩, hp, -⟩ := Option.bind_eq_some_iff.mp hn
      obtain ⟨_, -, hvalue⟩ := seq_decode_inv hp
      cases hvalue
  subst hnil
  cases hrow
  have hempty : (string.seq (valueCodec : Codec (Value F))).list.RoundTrips [] :=
    list_roundTrips (show 0 < 256 ^ 8 by decide) (by simp)
  exact map_roundTrips hempty rfl

namespace DedupEntry

def codec : Codec (DedupEntry F) :=
  (Codec.u64.seq <| Codec.string.option.seq <| Codec.i64.seq <| Codec.u64.seq <|
    Codec.string.option.seq <| Codec.i64.seq <| Codec.u32.seq <| Codec.u32.seq <|
    f64Codec.option.seq <| valueCodec.option.seq fieldsCodec.option).map
    (fun e => (e.firstSeenIdx, e.firstRowId, e.firstTimestamp, e.lastSeenIdx, e.lastRowId,
      e.lastTimestamp, e.occurrenceCount, e.accessCount, e.qualityScore, e.qualityMetadata,
      e.mergedFields))
    (fun (a, b, c, d, e, f, g, h, i, j, k) => some ⟨a, b, c, d, e, f, g, h, i, j, k⟩)

/-- `bincode::serialize`. -/
def serialize (entry : DedupEntry F) : Bytes := codec.encode entry

/-- `bincode::deserialize`, which passes over bytes after the entry. -/
def deserialize (bytes : Bytes) : Option (DedupEntry F) := codec.decodeFront bytes

/-- The entries that can be read back, by the fields that decide it. -/
structure Storable (entry : DedupEntry F) : Prop where
  firstRowId : Codec.string.option.RoundTrips entry.firstRowId
  lastRowId : Codec.string.option.RoundTrips entry.lastRowId
  qualityScore : f64Codec.option.RoundTrips entry.qualityScore
  qualityMetadata : valueCodec.option.RoundTrips entry.qualityMetadata
  mergedFields : fieldsCodec.option.RoundTrips entry.mergedFields

theorem Storable.deserialize_serialize {entry : DedupEntry F} (h : entry.Storable) :
    deserialize entry.serialize = some entry := by
  refine Codec.RoundTrips.decodeFront_encode (map_roundTrips ?_ rfl)
  exact seq_roundTrips (u64_roundTrips _) <|
    seq_roundTrips h.firstRowId <| seq_roundTrips (i64_roundTrips _) <|
    seq_roundTrips (u64_roundTrips _) <| seq_roundTrips h.lastRowId <|
    seq_roundTrips (i64_roundTrips _) <| seq_roundTrips (u32_roundTrips _) <|
    seq_roundTrips (u32_roundTrips _) <| seq_roundTrips h.qualityScore <|
    seq_roundTrips h.qualityMetadata h.mergedFields

theorem storable_of_deserialize {bytes : Bytes} {entry : DedupEntry F}
    (h : deserialize bytes = some entry) : entry.Storable := by
  obtain ⟨⟨_, _⟩, hdecode, rfl⟩ := Option.map_eq_some_iff.mp h
  obtain ⟨fields, h, hentry⟩ := map_decode_inv hdecode
  obtain ⟨_, -, h⟩ := seq_decode_inv h
  obtain ⟨_, hfirst, h⟩ := seq_decode_inv h
  obtain ⟨_, -, h⟩ := seq_decode_inv h
  obtain ⟨_, -, h⟩ := seq_decode_inv h
  obtain ⟨_, hlast, h⟩ := seq_decode_inv h
  obtain ⟨_, -, h⟩ := seq_decode_inv h
  obtain ⟨_, -, h⟩ := seq_decode_inv h
  obtain ⟨_, -, h⟩ := seq_decode_inv h
  obtain ⟨_, hscore, h⟩ := seq_decode_inv h
  obtain ⟨_, hmetadata, hmerged⟩ := seq_decode_inv h
  cases hentry
  have hvalue : (valueCodec : Codec (Value F)).Canonical := fun _ _ _ h => by cases h
  exact
    { firstRowId := string_canonical.option _ _ _ hfirst
      lastRowId := string_canonical.option _ _ _ hlast
      qualityScore := f64Codec_canonical.option _ _ _ hscore
      qualityMetadata := hvalue.option _ _ _ hmetadata
      mergedFields := fieldsCodec_canonical.option _ _ _ hmerged }

theorem storable_new {rowId : Option String} (h : Codec.string.option.RoundTrips rowId) (idx : UInt64)
    (now : Int64) : (new idx rowId now : DedupEntry F).Storable where
  firstRowId := h
  lastRowId := h
  qualityScore := Codec.option_none_roundTrips _
  qualityMetadata := Codec.option_none_roundTrips _
  mergedFields := Codec.option_none_roundTrips _

theorem Storable.update {entry : DedupEntry F} (hentry : entry.Storable) {rowId : Option String}
    (h : Codec.string.option.RoundTrips rowId) (idx : UInt64) (now : Int64) :
    (entry.update idx rowId now).Storable :=
  { hentry with lastRowId := h }

end DedupEntry

end Bincode

end Arcxa.Workflow
