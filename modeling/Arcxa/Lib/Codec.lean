import Mathlib.Tactic

/-!
# Byte codecs

A codec writes a value as bytes and reads one value from the front of a byte
string, handing back what it did not consume. This is the shape of a
self-delimiting binary format such as bincode: sequencing two writers is
concatenation, and a reader that accepts trailing bytes is `decode` followed by
forgetting the rest.

Round-tripping is stated *per value* (`Codec.RoundTrips`), because real formats
have values they can write and not read back. The combinators below carry that
statement from the parts of a record to the record.
-/

namespace Arcxa

abbrev Bytes := List UInt8

/-- A writer and a reader of values of type `α`. The reader consumes a value from
the front of its input and returns the remaining bytes. -/
structure Codec (α : Type) where
  encode : α → Bytes
  decode : Bytes → Option (α × Bytes)

namespace Codec

variable {α β : Type}

/-- The value `a` comes back from its own encoding, whatever follows it. -/
def RoundTrips (c : Codec α) (a : α) : Prop :=
  ∀ rest, c.decode (c.encode a ++ rest) = some (a, rest)

/-- Every value is written with exactly `w` bytes. -/
def HasWidth (c : Codec α) (w : Nat) : Prop :=
  ∀ a, (c.encode a).length = w

def decodeFront (c : Codec α) (bytes : Bytes) : Option α :=
  (c.decode bytes).map (·.1)

variable {c : Codec α}

theorem RoundTrips.decodeFront_append {a : α} (h : c.RoundTrips a) (rest : Bytes) :
    c.decodeFront (c.encode a ++ rest) = some a := by
  unfold decodeFront
  rw [h rest]
  rfl

theorem RoundTrips.decodeFront_encode {a : α} (h : c.RoundTrips a) :
    c.decodeFront (c.encode a) = some a := by
  have := h.decodeFront_append []
  simpa using this

/-! ## Little-endian naturals -/

/-- The `w` little-endian bytes of `n`; what does not fit in `w` bytes is dropped. -/
def leBytes : Nat → Nat → Bytes
  | 0, _ => []
  | w + 1, n => UInt8.ofNat n :: leBytes w (n / 256)

def leValue : Bytes → Nat
  | [] => 0
  | b :: bs => b.toNat + 256 * leValue bs

@[simp] theorem length_leBytes (w n : Nat) : (leBytes w n).length = w := by
  induction w generalizing n with
  | zero => rfl
  | succ w ih => simp [leBytes, ih]

theorem leValue_leBytes (w n : Nat) : leValue (leBytes w n) = n % 256 ^ w := by
  induction w generalizing n with
  | zero => simp [leBytes, leValue, Nat.mod_one]
  | succ w ih =>
    have hbyte : (UInt8.ofNat n).toNat = n % 256 := by simp
    rw [leBytes, leValue, ih, hbyte, pow_succ', Nat.mod_mul]

theorem leValue_replicate_zero (w : Nat) : leValue (List.replicate w 0) = 0 := by
  induction w with
  | zero => rfl
  | succ w ih => simp [List.replicate_succ, leValue, ih]

/-! ## Primitive codecs -/

/-- A natural number in `w` little-endian bytes. -/
def nat (w : Nat) : Codec Nat where
  encode := leBytes w
  decode bytes :=
    if w ≤ bytes.length then some (leValue (bytes.take w), bytes.drop w) else none

theorem nat_roundTrips {w n : Nat} (h : n < 256 ^ w) : (nat w).RoundTrips n := by
  intro rest
  have hlen : w ≤ (leBytes w n ++ rest).length := by simp
  simp only [nat, if_pos hlen]
  rw [List.take_left' (length_leBytes w n), List.drop_left' (length_leBytes w n),
    leValue_leBytes, Nat.mod_eq_of_lt h]

theorem nat_hasWidth (w : Nat) : (nat w).HasWidth w := length_leBytes w

def map (c : Codec α) (write : β → α) (read? : α → Option β) : Codec β where
  encode b := c.encode (write b)
  decode bytes := do
    let (a, rest) ← c.decode bytes
    let b ← read? a
    pure (b, rest)

theorem map_roundTrips {write : β → α} {read? : α → Option β} {b : β}
    (hc : c.RoundTrips (write b)) (hb : read? (write b) = some b) :
    (c.map write read?).RoundTrips b := by
  intro rest
  simp only [map]
  rw [hc rest]
  simp [hb]

theorem map_hasWidth {w : Nat} (h : c.HasWidth w) (write : β → α)
    (read? : α → Option β) : (c.map write read?).HasWidth w :=
  fun b => h (write b)

def seq (c : Codec α) (d : Codec β) : Codec (α × β) where
  encode p := c.encode p.1 ++ d.encode p.2
  decode bytes := do
    let (a, rest) ← c.decode bytes
    let (b, rest') ← d.decode rest
    pure ((a, b), rest')

theorem seq_roundTrips {d : Codec β} {a : α} {b : β}
    (ha : c.RoundTrips a) (hb : d.RoundTrips b) : (c.seq d).RoundTrips (a, b) := by
  intro rest
  simp only [seq, List.append_assoc]
  rw [ha (d.encode b ++ rest)]
  simp [hb rest]

theorem seq_hasWidth {d : Codec β} {v w : Nat}
    (hc : c.HasWidth v) (hd : d.HasWidth w) : (c.seq d).HasWidth (v + w) := by
  intro p
  simp [seq, hc p.1, hd p.2]

def u32 : Codec UInt32 :=
  (nat 4).map UInt32.toNat (fun n => some (UInt32.ofNat n))

theorem u32_roundTrips (n : UInt32) : u32.RoundTrips n :=
  map_roundTrips (nat_roundTrips n.toNat_lt) (by simp)

theorem u32_hasWidth : u32.HasWidth 4 := map_hasWidth (nat_hasWidth 4) _ _

def u64 : Codec UInt64 :=
  (nat 8).map UInt64.toNat (fun n => some (UInt64.ofNat n))

theorem u64_roundTrips (n : UInt64) : u64.RoundTrips n :=
  map_roundTrips (nat_roundTrips n.toNat_lt) (by simp)

theorem u64_hasWidth : u64.HasWidth 8 := map_hasWidth (nat_hasWidth 8) _ _

def bool : Codec Bool :=
  (nat 1).map Bool.toNat (fun n => if n = 0 then some false else if n = 1 then some true else none)

theorem bool_roundTrips (b : Bool) : bool.RoundTrips b := by
  refine map_roundTrips (nat_roundTrips ?_) ?_
  · cases b <;> decide
  · cases b <;> rfl

theorem bool_hasWidth : bool.HasWidth 1 := map_hasWidth (nat_hasWidth 1) _ _

def option (c : Codec α) : Codec (Option α) where
  encode
    | none => [0]
    | some a => 1 :: c.encode a
  decode
    | [] => none
    | tag :: bytes =>
      if tag = 0 then some (none, bytes)
      else if tag = 1 then (c.decode bytes).map (fun p => (some p.1, p.2))
      else none

theorem option_none_roundTrips (c : Codec α) : c.option.RoundTrips none := fun _ => rfl

theorem option_some_roundTrips {a : α} (h : c.RoundTrips a) :
    c.option.RoundTrips (some a) := by
  intro rest
  simp [option, h rest]

/-- Read exactly `n` values. -/
def decodeN (c : Codec α) : Nat → Bytes → Option (List α × Bytes)
  | 0, bytes => some ([], bytes)
  | n + 1, bytes => do
    let (a, rest) ← c.decode bytes
    let (as, rest') ← c.decodeN n rest
    pure (a :: as, rest')

theorem decodeN_flatMap {as : List α} (h : ∀ a ∈ as, c.RoundTrips a)
    (rest : Bytes) : c.decodeN as.length (as.flatMap c.encode ++ rest) = some (as, rest) := by
  induction as with
  | nil => rfl
  | cons a as ih =>
    have ha : c.RoundTrips a := h a (by simp)
    have has := ih (fun b hb => h b (by simp [hb]))
    simp only [List.length_cons, decodeN, List.flatMap_cons, List.append_assoc]
    rw [ha]
    simp [has]

def list (c : Codec α) : Codec (List α) where
  encode as := leBytes 8 as.length ++ as.flatMap c.encode
  decode bytes := do
    let (n, rest) ← (nat 8).decode bytes
    c.decodeN n rest

theorem list_roundTrips {as : List α} (hlen : as.length < 256 ^ 8)
    (h : ∀ a ∈ as, c.RoundTrips a) : c.list.RoundTrips as := by
  intro rest
  have hcount := nat_roundTrips hlen (as.flatMap c.encode ++ rest)
  simp only [list, List.append_assoc]
  rw [show leBytes 8 as.length = (nat 8).encode as.length from rfl, hcount]
  simp [decodeN_flatMap h]

def byte : Codec UInt8 where
  encode b := [b]
  decode
    | [] => none
    | b :: bytes => some (b, bytes)

theorem byte_roundTrips (b : UInt8) : byte.RoundTrips b := fun _ => rfl

def string : Codec String :=
  byte.list.map (fun s => s.toUTF8.data.toList) (fun bytes => String.fromUTF8? bytes.toByteArray)

theorem fromUTF8?_toUTF8 (s : String) :
    String.fromUTF8? s.toUTF8.data.toList.toByteArray = some s := by
  have hbytes : s.toUTF8.data.toList.toByteArray = s.toUTF8 := by
    apply ByteArray.ext
    rw [List.data_toByteArray, Array.toArray_toList]
  rw [hbytes]
  exact dif_pos s.isValidUTF8

theorem string_roundTrips {s : String} (h : s.toUTF8.data.toList.length < 256 ^ 8) :
    string.RoundTrips s :=
  map_roundTrips (list_roundTrips h (fun b _ => byte_roundTrips b)) (fromUTF8?_toUTF8 s)

def i64 : Codec Int64 := u64.map Int64.toUInt64 (fun n => some n.toInt64)

theorem i64_roundTrips (n : Int64) : i64.RoundTrips n :=
  map_roundTrips (u64_roundTrips _) (by simp)

def writeOnly (encode : α → Bytes) : Codec α where
  encode
  decode _ := none

/-! ## What the reader returns -/

def Canonical (c : Codec α) : Prop :=
  ∀ bytes a rest, c.decode bytes = some (a, rest) → c.RoundTrips a

theorem leValue_lt (bytes : Bytes) : leValue bytes < 256 ^ bytes.length := by
  induction bytes with
  | nil => decide
  | cons b bytes ih =>
    have hb : b.toNat < 256 := b.toNat_lt
    rw [leValue, List.length_cons, pow_succ']
    omega

theorem map_decode_inv {write : β → α} {read? : α → Option β} {bytes rest : Bytes}
    {b : β} (h : (c.map write read?).decode bytes = some (b, rest)) :
    ∃ a, c.decode bytes = some (a, rest) ∧ read? a = some b := by
  obtain ⟨⟨a, rest'⟩, ha, h⟩ := Option.bind_eq_some_iff.mp h
  obtain ⟨b', hb, h⟩ := Option.bind_eq_some_iff.mp h
  cases h
  exact ⟨a, ha, hb⟩

theorem seq_decode_inv {d : Codec β} {bytes rest : Bytes} {p : α × β}
    (h : (c.seq d).decode bytes = some (p, rest)) :
    ∃ mid, c.decode bytes = some (p.1, mid) ∧ d.decode mid = some (p.2, rest) := by
  obtain ⟨⟨a, mid⟩, ha, h⟩ := Option.bind_eq_some_iff.mp h
  obtain ⟨⟨b, rest'⟩, hb, h⟩ := Option.bind_eq_some_iff.mp h
  cases h
  exact ⟨mid, ha, hb⟩

theorem Canonical.option (h : c.Canonical) : c.option.Canonical := by
  intro bytes a rest hdecode
  cases bytes with
  | nil => cases hdecode
  | cons tag bytes =>
    simp only [Codec.option] at hdecode
    split_ifs at hdecode
    · cases hdecode
      exact option_none_roundTrips c
    · obtain ⟨⟨b, rest'⟩, hb, heq⟩ := Option.map_eq_some_iff.mp hdecode
      cases heq
      exact option_some_roundTrips (h bytes b rest' hb)

theorem decodeN_canonical (h : c.Canonical) {n : Nat} {bytes rest : Bytes}
    {as : List α} (hdecode : c.decodeN n bytes = some (as, rest)) :
    as.length = n ∧ ∀ a ∈ as, c.RoundTrips a := by
  induction n generalizing bytes as with
  | zero =>
    cases hdecode
    exact ⟨rfl, by simp⟩
  | succ n ih =>
    obtain ⟨⟨a, mid⟩, ha, hdecode⟩ := Option.bind_eq_some_iff.mp hdecode
    obtain ⟨⟨as', rest'⟩, has, hdecode⟩ := Option.bind_eq_some_iff.mp hdecode
    cases hdecode
    obtain ⟨hlen, hall⟩ := ih has
    refine ⟨by rw [List.length_cons, hlen], ?_⟩
    intro b hb
    rcases List.mem_cons.mp hb with rfl | hb
    · exact h bytes b mid ha
    · exact hall b hb

theorem Canonical.list (h : c.Canonical) : c.list.Canonical := by
  intro bytes as rest hdecode
  obtain ⟨⟨n, mid⟩, hn, hdecode⟩ := Option.bind_eq_some_iff.mp hdecode
  obtain ⟨hlen, hall⟩ := decodeN_canonical h hdecode
  refine list_roundTrips ?_ hall
  simp only [nat] at hn
  split_ifs at hn with hlong
  cases hn
  have hlt := leValue_lt (bytes.take 8)
  rw [List.length_take_of_le hlong] at hlt
  rw [hlen]
  exact hlt

theorem string_canonical : string.Canonical := by
  intro bytes s rest hdecode
  obtain ⟨raw, hraw, hs⟩ := map_decode_inv hdecode
  have hback : s.toUTF8.data.toList = raw := by
    unfold String.fromUTF8? at hs
    split_ifs at hs
    cases hs
    exact List.toList_data_toByteArray
  have hbyte : byte.Canonical := fun _ b _ _ => byte_roundTrips b
  refine map_roundTrips ?_ (fromUTF8?_toUTF8 s)
  rw [hback]
  exact hbyte.list bytes raw rest hraw

end Codec

end Arcxa
