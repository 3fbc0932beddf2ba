import Arcxa.Lib.BTreeMap
import Arcxa.Lib.Codec
import Arcxa.Lib.Text
import Arcxa.Lib.Transition
import Mathlib.Data.List.Sort
import Mathlib.Data.Prod.Lex

/-!
# Checkpoint storage

`CheckpointStorage` on a directory of files. A write puts the encoded checkpoint in place under a
name made from the millisecond of its timestamp, and then removes all but the newest files; it may
stop after any byte and before any removal, and later writes go on from what is there. `latest`
reads the newest file and no other.

A file that is torn under the greatest name is what `latest` then reads. In the runs where no write
leaves such a file behind while a checkpoint is stored (`Safe`), `latest` returns the greatest
stored checkpoint, and no cleanup removes it (`recovers_of_reaches`).
-/

namespace Arcxa.Checkpointing

open BTreeMap

/-! ## Checkpoints and their bytes -/

/-- Nanoseconds from the epoch; the seconds are `i64`. -/
@[ext] structure SystemTime where
  nanos : Int
  inRange : -2 ^ 63 * 1000000000 ≤ nanos ∧ nanos < 2 ^ 63 * 1000000000
deriving DecidableEq

namespace SystemTime

instance : LE SystemTime := ⟨fun t t' => t.nanos ≤ t'.nanos⟩

instance (t t' : SystemTime) : Decidable (t ≤ t') :=
  inferInstanceAs (Decidable (t.nanos ≤ t'.nanos))

/-- `duration_since(UNIX_EPOCH)` in milliseconds; there is none before the epoch. -/
def millis? (t : SystemTime) : Option Nat :=
  if t.nanos < 0 then none else some (t.nanos.toNat / 1000000)

/-- `system_time_ms`. -/
def millis (t : SystemTime) : Nat := t.millis?.getD 0

end SystemTime

/-- The offsets, the deduplication state and the rest are of type `π`. -/
structure Checkpoint (π : Type) where
  timestamp : SystemTime
  state : π
deriving DecidableEq

/-- `bincode` for checkpoints, and `zstd`. -/
structure CheckpointFormat (π : Type) where
  bincode : Codec (Checkpoint π)
  compress : Bytes → Bytes
  decompress : Bytes → Option Bytes

/-- Checkpoints from the epoch on are read back, and so is what was compressed. -/
structure CheckpointFormat.Lossless {π : Type} (fmt : CheckpointFormat π) : Prop where
  bincode : ∀ c : Checkpoint π, 0 ≤ c.timestamp.nanos → fmt.bincode.RoundTrips c
  zstd : ∀ bytes, fmt.decompress (fmt.compress bytes) = some bytes

/-! ## Files and their order -/

inductive WriteMethod where
  | write
  | writeAsync
deriving DecidableEq

structure File where
  bytes : Bytes
  modified : SystemTime

def WriteMethod.filename : WriteMethod → Nat → String
  | .write, timestamp => s!"checkpoint_{timestamp}.bin"
  | .writeAsync, timestamp => s!"checkpoint_{timestamp}.bin.zst"

/-- `Path::extension`. -/
def extension (filename : String) : Option String :=
  match rsplitOnce '.' filename.toList with
  | some (before, ext) => if before.isEmpty then none else some (String.ofList ext)
  | none => none

def checkpointTimestampFromPath (filename : String) : Option Nat := do
  let base ← ".bin.zst".toList.isSuffixOf? filename.toList <|>
    ".bin".toList.isSuffixOf? filename.toList
  let ts ← "checkpoint_".toList.isPrefixOf? base
  (parseUnsigned (2 ^ 128 - 1) ts).toOption

def checkpointSortKey (entry : String × File) : Nat ×ₗ Nat ×ₗ String :=
  toLex ((checkpointTimestampFromPath entry.1).getD 0, toLex (entry.2.modified.millis, entry.1))

/-- The directory. -/
structure CheckpointDir (π : Type) where
  files : BTreeMap String File
  /-- What has been written completely under a name and not been removed. -/
  stored : BTreeMap String (Checkpoint π)

namespace CheckpointDir

variable {π : Type} (d : CheckpointDir π)

def empty : CheckpointDir π := ⟨.empty, .empty⟩

def newestFirst : List (String × File) :=
  ((d.files.entries.filter fun e => extension e.1 = some "bin" || extension e.1 = some "zst")
    |>.insertionSort fun e e' => checkpointSortKey e ≤ checkpointSortKey e').reverse

/-- What `cleanup_old_checkpoints_internal` removes, in this order. -/
def oldCheckpoints (maxCheckpoints : Nat) : List String :=
  if maxCheckpoints < d.newestFirst.length then
    (d.newestFirst.drop maxCheckpoints).map (·.1)
  else []

def put (name : String) (file : File) (whole : Option (Checkpoint π)) : CheckpointDir π where
  files := d.files.insert name file
  stored := match whole with
    | some c => d.stored.insert name c
    | none => d.stored

def remove (name : String) : CheckpointDir π := ⟨d.files.remove name, d.stored.remove name⟩

end CheckpointDir

/-! ## Writing and reading -/

/-- How far a write comes. -/
inductive Reached where
  /-- The file has not been opened. -/
  | called
  /-- The file holds so many of the bytes, all of them if there are no more. -/
  | writing (k : Nat)
  /-- The file is whole and so many old files are removed, all of them if there are no more. -/
  | removing (k : Nat)

/-- A call of `write` or `write_async`, with the modification time of its file. -/
structure WriteCall (π : Type) where
  method : WriteMethod
  checkpoint : Checkpoint π
  modified : SystemTime
  reached : Reached

section Storage

variable {π : Type} (fmt : CheckpointFormat π)

def CheckpointFormat.encode (method : WriteMethod) (c : Checkpoint π) : Bytes :=
  match method with
  | .write => fmt.bincode.encode c
  | .writeAsync => fmt.compress (fmt.bincode.encode c)

/-- What `latest` makes of the bytes of a file. -/
def CheckpointFormat.decode (filename : String) (data : Bytes) : Except String (Checkpoint π) := do
  let decompressed ← if extension filename = some "zst" then
      match fmt.decompress data with
      | some decompressed => pure decompressed
      | none => throw "Failed to decompress checkpoint"
    else pure data
  match fmt.bincode.decodeFront decompressed with
  | some c => pure c
  | none => throw "Failed to deserialize checkpoint"

def CheckpointDir.latest (d : CheckpointDir π) : Except String (Option (Checkpoint π)) :=
  match d.newestFirst with
  | [] => pure none
  | (latestPath, file) :: _ => (fmt.decode latestPath file.bytes).map some

variable (maxCheckpoints : Nat)

/-- A timestamp before the epoch is an error. -/
def CheckpointDir.write (d : CheckpointDir π) (w : WriteCall π) : CheckpointDir π :=
  match w.checkpoint.timestamp.millis? with
  | none => d
  | some timestamp =>
    let filename := w.method.filename timestamp
    let data := fmt.encode w.method w.checkpoint
    match w.reached with
    | .called => d
    | .writing k =>
      d.put filename ⟨data.take k, w.modified⟩ (if data.length ≤ k then some w.checkpoint else none)
    | .removing k =>
      let d := d.put filename ⟨data, w.modified⟩ (some w.checkpoint)
      ((d.oldCheckpoints maxCheckpoints).take k).foldl CheckpointDir.remove d

def writeStep (d : CheckpointDir π) (w : WriteCall π) : Option (CheckpointDir π) :=
  some (d.write fmt maxCheckpoints w)

/-! ## Safe writes -/

def Overtaken (d : CheckpointDir π) (name : String) (key : Nat ×ₗ Nat ×ₗ String)
    (stake : Option (Checkpoint π)) : Prop :=
  ∃ e ∈ d.files.entries, e.1 ≠ name ∧ key < checkpointSortKey e ∧
    ∃ c ∈ d.stored.get e.1, (fmt.decode e.1 e.2.bytes).toOption = some c ∧
      ∀ old ∈ stake, old.timestamp ≤ c.timestamp

/-- The file sorts after all others, and none of them holds a later checkpoint. -/
def Newest (d : CheckpointDir π) (name : String) (key : Nat ×ₗ Nat ×ₗ String) (c : Checkpoint π) :
    Prop :=
  ∀ e ∈ d.files.entries, e.1 ≠ name → checkpointSortKey e < key ∧
    ∀ old ∈ d.stored.get e.1, old.timestamp ≤ c.timestamp

def SafeFile (d : CheckpointDir π) (name : String) (key : Nat ×ₗ Nat ×ₗ String) (c : Checkpoint π)
    (whole : Bool) : Prop :=
  if whole then Newest d name key c ∨ Overtaken fmt d name key (some c)
  else d.stored.entries = [] ∨ Overtaken fmt d name key (d.stored.get name)

def Safe (d : CheckpointDir π) (w : WriteCall π) : Prop :=
  ∀ timestamp ∈ w.checkpoint.timestamp.millis?,
    let name := w.method.filename timestamp
    let key := checkpointSortKey (name, ⟨[], w.modified⟩)
    match w.reached with
    | .called => True
    | .writing k =>
      SafeFile fmt d name key w.checkpoint ((fmt.encode w.method w.checkpoint).length ≤ k)
    | .removing _ => SafeFile fmt d name key w.checkpoint true

/-- The greatest stored checkpoint, if any is stored, is what `latest` returns, and its file is none
of those that a cleanup removes. -/
def Recovers (d : CheckpointDir π) : Prop :=
  d.stored.entries ≠ [] → ∃ name c, d.stored.get name = some c ∧
    (∀ name' c', d.stored.get name' = some c' → c'.timestamp ≤ c.timestamp) ∧
    d.latest fmt = .ok (some c) ∧ name ∉ d.oldCheckpoints maxCheckpoints

end Storage

/-! ## Names -/

theorem isPrefixOf?_append (l t : List Char) : l.isPrefixOf? (l ++ t) = some t :=
  List.isPrefixOf?_eq_some_iff_append_eq.mpr rfl

theorem isSuffixOf?_append (l t : List Char) : l.isSuffixOf? (t ++ l) = some t :=
  List.isSuffixOf?_eq_some_iff_append_eq.mpr rfl

theorem toList_filename (timestamp : Nat) :
    (WriteMethod.write.filename timestamp).toList =
      "checkpoint_".toList ++ Nat.toDigits 10 timestamp ++ ".bin".toList ∧
    (WriteMethod.writeAsync.filename timestamp).toList =
      "checkpoint_".toList ++ Nat.toDigits 10 timestamp ++ ".bin.zst".toList := by
  constructor <;> simp [WriteMethod.filename, toString]

variable {timestamp : Nat}

theorem checkpointTimestampFromPath_of_base {filename : String}
    (h : timestamp < 2 ^ 128)
    (hbase : (".bin.zst".toList.isSuffixOf? filename.toList <|>
      ".bin".toList.isSuffixOf? filename.toList) =
        some ("checkpoint_".toList ++ Nat.toDigits 10 timestamp)) :
    checkpointTimestampFromPath filename = some timestamp := by
  have hparse : parseUnsigned (2 ^ 128 - 1) (Nat.toDigits 10 timestamp) = .ok timestamp :=
    parseUnsigned_toDigits (by omega)
  rw [checkpointTimestampFromPath, hbase, Option.bind_eq_bind, Option.bind_some,
    isPrefixOf?_append, Option.bind_some, hparse]
  rfl

/-- **The timestamp is read back from the name.** -/
theorem checkpointTimestampFromPath_filename (method : WriteMethod)
    (h : timestamp < 2 ^ 128) :
    checkpointTimestampFromPath (method.filename timestamp) = some timestamp := by
  apply checkpointTimestampFromPath_of_base h
  cases method with
  | write =>
    -- the longer suffix ends in another letter
    have hzst : ".bin.zst".toList.isSuffixOf? (WriteMethod.write.filename timestamp).toList =
        none := by
      rw [(toList_filename timestamp).1, List.isSuffixOf?, List.reverse_append]
      rfl
    rw [hzst, (toList_filename timestamp).1, isSuffixOf?_append]
    rfl
  | writeAsync =>
    rw [(toList_filename timestamp).2, isSuffixOf?_append]
    rfl

theorem extension_filename (timestamp : Nat) :
    extension (WriteMethod.write.filename timestamp) = some "bin" ∧
    extension (WriteMethod.writeAsync.filename timestamp) = some "zst" := by
  constructor
  · have hsplit : rsplitOnce '.' (WriteMethod.write.filename timestamp).toList =
        some ("checkpoint_".toList ++ Nat.toDigits 10 timestamp, "bin".toList) := by
      rw [(toList_filename timestamp).1]
      exact rsplitOnce_append (by decide) _
    rw [extension, hsplit]
    rfl
  · have hsplit : rsplitOnce '.' (WriteMethod.writeAsync.filename timestamp).toList =
        some ("checkpoint_".toList ++ Nat.toDigits 10 timestamp ++ ".bin".toList,
          "zst".toList) := by
      rw [(toList_filename timestamp).2, ← @rsplitOnce_append Char _ '.' "zst".toList (by decide)]
      simp
    rw [extension, hsplit]
    rfl

theorem millis?_lt {t : SystemTime} (h : t.millis? = some timestamp) :
    timestamp < 2 ^ 128 := by
  rw [SystemTime.millis?] at h
  split_ifs at h
  cases h
  have := t.inRange.2
  omega

theorem le_of_millis?_lt {t t' : SystemTime} {m m' : Nat} (h : t.millis? = some m)
    (h' : t'.millis? = some m') (hlt : m < m') : t ≤ t' := by
  rw [SystemTime.millis?] at h h'
  split_ifs at h h'
  cases h
  cases h'
  show t.nanos ≤ t'.nanos
  omega

/-! ## The newest file -/

section Newest

variable {π : Type} {fmt : CheckpointFormat π} {d : CheckpointDir π}

theorem embedded_le_of_key_lt {e e' : String × File}
    (h : checkpointSortKey e < checkpointSortKey e') :
    (checkpointTimestampFromPath e.1).getD 0 ≤ (checkpointTimestampFromPath e'.1).getD 0 := by
  rcases Prod.Lex.toLex_lt_toLex.mp h with hlt | ⟨heq, -⟩
  · exact hlt.le
  · exact heq.le

theorem key_lt_of_embedded_lt {e e' : String × File}
    (h : (checkpointTimestampFromPath e.1).getD 0 < (checkpointTimestampFromPath e'.1).getD 0) :
    checkpointSortKey e < checkpointSortKey e' :=
  Prod.Lex.toLex_lt_toLex.mpr (.inl h)

theorem embedded_filename (method : WriteMethod) (h : timestamp < 2 ^ 128) :
    (checkpointTimestampFromPath (method.filename timestamp)).getD 0 = timestamp := by
  rw [checkpointTimestampFromPath_filename method h]
  rfl

variable {file : File}

variable {name : String}

theorem newestFirst_eq_cons (hfile : d.files.get name = some file)
    (hext : extension name = some "bin" ∨ extension name = some "zst")
    (hnewest : ∀ name' file', d.files.get name' = some file' → name' ≠ name →
      checkpointSortKey (name', file') < checkpointSortKey (name, file)) :
    ∃ rest, d.newestFirst = (name, file) :: rest ∧ name ∉ rest.map (·.1) := by
  have hperm : d.newestFirst.Perm (d.files.entries.filter fun e =>
      extension e.1 = some "bin" || extension e.1 = some "zst") :=
    (List.reverse_perm _).trans (List.perm_insertionSort _ _)
  have hmem : (name, file) ∈ d.newestFirst := by
    refine hperm.mem_iff.mpr (List.mem_filter.mpr ⟨mem_entries_iff.mpr hfile, ?_⟩)
    simpa using hext
  have hsorted : d.newestFirst.Pairwise fun e e' => checkpointSortKey e' ≤ checkpointSortKey e :=
    List.pairwise_reverse.mpr (List.pairwise_insertionSort _ _)
  have hnodup : (d.newestFirst.map (·.1)).Nodup := by
    refine (hperm.map _).nodup_iff.mpr ?_
    exact (nodup_keys d.files).sublist (List.filter_sublist.map _)
  cases hlist : d.newestFirst with
  | nil =>
    rw [hlist] at hmem
    cases hmem
  | cons e rest =>
    rw [hlist] at hmem hsorted hnodup
    have hhead : (name, file) = e := by
      rcases List.mem_cons.mp hmem with heq | hrest
      · exact heq
      · -- the head would have a greater key
        have hne : e.1 ≠ name := by
          intro heq
          rw [List.map_cons, List.nodup_cons, heq] at hnodup
          exact hnodup.1 (List.mem_map.mpr ⟨_, hrest, rfl⟩)
        have he : e ∈ d.files.entries :=
          List.mem_of_mem_filter (hperm.mem_iff.mp (hlist ▸ List.mem_cons_self))
        have hlt := hnewest e.1 e.2 (mem_entries_iff.mp he) hne
        exact absurd ((List.pairwise_cons.mp hsorted).1 _ hrest) (not_le.mpr hlt)
    rw [List.map_cons, List.nodup_cons] at hnodup
    rw [← hhead] at hnodup ⊢
    exact ⟨rest, rfl, hnodup.1⟩

variable (fmt d) in
/-- The newest file is whole and holds the greatest checkpoint stored. -/
structure Tops (name : String) (file : File) (c : Checkpoint π) : Prop where
  get_file : d.files.get name = some file
  get_stored : d.stored.get name = some c
  whole : fmt.decode name file.bytes = .ok c
  newest : ∀ name' file', d.files.get name' = some file' → name' ≠ name →
    checkpointSortKey (name', file') < checkpointSortKey (name, file)
  greatest : ∀ name' c', d.stored.get name' = some c' → c'.timestamp ≤ c.timestamp

variable (d) in
/-- Names are made from timestamps. -/
structure Named : Prop where
  files : ∀ name file, d.files.get name = some file →
    ∃ (method : WriteMethod) (timestamp : Nat), timestamp < 2 ^ 128 ∧
      name = method.filename timestamp
  stored : ∀ name c, d.stored.get name = some c → (d.files.get name).isSome ∧
    ∃ method : WriteMethod, ∃ timestamp, c.timestamp.millis? = some timestamp ∧
      name = method.filename timestamp

variable {c : Checkpoint π}

theorem Tops.recovers {maxCheckpoints : Nat} (h : Tops fmt d name file c) (hnamed : Named d)
    (hmax : 1 ≤ maxCheckpoints) :
    d.latest fmt = .ok (some c) ∧ name ∉ d.oldCheckpoints maxCheckpoints := by
  have hext : extension name = some "bin" ∨ extension name = some "zst" := by
    obtain ⟨method, timestamp, -, rfl⟩ := hnamed.files name file h.get_file
    cases method with
    | write => exact .inl (extension_filename timestamp).1
    | writeAsync => exact .inr (extension_filename timestamp).2
  obtain ⟨rest, hlist, hrest⟩ := newestFirst_eq_cons h.get_file hext h.newest
  constructor
  · rw [CheckpointDir.latest, hlist]
    show (fmt.decode name file.bytes).map some = _
    rw [h.whole]
    rfl
  · obtain ⟨k, rfl⟩ := Nat.exists_eq_add_of_le' hmax
    rw [CheckpointDir.oldCheckpoints, hlist, List.drop_succ_cons]
    split_ifs
    · intro hmem
      exact hrest ((List.drop_sublist k rest).map _ |>.subset hmem)
    · exact List.not_mem_nil

/-! ## Writing a file -/

theorem get_files_put (name : String) (file : File) (whole : Option (Checkpoint π))
    (name' : String) : (d.put name file whole).files.get name' =
      if name' = name then some file else d.files.get name' :=
  BTreeMap.get_insert ..

theorem get_stored_put (name : String) (file : File) (whole : Option (Checkpoint π))
    (name' : String) : (d.put name file whole).stored.get name' =
      if name' = name then whole.or (d.stored.get name) else d.stored.get name' := by
  cases whole with
  | none =>
    show d.stored.get name' = _
    split_ifs with heq
    · rw [heq]
      rfl
    · rfl
  | some c => exact get_insert ..

variable {method : WriteMethod}

theorem Named.put (h : Named d) {whole : Option (Checkpoint π)} (hlt : timestamp < 2 ^ 128)
    (hwhole : ∀ c ∈ whole, c.timestamp.millis? = some timestamp) :
    Named (d.put (method.filename timestamp) file whole) := by
  constructor
  · intro name file' hget
    rw [get_files_put] at hget
    split_ifs at hget with heq
    · exact ⟨method, timestamp, hlt, heq⟩
    · exact h.files name file' hget
  · intro name c hget
    rw [get_files_put]
    rw [get_stored_put] at hget
    split_ifs at hget ⊢ with heq
    · refine ⟨rfl, ?_⟩
      rcases Option.or_eq_some_iff.mp hget with hnew | ⟨-, hold⟩
      · exact ⟨method, timestamp, hwhole c hnew, heq⟩
      · rw [heq]
        exact (h.stored _ c hold).2
    · exact h.stored name c hget

theorem Tops.put_newest (hnamed : Named d)
    (hnewest : Newest d name (checkpointSortKey (name, file)) c)
    (hwhole : fmt.decode name file.bytes = .ok c) :
    Tops fmt (d.put name file (some c)) name file c := by
  refine ⟨?_, ?_, hwhole, ?_, ?_⟩
  · rw [get_files_put, if_pos rfl]
  · rw [get_stored_put, if_pos rfl]
    rfl
  · intro name' file' hget hne
    rw [get_files_put, if_neg hne] at hget
    exact (hnewest (name', file') (mem_entries_iff.mpr hget) hne).1
  · intro name' c' hget
    rw [get_stored_put] at hget
    split_ifs at hget with heq
    · cases hget
      exact le_refl c.timestamp.nanos
    · obtain ⟨file', hfile⟩ := Option.isSome_iff_exists.mp (hnamed.stored name' c' hget).1
      exact (hnewest (name', file') (mem_entries_iff.mpr hfile) heq).2 c' hget

theorem filename_eq_of_ne {method method' method'' : WriteMethod}
    (h : method.filename timestamp ≠ method''.filename timestamp)
    (h' : method'.filename timestamp ≠ method''.filename timestamp) :
    method.filename timestamp = method'.filename timestamp := by
  cases method <;> cases method' <;> cases method'' <;> first | rfl | exact absurd rfl h |
    exact absurd rfl h'

theorem Tops.put_overtaken (hnamed : Named d) {top : String} {file₀ : File} {c₀ : Checkpoint π}
    (htop : Tops fmt d top file₀ c₀) (hlt : timestamp < 2 ^ 128) {whole : Option (Checkpoint π)}
    (hover : Overtaken fmt d (method.filename timestamp)
      (checkpointSortKey (method.filename timestamp, file))
      (whole.or (d.stored.get (method.filename timestamp)))) :
    ∃ name' file' c', Tops fmt (d.put (method.filename timestamp) file whole) name' file' c' := by
  obtain ⟨⟨other, file₁⟩, hmem, hne, hkey, c₁, hstored₁, hdecode, hstake⟩ := hover
  have hfile₁ : d.files.get other = some file₁ := mem_entries_iff.mp hmem
  have hwhole₁ : fmt.decode other file₁.bytes = .ok c₁ := by
    cases hd : fmt.decode other file₁.bytes with
    | ok c =>
      rw [hd] at hdecode
      cases hdecode
      rfl
    | error e =>
      rw [hd] at hdecode
      cases hdecode
  by_cases heq : top = method.filename timestamp
  · -- the newest file is rewritten and falls behind the one of the same millisecond
    subst heq
    obtain ⟨method₁, timestamp₁, hlt₁, rfl⟩ := hnamed.files other file₁ hfile₁
    have hsame : timestamp₁ = timestamp := by
      have hle := embedded_le_of_key_lt hkey
      have hge := embedded_le_of_key_lt (htop.newest _ file₁ hfile₁ hne)
      simp only [embedded_filename _ hlt, embedded_filename _ hlt₁] at hle hge
      omega
    subst hsame
    -- all others are of an earlier millisecond
    have hearlier : ∀ name' file', d.files.get name' = some file' →
        name' ≠ method.filename timestamp₁ → name' ≠ method₁.filename timestamp₁ →
        (checkpointTimestampFromPath name').getD 0 < timestamp₁ := by
      intro name' file' hget hne₀ hne₁
      have hle := embedded_le_of_key_lt (htop.newest name' file' hget hne₀)
      obtain ⟨method', timestamp', hlt', rfl⟩ := hnamed.files name' file' hget
      simp only [embedded_filename _ hlt, embedded_filename _ hlt'] at hle ⊢
      refine lt_of_le_of_ne hle ?_
      rintro rfl
      exact hne₁ (filename_eq_of_ne hne₀ hne)
    refine ⟨method₁.filename timestamp₁, file₁, c₁, ?_, ?_, hwhole₁, ?_, ?_⟩
    · rw [get_files_put, if_neg hne, hfile₁]
    · rw [get_stored_put, if_neg hne]
      exact hstored₁
    · intro name' file' hget hne₁
      rw [get_files_put] at hget
      split_ifs at hget with hname
      · cases hget
        rw [hname]
        exact hkey
      · apply key_lt_of_embedded_lt
        rw [embedded_filename _ hlt₁]
        exact hearlier name' file' hget hname hne₁
    · intro name' c' hget
      rw [get_stored_put] at hget
      split_ifs at hget with hname
      · exact hstake c' hget
      · by_cases hname₁ : name' = method₁.filename timestamp₁
        · rw [hname₁, hstored₁] at hget
          cases hget
          exact le_refl c₁.timestamp.nanos
        · obtain ⟨hsome, method', timestamp', hmillis, heq'⟩ := hnamed.stored name' c' hget
          obtain ⟨file', hfile'⟩ := Option.isSome_iff_exists.mp hsome
          have hbefore := hearlier name' file' hfile' hname hname₁
          rw [heq', embedded_filename _ (millis?_lt hmillis)] at hbefore
          obtain ⟨-, method₂, timestamp₂, hmillis₂, heq₂⟩ := hnamed.stored _ c₁ hstored₁
          have hts : timestamp₂ = timestamp₁ := by
            rw [← embedded_filename method₂ (millis?_lt hmillis₂), ← heq₂,
              embedded_filename _ hlt₁]
          exact le_of_millis?_lt hmillis (hts ▸ hmillis₂) hbefore
  · -- the newest file stays the newest
    have hbehind : checkpointSortKey (other, file₁) ≤ checkpointSortKey (top, file₀) := by
      by_cases hsame : other = top
      · rw [hsame] at hfile₁ ⊢
        rw [htop.get_file] at hfile₁
        cases hfile₁
        exact le_refl _
      · exact (htop.newest other file₁ hfile₁ hsame).le
    refine ⟨top, file₀, c₀, ?_, ?_, htop.whole, ?_, ?_⟩
    · rw [get_files_put, if_neg heq, htop.get_file]
    · rw [get_stored_put, if_neg heq, htop.get_stored]
    · intro name' file' hget hne'
      rw [get_files_put] at hget
      split_ifs at hget with hname
      · cases hget
        rw [hname]
        exact hkey.trans_le hbehind
      · exact htop.newest name' file' hget hne'
    · intro name' c' hget
      rw [get_stored_put] at hget
      split_ifs at hget with hname
      · exact Int.le_trans (hstake c' hget) (htop.greatest other c₁ hstored₁)
      · exact htop.greatest name' c' hget

/-! ## Cleanups -/

theorem get_files_remove (name name' : String) :
    (d.remove name).files.get name' = if name' = name then none else d.files.get name' :=
  BTreeMap.get_remove ..

theorem get_stored_remove (name name' : String) :
    (d.remove name).stored.get name' = if name' = name then none else d.stored.get name' :=
  BTreeMap.get_remove ..

theorem Named.remove (h : Named d) (name : String) : Named (d.remove name) := by
  constructor
  · intro name' file hget
    rw [get_files_remove] at hget
    split_ifs at hget
    exact h.files name' file hget
  · intro name' c hget
    rw [get_stored_remove] at hget
    rw [get_files_remove]
    split_ifs at hget ⊢
    exact h.stored name' c hget

theorem Tops.remove {name name' : String}
    (h : Tops fmt d name file c) (hne : name ≠ name') : Tops fmt (d.remove name') name file c := by
  refine ⟨?_, ?_, h.whole, ?_, ?_⟩
  · rw [get_files_remove, if_neg hne, h.get_file]
  · rw [get_stored_remove, if_neg hne, h.get_stored]
  · intro other file' hget hother
    rw [get_files_remove] at hget
    split_ifs at hget
    exact h.newest other file' hget hother
  · intro other c' hget
    rw [get_stored_remove] at hget
    split_ifs at hget
    exact h.greatest other c' hget

theorem Tops.removeAll {names : List String} (h : Tops fmt d name file c) (hnamed : Named d)
    (hnot : name ∉ names) :
    Tops fmt (names.foldl CheckpointDir.remove d) name file c ∧
      Named (names.foldl CheckpointDir.remove d) := by
  induction names generalizing d with
  | nil => exact ⟨h, hnamed⟩
  | cons name' names ih =>
    rw [List.mem_cons, not_or] at hnot
    exact ih (h.remove hnot.1) (hnamed.remove name') hnot.2

/-! ## Runs -/

variable (fmt d) in
/-- Whenever a checkpoint is stored, the newest file is whole and holds the greatest one. -/
structure Intact : Prop where
  named : Named d
  tops : d.stored.entries ≠ [] → ∃ name file c, Tops fmt d name file c

theorem intact_empty : Intact fmt (.empty : CheckpointDir π) := by
  refine ⟨⟨?_, ?_⟩, ?_⟩
  · rintro name file ⟨⟩
  · rintro name c ⟨⟩
  · exact fun hne => absurd rfl hne

theorem decode_encode (hfmt : fmt.Lossless) (method : WriteMethod)
    (h : c.timestamp.millis? = some timestamp) :
    fmt.decode (method.filename timestamp) (fmt.encode method c) = .ok c := by
  have hpos : 0 ≤ c.timestamp.nanos := by
    rw [SystemTime.millis?] at h
    split_ifs at h with hneg
    exact not_lt.mp hneg
  have hread := (hfmt.bincode c hpos).decodeFront_encode
  cases method with
  | write =>
    simp only [CheckpointFormat.decode, CheckpointFormat.encode, (extension_filename timestamp).1]
    simp [hread, bind, Except.bind, pure, Except.pure]
  | writeAsync =>
    simp only [CheckpointFormat.decode, CheckpointFormat.encode, (extension_filename timestamp).2]
    simp [hread, hfmt.zstd, bind, Except.bind, pure, Except.pure]

theorem Intact.put (h : Intact fmt d) (hmillis : c.timestamp.millis? = some timestamp) (file : File)
    (whole : Bool)
    (hbytes : whole = true → fmt.decode (method.filename timestamp) file.bytes = .ok c)
    (hsafe : SafeFile fmt d (method.filename timestamp)
      (checkpointSortKey (method.filename timestamp, file)) c whole) :
    Intact fmt (d.put (method.filename timestamp) file (if whole then some c else none)) := by
  have hlt := millis?_lt hmillis
  constructor
  · apply h.named.put hlt
    intro c' hc'
    cases whole with
    | false => cases hc'
    | true =>
      cases hc'
      exact hmillis
  · intro hne
    -- what overtakes is stored, so that there is a newest file
    have hover : ∀ {whole' : Option (Checkpoint π)}, Overtaken fmt d (method.filename timestamp)
        (checkpointSortKey (method.filename timestamp, file))
        (whole'.or (d.stored.get (method.filename timestamp))) →
        ∃ name file' c',
          Tops fmt (d.put (method.filename timestamp) file whole') name file' c' := by
      intro whole' hover
      obtain ⟨e, -, -, -, c₁, hstored, -⟩ := id hover
      obtain ⟨top, file₀, c₀, htop⟩ := h.tops (entries_ne_nil_of_get hstored)
      exact htop.put_overtaken h.named hlt hover
    cases whole with
    | true =>
      rcases hsafe with hnewest | hovertaken
      · exact ⟨_, _, _, Tops.put_newest h.named hnewest (hbytes rfl)⟩
      · exact hover hovertaken
    | false =>
      rcases hsafe with hnone | hovertaken
      · exact absurd hnone hne
      · exact hover hovertaken

/-- **A safe write keeps the invariant**, wherever it stops. -/
theorem Intact.write (hfmt : fmt.Lossless) {maxCheckpoints : Nat} (hmax : 1 ≤ maxCheckpoints)
    (h : Intact fmt d) {w : WriteCall π} (hsafe : Safe fmt d w) :
    Intact fmt (d.write fmt maxCheckpoints w) := by
  cases hmillis : w.checkpoint.timestamp.millis? with
  | none =>
    simp only [CheckpointDir.write, hmillis]
    exact h
  | some timestamp =>
    have hfile := hsafe timestamp hmillis
    have hdecode := decode_encode hfmt w.method hmillis
    simp only [CheckpointDir.write, hmillis]
    cases hreached : w.reached with
    | called => exact h
    | writing k =>
      rw [hreached] at hfile
      have hput := h.put hmillis ⟨(fmt.encode w.method w.checkpoint).take k, w.modified⟩ _
        (fun hwhole => by
          show fmt.decode _ ((fmt.encode w.method w.checkpoint).take k) = _
          rw [List.take_of_length_le (of_decide_eq_true hwhole)]
          exact hdecode) hfile
      simpa using hput
    | removing k =>
      rw [hreached] at hfile
      have hput : Intact fmt (d.put (w.method.filename timestamp)
          ⟨fmt.encode w.method w.checkpoint, w.modified⟩ (some w.checkpoint)) :=
        h.put hmillis _ true (fun _ => hdecode) hfile
      have hstored : (d.put (w.method.filename timestamp)
          ⟨fmt.encode w.method w.checkpoint, w.modified⟩ (some w.checkpoint)).stored.get
            (w.method.filename timestamp) = some w.checkpoint := by
        rw [get_stored_put, if_pos rfl]
        rfl
      obtain ⟨top, file, c, htop⟩ := hput.tops (entries_ne_nil_of_get hstored)
      have hnot := (htop.recovers hput.named hmax).2
      obtain ⟨htop', hnamed'⟩ := htop.removeAll hput.named
        (fun hmem => hnot (List.mem_of_mem_take (i := k) hmem))
      exact ⟨hnamed', fun _ => ⟨top, file, c, htop'⟩⟩

end Newest

/-- **The last good checkpoint is not lost** in the runs of safe writes, wherever they stop: while
any checkpoint is stored, `latest` returns the greatest one, and no cleanup removes its file. -/
theorem recovers_of_reaches {π : Type} (fmt : CheckpointFormat π) (hfmt : fmt.Lossless)
    (maxCheckpoints : Nat) (hmax : 1 ≤ maxCheckpoints) {d : CheckpointDir π}
    (hreach : Reaches (writeStep fmt maxCheckpoints) (Safe fmt) .empty d) :
    Recovers fmt maxCheckpoints d := by
  have hinv : Intact fmt d := by
    refine hreach.invariant intact_empty ?_
    intro s w s' hs hsafe hstep
    cases hstep
    exact hs.write hfmt hmax hsafe
  intro hne
  obtain ⟨name, file, c, htop⟩ := hinv.tops hne
  exact ⟨name, c, htop.get_stored, htop.greatest, htop.recovers hinv.named hmax⟩

/-! ## Two runs -/

def SystemTime.parts (t : SystemTime) : Nat × Nat :=
  (t.nanos.toNat / 1000000000, t.nanos.toNat % 1000000000)

def SystemTime.ofParts (p : Nat × Nat) : Option SystemTime :=
  if h : ((p.1 * 1000000000 + p.2 : Nat) : Int) < 2 ^ 63 * 1000000000 then
    some ⟨(p.1 * 1000000000 + p.2 : Nat), by omega, h⟩
  else none

theorem SystemTime.ofParts_parts {t : SystemTime} (h : 0 ≤ t.nanos) : ofParts t.parts = some t := by
  have hvalue : ((t.parts.1 * 1000000000 + t.parts.2 : Nat) : Int) = t.nanos := by
    unfold parts
    omega
  have hrange := t.inRange.2
  unfold ofParts
  split_ifs with hlt
  · exact congrArg some (SystemTime.ext hvalue)
  · omega

theorem SystemTime.parts_lt (t : SystemTime) : t.parts.1 < 256 ^ 8 ∧ t.parts.2 < 256 ^ 4 := by
  have := t.inRange.2
  constructor
  · show t.nanos.toNat / 1000000000 < 256 ^ 8
    omega
  · show t.nanos.toNat % 1000000000 < 256 ^ 4
    omega

def SystemTime.codec : Codec SystemTime :=
  ((Codec.nat 8).seq (Codec.nat 4)).map SystemTime.parts SystemTime.ofParts

theorem SystemTime.codec_roundTrips {t : SystemTime} (h : 0 ≤ t.nanos) : codec.RoundTrips t := by
  have hparts : ((Codec.nat 8).seq (Codec.nat 4)).RoundTrips t.parts :=
    Codec.seq_roundTrips (Codec.nat_roundTrips t.parts_lt.1) (Codec.nat_roundTrips t.parts_lt.2)
  exact Codec.map_roundTrips hparts (ofParts_parts h)

def rawCheckpoint : Codec (Checkpoint UInt64) :=
  (Codec.u64.seq SystemTime.codec).map (fun c => (c.state, c.timestamp))
    (fun p => some ⟨p.2, p.1⟩)

theorem rawCheckpoint_roundTrips {c : Checkpoint UInt64} (h : 0 ≤ c.timestamp.nanos) :
    rawCheckpoint.RoundTrips c :=
  have hpair : (Codec.u64.seq SystemTime.codec).RoundTrips (c.state, c.timestamp) :=
    Codec.seq_roundTrips (Codec.u64_roundTrips c.state) (SystemTime.codec_roundTrips h)
  Codec.map_roundTrips hpair rfl

def rawFormat : CheckpointFormat UInt64 where
  bincode := rawCheckpoint
  compress bytes := [0x28, 0xB5, 0x2F, 0xFD] ++ bytes
  decompress bytes := if bytes.take 4 = [0x28, 0xB5, 0x2F, 0xFD] then some (bytes.drop 4) else none

theorem rawFormat_lossless : rawFormat.Lossless := by
  refine ⟨fun c hpos => rawCheckpoint_roundTrips hpos, ?_⟩
  intro bytes
  simp [rawFormat]

section Decidable

variable {π : Type} [DecidableEq π] (fmt : CheckpointFormat π) (d : CheckpointDir π)

instance (name : String) (key : Nat ×ₗ Nat ×ₗ String) (stake : Option (Checkpoint π)) :
    Decidable (Overtaken fmt d name key stake) := by
  unfold Overtaken
  infer_instance

instance (name : String) (key : Nat ×ₗ Nat ×ₗ String) (c : Checkpoint π) :
    Decidable (Newest d name key c) := by
  unfold Newest
  infer_instance

instance (name : String) (key : Nat ×ₗ Nat ×ₗ String) (c : Checkpoint π) (whole : Bool) :
    Decidable (SafeFile fmt d name key c whole) := by
  unfold SafeFile
  infer_instance

instance (w : WriteCall π) : Decidable (Safe fmt d w) := by
  unfold Safe
  cases w.reached <;> infer_instance

end Decidable

def atSecond (n : Fin 100) : SystemTime := ⟨(n.val : Int) * 1000000000, by omega⟩

def writeAt (n : Fin 100) (method : WriteMethod) (state : UInt64) (reached : Reached) :
    WriteCall UInt64 :=
  ⟨method, ⟨atSecond n, state⟩, atSecond n, reached⟩

/-- The second write replaces the first one, and a late third one is interrupted. -/
theorem recovers_sample :
    ∃ d, exec (writeStep rawFormat 1) .empty
        [writeAt 1 .write 100 (.removing 1), writeAt 3 .writeAsync 200 (.removing 1),
          writeAt 2 .write 150 (.writing 5)] = some d ∧
      d.stored.values = [⟨atSecond 3, 200⟩] ∧ Recovers rawFormat 1 d := by
  refine exists_exec (fun d => d.stored.values = [⟨atSecond 3, 200⟩]) (by decide +kernel) ?_
  intro d hexec hd
  refine ⟨hd, recovers_of_reaches rawFormat rawFormat_lossless 1 (le_refl 1) ?_⟩
  exact .of_exec (by decide +kernel) hexec

/-- A write is interrupted after five bytes; the checkpoint before it is not found. -/
theorem not_recovers_torn :
    ∃ d, exec (writeStep rawFormat 10) .empty
        [writeAt 1 .write 100 (.removing 0), writeAt 2 .write 200 (.writing 5)] = some d ∧
      ¬ Recovers rawFormat 10 d := by
  refine exists_exec (fun d => d.stored.entries ≠ [] ∧ (d.latest rawFormat).isOk = false)
    (by decide +kernel) ?_
  rintro d - ⟨hne, herror⟩ hrecovers
  obtain ⟨name, c, -, -, hlatest, -⟩ := hrecovers hne
  rw [hlatest] at herror
  cases herror

end Arcxa.Checkpointing
