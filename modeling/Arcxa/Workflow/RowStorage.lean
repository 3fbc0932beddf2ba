import Arcxa.Workflow.Spill

/-!
# Row storage and its access paths (`row_storage.rs`)

A `RowStorage` is one of four backends, and there are four ways to read it: row by row,
in batches, all at once, and by index. `Presents` says that all of them give the same
rows in the same order.

The two iterators that read from disk fill a buffer and pop from its end. The Parquet one
reverses each range it reads; the RocksDB one does not, so that every batch comes out
backwards. `presents_iff` says for each backend exactly when the rows are presented: in
memory always, in Parquet unless a row has no field, in RocksDB only if every batch reads
the same in both directions, every row survives its JSON text and no older row is left
under a later key.
-/

namespace Arcxa.Workflow

variable {F : Type}

inductive RowStorage (F : Type) where
  | InMemory (rows : List (Value F))
  | Shared (rows : List (Value F)) (version : Nat)
  | RocksDB (db : Db) (keyPrefix : String) (rowCount : Nat)
  | Parquet (file : ParquetFile F) (schema : List Field) (rowCount : Nat)
      (index : BTreeMap Nat Nat)

def RowStorage.len : RowStorage F → Nat
  | .InMemory rows => rows.length
  | .Shared rows _ => rows.length
  | .RocksDB _ _ rowCount => rowCount
  | .Parquet _ _ rowCount _ => rowCount

/-! ## Reading from RocksDB -/

section Rocks

variable (fromSlice : Bytes → Except String (Value F))

/-- `serde_json::from_slice` of a stored row. -/
def parseRow (bytes : Bytes) : Except WorkflowError (Value F) :=
  (fromSlice bytes).mapError .Serialization

def fetchRows (db : Db) (keyPrefix : String) :
    List Nat → List (Value F) → Except WorkflowError Unit × List (Value F)
  | [], buffer => (.ok (), buffer)
  | i :: indices, buffer =>
    match db (rowKey keyPrefix i) with
    | none => fetchRows db keyPrefix indices buffer
    | some bytes =>
      match parseRow fromSlice bytes with
      | .error e => (.error e, buffer)
      | .ok row => fetchRows db keyPrefix indices (buffer ++ [row])

end Rocks

/-! ## Iterators -/

structure RowIterator (F : Type) where
  storage : RowStorage F
  current : Nat
  batchSize : Nat
  buffer : List (Value F)

namespace RowIterator

def withBatchSize (storage : RowStorage F) (batchSize : Nat) : RowIterator F where
  storage
  current := 0
  batchSize
  buffer := []

/-- `self.buffer.pop()`, from the end. -/
def pop (it : RowIterator F) : Option (Except WorkflowError (Value F)) × RowIterator F :=
  (it.buffer.getLast?.map .ok, { it with buffer := it.buffer.dropLast })

variable (fromSlice : Bytes → Except String (Value F))

def fetchNextBatch (it : RowIterator F) : Except WorkflowError Unit × RowIterator F :=
  match it.storage with
  | .RocksDB db keyPrefix rowCount =>
    let stop := min (it.current + it.batchSize) rowCount
    match fetchRows fromSlice db keyPrefix (List.range' it.current (stop - it.current))
        it.buffer with
    | (.ok (), buffer) => (.ok (), { it with buffer, current := stop })
    | (.error e, buffer) => (.error e, { it with buffer })
  | _ => (.ok (), it)

/-- `rows[current]`, and on to the next. -/
def nextInline (it : RowIterator F) (rows : List (Value F)) :
    Option (Except WorkflowError (Value F)) × RowIterator F :=
  match rows[it.current]? with
  | some row => (some (.ok row), { it with current := it.current + 1 })
  | none => (none, it)

def next (it : RowIterator F) : Option (Except WorkflowError (Value F)) × RowIterator F :=
  match it.storage with
  | .InMemory rows => it.nextInline rows
  | .Shared rows _ => it.nextInline rows
  | .RocksDB _ _ rowCount =>
    if it.buffer.isEmpty ∧ it.current < rowCount then
      match it.fetchNextBatch fromSlice with
      | (.error e, it') => (some (.error e), it')
      | (.ok (), it') => it'.pop
    else it.pop
  | .Parquet file _ rowCount index =>
    if it.buffer.isEmpty ∧ it.current < rowCount then
      let stop := min (it.current + it.batchSize) rowCount
      match readParquetRange file index it.current stop with
      | .ok rows => { it with buffer := rows.reverse, current := stop }.pop
      | .error e => (some (.error e), it)
    else it.pop

end RowIterator

structure BatchIterator (F : Type) where
  iter : RowIterator F
  batchSize : Nat

namespace BatchIterator

def new (storage : RowStorage F) (batchSize : Nat) : BatchIterator F where
  iter := .withBatchSize storage batchSize
  batchSize

def next (fromSlice : Bytes → Except String (Value F)) (it : BatchIterator F) :
    Option (Except WorkflowError (List (Value F))) × BatchIterator F :=
  match nextBatch (RowIterator.next fromSlice) it.batchSize it.iter with
  | (batch, iter) => (batch, { it with iter })

end BatchIterator

/-! ## Accessor -/

namespace RowAccessor

variable (fromSlice : Bytes → Except String (Value F))

def toVec : RowStorage F → Except WorkflowError (List (Value F))
  | .InMemory rows => .ok rows
  | .Shared rows _ => .ok rows
  | .RocksDB db keyPrefix rowCount =>
    match fetchRows fromSlice db keyPrefix (List.range rowCount) [] with
    | (.ok (), rows) => .ok rows
    | (.error e, _) => .error e
  | .Parquet file _ _ _ => readParquetRows file

def get (storage : RowStorage F) (index : Nat) : Except WorkflowError (Option (Value F)) :=
  match storage with
  | .InMemory rows => .ok rows[index]?
  | .Shared rows _ => .ok rows[index]?
  | .RocksDB db keyPrefix _ =>
    match db (rowKey keyPrefix index) with
    | none => .ok none
    | some bytes => (parseRow fromSlice bytes).map some
  | .Parquet file _ _ parquetIndex => readParquetRow file parquetIndex index

end RowAccessor

/-! ## The property -/

/-- All ways of reading the storage give the rows, in their order. -/
structure Presents (fromSlice : Bytes → Except String (Value F)) (storage : RowStorage F) (b : Nat)
    (rows : List (Value F)) : Prop where
  rowIterator : Yields (RowIterator.next fromSlice) (.withBatchSize storage b) rows
  batchIterator : ∃ batches, Yields (BatchIterator.next fromSlice) (.new storage b) batches ∧
    batches.flatten = rows
  toVec : RowAccessor.toVec fromSlice storage = .ok rows
  len : storage.len = rows.length
  get : ∀ i, RowAccessor.get fromSlice storage i = .ok rows[i]?

inductive Backend where
  | InMemory | Shared | RocksDB | Parquet
  deriving DecidableEq, Repr

/-- Where the rows go: an existing database, and the names that make up the key prefix. -/
structure Spill where
  db : Db
  executionId : String
  stepId : String

def storeRows [Float64 F] (spill : Spill) (rows : List (Value F)) :
    Backend → Except WorkflowError (RowStorage F)
  | .InMemory => .ok (.InMemory rows)
  | .Shared => .ok (.Shared rows 0)
  | .RocksDB =>
    let storage := createRocksStorage spill.db spill.executionId spill.stepId rows
    .ok (.RocksDB storage.db storage.keyPrefix storage.rowCount)
  | .Parquet => do
    let storage ← createParquetStorage rows
    return .Parquet storage.file storage.schema storage.rowCount storage.index

def HomogeneousRows (rows : List (Value F)) : Prop :=
  ∃ objects : List (Row F), rows = objects.map Value.ofRow ∧ Lossless objects

def Faithful [Float64 F] (fromSlice : Bytes → Except String (Value F)) (spill : Spill) (b : Nat)
    (rows : List (Value F)) : Backend → Prop
  | .InMemory | .Shared => True
  | .RocksDB =>
    (∀ row ∈ rows, fromSlice row.toVec = .ok row) ∧ (∀ batch ∈ chunks b rows, batch.reverse = batch) ∧
      ∀ i, rows.length ≤ i → spill.db (rowKey (spill.executionId ++ "/" ++ spill.stepId) i) = none
  | .Parquet => ∀ row ∈ rows, row ≠ .object []

/-! ## Iterating -/

variable {rows : List (Value F)}

section Iterate

variable {fromSlice : Bytes → Except String (Value F)} {storage : RowStorage F} {b : Nat}

theorem yields_batches {Inv : RowIterator F → List (Value F) → Prop}
    (h : Enumerates (RowIterator.next fromSlice) Inv) (hb : 0 < b) {l : List (Value F)}
    (hl : Inv (.withBatchSize storage b) l) :
    Yields (BatchIterator.next fromSlice) (.new storage b) (chunks b l) := by
  have hbatches := h.batches hb
  have hlift : Enumerates (BatchIterator.next fromSlice)
      (fun it ls => it.batchSize = b ∧ ∃ l, Inv it.iter l ∧ ls = chunks b l) := by
    refine ⟨?_, ?_⟩
    · rintro ⟨iter, _⟩ ⟨rfl, hiter⟩
      obtain ⟨iter', hnext, hiter'⟩ := hbatches.nil iter hiter
      exact ⟨⟨iter', _⟩, by simp only [BatchIterator.next, hnext], rfl, hiter'⟩
    · rintro ⟨iter, _⟩ c cs ⟨rfl, hiter⟩
      obtain ⟨iter', hnext, hiter'⟩ := hbatches.cons iter c cs hiter
      exact ⟨⟨iter', _⟩, by simp only [BatchIterator.next, hnext], rfl, hiter'⟩
  exact hlift.yields ⟨rfl, l, hl, rfl⟩

theorem enumerates_inline
    (h : ∀ it : RowIterator F, it.storage = storage → it.next fromSlice = it.nextInline rows) :
    Enumerates (RowIterator.next fromSlice)
      (fun it l => it.storage = storage ∧ l = rows.drop it.current) := by
  refine ⟨?_, ?_⟩
  · rintro it ⟨hstorage, hnil⟩
    have hnone : rows[it.current]? = none :=
      List.getElem?_eq_none (List.drop_eq_nil_iff.mp hnil.symm)
    refine ⟨it, ?_, hstorage, hnil⟩
    rw [h it hstorage, RowIterator.nextInline, hnone]
  · rintro it row l ⟨hstorage, hcons⟩
    have hsome : rows[it.current]? = some row := by
      rw [← List.head?_drop, ← hcons]
      rfl
    refine ⟨{ it with current := it.current + 1 }, ?_, hstorage, ?_⟩
    · rw [h it hstorage, RowIterator.nextInline, hsome]
    · show l = rows.drop (it.current + 1)
      rw [← List.tail_drop, ← hcons]
      rfl

theorem take_drop_ne_nil (hb : 0 < b) {i : Nat} (h : i < rows.length) :
    rows.drop i ≠ [] ∧ (rows.drop i).take b ≠ [] := by
  have hne : rows.drop i ≠ [] := by
    rw [Ne, List.drop_eq_nil_iff]
    omega
  refine ⟨hne, ?_⟩
  rw [Ne, List.take_eq_nil_iff]
  rintro (h0 | h0)
  · omega
  · exact hne h0

def Buffered (storage : RowStorage F) (b : Nat) (rows : List (Value F))
    (arrange : List (Value F) → List (Value F)) (it : RowIterator F) (l : List (Value F)) : Prop :=
  it.storage = storage ∧ it.batchSize = b ∧
    l = it.buffer.reverse ++
      ((chunks b (rows.drop it.current)).map (fun batch => (arrange batch).reverse)).flatten

/-- The rule for the iterators that read from disk. `arrange` is what a fetched batch looks like
in the buffer. -/
theorem enumerates_buffered (hb : 0 < b)
    {arrange : List (Value F) → List (Value F)} (harrange : ∀ l, l ≠ [] → arrange l ≠ [])
    (hpop : ∀ it : RowIterator F, it.storage = storage →
      ¬ (it.buffer = [] ∧ it.current < rows.length) → it.next fromSlice = it.pop)
    (hfetch : ∀ it : RowIterator F, it.storage = storage → it.batchSize = b →
      it.buffer = [] → it.current < rows.length → it.next fromSlice =
        { it with
          buffer := arrange ((rows.drop it.current).take b)
          current := min (it.current + b) rows.length }.pop) :
    Enumerates (RowIterator.next fromSlice) (Buffered storage b rows arrange) := by
  -- popping takes the head off, as long as there is something in the buffer
  have hpopped : ∀ (it : RowIterator F) (row : Value F) (l : List (Value F)),
      it.buffer ≠ [] → Buffered storage b rows arrange it (row :: l) →
        ∃ it', it.pop = (some (.ok row), it') ∧ Buffered storage b rows arrange it' l := by
    rintro ⟨st, current, size, buffer⟩ row l hbuffer ⟨hstorage, hsize, hcons⟩
    obtain ⟨front, last, rfl⟩ : ∃ front last, buffer = front ++ [last] :=
      ⟨_, _, (List.dropLast_append_getLast hbuffer).symm⟩
    rw [List.reverse_append, List.reverse_singleton, List.append_assoc, List.singleton_append] at hcons
    obtain ⟨rfl, rfl⟩ := List.cons.inj hcons
    refine ⟨⟨st, current, size, front⟩, ?_, hstorage, hsize, rfl⟩
    simp only [RowIterator.pop, List.getLast?_concat, List.dropLast_concat, Option.map_some]
  refine ⟨?_, ?_⟩
  · rintro it ⟨hstorage, hsize, hnil⟩
    obtain ⟨hbuffer, hrest⟩ := List.append_eq_nil_iff.mp hnil.symm
    have hempty : it.buffer = [] := List.reverse_eq_nil_iff.mp hbuffer
    have hend : ¬ it.current < rows.length := by
      intro hlt
      obtain ⟨hne, htake⟩ := take_drop_ne_nil hb hlt
      rw [chunks_cons hb hne, List.map_cons, List.flatten_cons, List.append_eq_nil_iff,
        List.reverse_eq_nil_iff] at hrest
      exact harrange _ htake hrest.1
    refine ⟨{ it with buffer := it.buffer.dropLast }, ?_, hstorage, hsize, ?_⟩
    · rw [hpop it hstorage (fun h => hend h.2), RowIterator.pop, hempty]
      rfl
    · show [] = it.buffer.dropLast.reverse ++ _
      rw [hrest, hempty]
      rfl
  · rintro it row l hcons
    obtain ⟨hstorage, hsize, hl⟩ := hcons
    by_cases hempty : it.buffer = []
    · have hlt : it.current < rows.length := by
        by_contra hge
        rw [hempty, List.drop_eq_nil_iff.mpr (not_lt.mp hge), chunks_nil] at hl
        cases hl
      obtain ⟨hne, htake⟩ := take_drop_ne_nil hb hlt
      have hdrop : rows.drop (min (it.current + b) rows.length) = (rows.drop it.current).drop b := by
        rw [List.drop_drop, List.drop_eq_drop_iff]
        omega
      rw [hfetch it hstorage hsize hempty hlt]
      refine hpopped _ row l (harrange _ htake) ⟨hstorage, hsize, ?_⟩
      show row :: l = List.reverse _ ++ List.flatten (List.map _ (chunks b (rows.drop _)))
      rw [hl, hempty, hdrop, chunks_cons hb hne]
      rfl
    · rw [hpop it hstorage (fun h => hempty h.1)]
      exact hpopped it row l hempty ⟨hstorage, hsize, hl⟩

end Iterate

/-! ## The backends -/

variable {objects : List (Row F)}

section Backends

variable {fromSlice : Bytes → Except String (Value F)} {b : Nat}

theorem presents_inline {storage : RowStorage F} (hb : 0 < b)
    (hnext : ∀ it : RowIterator F, it.storage = storage → it.next fromSlice = it.nextInline rows)
    (htoVec : RowAccessor.toVec fromSlice storage = .ok rows) (hlen : storage.len = rows.length)
    (hget : ∀ i, RowAccessor.get fromSlice storage i = .ok rows[i]?) :
    Presents fromSlice storage b rows where
  rowIterator := (enumerates_inline hnext).yields ⟨rfl, rfl⟩
  batchIterator :=
    ⟨_, yields_batches (enumerates_inline hnext) hb ⟨rfl, rfl⟩, flatten_chunks hb rows⟩
  toVec := htoVec
  len := hlen
  get := hget

open RowIterator

theorem next_inMemory (it : RowIterator F)
    (h : it.storage = .InMemory rows) : it.next fromSlice = it.nextInline rows := by
  simp only [next, h]

theorem presents_inMemory (fromSlice : Bytes → Except String (Value F)) (hb : 0 < b)
    (rows : List (Value F)) : Presents fromSlice (.InMemory rows) b rows :=
  presents_inline hb next_inMemory rfl rfl (fun _ => rfl)

theorem presents_shared (fromSlice : Bytes → Except String (Value F)) (hb : 0 < b)
    (rows : List (Value F)) (version : Nat) : Presents fromSlice (.Shared rows version) b rows := by
  refine presents_inline hb ?_ rfl rfl (fun _ => rfl)
  intro it hstorage
  simp only [next, hstorage]

/-! ### RocksDB -/

/-- The rows are in the database under their keys, in a form that parses. -/
def Readable (fromSlice : Bytes → Except String (Value F)) (db : Db) (keyPrefix : String)
    (rows : List (Value F)) : Prop :=
  ∀ i row, rows[i]? = some row →
    ∃ bytes, db (rowKey keyPrefix i) = some bytes ∧ fromSlice bytes = .ok row

theorem fetchRows_readable {db : Db} {keyPrefix : String}
    (h : Readable fromSlice db keyPrefix rows) (n c : Nat) (hle : c + n ≤ rows.length)
    (buffer : List (Value F)) :
    fetchRows fromSlice db keyPrefix (List.range' c n) buffer =
      (.ok (), buffer ++ (rows.drop c).take n) := by
  induction n generalizing c buffer with
  | zero =>
    rw [List.take_zero, List.append_nil]
    rfl
  | succ n ih =>
    have hrow : rows[c]? = some rows[c] := List.getElem?_eq_getElem (by omega)
    obtain ⟨bytes, hbytes, hparse⟩ := h c _ hrow
    rw [List.range'_succ, fetchRows, hbytes]
    simp only [parseRow, hparse]
    show fetchRows fromSlice db keyPrefix _ _ = _
    rw [ih (c + 1) (by omega), List.append_assoc, List.singleton_append,
      List.drop_eq_getElem_cons (by omega : c < rows.length), List.take_succ_cons]

theorem enumerates_rocksDb (hb : 0 < b) {db : Db} {keyPrefix : String}
    (h : Readable fromSlice db keyPrefix rows) :
    Enumerates (RowIterator.next fromSlice)
      (Buffered (.RocksDB db keyPrefix rows.length) b rows id) := by
  refine enumerates_buffered hb (fun _ hl => hl) ?_ ?_
  · intro it hstorage hnot
    simp only [next, hstorage, List.isEmpty_iff]
    rw [if_neg hnot]
  · intro it hstorage hsize hempty hlt
    have hfetched := fetchRows_readable h (min (it.current + b) rows.length - it.current) it.current
      (by omega) it.buffer
    have htake : (rows.drop it.current).take (min (it.current + b) rows.length - it.current) =
        (rows.drop it.current).take b := by
      rw [List.take_eq_take_iff, List.length_drop]
      omega
    simp only [next, hstorage, List.isEmpty_iff]
    rw [if_pos ⟨hempty, hlt⟩]
    simp only [fetchNextBatch, hstorage, hsize, hfetched, htake]
    rw [hempty]
    rfl

theorem map_parseRow_eq_ok {bytes : Bytes} {o : Option (Value F)}
    (h : (parseRow fromSlice bytes).map some = .ok o) : ∃ row, fromSlice bytes = .ok row ∧ o = some row := by
  unfold parseRow at h
  cases hslice : fromSlice bytes with
  | error e =>
    rw [hslice] at h
    cases h
  | ok row =>
    rw [hslice] at h
    cases h
    exact ⟨row, rfl, rfl⟩

section Create

variable [Float64 F] {spill : Spill} {rows : List (Value F)}

def rocksStorage (spill : Spill) (rows : List (Value F)) : RowStorage F :=
  .RocksDB (createRocksStorage spill.db spill.executionId spill.stepId rows).db
    (spill.executionId ++ "/" ++ spill.stepId) rows.length

theorem createRocksStorage_readable (h : ∀ row ∈ rows, fromSlice row.toVec = .ok row) :
    Readable fromSlice (createRocksStorage spill.db spill.executionId spill.stepId rows).db
      (spill.executionId ++ "/" ++ spill.stepId) rows := by
  intro i row hi
  refine ⟨row.toVec, ?_, h row (List.mem_of_getElem? hi)⟩
  rw [createRocksStorage_get, if_pos (List.getElem?_eq_some_iff.mp hi).1, hi]
  rfl

theorem get_rocksStorage (i : Nat) :
    RowAccessor.get fromSlice (rocksStorage spill rows) i =
      match (if i < rows.length then (rows[i]?).map Value.toVec
        else spill.db (rowKey (spill.executionId ++ "/" ++ spill.stepId) i)) with
      | none => .ok none
      | some bytes => (parseRow fromSlice bytes).map some := by
  unfold RowAccessor.get rocksStorage
  dsimp only
  rw [createRocksStorage_get]

theorem faithful_of_presents_rocksDb (hb : 0 < b)
    (h : Presents fromSlice (rocksStorage spill rows) b rows) :
    Faithful fromSlice spill b rows .RocksDB := by
  have hparse : ∀ row ∈ rows, fromSlice row.toVec = .ok row := by
    intro row hrow
    obtain ⟨i, hi⟩ := List.mem_iff_getElem?.mp hrow
    have hread := h.get i
    rw [get_rocksStorage, if_pos (List.getElem?_eq_some_iff.mp hi).1, hi] at hread
    obtain ⟨row', hslice, hrow'⟩ := map_parseRow_eq_ok hread
    cases hrow'
    exact hslice
  refine ⟨hparse, ?_, ?_⟩
  · -- the iterator yields the batches turned around, and nothing else
    have hyields : Yields (next fromSlice) (.withBatchSize (rocksStorage spill rows) b)
        ((chunks b rows).map List.reverse).flatten :=
      (enumerates_rocksDb hb (createRocksStorage_readable hparse)).yields ⟨rfl, rfl, rfl⟩
    exact (flatten_map_reverse_chunks_eq_iff hb rows).mp (hyields.unique h.rowIterator)
  · intro i hi
    have hread := h.get i
    rw [get_rocksStorage, if_neg (not_lt.mpr hi), List.getElem?_eq_none hi] at hread
    cases hold : spill.db (rowKey (spill.executionId ++ "/" ++ spill.stepId) i) with
    | none => rfl
    | some bytes =>
      rw [hold] at hread
      obtain ⟨row, -, hrow⟩ := map_parseRow_eq_ok hread
      cases hrow

theorem presents_rocksDb_of_faithful (hb : 0 < b)
    (h : Faithful fromSlice spill b rows .RocksDB) :
    Presents fromSlice (rocksStorage spill rows) b rows := by
  obtain ⟨hparse, hmirror, hstale⟩ := h
  have hreadable : Readable fromSlice
      (createRocksStorage spill.db spill.executionId spill.stepId rows).db
      (spill.executionId ++ "/" ++ spill.stepId) rows := createRocksStorage_readable hparse
  have henum := enumerates_rocksDb hb hreadable
  have hrows : ((chunks b rows).map List.reverse).flatten = rows :=
    (flatten_map_reverse_chunks_eq_iff hb rows).mpr hmirror
  have hinit : Buffered (rocksStorage spill rows) b rows id
      (.withBatchSize (rocksStorage spill rows) b) rows :=
    ⟨rfl, rfl, hrows.symm⟩
  refine ⟨henum.yields hinit, ⟨_, yields_batches henum hb hinit, flatten_chunks hb rows⟩, ?_, rfl, ?_⟩
  · have hall := fetchRows_readable hreadable rows.length 0 (by omega) []
    unfold RowAccessor.toVec rocksStorage
    dsimp only
    rw [List.range_eq_range', hall, List.drop_zero, List.take_length]
    rfl
  · intro i
    rw [get_rocksStorage]
    by_cases hi : i < rows.length
    · have hrow : rows[i]? = some rows[i] := List.getElem?_eq_getElem hi
      have hslice := hparse _ (List.mem_of_getElem? hrow)
      rw [if_pos hi, hrow]
      simp only [Option.map_some, parseRow, hslice]
      rfl
    · rw [if_neg hi, hstale i (not_lt.mp hi), List.getElem?_eq_none (not_lt.mp hi)]

end Create

/-! ### Parquet -/

theorem enumerates_parquet (hb : 0 < b) {frame : BatchFrame F}
    (h : FrameOf objects frame) (hcolumns : objects ≠ [] → frame.columns ≠ []) :
    Enumerates (RowIterator.next fromSlice)
      (Buffered (.Parquet (fileOf frame) frame.schema objects.length (indexOf frame)) b
        (objects.map Value.ofRow) List.reverse) := by
  refine enumerates_buffered hb (fun _ hl => mt List.reverse_eq_nil_iff.mp hl) ?_ ?_
  · intro it hstorage hnot
    simp only [next, hstorage, List.isEmpty_iff]
    rw [List.length_map] at hnot
    rw [if_neg hnot]
  · intro it hstorage hsize hempty hlt
    rw [List.length_map] at hlt ⊢
    have hne : objects ≠ [] := List.ne_nil_of_length_pos (by omega)
    have hrange := readParquetRange_eq h (hcolumns hne)
      (show it.current < min (it.current + b) objects.length by omega) (Nat.min_le_right _ _)
    have htake : (objects.drop it.current).take (min (it.current + b) objects.length - it.current) =
        (objects.drop it.current).take b := by
      rw [List.take_eq_take_iff, List.length_drop]
      omega
    simp only [next, hstorage, List.isEmpty_iff]
    rw [if_pos ⟨hempty, hlt⟩]
    simp only [hsize, hrange, htake]
    rw [List.map_take, List.map_drop]

theorem presents_parquet (hb : 0 < b) {frame : BatchFrame F}
    (h : FrameOf objects frame) (hcolumns : objects ≠ [] → frame.columns ≠ []) :
    Presents fromSlice (.Parquet (fileOf frame) frame.schema objects.length (indexOf frame)) b
      (objects.map Value.ofRow) := by
  have henum : Enumerates (next fromSlice) _ := enumerates_parquet hb h hcolumns
  have hinit : Buffered (.Parquet (fileOf frame) frame.schema objects.length (indexOf frame)) b
      (objects.map Value.ofRow) List.reverse (.withBatchSize (.Parquet (fileOf frame) frame.schema
        objects.length (indexOf frame)) b) (objects.map Value.ofRow) := by
    refine ⟨rfl, rfl, ?_⟩
    show _ = [] ++ _
    simp only [List.reverse_reverse, List.map_id']
    exact (flatten_chunks hb _).symm
  refine ⟨henum.yields hinit, ⟨_, yields_batches henum hb hinit, flatten_chunks hb _⟩, ?_, ?_,
    readParquetRow_eq h hcolumns⟩
  · by_cases hne : objects = []
    · subst hne
      exact readParquetRows_nil h
    · exact readParquetRows_eq h (hcolumns hne) hne
  · rw [List.length_map]
    rfl

theorem FrameOf.columns_ne_nil_iff {frame : BatchFrame F}
    (h : FrameOf objects frame) {row : Row F} (hrow : row ∈ objects) :
    frame.columns ≠ [] ↔ Value.ofRow row ≠ .object [] := by
  constructor
  · intro hcolumns hempty
    have hentries : row.entries = [] := by
      injection hempty
    obtain ⟨i, hi⟩ := List.mem_iff_getElem?.mp hrow
    have hzip : frame.schema.zip frame.columns ≠ [] := by
      rw [Ne, List.zip_eq_nil_iff]
      rintro (hnil | hnil)
      · exact hcolumns (List.length_eq_zero_iff.mp (by rw [h.columns_length, hnil, List.length_nil]))
      · exact hcolumns hnil
    obtain ⟨p, hp⟩ := List.exists_mem_of_ne_nil _ hzip
    have hcell := h.cell i row hi p hp
    unfold BTreeMap.get at hcell
    rw [hentries] at hcell
    cases hcell
  · intro hrowne hcolumns
    have hschema : frame.schema = [] :=
      List.length_eq_zero_iff.mp (by rw [← h.columns_length, hcolumns, List.length_nil])
    have hentries : row.entries ≠ [] := by
      intro hnil
      exact hrowne (congrArg Value.object hnil)
    obtain ⟨⟨k, v⟩, hkv⟩ := List.exists_mem_of_ne_nil _ hentries
    have hfield := h.fields row hrow k v (BTreeMap.mem_entries_iff.mp hkv)
    rw [hschema] at hfield
    cases hfield

end Backends

/-! ## All backends -/

theorem createParquetStorage_eq [Float64 F] (h : Lossless objects) :
    createParquetStorage (objects.map Value.ofRow) =
      .ok (createParquetStorageFromBatchFrame (builtFrame objects)) := by
  unfold createParquetStorage
  rw [BatchFrame.fromJsonValues_eq h]
  rfl

/-- **When a backend presents the rows it was given**, for all homogeneous object rows and every
batch size: in memory always; in RocksDB exactly if every row survives its JSON text, every
batch reads the same in both directions and no older value is left under a later key; in
Parquet exactly if no row is the empty object. -/
theorem presents_iff [Float64 F] (fromSlice : Bytes → Except String (Value F)) (spill : Spill)
    {b : Nat} (hb : 0 < b) {rows : List (Value F)} (hrows : HomogeneousRows rows)
    (backend : Backend) :
    (∃ storage, storeRows spill rows backend = .ok storage ∧ Presents fromSlice storage b rows) ↔
      Faithful fromSlice spill b rows backend := by
  cases backend with
  | InMemory => exact iff_of_true ⟨_, rfl, presents_inMemory fromSlice hb rows⟩ trivial
  | Shared => exact iff_of_true ⟨_, rfl, presents_shared fromSlice hb rows 0⟩ trivial
  | RocksDB =>
    constructor
    · rintro ⟨storage, hstore, hpresents⟩
      cases hstore
      exact faithful_of_presents_rocksDb hb hpresents
    · exact fun h => ⟨_, rfl, presents_rocksDb_of_faithful hb h⟩
  | Parquet =>
    obtain ⟨objects, rfl, hlossless⟩ := hrows
    have hframe := frameOf_builtFrame hlossless
    have hstore : storeRows spill (objects.map Value.ofRow) .Parquet =
        .ok (.Parquet (fileOf (builtFrame objects)) (builtFrame objects).schema objects.length
          (indexOf (builtFrame objects))) := by
      unfold storeRows
      rw [createParquetStorage_eq hlossless]
      rfl
    rw [hstore]
    constructor
    · rintro ⟨storage, hsome, hpresents⟩ row hrow hempty
      cases hsome
      obtain ⟨object, hobject, rfl⟩ := List.mem_map.mp hrow
      -- a row without fields: the file has no column, and so no row
      have hcolumns : (builtFrame objects).columns = [] := by
        by_contra hne
        exact (hframe.columns_ne_nil_iff hobject).mp hne hempty
      have hread := hpresents.toVec
      unfold RowAccessor.toVec at hread
      dsimp only at hread
      rw [readParquetRows_no_columns hframe hcolumns] at hread
      injection hread with hnil
      rw [← hnil] at hrow
      cases hrow
    · intro h
      refine ⟨_, rfl, presents_parquet hb hframe ?_⟩
      intro hne
      obtain ⟨object, hobject⟩ := List.exists_mem_of_ne_nil _ hne
      exact (hframe.columns_ne_nil_iff hobject).mpr (h _ (List.mem_map_of_mem hobject))

/-! ## Concrete rows -/

def idRow (n : JsonInt) : Row Int := BTreeMap.empty.insert "id" (.number (.int n))

def idOne : Value Int := .ofRow (idRow ⟨1, by decide⟩)

def idTwo : Value Int := .ofRow (idRow ⟨2, by decide⟩)

/-- `from_slice` on the texts of the two rows. -/
def parseIds (bytes : Bytes) : Except String (Value Int) :=
  if bytes = idOne.toVec then .ok idOne
  else if bytes = idTwo.toVec then .ok idTwo
  else .error "expected value at line 1 column 1"

def freshSpill : Spill where
  db := fun _ => none
  executionId := "exec"
  stepId := "step"

theorem parseIds_toVec : ∀ row ∈ [idOne, idTwo], parseIds row.toVec = .ok row := by
  intro row hrow
  unfold parseIds
  rcases List.mem_pair.mp hrow with rfl | rfl
  · rw [if_pos rfl]
  · rw [if_neg (by decide +kernel), if_pos rfl]

theorem homogeneousRows_ids : HomogeneousRows [idOne, idTwo] := by
  refine ⟨[idRow ⟨1, by decide⟩, idRow ⟨2, by decide⟩], rfl, BTreeMap.empty.insert "id" .Int64, ?_⟩
  intro row hrow k
  rcases List.mem_pair.mp hrow with rfl | rfl
  all_goals
    rw [idRow, BTreeMap.get_insert, BTreeMap.get_insert]
    split_ifs
    · exact .some (by show (_ : Int) < _; decide)
    · exact .none

/-- Read one row at a time, RocksDB presents two different rows. -/
theorem presents_rocksDb_row_by_row :
    ∃ storage, storeRows freshSpill [idOne, idTwo] .RocksDB = .ok storage ∧
      Presents parseIds storage 1 [idOne, idTwo] := by
  refine (presents_iff parseIds freshSpill Nat.one_pos homogeneousRows_ids .RocksDB).mpr ?_
  refine ⟨parseIds_toVec, ?_, fun _ _ => rfl⟩
  intro batch hbatch
  rw [chunks_cons Nat.one_pos (by simp)] at hbatch
  simp only [List.take_succ_cons, List.take_zero, List.drop_succ_cons, List.drop_zero] at hbatch
  rw [chunks_cons Nat.one_pos (by simp)] at hbatch
  simp only [List.take_succ_cons, List.take_zero, List.drop_succ_cons, List.drop_zero, chunks_nil,
    List.mem_cons, List.not_mem_nil, or_false] at hbatch
  rcases hbatch with rfl | rfl <;> rfl

/-- In one batch, they come out backwards. -/
theorem rocksDb_reverses_batch :
    HomogeneousRows [idOne, idTwo] ∧
      Yields (RowIterator.next parseIds) (.withBatchSize (rocksStorage freshSpill [idOne, idTwo]) 2)
        [idTwo, idOne] ∧
      ¬ ∃ storage, storeRows freshSpill [idOne, idTwo] .RocksDB = .ok storage ∧
        Presents parseIds storage 2 [idOne, idTwo] := by
  have hinit : Buffered (rocksStorage freshSpill [idOne, idTwo]) 2 [idOne, idTwo] id
      (.withBatchSize (rocksStorage freshSpill [idOne, idTwo]) 2) [idTwo, idOne] := by
    refine ⟨rfl, rfl, ?_⟩
    show _ = [] ++ List.flatten (List.map _ (chunks 2 [idOne, idTwo]))
    rw [chunks_cons Nat.two_pos (by simp)]
    simp
  have hbackwards : Yields (RowIterator.next parseIds)
      (.withBatchSize (rocksStorage freshSpill [idOne, idTwo]) 2) [idTwo, idOne] :=
    (enumerates_rocksDb Nat.two_pos (createRocksStorage_readable parseIds_toVec)).yields hinit
  refine ⟨homogeneousRows_ids, hbackwards, ?_⟩
  rintro ⟨storage, hstore, hpresents⟩
  cases hstore
  have hsame := hpresents.rowIterator.unique hbackwards
  have htext : idOne.toVec = idTwo.toVec := congrArg Value.toVec (List.cons.inj hsame).1
  exact absurd htext (by decide +kernel)

end Arcxa.Workflow
