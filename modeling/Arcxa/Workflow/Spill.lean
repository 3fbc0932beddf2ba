import Arcxa.Lib.Iter
import Arcxa.Workflow.Frame

/-!
# Spilling rows to disk (`runtime/spill`)

Large datasets go to RocksDB, one key per row, or to a Parquet file, in row groups of a
fixed size with an index from the first row of each group to its number.

RocksDB is a map from keys to bytes that may hold anything before the rows are written;
parsing its values is a parameter. A Parquet file is its schema and its row groups.

The results of this module say where the rows are: `createRocksStorage_get` for the keys,
and for the file of a frame `readSelectedRowGroups_all`, `readParquetRange_eq` and
`readParquetRow_eq`.
-/

namespace Arcxa.Workflow

variable {F : Type}

/-! ## RocksDB -/

abbrev Db := String → Option Bytes

structure RocksDbStorage where
  db : Db
  keyPrefix : String
  rowCount : Nat

def rowKey (keyPrefix : String) (index : Nat) : String := keyPrefix ++ "/" ++ toString index

def writeRows [Float64 F] (keyPrefix : String) : Nat → List (Value F) → Db → Db
  | _, [], db => db
  | index, row :: rows, db =>
    writeRows keyPrefix (index + 1) rows
      (Function.update db (rowKey keyPrefix index) (some row.toVec))

def createRocksStorage [Float64 F] (db : Db) (executionId stepId : String)
    (rows : List (Value F)) : RocksDbStorage :=
  let keyPrefix := executionId ++ "/" ++ stepId
  { db := writeRows keyPrefix 0 rows db, keyPrefix, rowCount := rows.length }

theorem rowKey_injective {keyPrefix : String} {i j : Nat}
    (h : rowKey keyPrefix i = rowKey keyPrefix j) : i = j := by
  have hrepr : Nat.repr i = Nat.repr j := (String.append_right_inj _).mp h
  have hdigits : Nat.toDigits 10 i = Nat.toDigits 10 j := by
    rw [← Nat.toList_repr, ← Nat.toList_repr, hrepr]
  have hvalue := congrArg (fun digits => Nat.ofDigitChars 10 digits 0) hdigits
  rw [Nat.ofDigitChars_toDigits (by decide) (by decide),
    Nat.ofDigitChars_toDigits (by decide) (by decide)] at hvalue
  exact hvalue

theorem writeRows_get [Float64 F] (keyPrefix : String) (start : Nat) (rows : List (Value F))
    (db : Db) (i : Nat) :
    writeRows keyPrefix start rows db (rowKey keyPrefix i) =
      if start ≤ i ∧ i < start + rows.length then (rows[i - start]?).map Value.toVec
      else db (rowKey keyPrefix i) := by
  induction rows generalizing start db with
  | nil =>
    rw [if_neg (by simp)]
    rfl
  | cons row rows ih =>
    rw [writeRows, ih]
    rcases Nat.lt_trichotomy i start with hlt | rfl | hgt
    · have hne : rowKey keyPrefix i ≠ rowKey keyPrefix start :=
        fun heq => hlt.ne (rowKey_injective heq)
      rw [if_neg (by omega), if_neg (by omega), Function.update_of_ne hne]
    · rw [if_neg (by omega), if_pos (by simp), Function.update_self, Nat.sub_self]
      rfl
    · have hne : rowKey keyPrefix i ≠ rowKey keyPrefix start :=
        fun heq => hgt.ne' (rowKey_injective heq)
      rw [Function.update_of_ne hne, List.length_cons]
      by_cases hi : i < start + (rows.length + 1)
      · obtain ⟨j, rfl⟩ : ∃ j, i = start + 1 + j := ⟨i - (start + 1), by omega⟩
        rw [if_pos (by omega), if_pos (by omega), Nat.add_sub_cancel_left,
          show start + 1 + j - start = j + 1 by omega, List.getElem?_cons_succ]
      · rw [if_neg (by omega), if_neg (by omega)]

theorem createRocksStorage_get [Float64 F] (db : Db) (executionId stepId : String)
    (rows : List (Value F)) (i : Nat) :
    (createRocksStorage db executionId stepId rows).db
        (rowKey (executionId ++ "/" ++ stepId) i) =
      if i < rows.length then (rows[i]?).map Value.toVec
      else db (rowKey (executionId ++ "/" ++ stepId) i) := by
  have h := writeRows_get (executionId ++ "/" ++ stepId) 0 rows db i
  rw [Nat.zero_add, Nat.sub_zero] at h
  simp only [Nat.zero_le, true_and] at h
  exact h

/-! ## Parquet -/

def defaultParquetRowGroupSize : Nat := 65536

structure ParquetFile (F : Type) where
  schema : List Field
  rowGroups : List (List (Column F))

structure ParquetStorageDescriptor (F : Type) where
  file : ParquetFile F
  schema : List Field
  rowCount : Nat
  index : BTreeMap Nat Nat

/-- The loop of `build_row_group_chunks`. -/
def rowGroupChunksFrom (columns : List (Column F)) (rowCount rowGroupSize offset : Nat) :
    List (List (Column F)) :=
  if offset < rowCount ∧ 0 < rowGroupSize then
    let length := min rowGroupSize (rowCount - offset)
    columns.map (Column.sliced offset length) ::
      rowGroupChunksFrom columns rowCount rowGroupSize (offset + length)
  else []
termination_by rowCount - offset

def buildRowGroupChunks (columns : List (Column F)) (rowCount rowGroupSize : Nat) :
    List (List (Column F)) :=
  if rowCount = 0 then [columns.map (Column.sliced 0 0)]
  else rowGroupChunksFrom columns rowCount rowGroupSize 0

/-- The loop of `build_row_group_index`. -/
def rowGroupIndexFrom (rowCount rowGroupSize : Nat) (index : BTreeMap Nat Nat)
    (offset rowGroup : Nat) : BTreeMap Nat Nat :=
  if offset < rowCount ∧ 0 < rowGroupSize then
    rowGroupIndexFrom rowCount rowGroupSize (index.insert offset rowGroup)
      (offset + rowGroupSize) (rowGroup + 1)
  else index
termination_by rowCount - offset

def buildRowGroupIndex (rowCount rowGroupSize : Nat) : BTreeMap Nat Nat :=
  rowGroupIndexFrom rowCount rowGroupSize .empty 0 0

def createParquetStorageFromBatchFrame (batch : BatchFrame F) : ParquetStorageDescriptor F where
  file :=
    { schema := batch.schema
      rowGroups := buildRowGroupChunks batch.columns batch.rowCount defaultParquetRowGroupSize }
  schema := batch.schema
  rowCount := batch.rowCount
  index := buildRowGroupIndex batch.rowCount defaultParquetRowGroupSize

def createParquetStorage [Float64 F] (rows : List (Value F)) :
    Except WorkflowError (ParquetStorageDescriptor F) := do
  let batch ← BatchFrame.fromJsonValues rows
  return createParquetStorageFromBatchFrame batch

/-! ### Reading -/

/-- `Chunk::len`: the length of its first array. -/
def chunkLen (chunk : List (Column F)) : Nat := chunk.head?.elim 0 Column.len

def chunkToJsonRows (schema : List Field) (chunk : List (Column F)) :
    Except WorkflowError (List (Value F)) :=
  if schema.length ≠ chunk.length then
    .error (.InvalidData ("Parquet schema/column mismatch: schema has " ++
      toString schema.length ++ " fields, chunk has " ++ toString chunk.length ++ " arrays"))
  else (materialize schema chunk (chunkLen chunk)).map (fun rows => rows.map Value.ofRow)

def readSelectedRowGroups (file : ParquetFile F) (selectedGroups : Option (List Nat)) :
    Except WorkflowError (List (Value F)) := do
  let rowGroups := (file.rowGroups.zipIdx.filter (fun p =>
    selectedGroups.elim true (fun groups => groups.contains p.2))).map Prod.fst
  let rows ← rowGroups.mapM (chunkToJsonRows file.schema)
  return rows.flatten

def locateRowGroup (index : BTreeMap Nat Nat) (rowIndex : Nat) :
    Except WorkflowError (Nat × Nat) :=
  match index.floorEntry rowIndex with
  | some (startRow, ordinal) => .ok (ordinal, startRow)
  | none =>
    .error (.DataNotFound ("No Parquet row group found for row index " ++ toString rowIndex))

def readParquetRows (file : ParquetFile F) : Except WorkflowError (List (Value F)) :=
  readSelectedRowGroups file none

def readParquetRange (file : ParquetFile F) (index : BTreeMap Nat Nat) (start stop : Nat) :
    Except WorkflowError (List (Value F)) :=
  if start ≥ stop ∨ index.entries.isEmpty then .ok []
  else do
    let (startGroupOrdinal, startGroupRow) ← locateRowGroup index start
    let (endGroupOrdinal, _) ← locateRowGroup index (stop - 1)
    let selectedGroups := List.range' startGroupOrdinal (endGroupOrdinal + 1 - startGroupOrdinal)
    let rows ← readSelectedRowGroups file (some selectedGroups)
    return (rows.drop (start - startGroupRow)).take (stop - start)

def readParquetRow (file : ParquetFile F) (index : BTreeMap Nat Nat) (rowIndex : Nat) :
    Except WorkflowError (Option (Value F)) :=
  if index.entries.isEmpty then .ok none
  else do
    let (rowGroupOrdinal, rowGroupStart) ← locateRowGroup index rowIndex
    let rows ← readSelectedRowGroups file (some [rowGroupOrdinal])
    return rows[rowIndex - rowGroupStart]?

/-! ### The index -/

section Index

variable {rowCount rowGroupSize : Nat}

variable (hsize : 0 < rowGroupSize)

include hsize

theorem get_rowGroupIndexFrom (index : BTreeMap Nat Nat) (offset rowGroup k : Nat) :
    (rowGroupIndexFrom rowCount rowGroupSize index offset rowGroup).get k =
      if offset ≤ k ∧ k < rowCount ∧ rowGroupSize ∣ k - offset then
        some (rowGroup + (k - offset) / rowGroupSize)
      else index.get k := by
  induction index, offset, rowGroup using rowGroupIndexFrom.induct rowCount rowGroupSize with
  | case1 index offset rowGroup h ih =>
    rw [rowGroupIndexFrom, if_pos h, ih, BTreeMap.get_insert]
    rcases Nat.lt_trichotomy k offset with hlt | rfl | hgt
    · rw [if_neg (by omega), if_neg (by omega), if_neg (by omega)]
    · rw [if_neg (by omega), if_pos rfl, if_pos (by simpa using h.1), Nat.sub_self, Nat.zero_div,
        Nat.add_zero]
    · by_cases hnext : offset + rowGroupSize ≤ k
      · obtain ⟨d, rfl⟩ : ∃ d, k = offset + rowGroupSize + d := ⟨_, (Nat.add_sub_cancel' hnext).symm⟩
        rw [show offset + rowGroupSize + d - (offset + rowGroupSize) = d by omega,
          show offset + rowGroupSize + d - offset = d + rowGroupSize by omega,
          Nat.add_div_right _ hsize, if_neg (by omega : ¬ _ = offset)]
        have hdvd : rowGroupSize ∣ d + rowGroupSize ↔ rowGroupSize ∣ d := Nat.dvd_add_self_right
        split_ifs with h1 h2 h2
        · congr 1
          omega
        · exact absurd ⟨by omega, h1.2.1, hdvd.mpr h1.2.2⟩ h2
        · exact absurd ⟨by omega, h2.2.1, hdvd.mp h2.2.2⟩ h1
        · rfl
      · -- between two starts there is no group
        rw [if_neg (by omega), if_neg (by omega), if_neg]
        rintro ⟨-, -, hdvd⟩
        have := Nat.le_of_dvd (by omega) hdvd
        omega
  | case2 index offset rowGroup h =>
    rw [rowGroupIndexFrom, if_neg h, if_neg (by omega)]

theorem get_buildRowGroupIndex (k g : Nat) :
    (buildRowGroupIndex rowCount rowGroupSize).get k = some g ↔
      k = g * rowGroupSize ∧ k < rowCount := by
  rw [buildRowGroupIndex, get_rowGroupIndexFrom hsize, BTreeMap.get_empty, Nat.sub_zero,
    Nat.zero_add]
  constructor
  · intro h
    split_ifs at h with hcond
    cases h
    exact ⟨(Nat.div_mul_cancel hcond.2.2).symm, hcond.2.1⟩
  · rintro ⟨rfl, hlt⟩
    rw [if_pos ⟨Nat.zero_le _, hlt, Nat.dvd_mul_left _ _⟩, Nat.mul_div_cancel _ hsize]

theorem buildRowGroupIndex_isEmpty :
    (buildRowGroupIndex rowCount rowGroupSize).entries.isEmpty = decide (rowCount = 0) := by
  by_cases h : rowCount = 0
  · subst h
    rw [buildRowGroupIndex, rowGroupIndexFrom, if_neg (by omega)]
    rfl
  · have hget : (buildRowGroupIndex rowCount rowGroupSize).get 0 = some 0 :=
      (get_buildRowGroupIndex hsize 0 0).mpr ⟨by simp, by omega⟩
    have hmem := BTreeMap.mem_entries_iff.mpr hget
    rw [decide_eq_false h]
    exact List.isEmpty_eq_false_iff_exists_mem.mpr ⟨_, hmem⟩

theorem locateRowGroup_eq (hcount : 0 < rowCount) (rowIndex : Nat) :
    locateRowGroup (buildRowGroupIndex rowCount rowGroupSize) rowIndex =
      .ok (min rowIndex (rowCount - 1) / rowGroupSize,
        min rowIndex (rowCount - 1) / rowGroupSize * rowGroupSize) := by
  generalize hj : min rowIndex (rowCount - 1) = j
  have hstart : j / rowGroupSize * rowGroupSize ≤ j := Nat.div_mul_le_self _ _
  have hfloor : (buildRowGroupIndex rowCount rowGroupSize).floorEntry rowIndex =
      some (j / rowGroupSize * rowGroupSize, j / rowGroupSize) := by
    refine BTreeMap.floorEntry_eq_some ((get_buildRowGroupIndex hsize _ _).mpr ⟨rfl, by omega⟩)
      (by omega) ?_
    intro k g hk hle
    obtain ⟨rfl, hlt⟩ := (get_buildRowGroupIndex hsize _ _).mp hk
    have hdiv : g ≤ j / rowGroupSize := (Nat.le_div_iff_mul_le hsize).mpr (by omega)
    exact Nat.mul_le_mul_right _ hdiv
  rw [locateRowGroup, hfloor]

end Index

/-! ### The file of a frame -/

theorem filter_zipIdx_interval {α : Type} (l : List α) (k g e : Nat) :
    ((l.zipIdx k).filter (fun p => g ≤ p.2 ∧ p.2 < e)).map Prod.fst =
      (l.take (e - k)).drop (g - k) := by
  induction l generalizing k with
  | nil => simp
  | cons a l ih =>
    rw [List.zipIdx_cons, List.filter_cons]
    by_cases hlt : k < e
    · rw [show e - k = (e - (k + 1)) + 1 by omega, List.take_succ_cons]
      by_cases hle : g ≤ k
      · rw [if_pos (by simpa using ⟨hle, hlt⟩), List.map_cons, ih,
          show g - (k + 1) = 0 by omega, show g - k = 0 by omega]
        rfl
      · rw [if_neg (by simpa using fun h => absurd h hle), ih,
          show g - k = (g - (k + 1)) + 1 by omega, List.drop_succ_cons]
    · rw [if_neg (by simpa using fun _ => not_lt.mp hlt), ih, show e - (k + 1) = 0 by omega,
        show e - k = 0 by omega]
      simp

theorem mapM_cons_eq_ok {α β ε : Type} {f : α → Except ε β} {a : α} {l : List α} {bs : List β}
    (h : (a :: l).mapM f = .ok bs) :
    ∃ b bs', f a = .ok b ∧ l.mapM f = .ok bs' ∧ bs = b :: bs' := by
  rw [List.mapM_cons] at h
  cases ha : f a with
  | error e =>
    rw [ha] at h
    cases h
  | ok b =>
    rw [ha] at h
    cases hl : l.mapM f with
    | error e =>
      rw [hl] at h
      cases h
    | ok bs' =>
      rw [hl] at h
      cases h
      exact ⟨b, bs', rfl, rfl, rfl⟩

theorem mapM_take {α β ε : Type} {f : α → Except ε β} {l : List α} {bs : List β}
    (h : l.mapM f = .ok bs) (n : Nat) : (l.take n).mapM f = .ok (bs.take n) := by
  induction l generalizing bs n with
  | nil =>
    cases h
    cases n <;> rfl
  | cons a l ih =>
    obtain ⟨b, bs', ha, hl, rfl⟩ := mapM_cons_eq_ok h
    cases n with
    | zero => rfl
    | succ n =>
      rw [List.take_succ_cons, List.take_succ_cons, List.mapM_cons, ha, ih hl]
      rfl

theorem mapM_drop {α β ε : Type} {f : α → Except ε β} {l : List α} {bs : List β}
    (h : l.mapM f = .ok bs) (n : Nat) : (l.drop n).mapM f = .ok (bs.drop n) := by
  induction l generalizing bs n with
  | nil =>
    cases h
    cases n <;> rfl
  | cons a l ih =>
    obtain ⟨b, bs', ha, hl, rfl⟩ := mapM_cons_eq_ok h
    cases n with
    | zero => exact h
    | succ n => exact ih hl n

section File

variable {rows : List (Row F)} {frame : BatchFrame F}

variable (h : FrameOf rows frame) (hcolumns : frame.columns ≠ [])

include h hcolumns

theorem chunkToJsonRows_sliced {offset length : Nat} (hle : offset + length ≤ rows.length) :
    chunkToJsonRows frame.schema (frame.columns.map (Column.sliced offset length)) =
      .ok (((rows.drop offset).take length).map Value.ofRow) := by
  have hlen : chunkLen (frame.columns.map (Column.sliced offset length)) = length := by
    obtain ⟨column, rest, hcons⟩ := List.exists_cons_of_ne_nil hcolumns
    have hcolumn : column.len = rows.length := h.len column (hcons ▸ List.mem_cons_self)
    rw [hcons]
    show (column.sliced offset length).len = length
    rw [← Column.length_values, Column.values_sliced, List.length_take, List.length_drop,
      Column.length_values, hcolumn]
    omega
  unfold chunkToJsonRows
  rw [if_neg (by rw [List.length_map, h.columns_length]; simp), hlen, h.materialize_sliced hle]
  rfl

theorem mapM_rowGroupChunksFrom {rowGroupSize : Nat} (hsize : 0 < rowGroupSize) (offset : Nat) :
    (rowGroupChunksFrom frame.columns rows.length rowGroupSize offset).mapM
        (chunkToJsonRows frame.schema) =
      .ok ((chunks rowGroupSize (rows.drop offset)).map (fun rows => rows.map Value.ofRow)) := by
  induction offset using rowGroupChunksFrom.induct rows.length rowGroupSize with
  | case1 offset hcond length ih =>
    rw [rowGroupChunksFrom, if_pos hcond]
    have hne : rows.drop offset ≠ [] := by
      rw [Ne, List.drop_eq_nil_iff]
      omega
    have htake : (rows.drop offset).take length = (rows.drop offset).take rowGroupSize := by
      rw [List.take_eq_take_iff, List.length_drop]
      omega
    have hdrop : (rows.drop offset).drop rowGroupSize = rows.drop (offset + length) := by
      rw [List.drop_drop, List.drop_eq_drop_iff]
      omega
    show List.mapM _ (frame.columns.map (Column.sliced offset length) :: _) = _
    rw [List.mapM_cons, chunkToJsonRows_sliced h hcolumns (by omega), ih, chunks_cons hsize hne, htake,
      hdrop]
    rfl
  | case2 offset hcond =>
    rw [rowGroupChunksFrom, if_neg hcond]
    have hnil : rows.drop offset = [] := by
      rw [List.drop_eq_nil_iff]
      omega
    rw [hnil, chunks_nil]
    rfl

variable (frame) in
def fileOf : ParquetFile F := (createParquetStorageFromBatchFrame frame).file

theorem mapM_rowGroups (hrows : rows ≠ []) :
    (fileOf frame).rowGroups.mapM (chunkToJsonRows (fileOf frame).schema) =
      .ok ((chunks defaultParquetRowGroupSize rows).map (fun rows => rows.map Value.ofRow)) := by
  have hcount : frame.rowCount ≠ 0 := by
    rw [h.rowCount]
    exact fun h0 => hrows (List.length_eq_zero_iff.mp h0)
  show (buildRowGroupChunks frame.columns frame.rowCount _).mapM (chunkToJsonRows frame.schema) = _
  rw [buildRowGroupChunks, if_neg hcount, h.rowCount,
    mapM_rowGroupChunksFrom h hcolumns (by decide), List.drop_zero]

theorem readSelectedRowGroups_eq (hrows : rows ≠ []) {groups : List Nat} {g e : Nat}
    (hgroups : ∀ i, groups.contains i = decide (g ≤ i ∧ i < e)) :
    readSelectedRowGroups (fileOf frame) (some groups) =
      .ok (((rows.drop (g * defaultParquetRowGroupSize)).take
        ((e - g) * defaultParquetRowGroupSize)).map Value.ofRow) := by
  have hsize : 0 < defaultParquetRowGroupSize := by decide
  unfold readSelectedRowGroups
  simp only [Option.elim_some, hgroups]
  rw [filter_zipIdx_interval, Nat.sub_zero, Nat.sub_zero,
    mapM_drop (mapM_take (mapM_rowGroups h hcolumns hrows) e) g]
  show Except.ok (List.flatten _) = _
  rw [← List.map_take, ← List.map_drop, ← List.map_flatten, List.drop_take, drop_chunks hsize,
    flatten_take_chunks hsize]

omit h hcolumns

theorem readParquetRows_of_mapM {file : ParquetFile F} {groups : List (List (Value F))}
    (h : file.rowGroups.mapM (chunkToJsonRows file.schema) = .ok groups) :
    readParquetRows file = .ok groups.flatten := by
  have hall : file.rowGroups.zipIdx.filter (fun _ => true) = file.rowGroups.zipIdx :=
    List.filter_eq_self.mpr (fun _ _ => rfl)
  unfold readParquetRows readSelectedRowGroups
  simp only [Option.elim_none]
  rw [hall, List.zipIdx_map_fst, h]
  rfl

include h

theorem readParquetRows_eq (hcolumns : frame.columns ≠ []) (hrows : rows ≠ []) :
    readParquetRows (fileOf frame) = .ok (rows.map Value.ofRow) := by
  rw [readParquetRows_of_mapM (mapM_rowGroups h hcolumns hrows), ← List.map_flatten,
    flatten_chunks (by decide)]

variable (frame) in
def indexOf : BTreeMap Nat Nat := (createParquetStorageFromBatchFrame frame).index

theorem locateRowGroup_indexOf (hrows : rows ≠ []) (i : Nat) :
    locateRowGroup (indexOf frame) i =
      .ok (min i (rows.length - 1) / defaultParquetRowGroupSize,
        min i (rows.length - 1) / defaultParquetRowGroupSize * defaultParquetRowGroupSize) := by
  have hpos : 0 < rows.length := List.length_pos_of_ne_nil hrows
  show locateRowGroup (buildRowGroupIndex frame.rowCount _) i = _
  rw [h.rowCount, locateRowGroup_eq (by decide) hpos]

theorem indexOf_isEmpty : (indexOf frame).entries.isEmpty = decide (rows = []) := by
  show (buildRowGroupIndex frame.rowCount _).entries.isEmpty = _
  rw [buildRowGroupIndex_isEmpty (by decide), h.rowCount]
  simp

theorem readParquetRange_eq (hcolumns : frame.columns ≠ []) {start stop : Nat} (hlt : start < stop)
    (hle : stop ≤ rows.length) :
    readParquetRange (fileOf frame) (indexOf frame) start stop =
      .ok (((rows.drop start).take (stop - start)).map Value.ofRow) := by
  have hrows : rows ≠ [] := by
    rintro rfl
    simp at hle
    omega
  generalize hS : defaultParquetRowGroupSize = S
  have hsize : 0 < S := by
    rw [← hS]
    decide
  have hg : start / S * S ≤ start := Nat.div_mul_le_self _ _
  have he : stop ≤ ((stop - 1) / S + 1) * S := by
    have := Nat.lt_mul_div_succ (stop - 1) hsize
    rw [Nat.mul_comm] at this
    omega
  have hdiv : start / S ≤ (stop - 1) / S := Nat.div_le_div_right (by omega)
  have hgroups : ∀ i, (List.range' (start / S) ((stop - 1) / S + 1 - start / S)).contains i =
      decide (start / S ≤ i ∧ i < (stop - 1) / S + 1) := by
    intro i
    rw [Bool.eq_iff_iff, List.contains_iff_mem, List.mem_range'_1, decide_eq_true_eq]
    omega
  unfold readParquetRange
  rw [if_neg (by rw [indexOf_isEmpty h]; simp [hrows]; omega), locateRowGroup_indexOf h hrows,
    locateRowGroup_indexOf h hrows, hS, Nat.min_eq_left (by omega), Nat.min_eq_left (by omega)]
  show (do let rows ← readSelectedRowGroups _ _; _) = _
  rw [readSelectedRowGroups_eq h hcolumns hrows hgroups, hS]
  show Except.ok _ = _
  rw [← List.map_drop, ← List.map_take, List.drop_take, List.drop_drop, List.take_take,
    Nat.sub_mul, show start / S * S + (start - start / S * S) = start by omega,
    Nat.min_eq_left (by omega)]

theorem readParquetRow_eq (hcolumns : rows ≠ [] → frame.columns ≠ []) (i : Nat) :
    readParquetRow (fileOf frame) (indexOf frame) i = .ok ((rows.map Value.ofRow)[i]?) := by
  unfold readParquetRow
  rw [indexOf_isEmpty h]
  by_cases hrows : rows = []
  · subst hrows
    rfl
  rw [if_neg (by simpa using hrows), locateRowGroup_indexOf h hrows]
  have hpos : 0 < rows.length := List.length_pos_of_ne_nil hrows
  generalize hS : defaultParquetRowGroupSize = S
  have hsize : 0 < S := by
    rw [← hS]
    decide
  generalize hj : min i (rows.length - 1) = j
  have hstart : j / S * S ≤ j := Nat.div_mul_le_self _ _
  have hnext : j < j / S * S + S := by
    have := Nat.lt_mul_div_succ j hsize
    rw [Nat.mul_comm, Nat.succ_mul] at this
    exact this
  have hgroups : ∀ k, [j / S].contains k = decide (j / S ≤ k ∧ k < j / S + 1) := by
    intro k
    rw [Bool.eq_iff_iff, List.contains_iff_mem, List.mem_singleton, decide_eq_true_eq]
    omega
  show (do let rows ← readSelectedRowGroups _ (some [j / S]); _) = _
  rw [readSelectedRowGroups_eq h (hcolumns hrows) hrows hgroups, hS]
  show Except.ok _ = _
  rw [show j / S + 1 - j / S = 1 by omega, Nat.one_mul, List.map_take, List.map_drop,
    List.getElem?_take, List.getElem?_drop]
  by_cases hi : i < rows.length
  · rw [if_pos (by omega), show j / S * S + (i - j / S * S) = i by omega]
  · -- behind the last row of the last group
    have hnone : (rows.map Value.ofRow)[i]? = none :=
      List.getElem?_eq_none (by rw [List.length_map]; omega)
    rw [hnone]
    split_ifs
    · rw [List.getElem?_eq_none (by rw [List.length_map]; omega)]
    · rfl

omit h

theorem readParquetRows_nil (h : FrameOf ([] : List (Row F)) frame) :
    readParquetRows (fileOf frame) = .ok [] := by
  have hgroup : chunkToJsonRows frame.schema (frame.columns.map (Column.sliced 0 0)) = .ok [] := by
    by_cases hcolumns : frame.columns = []
    · have hschema : frame.schema = [] :=
        List.length_eq_zero_iff.mp (by rw [← h.columns_length, hcolumns, List.length_nil])
      rw [hschema, hcolumns]
      rfl
    · exact chunkToJsonRows_sliced h hcolumns (le_refl _)
  show _ = Except.ok ([[]] : List (List (Value F))).flatten
  refine readParquetRows_of_mapM ?_
  show (buildRowGroupChunks frame.columns frame.rowCount _).mapM (chunkToJsonRows frame.schema) = _
  rw [h.rowCount, List.length_nil, buildRowGroupChunks, if_pos rfl, List.mapM_cons, hgroup]
  rfl

theorem readParquetRows_no_columns (h : FrameOf rows frame) (hcolumns : frame.columns = []) :
    readParquetRows (fileOf frame) = .ok [] := by
  have hschema : frame.schema = [] :=
    List.length_eq_zero_iff.mp (by rw [← h.columns_length, hcolumns, List.length_nil])
  have hgroups : ∀ rowCount offset, ∀ chunk ∈ rowGroupChunksFrom ([] : List (Column F)) rowCount
      defaultParquetRowGroupSize offset, chunk = [] := by
    intro rowCount offset
    induction offset using rowGroupChunksFrom.induct rowCount defaultParquetRowGroupSize with
    | case1 offset hcond length ih =>
      rw [rowGroupChunksFrom, if_pos hcond]
      intro chunk hchunk
      rcases List.mem_cons.mp hchunk with rfl | hrest
      · rfl
      · exact ih chunk hrest
    | case2 offset hcond =>
      rw [rowGroupChunksFrom, if_neg hcond]
      exact fun chunk hchunk => nomatch hchunk
  have hempty : ∀ chunk ∈ (fileOf frame).rowGroups, chunk = [] := by
    show ∀ chunk ∈ buildRowGroupChunks frame.columns frame.rowCount _, chunk = []
    rw [hcolumns]
    unfold buildRowGroupChunks
    split_ifs
    · simp
    · exact hgroups frame.rowCount 0
  obtain ⟨groups, hok, hvalues⟩ := mapM_eq_ok (f := chunkToJsonRows frame.schema) (g := id)
    (v := fun _ => []) (l := (fileOf frame).rowGroups) (by
      intro chunk hchunk
      rw [hempty chunk hchunk, hschema]
      exact ⟨[], rfl, rfl⟩)
  rw [readParquetRows_of_mapM hok]
  rw [List.map_id] at hvalues
  rw [hvalues]
  simp

end File

end Arcxa.Workflow
