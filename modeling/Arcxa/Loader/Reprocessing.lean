import Arcxa.Loader.DeadLetterFiles

/-!
# Reprocessing dead letters

The reader of `dlq_reader` has its own record type and looks only at files that are directly in the
job's directory. `reprocessable_iff`: of what the queue writes in its default configuration it reads
nothing. `flat_unread`: without directories by date and category it reads nothing either, because a
written row has no field `data`.
-/

namespace Arcxa.Loader.Reprocessing

open Traceability (Serde)
open Workflow (Value)

variable {F T : Type} [Timestamp T] [LinearOrder T]

structure DlqRecord (F T : Type) where
  rowNumber : UInt64
  data : Value F
  errorCategory : String
  errorMessage : String
  timestamp : T
  retryCount : UInt64

namespace DlqRecord

def names : List String :=
  ["row_number", "data", "error_category", "error_message", "timestamp", "retry_count"]

omit [LinearOrder T] in
def read (get : String → Option (Value F)) : Option (DlqRecord F T) := do
  let rowNumber ← (get "row_number").bind Serde.u64.fromValue
  let data ← get "data"
  let errorCategory ← (get "error_category").bind Serde.string.fromValue
  let errorMessage ← (get "error_message").bind Serde.string.fromValue
  let timestamp ← (get "timestamp").bind Serde.dateTime.fromValue
  let retryCount ← (get "retry_count").bind Serde.u64.fromValue
  return { rowNumber, data, errorCategory, errorMessage, timestamp, retryCount }

omit [LinearOrder T] in
/-- `serde_json::from_str`: an object, whose other fields are passed over, or the fields in order. -/
def fromValue : Value F → Option (DlqRecord F T)
  | .object fields => read fun name => BTreeMap.lookupList name fields
  | .array items =>
    if items.length = names.length then
      read fun name => BTreeMap.lookupList name (names.zip items)
    else none
  | _ => none

end DlqRecord

structure DlqReprocessFilter (T : Type) where
  errorCategory : Option String
  maxRetryCount : Option UInt64
  startTime : Option T
  endTime : Option T

/-- The reader, with the order in which a directory lists its files, and what the csv library makes of
a record below a header. -/
structure DlqReader (F T : Type) where
  readDir : List (String × DlqFile F) → List (String × DlqFile F)
  perm_readDir : ∀ files, (readDir files).Perm files
  deserialize : List String → List String → Option (DlqRecord F T)

def topLevel : Path × DlqFile F → Option (String × DlqFile F)
  | ([name], file) => some (name, file)
  | _ => none

/-- `retain` with an optional bound. -/
def retain {A B : Type} (bound : Option B) (p : B → A → Bool) (records : List A) : List A :=
  bound.elim records fun b => records.filter (p b)

namespace DlqReader

variable (reader : DlqReader F T)

/-- `read_jsonl_file`, `read_json_file` and `read_csv_file`, by the extension of the name; lines that are
no records are passed over. -/
def readFile : String × DlqFile F → Option (List (DlqRecord F T))
  | (name, file) =>
    match extension name, file with
    | some "jsonl", .lines values => some (values.filterMap DlqRecord.fromValue)
    | some "json", .lines [.array items] => items.mapM DlqRecord.fromValue
    | some "json", _ => none
    | some "csv", .csv (header :: records) => some (records.filterMap (reader.deserialize header))
    | _, _ => some []

def readAllRecords (disk : Disk F) : Option (List (DlqRecord F T)) := do
  let files := reader.readDir (disk.entries.filterMap topLevel)
  let records ← files.mapM reader.readFile
  return records.flatten.mergeSort fun a b => a.timestamp ≤ b.timestamp

def readRows (disk : Disk F) (offset limit : Nat) (errorCategory : Option String)
    (startTime endTime : Option T) : Option (List (DlqRecord F T)) := do
  let records ← reader.readAllRecords disk
  let records := retain errorCategory (fun category r => r.errorCategory == category) records
  let records := retain startTime (fun start r => start ≤ r.timestamp) records
  let records := retain endTime (fun stop r => r.timestamp ≤ stop) records
  return (records.drop offset).take limit

def readAllRows (disk : Disk F) (filter : Option (DlqReprocessFilter T)) :
    Option (List (DlqRecord F T)) := do
  let records ← reader.readAllRecords disk
  match filter with
  | none => return records
  | some filter =>
    let records := retain filter.errorCategory (fun category r => r.errorCategory == category) records
    let records := retain filter.maxRetryCount (fun retries r => r.retryCount ≤ retries) records
    let records := retain filter.startTime (fun start r => start ≤ r.timestamp) records
    return retain filter.endTime (fun stop r => r.timestamp ≤ stop) records

def countRows (disk : Disk F) : Option Nat := (reader.readAllRecords disk).map List.length

end DlqReader

def Reports (record : DlqRecord F T) (failure : Failure T) : Prop :=
  record.rowNumber = failure.rowNumber ∧ record.data = .array (failure.rowData.map .string) ∧
    record.errorCategory = failure.errorCategory.display ∧
    record.errorMessage = failure.errorMessage ∧ record.retryCount = failure.retryCount ∧
    record.timestamp = failure.now

def Reprocessable (reader : DlqReader F T) (disk : Disk F) (failures : List (Failure T)) : Prop :=
  ∃ records, reader.readAllRows disk none = some records ∧
    (∃ reported, reported.Perm failures ∧ List.Forall₂ Reports records reported) ∧
    reader.countRows disk = some failures.length ∧
    ∀ offset limit, reader.readRows disk offset limit none none none =
      some ((records.drop offset).take limit)

/-! ## Nothing is read -/

variable {reader : DlqReader F T} {disk : Disk F}

theorem readAllRecords_of_empty
    (h : ∀ file ∈ disk.entries.filterMap topLevel, reader.readFile file = some []) :
    reader.readAllRecords disk = some [] := by
  have hall : ∀ files : List (String × DlqFile F), (∀ file ∈ files, reader.readFile file = some []) →
      (files.mapM reader.readFile).map List.flatten = some [] := by
    intro files hfiles
    induction files with
    | nil => rfl
    | cons file files ih =>
      obtain ⟨hfile, hrest⟩ := List.forall_mem_cons.mp hfiles
      obtain ⟨records, hrecords, hflatten⟩ := Option.map_eq_some_iff.mp (ih hrest)
      rw [List.mapM_cons, hfile, hrecords]
      exact congrArg some hflatten
  obtain ⟨records, hrecords, hflatten⟩ := Option.map_eq_some_iff.mp
    (hall _ fun file hfile => h file ((reader.perm_readDir _).mem_iff.mp hfile))
  rw [DlqReader.readAllRecords, hrecords]
  show some (records.flatten.mergeSort _) = _
  rw [hflatten, List.mergeSort_nil]

theorem reprocessable_iff_of_empty (failures : List (Failure T))
    (h : reader.readAllRecords disk = some []) :
    Reprocessable reader disk failures ↔ failures = [] := by
  constructor
  · rintro ⟨records, -, -, hcount, -⟩
    rw [DlqReader.countRows, h] at hcount
    exact List.length_eq_zero_iff.mp (Option.some.inj hcount).symm
  · rintro rfl
    refine ⟨[], ?_, ⟨[], List.Perm.refl _, List.Forall₂.nil⟩, ?_, fun offset limit => ?_⟩
    · rw [DlqReader.readAllRows, h]
      rfl
    · rw [DlqReader.countRows, h]
      rfl
    · rw [DlqReader.readRows, h]
      rfl

omit [LinearOrder T] in
theorem fromValue_failedRow (row : FailedRow T) :
    (DlqRecord.fromValue (FailedRow.serde.toValue row) : Option (DlqRecord F T)) = none := by
  have hdata : BTreeMap.lookupList "data" ((FailedRow.record (F := F)).object row).entries = none := by
    cases hget : BTreeMap.lookupList "data" ((FailedRow.record (F := F)).object row).entries with
    | none => rfl
    | some value =>
      have hentry := BTreeMap.mem_of_get_ofList hget
      have hname := (Traceability.Record.keys_entries_sublist _ _).mem
        (List.mem_map_of_mem (f := (·.1)) hentry)
      exact absurd hname (of_decide_eq_true rfl)
  show (DlqRecord.read (fun name => BTreeMap.lookupList name
    ((FailedRow.record (F := F)).object row).entries) : Option (DlqRecord F T)) = none
  rw [DlqRecord.read, hdata]
  cases (BTreeMap.lookupList "row_number" _).bind Serde.u64.fromValue <;> rfl

omit [LinearOrder T] in
theorem topLevel_default (jobId : String) (failures : List (Failure T)) :
    ((DeadLetterQueue.writeAll jobId .default (.empty : Disk F) failures).1.entries.filterMap
      topLevel) = [] := by
  rw [List.filterMap_eq_nil_iff]
  rintro ⟨path, file⟩ hentry
  have hmax : 0 < DlqConfig.default.maxRowsPerFile := by decide
  have hget := (writeAll_spec jobId hmax (.empty : Disk F) failures).2 path
  rw [BTreeMap.mem_entries_iff.mp hentry] at hget
  split_ifs at hget with hpath
  · obtain ⟨written, hwritten, rfl⟩ := List.mem_map.mp hpath
    obtain ⟨-, -, index, first, -, hname⟩ := mem_filesFrom hmax hwritten
    rw [hname]
    rfl
  · exact nomatch hget

/-- In the default configuration the reader finds exactly nothing: every row can be reprocessed if and
only if there is none. -/
theorem reprocessable_iff (reader : DlqReader F T) (jobId : String) (failures : List (Failure T)) :
    Reprocessable reader (DeadLetterQueue.writeAll jobId .default .empty failures).1 failures ↔
      failures = [] := by
  refine reprocessable_iff_of_empty failures (readAllRecords_of_empty fun file hfile => ?_)
  rw [topLevel_default] at hfile
  exact nomatch hfile

theorem flat_unread (reader : DlqReader F T) (jobId : String) {config : DlqConfig}
    (hformat : config.format = .jsonLines) (hmax : 0 < config.maxRowsPerFile)
    (failures : List (Failure T)) :
    reader.readAllRecords (DeadLetterQueue.writeAll jobId config .empty failures).1 = some [] := by
  refine readAllRecords_of_empty fun entry hentry => ?_
  obtain ⟨⟨path, file⟩, hfile, htop⟩ := List.mem_filterMap.mp hentry
  have hget := (writeAll_spec jobId hmax (.empty : Disk F) failures).2 path
  rw [BTreeMap.mem_entries_iff.mp hfile] at hget
  split_ifs at hget with hpath
  · obtain ⟨written, hwritten, hname⟩ := List.mem_map.mp hpath
    obtain ⟨-, -, index, first, -, hpath⟩ := mem_filesFrom hmax hwritten
    rw [hname] at hpath
    have hlast : path.getLast? = some (DeadLetterQueue.filename jobId config index) :=
      hpath ▸ getLast?_pathOf index first
    unfold topLevel at htop
    split at htop
    next name file' heq =>
      cases heq
      cases htop
      have hname : name = DeadLetterQueue.filename jobId config index := Option.some.inj hlast
      have hextension : extension name = some "jsonl" := by
        rw [hname, extension_filename, hformat]
        rfl
      rw [Option.some.inj hget, fileOf, hformat, DlqFile.new, appendRows_lines, List.nil_append,
        DlqReader.readFile]
      · refine congrArg some (List.filterMap_eq_nil_iff.mpr (List.forall_mem_map.mpr fun _ _ => ?_))
        exact fromValue_failedRow _
      · exact hextension
    next => exact absurd htop.symm (Option.some_ne_none _)
  · rw [BTreeMap.get_empty] at hget
    exact absurd hget (Option.some_ne_none _)

instance : LinearOrder Noon := LinearOrder.lift' (fun _ => ()) fun _ _ _ => rfl

def byName : DlqReader Unit Noon := ⟨id, fun _ => .refl _, fun _ _ => none⟩

/-- One row that timed out is written and not found. -/
theorem timeout_not_reprocessable :
    ¬ ∀ (reader : DlqReader Unit Noon) (jobId : String) (failures : List (Failure Noon)),
      Reprocessable reader (DeadLetterQueue.writeAll jobId .default .empty failures).1 failures := by
  intro h
  have hread : byName.readAllRecords
      (DeadLetterQueue.writeAll "job" .default .empty [timeout 1]).1 = some [] :=
    flat_unread byName "job" rfl (by decide) [timeout 1]
  exact absurd ((reprocessable_iff_of_empty _ hread).mp (h byName "job" [timeout 1]))
    (List.cons_ne_nil _ _)

end Arcxa.Loader.Reprocessing
