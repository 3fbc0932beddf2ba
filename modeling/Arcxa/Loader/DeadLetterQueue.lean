import Arcxa.Traceability.EvidencePacket

/-!
# The dead letter queue

`DeadLetterQueue` writes the rows that a load could not process, to files that it names by a counter
and leaves after a number of rows; `DlqReader` reads one file back. The csv and JSON libraries read
back what they write: a file is the list of its records, or of the JSON values on its lines.
-/

namespace Arcxa.Loader

open Traceability (Serde Record Field HashMap Rfc3339)
open Workflow (Value)

inductive ErrorCategory where
  | DatabaseConnection
  | DatabaseConstraint
  | DataFormat
  | Transformation
  | IOError
  | Timeout
  | ResourceExhaustion
  | Unknown
  deriving DecidableEq

def ErrorCategory.display : ErrorCategory → String
  | .DatabaseConnection => "DatabaseConnection"
  | .DatabaseConstraint => "DatabaseConstraint"
  | .DataFormat => "DataFormat"
  | .Transformation => "Transformation"
  | .IOError => "IO"
  | .Timeout => "Timeout"
  | .ResourceExhaustion => "ResourceExhaustion"
  | .Unknown => "Unknown"

inductive DlqFormat where
  | csv
  | json
  | jsonLines
  deriving DecidableEq

def DlqFormat.extension : DlqFormat → String
  | .csv => "csv"
  | .json => "json"
  | .jsonLines => "jsonl"

structure DlqConfig where
  format : DlqFormat
  organizeByCategory : Bool
  organizeByDate : Bool
  maxRowsPerFile : Nat
  includeStackTrace : Bool

def DlqConfig.default : DlqConfig where
  format := .jsonLines
  organizeByCategory := true
  organizeByDate := true
  maxRowsPerFile := 10000
  includeStackTrace := false

/-- A `DateTime<Utc>`, with its day as `%Y-%m-%d`. -/
class Timestamp (T : Type) extends Rfc3339 T where
  date : T → String

structure FailedRow (T : Type) where
  jobId : String
  rowNumber : UInt64
  rowData : List String
  errorCategory : String
  errorMessage : String
  stackTrace : Option String
  retryCount : UInt64
  timestamp : T
  metadata : HashMap

variable {F T : Type} [Timestamp T]

namespace FailedRow

/-- An `Option` without attributes is written as `null`. -/
def optionalText : Field F (Option String) where
  write a := some (a.elim .null .string)
  read
    | none => some none
    | some v => if v.isNull then some none else v.asStr.map some
  sorted a := a
  Finite _ := True
  reread _ a := a
  ordered a v hv := by
    cases hv
    cases a <;> constructor
  write_sorted _ := rfl
  sorted_of_write a b _ h := by
    have hvalue := Option.some.inj h
    cases a <;> cases b <;> simp_all
  read_reread _ a _ := by cases a <;> rfl

def record : Record F (FailedRow T) :=
  (Record.cons "job_id" (.required .string) <| .cons "row_number" (.required .u64) <|
    .cons "row_data" (.required Serde.string.list) <| .cons "error_category" (.required .string) <|
    .cons "error_message" (.required .string) <| .cons "stack_trace" optionalText <|
    .cons "retry_count" (.required .u64) <| .cons "timestamp" (.required .dateTime) <|
    .cons "metadata" (.required .map) .nil).of
  (fun ⟨jobId, rowNumber, rowData, errorCategory, errorMessage, stackTrace, retryCount, timestamp,
      metadata⟩ =>
    (jobId, rowNumber, rowData, errorCategory, errorMessage, stackTrace, retryCount, timestamp,
      metadata, ()))
  (fun (jobId, rowNumber, rowData, errorCategory, errorMessage, stackTrace, retryCount, timestamp,
      metadata, ()) =>
    ⟨jobId, rowNumber, rowData, errorCategory, errorMessage, stackTrace, retryCount, timestamp,
      metadata⟩)
  fun _ => rfl

def serde : Serde F (FailedRow T) := record.serde (of_decide_eq_true rfl)

end FailedRow

/-! ## Files -/

abbrev Path := List String

inductive DlqFile (F : Type) where
  | csv (records : List (List String))
  | lines (values : List (Value F))

abbrev Disk (F : Type) := BTreeMap Path (DlqFile F)

/-- `Path::extension`. -/
def extension (name : String) : Option String :=
  match rsplitOnce '.' name.toList with
  | some (stem, rest) => if stem = [] then none else some (String.ofList rest)
  | none => none

/-- `format!("\x7b:04\x7d", n)`. -/
def fourDigits (n : Nat) : String :=
  String.ofList ((Nat.toDigits 10 n).leftpad 4 '0')

def csvHeader : List String :=
  ["job_id", "row_number", "error_category", "error_message", "retry_count", "timestamp", "row_data"]

/-- `row_data.join("|")`. -/
def joinFields (fields : List String) : String :=
  String.ofList (['|'].intercalate (fields.map String.toList))

/-- `split('|')`. -/
def splitFields (text : String) : List String :=
  (text.toList.splitOn '|').map String.ofList

/-- `DlqWriter::new`: the file is created, and truncated if it was there. -/
def DlqFile.new : DlqFormat → DlqFile F
  | .csv => .csv [csvHeader]
  | .json | .jsonLines => .lines []

def FailedRow.csvRecord (row : FailedRow T) : List String :=
  [row.jobId, toString row.rowNumber.toNat, row.errorCategory, row.errorMessage,
    toString row.retryCount.toNat, Rfc3339.format row.timestamp, joinFields row.rowData]

/-- `DlqWriter::write_row`; the JSON format writes lines, too. -/
def DlqFile.writeRow (row : FailedRow T) : DlqFile F → DlqFile F
  | .csv records => .csv (records ++ [row.csvRecord])
  | .lines values => .lines (values ++ [FailedRow.serde.toValue row])

/-! ## Writing -/

/-- The queue, with what is used of its statistics. -/
structure DeadLetterQueue where
  jobId : String
  config : DlqConfig
  writer : Option Path
  totalRows : Nat
  dlqFiles : List Path
  fileIndex : Nat

namespace DeadLetterQueue

def new (jobId : String) (config : DlqConfig) : DeadLetterQueue := ⟨jobId, config, none, 0, [], 0⟩

variable (queue : DeadLetterQueue)

def filename (jobId : String) (config : DlqConfig) (fileIndex : Nat) : String :=
  jobId ++ "_" ++ fourDigits fileIndex ++ "." ++ config.format.extension

def computeDlqPath (row : FailedRow T) : Path :=
  (if queue.config.organizeByDate then [Timestamp.date row.timestamp] else []) ++
    (if queue.config.organizeByCategory then [row.errorCategory] else []) ++
    [filename queue.jobId queue.config queue.fileIndex]

/-- `get_writer`. -/
def getWriter (row : FailedRow T) (disk : Disk F) : Path × Disk F × DeadLetterQueue :=
  match queue.writer with
  | some path => (path, disk, queue)
  | none =>
    let path := queue.computeDlqPath row
    (path, disk.insert path (.new queue.config.format),
      { queue with writer := some path, dlqFiles := queue.dlqFiles ++ [path] })

def rotateFile : DeadLetterQueue := { queue with writer := none, fileIndex := queue.fileIndex + 1 }

def withStackTrace (row : FailedRow T) : FailedRow T :=
  if queue.config.includeStackTrace then
    { row with stackTrace := some "Stack trace not implemented" }
  else row

def writeFailedRowEntry (disk : Disk F) (row : FailedRow T) : Disk F × DeadLetterQueue :=
  let row := queue.withStackTrace row
  let (path, disk, queue) := queue.getWriter row disk
  let disk := disk.upsert path fun file => (file.getD (.new queue.config.format)).writeRow row
  let queue := { queue with totalRows := queue.totalRows + 1 }
  (disk, if queue.totalRows % queue.config.maxRowsPerFile = 0 then queue.rotateFile else queue)

end DeadLetterQueue

/-- The arguments of `write_failed_row`, and the clock. -/
structure Failure (T : Type) where
  rowNumber : UInt64
  rowData : List String
  errorCategory : ErrorCategory
  errorMessage : String
  retryCount : UInt64
  now : T

namespace DeadLetterQueue

def failedRow (jobId : String) (failure : Failure T) : FailedRow T where
  jobId
  rowNumber := failure.rowNumber
  rowData := failure.rowData
  errorCategory := failure.errorCategory.display
  errorMessage := failure.errorMessage
  stackTrace := none
  retryCount := failure.retryCount
  timestamp := failure.now
  metadata := .empty

def writeFailedRow (queue : DeadLetterQueue) (disk : Disk F) (failure : Failure T) :
    Disk F × DeadLetterQueue :=
  queue.writeFailedRowEntry disk (failedRow queue.jobId failure)

/-- One instance, from its creation to `finalize`. -/
def writeAll (jobId : String) (config : DlqConfig) (disk : Disk F) (failures : List (Failure T)) :
    Disk F × DeadLetterQueue :=
  failures.foldl (fun (disk, queue) failure => queue.writeFailedRow disk failure)
    (disk, new jobId config)

end DeadLetterQueue

/-! ## Reading -/

/-- `DlqReader`, with the clock for timestamps that cannot be read. -/
structure DlqReader (T : Type) where
  path : Path
  format : DlqFormat
  now : T

namespace DlqReader

def new (path : Path) (now : T) : Option (DlqReader T) :=
  match path.getLast?.bind extension with
  | some "csv" => some ⟨path, .csv, now⟩
  | some "json" => some ⟨path, .json, now⟩
  | some "jsonl" => some ⟨path, .jsonLines, now⟩
  | _ => none

/-- `parse().unwrap_or(0)`. -/
def parseCount (text : String) : UInt64 :=
  match parseUnsigned (2 ^ 64 - 1) text.toList with
  | .ok n => .ofNat n
  | .error _ => 0

def readCsvRecord (now : T) : List String → Option (FailedRow T)
  | jobId :: rowNumber :: errorCategory :: errorMessage :: retryCount :: timestamp :: rowData :: _ =>
    some
      { jobId
        rowNumber := parseCount rowNumber
        rowData := splitFields rowData
        errorCategory
        errorMessage
        stackTrace := none
        retryCount := parseCount retryCount
        timestamp := (Rfc3339.parse timestamp).getD now
        metadata := .empty }
  | _ => none

/-- The rows of a file; the first record of a csv file is its header, and a JSON file holds one
array. -/
def readFile (reader : DlqReader T) : DlqFile F → Option (List (FailedRow T))
  | .csv records =>
    if reader.format = .csv then some (records.tail.filterMap (readCsvRecord reader.now)) else none
  | .lines lines =>
    match reader.format with
    | .csv => none
    | .json =>
      match lines with
      | [line] => FailedRow.serde.list.fromValue line
      | _ => none
    | .jsonLines => lines.mapM FailedRow.serde.fromValue

def readAll (reader : DlqReader T) (disk : Disk F) : Option (List (FailedRow T)) :=
  (disk.get reader.path).bind reader.readFile

end DlqReader

end Arcxa.Loader
