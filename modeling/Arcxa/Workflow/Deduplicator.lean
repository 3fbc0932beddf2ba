import Arcxa.Lib.Distinct
import Arcxa.Workflow.RowStorage
import Arcxa.Workflow.StreamingDedup

/-!
# The deduplicator step

Four implementations of one step. The optimized executor takes one of three by the number
of rows: the batch operator on the frame of the rows up to 10,000, a pass with the seen
keys in memory up to 100,000, and the streaming deduplicator above. The workflow executor
has its own, which groups the rows by key and applies the keep strategy to each group,
unless it can hand the step to the batch operator.

They do not build the key of a row in the same way. The batch operator and the pass in
memory write `null` for a field that is missing; the other two write nothing, and fold the
case for the fuzzy method.

The iterators of the row storage are run with fuel. Lower-casing, the Bloom filter, the
clock and the iteration order of hash maps are parameters.
-/

namespace Arcxa.Workflow

variable {F : Type}

/-- What the deduplicator step takes from outside. -/
structure DedupRuntime (F : Type) where
  fromSlice : Bytes → Except String (Value F)
  toLowercase : String → String
  newForFpRate : Nat → F → BloomHash String
  rocksDb : Db
  executionId : String
  timestamp : Int64
  clock : Nat → Int64

/-- The order in which a hash map is iterated: any. -/
structure HashOrder (α : Type) where
  order : List α → List α
  perm : ∀ l, (order l).Perm l

def joinKey (keyParts : List String) : String := "|".intercalate keyParts

variable [Float64 F]

/-! ## The batch operator (`runtime/operators/deduplicator.rs`) -/

namespace DeduplicatorBatchOperator

def cellString : Column F → Nat → Option String
  | .boolean cells, i => (cells[i]?).join.map toString
  | .int64 cells, i => (cells[i]?).join.map toString
  | .float64 cells, i => (cells[i]?).join.map Float64.display
  | .utf8 cells, i => (cells[i]?).join

def arrayName : DataType → String
  | .Boolean => "BooleanArray"
  | .Int64 => "Int64Array"
  | .Float64 => "Float64Array"
  | .Utf8 => "Utf8Array"

def dedupCellString (dataType : DataType) (column : Column F) (rowIndex : Nat) :
    Except WorkflowError String :=
  match cellString column rowIndex with
  | none => .ok "null"
  | some s =>
    if column.dataType = dataType then .ok s
    else .error (.InvalidData ("Expected " ++ arrayName dataType ++ " in batch deduplicator"))

def keyColumns (frame : BatchFrame F) (keyFields : List String) : List (Option (Field × Column F)) :=
  keyFields.map (fun field => (frame.schema.zip frame.columns).find? (fun p => p.1.name = field))

/-- A key field without a column is `null`. -/
def keyPart (rowIndex : Nat) : Option (Field × Column F) → Except WorkflowError String
  | some (field, column) => dedupCellString field.dataType column rowIndex
  | none => .ok "null"

def buildDedupKey (columns : List (Option (Field × Column F))) (rowIndex : Nat) :
    Except WorkflowError String := do
  let keyParts ← columns.mapM (keyPart rowIndex)
  return joinKey keyParts

def keepIndices (columns : List (Option (Field × Column F))) (rowCount : Nat) :
    Except WorkflowError (List Nat) := do
  let state ← (List.range rowCount).foldlM
    (fun state rowIndex => do
      let key ← buildDedupKey columns rowIndex
      return insertUnseen (fun _ => key) state rowIndex)
    ([], [])
  return state.2

def execute (frame : BatchFrame F) (config : DeduplicatorConfig F) :
    Except WorkflowError (BatchFrame F) := do
  let indices ← keepIndices (keyColumns frame config.keyFields) frame.rowCount
  frame.selectRows indices

def onRows (rows : List (Value F)) (config : DeduplicatorConfig F) :
    Except WorkflowError (List (Value F)) := do
  let frame ← BatchFrame.fromJsonValues rows
  let deduped ← execute frame config
  deduped.toJsonValues

end DeduplicatorBatchOperator

/-! ## The streaming deduplicator -/

namespace StreamingDeduplicator

def fieldText (row : Value F) (field : String) : String :=
  match row.get field with
  | some (.string s) => s
  | some v => v.toString
  | none => ""

def normalize (toLowercase : String → String) (method : DedupMethod) (key : String) : String :=
  match method with
  | .Exact => key
  | .Fuzzy _ => trim (toLowercase key)
  | .Semantic _ => key

def buildKeyForRow (toLowercase : String → String) (config : DeduplicatorConfig F) (row : Value F) :
    String :=
  normalize toLowercase config.method (joinKey (config.keyFields.map (fieldText row)))

def buildDedupKeys (toLowercase : String → String) (config : DeduplicatorConfig F)
    (batch : List (Value F)) : List (String × Value F) :=
  batch.map (fun row => (buildKeyForRow toLowercase config row, row))

/-- The rows with a `Keep` decision. The batches come from the row storage; an error among them
ends the execution. -/
def executeAndGetRows (rt : DedupRuntime F) (config : StreamingDedupConfig F)
    (storage : RowStorage F) (fuel : Nat) : Option (Except WorkflowError (List (Value F))) := do
  let batches ← collect (BatchIterator.next rt.fromSlice) fuel (.new storage config.batchSize)
  return do
    let manager ←
      DedupStateManager.new rt.newForFpRate (some rt.rocksDb) rt.executionId rt.timestamp config
    let decisions := (manager.processBatches rt.clock config.base.keep
      ((← batches).map (buildDedupKeys rt.toLowercase config.base))).1
    return decisions.flatten.filterMap DedupDecision.keptRow

end StreamingDeduplicator

/-! ## The optimized executor (`executor_optimized.rs`) -/

namespace OptimizedStepExecutor

inductive ExecutionPath where
  | batchFrame | streamingMemory | streamingDisk
  deriving DecidableEq, Repr

def executionPath (originalCount : Nat) : ExecutionPath :=
  if originalCount > 100000 then .streamingDisk
  else if originalCount > 10000 then .streamingMemory
  else .batchFrame

def valueText : Value F → String
  | .string s => s
  | .number n => n.toString
  | .bool b => toString b
  | .null => "null"
  | v => v.toString

/-- The text of a field, `null` if it is missing. -/
def fieldText (row : Value F) (field : String) : String := (row.get field).elim "null" valueText

def buildDedupKey (keyFields : List String) (row : Value F) : String :=
  joinKey (keyFields.map (fieldText row))

def streamingDeduplicateMedium (rt : DedupRuntime F) (storage : RowStorage F)
    (config : DeduplicatorConfig F) (fuel : Nat) : Option (Except WorkflowError (List (Value F))) := do
  let batches ← collect (BatchIterator.next rt.fromSlice) fuel (.new storage 1000)
  return do
    let (_, result) := (← batches).foldl
      (fun state batch => batch.foldl (insertUnseen (buildDedupKey config.keyFields)) state) ([], [])
    return result

/-- The settings of the streaming deduplicator by the number of rows. The filter expects four
fifths of them to be unique. -/
def largeConfig (rowCount : Nat) (config : DeduplicatorConfig F) : StreamingDedupConfig F where
  base := config
  batchSize := 10000
  cacheSize := if rowCount > 1000000 then 100000 else 50000
  maxMemoryBytes := if rowCount > 1000000 then 200000000 else 100000000
  bloomExpectedItems := rowCount * 4 / 5
  bloomFalsePositiveRate := Float64.div (Float64.ofInt 1) (Float64.ofInt 100)

def streamingDeduplicateLarge (rt : DedupRuntime F) (storage : RowStorage F)
    (config : DeduplicatorConfig F) (fuel : Nat) : Option (Except WorkflowError (List (Value F))) :=
  StreamingDeduplicator.executeAndGetRows rt (largeConfig storage.len config) storage fuel

def executeDeduplicator (rt : DedupRuntime F) (storage : RowStorage F)
    (config : DeduplicatorConfig F) (fuel : Nat) : Option (Except WorkflowError (List (Value F))) :=
  match executionPath storage.len with
  | .streamingDisk => streamingDeduplicateLarge rt storage config fuel
  | .streamingMemory => streamingDeduplicateMedium rt storage config fuel
  | .batchFrame => some do
    let rows ← RowAccessor.toVec rt.fromSlice storage
    DeduplicatorBatchOperator.onRows rows config

end OptimizedStepExecutor

/-! ## The workflow executor (`executor/deduplicator_step.rs`) -/

namespace WorkflowExecutor

def keptIndex (keep : KeepStrategy) (group : List Nat) : Option Nat :=
  match keep with
  | .First => group.head?
  | .Last => group.getLast?
  | .Merge | .HighestQuality => group.head?

def executeGroups (rt : DedupRuntime F) (hash : HashOrder (String × List Nat))
    (rows : List (Value F)) (config : DeduplicatorConfig F) : List (Value F) :=
  let key := StreamingDeduplicator.buildKeyForRow rt.toLowercase config
  let seenKeys := rows.zipIdx.foldl (fun groups p => pushGroup groups (key p.1) p.2) []
  (hash.order seenKeys).filterMap (fun (_, group) => (keptIndex config.keep group).bind (rows[·]?))

def tryExecuteDeduplicatorBatch (rows : List (Value F)) (config : DeduplicatorConfig F) :
    Option (List (Value F)) :=
  if config.method = .Exact ∧ config.keep = .First then
    (DeduplicatorBatchOperator.onRows rows config).toOption
  else none

def executeDeduplicator (rt : DedupRuntime F) (hash : HashOrder (String × List Nat))
    (hasLineage : Bool) (rows : List (Value F)) (config : DeduplicatorConfig F) : List (Value F) :=
  match if hasLineage then none else tryExecuteDeduplicatorBatch rows config with
  | some deduped => deduped
  | none => executeGroups rt hash rows config

end WorkflowExecutor

end Arcxa.Workflow
