import Arcxa.Lib.Cache
import Arcxa.Workflow.DedupEntry
import Arcxa.Workflow.Spill

/-!
# Streaming deduplication (`streaming_deduplicator.rs`)

`DedupStateManager` decides for each row of a stream whether its key is new. What it knows
of a key is spread over a Bloom filter, an LRU cache and RocksDB: a new key goes to the
cache while there is room and to RocksDB after that, a key that is often found in RocksDB
is promoted to the cache, and half of the cache goes to RocksDB when memory runs short.
-/

namespace Arcxa.Workflow

variable {F : Type}

/-! ## Configuration -/

inductive FuzzyAlgorithm where
  | Levenshtein | JaroWinkler | Soundex
  deriving DecidableEq, Repr

inductive DedupMethod where
  | Exact
  | Fuzzy (algorithm : FuzzyAlgorithm)
  | Semantic (model : String)
  deriving DecidableEq, Repr

inductive KeepStrategy where
  | First | Last | Merge | HighestQuality
  deriving DecidableEq, Repr

structure DeduplicatorConfig (F : Type) where
  method : DedupMethod
  keyFields : List String
  threshold : Option F
  keep : KeepStrategy

structure StreamingDedupConfig (F : Type) where
  base : DeduplicatorConfig F
  batchSize : Nat
  maxMemoryBytes : Nat
  cacheSize : Nat
  bloomExpectedItems : Nat
  bloomFalsePositiveRate : F

/-! ## Decisions -/

structure DedupStats where
  totalProcessed : Nat
  keptCount : Nat
  duplicateCount : Nat
  mergeCount : Nat
  batchesProcessed : Nat
  cacheHits : Nat
  cacheMisses : Nat
  rocksLookups : Nat
  memoryFlushes : Nat
  deriving DecidableEq, Repr

def DedupStats.zero : DedupStats := ⟨0, 0, 0, 0, 0, 0, 0, 0, 0⟩

inductive DedupDecision (F : Type) where
  | Keep (row : Value F) (mergedFrom : Option (List String))
  | Skip (reason : String) (originalKey : String)

namespace DedupDecision

def keptRow : DedupDecision F → Option (Value F)
  | Keep row _ => some row
  | Skip _ _ => none

def isSkip : DedupDecision F → Bool
  | Keep _ _ => false
  | Skip _ _ => true

end DedupDecision

/-! ## Text -/

/-- Unicode `White_Space`. -/
def isWhitespace (c : Char) : Bool :=
  let n := c.toNat
  (9 ≤ n && n ≤ 13) || n = 0x20 || n = 0x85 || n = 0xA0 || n = 0x1680 || (0x2000 ≤ n && n ≤ 0x200A) ||
    n = 0x2028 || n = 0x2029 || n = 0x202F || n = 0x205F || n = 0x3000

/-- `str::trim`. -/
def trim (s : String) : String :=
  String.ofList ((s.toList.dropWhile isWhitespace).reverse.dropWhile isWhitespace).reverse

/-! ## The state manager -/

structure DedupStateManager (F : Type) where
  memoryCache : Lru String (DedupEntry F)
  bloomFilter : Bloom String
  rocksHandle : Option Db
  keyPrefix : String
  memoryLimit : Nat
  stats : DedupStats
  currentIdx : UInt64

/-- The field `_row_id`. -/
def rowIdOf (row : Value F) : Option String := (row.get "_row_id").bind Value.asStr

/-- Fields of the earlier rows, where this row has none or `null`. -/
def mergeFields (row : Value F) (mergedFields : Row F) : Value F :=
  match row with
  | .object fields =>
    Value.ofRow <| mergedFields.entries.foldl
      (fun obj p =>
        if (obj.get p.1).all Value.isNull then obj.insert p.1 p.2 else obj)
      (BTreeMap.ofList fields)
  | _ => row

section Quality

variable [Float64 F]

def one : F := Float64.ofInt 1

def addFieldScore (score : F) (value : Value F) : F :=
  if value.isNull then score
  else
    let score := Float64.add score one
    match value.asStr with
    | some s => if trim s ≠ "" then Float64.add score (Float64.div one (Float64.ofInt 2)) else score
    | none => score

def calculateQualityScore (row : Value F) : F :=
  match row with
  | .object fields =>
    let score := fields.foldl (fun score p => addFieldScore score p.2) (Float64.ofInt 0)
    let maxScore := fields.foldl (fun maxScore _ => Float64.add maxScore one) (Float64.ofInt 0)
    if Float64.lt (Float64.ofInt 0) maxScore then Float64.div score maxScore else Float64.ofInt 0
  | _ => Float64.ofInt 0

def applyKeepStrategy (entry : DedupEntry F) (currentRow : Value F) (strategy : KeepStrategy)
    (key : String) : DedupDecision F :=
  let mergedFrom := entry.firstRowId.map (fun id => [id])
  match strategy with
  | .First => .Skip ("Duplicate of row at index " ++ toString entry.firstSeenIdx) key
  | .Last => .Keep currentRow mergedFrom
  | .Merge =>
    match entry.mergedFields with
    | some mergedFields => .Keep (mergeFields currentRow mergedFields) mergedFrom
    | none => .Keep currentRow mergedFrom
  | .HighestQuality =>
    let currentQuality := calculateQualityScore currentRow
    match entry.qualityScore with
    | some existingQuality =>
      if Float64.lt existingQuality currentQuality then .Keep currentRow mergedFrom
      else
        .Skip ("Lower quality (" ++ Float64.fixed 2 currentQuality ++ ") than existing (" ++
          Float64.fixed 2 existingQuality ++ ")") key
    | none => .Keep currentRow none

end Quality

namespace DedupStateManager

/-- The filter that `new_for_fp_rate` makes is a parameter. -/
def new (newForFpRate : Nat → F → BloomHash String) (rocksHandle : Option Db) (executionId : String)
    (timestamp : Int64) (config : StreamingDedupConfig F) :
    Except WorkflowError (DedupStateManager F) :=
  if h : 0 < config.cacheSize then
    .ok
      { memoryCache := .empty config.cacheSize h
        bloomFilter :=
          .empty (newForFpRate config.bloomExpectedItems config.bloomFalsePositiveRate)
        rocksHandle
        keyPrefix := "dedup/" ++ executionId ++ "/" ++ toString timestamp
        memoryLimit := config.maxMemoryBytes
        stats := .zero
        currentIdx := 0 }
  else .error (.InvalidData "Invalid cache size")

def dbKey (m : DedupStateManager F) (key : String) : String := m.keyPrefix ++ "/" ++ key

/-- `rocks.get`, without a handle nothing. -/
def getRocks (m : DedupStateManager F) (key : String) : Option Bytes :=
  m.rocksHandle.bind (fun rocks => rocks (m.dbKey key))

variable [Float64 F]

def stored (m : DedupStateManager F) (key : String) : Option (DedupEntry F) :=
  (m.getRocks key).bind DedupEntry.deserialize

def putRocks (m : DedupStateManager F) (key : String) (entry : DedupEntry F) : DedupStateManager F :=
  { m with
    rocksHandle := m.rocksHandle.map (fun rocks =>
      Function.update rocks (m.dbKey key) (some entry.serialize)) }

def insertEntry (m : DedupStateManager F) (key : String) (entry : DedupEntry F) :
    DedupStateManager F :=
  if m.memoryCache.len < m.memoryCache.cap then
    { m with memoryCache := m.memoryCache.put key entry }
  else m.putRocks key entry

def keepNew (m : DedupStateManager F) (key : String) (row : Value F) (idx : UInt64) (now : Int64) :
    DedupDecision F × DedupStateManager F :=
  let m := { m with bloomFilter := m.bloomFilter.set key }
  let m := m.insertEntry key (.new idx (rowIdOf row) now)
  (.Keep row none, { m with stats := { m.stats with keptCount := m.stats.keptCount + 1 } })

def decideFound (m : DedupStateManager F) (entry : DedupEntry F) (row : Value F)
    (keep : KeepStrategy) (key : String) : DedupDecision F × DedupStateManager F :=
  let decision := applyKeepStrategy entry row keep key
  if decision.isSkip then
    (decision, { m with stats := { m.stats with duplicateCount := m.stats.duplicateCount + 1 } })
  else (decision, m)

def foundInRocks (m : DedupStateManager F) (entry : DedupEntry F) (row : Value F)
    (keep : KeepStrategy) (key : String) : DedupDecision F × DedupStateManager F :=
  -- promote to cache if hot
  let m := if entry.accessCount > 2 then { m with memoryCache := m.memoryCache.put key entry } else m
  let (decision, m) := m.decideFound entry row keep key
  (decision, m.putRocks key entry)

def countRow (m : DedupStateManager F) : DedupStateManager F :=
  { m with
    currentIdx := m.currentIdx + 1
    stats := { m.stats with totalProcessed := m.stats.totalProcessed + 1 } }

def countHit (m : DedupStateManager F) : DedupStateManager F :=
  { m with stats := { m.stats with cacheHits := m.stats.cacheHits + 1 } }

def countMiss (m : DedupStateManager F) : DedupStateManager F :=
  { m with
    stats :=
      { m.stats with
        cacheMisses := m.stats.cacheMisses + 1
        rocksLookups := m.stats.rocksLookups + if m.rocksHandle.isSome then 1 else 0 } }

def foundInCache (m : DedupStateManager F) (entry : DedupEntry F) (row : Value F)
    (keep : KeepStrategy) (key : String) (idx : UInt64) (now : Int64) :
    DedupDecision F × DedupStateManager F :=
  let update := fun entry : DedupEntry F => entry.update idx (rowIdOf row) now
  let m := { m with memoryCache := m.memoryCache.modify key update }
  m.decideFound (update entry) row keep key

/-- The body of the loop of `process_batch`. The clock is read by the number of the row. -/
def processRow (clock : Nat → Int64) (keep : KeepStrategy) (m : DedupStateManager F)
    (keyed : String × Value F) : DedupDecision F × DedupStateManager F :=
  let (key, row) := keyed
  let idx := m.currentIdx
  let now := clock m.stats.totalProcessed
  let m := m.countRow
  if m.bloomFilter.check key then
    match m.memoryCache.lookup key with
    | some entry => m.countHit.foundInCache entry row keep key idx now
    | none =>
      let m := m.countMiss
      match m.stored key with
      | some entry => m.foundInRocks (entry.update idx (rowIdOf row) now) row keep key
      | none => m.keepNew key row idx now
  else m.keepNew key row idx now

/-- Move some of the least recently used entries to RocksDB. -/
def flushEntries : Nat → DedupStateManager F → DedupStateManager F
  | 0, m => m
  | n + 1, m =>
    match m.memoryCache.popLru with
    | some ((key, entry), memoryCache) => flushEntries n ({ m with memoryCache }.putRocks key entry)
    | none => flushEntries n m

def flushToDisk (m : DedupStateManager F) : DedupStateManager F :=
  if m.rocksHandle.isSome then flushEntries (m.memoryCache.len / 2) m else m

def estimateMemory (m : DedupStateManager F) : Nat :=
  m.memoryCache.len * 1024 + m.bloomFilter.hash.numberOfBits / 8

/-- What `process_batch` does after its loop. -/
def endBatch (m : DedupStateManager F) : DedupStateManager F :=
  let m := { m with stats := { m.stats with batchesProcessed := m.stats.batchesProcessed + 1 } }
  if m.estimateMemory > m.memoryLimit then
    let m := m.flushToDisk
    { m with stats := { m.stats with memoryFlushes := m.stats.memoryFlushes + 1 } }
  else m

/-- The loop of `process_batch`. -/
def processRows (clock : Nat → Int64) (keep : KeepStrategy) (m : DedupStateManager F) :
    List (String × Value F) → List (DedupDecision F) × DedupStateManager F
  | [] => ([], m)
  | keyed :: keyedRows =>
    let (decision, m) := m.processRow clock keep keyed
    let (decisions, m) := processRows clock keep m keyedRows
    (decision :: decisions, m)

def processBatch (clock : Nat → Int64) (keep : KeepStrategy) (m : DedupStateManager F)
    (keyedRows : List (String × Value F)) : List (DedupDecision F) × DedupStateManager F :=
  let (decisions, m) := m.processRows clock keep keyedRows
  (decisions, m.endBatch)

def processBatches (clock : Nat → Int64) (keep : KeepStrategy) (m : DedupStateManager F) :
    List (List (String × Value F)) → List (List (DedupDecision F)) × DedupStateManager F
  | [] => ([], m)
  | batch :: batches =>
    let (decisions, m) := m.processBatch clock keep batch
    let (rest, m) := processBatches clock keep m batches
    (decisions :: rest, m)

end DedupStateManager

end Arcxa.Workflow
