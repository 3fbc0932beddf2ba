import Arcxa.Lib.Buckets
import Arcxa.Lib.TextCodec

/-!
# The column lineage store

`ColumnLineageStore` keeps the events of a target column in one list under the column's qualified name,
and sets of columns under the names of source columns, kinds of transformation, tables and tenants. A call
reads what is stored, event by event, and writes one batch last: the sets gather all of the call's columns
first, the lists do not, so of the events that a call has for one column the last is left. Names are
joined with dots and have no data type, so that different columns share a list. The search reads the lists
as another type and without decompressing them. The answers are what they should be for the arguments
that none of this concerns (`answersCompletely_iff`).
-/

namespace Arcxa.Lineage

variable {F J : Type}

/-! ## Columns and events -/

structure ColumnRef where
  datasourceId : String
  schema : Option String
  tableName : String
  columnName : String
  dataType : String
  deriving DecidableEq

namespace ColumnRef

variable (column : ColumnRef)

def fullyQualifiedName : String :=
  match column.schema with
  | some schema =>
    column.datasourceId ++ "." ++ schema ++ "." ++ column.tableName ++ "." ++ column.columnName
  | none => column.datasourceId ++ "." ++ column.tableName ++ "." ++ column.columnName

def pieces : List (List Char) :=
  column.datasourceId.toList.splitOn '.' ++
    (column.schema.map fun schema => schema.toList.splitOn '.').getD [] ++
    column.tableName.toList.splitOn '.' ++ column.columnName.toList.splitOn '.'

def tableKey : String :=
  match column.schema with
  | some schema => column.datasourceId ++ "." ++ schema ++ "." ++ column.tableName
  | none => column.datasourceId ++ "." ++ column.tableName

variable {column} {column' : ColumnRef}

theorem splitOn_fullyQualifiedName :
    column.fullyQualifiedName.toList.splitOn '.' = column.pieces := by
  have happend : ∀ a b : String, (a ++ "." ++ b).toList.splitOn '.' =
      a.toList.splitOn '.' ++ b.toList.splitOn '.' := by
    intro a b
    rw [String.toList_append, String.toList_append, List.append_assoc]
    exact List.splitOn_append_cons_self ..
  unfold fullyQualifiedName pieces
  cases column.schema with
  | none => simp only [happend, Option.map_none, Option.getD_none, List.append_nil]
  | some schema => simp only [happend, Option.map_some, Option.getD_some]

/-- **Which columns share a name.** -/
theorem fullyQualifiedName_inj :
    column.fullyQualifiedName = column'.fullyQualifiedName ↔ column.pieces = column'.pieces := by
  rw [← splitOn_fullyQualifiedName, ← splitOn_fullyQualifiedName]
  constructor
  · intro hname
    rw [hname]
  · intro hpieces
    have hlist := congrArg (['.'].intercalate) hpieces
    rw [List.intercalate_splitOn, List.intercalate_splitOn] at hlist
    exact String.toList_inj.mp hlist

end ColumnRef

inductive TransformationType where
  | DirectCopy
  | SqlExpression
  | UdfTransformation (udfName : String)
  | Aggregation (function : String) (groupBy : Option (List String))
  | Join (joinType joinCondition : String)
  | TypeCast (fromType toType : String)
  | Concatenation (separator : Option String)
  | Substring (start : Int32) (length : Option Int32)
  | Conditional
  | MathOperation (operation : String)
  | DateTimeOperation (operation : String)
  | Lookup (referenceTable : String)
  | MlTransformation (modelId modelVersion : String)
  | Custom (description : String)
  deriving DecidableEq

def encodeTransformType : TransformationType → String
  | .DirectCopy => "DIRECT_COPY"
  | .SqlExpression => "SQL_EXPRESSION"
  | .UdfTransformation udfName => "UDF:" ++ udfName
  | .Aggregation function _ => "AGG:" ++ function
  | .Join joinType _ => "JOIN:" ++ joinType
  | .TypeCast fromType toType => "CAST:" ++ fromType ++ ":" ++ toType
  | .Concatenation _ => "CONCAT"
  | .Substring _ _ => "SUBSTRING"
  | .Conditional => "CONDITIONAL"
  | .MathOperation operation => "MATH:" ++ operation
  | .DateTimeOperation operation => "DATETIME:" ++ operation
  | .Lookup referenceTable => "LOOKUP:" ++ referenceTable
  | .MlTransformation modelId _ => "ML:" ++ modelId
  | .Custom description => "CUSTOM:" ++ description

/-- `F` is the type of floating-point numbers, and times are the texts that they are written as. `J` are
the JSON values, which the store keeps as texts. -/
structure ColumnLineageEvent (F J : Type) where
  id : String
  sourceColumns : List ColumnRef
  targetColumn : ColumnRef
  transformationLogic : String
  transformationType : TransformationType
  jobId : String
  workflowId : Option String
  tenantId : String
  createdAt : String
  confidence : Option F
  createdBy : String
  metadata : Option J
  deriving DecidableEq

structure SerializableColumnLineageEvent (F : Type) where
  id : String
  sourceColumns : List ColumnRef
  targetColumn : ColumnRef
  transformationLogic : String
  transformationType : TransformationType
  jobId : String
  workflowId : Option String
  tenantId : String
  createdAt : String
  confidence : Option F
  createdBy : String
  metadataJson : Option String

/-- The metadata comes back from its text, which is not empty. -/
def ColumnLineageEvent.MetadataReadsBack [TextCodec J] (event : ColumnLineageEvent F J) : Prop :=
  ∀ metadata ∈ event.metadata, TextCodec.toText metadata ≠ "" ∧ TextCodec.ReadsBack metadata

instance [TextCodec J] [DecidableEq J] (event : ColumnLineageEvent F J) :
    Decidable event.MetadataReadsBack := inferInstanceAs (Decidable (∀ _ ∈ event.metadata, _))

namespace SerializableColumnLineageEvent

variable [TextCodec J]

def ofEvent (event : ColumnLineageEvent F J) : SerializableColumnLineageEvent F where
  id := event.id
  sourceColumns := event.sourceColumns
  targetColumn := event.targetColumn
  transformationLogic := event.transformationLogic
  transformationType := event.transformationType
  jobId := event.jobId
  workflowId := event.workflowId
  tenantId := event.tenantId
  createdAt := event.createdAt
  confidence := event.confidence
  createdBy := event.createdBy
  metadataJson := event.metadata.map TextCodec.toText

variable (event : SerializableColumnLineageEvent F)

def withMetadata (metadata : Option J) : ColumnLineageEvent F J where
  id := event.id
  sourceColumns := event.sourceColumns
  targetColumn := event.targetColumn
  transformationLogic := event.transformationLogic
  transformationType := event.transformationType
  jobId := event.jobId
  workflowId := event.workflowId
  tenantId := event.tenantId
  createdAt := event.createdAt
  confidence := event.confidence
  createdBy := event.createdBy
  metadata := metadata

/-- `try_into`: none where the text of the metadata does not parse. -/
def tryInto : Option (ColumnLineageEvent F J) :=
  match event.metadataJson with
  | none => some (event.withMetadata none)
  | some text =>
    if text = "" then some (event.withMetadata none)
    else (TextCodec.fromText text).map fun metadata => event.withMetadata (some metadata)

theorem tryInto_ofEvent {event : ColumnLineageEvent F J} (h : event.MetadataReadsBack) :
    (ofEvent event).tryInto = some event := by
  obtain ⟨_, _, _, _, _, _, _, _, _, _, _, metadata⟩ := event
  cases metadata with
  | none => rfl
  | some metadata =>
    obtain ⟨hne, hreads⟩ := h metadata rfl
    unfold tryInto
    simp only [ofEvent, Option.map_some, if_neg hne, show TextCodec.fromText _ = _ from hreads]
    rfl

end SerializableColumnLineageEvent

/-! ## Sizes in the binary format -/

def stringSize (s : String) : Nat := 8 + s.utf8ByteSize

def optionSize {α : Type} (size : α → Nat) : Option α → Nat
  | none => 1
  | some a => 1 + size a

def vecSize {α : Type} (size : α → Nat) (l : List α) : Nat := 8 + (l.map size).sum

def ColumnRef.serializedSize (column : ColumnRef) : Nat :=
  stringSize column.datasourceId + optionSize stringSize column.schema +
    stringSize column.tableName + stringSize column.columnName + stringSize column.dataType

def TransformationType.serializedSize : TransformationType → Nat
  | .DirectCopy | .SqlExpression | .Conditional => 4
  | .UdfTransformation text | .MathOperation text | .DateTimeOperation text | .Lookup text
  | .Custom text => 4 + stringSize text
  | .Aggregation function groupBy =>
    4 + stringSize function + optionSize (vecSize stringSize) groupBy
  | .Join joinType joinCondition => 4 + stringSize joinType + stringSize joinCondition
  | .TypeCast fromType toType => 4 + stringSize fromType + stringSize toType
  | .Concatenation separator => 4 + optionSize stringSize separator
  | .Substring _ length => 4 + 4 + optionSize (fun _ => 4) length
  | .MlTransformation modelId modelVersion => 4 + stringSize modelId + stringSize modelVersion

def SerializableColumnLineageEvent.serializedSize (event : SerializableColumnLineageEvent F) : Nat :=
  stringSize event.id + vecSize ColumnRef.serializedSize event.sourceColumns +
    event.targetColumn.serializedSize + stringSize event.transformationLogic +
    event.transformationType.serializedSize + stringSize event.jobId +
    optionSize stringSize event.workflowId + stringSize event.tenantId + stringSize event.createdAt +
    optionSize (fun _ => 8) event.confidence + stringSize event.createdBy +
    optionSize stringSize event.metadataJson

/-! ## Stored lists -/

/-- A list of events in the binary format, which is compressed when it is long. -/
inductive StoredEvents (F : Type) where
  | plain (events : List (SerializableColumnLineageEvent F))
  | compressed (events : List (SerializableColumnLineageEvent F))

namespace StoredEvents

def encode (events : List (SerializableColumnLineageEvent F)) : StoredEvents F :=
  if 1024 < vecSize SerializableColumnLineageEvent.serializedSize events then .compressed events
  else .plain events

def decode : StoredEvents F → List (SerializableColumnLineageEvent F)
  | .plain events => events
  | .compressed events => events

/-- What the search reads. It tries a versioned list first, and takes the number of events for the number
of the version; then a list of `ColumnLineageEvent`, which has JSON values where the stored events have
texts, and these cannot be read. The first bytes of a compressed list are a number of events that no value
is long enough for. -/
def decodeAsEvents : StoredEvents F → Option (List (ColumnLineageEvent F J))
  | .plain events => events.mapM fun event =>
    if event.metadataJson.isNone then some (event.withMetadata none) else none
  | .compressed _ => none

@[simp] theorem decode_encode (events : List (SerializableColumnLineageEvent F)) :
    (encode events).decode = events := by
  unfold encode
  split_ifs <;> rfl

end StoredEvents

/-! ## The store -/

/-- `VersionedData<Vec<ColumnRef>>` and `Vec<ColumnRef>` are collected from hash sets, in any order. -/
structure ColumnLineageStore (F J : Type) where
  byColumn : BTreeMap String (StoredEvents F)
  byTable : BTreeMap String (Finset ColumnRef)
  byTransformType : BTreeMap String (Finset ColumnRef)
  byJob : BTreeMap String (List (ColumnLineageEvent F J))
  byWorkflow : BTreeMap String (List (ColumnLineageEvent F J))
  derivedColumns : BTreeMap String (Finset ColumnRef)
  byTenant : BTreeMap String (Finset ColumnRef)
  bySourceColumn : BTreeMap String (List ColumnRef)

inductive ColumnStoreError where
  | FailedToConvert
  | FailedToDeserialize
  deriving DecidableEq

def columnSets (entries : List (String × ColumnRef)) : BTreeMap String (Finset ColumnRef) :=
  entries.foldl (fun sets entry =>
    sets.upsert entry.1 fun columns => insert entry.2 (columns.getD ∅)) .empty

def recordLists {R : Type} (entries : List (String × R)) : BTreeMap String (List R) :=
  entries.foldl (fun lists entry =>
    lists.upsert entry.1 fun records => records.getD [] ++ [entry.2]) .empty

def mergeColumns (index sets : BTreeMap String (Finset ColumnRef)) :
    BTreeMap String (Finset ColumnRef) :=
  sets.entries.foldl (fun written entry =>
    written.insert entry.1 (entry.2 ∪ (index.get entry.1).getD ∅)) index

def overwriteLists {R : Type} (index lists : BTreeMap String (List R)) : BTreeMap String (List R) :=
  lists.entries.foldl (fun written entry => written.insert entry.1 entry.2) index

def dedupByName (columns : List ColumnRef) : List ColumnRef :=
  (columns.mergeSort fun a b => a.fullyQualifiedName ≤ b.fullyQualifiedName).destutter
    fun a b => a.fullyQualifiedName ≠ b.fullyQualifiedName

def appendTargets (index lists : BTreeMap String (List ColumnRef)) :
    BTreeMap String (List ColumnRef) :=
  lists.entries.foldl (fun written entry =>
    written.insert entry.1 (dedupByName ((index.get entry.1).getD [] ++ entry.2))) index

def sourceEntries (events : List (ColumnLineageEvent F J)) : List (String × ColumnRef) :=
  events.flatMap fun event => event.sourceColumns.map fun source =>
    (source.fullyQualifiedName, event.targetColumn)

def workflowEntries (events : List (ColumnLineageEvent F J)) :
    List (String × ColumnLineageEvent F J) :=
  events.flatMap fun event => (event.workflowId.map fun workflowId => (workflowId, event)).toList

namespace ColumnLineageStore

variable [TextCodec J]

def new : ColumnLineageStore F J :=
  ⟨.empty, .empty, .empty, .empty, .empty, .empty, .empty, .empty⟩

variable (store : ColumnLineageStore F J)

def appended (event : ColumnLineageEvent F J) : StoredEvents F :=
  .encode (((store.byColumn.get event.targetColumn.fullyQualifiedName).map StoredEvents.decode).getD [] ++
    [.ofEvent event])

/-- `write_events_internal`; the reads see the store as it is before the batch is written. -/
def recordColumnLineageBatch (events : List (ColumnLineageEvent F J)) : ColumnLineageStore F J :=
  if events = [] then store
  else {
    byColumn := events.foldl (fun written event =>
      written.insert event.targetColumn.fullyQualifiedName (store.appended event)) store.byColumn
    byTable := mergeColumns store.byTable
      (columnSets (events.map fun event => (event.targetColumn.tableKey, event.targetColumn)))
    byTransformType := mergeColumns store.byTransformType
      (columnSets (events.map fun event =>
        (encodeTransformType event.transformationType, event.targetColumn)))
    byJob := overwriteLists store.byJob (recordLists (events.map fun event => (event.jobId, event)))
    byWorkflow := overwriteLists store.byWorkflow (recordLists (workflowEntries events))
    derivedColumns := mergeColumns store.derivedColumns (columnSets (sourceEntries events))
    byTenant := mergeColumns store.byTenant
      (columnSets (events.map fun event => (event.tenantId, event.targetColumn)))
    bySourceColumn := appendTargets store.bySourceColumn (recordLists (sourceEntries events)) }

def eventsFromSource (column : ColumnRef) (targets : List ColumnRef) : List (ColumnLineageEvent F J) :=
  targets.flatMap fun target =>
    match store.byColumn.get target.fullyQualifiedName with
    | none => []
    | some stored => (stored.decode.filterMap SerializableColumnLineageEvent.tryInto).filter fun event =>
      event.sourceColumns.any fun source => source.fullyQualifiedName = column.fullyQualifiedName

def getColumnLineage (column : ColumnRef) : Except ColumnStoreError (List (ColumnLineageEvent F J)) :=
  match store.byColumn.get column.fullyQualifiedName with
  | some stored =>
    match stored.decode.mapM SerializableColumnLineageEvent.tryInto with
    | some events => .ok events
    | none => .error .FailedToConvert
  | none =>
    match store.bySourceColumn.get column.fullyQualifiedName with
    | some targets => .ok (store.eventsFromSource column targets)
    | none => .ok []

def findColumnsByTransformation (transformationType : TransformationType) : Finset ColumnRef :=
  (store.byTransformType.get (encodeTransformType transformationType)).getD ∅

def getDerivedColumns (source : ColumnRef) : Finset ColumnRef :=
  (store.derivedColumns.get source.fullyQualifiedName).getD ∅

/-- `contains`. -/
def containsText (text pattern : String) : Bool := decide (pattern.toList <:+: text.toList)

def searchColumnLineage (pattern : String) :
    Except ColumnStoreError (List (ColumnLineageEvent F J)) :=
  match (store.byColumn.entries.filter fun entry => containsText entry.1 pattern).mapM
      fun entry => entry.2.decodeAsEvents with
  | some lists => .ok lists.flatten
  | none => .error .FailedToDeserialize

end ColumnLineageStore

/-! ## Runs of calls -/

section Runs

variable [TextCodec J]

def columnStoreAfter (calls : List (List (ColumnLineageEvent F J))) : ColumnLineageStore F J :=
  calls.foldl ColumnLineageStore.recordColumnLineageBatch .new

theorem columnStoreAfter_concat (calls : List (List (ColumnLineageEvent F J)))
    (call : List (ColumnLineageEvent F J)) : columnStoreAfter (calls ++ [call]) =
      (columnStoreAfter calls).recordColumnLineageBatch call := List.foldl_concat ..

/-! ## What the lists have -/

abbrev ColumnLineageEvent.name (event : ColumnLineageEvent F J) : String :=
  event.targetColumn.fullyQualifiedName

open ColumnLineageStore

theorem get_byColumn (calls : List (List (ColumnLineageEvent F J))) (name : String) :
    (columnStoreAfter calls).byColumn.get name =
      if survivors (·.name) name calls = [] then none
      else some (.encode ((survivors (·.name) name calls).map .ofEvent)) := by
  induction calls using List.reverseRecOn with
  | nil => rfl
  | append_singleton calls call ih =>
    rw [columnStoreAfter_concat, survivors_concat]
    by_cases hcall : call = []
    · subst hcall
      rw [recordColumnLineageBatch, if_pos rfl, ih]
      simp [lastUnder]
    · rw [recordColumnLineageBatch, if_neg hcall]
      change (call.foldl (fun written (event : ColumnLineageEvent F J) => written.insert event.name
        ((columnStoreAfter calls).appended event)) (columnStoreAfter calls).byColumn).get name = _
      rw [get_foldl_insert]
      cases hlast : lastUnder (·.name) name call with
      | none => simpa using ih
      | some last =>
        obtain ⟨-, hname⟩ := mem_of_lastUnder hlast
        have hstored : (((columnStoreAfter calls).byColumn.get last.name).map
            StoredEvents.decode).getD [] = (survivors (·.name) name calls).map .ofEvent := by
          rw [hname, ih]
          split_ifs with hnil
          · rw [hnil]
            rfl
          · simp
        rw [Option.map_some, Option.some_or, appended, hstored, Option.toList_some,
          if_neg (List.append_ne_nil_of_right_ne_nil _ (List.cons_ne_nil _ _)), List.map_append]
        rfl

/-! ## What the sets have -/

variable {column : ColumnRef}

theorem mem_columnSets {entries : List (String × ColumnRef)} {key : String} :
    column ∈ ((columnSets entries).get key).getD ∅ ↔ (key, column) ∈ entries := by
  induction entries using List.reverseRecOn with
  | nil => exact iff_of_false (Finset.notMem_empty _) List.not_mem_nil
  | append_singleton entries entry ih =>
    rw [columnSets, List.foldl_append, List.foldl_cons, List.foldl_nil, BTreeMap.get_upsert,
      List.mem_append, List.mem_singleton]
    split_ifs with hkey
    · subst hkey
      rw [Option.getD_some, Finset.mem_insert, or_comm]
      refine or_congr ih ?_
      exact ⟨fun h => Prod.ext rfl h, fun h => congrArg Prod.snd h⟩
    · refine ih.trans (or_iff_left fun heq => hkey ?_).symm
      exact congrArg Prod.fst heq

theorem mem_mergeColumns {index sets : BTreeMap String (Finset ColumnRef)} {key : String} :
    column ∈ ((mergeColumns index sets).get key).getD ∅ ↔
      column ∈ (sets.get key).getD ∅ ∨ column ∈ (index.get key).getD ∅ := by
  have hget : (mergeColumns index sets).get key = (sets.get key).elim (index.get key)
      fun columns => some (columns ∪ (index.get key).getD ∅) :=
    BTreeMap.get_foldl_upsert (fun entry _ => entry.2 ∪ (index.get entry.1).getD ∅) sets.sorted
      index key
  rw [hget]
  cases sets.get key with
  | none => simp
  | some columns => simp

theorem mem_index_run {C : Type} (index : List C → BTreeMap String (Finset ColumnRef))
    (entries : C → List (String × ColumnRef)) (hnil : index [] = .empty)
    (hconcat : ∀ calls call, index (calls ++ [call]) =
      mergeColumns (index calls) (columnSets (entries call)))
    {calls : List C} {key : String} :
    column ∈ ((index calls).get key).getD ∅ ↔ ∃ call ∈ calls, (key, column) ∈ entries call := by
  induction calls using List.reverseRecOn with
  | nil =>
    rw [hnil]
    exact iff_of_false (Finset.notMem_empty _) fun ⟨_, hcall, _⟩ => nomatch hcall
  | append_singleton calls call ih =>
    rw [hconcat, mem_mergeColumns, mem_columnSets, ih]
    simp only [List.mem_append, List.mem_singleton, or_and_right, exists_or, exists_eq_left]
    exact or_comm

variable {calls : List (List (ColumnLineageEvent F J))}

theorem mem_getDerivedColumns {source column : ColumnRef} :
    column ∈ (columnStoreAfter calls).getDerivedColumns source ↔
      ∃ event ∈ calls.flatten, ∃ source' ∈ event.sourceColumns,
        source'.fullyQualifiedName = source.fullyQualifiedName ∧ event.targetColumn = column := by
  unfold getDerivedColumns
  rw [mem_index_run (fun calls : List (List (ColumnLineageEvent F J)) =>
    (columnStoreAfter calls).derivedColumns) sourceEntries rfl fun calls call => ?_]
  · simp only [sourceEntries, List.mem_flatMap, List.mem_map, Prod.mk.injEq, List.mem_flatten]
    constructor
    · rintro ⟨call, hcall, event, hevent, source', hsource, hname, htarget⟩
      exact ⟨event, ⟨call, hcall, hevent⟩, source', hsource, hname, htarget⟩
    · rintro ⟨event, ⟨call, hcall, hevent⟩, source', hsource, hname, htarget⟩
      exact ⟨call, hcall, event, hevent, source', hsource, hname, htarget⟩
  · rw [columnStoreAfter_concat, recordColumnLineageBatch]
    split_ifs with hcall
    · subst hcall
      rfl
    · rfl

theorem mem_findColumnsByTransformation
    {transformationType : TransformationType} :
    column ∈ (columnStoreAfter calls).findColumnsByTransformation transformationType ↔
      ∃ event ∈ calls.flatten, encodeTransformType event.transformationType =
        encodeTransformType transformationType ∧ event.targetColumn = column := by
  unfold findColumnsByTransformation
  rw [mem_index_run (fun calls : List (List (ColumnLineageEvent F J)) =>
    (columnStoreAfter calls).byTransformType) (fun events => events.map fun event =>
      (encodeTransformType event.transformationType, event.targetColumn)) rfl fun calls call => ?_]
  · simp only [List.mem_map, Prod.mk.injEq, List.mem_flatten]
    constructor
    · rintro ⟨call, hcall, event, hevent, hname, htarget⟩
      exact ⟨event, ⟨call, hcall, hevent⟩, hname, htarget⟩
    · rintro ⟨event, ⟨call, hcall, hevent⟩, hname, htarget⟩
      exact ⟨call, hcall, event, hevent, hname, htarget⟩
  · rw [columnStoreAfter_concat, recordColumnLineageBatch]
    split_ifs with hcall
    · subst hcall
      rfl
    · rfl

/-! ## Complete answers -/

/-- What is asked: about a column, a source column, a kind of transformation, a pattern, and whether two
columns are told apart. -/
structure ColumnQuery where
  column : ColumnRef
  source : ColumnRef
  transformationType : TransformationType
  pattern : String
  first : ColumnRef
  second : ColumnRef

/-- The store answers with all events of the calls that are asked for. -/
structure AnswersCompletely (calls : List (List (ColumnLineageEvent F J))) (query : ColumnQuery) :
    Prop where
  lineage : (∃ event ∈ calls.flatten, event.targetColumn = query.column) →
    ∃ events, (columnStoreAfter calls).getColumnLineage query.column = .ok events ∧
      events.Perm (calls.flatten.filter fun event => event.targetColumn = query.column)
  derived : ∀ column, column ∈ (columnStoreAfter calls).getDerivedColumns query.source ↔
    ∃ event ∈ calls.flatten, query.source ∈ event.sourceColumns ∧ event.targetColumn = column
  transformation : ∀ event ∈ calls.flatten, event.transformationType = query.transformationType →
    event.targetColumn ∈
      (columnStoreAfter calls).findColumnsByTransformation query.transformationType
  search : ∃ events, (columnStoreAfter calls).searchColumnLineage query.pattern = .ok events ∧
    (calls.flatten.filter fun event => ColumnLineageStore.containsText
      event.targetColumn.fullyQualifiedName query.pattern).Subperm events
  keys : query.first ≠ query.second →
    query.first.fullyQualifiedName ≠ query.second.fullyQualifiedName

/-- Calls and names that keep what is asked for apart: of the events under the column's name each call has
one, of the column, and no later one of another; a column derived from one with the source's name is
derived from the source; no call has two events under one name with the pattern, whose list is short and
without metadata; and the two columns do not have the same pieces between dots. -/
structure KeptApart (calls : List (List (ColumnLineageEvent F J))) (query : ColumnQuery) : Prop where
  lineage : (∃ event ∈ calls.flatten, event.targetColumn = query.column) →
    ∀ call ∈ calls, ∀ last ∈ lastUnder (·.name) query.column.fullyQualifiedName call,
      last.targetColumn = query.column ∧
        call.countP (fun event => event.targetColumn = query.column) = 1
  derived : ∀ event ∈ calls.flatten, ∀ source ∈ event.sourceColumns,
    source.fullyQualifiedName = query.source.fullyQualifiedName →
      ∃ event' ∈ calls.flatten, query.source ∈ event'.sourceColumns ∧
        event'.targetColumn = event.targetColumn
  search : ∀ name, ColumnLineageStore.containsText name query.pattern →
    (∀ call ∈ calls, call.countP (fun event => event.name = name) ≤ 1) ∧
    vecSize SerializableColumnLineageEvent.serializedSize
      ((calls.flatten.filter fun event => event.name = name).map .ofEvent) ≤ 1024 ∧
    ∀ event ∈ calls.flatten, event.name = name → event.metadata = none
  keys : query.first ≠ query.second → query.first.pieces ≠ query.second.pieces

/-! ## The lineage of a column -/

theorem mapM_eq {α β : Type} {f : α → Option β} {p : α → Prop} [DecidablePred p] {g : α → β}
    {l : List α} (h : ∀ a ∈ l, f a = if p a then some (g a) else none) :
    l.mapM f = if ∀ a ∈ l, p a then some (l.map g) else none := by
  induction l with
  | nil => rfl
  | cons a l ih =>
    rw [List.mapM_cons, h a (List.mem_cons_self ..), ih fun b hb => h b (List.mem_cons_of_mem _ hb)]
    simp only [List.forall_mem_cons]
    by_cases ha : p a
    · by_cases hl : ∀ b ∈ l, p b
      · simp only [if_pos ha, if_pos hl, if_pos (And.intro ha hl)]
        rfl
      · simp only [if_pos ha, if_neg hl, if_neg fun hall : p a ∧ ∀ b ∈ l, p b => hl hall.2]
        rfl
    · simp only [if_neg ha, if_neg fun hall : p a ∧ ∀ b ∈ l, p b => ha hall.1]
      rfl

theorem mapM_tryInto {events : List (ColumnLineageEvent F J)}
    (h : ∀ event ∈ events, event.MetadataReadsBack) :
    (events.map SerializableColumnLineageEvent.ofEvent).mapM
      SerializableColumnLineageEvent.tryInto = some events := by
  have hmapM := mapM_eq (f := fun event : ColumnLineageEvent F J =>
    (SerializableColumnLineageEvent.ofEvent event).tryInto) (p := fun _ => True) (g := id)
    (l := events) fun event hevent => by
      rw [if_pos trivial, SerializableColumnLineageEvent.tryInto_ofEvent (h event hevent), id]
  rw [if_pos fun _ _ => trivial, List.map_id] at hmapM
  rw [List.mapM_map]
  exact hmapM

variable (hreads : ∀ event ∈ calls.flatten, event.MetadataReadsBack)

include hreads

/-- What the calls leave of events whose metadata reads back is read as it was recorded. -/
theorem mapM_survivors (name : String) :
    ((survivors (·.name) name calls).map SerializableColumnLineageEvent.ofEvent).mapM
      SerializableColumnLineageEvent.tryInto = some (survivors (·.name) name calls) :=
  mapM_tryInto fun event hevent => hreads event (mem_survivors hevent).1

theorem getColumnLineage_of_mem (h : ∃ event ∈ calls.flatten, event.targetColumn = column) :
    (columnStoreAfter calls).getColumnLineage column =
      .ok (survivors (·.name) column.fullyQualifiedName calls) := by
  obtain ⟨event, hevent, rfl⟩ := h
  have hne : survivors (·.name) event.targetColumn.fullyQualifiedName calls ≠ [] := fun hnil =>
    survivors_eq_nil_iff.mp hnil event hevent rfl
  unfold getColumnLineage
  rw [get_byColumn, if_neg hne]
  simp only [StoredEvents.decode_encode, mapM_survivors hreads]

theorem lineage_iff (h : ∃ event ∈ calls.flatten, event.targetColumn = column) :
    (∃ events, (columnStoreAfter calls).getColumnLineage column = .ok events ∧
      events.Perm (calls.flatten.filter fun event => event.targetColumn = column)) ↔
      ∀ call ∈ calls, ∀ last ∈ lastUnder (·.name) column.fullyQualifiedName call,
        last.targetColumn = column ∧
          call.countP (fun event => event.targetColumn = column) = 1 := by
  rw [getColumnLineage_of_mem hreads h, ← perm_survivors_iff fun event heq => congrArg _ heq]
  simp only [Except.ok.injEq, exists_eq_left']

/-! ## The search -/

omit hreads

theorem decodeAsEvents_encode (events : List (ColumnLineageEvent F J)) :
    (StoredEvents.encode (events.map .ofEvent)).decodeAsEvents =
      if vecSize SerializableColumnLineageEvent.serializedSize
          (events.map SerializableColumnLineageEvent.ofEvent) ≤ 1024 ∧
        ∀ event ∈ events, event.metadata = none then some events else none := by
  have hread : ∀ event : ColumnLineageEvent F J,
      (if (SerializableColumnLineageEvent.ofEvent event).metadataJson.isNone then
        some ((SerializableColumnLineageEvent.ofEvent event).withMetadata none) else none) =
        if event.metadata = none then some (id event) else none := by
    rintro ⟨_, _, _, _, _, _, _, _, _, _, _, metadata⟩
    cases metadata <;> rfl
  unfold StoredEvents.encode
  split_ifs with hlong hall hall
  · exact absurd hall.1 (Nat.not_le.mpr hlong)
  · rfl
  all_goals
    rw [StoredEvents.decodeAsEvents, List.mapM_map]
    refine (mapM_eq fun event _ => hread event).trans ?_
  · rw [if_pos hall.2, List.map_id]
  · exact if_neg fun hnone => hall ⟨Nat.not_lt.mp hlong, hnone⟩

def Searchable (calls : List (List (ColumnLineageEvent F J))) (name : String) : Prop :=
  vecSize SerializableColumnLineageEvent.serializedSize
      ((survivors (·.name) name calls).map SerializableColumnLineageEvent.ofEvent) ≤ 1024 ∧
    ∀ event ∈ survivors (·.name) name calls, event.metadata = none

instance (calls : List (List (ColumnLineageEvent F J))) (name : String) :
    Decidable (Searchable calls name) := inferInstanceAs (Decidable (_ ∧ _))

def foundNames (calls : List (List (ColumnLineageEvent F J))) (pattern : String) : List String :=
  (columnStoreAfter calls).byColumn.keys.filter fun name => ColumnLineageStore.containsText name pattern

theorem nodup_foundNames (calls : List (List (ColumnLineageEvent F J))) (pattern : String) :
    (foundNames calls pattern).Nodup := (BTreeMap.nodup_keys _).filter _

theorem mem_foundNames {pattern name : String} :
    name ∈ foundNames calls pattern ↔ survivors (·.name) name calls ≠ [] ∧
      ColumnLineageStore.containsText name pattern := by
  rw [foundNames, List.mem_filter, BTreeMap.mem_keys]
  simp only [get_byColumn]
  refine and_congr_left fun _ => ?_
  split_ifs with hnil
  · exact iff_of_false nofun fun hne => hne hnil
  · exact iff_of_true ⟨_, rfl⟩ hnil

theorem searchColumnLineage_eq (calls : List (List (ColumnLineageEvent F J))) (pattern : String) :
    (columnStoreAfter calls).searchColumnLineage pattern =
      if ∀ name ∈ foundNames calls pattern, Searchable calls name then
        .ok ((foundNames calls pattern).flatMap fun name => survivors (·.name) name calls)
      else .error .FailedToDeserialize := by
  have hread : ∀ entry ∈ (columnStoreAfter calls).byColumn.entries.filter fun entry =>
      containsText entry.1 pattern, entry.2.decodeAsEvents =
        if Searchable calls entry.1 then some (survivors (·.name) entry.1 calls) else none := by
    intro entry hentry
    have hget := BTreeMap.mem_entries_iff.mp (List.mem_filter.mp hentry).1
    rw [get_byColumn] at hget
    split_ifs at hget
    rw [← Option.some.inj hget, decodeAsEvents_encode]
    rfl
  have hnames : foundNames calls pattern = ((columnStoreAfter calls).byColumn.entries.filter
      fun entry => containsText entry.1 pattern).map (·.1) := by
    rw [foundNames, BTreeMap.keys, List.filter_map]
    rfl
  rw [searchColumnLineage, mapM_eq hread, hnames]
  simp only [List.forall_mem_map, List.flatMap_map]
  split_ifs with hall
  · rfl
  · rfl

theorem survivors_eq_of_subperm {pattern name : String}
    (hname : ColumnLineageStore.containsText name pattern)
    (hsub : (calls.flatten.filter fun event => ColumnLineageStore.containsText event.name pattern).Subperm
      ((foundNames calls pattern).flatMap fun name => survivors (·.name) name calls)) :
    survivors (·.name) name calls = calls.flatten.filter fun event => event.name = name := by
  refine (sublist_survivors calls).eq_of_length_le ?_
  have hfilter := hsub.filter fun event : ColumnLineageEvent F J => decide (event.name = name)
  have hleft : ((calls.flatten.filter fun event =>
      containsText event.name pattern).filter fun event => decide (event.name = name)) =
        calls.flatten.filter fun event => event.name = name := by
    rw [List.filter_filter]
    refine List.filter_congr fun event _ => ?_
    rw [Bool.and_eq_left_iff_imp, decide_eq_true_eq]
    rintro rfl
    exact hname
  have hright := filter_flatMap_key (fun event : ColumnLineageEvent F J => event.name)
    (nodup_foundNames calls pattern) (fun name => survivors (·.name) name calls)
    (fun name event hevent => (mem_survivors hevent).2) name
  rw [hleft, hright] at hfilter
  refine hfilter.length_le.trans ?_
  split_ifs
  · exact le_refl _
  · exact Nat.zero_le _

theorem search_iff (calls : List (List (ColumnLineageEvent F J))) (pattern : String) :
    (∃ events, (columnStoreAfter calls).searchColumnLineage pattern = .ok events ∧
      (calls.flatten.filter fun event =>
        ColumnLineageStore.containsText event.name pattern).Subperm events) ↔
      ∀ name, ColumnLineageStore.containsText name pattern →
        (∀ call ∈ calls, call.countP (fun event => event.name = name) ≤ 1) ∧
        vecSize SerializableColumnLineageEvent.serializedSize
          ((calls.flatten.filter fun event => event.name = name).map .ofEvent) ≤ 1024 ∧
        ∀ event ∈ calls.flatten, event.name = name → event.metadata = none := by
  rw [searchColumnLineage_eq]
  constructor
  · rintro ⟨events, hok, hsub⟩ name hname
    split_ifs at hok with hall
    cases hok
    have hsame := survivors_eq_of_subperm hname hsub
    refine ⟨survivors_eq_iff.mp hsame, ?_⟩
    have hsearchable : Searchable calls name := by
      by_cases hnil : survivors (·.name) name calls = []
      · unfold Searchable
        rw [hnil]
        exact ⟨by simp [vecSize], fun event hevent => nomatch hevent⟩
      · exact hall name (mem_foundNames.mpr ⟨hnil, hname⟩)
    unfold Searchable at hsearchable
    rw [hsame] at hsearchable
    refine ⟨hsearchable.1, fun event hevent hkey => ?_⟩
    exact hsearchable.2 event (List.mem_filter.mpr ⟨hevent, decide_eq_true hkey⟩)
  · intro hall
    have hsame : ∀ name, containsText name pattern →
        survivors (·.name) name calls = calls.flatten.filter fun event => event.name = name :=
      fun name hname => survivors_eq_iff.mpr (hall name hname).1
    refine ⟨_, if_pos fun name hname => ?_, ?_⟩
    · have hpattern := (mem_foundNames.mp hname).2
      unfold Searchable
      rw [hsame name hpattern]
      refine ⟨(hall name hpattern).2.1, fun event hevent => ?_⟩
      obtain ⟨hmem, hkey⟩ := List.mem_filter.mp hevent
      exact (hall name hpattern).2.2 event hmem (of_decide_eq_true hkey)
    · have hperm := perm_flatMap_filter (fun event : ColumnLineageEvent F J => event.name)
        (nodup_foundNames calls pattern) (l := calls.flatten.filter fun event =>
          containsText event.name pattern) fun event hevent => by
        obtain ⟨hmem, hpattern⟩ := List.mem_filter.mp hevent
        refine mem_foundNames.mpr ⟨fun hnil => ?_, hpattern⟩
        exact survivors_eq_nil_iff.mp hnil event hmem rfl
      refine (hperm.trans (List.Perm.of_eq ?_)).subperm
      refine List.flatMap_congr fun name hname => ?_
      have hpattern := (mem_foundNames.mp hname).2
      rw [hsame name hpattern, List.filter_filter]
      refine List.filter_congr fun event _ => ?_
      rw [Bool.and_eq_left_iff_imp, decide_eq_true_eq]
      rintro rfl
      exact hpattern

/-! ## All answers -/

theorem derived_iff (calls : List (List (ColumnLineageEvent F J))) (source : ColumnRef) :
    (∀ column, column ∈ (columnStoreAfter calls).getDerivedColumns source ↔
      ∃ event ∈ calls.flatten, source ∈ event.sourceColumns ∧ event.targetColumn = column) ↔
      ∀ event ∈ calls.flatten, ∀ source' ∈ event.sourceColumns,
        source'.fullyQualifiedName = source.fullyQualifiedName →
          ∃ event' ∈ calls.flatten, source ∈ event'.sourceColumns ∧
            event'.targetColumn = event.targetColumn := by
  simp only [mem_getDerivedColumns]
  constructor
  · intro hexact event hevent source' hsource hname
    exact (hexact event.targetColumn).mp ⟨event, hevent, source', hsource, hname, rfl⟩
  · intro happart column
    constructor
    · rintro ⟨event, hevent, source', hsource, hname, rfl⟩
      exact happart event hevent source' hsource hname
    · rintro ⟨event, hevent, hsource, rfl⟩
      exact ⟨event, hevent, source, hsource, rfl, rfl⟩

/-- **When the store answers completely**, where the metadata that is recorded reads back. -/
theorem answersCompletely_iff (hreads : ∀ event ∈ calls.flatten, event.MetadataReadsBack)
    (query : ColumnQuery) : AnswersCompletely calls query ↔ KeptApart calls query := by
  constructor
  · intro hcomplete
    exact {
      lineage := fun hmem => (lineage_iff hreads hmem).mp (hcomplete.lineage hmem)
      derived := (derived_iff calls query.source).mp hcomplete.derived
      search := (search_iff calls query.pattern).mp hcomplete.search
      keys := fun hne hpieces =>
        hcomplete.keys hne (ColumnRef.fullyQualifiedName_inj.mpr hpieces) }
  · intro happart
    exact {
      lineage := fun hmem => (lineage_iff hreads hmem).mpr (happart.lineage hmem)
      derived := (derived_iff calls query.source).mpr happart.derived
      transformation := fun event hevent htype =>
        mem_findColumnsByTransformation.mpr ⟨event, hevent, congrArg _ htype, rfl⟩
      search := (search_iff calls query.pattern).mpr happart.search
      keys := fun hne hname => happart.keys hne (ColumnRef.fullyQualifiedName_inj.mp hname) }

end Runs

def ordersTotal : ColumnRef := ⟨"shop", none, "orders", "total", "INTEGER"⟩

def copyInto (id : String) (target : ColumnRef) : ColumnLineageEvent Unit Bool where
  id := id
  sourceColumns := [⟨"shop", none, "items", "price", "INTEGER"⟩]
  targetColumn := target
  transformationLogic := "SUM(price)"
  transformationType := .Aggregation "SUM" none
  jobId := "nightly"
  workflowId := none
  tenantId := "acme"
  createdAt := "2025-01-01T00:00:00Z"
  confidence := none
  createdBy := "system"
  metadata := none

/-- Two events of one column in one call: the first is lost. -/
theorem twoEvents_not_complete : ¬ ∀ query : ColumnQuery,
    AnswersCompletely [[copyInto "e1" ordersTotal, copyInto "e2" ordersTotal]] query := by
  intro hcomplete
  have hlineage := (hcomplete ⟨ordersTotal, ordersTotal, .Conditional, "x", ordersTotal, ordersTotal⟩).lineage
    ⟨copyInto "e1" ordersTotal, by decide, rfl⟩
  have hcount := ((lineage_iff (by decide) ⟨copyInto "e1" ordersTotal, by decide, rfl⟩).mp hlineage _
    (List.mem_singleton_self _) (copyInto "e2" ordersTotal) rfl).2
  exact absurd hcount (by decide)

def ordersNote : ColumnRef := ⟨"shop", none, "orders", "note", "VARCHAR"⟩

def notedCalls : List (List (ColumnLineageEvent Unit Bool)) :=
  [[{ copyInto "e1" ordersTotal with metadata := some true }, copyInto "n1" ordersNote],
    [copyInto "n2" ordersNote, copyInto "e2" ordersTotal]]

/-- Each call has one event of each column; the totals have metadata, and the notes are searched for. -/
theorem notedCalls_complete : AnswersCompletely notedCalls
    ⟨ordersTotal, ⟨"shop", none, "items", "price", "INTEGER"⟩, .Aggregation "SUM" none, "note",
      ordersTotal, ordersNote⟩ := by
  refine (answersCompletely_iff (by decide) _).mpr ⟨fun _ => by decide, by decide, fun name hname => ?_,
    by decide⟩
  have hother : ∀ event ∈ notedCalls.flatten, event.name = name → name = ordersNote.fullyQualifiedName := by
    rintro event hevent rfl
    revert event
    decide
  by_cases hnote : name = ordersNote.fullyQualifiedName
  · subst hnote
    exact ⟨by decide, by decide, by decide⟩
  · have hnone : ∀ event ∈ notedCalls.flatten, event.name ≠ name := fun event hevent heq =>
      hnote (hother event hevent heq)
    refine ⟨fun call hcall => ?_, ?_, fun event hevent heq => absurd heq (hnone event hevent)⟩
    · rw [List.countP_eq_zero.mpr fun event hevent => by
        simpa using hnone event (List.mem_flatten_of_mem hcall hevent)]
      exact Nat.zero_le 1
    · rw [List.filter_eq_nil_iff.mpr fun event hevent => by simpa using hnone event hevent]
      simp [vecSize]

end Arcxa.Lineage
