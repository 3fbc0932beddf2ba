import Arcxa.Lib.KeyIndex
import Arcxa.Lineage.RowId

/-!
# The history of schemas

`SchemaEvolutionStore` keeps schema changes and schema versions under their ids, and lists of the ids
under textual keys: the datasource, the table, the time or the tenant, a colon, and so on to the id. A
query goes through one of these lists from the key it starts at, with `prefix_iterator_cf`, which goes on to
the end of the list. The queries for a table and a tenant stop at the first key without their prefix; those
for a datasource do not, and so return what other datasources have later in the list. The query for a
range of times goes through decimal texts as if they were in the order of the numbers, and nothing in a
name is escaped. The queries are exact for the names and times for which none of this happens
(`schemaQueries_exact_iff`).
-/

namespace Arcxa.Lineage

variable {J : Type}

/-! ## Changes and versions -/

/-- `subMilli` are the nanoseconds within the millisecond. -/
structure DateTime where
  millis : Int64
  subMilli : Fin 1000000
  deriving DecidableEq

def DateTime.toNanos (t : DateTime) : Int := t.millis.toInt * 1000000 + t.subMilli

inductive SchemaChangeType where
  | TableAdded
  | TableDropped
  | TableRenamed (oldName newName : String)
  | ColumnAdded
  | ColumnDropped
  | ColumnRenamed (oldName newName : String)
  | DataTypeChanged (oldType newType : String)
  | NullabilityChanged (oldNullable newNullable : Bool)
  | DefaultValueChanged (oldDefault newDefault : Option String)
  | PrimaryKeyAdded (columns : List String)
  | PrimaryKeyDropped (columns : List String)
  | ForeignKeyAdded (columns : List String) (referencedTable : String)
      (referencedColumns : List String)
  | ForeignKeyDropped (columns : List String) (referencedTable : String)
      (referencedColumns : List String)
  | IndexAdded (indexName : String) (columns : List String)
  | IndexDropped (indexName : String) (columns : List String)
  | ConstraintAdded (constraintName constraintType : String)
  | ConstraintDropped (constraintName constraintType : String)
  deriving DecidableEq

inductive SchemaElementType where
  | Table
  | Column
  | Index
  | Constraint
  deriving DecidableEq

/-- `J` is the type of JSON values. -/
structure SchemaElement (J : Type) where
  elementType : SchemaElementType
  name : String
  dataType : Option String
  nullable : Option Bool
  defaultValue : Option String
  position : Option Int32
  comment : Option String
  properties : Option J
  deriving DecidableEq

structure SchemaChangeEvent (J : Type) where
  id : String
  datasourceId : String
  schemaName : Option String
  tableName : String
  columnName : Option String
  changeType : SchemaChangeType
  beforeState : Option (SchemaElement J)
  afterState : Option (SchemaElement J)
  detectedAt : DateTime
  migrationScript : Option String
  migrationId : Option String
  initiatedBy : String
  tenantId : String
  isBreaking : Bool
  impactSummary : Option String
  deriving DecidableEq

structure SchemaVersion where
  versionId : String
  datasourceId : String
  schemaName : Option String
  createdAt : DateTime
  migrationId : Option String
  previousVersion : Option String
  gitCommit : Option String
  tags : List String
  deriving DecidableEq

def millisText (millis : Int64) : String := String.ofList (intDigits millis.toInt)

namespace SchemaChangeEvent

variable (event : SchemaChangeEvent J)

def readable : Bool :=
  (event.beforeState.all fun element => element.properties.isNone) &&
    event.afterState.all fun element => element.properties.isNone

def datasourceKey : String := event.datasourceId ++ ":" ++ event.id

def tableKey : String := event.datasourceId ++ ":" ++ event.tableName ++ ":" ++ event.id

def timeKey : String :=
  millisText event.detectedAt.millis ++ ":" ++ event.datasourceId ++ ":" ++ event.id

def tenantKey : String := event.tenantId ++ ":" ++ event.id

def DetectedIn (start end_ : Int64) : Prop :=
  start ≤ event.detectedAt.millis ∧ event.detectedAt.millis ≤ end_

instance (start end_ : Int64) : Decidable (event.DetectedIn start end_) :=
  inferInstanceAs (Decidable (_ ∧ _))

end SchemaChangeEvent

def SchemaVersion.datasourceKey (version : SchemaVersion) : String :=
  version.datasourceId ++ ":" ++ millisText version.createdAt.millis ++ ":" ++ version.versionId

/-! ## The store -/

inductive SchemaStoreError where
  | DeserializeFailed
  | SourceVersionNotFound (versionId : String)
  | TargetVersionNotFound (versionId : String)
  deriving DecidableEq

inductive DriftSeverity where
  | None
  | Low
  | Medium
  | High
  | Critical
  deriving DecidableEq

structure SchemaDriftAnalysis (J : Type) where
  sourceVersionId : String
  targetVersionId : String
  changes : List (SchemaChangeEvent J)
  breakingChangesCount : Nat
  nonBreakingChangesCount : Nat
  tablesAdded : Finset String
  tablesDropped : Finset String
  tablesModified : Finset String
  severity : DriftSeverity
  analyzedAt : DateTime

structure SchemaEvolutionStore (J : Type) where
  schemaEvents : BTreeMap String (SchemaChangeEvent J)
  eventsByDatasource : BTreeMap String String
  eventsByTable : BTreeMap String String
  eventsByTime : BTreeMap String String
  schemaVersions : BTreeMap String SchemaVersion
  versionsByDatasource : BTreeMap String String
  eventsByTenant : BTreeMap String String

/-- `prefix_iterator_cf`: the entries from the prefix on, whether they have it or not. -/
def prefixIterator (index : BTreeMap String String) (prefix_ : String) : List (String × String) :=
  index.entries.filter fun entry => prefix_ ≤ entry.1

def prefixRange (index : BTreeMap String String) (prefix_ : String) : List (String × String) :=
  (prefixIterator index prefix_).takeWhile fun entry => startsWith prefix_ entry.1

def idsUntil (end_ : Int64) : List (String × String) → List String
  | [] => []
  | (key, id) :: entries =>
    match parseI64 (key.toList.takeWhile (· ≠ ':')) with
    | .error _ => idsUntil end_ entries
    | .ok millis => if end_ < millis then [] else id :: idsUntil end_ entries

def driftSeverity (breakingChangesCount nonBreakingChangesCount : Nat) : DriftSeverity :=
  if breakingChangesCount = 0 then
    if nonBreakingChangesCount = 0 then .None
    else if nonBreakingChangesCount < 5 then .Low
    else .Medium
  else if breakingChangesCount < 3 then .High
  else .Critical

def tablesWith (p : SchemaChangeType → Bool) (changes : List (SchemaChangeEvent J)) :
    Finset String :=
  ((changes.filter fun change => p change.changeType).map (·.tableName)).toFinset

def SchemaDriftAnalysis.ofChanges (sourceVersionId targetVersionId : String)
    (datasourceChanges : List (SchemaChangeEvent J)) (now : DateTime) : SchemaDriftAnalysis J :=
  let breakingChangesCount := datasourceChanges.countP (·.isBreaking)
  let nonBreakingChangesCount := datasourceChanges.length - breakingChangesCount
  { sourceVersionId := sourceVersionId
    targetVersionId := targetVersionId
    changes := datasourceChanges
    breakingChangesCount := breakingChangesCount
    nonBreakingChangesCount := nonBreakingChangesCount
    tablesAdded := tablesWith (· = .TableAdded) datasourceChanges
    tablesDropped := tablesWith (· = .TableDropped) datasourceChanges
    tablesModified :=
      tablesWith (fun change => change ≠ .TableAdded ∧ change ≠ .TableDropped) datasourceChanges
    severity := driftSeverity breakingChangesCount nonBreakingChangesCount
    analyzedAt := now }

namespace SchemaEvolutionStore

def new : SchemaEvolutionStore J := ⟨.empty, .empty, .empty, .empty, .empty, .empty, .empty⟩

variable (store : SchemaEvolutionStore J)

def recordSchemaChange (event : SchemaChangeEvent J) : SchemaEvolutionStore J :=
  { store with
    schemaEvents := store.schemaEvents.insert event.id event
    eventsByDatasource := store.eventsByDatasource.insert event.datasourceKey event.id
    eventsByTable := store.eventsByTable.insert event.tableKey event.id
    eventsByTime := store.eventsByTime.insert event.timeKey event.id
    eventsByTenant := store.eventsByTenant.insert event.tenantKey event.id }

def saveSchemaVersion (version : SchemaVersion) : SchemaEvolutionStore J :=
  { store with
    schemaVersions := store.schemaVersions.insert version.versionId version
    versionsByDatasource := store.versionsByDatasource.insert version.datasourceKey version.versionId }

def getSchemaChangeEvent (id : String) :
    Except SchemaStoreError (Option (SchemaChangeEvent J)) :=
  match store.schemaEvents.get id with
  | none => .ok none
  | some event => if event.readable then .ok (some event) else .error .DeserializeFailed

def loadEvents : List String → Except SchemaStoreError (List (SchemaChangeEvent J))
  | [] => .ok []
  | id :: ids => do
    let event ← store.getSchemaChangeEvent id
    let events ← loadEvents ids
    return event.toList ++ events

def getDatasourceSchemaChanges (datasourceId : String) :
    Except SchemaStoreError (List (SchemaChangeEvent J)) :=
  store.loadEvents ((prefixIterator store.eventsByDatasource (datasourceId ++ ":")).map (·.2))

def getTableSchemaChanges (datasourceId tableName : String) :
    Except SchemaStoreError (List (SchemaChangeEvent J)) :=
  store.loadEvents
    ((prefixRange store.eventsByTable (datasourceId ++ ":" ++ tableName ++ ":")).map (·.2))

def getSchemaChangesByTimeRange (start end_ : Int64) :
    Except SchemaStoreError (List (SchemaChangeEvent J)) :=
  store.loadEvents (idsUntil end_ (prefixIterator store.eventsByTime (millisText start ++ ":")))

def getBreakingChanges (datasourceId : String) :
    Except SchemaStoreError (List (SchemaChangeEvent J)) := do
  let allChanges ← store.getDatasourceSchemaChanges datasourceId
  return allChanges.filter (·.isBreaking)

def getSchemaVersion (versionId : String) : Option SchemaVersion :=
  store.schemaVersions.get versionId

def getDatasourceSchemaVersions (datasourceId : String) : List SchemaVersion :=
  (prefixIterator store.versionsByDatasource (datasourceId ++ ":")).filterMap fun entry =>
    store.getSchemaVersion entry.2

def getLatestSchemaVersion (datasourceId : String) : Option SchemaVersion :=
  ((store.getDatasourceSchemaVersions datasourceId).mergeSort fun a b =>
    b.createdAt.toNanos ≤ a.createdAt.toNanos).head?

def analyzeSchemaDrift (sourceVersionId targetVersionId : String) (now : DateTime) :
    Except SchemaStoreError (SchemaDriftAnalysis J) :=
  match store.getSchemaVersion sourceVersionId with
  | none => .error (.SourceVersionNotFound sourceVersionId)
  | some sourceVersion =>
    match store.getSchemaVersion targetVersionId with
    | none => .error (.TargetVersionNotFound targetVersionId)
    | some targetVersion => do
      let changes ← store.getSchemaChangesByTimeRange sourceVersion.createdAt.millis
        targetVersion.createdAt.millis
      return .ofChanges sourceVersionId targetVersionId
        (changes.filter fun change => change.datasourceId = sourceVersion.datasourceId) now

def getTenantEventIds (tenantId : String) : List String :=
  (prefixRange store.eventsByTenant (tenantId ++ ":")).map (·.2)

end SchemaEvolutionStore

/-! ## Runs of calls -/

inductive SchemaCall (J : Type) where
  | recordSchemaChange (event : SchemaChangeEvent J)
  | saveSchemaVersion (version : SchemaVersion)

namespace SchemaCall

def datasourceId : SchemaCall J → String
  | .recordSchemaChange event => event.datasourceId
  | .saveSchemaVersion version => version.datasourceId

def event? : SchemaCall J → Option (SchemaChangeEvent J)
  | .recordSchemaChange event => some event
  | .saveSchemaVersion _ => none

def version? : SchemaCall J → Option SchemaVersion
  | .recordSchemaChange _ => none
  | .saveSchemaVersion version => some version

def run (store : SchemaEvolutionStore J) : SchemaCall J → SchemaEvolutionStore J
  | .recordSchemaChange event => store.recordSchemaChange event
  | .saveSchemaVersion version => store.saveSchemaVersion version

end SchemaCall

def storeAfter (calls : List (SchemaCall J)) : SchemaEvolutionStore J := calls.foldl SchemaCall.run .new

def eventsOf (calls : List (SchemaCall J)) : List (SchemaChangeEvent J) := calls.filterMap (·.event?)

def versionsOf (calls : List (SchemaCall J)) : List SchemaVersion := calls.filterMap (·.version?)

structure UniqueIds (calls : List (SchemaCall J)) : Prop where
  events : ((eventsOf calls).map (·.id)).Nodup
  versions : ((versionsOf calls).map (·.versionId)).Nodup

/-- The store's maps are indexes of the events and of the versions. -/
structure Indexes (store : SchemaEvolutionStore J) (events : List (SchemaChangeEvent J))
    (versions : List SchemaVersion) : Prop where
  schemaEvents : store.schemaEvents = keyIndex (·.id) events
  eventsByDatasource : store.eventsByDatasource =
    (keyIndex (·.datasourceKey) events).mapValues (·.id)
  eventsByTable : store.eventsByTable = (keyIndex (·.tableKey) events).mapValues (·.id)
  eventsByTime : store.eventsByTime = (keyIndex (·.timeKey) events).mapValues (·.id)
  schemaVersions : store.schemaVersions = keyIndex (·.versionId) versions
  versionsByDatasource : store.versionsByDatasource =
    (keyIndex (·.datasourceKey) versions).mapValues (·.versionId)
  eventsByTenant : store.eventsByTenant = (keyIndex (·.tenantKey) events).mapValues (·.id)

namespace Indexes

variable {store : SchemaEvolutionStore J} {events : List (SchemaChangeEvent J)}
  {versions : List SchemaVersion}

theorem recordSchemaChange (h : Indexes store events versions) (event : SchemaChangeEvent J) :
    Indexes (store.recordSchemaChange event) (events ++ [event]) versions where
  schemaEvents := by
    rw [keyIndex_concat, ← h.schemaEvents]
    rfl
  eventsByDatasource := by
    rw [keyIndex_concat, ← BTreeMap.insert_mapValues, ← h.eventsByDatasource]
    rfl
  eventsByTable := by
    rw [keyIndex_concat, ← BTreeMap.insert_mapValues, ← h.eventsByTable]
    rfl
  eventsByTime := by
    rw [keyIndex_concat, ← BTreeMap.insert_mapValues, ← h.eventsByTime]
    rfl
  schemaVersions := h.schemaVersions
  versionsByDatasource := h.versionsByDatasource
  eventsByTenant := by
    rw [keyIndex_concat, ← BTreeMap.insert_mapValues, ← h.eventsByTenant]
    rfl

theorem saveSchemaVersion (h : Indexes store events versions) (version : SchemaVersion) :
    Indexes (store.saveSchemaVersion version) events (versions ++ [version]) where
  schemaEvents := h.schemaEvents
  eventsByDatasource := h.eventsByDatasource
  eventsByTable := h.eventsByTable
  eventsByTime := h.eventsByTime
  schemaVersions := by
    rw [keyIndex_concat, ← h.schemaVersions]
    rfl
  versionsByDatasource := by
    rw [keyIndex_concat, ← BTreeMap.insert_mapValues, ← h.versionsByDatasource]
    rfl
  eventsByTenant := h.eventsByTenant

end Indexes

variable (calls : List (SchemaCall J)) (call : SchemaCall J)

theorem storeAfter_concat :
    storeAfter (calls ++ [call]) = call.run (storeAfter calls) := List.foldl_concat ..

theorem eventsOf_concat : eventsOf (calls ++ [call]) = eventsOf calls ++ call.event?.toList := by
  unfold eventsOf
  rw [List.filterMap_append]
  cases call <;> rfl

theorem versionsOf_concat :
    versionsOf (calls ++ [call]) = versionsOf calls ++ call.version?.toList := by
  unfold versionsOf
  rw [List.filterMap_append]
  cases call <;> rfl

theorem indexes_storeAfter : Indexes (storeAfter calls) (eventsOf calls) (versionsOf calls) := by
  induction calls using List.reverseRecOn with
  | nil => exact ⟨rfl, rfl, rfl, rfl, rfl, rfl, rfl⟩
  | append_singleton calls call ih =>
    rw [storeAfter_concat, eventsOf_concat, versionsOf_concat]
    cases call with
    | recordSchemaChange event =>
      rw [show (SchemaCall.recordSchemaChange event).version?.toList = [] from rfl, List.append_nil]
      exact ih.recordSchemaChange event
    | saveSchemaVersion version =>
      rw [show (SchemaCall.saveSchemaVersion (J := J) version).event?.toList = [] from rfl,
        List.append_nil]
      exact ih.saveSchemaVersion version

theorem UniqueIds.of_prefix {before calls : List (SchemaCall J)} (h : UniqueIds calls)
    (hbefore : before <+: calls) : UniqueIds before where
  events := ((hbefore.filterMap _).map _).sublist.nodup h.events
  versions := ((hbefore.filterMap _).map _).sublist.nodup h.versions

/-! ## What the scans read -/

section Scans

variable {R : Type} {key id : R → String} {records : List R}

theorem prefixIterator_keyIndex (key id : R → String) (records : List R) (prefix_ : String) :
    prefixIterator ((keyIndex key records).mapValues id) prefix_ =
      ((indexed key records).filter fun r => prefix_ ≤ key r).map fun r => (key r, id r) := by
  unfold prefixIterator
  rw [BTreeMap.entries_mapValues, entries_keyIndex, List.map_map, List.filter_map]
  rfl

theorem prefixRange_keyIndex (key id : R → String) (records : List R) (prefix_ : String) :
    prefixRange ((keyIndex key records).mapValues id) prefix_ =
      ((indexed key records).filter fun r => startsWith prefix_ (key r)).map
        fun r => (key r, id r) := by
  unfold prefixRange
  rw [prefixIterator_keyIndex, List.takeWhile_map, ← scan_prefix (sorted_indexed key records)]
  rfl

theorem startsWith_append (prefix_ rest : String) : startsWith prefix_ (prefix_ ++ rest) := by
  rw [startsWith_iff, String.toList_append]
  exact List.prefix_append ..

end Scans

theorem parseI64_timeKey (event : SchemaChangeEvent J) :
    parseI64 (event.timeKey.toList.takeWhile (· ≠ ':')) = .ok event.detectedAt.millis := by
  have hdigits : ∀ c ∈ intDigits event.detectedAt.millis.toInt, decide (c ≠ ':') = true := by
    intro c hc
    refine decide_eq_true fun heq => ?_
    subst heq
    exact not_mem_intDigits (by decide) (by decide) _ hc
  have htake : event.timeKey.toList.takeWhile (· ≠ ':') = intDigits event.detectedAt.millis.toInt := by
    unfold SchemaChangeEvent.timeKey millisText
    simp only [String.toList_append, String.toList_ofList, List.append_assoc]
    rw [List.takeWhile_append_of_pos hdigits]
    simp
  rw [htake]
  exact parseI64_intDigits _

theorem idsUntil_timeKey (end_ : Int64) (l : List (SchemaChangeEvent J)) :
    idsUntil end_ (l.map fun event => (event.timeKey, event.id)) =
      (l.takeWhile fun event => event.detectedAt.millis ≤ end_).map (·.id) := by
  induction l with
  | nil => rfl
  | cons event l ih =>
    rw [List.map_cons, idsUntil, parseI64_timeKey, List.takeWhile_cons]
    by_cases hle : event.detectedAt.millis ≤ end_
    · simp [hle, Int64.not_lt.mpr hle, ih]
    · simp [hle, Int64.not_le.mp hle]

def scanned (events : List (SchemaChangeEvent J)) (start end_ : Int64) :
    List (SchemaChangeEvent J) :=
  ((indexed (·.timeKey) events).filter fun event => millisText start ++ ":" ≤ event.timeKey).takeWhile
    fun event => event.detectedAt.millis ≤ end_

/-- The event is in the index behind the start, and what is between them is not after the end. -/
def Scanned (events : List (SchemaChangeEvent J)) (start end_ : Int64)
    (event : SchemaChangeEvent J) : Prop :=
  Kept (·.timeKey) events event ∧ millisText start ++ ":" ≤ event.timeKey ∧
    ∀ event' ∈ events, Kept (·.timeKey) events event' → millisText start ++ ":" ≤ event'.timeKey →
      event'.timeKey ≤ event.timeKey → event'.detectedAt.millis ≤ end_

instance [DecidableEq J] (events : List (SchemaChangeEvent J)) (start end_ : Int64)
    (event : SchemaChangeEvent J) : Decidable (Scanned events start end_ event) :=
  inferInstanceAs (Decidable (_ ∧ _ ∧ _))

theorem sorted_scanned (events : List (SchemaChangeEvent J)) (start end_ : Int64) :
    (scanned events start end_).Pairwise fun e e' => e.timeKey < e'.timeKey :=
  ((sorted_indexed _ events).filter _).sublist (List.takeWhile_sublist _)

theorem mem_scanned {events : List (SchemaChangeEvent J)} {start end_ : Int64}
    {event : SchemaChangeEvent J} :
    event ∈ scanned events start end_ ↔ Scanned events start end_ event := by
  unfold scanned Scanned
  rw [mem_takeWhile_iff ((sorted_indexed _ events).filter _)]
  simp only [List.mem_filter, mem_indexed, decide_eq_true_eq, and_assoc]
  refine and_congr_right fun _ => and_congr_right fun _ => ?_
  constructor
  · intro h event' _ hkept hstart hle
    exact h event' ⟨hkept, hstart⟩ hle
  · intro h event' hmem hle
    exact h event' hmem.1.mem hmem.1 hmem.2 hle

namespace SchemaEvolutionStore

variable {store store' : SchemaEvolutionStore J} {events events' : List (SchemaChangeEvent J)}
  {versions versions' : List SchemaVersion}

variable (h : Indexes store events versions)

include h

theorem loadEvents_ids (hids : (events.map (·.id)).Nodup) {l : List (SchemaChangeEvent J)}
    (hl : ∀ event ∈ l, event ∈ events) :
    store.loadEvents (l.map (·.id)) =
      if ∀ event ∈ l, event.readable then .ok l else .error .DeserializeFailed := by
  induction l with
  | nil => rfl
  | cons event l ih =>
    obtain ⟨hevent, hrest⟩ := List.forall_mem_cons.mp hl
    rw [List.map_cons, loadEvents, ih hrest, getSchemaChangeEvent, h.schemaEvents,
      get_keyIndex_of_mem hids hevent]
    simp only [List.forall_mem_cons]
    by_cases hreadable : event.readable = true
    · simp only [hreadable, true_and, if_true]
      by_cases hall : ∀ event ∈ l, event.readable = true
      · rw [if_pos hall, if_pos hall]
        rfl
      · rw [if_neg hall, if_neg hall]
        rfl
    · simp only [hreadable]
      rfl

theorem getDatasourceSchemaChanges_eq (d : String) :
    store.getDatasourceSchemaChanges d = store.loadEvents
      (((indexed (·.datasourceKey) events).filter fun e => d ++ ":" ≤ e.datasourceKey).map (·.id)) := by
  unfold getDatasourceSchemaChanges
  rw [h.eventsByDatasource, prefixIterator_keyIndex, List.map_map]
  rfl

theorem getTableSchemaChanges_eq (d t : String) :
    store.getTableSchemaChanges d t = store.loadEvents
      (((indexed (·.tableKey) events).filter
        fun e => startsWith (d ++ ":" ++ t ++ ":") e.tableKey).map (·.id)) := by
  unfold getTableSchemaChanges
  rw [h.eventsByTable, prefixRange_keyIndex, List.map_map]
  rfl

theorem getSchemaChangesByTimeRange_eq (start end_ : Int64) :
    store.getSchemaChangesByTimeRange start end_ =
      store.loadEvents ((scanned events start end_).map (·.id)) := by
  unfold getSchemaChangesByTimeRange
  rw [h.eventsByTime, prefixIterator_keyIndex, idsUntil_timeKey]
  rfl

theorem getTenantEventIds_eq (x : String) :
    store.getTenantEventIds x =
      ((indexed (·.tenantKey) events).filter fun e => startsWith (x ++ ":") e.tenantKey).map (·.id) := by
  unfold getTenantEventIds
  rw [h.eventsByTenant, prefixRange_keyIndex, List.map_map]
  rfl

theorem getSchemaVersion_of_mem (hids : (versions.map (·.versionId)).Nodup)
    {version : SchemaVersion} (hmem : version ∈ versions) :
    store.getSchemaVersion version.versionId = some version := by
  rw [getSchemaVersion, h.schemaVersions]
  exact get_keyIndex_of_mem hids hmem

theorem mem_of_getSchemaVersion {id : String} {version : SchemaVersion}
    (hget : store.getSchemaVersion id = some version) :
    version.versionId = id ∧ version ∈ versions := by
  rw [getSchemaVersion, h.schemaVersions] at hget
  obtain ⟨hid, hkept⟩ := get_keyIndex.mp hget
  exact ⟨hid, hkept.mem⟩

theorem getDatasourceSchemaVersions_eq (hids : (versions.map (·.versionId)).Nodup) (d : String) :
    store.getDatasourceSchemaVersions d =
      (indexed (·.datasourceKey) versions).filter fun v => d ++ ":" ≤ v.datasourceKey := by
  unfold getDatasourceSchemaVersions
  rw [h.versionsByDatasource, prefixIterator_keyIndex, List.filterMap_map]
  refine (List.filterMap_congr fun version hversion => ?_).trans List.filterMap_some
  exact getSchemaVersion_of_mem h hids (mem_indexed.mp (List.mem_filter.mp hversion).1).mem

end SchemaEvolutionStore

/-! ## Exact answers -/

/-- The arguments of the queries. -/
structure SchemaQuery where
  datasourceId : String
  tableName : String
  tenantId : String
  start : Int64
  end_ : Int64
  sourceVersionId : String
  targetVersionId : String
  now : DateTime

def Returns {R : Type} (answer : Except SchemaStoreError (List R)) (expected : List R) : Prop :=
  ∃ l, answer = .ok l ∧ l.Perm expected

def Newest (versions : List SchemaVersion) : Option SchemaVersion → Prop
  | none => versions = []
  | some version => version ∈ versions ∧
    ∀ other ∈ versions, other.createdAt.toNanos ≤ version.createdAt.toNanos

structure SchemaDriftAnalysis.Counts (analysis : SchemaDriftAnalysis J)
    (changes : List (SchemaChangeEvent J)) : Prop where
  changes_perm : analysis.changes.Perm changes
  breaking : analysis.breakingChangesCount = changes.countP (·.isBreaking)
  nonBreaking : analysis.nonBreakingChangesCount = changes.countP (fun change => !change.isBreaking)

/-- The store answers with the events and versions that are asked for. -/
structure AnswersExactly (store : SchemaEvolutionStore J) (events : List (SchemaChangeEvent J))
    (versions : List SchemaVersion) (query : SchemaQuery) : Prop where
  datasourceChanges : Returns (store.getDatasourceSchemaChanges query.datasourceId)
    (events.filter fun event => event.datasourceId = query.datasourceId)
  breakingChanges : Returns (store.getBreakingChanges query.datasourceId)
    (events.filter fun event => event.isBreaking ∧ event.datasourceId = query.datasourceId)
  tableChanges : Returns (store.getTableSchemaChanges query.datasourceId query.tableName)
    (events.filter fun event =>
      event.datasourceId = query.datasourceId ∧ event.tableName = query.tableName)
  versions_perm : (store.getDatasourceSchemaVersions query.datasourceId).Perm
    (versions.filter fun version => version.datasourceId = query.datasourceId)
  latest : Newest (versions.filter fun version => version.datasourceId = query.datasourceId)
    (store.getLatestSchemaVersion query.datasourceId)
  tenantEventIds : (store.getTenantEventIds query.tenantId).Perm
    ((events.filter fun event => event.tenantId = query.tenantId).map (·.id))
  timeRange : Returns (store.getSchemaChangesByTimeRange query.start query.end_)
    (events.filter fun event => event.DetectedIn query.start query.end_)
  drift : ∀ source ∈ versions, ∀ target ∈ versions, source.versionId = query.sourceVersionId →
    target.versionId = query.targetVersionId → ∃ analysis,
      store.analyzeSchemaDrift query.sourceVersionId query.targetVersionId query.now = .ok analysis ∧
        analysis.Counts (events.filter fun event => event.datasourceId = source.datasourceId ∧
          event.DetectedIn source.createdAt.millis target.createdAt.millis)

/-- A call changes no answer about another datasource than its own, nor about other tenants or times than
those of its event. -/
structure Undisturbed (before after : SchemaEvolutionStore J) (call : SchemaCall J)
    (query : SchemaQuery) : Prop where
  ofDatasource : call.datasourceId ≠ query.datasourceId →
    after.getDatasourceSchemaChanges query.datasourceId =
        before.getDatasourceSchemaChanges query.datasourceId ∧
      after.getBreakingChanges query.datasourceId = before.getBreakingChanges query.datasourceId ∧
      after.getTableSchemaChanges query.datasourceId query.tableName =
        before.getTableSchemaChanges query.datasourceId query.tableName ∧
      after.getDatasourceSchemaVersions query.datasourceId =
        before.getDatasourceSchemaVersions query.datasourceId ∧
      after.getLatestSchemaVersion query.datasourceId =
        before.getLatestSchemaVersion query.datasourceId
  ofTenant : (∀ event ∈ call.event?, event.tenantId ≠ query.tenantId) →
    after.getTenantEventIds query.tenantId = before.getTenantEventIds query.tenantId
  ofTimeRange : (∀ event ∈ call.event?, ¬ event.DetectedIn query.start query.end_) →
    after.getSchemaChangesByTimeRange query.start query.end_ =
      before.getSchemaChangesByTimeRange query.start query.end_
  ofDrift : ∀ source target, before.getSchemaVersion query.sourceVersionId = some source →
    before.getSchemaVersion query.targetVersionId = some target →
      call.datasourceId ≠ source.datasourceId →
        after.analyzeSchemaDrift query.sourceVersionId query.targetVersionId query.now =
          before.analyzeSchemaDrift query.sourceVersionId query.targetVersionId query.now

/-- In the lists that are scanned, what is asked for is there and can be read, and nothing else is where
the scans go. -/
@[mk_iff] structure Separated (events : List (SchemaChangeEvent J)) (versions : List SchemaVersion)
    (query : SchemaQuery) : Prop where
  datasources : ∀ event ∈ events,
    (event.datasourceId = query.datasourceId →
      Kept (·.datasourceKey) events event ∧ event.readable) ∧
    (event.datasourceId ≠ query.datasourceId → Kept (·.datasourceKey) events event →
      event.datasourceKey < query.datasourceId ++ ":")
  tables : ∀ event ∈ events,
    (event.datasourceId = query.datasourceId ∧ event.tableName = query.tableName →
      Kept (·.tableKey) events event) ∧
    (¬ (event.datasourceId = query.datasourceId ∧ event.tableName = query.tableName) →
      Kept (·.tableKey) events event →
        startsWith (query.datasourceId ++ ":" ++ query.tableName ++ ":") event.tableKey = false)
  tenants : ∀ event ∈ events,
    (event.tenantId = query.tenantId → Kept (·.tenantKey) events event) ∧
    (event.tenantId ≠ query.tenantId → Kept (·.tenantKey) events event →
      startsWith (query.tenantId ++ ":") event.tenantKey = false)
  datasourceVersions : ∀ version ∈ versions,
    (version.datasourceId = query.datasourceId → Kept (·.datasourceKey) versions version) ∧
    (version.datasourceId ≠ query.datasourceId → Kept (·.datasourceKey) versions version →
      version.datasourceKey < query.datasourceId ++ ":")
  times : ∀ event ∈ events,
    (Scanned events query.start query.end_ event ↔ event.DetectedIn query.start query.end_) ∧
    (event.DetectedIn query.start query.end_ → event.readable)
  drift : ∀ source ∈ versions, ∀ target ∈ versions, source.versionId = query.sourceVersionId →
    target.versionId = query.targetVersionId → ∀ event ∈ events,
      (Scanned events source.createdAt.millis target.createdAt.millis event → event.readable) ∧
      (event.datasourceId = source.datasourceId →
        (Scanned events source.createdAt.millis target.createdAt.millis event ↔
          event.DetectedIn source.createdAt.millis target.createdAt.millis))

set_option synthInstance.maxSize 256 in
instance [DecidableEq J] (events : List (SchemaChangeEvent J)) (versions : List SchemaVersion)
    (query : SchemaQuery) : Decidable (Separated events versions query) :=
  decidable_of_iff' _ (separated_iff events versions query)

variable {source target : SchemaVersion}

namespace SchemaEvolutionStore

variable {store : SchemaEvolutionStore J} {events : List (SchemaChangeEvent J)}
  {versions : List SchemaVersion}

theorem returns_loadEvents_iff (h : Indexes store events versions)
    (hids : (events.map (·.id)).Nodup) {l : List (SchemaChangeEvent J)} (hnodup : l.Nodup)
    (hl : ∀ event ∈ l, event ∈ events) (c : SchemaChangeEvent J → Prop) [DecidablePred c] :
    Returns (store.loadEvents (l.map (·.id))) (events.filter fun event => c event) ↔
      ∀ event ∈ events, (event ∈ l ↔ c event) ∧ (c event → event.readable) := by
  have hevents : (events.filter fun event => c event).Nodup := hids.of_map.filter _
  unfold Returns
  rw [loadEvents_ids h hids hl]
  constructor
  · rintro ⟨l', hok, hperm⟩ event hevent
    split_ifs at hok with hreadable
    cases hok
    have hmem : event ∈ l ↔ c event := by
      rw [hperm.mem_iff, List.mem_filter, decide_eq_true_eq]
      exact and_iff_right hevent
    exact ⟨hmem, fun hc => hreadable event (hmem.mpr hc)⟩
  · intro hall
    refine ⟨l, if_pos fun event hmem => ?_, ?_⟩
    · obtain ⟨hc, hreadable⟩ := hall event (hl event hmem)
      exact hreadable (hc.mp hmem)
    · rw [List.perm_ext_iff_of_nodup hnodup hevents]
      intro event
      rw [List.mem_filter, decide_eq_true_eq]
      constructor
      · intro hmem
        exact ⟨hl event hmem, (hall event (hl event hmem)).1.mp hmem⟩
      · intro hmem
        exact (hall event hmem.1).1.mpr hmem.2

theorem selection_iff {kept selected asked readable : Prop} (h : asked → selected) :
    ((kept ∧ selected ↔ asked) ∧ (asked → readable)) ↔
      (asked → kept ∧ readable) ∧ (¬ asked → kept → ¬ selected) := by
  tauto

variable (h : Indexes store events versions) (hids : (events.map (·.id)).Nodup)

include h hids

theorem returns_datasourceChanges_iff (d : String) :
    Returns (store.getDatasourceSchemaChanges d)
        (events.filter fun event => event.datasourceId = d) ↔
      ∀ event ∈ events,
        (event.datasourceId = d → Kept (·.datasourceKey) events event ∧ event.readable) ∧
        (event.datasourceId ≠ d → Kept (·.datasourceKey) events event →
          event.datasourceKey < d ++ ":") := by
  rw [getDatasourceSchemaChanges_eq h, returns_loadEvents_iff h hids
    ((nodup_indexed _ events).filter _) fun event hmem =>
      (mem_indexed.mp (List.mem_filter.mp hmem).1).mem]
  refine forall₂_congr fun event hevent => ?_
  rw [List.mem_filter, mem_indexed, decide_eq_true_eq, selection_iff, not_le]
  rintro rfl
  refine le_of_startsWith ?_
  exact startsWith_append ..

theorem returns_tableChanges_iff (d t : String) :
    Returns (store.getTableSchemaChanges d t)
        (events.filter fun event => event.datasourceId = d ∧ event.tableName = t) ↔
      ∀ event ∈ events,
        (event.datasourceId = d ∧ event.tableName = t →
          Kept (·.tableKey) events event ∧ event.readable) ∧
        (¬ (event.datasourceId = d ∧ event.tableName = t) → Kept (·.tableKey) events event →
          startsWith (d ++ ":" ++ t ++ ":") event.tableKey = false) := by
  rw [getTableSchemaChanges_eq h, returns_loadEvents_iff h hids
    ((nodup_indexed _ events).filter _) fun event hmem =>
      (mem_indexed.mp (List.mem_filter.mp hmem).1).mem]
  refine forall₂_congr fun event hevent => ?_
  rw [List.mem_filter, mem_indexed, selection_iff, Bool.not_eq_true]
  rintro ⟨rfl, rfl⟩
  exact startsWith_append ..

theorem returns_timeRange_iff (start end_ : Int64) :
    Returns (store.getSchemaChangesByTimeRange start end_)
        (events.filter fun event => event.DetectedIn start end_) ↔
      ∀ event ∈ events, (Scanned events start end_ event ↔ event.DetectedIn start end_) ∧
        (event.DetectedIn start end_ → event.readable) := by
  rw [getSchemaChangesByTimeRange_eq h, returns_loadEvents_iff h hids
    ((sorted_scanned events start end_).imp fun hlt heq => absurd (heq ▸ hlt) (lt_irrefl _))
    fun event hmem => (mem_scanned.mp hmem).1.mem]
  simp only [mem_scanned]

theorem perm_tenantEventIds_iff (x : String) :
    (store.getTenantEventIds x).Perm
        ((events.filter fun event => event.tenantId = x).map (·.id)) ↔
      ∀ event ∈ events, (event.tenantId = x → Kept (·.tenantKey) events event) ∧
        (event.tenantId ≠ x → Kept (·.tenantKey) events event →
          startsWith (x ++ ":") event.tenantKey = false) := by
  rw [getTenantEventIds_eq h, perm_map_key_iff hids
    (fun event hmem => (mem_indexed.mp (List.mem_filter.mp hmem).1).mem)
    (fun event hmem => (List.mem_filter.mp hmem).1), perm_filter_indexed_iff hids.of_map]
  refine forall₂_congr fun event hevent => ?_
  have hown : event.tenantId = x → startsWith (x ++ ":") event.tenantKey = true := by
    rintro rfl
    exact startsWith_append ..
  rw [decide_eq_true_eq, ← Bool.not_eq_true]
  tauto

omit hids

theorem perm_versions_iff (hids : (versions.map (·.versionId)).Nodup) (d : String) :
    (store.getDatasourceSchemaVersions d).Perm
        (versions.filter fun version => version.datasourceId = d) ↔
      ∀ version ∈ versions, (version.datasourceId = d → Kept (·.datasourceKey) versions version) ∧
        (version.datasourceId ≠ d → Kept (·.datasourceKey) versions version →
          version.datasourceKey < d ++ ":") := by
  rw [getDatasourceSchemaVersions_eq h hids, perm_filter_indexed_iff hids.of_map]
  refine forall₂_congr fun version hversion => ?_
  have hown : version.datasourceId = d → d ++ ":" ≤ version.datasourceKey := by
    rintro rfl
    have hkey : version.datasourceKey = version.datasourceId ++ ":" ++
        (millisText version.createdAt.millis ++ ":" ++ version.versionId) := by
      simp only [SchemaVersion.datasourceKey, String.append_assoc]
    rw [hkey]
    exact le_of_startsWith (startsWith_append ..)
  rw [decide_eq_true_eq, decide_eq_true_eq, ← not_le]
  tauto

/-! ## Answers that follow from others -/

omit h

theorem returns_breakingChanges {d : String}
    (h : Returns (store.getDatasourceSchemaChanges d)
      (events.filter fun event => event.datasourceId = d)) :
    Returns (store.getBreakingChanges d)
      (events.filter fun event => event.isBreaking ∧ event.datasourceId = d) := by
  obtain ⟨l, hok, hperm⟩ := h
  refine ⟨l.filter (·.isBreaking), ?_, ?_⟩
  · unfold getBreakingChanges
    rw [hok]
    rfl
  · refine (hperm.filter _).trans (List.Perm.of_eq ?_)
    rw [List.filter_filter]
    refine List.filter_congr fun event _ => ?_
    rw [Bool.decide_and, Bool.decide_eq_true]

theorem newest_latest {d : String} (h : (store.getDatasourceSchemaVersions d).Perm
      (versions.filter fun version => version.datasourceId = d)) :
    Newest (versions.filter fun version => version.datasourceId = d)
      (store.getLatestSchemaVersion d) := by
  unfold getLatestSchemaVersion
  have hsorted : ((store.getDatasourceSchemaVersions d).mergeSort fun a b =>
      decide (b.createdAt.toNanos ≤ a.createdAt.toNanos)).Pairwise fun a b =>
        decide (b.createdAt.toNanos ≤ a.createdAt.toNanos) = true := by
    refine List.pairwise_mergeSort (fun a b c hab hbc => ?_) (fun a b => ?_) _
    · simp only [decide_eq_true_eq] at *
      omega
    · simp only [Bool.or_eq_true, decide_eq_true_eq]
      omega
  have hperm := (List.mergeSort_perm (store.getDatasourceSchemaVersions d)
    fun a b => decide (b.createdAt.toNanos ≤ a.createdAt.toNanos)).trans h
  generalize (store.getDatasourceSchemaVersions d).mergeSort
    (fun a b => decide (b.createdAt.toNanos ≤ a.createdAt.toNanos)) = sorted at hsorted hperm
  cases sorted with
  | nil => exact hperm.nil_eq.symm
  | cons version rest =>
    refine ⟨hperm.mem_iff.mp (List.mem_cons_self ..), fun other hother => ?_⟩
    rcases List.mem_cons.mp (hperm.mem_iff.mpr hother) with rfl | hrest
    · exact le_refl _
    · exact of_decide_eq_true ((List.pairwise_cons.mp hsorted).1 other hrest)

theorem analyzeSchemaDrift_eq {a b : String}
    (hsource : store.getSchemaVersion a = some source)
    (htarget : store.getSchemaVersion b = some target) (now : DateTime) :
    store.analyzeSchemaDrift a b now =
      (store.getSchemaChangesByTimeRange source.createdAt.millis target.createdAt.millis).map
        fun changes => .ofChanges a b
          (changes.filter fun change => change.datasourceId = source.datasourceId) now := by
  unfold analyzeSchemaDrift
  rw [hsource, htarget]
  dsimp only
  cases store.getSchemaChangesByTimeRange source.createdAt.millis target.createdAt.millis <;> rfl

theorem counts_ofChanges_iff (a b : String) (l : List (SchemaChangeEvent J)) (now : DateTime)
    (changes : List (SchemaChangeEvent J)) :
    (SchemaDriftAnalysis.ofChanges a b l now).Counts changes ↔ l.Perm changes := by
  constructor
  · exact fun h => h.changes_perm
  · intro hperm
    refine ⟨hperm, hperm.countP_eq _, ?_⟩
    have hlength := List.length_eq_countP_add_countP (p := (·.isBreaking)) (l := l)
    rw [← hperm.countP_eq]
    show l.length - l.countP (·.isBreaking) = l.countP fun change => !change.isBreaking
    simp only [Bool.not_eq_true, Bool.decide_eq_false] at hlength
    omega

theorem exists_drift_iff (h : Indexes store events versions) (hids : (events.map (·.id)).Nodup)
    {a b : String}
    (hsource : store.getSchemaVersion a = some source)
    (htarget : store.getSchemaVersion b = some target) (now : DateTime) :
    (∃ analysis, store.analyzeSchemaDrift a b now = .ok analysis ∧
      analysis.Counts (events.filter fun event => event.datasourceId = source.datasourceId ∧
        event.DetectedIn source.createdAt.millis target.createdAt.millis)) ↔
      ∀ event ∈ events,
        (Scanned events source.createdAt.millis target.createdAt.millis event → event.readable) ∧
        (event.datasourceId = source.datasourceId →
          (Scanned events source.createdAt.millis target.createdAt.millis event ↔
            event.DetectedIn source.createdAt.millis target.createdAt.millis)) := by
  have hscanned : ∀ event ∈ scanned events source.createdAt.millis target.createdAt.millis,
      event ∈ events := fun event hmem => (mem_scanned.mp hmem).1.mem
  have hnodup : (scanned events source.createdAt.millis target.createdAt.millis).Nodup :=
    (sorted_scanned _ _ _).imp fun hlt heq => absurd (heq ▸ hlt) (lt_irrefl _)
  rw [analyzeSchemaDrift_eq hsource htarget, getSchemaChangesByTimeRange_eq h,
    loadEvents_ids h hids hscanned]
  split_ifs with hreadable
  · simp only [Except.map, Except.ok.injEq, exists_eq_left', counts_ofChanges_iff]
    rw [List.perm_ext_iff_of_nodup (hnodup.filter _) (hids.of_map.filter _)]
    simp only [List.mem_filter, mem_scanned, decide_eq_true_eq]
    constructor
    · intro hall event hevent
      refine ⟨fun hmem => hreadable event (mem_scanned.mpr hmem), fun hds => ?_⟩
      have := hall event
      tauto
    · intro hall event
      constructor
      · intro hmem
        have hevent := hscanned event (mem_scanned.mpr hmem.1)
        exact ⟨hevent, hmem.2, ((hall event hevent).2 hmem.2).mp hmem.1⟩
      · intro hmem
        exact ⟨((hall event hmem.1).2 hmem.2.1).mpr hmem.2.2, hmem.2.1⟩
  · refine iff_of_false (by rintro ⟨_, ⟨⟩, _⟩) fun hall => hreadable fun event hmem => ?_
    exact (hall event (hscanned event hmem)).1 (mem_scanned.mp hmem)

theorem answersExactly_iff (h : Indexes store events versions) (hids : (events.map (·.id)).Nodup)
    (hversions : (versions.map (·.versionId)).Nodup) (query : SchemaQuery) :
    AnswersExactly store events versions query ↔ Separated events versions query := by
  have hfound : ∀ {version id}, version ∈ versions → version.versionId = id →
      store.getSchemaVersion id = some version := by
    rintro version id hmem rfl
    exact getSchemaVersion_of_mem h hversions hmem
  constructor
  · intro hexact
    exact {
      datasources := (returns_datasourceChanges_iff h hids _).mp hexact.datasourceChanges
      tables := fun event hevent =>
        have htable := (returns_tableChanges_iff h hids _ _).mp hexact.tableChanges event hevent
        ⟨fun hasked => (htable.1 hasked).1, htable.2⟩
      tenants := (perm_tenantEventIds_iff h hids _).mp hexact.tenantEventIds
      datasourceVersions := (perm_versions_iff h hversions _).mp hexact.versions_perm
      times := (returns_timeRange_iff h hids _ _).mp hexact.timeRange
      drift := fun source hsource target htarget hsid htid =>
        (exists_drift_iff h hids (hfound hsource hsid) (hfound htarget htid) _).mp
          (hexact.drift source hsource target htarget hsid htid) }
  · intro hsep
    have hchanges := (returns_datasourceChanges_iff h hids _).mpr hsep.datasources
    have hversions := (perm_versions_iff h hversions _).mpr hsep.datasourceVersions
    exact {
      datasourceChanges := hchanges
      breakingChanges := returns_breakingChanges hchanges
      tableChanges := (returns_tableChanges_iff h hids _ _).mpr fun event hevent =>
        ⟨fun hasked => ⟨(hsep.tables event hevent).1 hasked,
          ((hsep.datasources event hevent).1 hasked.1).2⟩, (hsep.tables event hevent).2⟩
      versions_perm := hversions
      latest := newest_latest hversions
      tenantEventIds := (perm_tenantEventIds_iff h hids _).mpr hsep.tenants
      timeRange := (returns_timeRange_iff h hids _ _).mpr hsep.times
      drift := fun source hsource target htarget hsid htid =>
        (exists_drift_iff h hids (hfound hsource hsid) (hfound htarget htid) _).mpr
          (hsep.drift source hsource target htarget hsid htid) }

/-! ## Calls that leave answers as they are -/

theorem returns_unique {R : Type} {key : R → String} {answer answer' : Except SchemaStoreError (List R)}
    {expected : List R} (h : Returns answer expected) (h' : Returns answer' expected)
    (hsorted : ∀ l, answer = .ok l → l.Pairwise fun r r' => key r < key r')
    (hsorted' : ∀ l, answer' = .ok l → l.Pairwise fun r r' => key r < key r') :
    answer' = answer := by
  obtain ⟨l, rfl, hperm⟩ := h
  obtain ⟨l', rfl, hperm'⟩ := h'
  have heq : l' = l := eq_of_sorted (hsorted' l' rfl) (hsorted l rfl) fun r =>
    (hperm'.trans hperm.symm).mem_iff
  rw [heq]

include h hids

theorem eq_of_loadEvents {l l' : List (SchemaChangeEvent J)} (hl : ∀ event ∈ l, event ∈ events)
    (hok : store.loadEvents (l.map (·.id)) = .ok l') : l' = l := by
  rw [loadEvents_ids h hids hl] at hok
  split_ifs at hok
  cases hok
  rfl

theorem sorted_datasourceChanges (d : String) (l : List (SchemaChangeEvent J))
    (hok : store.getDatasourceSchemaChanges d = .ok l) :
    l.Pairwise fun e e' => e.datasourceKey < e'.datasourceKey := by
  rw [getDatasourceSchemaChanges_eq h] at hok
  rw [eq_of_loadEvents h hids
    (fun event hmem => (mem_indexed.mp (List.mem_filter.mp hmem).1).mem) hok]
  exact (sorted_indexed _ events).filter _

theorem sorted_tableChanges (d t : String) (l : List (SchemaChangeEvent J))
    (hok : store.getTableSchemaChanges d t = .ok l) :
    l.Pairwise fun e e' => e.tableKey < e'.tableKey := by
  rw [getTableSchemaChanges_eq h] at hok
  rw [eq_of_loadEvents h hids
    (fun event hmem => (mem_indexed.mp (List.mem_filter.mp hmem).1).mem) hok]
  exact (sorted_indexed _ events).filter _

theorem sorted_timeRange (start end_ : Int64) (l : List (SchemaChangeEvent J))
    (hok : store.getSchemaChangesByTimeRange start end_ = .ok l) :
    l.Pairwise fun e e' => e.timeKey < e'.timeKey := by
  rw [getSchemaChangesByTimeRange_eq h] at hok
  rw [eq_of_loadEvents h hids (fun event hmem => (mem_scanned.mp hmem).1.mem) hok]
  exact sorted_scanned ..

theorem analyzeSchemaDrift_of_counts {a b : String}
    (hsource : store.getSchemaVersion a = some source)
    (htarget : store.getSchemaVersion b = some target) {now : DateTime}
    {changes : List (SchemaChangeEvent J)}
    (hcounts : ∃ analysis, store.analyzeSchemaDrift a b now = .ok analysis ∧ analysis.Counts changes) :
    ∃ l, store.analyzeSchemaDrift a b now = .ok (.ofChanges a b l now) ∧ l.Perm changes ∧
      l.Pairwise fun e e' => e.timeKey < e'.timeKey := by
  obtain ⟨analysis, hok, hcounts⟩ := hcounts
  rw [analyzeSchemaDrift_eq hsource htarget] at hok ⊢
  cases hrange : store.getSchemaChangesByTimeRange source.createdAt.millis target.createdAt.millis with
  | error e =>
    rw [hrange] at hok
    cases hok
  | ok l =>
    rw [hrange] at hok
    cases hok
    exact ⟨_, rfl, (counts_ofChanges_iff ..).mp hcounts,
      (sorted_timeRange h hids _ _ l hrange).filter _⟩

end SchemaEvolutionStore

section Calls

variable {calls : List (SchemaCall J)} {call : SchemaCall J} {query : SchemaQuery}

theorem filter_eventsOf_concat {c : SchemaChangeEvent J → Prop} [DecidablePred c]
    (h : ∀ event ∈ call.event?, ¬ c event) :
    (eventsOf (calls ++ [call])).filter (fun event => c event) =
      (eventsOf calls).filter fun event => c event := by
  rw [eventsOf_concat, List.filter_append, List.append_right_eq_self]
  cases call with
  | recordSchemaChange event => exact List.filter_eq_nil_iff.mpr (by simpa [SchemaCall.event?] using h)
  | saveSchemaVersion version => rfl

theorem filter_versionsOf_concat (h : call.datasourceId ≠ query.datasourceId) :
    (versionsOf (calls ++ [call])).filter (fun version => version.datasourceId = query.datasourceId) =
      (versionsOf calls).filter fun version => version.datasourceId = query.datasourceId := by
  rw [versionsOf_concat, List.filter_append, List.append_right_eq_self]
  cases call with
  | recordSchemaChange event => rfl
  | saveSchemaVersion version =>
    exact List.filter_eq_nil_iff.mpr (by simpa [SchemaCall.version?, SchemaCall.datasourceId] using h)

theorem datasourceId_of_event? {event : SchemaChangeEvent J} (h : event ∈ call.event?) :
    event.datasourceId = call.datasourceId := by
  cases call with
  | recordSchemaChange event' =>
    cases h
    rfl
  | saveSchemaVersion version => cases h

open SchemaEvolutionStore

theorem getSchemaVersion_concat (hids : UniqueIds (calls ++ [call])) {id : String}
    {version : SchemaVersion} (h : (storeAfter calls).getSchemaVersion id = some version) :
    (storeAfter (calls ++ [call])).getSchemaVersion id = some version := by
  obtain ⟨rfl, hmem⟩ := mem_of_getSchemaVersion (indexes_storeAfter calls) h
  refine getSchemaVersion_of_mem (indexes_storeAfter _) hids.versions ?_
  rw [versionsOf_concat]
  exact List.mem_append_left _ hmem

/-! In each of these the answers are exact before and after the call. -/

variable (hids : UniqueIds (calls ++ [call]))
  (hbefore : AnswersExactly (storeAfter calls) (eventsOf calls) (versionsOf calls) query)
  (hafter : AnswersExactly (storeAfter (calls ++ [call])) (eventsOf (calls ++ [call]))
    (versionsOf (calls ++ [call])) query)

include hids hbefore hafter

theorem datasourceChanges_concat (hother : call.datasourceId ≠ query.datasourceId) :
    (storeAfter (calls ++ [call])).getDatasourceSchemaChanges query.datasourceId =
      (storeAfter calls).getDatasourceSchemaChanges query.datasourceId := by
  have hchanges := hafter.datasourceChanges
  rw [filter_eventsOf_concat fun event hevent => datasourceId_of_event? hevent ▸ hother] at hchanges
  exact returns_unique hbefore.datasourceChanges hchanges
    (sorted_datasourceChanges (indexes_storeAfter _)
      (hids.of_prefix (List.prefix_append ..)).events _)
    (sorted_datasourceChanges (indexes_storeAfter _) hids.events _)

theorem tableChanges_concat (hother : call.datasourceId ≠ query.datasourceId) :
    (storeAfter (calls ++ [call])).getTableSchemaChanges query.datasourceId query.tableName =
      (storeAfter calls).getTableSchemaChanges query.datasourceId query.tableName := by
  have hchanges := hafter.tableChanges
  rw [filter_eventsOf_concat fun event hevent hasked =>
    hother (datasourceId_of_event? hevent ▸ hasked.1)] at hchanges
  exact returns_unique hbefore.tableChanges hchanges
    (sorted_tableChanges (indexes_storeAfter _)
      (hids.of_prefix (List.prefix_append ..)).events _ _)
    (sorted_tableChanges (indexes_storeAfter _) hids.events _ _)

theorem timeRange_concat
    (hother : ∀ event ∈ call.event?, ¬ event.DetectedIn query.start query.end_) :
    (storeAfter (calls ++ [call])).getSchemaChangesByTimeRange query.start query.end_ =
      (storeAfter calls).getSchemaChangesByTimeRange query.start query.end_ := by
  have hchanges := hafter.timeRange
  rw [filter_eventsOf_concat hother] at hchanges
  exact returns_unique hbefore.timeRange hchanges
    (sorted_timeRange (indexes_storeAfter _)
      (hids.of_prefix (List.prefix_append ..)).events _ _)
    (sorted_timeRange (indexes_storeAfter _) hids.events _ _)

theorem versions_concat (hother : call.datasourceId ≠ query.datasourceId) :
    (storeAfter (calls ++ [call])).getDatasourceSchemaVersions query.datasourceId =
      (storeAfter calls).getDatasourceSchemaVersions query.datasourceId := by
  have hperm := hafter.versions_perm
  rw [filter_versionsOf_concat hother] at hperm
  have hsame := hperm.trans hbefore.versions_perm.symm
  rw [getDatasourceSchemaVersions_eq (indexes_storeAfter _) hids.versions,
    getDatasourceSchemaVersions_eq (indexes_storeAfter _)
      (hids.of_prefix (List.prefix_append ..)).versions] at hsame ⊢
  exact eq_of_sorted ((sorted_indexed _ _).filter _) ((sorted_indexed _ _).filter _)
    fun version => hsame.mem_iff

theorem tenantEventIds_concat (hother : ∀ event ∈ call.event?, event.tenantId ≠ query.tenantId) :
    (storeAfter (calls ++ [call])).getTenantEventIds query.tenantId =
      (storeAfter calls).getTenantEventIds query.tenantId := by
  have hperm := hafter.tenantEventIds
  rw [filter_eventsOf_concat hother] at hperm
  have hsame := hperm.trans hbefore.tenantEventIds.symm
  rw [getTenantEventIds_eq (indexes_storeAfter _),
    getTenantEventIds_eq (indexes_storeAfter _)] at hsame ⊢
  have hsub : ∀ event ∈ (indexed (·.tenantKey) (eventsOf calls)).filter
      (fun e => startsWith (query.tenantId ++ ":") e.tenantKey), event ∈ eventsOf (calls ++ [call]) := by
    intro event hmem
    rw [eventsOf_concat]
    exact List.mem_append_left _ (mem_indexed.mp (List.mem_filter.mp hmem).1).mem
  have hevents := (perm_map_key_iff hids.events
    (fun event hmem => (mem_indexed.mp (List.mem_filter.mp hmem).1).mem) hsub).mp hsame
  rw [eq_of_sorted ((sorted_indexed _ _).filter _) ((sorted_indexed _ _).filter _)
    fun event => hevents.mem_iff]

theorem drift_concat
    (hsource : (storeAfter calls).getSchemaVersion query.sourceVersionId = some source)
    (htarget : (storeAfter calls).getSchemaVersion query.targetVersionId = some target)
    (hother : call.datasourceId ≠ source.datasourceId) :
    (storeAfter (calls ++ [call])).analyzeSchemaDrift query.sourceVersionId query.targetVersionId
        query.now =
      (storeAfter calls).analyzeSchemaDrift query.sourceVersionId query.targetVersionId query.now := by
  have h := indexes_storeAfter calls
  have h' := indexes_storeAfter (calls ++ [call])
  have hsource' := getSchemaVersion_concat hids hsource
  have htarget' := getSchemaVersion_concat hids htarget
  obtain ⟨hsid, hsmem⟩ := mem_of_getSchemaVersion h hsource
  obtain ⟨htid, htmem⟩ := mem_of_getSchemaVersion h htarget
  obtain ⟨-, hsmem'⟩ := mem_of_getSchemaVersion h' hsource'
  obtain ⟨-, htmem'⟩ := mem_of_getSchemaVersion h' htarget'
  have hdrift := hbefore.drift source hsmem target htmem hsid htid
  have hdrift' := hafter.drift source hsmem' target htmem' hsid htid
  rw [filter_eventsOf_concat fun event hevent hasked =>
    hother (datasourceId_of_event? hevent ▸ hasked.1)] at hdrift'
  obtain ⟨l, hok, hperm, hsorted⟩ := analyzeSchemaDrift_of_counts h
    (hids.of_prefix (List.prefix_append ..)).events hsource htarget hdrift
  obtain ⟨l', hok', hperm', hsorted'⟩ := analyzeSchemaDrift_of_counts h'
    hids.events hsource' htarget' hdrift'
  rw [hok, hok', eq_of_sorted hsorted' hsorted fun event => (hperm'.trans hperm.symm).mem_iff]

theorem undisturbed_of_exact :
    Undisturbed (storeAfter calls) (storeAfter (calls ++ [call])) call query where
  ofDatasource hother := by
    have hchanges := datasourceChanges_concat hids hbefore hafter hother
    have hversions := versions_concat hids hbefore hafter hother
    refine ⟨hchanges, ?_, tableChanges_concat hids hbefore hafter hother, hversions, ?_⟩
    · unfold getBreakingChanges
      rw [hchanges]
    · unfold getLatestSchemaVersion
      rw [hversions]
  ofTenant := tenantEventIds_concat hids hbefore hafter
  ofTimeRange := timeRange_concat hids hbefore hafter
  ofDrift _ _ := drift_concat hids hbefore hafter

end Calls

/-! ## The history of a run -/

/-- **When the queries are exact and isolated.** In a run with unique ids all queries are exact in each
state, and no call disturbs answers that are not about it, if and only if in each state the scans are
separated. -/
theorem schemaQueries_exact_iff (calls : List (SchemaCall J)) (hids : UniqueIds calls)
    (query : SchemaQuery) :
    (∀ before, before <+: calls →
      AnswersExactly (storeAfter before) (eventsOf before) (versionsOf before) query ∧
      ∀ call, before ++ [call] <+: calls →
        Undisturbed (storeAfter before) (storeAfter (before ++ [call])) call query) ↔
      ∀ before, before <+: calls → Separated (eventsOf before) (versionsOf before) query := by
  have hiff : ∀ before, before <+: calls →
      (AnswersExactly (storeAfter before) (eventsOf before) (versionsOf before) query ↔
        Separated (eventsOf before) (versionsOf before) query) := fun before hbefore =>
    SchemaEvolutionStore.answersExactly_iff (indexes_storeAfter before)
      (hids.of_prefix hbefore).events (hids.of_prefix hbefore).versions query
  constructor
  · intro hexact before hbefore
    exact (hiff before hbefore).mp (hexact before hbefore).1
  · intro hsep before hbefore
    have hexact := (hiff before hbefore).mpr (hsep before hbefore)
    refine ⟨hexact, fun call hcall => ?_⟩
    exact undisturbed_of_exact (hids.of_prefix hcall) hexact ((hiff _ hcall).mpr (hsep _ hcall))

def changeAt (id datasourceId tenantId : String) (millis : Int64) : SchemaChangeEvent Unit where
  id := id
  datasourceId := datasourceId
  schemaName := none
  tableName := "users"
  columnName := none
  changeType := .TableAdded
  beforeState := none
  afterState := none
  detectedAt := ⟨millis, 0⟩
  migrationScript := none
  migrationId := none
  initiatedBy := "system"
  tenantId := tenantId
  isBreaking := false
  impactSummary := none

def versionAt (versionId datasourceId : String) (millis : Int64) : SchemaVersion where
  versionId := versionId
  datasourceId := datasourceId
  schemaName := none
  createdAt := ⟨millis, 0⟩
  migrationId := none
  previousVersion := none
  gitCommit := none
  tags := []

def twoDatasources : List (SchemaCall Unit) :=
  [.saveSchemaVersion (versionAt "v1" "crm" 1000),
    .recordSchemaChange (changeAt "e1" "crm" "acme" 1500),
    .recordSchemaChange (changeAt "e2" "billing" "initech" 1600),
    .saveSchemaVersion (versionAt "v2" "crm" 2000)]

def askAbout (datasourceId : String) : SchemaQuery where
  datasourceId := datasourceId
  tableName := "users"
  tenantId := "acme"
  start := 1000
  end_ := 2000
  sourceVersionId := "v1"
  targetVersionId := "v2"
  now := ⟨3000, 0⟩

theorem twoDatasources_exact :
    (∀ before ∈ twoDatasources.inits,
      Separated (eventsOf before) (versionsOf before) (askAbout "crm")) ∧
    ∀ before, before <+: twoDatasources →
      AnswersExactly (storeAfter before) (eventsOf before) (versionsOf before) (askAbout "crm") ∧
      ∀ call, before ++ [call] <+: twoDatasources →
        Undisturbed (storeAfter before) (storeAfter (before ++ [call])) call (askAbout "crm") := by
  have hall : ∀ before ∈ twoDatasources.inits,
      Separated (eventsOf before) (versionsOf before) (askAbout "crm") := by decide
  have hiff := schemaQueries_exact_iff twoDatasources ⟨by decide, by decide⟩ (askAbout "crm")
  exact ⟨hall, hiff.mpr fun before hbefore => hall before ((List.mem_inits ..).mpr hbefore)⟩

/-- Asked about the datasource with the earlier name, the store answers with the changes of both. -/
theorem twoDatasources_not_exact : ¬ ∀ before, before <+: twoDatasources →
    AnswersExactly (storeAfter before) (eventsOf before) (versionsOf before) (askAbout "billing") ∧
    ∀ call, before ++ [call] <+: twoDatasources →
      Undisturbed (storeAfter before) (storeAfter (before ++ [call])) call (askAbout "billing") := by
  intro hexact
  have hsep := (SchemaEvolutionStore.answersExactly_iff (indexes_storeAfter twoDatasources)
    (by decide) (by decide) _).mp (hexact twoDatasources List.prefix_rfl).1
  have hnot : ¬ Separated (eventsOf twoDatasources) (versionsOf twoDatasources) (askAbout "billing") := by
    decide
  exact hnot hsep

end Arcxa.Lineage
