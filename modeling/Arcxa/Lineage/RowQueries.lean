import Arcxa.Lib.KeyIndex
import Arcxa.Lineage.ColumnStore
import Arcxa.Lineage.RowStore

/-!
# Batches, filtered rows and statistics of the row lineage store

Beside the lists of the rows, `write_events_internal` keeps the rows of a batch, the filtered rows under
their job and second, and the statistics of a job. The statistics go on from what is stored and are
right after every run. The rows of a batch are those of the last call that has any, and lead to all
that is stored under them, whatever its batch. A filtered row takes the place of an earlier one of the
same job and second, and seconds are compared as texts. `queriesAgree_iff` says when the answers are
what was recorded all the same.
-/

namespace Arcxa.Lineage

variable {Q D : Type}

/-! ## Events -/

/-- `Q`: a violation of a quality rule. -/
inductive ProcessingOutcome (Q : Type) where
  | Processed (outputLocation : String)
  | Filtered (reason ruleId : String)
  | ValidationFailed (violations : List Q)
  | Failed (error : String)
  deriving DecidableEq

/-- The timestamp in nanoseconds since the epoch; `rest`: the fields that no query looks at. -/
structure RowData (Q D : Type) where
  batchId : String
  jobId : String
  timestamp : Int
  outcome : ProcessingOutcome Q
  rest : D
  deriving DecidableEq

abbrev RowEvent (Q D : Type) := RowLineageEvent (RowData Q D)

/-- `DateTime::timestamp`. -/
def seconds (time : Int) : Int := time / 1000000000

def filteredKey (jobId : String) (time : Int) : String := jobId ++ ":" ++ toString (seconds time)

structure FilteredRow where
  jobId : String
  timestamp : Int
  rowId : RowId
  reason : String

namespace FilteredRow

variable (row : FilteredRow)

def key : String := filteredKey row.jobId row.timestamp

def value : RowId × String := (row.rowId, row.reason)

def Within (jobId : String) (startTime endTime : Int) : Prop :=
  row.jobId = jobId ∧ seconds startTime ≤ seconds row.timestamp ∧
    seconds row.timestamp ≤ seconds endTime

instance (jobId : String) (startTime endTime : Int) : Decidable (row.Within jobId startTime endTime) :=
  inferInstanceAs (Decidable (_ ∧ _))

/-- The key is where the iterator of `get_filtered_rows` goes. -/
def InTexts (jobId : String) (startTime endTime : Int) : Prop :=
  filteredKey jobId startTime ≤ row.key ∧ startsWith (jobId ++ ":") row.key ∧
    row.key ≤ filteredKey jobId endTime

instance (jobId : String) (startTime endTime : Int) : Decidable (row.InTexts jobId startTime endTime) :=
  inferInstanceAs (Decidable (_ ∧ _))

end FilteredRow

def RowLineageEvent.filteredRow (event : RowEvent Q D) : Option FilteredRow :=
  match event.data.outcome with
  | .Filtered reason _ => some ⟨event.data.jobId, event.data.timestamp, event.rowId, reason⟩
  | _ => none

def filteredRows (events : List (RowEvent Q D)) : List FilteredRow :=
  events.filterMap RowLineageEvent.filteredRow

/-! ## Statistics -/

/-- The average processing time is never set. -/
structure JobStatistics where
  jobId : String
  totalRows : Nat
  successCount : Nat
  filteredCount : Nat
  failedCount : Nat
  filterReasons : BTreeMap String Nat
  startTime : Int
  endTime : Option Int

namespace JobStatistics

def new (jobId : String) (startTime : Int) : JobStatistics where
  jobId := jobId
  totalRows := 0
  successCount := 0
  filteredCount := 0
  failedCount := 0
  filterReasons := .empty
  startTime := startTime
  endTime := none

/-- `load_job_statistics`. -/
def load (stored : BTreeMap String JobStatistics) (jobId : String) (startTime : Int) : JobStatistics :=
  match stored.get jobId with
  | some stats => { stats with startTime := min startTime stats.startTime }
  | none => new jobId startTime

def count (stats : JobStatistics) (data : RowData Q D) : JobStatistics :=
  let counted := { stats with
    totalRows := stats.totalRows + 1
    startTime := min data.timestamp stats.startTime }
  match data.outcome with
  | .Processed _ => { counted with successCount := stats.successCount + 1 }
  | .Filtered reason _ => { counted with
    filteredCount := stats.filteredCount + 1
    filterReasons := stats.filterReasons.insert reason
      ((stats.filterReasons.get reason).getD 0 + 1) }
  | .Failed _ => { counted with failedCount := stats.failedCount + 1 }
  | .ValidationFailed _ => { counted with failedCount := stats.failedCount + 1 }

end JobStatistics

def countEvent (stored jobStats : BTreeMap String JobStatistics) (event : RowEvent Q D) :
    BTreeMap String JobStatistics :=
  jobStats.insert event.data.jobId
    (((jobStats.get event.data.jobId).getD
      (.load stored event.data.jobId event.data.timestamp)).count event.data)

/-! ## The store -/

/-- The column families that the queries read. The list of a row is a text, a JSON one that is compressed
when it is long. -/
structure RowIndexes (Q D : Type) where
  byRow : BTreeMap String String
  byBatch : BTreeMap String (List RowId)
  filtered : BTreeMap String (RowId × String)
  stats : BTreeMap String JobStatistics

namespace RowIndexes

variable [TextCodec (List (RowEvent Q D))]

def new : RowIndexes Q D where
  byRow := .empty
  byBatch := .empty
  filtered := .empty
  stats := .empty

variable (store : RowIndexes Q D)

/-- A list that cannot be read is begun anew. -/
def appendEventToRowIndex (key : String) (event : RowEvent Q D) : String :=
  TextCodec.toText (((store.byRow.get key).bind TextCodec.fromText).getD [] ++ [event])

def writeEventsInternal (events : List (RowEvent Q D)) : RowIndexes Q D where
  byRow := (RowCall.appends events).foldl (fun byRow append =>
    byRow.insert append.1 (store.appendEventToRowIndex append.1 append.2)) store.byRow
  byBatch := overwriteLists store.byBatch
    (recordLists (events.map fun event => (event.data.batchId, event.rowId)))
  filtered := (filteredRows events).foldl (fun filtered row => filtered.insert row.key row.value)
    store.filtered
  stats := (events.foldl (countEvent store.stats) .empty).entries.foldl
    (fun stats entry => stats.insert entry.1 entry.2) store.stats

def writeRowsBatch (events : List (RowEvent Q D)) : RowIndexes Q D :=
  if events = [] then store else store.writeEventsInternal events

/-- `none` where the list cannot be read, which is an error here. -/
def getRowLineage (row : RowId) : Option (List (RowEvent Q D)) :=
  match store.byRow.get row.toKey with
  | some text => TextCodec.fromText text
  | none => some []

def getBatchLineage (batchId : String) : Option (List (RowEvent Q D)) :=
  match store.byBatch.get batchId with
  | some rowIds => (rowIds.mapM store.getRowLineage).map List.flatten
  | none => some []

def getFilteredRows (jobId : String) (startTime endTime : Int) : List (RowId × String) :=
  ((store.filtered.entries.filter fun entry => filteredKey jobId startTime ≤ entry.1).takeWhile
    fun entry => startsWith (jobId ++ ":") entry.1 && entry.1 ≤ filteredKey jobId endTime).map (·.2)

def getJobStats (jobId : String) (now : Int) : JobStatistics :=
  (store.stats.get jobId).getD (.new jobId now)

end RowIndexes

section Calls

variable [TextCodec (List (RowEvent Q D))]

def rowIndexesAfter (calls : List (List (RowEvent Q D))) : RowIndexes Q D :=
  calls.foldl RowIndexes.writeRowsBatch .new

theorem rowIndexesAfter_concat (calls : List (List (RowEvent Q D))) (events : List (RowEvent Q D)) :
    rowIndexesAfter (calls ++ [events]) = (rowIndexesAfter calls).writeRowsBatch events := by
  rw [rowIndexesAfter, List.foldl_append]
  rfl

/-! ## What the queries should answer, and when they do -/

structure RowQuery where
  batchId : String
  jobId : String
  startTime : Int
  endTime : Int
  now : Int

structure QueriesAgree (calls : List (List (RowEvent Q D))) (query : RowQuery) : Prop where
  batch : ∃ events, (rowIndexesAfter calls).getBatchLineage query.batchId = some events ∧
    events.Perm (calls.flatten.filter fun event => event.data.batchId = query.batchId)
  filtered : ((rowIndexesAfter calls).getFilteredRows query.jobId query.startTime query.endTime).Perm
    (((filteredRows calls.flatten).filter fun row =>
      row.Within query.jobId query.startTime query.endTime).map FilteredRow.value)
  total : ((rowIndexesAfter calls).getJobStats query.jobId query.now).totalRows =
    calls.flatten.countP fun event => event.data.jobId = query.jobId
  outcomes : ((rowIndexesAfter calls).getJobStats query.jobId query.now).totalRows =
    ((rowIndexesAfter calls).getJobStats query.jobId query.now).successCount +
      ((rowIndexesAfter calls).getJobStats query.jobId query.now).filteredCount +
      ((rowIndexesAfter calls).getJobStats query.jobId query.now).failedCount
  reasons : ((rowIndexesAfter calls).getJobStats query.jobId query.now).filterReasons.values.sum =
    ((rowIndexesAfter calls).getJobStats query.jobId query.now).filteredCount

/-- The lists that can be made of the recorded events read back. -/
def ListsReadBack (calls : List (List (RowEvent Q D))) : Prop :=
  ∀ events, events ⊆ calls.flatten → TextCodec.ReadsBack events

end Calls

def batchRows (batchId : String) (events : List (RowEvent Q D)) : List RowId :=
  (events.filter fun event => event.data.batchId = batchId).map (·.rowId)

def lastRows (batchId : String) (calls : List (List (RowEvent Q D))) : List RowId :=
  calls.foldl (fun rows events =>
    if batchRows batchId events = [] then rows else batchRows batchId events) []

def lastEvents (key : String) (calls : List (List (RowEvent Q D))) : List (RowEvent Q D) :=
  (survivors Prod.fst key (calls.map RowCall.appends)).map Prod.snd

/-- Under the rows of the last call with the batch, no call's last event is of another batch, and each
event of the batch is last as often as it was recorded. -/
structure BatchFound [DecidableEq Q] [DecidableEq D] (calls : List (List (RowEvent Q D)))
    (batchId : String) : Prop where
  own : ∀ row ∈ lastRows batchId calls, ∀ event ∈ lastEvents row.toKey calls,
    event.data.batchId = batchId
  once : ∀ event, event.data.batchId = batchId →
    ((lastRows batchId calls).map fun row => (lastEvents row.toKey calls).count event).sum =
      calls.flatten.count event

/-- No two events of a call have a key in common. -/
def OnePerKey (calls : List (List (RowEvent Q D))) : Prop :=
  ∀ call ∈ calls, call.Pairwise fun event event' => ∀ row ∈ event.rows, ¬ event'.IsUnder row.toKey

/-- What is under the rows of the last call with the batch is of the batch, and each event of the batch
is under exactly one of them. -/
structure BatchApart (calls : List (List (RowEvent Q D))) (batchId : String) : Prop where
  own : ∀ row ∈ lastRows batchId calls, ∀ event ∈ calls.flatten, event.IsUnder row.toKey →
    event.data.batchId = batchId
  once : ∀ event ∈ calls.flatten, event.data.batchId = batchId →
    (lastRows batchId calls).countP (event.IsUnder ·.toKey) = 1

/-- The rows that are within the texts only are, in row and reason, the rows of the job that are not
within the texts or have a later one of their job and second. -/
def FilteredFound (calls : List (List (RowEvent Q D))) (jobId : String) (startTime endTime : Int) :
    Prop :=
  (((latest FilteredRow.key (filteredRows calls.flatten)).filter fun row =>
      row.InTexts jobId startTime endTime ∧ ¬ row.Within jobId startTime endTime).map
    FilteredRow.value).Perm
  ((((latest FilteredRow.key (filteredRows calls.flatten)).filter fun row =>
      row.Within jobId startTime endTime ∧ ¬ row.InTexts jobId startTime endTime) ++
    (superseded FilteredRow.key (filteredRows calls.flatten)).filter fun row =>
      row.Within jobId startTime endTime).map FilteredRow.value)

/-! ## Batches -/

theorem get_recordLists {R : Type} (entries : List (String × R)) (key : String) :
    (recordLists entries).get key =
      if (entries.filter (·.1 = key)).map (·.2) = [] then none
      else some ((entries.filter (·.1 = key)).map (·.2)) := by
  induction entries using List.reverseRecOn with
  | nil => rfl
  | append_singleton entries entry ih =>
    rw [recordLists, List.foldl_append, List.foldl_cons, List.foldl_nil, BTreeMap.get_upsert,
      ← recordLists, List.filter_append, List.map_append]
    by_cases hkey : key = entry.1
    · rw [if_pos hkey, ← hkey, ih, List.filter_cons_of_pos (by simp [hkey]), List.filter_nil,
        List.map_singleton, if_neg (List.append_ne_nil_of_right_ne_nil _ (List.cons_ne_nil _ _))]
      split_ifs with hnil
      · rw [hnil]
        rfl
      · rfl
    · rw [if_neg hkey, ih, List.filter_cons_of_neg (by simpa using Ne.symm hkey), List.filter_nil,
        List.map_nil, List.append_nil]

theorem lastRows_concat (batchId : String) (calls : List (List (RowEvent Q D)))
    (events : List (RowEvent Q D)) : lastRows batchId (calls ++ [events]) =
      if batchRows batchId events = [] then lastRows batchId calls else batchRows batchId events := by
  rw [lastRows, List.foldl_append]
  rfl

theorem lastEvents_concat (key : String) (calls : List (List (RowEvent Q D)))
    (events : List (RowEvent Q D)) : lastEvents key (calls ++ [events]) =
      lastEvents key calls ++
        ((lastUnder Prod.fst key (RowCall.appends events)).map Prod.snd).toList := by
  rw [lastEvents, List.map_append, List.map_singleton, survivors_concat, List.map_append,
    Option.toList_map]
  rfl

theorem mem_appends {events : List (RowEvent Q D)} {append : String × RowEvent Q D} :
    append ∈ RowCall.appends events ↔ append.2 ∈ events ∧ append.2.IsUnder append.1 := by
  obtain ⟨key, event⟩ := append
  simp only [RowCall.appends, RowLineageEvent.IsUnder, List.mem_flatMap, List.mem_map, Prod.mk.injEq,
    List.any_eq_true, decide_eq_true_eq]
  constructor
  · rintro ⟨event, hevent, row, hrow, rfl, rfl⟩
    exact ⟨hevent, row, hrow, rfl⟩
  · rintro ⟨hevent, row, hrow, rfl⟩
    exact ⟨event, hevent, row, hrow, rfl, rfl⟩

variable {calls : List (List (RowEvent Q D))}

theorem lastEvents_subset {key : String} : lastEvents key calls ⊆ calls.flatten := by
  intro event hevent
  obtain ⟨append, happend, rfl⟩ := List.mem_map.mp hevent
  obtain ⟨_, hcalls, hmem⟩ := List.mem_flatten.mp (mem_survivors happend).1
  obtain ⟨call, hcall, rfl⟩ := List.mem_map.mp hcalls
  exact List.mem_flatten_of_mem hcall (mem_appends.mp hmem).1

section Reads

variable [TextCodec (List (RowEvent Q D))]

open RowIndexes

theorem get_byBatch (calls : List (List (RowEvent Q D))) (batchId : String) :
    (rowIndexesAfter calls).byBatch.get batchId =
      if lastRows batchId calls = [] then none else some (lastRows batchId calls) := by
  induction calls using List.reverseRecOn with
  | nil => rfl
  | append_singleton calls events ih =>
    rw [rowIndexesAfter_concat, writeRowsBatch, lastRows_concat]
    by_cases hevents : events = []
    · have hnone : batchRows batchId ([] : List (RowEvent Q D)) = [] := rfl
      rw [if_pos hevents, hevents, if_pos hnone, ih]
    · rw [if_neg hevents]
      show (overwriteLists _ _).get batchId = _
      rw [overwriteLists, get_foldl_entries, get_recordLists, List.filter_map, List.map_map, ih]
      show (if batchRows batchId events = [] then none else some (batchRows batchId events)).or _ = _
      by_cases hrows : batchRows batchId events = []
      · rw [if_pos hrows, if_pos hrows, Option.none_or]
      · rw [if_neg hrows, if_neg hrows, if_neg hrows, Option.some_or]

variable {calls : List (List (RowEvent Q D))}

theorem ListsReadBack.of_concat {events : List (RowEvent Q D)}
    (h : ListsReadBack (calls ++ [events])) : ListsReadBack calls := fun _ hsubset =>
  h _ fun _ hmem => by
    rw [List.flatten_append]
    exact List.mem_append_left _ (hsubset hmem)

variable (hreads : ListsReadBack calls)

include hreads

theorem get_byRow (key : String) :
    (rowIndexesAfter calls).byRow.get key =
      if lastEvents key calls = [] then none else some (TextCodec.toText (lastEvents key calls)) := by
  induction calls using List.reverseRecOn with
  | nil => rfl
  | append_singleton calls events ih =>
    have ih := ih hreads.of_concat
    rw [rowIndexesAfter_concat, writeRowsBatch, lastEvents_concat]
    by_cases hevents : events = []
    · subst hevents
      rw [if_pos rfl, ih]
      exact (if_congr (by rw [show lastUnder Prod.fst key (RowCall.appends []) = none from rfl,
        Option.map_none, Option.toList_none, List.append_nil]) rfl (by
          rw [show lastUnder Prod.fst key (RowCall.appends []) = none from rfl,
            Option.map_none, Option.toList_none, List.append_nil]))
    · rw [if_neg hevents]
      show BTreeMap.get (List.foldl _ _ _) key = _
      rw [get_foldl_insert Prod.fst fun append : String × RowEvent Q D =>
        (rowIndexesAfter calls).appendEventToRowIndex append.1 append.2]
      cases hlast : lastUnder Prod.fst key (RowCall.appends events) with
      | none => simpa using ih
      | some append =>
        obtain ⟨-, rfl⟩ := mem_of_lastUnder hlast
        have hstored : (((rowIndexesAfter calls).byRow.get append.1).bind TextCodec.fromText).getD [] =
            lastEvents append.1 calls := by
          rw [ih]
          split_ifs with hnil
          · exact hnil.symm
          · exact congrArg (Option.getD · []) (hreads.of_concat _ lastEvents_subset)
        refine Eq.trans ?_ (if_neg (List.append_ne_nil_of_right_ne_nil _ (List.cons_ne_nil _ _))).symm
        rw [Option.map_some, Option.some_or, appendEventToRowIndex, hstored]
        rfl

theorem getRowLineage_eq (row : RowId) :
    (rowIndexesAfter calls).getRowLineage row = some (lastEvents row.toKey calls) := by
  rw [getRowLineage, get_byRow hreads]
  split_ifs with hnil
  · rw [hnil]
  · exact hreads _ lastEvents_subset

theorem getBatchLineage_eq (batchId : String) : (rowIndexesAfter calls).getBatchLineage batchId =
      some ((lastRows batchId calls).flatMap fun row => lastEvents row.toKey calls) := by
  rw [getBatchLineage, get_byBatch]
  split_ifs with hrows
  · rw [hrows]
    rfl
  · have hread : ∀ rows : List RowId, rows.mapM (rowIndexesAfter calls).getRowLineage =
        some (rows.map fun row => lastEvents row.toKey calls) := by
      intro rows
      induction rows with
      | nil => rfl
      | cons row rows ih =>
        rw [List.mapM_cons, getRowLineage_eq hreads, ih]
        rfl
    simp only [hread, Option.map_some]
    rfl

theorem batch_iff [DecidableEq Q] [DecidableEq D] (batchId : String) :
    (∃ events, (rowIndexesAfter calls).getBatchLineage batchId = some events ∧
      events.Perm (calls.flatten.filter fun event => event.data.batchId = batchId)) ↔
        BatchFound calls batchId := by
  rw [getBatchLineage_eq hreads]
  simp only [Option.some.injEq, exists_eq_left']
  let inBatch := fun event : RowEvent Q D => decide (event.data.batchId = batchId)
  constructor
  · intro hperm
    constructor
    case own =>
      intro row hrow event hevent
      have hmem := hperm.mem_iff.mp (List.mem_flatMap.mpr ⟨row, hrow, hevent⟩)
      exact of_decide_eq_true (List.mem_filter.mp hmem).2
    case once =>
      intro event hbatch
      have hcount := hperm.count_eq event
      rw [List.count_flatMap, List.count_filter (p := inBatch) (decide_eq_true hbatch)] at hcount
      exact hcount
  · rintro ⟨hown, honce⟩
    refine List.perm_iff_count.mpr fun event => ?_
    by_cases hbatch : event.data.batchId = batchId
    · rw [List.count_flatMap, List.count_filter (p := inBatch) (decide_eq_true hbatch)]
      exact honce event hbatch
    · rw [List.count_eq_zero_of_not_mem, List.count_eq_zero_of_not_mem]
      · exact fun hmem => hbatch (of_decide_eq_true (List.mem_filter.mp hmem).2)
      · intro hmem
        obtain ⟨row, hrow, hevent⟩ := List.mem_flatMap.mp hmem
        exact hbatch (hown row hrow event hevent)

/-! ## Filtered rows -/

omit hreads

theorem filtered_rowIndexesAfter (calls : List (List (RowEvent Q D))) :
    (rowIndexesAfter calls).filtered = (filteredRows calls.flatten).foldl
      (fun filtered row => filtered.insert row.key row.value) .empty := by
  induction calls using List.reverseRecOn with
  | nil => rfl
  | append_singleton calls events ih =>
    rw [rowIndexesAfter_concat, writeRowsBatch, List.flatten_append, List.flatten_singleton,
      filteredRows, List.filterMap_append, List.foldl_append, ← filteredRows, ← ih]
    split_ifs with hevents
    · subst hevents
      rfl
    · rfl

open FilteredRow

theorem perm_getFilteredRows (calls : List (List (RowEvent Q D))) (jobId : String)
    (startTime endTime : Int) :
    ((rowIndexesAfter calls).getFilteredRows jobId startTime endTime).Perm
      (((latest FilteredRow.key (filteredRows calls.flatten)).filter fun row =>
        row.InTexts jobId startTime endTime).map FilteredRow.value) := by
  have hstart : startsWith (jobId ++ ":") (filteredKey jobId startTime) :=
    startsWith_iff.mpr ⟨_, (String.toList_append ..).symm⟩
  have hpairs := perm_entries_foldl_insert key value
    (filteredRows calls.flatten)
  unfold getFilteredRows
  rw [takeWhile_eq_filter, List.filter_filter, filtered_rowIndexesAfter]
  · refine ((hpairs.filter _).map _).trans (List.Perm.of_eq ?_)
    rw [List.filter_map, List.map_map]
    refine congrArg (List.map _) (List.filter_congr fun row _ => ?_)
    rw [Bool.eq_iff_iff]
    simp only [Function.comp_apply, Bool.and_eq_true, decide_eq_true_eq]
    exact and_comm
  · refine ((BTreeMap.sorted _).filter _).imp_of_mem fun {entry entry'} hentry _ hlt hfound => ?_
    obtain ⟨hstarts, hend⟩ := Bool.and_eq_true_iff.mp hfound
    have hle := of_decide_eq_true (List.mem_filter.mp hentry).2
    refine Bool.and_eq_true_iff.mpr ⟨?_, decide_eq_true (hlt.le.trans (of_decide_eq_true hend))⟩
    exact startsWith_of_between ((le_of_startsWith hstart).trans hle) hlt.le hstarts

theorem filtered_iff (calls : List (List (RowEvent Q D))) (jobId : String) (startTime endTime : Int) :
    ((rowIndexesAfter calls).getFilteredRows jobId startTime endTime).Perm
      (((filteredRows calls.flatten).filter fun row =>
        row.Within jobId startTime endTime).map FilteredRow.value) ↔
      FilteredFound calls jobId startTime endTime := by
  rw [(perm_getFilteredRows calls jobId startTime endTime).congr_left, FilteredFound]
  generalize filteredRows calls.flatten = rows
  -- the rows that are found and the rows that should be have those in common that are both
  have hsplit (p q : FilteredRow → Prop) [DecidablePred p] [DecidablePred q] :
      ((latest key rows).filter fun row => p row).Perm
        (((latest key rows).filter fun row => q row ∧ p row) ++
          (latest key rows).filter fun row => p row ∧ ¬ q row) := by
    have hparts := (List.filter_append_perm (fun row => decide (q row))
      ((latest key rows).filter fun row => p row)).symm
    rw [List.filter_filter, List.filter_filter] at hparts
    simpa only [Bool.decide_and, decide_not, Bool.and_comm] using hparts
  have hfound := hsplit (·.InTexts jobId startTime endTime) (·.Within jobId startTime endTime)
  have hshould : (rows.filter fun row => row.Within jobId startTime endTime).Perm
      (((latest key rows).filter fun row =>
          row.Within jobId startTime endTime ∧ row.InTexts jobId startTime endTime) ++
        (((latest key rows).filter fun row =>
            row.Within jobId startTime endTime ∧ ¬ row.InTexts jobId startTime endTime) ++
          (superseded key rows).filter fun row =>
            row.Within jobId startTime endTime)) := by
    refine ((perm_latest_superseded key rows).filter _).trans ?_
    rw [List.filter_append, ← List.append_assoc]
    refine List.Perm.append_right _ ((hsplit (·.Within jobId startTime endTime)
      (·.InTexts jobId startTime endTime)).trans ?_)
    simp only [and_comm]
    exact .refl _
  rw [(hfound.map _).congr_left, (hshould.map _).congr_right, List.map_append, List.map_append,
    List.perm_append_left_iff]

end Reads

/-! ## Statistics -/

/-- The statistics of a job are right for the events so far. -/
structure JobStatistics.Right (jobId : String) (events : List (RowEvent Q D))
    (stats : JobStatistics) : Prop where
  total : stats.totalRows = events.countP fun event => event.data.jobId = jobId
  outcomes : stats.totalRows = stats.successCount + stats.filteredCount + stats.failedCount
  reasons : stats.filterReasons.values.sum = stats.filteredCount

theorem sum_values_insert (m : BTreeMap String Nat) (k : String) :
    (m.insert k ((m.get k).getD 0 + 1)).values.sum = m.values.sum + 1 := by
  rw [(m.perm_values_insert k _).sum_eq, List.sum_cons]
  cases hget : m.get k with
  | none =>
    rw [BTreeMap.remove_eq_self hget, Option.getD_none]
    omega
  | some n =>
    rw [(BTreeMap.perm_values_of_get hget).sum_eq, List.sum_cons, Option.getD_some]
    omega

namespace JobStatistics

variable {stats : JobStatistics} {jobId : String} {events : List (RowEvent Q D)}

theorem Right.count (h : stats.Right jobId events) {event : RowEvent Q D}
    (hjob : event.data.jobId = jobId) : (stats.count event.data).Right jobId (events ++ [event]) := by
  obtain ⟨htotal, houtcomes, hreasons⟩ := h
  have hcount : (events ++ [event]).countP (fun event => event.data.jobId = jobId) =
      stats.totalRows + 1 := by
    rw [List.countP_append, ← htotal, List.countP_singleton, if_pos (decide_eq_true hjob)]
  unfold JobStatistics.count
  cases event.data.outcome with
  | Filtered reason ruleId =>
    refine ⟨hcount.symm, ?_, (sum_values_insert _ reason).trans (congrArg (· + 1) hreasons)⟩
    show stats.totalRows + 1 = stats.successCount + (stats.filteredCount + 1) + stats.failedCount
    omega
  | Processed outputLocation =>
    refine ⟨hcount.symm, ?_, hreasons⟩
    show stats.totalRows + 1 = stats.successCount + 1 + stats.filteredCount + stats.failedCount
    omega
  | ValidationFailed violations =>
    refine ⟨hcount.symm, ?_, hreasons⟩
    show stats.totalRows + 1 = stats.successCount + stats.filteredCount + (stats.failedCount + 1)
    omega
  | Failed error =>
    refine ⟨hcount.symm, ?_, hreasons⟩
    show stats.totalRows + 1 = stats.successCount + stats.filteredCount + (stats.failedCount + 1)
    omega

theorem Right.other (h : stats.Right jobId events) {event : RowEvent Q D}
    (hjob : event.data.jobId ≠ jobId) : stats.Right jobId (events ++ [event]) where
  total := by
    rw [h.total, List.countP_append, List.countP_singleton, if_neg (by simpa using hjob)]
    rfl
  outcomes := h.outcomes
  reasons := h.reasons

def AllRight (events : List (RowEvent Q D)) (stats : String → Option JobStatistics) : Prop :=
  ∀ jobId time, ((stats jobId).getD (new jobId time)).Right jobId events

theorem load_right {stored : BTreeMap String JobStatistics}
    (h : ∀ time, ((stored.get jobId).getD (new jobId time)).Right jobId events) (time : Int) :
    (load stored jobId time).Right jobId events := by
  have hright := h time
  unfold load
  cases hget : stored.get jobId with
  | none =>
    rw [hget] at hright
    exact hright
  | some stats =>
    rw [hget] at hright
    exact ⟨hright.total, hright.outcomes, hright.reasons⟩

theorem allRight_countEvent {stored jobStats : BTreeMap String JobStatistics}
    (h : AllRight events fun jobId => (jobStats.get jobId).or (stored.get jobId))
    (event : RowEvent Q D) : AllRight (events ++ [event]) fun jobId =>
      ((countEvent stored jobStats event).get jobId).or (stored.get jobId) := by
  intro jobId time
  show Right jobId _ (Option.getD (((countEvent stored jobStats event).get jobId).or _) _)
  rw [countEvent, BTreeMap.get_insert]
  split_ifs with hjob
  · subst hjob
    refine Right.count ?_ rfl
    have hright := h event.data.jobId
    cases hget : jobStats.get event.data.jobId with
    | none =>
      simp only [hget, Option.none_or] at hright
      exact load_right hright event.data.timestamp
    | some stats =>
      simp only [hget, Option.some_or] at hright
      exact hright time
  · exact (h jobId time).other (Ne.symm hjob)

theorem allRight_foldl {stored : BTreeMap String JobStatistics} (call : List (RowEvent Q D))
    {jobStats : BTreeMap String JobStatistics}
    (h : AllRight events fun jobId => (jobStats.get jobId).or (stored.get jobId)) :
    AllRight (events ++ call) fun jobId =>
      ((call.foldl (countEvent stored) jobStats).get jobId).or (stored.get jobId) := by
  induction call generalizing events jobStats with
  | nil =>
    rw [List.append_nil]
    exact h
  | cons event call ih =>
    rw [List.foldl_cons, ← List.singleton_append, ← List.append_assoc]
    exact ih (allRight_countEvent h event)

end JobStatistics

theorem allRight_rowIndexesAfter [TextCodec (List (RowEvent Q D))] (calls : List (List (RowEvent Q D))) :
    JobStatistics.AllRight calls.flatten (rowIndexesAfter calls).stats.get := by
  induction calls using List.reverseRecOn with
  | nil => exact fun jobId time => ⟨rfl, rfl, rfl⟩
  | append_singleton calls events ih =>
    rw [rowIndexesAfter_concat, RowIndexes.writeRowsBatch, List.flatten_append,
      List.flatten_singleton]
    split_ifs with hevents
    · rw [hevents, List.append_nil]
      exact ih
    · intro jobId time
      show JobStatistics.Right jobId _ (Option.getD (BTreeMap.get (List.foldl _ _ _) jobId) _)
      rw [get_foldl_entries]
      exact JobStatistics.allRight_foldl events ih jobId time

/-! ## All three -/

/-- Where no call has two events under one key, none that is under a key is lost. -/
theorem lastEvents_eq (h : OnePerKey calls) (key : String) :
    lastEvents key calls = calls.flatten.filter (·.IsUnder key) := by
  unfold lastEvents survivors
  rw [List.filter_flatten, List.map_flatMap, List.flatMap_map, ← List.flatMap_def]
  refine List.flatMap_congr fun call hcall => ?_
  have hshort : (call.filter (·.IsUnder key)).length ≤ 1 := by
    have hpairs := ((h call hcall).filter (·.IsUnder key)).imp_of_mem (S := fun _ _ => False)
      fun {event event'} hevent hevent' hapart => by
        obtain ⟨row, hrow, rfl⟩ := RowLineageEvent.isUnder_iff.mp (List.mem_filter.mp hevent).2
        exact hapart row (of_decide_eq_true hrow) (List.mem_filter.mp hevent').2
    generalize call.filter (·.IsUnder key) = found at hpairs
    rcases found with _ | ⟨first, _ | ⟨second, rest⟩⟩
    · exact Nat.zero_le 1
    · exact Nat.le_refl 1
    · exact absurd ((List.pairwise_cons.mp hpairs).1 second List.mem_cons_self) id
  cases hlast : lastUnder Prod.fst key (RowCall.appends call) with
  | none =>
    refine (List.filter_eq_nil_iff.mpr fun event hevent hunder => ?_).symm
    have hmem : (key, event) ∈ RowCall.appends call := mem_appends.mpr ⟨hevent, hunder⟩
    exact List.filter_eq_nil_iff.mp (lastUnder_eq_none hlast) _ hmem (decide_eq_true rfl)
  | some append =>
    obtain ⟨happend, rfl⟩ := mem_of_lastUnder hlast
    obtain ⟨hevent, hunder⟩ := mem_appends.mp happend
    have hmem : append.2 ∈ call.filter (·.IsUnder append.1) := List.mem_filter.mpr ⟨hevent, hunder⟩
    obtain ⟨event, hfilter⟩ := List.length_eq_one_iff.mp
      (Nat.le_antisymm hshort (List.length_pos_of_mem hmem))
    rw [hfilter] at hmem ⊢
    exact congrArg (fun e => [e]) (List.mem_singleton.mp hmem)

theorem sum_count_filter [DecidableEq Q] [DecidableEq D] (rows : List RowId)
    (events : List (RowEvent Q D)) (event : RowEvent Q D) :
    (rows.map fun row => (events.filter (·.IsUnder row.toKey)).count event).sum =
      rows.countP (event.IsUnder ·.toKey) * events.count event := by
  induction rows with
  | nil => exact (Nat.zero_mul _).symm
  | cons row rows ih =>
    rw [List.map_cons, List.sum_cons, ih, List.countP_cons, Nat.add_mul, Nat.add_comm]
    refine congrArg _ ?_
    split_ifs with hunder
    · rw [List.count_filter hunder, Nat.one_mul]
    · rw [Nat.zero_mul]
      exact List.count_eq_zero_of_not_mem fun hmem => hunder (List.mem_filter.mp hmem).2

theorem batchFound_iff [DecidableEq Q] [DecidableEq D] (h : OnePerKey calls) (batchId : String) :
    BatchFound calls batchId ↔ BatchApart calls batchId := by
  constructor
  · rintro ⟨hown, honce⟩
    refine ⟨fun row hrow event hevent hunder => hown row hrow event ?_, fun event hevent hbatch => ?_⟩
    · rw [lastEvents_eq h]
      exact List.mem_filter.mpr ⟨hevent, hunder⟩
    · have hsum := honce event hbatch
      simp only [lastEvents_eq h, sum_count_filter] at hsum
      exact Nat.eq_of_mul_eq_mul_right (List.count_pos_iff.mpr hevent) (hsum.trans (Nat.one_mul _).symm)
  · rintro ⟨hown, honce⟩
    refine ⟨fun row hrow event hevent => ?_, fun event hbatch => ?_⟩
    · rw [lastEvents_eq h] at hevent
      exact hown row hrow event (List.mem_filter.mp hevent).1 (List.mem_filter.mp hevent).2
    · simp only [lastEvents_eq h, sum_count_filter]
      by_cases hevent : event ∈ calls.flatten
      · rw [honce event hevent hbatch, Nat.one_mul]
      · rw [List.count_eq_zero_of_not_mem hevent, Nat.mul_zero]

/-- **When the queries answer with what was recorded**, where the lists read back. The statistics always
do. Where no call has two events under one key, a batch is found if its events are under one row each of
the last call with it, and nothing else is. -/
theorem queriesAgree_iff [DecidableEq Q] [DecidableEq D] [TextCodec (List (RowEvent Q D))]
    {calls : List (List (RowEvent Q D))} (hreads : ListsReadBack calls) (query : RowQuery) :
    (QueriesAgree calls query ↔ BatchFound calls query.batchId ∧
      FilteredFound calls query.jobId query.startTime query.endTime) ∧
    (OnePerKey calls → (BatchFound calls query.batchId ↔ BatchApart calls query.batchId)) := by
  obtain ⟨htotal, houtcomes, hreasons⟩ := allRight_rowIndexesAfter calls query.jobId query.now
  refine ⟨?_, fun hone => batchFound_iff hone query.batchId⟩
  rw [← batch_iff hreads, ← filtered_iff]
  exact ⟨fun h => ⟨h.batch, h.filtered⟩,
    fun ⟨hbatch, hfiltered⟩ => ⟨hbatch, hfiltered, htotal, houtcomes, hreasons⟩⟩

def ordersBatch (row : Nat) : RowEvent Empty Unit where
  rowId := ⟨.Csv, "orders.csv", .RowNumber (UInt64.ofNat row)⟩
  outputRowId := none
  data := ⟨"b1", "job1", 0, .Processed "orders", ()⟩

def droppedOrder : RowEvent Empty Unit :=
  { ordersBatch 3 with data := ⟨"b1", "job1", 7000000000, .Filtered "duplicate" "r1", ()⟩ }

def otherBatch : RowEvent Empty Unit :=
  { ordersBatch 4 with data := ⟨"b2", "job1", 0, .Processed "orders", ()⟩ }

def sampleOrders : List (RowEvent Empty Unit) :=
  [ordersBatch 1, ordersBatch 2, droppedOrder, otherBatch]

def letterOf (event : RowEvent Empty Unit) : Char := Char.ofNat (sampleOrders.idxOf event)

def orderOf (letter : Char) : RowEvent Empty Unit := sampleOrders.getD letter.toNat otherBatch

instance : TextCodec (List (RowEvent Empty Unit)) where
  toText events := String.ofList (events.map letterOf)
  fromText text := some (text.toList.map orderOf)

theorem secondCall_hides_first :
    (∀ call ∈ [[ordersBatch 1], [ordersBatch 2]], ∀ row,
      call.countP (fun event => event.Concerns row) ≤ 1) ∧
    ¬ QueriesAgree [[ordersBatch 1], [ordersBatch 2]] ⟨"b1", "job1", 0, 0, 0⟩ := by
  refine ⟨fun call hcall row => ?_, fun h => ?_⟩
  · have hlength : call.length = 1 := by
      rcases List.mem_pair.mp hcall with rfl | rfl <;> rfl
    exact List.countP_le_length.trans hlength.le
  · obtain ⟨events, hevents, hperm⟩ := h.batch
    have hlength := congrArg (Option.map List.length) hevents
    rw [Option.map_some, hperm.length_eq] at hlength
    revert hlength
    decide

theorem orders_readBack {calls : List (List (RowEvent Empty Unit))}
    (h : ∀ event ∈ calls.flatten, orderOf (letterOf event) = event) : ListsReadBack calls := by
  intro events hevents
  have hmap : (events.map letterOf).map orderOf = events := by
    rw [List.map_map]
    exact (List.map_congr_left fun event hevent => h event (hevents hevent)).trans (List.map_id _)
  show some (((String.ofList (events.map letterOf)).toList).map orderOf) = some events
  rw [String.toList_ofList, hmap]

/-- A batch in two calls would lose the first; this one comes in one call, with a row that is filtered,
and another call has another batch. -/
theorem oneCall_agrees : QueriesAgree [[ordersBatch 1, droppedOrder], [otherBatch]]
    ⟨"b1", "job1", 0, 9000000000, 0⟩ := by
  have hreads : ListsReadBack [[ordersBatch 1, droppedOrder], [otherBatch]] := orders_readBack (by decide)
  have hagree := queriesAgree_iff hreads ⟨"b1", "job1", 0, 9000000000, 0⟩
  refine hagree.1.mpr ⟨(hagree.2 (by unfold OnePerKey; decide)).mpr ⟨by decide, by decide⟩, ?_⟩
  unfold FilteredFound
  decide +kernel

end Arcxa.Lineage
