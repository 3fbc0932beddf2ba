import Arcxa.Engine.ExecutionBackends

/-!
# Queries for executions

`ExecutionStore` lists and counts the executions that match some filters. It asks its backend for
those with the status, or else for a range of times, and filters what it gets; but what has a status
is counted by the backend, which is not told of the other filters. A query is exact when every record
can be read, nothing that matches is out of range and the status filter is as strict as all of them
(`query_exact_iff`).
-/

namespace Arcxa.Engine

open Arcxa.Workflow (HashOrder)

variable {J : Type}

/-- `usize::MAX`, which is no limit. -/
def usizeMax : UInt64 := .ofNat (2 ^ 64 - 1)

theorem toNat_usizeMax : usizeMax.toNat = 2 ^ 64 - 1 := rfl

/-! ## Filters -/

/-- `ExecutionFilters`, with the filters that the backend does not set. -/
structure ExecutionQuery extends ExecutionFilters where
  workflowId : Option String
  search : Option String

/-- `str::contains`. -/
def textContains (text part : String) : Bool := part.toList <:+: text.toList

namespace ExecutionQuery

variable (toLowercase : String → String) (query : ExecutionQuery)

/-- `matches`. -/
def matchesQuery (execution : WorkflowExecution J) : Bool :=
  query.workflowId.all (execution.workflowId = ·) && query.matchesExecution execution &&
    query.search.all fun search =>
      let searchLower := toLowercase search
      textContains (toLowercase execution.executionId) searchLower ||
        textContains (toLowercase execution.workflowName) searchLower ||
        execution.error.any fun error => textContains (toLowercase error) searchLower

def minTime : Time := 946684800 * 10 ^ 9

def maxTime : Time := 4102444800 * 10 ^ 9

def selection : Selection :=
  match query.status with
  | some status => .byStatus status
  | none =>
    match query.startDate, query.endDate with
    | some start, some stop => .byTimeRange start stop
    | _, _ => .byTimeRange minTime maxTime

end ExecutionQuery

/-! ## The store -/

/-- `ExecutionStoreBackend`, as far as queries use it. -/
structure QueryBackend (J : Type) where
  list : Selection → UInt64 → UInt64 → Except String (List (WorkflowExecution J))
  countByStatus : ExecutionStatus → Except String Nat

section Store

variable (toLowercase : String → String) (backend : QueryBackend J) (query : ExecutionQuery)

def listFiltered (limit offset : Option UInt64) : Except String (List (WorkflowExecution J)) :=
  (backend.list query.selection usizeMax 0).map fun executions =>
    let executions := newestFirst (executions.filter (query.matchesQuery toLowercase))
    let result := executions.drop (offset.getD 0).toNat
    match limit with
    | some limit => result.take limit.toNat
    | none => result

def countFiltered : Except String Nat :=
  match query.status with
  | some status => backend.countByStatus status
  | none => (listFiltered toLowercase backend query none none).map List.length

end Store

/-! ## The two backends -/

inductive AnyBackend (J : Type) where
  | inMemory (hash : HashOrder (WorkflowExecution J)) (backend : InMemoryBackend J)
  | rocksDb (store : RocksExecutionStore J)

namespace AnyBackend

variable [TextCodec (WorkflowExecution J)]

def queries : AnyBackend J → QueryBackend J
  | inMemory hash backend =>
    { list := fun selection limit offset => .ok (backend.list hash selection limit offset)
      countByStatus := fun status => .ok (backend.countByStatus status) }
  | rocksDb store =>
    { list := RocksDbBackend.list store
      countByStatus := RocksDbBackend.countByStatus store }

def stored : AnyBackend J → List (WorkflowExecution J)
  | inMemory _ backend => backend.executions.values.map backend.mergeLogs
  | rocksDb store => store.records

/-- Every record can be read. -/
def Readable : AnyBackend J → Prop
  | inMemory _ _ => True
  | rocksDb store => store.Readable

end AnyBackend

/-! ## What is to hold -/

/-- The list is the executions that match, newest first; the pages are parts of it, and it is as
long as the count says. -/
def QueryExact (toLowercase : String → String) (backend : QueryBackend J)
    (stored : List (WorkflowExecution J)) (query : ExecutionQuery) : Prop :=
  ∃ all, listFiltered toLowercase backend query none none = .ok all ∧
    all.Perm (stored.filter (query.matchesQuery toLowercase)) ∧
    (all.Pairwise fun a b => b.startedAt ≤ a.startedAt) ∧
    (∀ offset, listFiltered toLowercase backend query none offset =
      .ok (all.drop (offset.getD 0).toNat)) ∧
    (∀ limit offset, listFiltered toLowercase backend query (some limit) offset =
      .ok ((all.drop (offset.getD 0).toNat).take limit.toNat)) ∧
    countFiltered toLowercase backend query = .ok all.length

/-- What a query needs to be exact. -/
structure Answerable (toLowercase : String → String) (stored : List (WorkflowExecution J))
    (query : ExecutionQuery) : Prop where
  /-- Without a status and one of the dates, what matches is from this century. -/
  inRange : query.status = none → query.startDate = none ∨ query.endDate = none →
    ∀ execution ∈ stored, query.matchesQuery toLowercase execution →
      ExecutionQuery.minTime ≤ execution.startedAt ∧ execution.startedAt ≤ ExecutionQuery.maxTime
  /-- With a status, what has it matches. -/
  counted : ∀ status ∈ query.status, ∀ execution ∈ stored, execution.status = status →
    query.matchesQuery toLowercase execution

/-! ## What the backends return -/

section Backends

variable {hash : HashOrder (WorkflowExecution J)} {backend : InMemoryBackend J}

theorem InMemoryBackend.list_all (selection : Selection)
    (hfits : backend.executions.values.length < 2 ^ 64) :
    (backend.list hash selection usizeMax 0).Perm
      ((backend.executions.values.map backend.mergeLogs).filter selection.keep) := by
  have hperm : (newestFirst ((hash.order backend.executions.values).filter selection.keep)).Perm
      (backend.executions.values.filter selection.keep) :=
    perm_newestFirst.trans ((hash.perm _).filter _)
  have hlength : (newestFirst ((hash.order backend.executions.values).filter
      selection.keep)).length ≤ 2 ^ 64 - 1 := by
    have hle := List.length_filter_le selection.keep backend.executions.values
    rw [hperm.length_eq]
    omega
  rw [backend.list_eq_listWhere, listWhere, backend.filter_mergeLogs]
  refine List.Perm.map _ ?_
  rw [UInt64.toNat_zero, List.drop_zero, toNat_usizeMax, List.take_of_length_le hlength]
  exact hperm

theorem RocksDbBackend.paginate_all {found : List (WorkflowExecution J)}
    (h : found.length < 2 ^ 64) : paginate found usizeMax 0 = .ok found := by
  have hstop : (0 + usizeMax).toNat = 2 ^ 64 - 1 := rfl
  have hmin : min (2 ^ 64 - 1) found.length = found.length := min_eq_right (by omega)
  rw [paginate, hstop, hmin, UInt64.toNat_zero]
  split_ifs with hempty
  · rw [List.eq_nil_of_length_eq_zero (Nat.le_zero.mp hempty)]
  · dsimp only
    rw [if_neg (Nat.not_lt_zero _), List.take_length, List.drop_zero]

variable [TextCodec (WorkflowExecution J)] {store : RocksExecutionStore J}

theorem RocksDbBackend.list_all (selection : Selection) (hreadable : store.Readable)
    (hfits : store.records.length < 2 ^ 64) :
    ∃ page, list store selection usizeMax 0 = .ok page ∧
      page.Perm (store.records.filter selection.keep) := by
  have hscan : store.scan = .ok store.records := store.scan_eq.trans (if_pos hreadable)
  have hshort : ∀ keep : WorkflowExecution J → Bool,
      (store.records.filter keep).length < 2 ^ 64 :=
    fun keep => (List.length_filter_le _ _).trans_lt hfits
  have hfiltered : ∀ filters : ExecutionFilters, ∃ page,
      ((store.listFiltered filters usizeMax 0).mapError internal).bind
          (paginate · usizeMax 0) = .ok page ∧
        page.Perm (store.records.filter filters.matchesExecution) := by
    intro filters
    have hall : store.listFiltered filters usizeMax 0 =
        .ok (newestFirst (store.records.filter filters.matchesExecution)) := by
      rw [RocksExecutionStore.listFiltered, hscan, UInt64.toNat_zero, toNat_usizeMax]
      refine congrArg Except.ok (List.take_of_length_le ?_)
      have hlt := hshort filters.matchesExecution
      rw [List.drop_zero, length_newestFirst]
      omega
    refine ⟨_, ?_, perm_newestFirst⟩
    rw [hall]
    exact paginate_all (length_newestFirst.trans_lt (hshort _))
  cases selection with
  | byWorkflow workflowId =>
    refine ⟨_, ?_, .refl _⟩
    rw [list, listByWorkflow, RocksExecutionStore.listByWorkflow, hscan]
    exact paginate_all (hshort _)
  | byStatus status =>
    rw [← keep_byStatus]
    exact hfiltered _
  | byTimeRange start stop =>
    rw [← keep_byTimeRange]
    exact hfiltered _

/-- **A listing reads every record**, those too that it does not select. -/
theorem RocksDbBackend.readable_of_list {selection : Selection} {limit offset : UInt64}
    {page : List (WorkflowExecution J)} (h : list store selection limit offset = .ok page) :
    store.Readable := by
  by_contra hunreadable
  have hscan : store.scan = .error "Failed to deserialize execution" :=
    store.scan_eq.trans (if_neg hunreadable)
  cases selection with
  | byWorkflow workflowId =>
    rw [list, listByWorkflow, RocksExecutionStore.listByWorkflow, hscan] at h
    cases h
  | byStatus status =>
    rw [list, listByStatus, RocksExecutionStore.listFiltered, hscan] at h
    cases h
  | byTimeRange start stop =>
    rw [list, listByTimeRange, RocksExecutionStore.listFiltered, hscan] at h
    cases h

end Backends

namespace AnyBackend

variable [TextCodec (WorkflowExecution J)] (backend : AnyBackend J)

open RocksDbBackend

/-- **A backend gives what is selected**, all of it where there is no limit. -/
theorem list_all (selection : Selection) (hreadable : backend.Readable)
    (hfits : backend.stored.length < 2 ^ 64) :
    ∃ page, backend.queries.list selection usizeMax 0 = .ok page ∧
      page.Perm (backend.stored.filter selection.keep) := by
  cases backend with
  | inMemory hash backend =>
    refine ⟨_, rfl, InMemoryBackend.list_all selection ?_⟩
    rwa [stored, List.length_map] at hfits
  | rocksDb store => exact list_all selection hreadable hfits

theorem readable_of_list {selection : Selection} {limit offset : UInt64}
    {page : List (WorkflowExecution J)}
    (h : backend.queries.list selection limit offset = .ok page) : backend.Readable := by
  cases backend with
  | inMemory hash backend => trivial
  | rocksDb store => exact readable_of_list h

theorem countByStatus (status : ExecutionStatus) (hreadable : backend.Readable) :
    backend.queries.countByStatus status =
      .ok (backend.stored.filter (Selection.byStatus status).keep).length := by
  cases backend with
  | inMemory hash backend =>
    rw [stored, backend.filter_mergeLogs, List.length_map]
    rfl
  | rocksDb store =>
    have hscan : store.scan = .ok store.records := store.scan_eq.trans (if_pos hreadable)
    show countByStatus store status = _
    rw [← keep_byStatus, countByStatus,
      RocksExecutionStore.countFiltered, hscan]
    rfl

end AnyBackend

/-! ## When queries are exact -/

section Exact

variable {toLowercase : String → String} {query : ExecutionQuery}
  {stored : List (WorkflowExecution J)}

theorem filter_perm_filter_iff {A : Type} {p q : A → Bool} {l : List A} :
    ((l.filter q).filter p).Perm (l.filter p) ↔ ∀ a ∈ l, p a → q a := by
  rw [List.filter_filter]
  constructor
  · intro hperm a ha hp
    have hmem := hperm.mem_iff.mpr (List.mem_filter.mpr ⟨ha, hp⟩)
    exact (Bool.and_eq_true_iff.mp (List.mem_filter.mp hmem).2).2
  · intro hall
    refine List.Perm.of_eq (List.filter_congr fun a ha => ?_)
    cases hp : p a with
    | false => rfl
    | true => rw [hall a ha hp, Bool.true_and]

theorem matchesQuery_filters {execution : WorkflowExecution J}
    (h : query.matchesQuery toLowercase execution = true) :
    query.matchesExecution execution = true := by
  rw [ExecutionQuery.matchesQuery, Bool.and_eq_true, Bool.and_eq_true] at h
  exact h.1.2

theorem selected_iff : (∀ execution ∈ stored, query.matchesQuery toLowercase execution = true →
      query.selection.keep execution = true) ↔
    (query.status = none → query.startDate = none ∨ query.endDate = none →
      ∀ execution ∈ stored, query.matchesQuery toLowercase execution →
        ExecutionQuery.minTime ≤ execution.startedAt ∧
          execution.startedAt ≤ ExecutionQuery.maxTime) := by
  have hfilters : ∀ execution : WorkflowExecution J,
      query.matchesQuery toLowercase execution = true →
        query.matchesExecution execution = true := fun _ => matchesQuery_filters
  unfold ExecutionQuery.selection
  unfold ExecutionFilters.matchesExecution at hfilters
  cases hstatus : query.status with
  | some status =>
    refine iff_of_true (fun execution _ hmatches => ?_) fun hnone => by cases hnone
    have hkeep := hfilters execution hmatches
    rw [hstatus, Bool.and_eq_true, Bool.and_eq_true] at hkeep
    exact hkeep.1.1
  | none =>
    cases hstart : query.startDate with
    | none => simp [Selection.keep]
    | some start =>
      cases hstop : query.endDate with
      | none => simp [Selection.keep]
      | some stop =>
        refine iff_of_true (fun execution _ hmatches => ?_) fun _ hdates => by simp at hdates
        have hkeep := hfilters execution hmatches
        rw [hstart, hstop, Bool.and_eq_true, Bool.and_eq_true] at hkeep
        exact decide_eq_true ⟨of_decide_eq_true hkeep.1.2, of_decide_eq_true hkeep.2⟩

theorem length_byStatus_iff {status : ExecutionStatus} (hstatus : query.status = some status) :
    (stored.filter (Selection.byStatus status).keep).length =
        (stored.filter (query.matchesQuery toLowercase)).length ↔
      ∀ execution ∈ stored, execution.status = status →
        query.matchesQuery toLowercase execution = true := by
  have hselection : query.selection = .byStatus status := by
    rw [ExecutionQuery.selection, hstatus]
  have hsame : ((stored.filter (Selection.byStatus status).keep).filter
      (query.matchesQuery toLowercase)).Perm
        (stored.filter (query.matchesQuery toLowercase)) := by
    rw [← hselection, filter_perm_filter_iff, selected_iff, hstatus]
    intro hnone
    cases hnone
  rw [← hsame.length_eq, eq_comm, List.length_filter_eq_length_iff]
  simp only [List.mem_filter, Selection.keep, decide_eq_true_eq, and_imp]

theorem query_exact_iff_of_readable [TextCodec (WorkflowExecution J)] {backend : AnyBackend J}
    (hreadable : backend.Readable) (hfits : backend.stored.length < 2 ^ 64) :
    QueryExact toLowercase backend.queries backend.stored query ↔
      Answerable toLowercase backend.stored query := by
  obtain ⟨page, hpage, hperm⟩ := backend.list_all query.selection hreadable hfits
  -- what is listed without a limit
  generalize hall : newestFirst (page.filter (query.matchesQuery toLowercase)) = all
  have hlist : ∀ offset, listFiltered toLowercase backend.queries query none offset =
      .ok (all.drop (offset.getD 0).toNat) := by
    intro offset
    rw [listFiltered, hpage, ← hall]
    rfl
  have hpages : ∀ limit offset, listFiltered toLowercase backend.queries query (some limit) offset =
      .ok ((all.drop (offset.getD 0).toNat).take limit.toNat) := by
    intro limit offset
    rw [listFiltered, hpage, ← hall]
    rfl
  have hfirst : listFiltered toLowercase backend.queries query none none = .ok all := hlist none
  have hsorted : all.Pairwise fun a b => b.startedAt ≤ a.startedAt := hall ▸ pairwise_newestFirst
  have hselected : all.Perm ((backend.stored.filter query.selection.keep).filter
      (query.matchesQuery toLowercase)) := hall ▸ perm_newestFirst.trans (hperm.filter _)
  have hcount : all.Perm (backend.stored.filter (query.matchesQuery toLowercase)) →
      (countFiltered toLowercase backend.queries query = .ok all.length ↔
        ∀ status ∈ query.status, ∀ execution ∈ backend.stored, execution.status = status →
          query.matchesQuery toLowercase execution) := by
    intro hmatches
    unfold countFiltered
    cases hstatus : query.status with
    | none =>
      dsimp only
      rw [hfirst]
      exact iff_of_true rfl fun status hsome => by cases hsome
    | some status =>
      dsimp only
      rw [backend.countByStatus status hreadable, Except.ok.injEq, hmatches.length_eq,
        length_byStatus_iff hstatus]
      simp only [Option.mem_some_iff, forall_eq']
  constructor
  · rintro ⟨all', hall', hmatches, -, -, -, hcounted⟩
    rw [hfirst] at hall'
    cases hall'
    exact ⟨selected_iff.mp (filter_perm_filter_iff.mp (hselected.symm.trans hmatches)),
      (hcount hmatches).mp hcounted⟩
  · rintro ⟨hrange, hcounted⟩
    have hmatches := hselected.trans (filter_perm_filter_iff.mpr (selected_iff.mpr hrange))
    exact ⟨all, hfirst, hmatches, hsorted, hlist, hpages, (hcount hmatches).mpr hcounted⟩

/-- **When a query is exact.** -/
theorem query_exact_iff [TextCodec (WorkflowExecution J)] (backend : AnyBackend J)
    (toLowercase : String → String) (query : ExecutionQuery)
    (hfits : backend.stored.length < 2 ^ 64) :
    QueryExact toLowercase backend.queries backend.stored query ↔
      backend.Readable ∧ Answerable toLowercase backend.stored query := by
  constructor
  · intro h
    obtain ⟨all, hall, -⟩ := id h
    rw [listFiltered] at hall
    cases hpage : backend.queries.list query.selection usizeMax 0 with
    | error error =>
      rw [hpage] at hall
      cases hall
    | ok page =>
      have hreadable := backend.readable_of_list hpage
      exact ⟨hreadable, (query_exact_iff_of_readable hreadable hfits).mp h⟩
  · rintro ⟨hreadable, h⟩
    exact (query_exact_iff_of_readable hreadable hfits).mpr h

end Exact

/-! ## A status and a workflow -/

def pendingAndPaused : AnyBackend Unit :=
  .rocksDb ⟨.ofList [("a", TextCodec.toText (pendingExecution "a" 0)),
    ("exec", TextCodec.toText pausedExecution)]⟩

def pendingOf (workflowId : Option String) : ExecutionQuery where
  status := some .Pending
  startDate := none
  endDate := none
  workflowId
  search := none

/-- The status and the workflow of the pending execution; the paused one is of the same. -/
theorem pending_exact : QueryExact id pendingAndPaused.queries pendingAndPaused.stored
    (pendingOf (some "load")) := by
  have hstored : pendingAndPaused.stored = [pendingExecution "a" 0, pausedExecution] := by
    decide +kernel
  have hreadable : pendingAndPaused.Readable := by
    unfold AnyBackend.Readable pendingAndPaused
    decide +kernel
  refine (query_exact_iff pendingAndPaused id (pendingOf (some "load")) ?_).mpr
    ⟨hreadable, ?_, ?_⟩
  · rw [hstored]
    decide
  · intro hnone
    cases hnone
  · rw [hstored]
    rintro status ⟨⟩
    decide

/-- The pending executions of another workflow are listed as none, and counted as one. -/
theorem workflow_not_counted : ¬ ∀ (J : Type) [TextCodec (WorkflowExecution J)]
    (backend : AnyBackend J) (toLowercase : String → String) (query : ExecutionQuery),
    backend.Readable → backend.stored.length < 2 ^ 64 →
      QueryExact toLowercase backend.queries backend.stored query := by
  intro h
  let onePending : AnyBackend Unit := .inMemory anyOrder
    ⟨.ofList [("a", pendingExecution "a" 0)], .empty⟩
  obtain ⟨all, -, hperm, -, -, -, hcount⟩ :=
    h Unit onePending id (pendingOf (some "wf-2")) trivial (by decide)
  have hone : countFiltered id onePending.queries (pendingOf (some "wf-2")) = .ok 1 := rfl
  have hnone : onePending.stored.filter ((pendingOf (some "wf-2")).matchesQuery id) = [] := by
    decide
  rw [hnone, List.perm_nil] at hperm
  rw [hone, hperm] at hcount
  cases hcount

end Arcxa.Engine
