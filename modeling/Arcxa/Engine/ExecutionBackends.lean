import Arcxa.Engine.Execution
import Arcxa.Lib.Neighbours
import Arcxa.Lib.TextCodec
import Arcxa.Workflow.Deduplicator

/-!
# The two backends of the execution store

`InMemoryBackend` keeps logs beside the records and merges them into what it returns;
`RocksDbBackend` keeps them in the records, which it keeps as texts. The backends answer a run of
calls alike when every call of it is `Alike` (`interchangeable`).
-/

namespace Arcxa.Engine

open Arcxa.Workflow (HashOrder)
open BTreeMap

variable {J : Type}

/-! ## Calls -/

/-- What a listing selects. -/
inductive Selection where
  | byWorkflow (workflowId : String)
  | byStatus (status : ExecutionStatus)
  | byTimeRange (start stop : Time)

/-- The clock is read where a status is set and where a log is added. -/
inductive StoreCall (J : Type) where
  | save (execution : WorkflowExecution J)
  | get (id : String)
  | update (execution : WorkflowExecution J)
  | updateStatus (id : String) (status : ExecutionStatus) (now : Time)
  | delete (id : String)
  | list (selection : Selection) (limit offset : UInt64)
  | addLog (id : String) (log : ExecutionLog J) (now : Time)
  | getLogs (id : String)
  | countTotal
  | countByStatus (status : ExecutionStatus)

inductive StoreAnswer (J : Type) where
  | done
  | execution (found : Option (WorkflowExecution J))
  | page (executions : List (WorkflowExecution J))
  | logs (logs : List (ExecutionLog J))
  | count (count : Nat)
  deriving DecidableEq

/-- `update_status` of the store over a backend. -/
def updateStatusBy {B : Type} (get : String → Except String (Option (WorkflowExecution J)))
    (update : WorkflowExecution J → Except String B) (id : String) (status : ExecutionStatus)
    (now : Time) : Except String B :=
  match get id with
  | .error error => .error error
  | .ok none => .error ("Execution '" ++ id ++ "' not found")
  | .ok (some execution) => update (execution.updateStatus status now)

def newestFirst (found : List (WorkflowExecution J)) : List (WorkflowExecution J) :=
  sortByKey (fun execution => OrderDual.toDual execution.startedAt) found

/-! ## The in-memory backend -/

structure InMemoryBackend (J : Type) where
  executions : BTreeMap String (WorkflowExecution J)
  logs : BTreeMap String (List (ExecutionLog J))

namespace InMemoryBackend

def new : InMemoryBackend J := ⟨.empty, .empty⟩

variable (hash : HashOrder (WorkflowExecution J)) (backend : InMemoryBackend J)

def mergeLogs (execution : WorkflowExecution J) : WorkflowExecution J :=
  match backend.logs.get execution.executionId with
  | some logs => { execution with logs }
  | none => execution

def save (execution : WorkflowExecution J) : Except String (InMemoryBackend J) :=
  ((Engine.executions.save backend.executions execution).mapError PersistenceError.text).map
    fun executions => { backend with executions }

def get (id : String) : Option (WorkflowExecution J) :=
  (backend.executions.get id).map backend.mergeLogs

def update (execution : WorkflowExecution J) : Except String (InMemoryBackend J) :=
  ((Engine.executions.update backend.executions execution).mapError PersistenceError.text).map
    fun executions => { backend with executions }

def delete (id : String) : Except String (InMemoryBackend J) :=
  ((Engine.executions.delete backend.executions id).mapError PersistenceError.text).map
    fun executions => ⟨executions, backend.logs.remove id⟩

def listWhere (keep : WorkflowExecution J → Bool) (limit offset : UInt64) :
    List (WorkflowExecution J) :=
  (((newestFirst ((hash.order backend.executions.values).filter keep)).drop offset.toNat).take
    limit.toNat).map backend.mergeLogs

def listByWorkflow (workflowId : String) : UInt64 → UInt64 → List (WorkflowExecution J) :=
  backend.listWhere hash (·.workflowId = workflowId)

def listByStatus (status : ExecutionStatus) : UInt64 → UInt64 → List (WorkflowExecution J) :=
  backend.listWhere hash (·.status = status)

def listByTimeRange (start stop : Time) : UInt64 → UInt64 → List (WorkflowExecution J) :=
  backend.listWhere hash fun execution => start ≤ execution.startedAt ∧ execution.startedAt ≤ stop

def addLog (id : String) (log : ExecutionLog J) : Except String (InMemoryBackend J) :=
  if (backend.executions.get id).isNone then
    .error (PersistenceError.NotFound "WorkflowExecution" id).text
  else .ok { backend with logs := backend.logs.upsert id fun logs => logs.getD [] ++ [log] }

def getLogs (id : String) : Except String (List (ExecutionLog J)) :=
  if (backend.executions.get id).isNone then
    .error (PersistenceError.NotFound "WorkflowExecution" id).text
  else .ok ((backend.logs.get id).getD [])

def countTotal : Nat := backend.executions.values.length

def countByStatus (status : ExecutionStatus) : Nat :=
  (backend.executions.values.filter (·.status = status)).length

def list : Selection → UInt64 → UInt64 → List (WorkflowExecution J)
  | .byWorkflow workflowId => backend.listByWorkflow hash workflowId
  | .byStatus status => backend.listByStatus hash status
  | .byTimeRange start stop => backend.listByTimeRange hash start stop

/-- A call, which changes nothing if it fails. -/
def call : StoreCall J → Except String (InMemoryBackend J × StoreAnswer J)
  | .save execution => (backend.save execution).map (·, .done)
  | .get id => .ok (backend, .execution (backend.get id))
  | .update execution => (backend.update execution).map (·, .done)
  | .updateStatus id status now =>
    (updateStatusBy (fun id => .ok (backend.get id)) backend.update id status now).map (·, .done)
  | .delete id => (backend.delete id).map (·, .done)
  | .list selection limit offset => .ok (backend, .page (backend.list hash selection limit offset))
  | .addLog id log _ => (backend.addLog id log).map (·, .done)
  | .getLogs id => (backend.getLogs id).map (backend, .logs ·)
  | .countTotal => .ok (backend, .count backend.countTotal)
  | .countByStatus status => .ok (backend, .count (backend.countByStatus status))

end InMemoryBackend

/-! ## The RocksDB backend -/

/-- The filters that the backend sets. -/
structure ExecutionFilters where
  status : Option ExecutionStatus
  startDate : Option Time
  endDate : Option Time

def ExecutionFilters.matchesExecution (filters : ExecutionFilters)
    (execution : WorkflowExecution J) : Bool :=
  filters.status.all (execution.status = ·) && filters.startDate.all (· ≤ execution.startedAt) &&
    filters.endDate.all (execution.startedAt ≤ ·)

/-- The column family of the executions, which are written as texts. -/
structure RocksExecutionStore (J : Type) where
  executions : BTreeMap String String

namespace RocksExecutionStore

def new : RocksExecutionStore J := ⟨.empty⟩

variable [TextCodec (WorkflowExecution J)] (store : RocksExecutionStore J)

def deserialize (text : String) : Except String (WorkflowExecution J) :=
  match TextCodec.fromText text with
  | some execution => .ok execution
  | none => .error "Failed to deserialize execution"

/-- The loop of the listings; a text that is no execution ends it. -/
def scan : Except String (List (WorkflowExecution J)) := store.executions.values.mapM deserialize

def save (execution : WorkflowExecution J) : Except String (RocksExecutionStore J) :=
  if (store.executions.get execution.executionId).isSome then
    .error ("Execution '" ++ execution.executionId ++ "' already exists")
  else .ok ⟨store.executions.insert execution.executionId (TextCodec.toText execution)⟩

def get (id : String) : Except String (Option (WorkflowExecution J)) :=
  match store.executions.get id with
  | some text => (deserialize text).map some
  | none => .ok none

def getRequired (id : String) : Except String (WorkflowExecution J) :=
  match store.get id with
  | .error error => .error error
  | .ok none => .error ("Execution '" ++ id ++ "' not found")
  | .ok (some execution) => .ok execution

def update (execution : WorkflowExecution J) : Except String (RocksExecutionStore J) :=
  if (store.executions.get execution.executionId).isNone then
    .error ("Execution '" ++ execution.executionId ++ "' not found")
  else .ok ⟨store.executions.insert execution.executionId (TextCodec.toText execution)⟩

def delete (id : String) : Except String (RocksExecutionStore J) :=
  if (store.executions.get id).isNone then .error ("Execution '" ++ id ++ "' not found")
  else .ok ⟨store.executions.remove id⟩

def addLog (id : String) (log : ExecutionLog J) (now : Time) :
    Except String (RocksExecutionStore J) :=
  match store.getRequired id with
  | .error error => .error error
  | .ok execution => store.update (execution.addLog log now)

def getLogs (id : String) : Except String (List (ExecutionLog J)) :=
  (store.getRequired id).map WorkflowExecution.logs

def listByWorkflow (workflowId : String) : Except String (List (WorkflowExecution J)) :=
  store.scan.map (List.filter (·.workflowId = workflowId))

def listFiltered (filters : ExecutionFilters) (limit offset : UInt64) :
    Except String (List (WorkflowExecution J)) :=
  store.scan.map fun found =>
    ((newestFirst (found.filter filters.matchesExecution)).drop offset.toNat).take limit.toNat

def count : Nat := store.executions.values.length

def countFiltered (filters : ExecutionFilters) : Except String Nat :=
  store.scan.map fun found => (found.filter filters.matchesExecution).length

end RocksExecutionStore

namespace RocksDbBackend

def internal (error : String) : String := "Internal error in backend 'RocksDB': " ++ error

/-- `Apply pagination`. Past the end of `usize` the sum wraps and the slice panics, or it is the sum
that panics; the error is that of the task. -/
def paginate (found : List (WorkflowExecution J)) (limit offset : UInt64) :
    Except String (List (WorkflowExecution J)) :=
  if found.length ≤ offset.toNat then .ok []
  else
    let stop := min (offset + limit).toNat found.length
    if stop < offset.toNat then .error "Internal error in backend 'tokio': task panicked"
    else .ok ((found.take stop).drop offset.toNat)

variable [TextCodec (WorkflowExecution J)] (store : RocksExecutionStore J)

def listByWorkflow (workflowId : String) (limit offset : UInt64) :
    Except String (List (WorkflowExecution J)) :=
  ((store.listByWorkflow workflowId).mapError internal).bind (paginate · limit offset)

def listByStatus (status : ExecutionStatus) (limit offset : UInt64) :
    Except String (List (WorkflowExecution J)) :=
  ((store.listFiltered ⟨some status, none, none⟩ limit offset).mapError internal).bind
    (paginate · limit offset)

def listByTimeRange (start stop : Time) (limit offset : UInt64) :
    Except String (List (WorkflowExecution J)) :=
  ((store.listFiltered ⟨none, some start, some stop⟩ limit offset).mapError internal).bind
    (paginate · limit offset)

def get (id : String) : Except String (Option (WorkflowExecution J)) :=
  (store.get id).mapError internal

def update (execution : WorkflowExecution J) : Except String (RocksExecutionStore J) :=
  (store.update execution).mapError internal

def countByStatus (status : ExecutionStatus) : Except String Nat :=
  (store.countFiltered ⟨some status, none, none⟩).mapError internal

def list : Selection → UInt64 → UInt64 → Except String (List (WorkflowExecution J))
  | .byWorkflow workflowId => listByWorkflow store workflowId
  | .byStatus status => listByStatus store status
  | .byTimeRange start stop => listByTimeRange store start stop

def call : StoreCall J → Except String (RocksExecutionStore J × StoreAnswer J)
  | .save execution => ((store.save execution).mapError internal).map (·, .done)
  | .get id => (get store id).map (store, .execution ·)
  | .update execution => (update store execution).map (·, .done)
  | .updateStatus id status now =>
    (updateStatusBy (get store) (update store) id status now).map (·, .done)
  | .delete id => ((store.delete id).mapError internal).map (·, .done)
  | .list selection limit offset => (list store selection limit offset).map (store, .page ·)
  | .addLog id log now => ((store.addLog id log now).mapError internal).map (·, .done)
  | .getLogs id => ((store.getLogs id).mapError internal).map (store, .logs ·)
  | .countTotal => .ok (store, .count store.count)
  | .countByStatus status => (countByStatus store status).map (store, .count ·)

end RocksDbBackend

/-! ## Runs -/

section

variable {B C A : Type} (call : B → C → Except String (B × A))

def next (backend : B) (c : C) : B := (call backend c).toOption.elim backend Prod.fst

def answer (backend : B) (c : C) : Option A := (call backend c).toOption.map Prod.snd

def answers : B → List C → List (Option A)
  | _, [] => []
  | backend, c :: calls => answer call backend c :: answers (next call backend c) calls

/-- Every call of a run meets a condition on the backend before it. -/
def Along (P : B → C → Prop) : B → List C → Prop
  | _, [] => True
  | backend, c :: calls => P backend c ∧ Along P (next call backend c) calls

instance decidableAlong {P : B → C → Prop} [∀ backend c, Decidable (P backend c)] :
    (backend : B) → (calls : List C) → Decidable (Along call P backend calls)
  | _, [] => .isTrue trivial
  | backend, c :: calls =>
    @instDecidableAnd _ _ _ (decidableAlong (next call backend c) calls)

end

def Selection.keep (selection : Selection) (execution : WorkflowExecution J) : Bool :=
  match selection with
  | .byWorkflow workflowId => execution.workflowId = workflowId
  | .byStatus status => execution.status = status
  | .byTimeRange start stop => start ≤ execution.startedAt ∧ execution.startedAt ≤ stop

namespace RocksExecutionStore

variable [TextCodec (WorkflowExecution J)] (store : RocksExecutionStore J)

/-- Every text is an execution. -/
def Readable : Prop :=
  ∀ text ∈ store.executions.values, (TextCodec.fromText (A := WorkflowExecution J) text).isSome

instance : Decidable store.Readable := inferInstanceAs (Decidable (∀ _ ∈ _, _))

/-- The executions that the texts are. -/
def records : List (WorkflowExecution J) :=
  store.executions.values.filterMap TextCodec.fromText

def selected (selection : Selection) : List (WorkflowExecution J) :=
  store.records.filter selection.keep

/-- The `started_at` values are distinct. -/
def Distinct : Prop := (store.records.map WorkflowExecution.startedAt).Nodup

instance : Decidable store.Distinct := inferInstanceAs (Decidable (List.Nodup _))

end RocksExecutionStore

/-- The part of a list that is a page of it is a page of the newest first. -/
def PlacedByTime (found : List (WorkflowExecution J)) (limit offset : Nat) : Prop :=
  (((found.drop offset).take limit).Pairwise fun a b => b.startedAt ≤ a.startedAt) ∧
    (∀ a ∈ found.take offset, ∀ b ∈ (found.drop offset).take limit, b.startedAt ≤ a.startedAt) ∧
    ∀ a ∈ (found.drop offset).take limit, ∀ b ∈ (found.drop offset).drop limit,
      b.startedAt ≤ a.startedAt

def AlikePage (found : List (WorkflowExecution J)) (limit offset : UInt64) : Selection → Prop
  | .byWorkflow _ => found.length ≤ offset.toNat ∨ limit = 0 ∨
      offset.toNat + limit.toNat < 2 ^ 64 ∧ PlacedByTime found limit.toNat offset.toNat
  | .byStatus _ | .byTimeRange _ _ => found.length ≤ offset.toNat ∨ limit = 0 ∨ offset = 0

/-- The condition on a call and the records before it. What the call writes is to read back. -/
def Alike [TextCodec (WorkflowExecution J)] (store : RocksExecutionStore J) : StoreCall J → Prop
  | .save execution => store.get execution.executionId = .ok none →
      execution.logs = [] ∧ TextCodec.ReadsBack execution
  | .update execution => ∀ stored, store.get execution.executionId = .ok (some stored) →
      execution.logs = stored.logs ∧ TextCodec.ReadsBack execution
  | .updateStatus id status now => ∀ stored, store.get id = .ok (some stored) →
      TextCodec.ReadsBack (stored.updateStatus status now)
  | .addLog id log now => ∀ stored, store.get id = .ok (some stored) →
      stored.updatedAt = now ∧ TextCodec.ReadsBack (stored.addLog log now)
  | .list selection limit offset => AlikePage (store.selected selection) limit offset selection
  | .get _ | .delete _ | .getLogs _ | .countTotal | .countByStatus _ => True

/-! ## Scans -/

section

variable [TextCodec (WorkflowExecution J)]

theorem mapM_deserialize (texts : List String) :
    texts.mapM (RocksExecutionStore.deserialize (J := J)) =
      if ∀ text ∈ texts, (TextCodec.fromText (A := WorkflowExecution J) text).isSome then
        .ok (texts.filterMap TextCodec.fromText)
      else .error "Failed to deserialize execution" := by
  induction texts with
  | nil => rfl
  | cons text texts ih =>
    rw [List.mapM_cons, ih, RocksExecutionStore.deserialize]
    cases hread : TextCodec.fromText (A := WorkflowExecution J) text with
    | none =>
      simp only [List.forall_mem_cons, hread, Option.isSome_none, Bool.false_eq_true, false_and,
        if_false]
      rfl
    | some execution =>
      simp only [List.forall_mem_cons, hread, Option.isSome_some, true_and]
      split_ifs
      · rw [List.filterMap_cons_some hread]
        rfl
      · rfl

/-- **A scan reads everything or fails.** -/
theorem RocksExecutionStore.scan_eq (store : RocksExecutionStore J) :
    store.scan = if store.Readable then .ok store.records
      else .error "Failed to deserialize execution" :=
  mapM_deserialize store.executions.values

end

/-! ## Pages -/

section

variable {found found' : List (WorkflowExecution J)} {limit offset : UInt64}

theorem perm_newestFirst : (newestFirst found).Perm found := perm_sortByKey found

theorem length_newestFirst : (newestFirst found).length = found.length :=
  perm_newestFirst.length_eq

theorem pairwise_newestFirst :
    (newestFirst found).Pairwise fun a b => b.startedAt ≤ a.startedAt := by
  have h := pairwise_sortByKey (k := fun execution : WorkflowExecution J =>
    OrderDual.toDual execution.startedAt) found
  exact h

theorem newestFirst_eq (hdistinct : (found.map WorkflowExecution.startedAt).Nodup)
    (hperm : found'.Perm found)
    (hsorted : found'.Pairwise fun a b => b.startedAt ≤ a.startedAt) :
    newestFirst found = found' := by
  refine (perm_newestFirst.trans hperm.symm).eq_of_pairwise ?_ pairwise_newestFirst hsorted
  intro a b ha hb hle hge
  exact List.inj_on_of_nodup_map hdistinct (perm_newestFirst.mem_iff.mp ha)
    (hperm.mem_iff.mp hb) (le_antisymm hge hle)

namespace RocksDbBackend

theorem paginate_of_le (h : found.length ≤ offset.toNat) : paginate found limit offset = .ok [] :=
  if_pos h

theorem paginate_of_lt (h : offset.toNat < found.length)
    (hsum : offset.toNat + limit.toNat < 2 ^ 64) :
    paginate found limit offset = .ok ((found.drop offset.toNat).take limit.toNat) := by
  have htoNat : (offset + limit).toNat = offset.toNat + limit.toNat := by
    rw [UInt64.toNat_add, Nat.mod_eq_of_lt hsum]
  have hstop : ¬ min (offset.toNat + limit.toNat) found.length < offset.toNat := by omega
  rw [paginate, if_neg (Nat.not_le.mpr h), htoNat]
  dsimp only
  rw [if_neg hstop, List.drop_take]
  congr 1
  rcases Nat.le_total (offset.toNat + limit.toNat) found.length with hle | hle
  · rw [Nat.min_eq_left hle, Nat.add_sub_cancel_left]
  · rw [Nat.min_eq_right hle, List.take_of_length_le (by simp),
      List.take_of_length_le (by simp; omega)]

theorem lt_of_limit_zero : offset.toNat + (0 : UInt64).toNat < 2 ^ 64 := offset.toNat_lt

theorem paginate_page (h : found.length ≤ offset.toNat ∨ limit = 0 ∨ offset = 0) :
    paginate ((found.drop offset.toNat).take limit.toNat) limit offset =
      .ok ((found.drop offset.toNat).take limit.toNat) := by
  rcases Nat.lt_or_ge offset.toNat ((found.drop offset.toNat).take limit.toNat).length with
    hlt | hge
  · have hlength := hlt
    rw [List.length_take, List.length_drop] at hlength
    obtain hle | rfl | rfl := h
    · omega
    · exact absurd hlength (by simp)
    · rw [paginate_of_lt hlt (by simpa using limit.toNat_lt)]
      simp
  · rw [paginate_of_le hge]
    congr 1
    obtain hle | rfl | rfl := h
    · rw [List.drop_of_length_le hle, List.take_nil]
    · rfl
    · exact (List.eq_nil_of_length_eq_zero (Nat.le_zero.mp hge)).symm

/-- A page of the list in order of the ids. -/
theorem paginate_placed (hdistinct : (found.map WorkflowExecution.startedAt).Nodup)
    (h : found.length ≤ offset.toNat ∨ limit = 0 ∨
      offset.toNat + limit.toNat < 2 ^ 64 ∧ PlacedByTime found limit.toNat offset.toNat) :
    paginate found limit offset =
      .ok (((newestFirst found).drop offset.toNat).take limit.toNat) := by
  rcases Nat.lt_or_ge offset.toNat found.length with hlt | hge
  · rcases eq_or_ne limit 0 with rfl | hlimit
    · rw [paginate_of_lt hlt lt_of_limit_zero]
      rfl
    obtain ⟨hsum, hpage, hearlier, hlater⟩ :=
      (h.resolve_left (Nat.not_le.mpr hlt)).resolve_left hlimit
    rw [paginate_of_lt hlt hsum]
    congr 1
    have hpositive : 0 < limit.toNat := by
      rw [Nat.pos_iff_ne_zero]
      exact fun h => hlimit (UInt64.toNat_inj.mp h)
    -- the page stays where it is when what stands before it and after it is sorted
    have hsplit : found.take offset.toNat ++
        ((found.drop offset.toNat).take limit.toNat ++
          (found.drop offset.toNat).drop limit.toNat) = found := by
      rw [List.take_append_drop, List.take_append_drop]
    generalize hpageEq : (found.drop offset.toNat).take limit.toNat = page at *
    generalize hafterEq : (found.drop offset.toNat).drop limit.toNat = after at *
    generalize hbeforeEq : found.take offset.toNat = before at *
    have hne : page ≠ [] := by
      rw [← hpageEq, ← List.length_pos_iff, List.length_take, List.length_drop]
      omega
    obtain ⟨middle, hmiddle⟩ := List.exists_mem_of_ne_nil page hne
    have hsorted : (newestFirst before ++ (page ++ newestFirst after)).Pairwise
        fun a b => b.startedAt ≤ a.startedAt := by
      rw [List.pairwise_append, List.pairwise_append]
      refine ⟨pairwise_newestFirst, ⟨hpage, pairwise_newestFirst, ?_⟩, ?_⟩
      · intro a ha b hb
        exact hlater a ha b (perm_newestFirst.mem_iff.mp hb)
      · intro a ha b hb
        have ha' := perm_newestFirst.mem_iff.mp ha
        obtain hb | hb := List.mem_append.mp hb
        · exact hearlier a ha' b hb
        · exact (hlater middle hmiddle b (perm_newestFirst.mem_iff.mp hb)).trans
            (hearlier a ha' middle hmiddle)
    have hperm : (newestFirst before ++ (page ++ newestFirst after)).Perm found := by
      rw [← hsplit]
      exact perm_newestFirst.append (perm_newestFirst.append_left page)
    have hlength : (newestFirst before).length = offset.toNat := by
      rw [length_newestFirst, ← hbeforeEq, List.length_take]
      omega
    rw [newestFirst_eq hdistinct hperm hsorted, List.drop_left' hlength]
    rcases Nat.le_total limit.toNat (found.length - offset.toNat) with hle | hle
    · refine (List.take_left' ?_).symm
      rw [← hpageEq, List.length_take, List.length_drop, Nat.min_eq_left hle]
    · have hnone : after = [] := by
        rw [← hafterEq]
        exact List.drop_of_length_le (by rw [List.length_drop]; exact hle)
      have hnil : newestFirst after = [] := by
        rw [← List.length_eq_zero_iff, length_newestFirst, hnone]
        rfl
      rw [hnil, List.append_nil, List.take_of_length_le]
      rw [← hpageEq, List.length_take]
      exact Nat.min_le_left ..
  · rw [paginate_of_le hge, List.drop_of_length_le (length_newestFirst.trans_le hge),
      List.take_nil]

end RocksDbBackend

end

namespace RocksDbBackend

theorem keep_byStatus (status : ExecutionStatus) :
    (⟨some status, none, none⟩ : ExecutionFilters).matchesExecution (J := J) =
      (Selection.byStatus status).keep := by
  funext execution
  simp [ExecutionFilters.matchesExecution, Selection.keep]

theorem keep_byTimeRange (start stop : Time) :
    (⟨none, some start, some stop⟩ : ExecutionFilters).matchesExecution (J := J) =
      (Selection.byTimeRange start stop).keep := by
  funext execution
  simp [ExecutionFilters.matchesExecution, Selection.keep]

variable [TextCodec (WorkflowExecution J)] {store : RocksExecutionStore J}
  {selection : Selection} {limit offset : UInt64}

/-- **A listing is a page of what is selected, newest first.** -/
theorem list_eq (hreadable : store.Readable) (hdistinct : store.Distinct)
    (h : AlikePage (store.selected selection) limit offset selection) :
    list store selection limit offset =
      .ok (((newestFirst (store.selected selection)).drop offset.toNat).take limit.toNat) := by
  have hscan : store.scan = .ok store.records := store.scan_eq.trans (if_pos hreadable)
  cases selection with
  | byWorkflow workflowId =>
    rw [list, listByWorkflow, RocksExecutionStore.listByWorkflow, hscan]
    exact paginate_placed (hdistinct.sublist (List.filter_sublist.map _)) h
  | byStatus status =>
    have hpage := @paginate_page J (newestFirst (store.selected (.byStatus status))) limit
      offset (h.imp_left length_newestFirst.trans_le)
    rw [list, listByStatus, RocksExecutionStore.listFiltered, keep_byStatus, hscan]
    exact hpage
  | byTimeRange start stop =>
    have hpage := @paginate_page J (newestFirst (store.selected (.byTimeRange start stop))) limit
      offset (h.imp_left length_newestFirst.trans_le)
    rw [list, listByTimeRange, RocksExecutionStore.listFiltered, keep_byTimeRange, hscan]
    exact hpage

end RocksDbBackend

/-! ## One backend mirrors the other -/

namespace InMemoryBackend

variable {backend : InMemoryBackend J} {execution : WorkflowExecution J}

theorem mergeLogs_of_some {logs : List (ExecutionLog J)}
    (h : backend.logs.get execution.executionId = some logs) :
    backend.mergeLogs execution = { execution with logs } := by
  rw [mergeLogs, h]

theorem mergeLogs_of_none (h : backend.logs.get execution.executionId = none) :
    backend.mergeLogs execution = execution := by
  rw [mergeLogs, h]

theorem mergeLogs_congr {backend' : InMemoryBackend J}
    (h : backend.logs.get execution.executionId = backend'.logs.get execution.executionId) :
    backend.mergeLogs execution = backend'.mergeLogs execution := by
  rw [mergeLogs, mergeLogs, h]

@[simp] theorem executionId_mergeLogs :
    (backend.mergeLogs execution).executionId = execution.executionId := by
  unfold mergeLogs
  split <;> rfl

@[simp] theorem startedAt_mergeLogs :
    (backend.mergeLogs execution).startedAt = execution.startedAt := by
  unfold mergeLogs
  split <;> rfl

theorem keep_mergeLogs (selection : Selection) :
    selection.keep (backend.mergeLogs execution) = selection.keep execution := by
  unfold mergeLogs
  split <;> rfl

variable (backend)

theorem filter_mergeLogs (selection : Selection) (found : List (WorkflowExecution J)) :
    (found.map backend.mergeLogs).filter selection.keep =
      (found.filter selection.keep).map backend.mergeLogs := by
  rw [List.filter_map]
  congr 2
  funext execution
  exact keep_mergeLogs selection

theorem list_eq_listWhere (hash : HashOrder (WorkflowExecution J)) (selection : Selection)
    (limit offset : UInt64) :
    backend.list hash selection limit offset =
      backend.listWhere hash selection.keep limit offset := by
  cases selection <;> rfl

end InMemoryBackend

variable [TextCodec (WorkflowExecution J)]

/-- The texts of RocksDB are those of what the in-memory backend returns, and read back. A record
without logs beside it has none in it, and there are no logs without a record. -/
structure Mirrors (backend : InMemoryBackend J) (store : RocksExecutionStore J) : Prop where
  texts : ∀ id, store.executions.get id = (backend.get id).map TextCodec.toText
  readsBack : ∀ id execution, backend.get id = some execution → TextCodec.ReadsBack execution
  keyed : executions.Keyed backend.executions
  fresh : ∀ id execution, backend.executions.get id = some execution →
    backend.logs.get id = none → execution.logs = []
  dropped : ∀ id, backend.executions.get id = none → backend.logs.get id = none

namespace Mirrors

variable {backend : InMemoryBackend J} {store : RocksExecutionStore J}
variable {execution : WorkflowExecution J} {id : String}

theorem new : Mirrors (.new : InMemoryBackend J) .new :=
  ⟨fun _ => rfl, fun _ _ h => (by cases h), Entity.keyed_empty, fun _ _ h => (by cases h),
    fun _ _ => rfl⟩

variable (h : Mirrors backend store)

include h

/-- **A record is read as the in-memory backend returns it.** -/
theorem get (id : String) : store.get id = .ok (backend.get id) := by
  rw [RocksExecutionStore.get, h.texts]
  cases hget : backend.get id with
  | none => rfl
  | some execution =>
    rw [Option.map_some]
    dsimp only
    rw [RocksExecutionStore.deserialize, h.readsBack id execution hget]
    rfl

theorem get_of_none (hget : backend.executions.get id = none) : store.executions.get id = none := by
  rw [h.texts, InMemoryBackend.get, hget]
  rfl

theorem get_of_some (hget : backend.executions.get id = some execution) :
    store.executions.get id = some (TextCodec.toText (backend.mergeLogs execution)) := by
  rw [h.texts, InMemoryBackend.get, hget]
  rfl

theorem read_of_none (hget : backend.executions.get id = none) : store.get id = .ok none := by
  rw [h.get, InMemoryBackend.get, hget]
  rfl

theorem read_of_some (hget : backend.executions.get id = some execution) :
    store.get id = .ok (some (backend.mergeLogs execution)) := by
  rw [h.get, InMemoryBackend.get, hget]
  rfl

theorem logs_of_some (hget : backend.executions.get id = some execution) :
    (backend.mergeLogs execution).logs = (backend.logs.get id).getD [] := by
  have hid : execution.executionId = id := h.keyed id execution hget
  cases hlogs : backend.logs.get id with
  | none =>
    rw [InMemoryBackend.mergeLogs_of_none (by rw [hid, hlogs])]
    exact h.fresh id execution hget hlogs
  | some logs =>
    rw [InMemoryBackend.mergeLogs_of_some (by rw [hid, hlogs])]
    rfl

theorem values : store.executions.values =
    (backend.executions.values.map backend.mergeLogs).map TextCodec.toText := by
  have hsorted : (backend.executions.entries.map fun p =>
      (p.1, TextCodec.toText (backend.mergeLogs p.2))).Pairwise fun p q => p.1 < q.1 :=
    List.pairwise_map.mpr backend.executions.sorted
  have hmap : store.executions = ⟨_, hsorted⟩ := by
    refine ext_get fun id => ?_
    rw [h.texts, InMemoryBackend.get, Option.map_map]
    exact (BTreeMap.lookupList_map (fun p => TextCodec.toText (backend.mergeLogs p.2)) _ id).symm
  rw [BTreeMap.values, hmap, BTreeMap.values, List.map_map, List.map_map, List.map_map]
  rfl

theorem readsBack_values :
    ∀ execution ∈ backend.executions.values.map backend.mergeLogs,
      TextCodec.ReadsBack execution := by
  intro execution hmem
  obtain ⟨kept, hkept, rfl⟩ := List.mem_map.mp hmem
  obtain ⟨id, hget⟩ := mem_values.mp hkept
  refine h.readsBack id _ ?_
  rw [InMemoryBackend.get, hget, Option.map_some]

theorem readable : store.Readable := by
  rw [RocksExecutionStore.Readable, h.values]
  intro text htext
  obtain ⟨execution, hmem, rfl⟩ := List.mem_map.mp htext
  rw [h.readsBack_values execution hmem]
  rfl

theorem records : store.records = backend.executions.values.map backend.mergeLogs := by
  rw [RocksExecutionStore.records, h.values]
  exact TextCodec.filterMap_fromText h.readsBack_values

theorem selected (selection : Selection) :
    store.selected selection =
      (backend.executions.values.filter selection.keep).map backend.mergeLogs := by
  rw [RocksExecutionStore.selected, h.records, backend.filter_mergeLogs]

/-! ### Queries -/

theorem list (hdistinct : store.Distinct) (hash : HashOrder (WorkflowExecution J))
    (selection : Selection) (limit offset : UInt64) :
    backend.list hash selection limit offset =
      ((newestFirst (store.selected selection)).drop offset.toNat).take limit.toNat := by
  have hnewest : newestFirst (store.selected selection) =
      (newestFirst ((hash.order backend.executions.values).filter selection.keep)).map
        backend.mergeLogs := by
    refine newestFirst_eq (hdistinct.sublist (List.filter_sublist.map _)) ?_ ?_
    · rw [h.selected]
      exact (perm_newestFirst.trans ((hash.perm _).filter _)).map _
    · rw [List.pairwise_map]
      simpa only [InMemoryBackend.startedAt_mergeLogs] using pairwise_newestFirst
  rw [backend.list_eq_listWhere, InMemoryBackend.listWhere, hnewest, List.map_take, List.map_drop]

theorem getLogs : (store.getLogs id).toOption = (backend.getLogs id).toOption := by
  cases hget : backend.executions.get id with
  | none =>
    rw [RocksExecutionStore.getLogs, RocksExecutionStore.getRequired, h.read_of_none hget,
      InMemoryBackend.getLogs, hget]
    rfl
  | some execution =>
    rw [RocksExecutionStore.getLogs, RocksExecutionStore.getRequired, h.read_of_some hget,
      InMemoryBackend.getLogs, hget, ← h.logs_of_some hget]
    rfl

theorem countTotal : store.count = backend.countTotal := by
  rw [RocksExecutionStore.count, InMemoryBackend.countTotal, h.values, List.length_map,
    List.length_map]

theorem countByStatus (status : ExecutionStatus) :
    RocksDbBackend.countByStatus store status = .ok (backend.countByStatus status) := by
  have hselected := h.selected (.byStatus status)
  rw [RocksDbBackend.countByStatus, RocksExecutionStore.countFiltered,
    RocksDbBackend.keep_byStatus, store.scan_eq, if_pos h.readable]
  exact congrArg Except.ok ((congrArg List.length hselected).trans (List.length_map _))

/-! ### Writes -/

/-- Both writes fail, or both succeed and leave mirrored backends. -/
inductive Written : Except String (InMemoryBackend J) → Except String (RocksExecutionStore J) → Prop
    where
  | ok {backend : InMemoryBackend J} {store : RocksExecutionStore J} (h : Mirrors backend store) :
      Written (.ok backend) (.ok store)
  | error {error error' : String} : Written (.error error) (.error error')

omit h

theorem Written.mapError {result : Except String (InMemoryBackend J)}
    {result' : Except String (RocksExecutionStore J)} (h : Written result result')
    (f : String → String) : Written result (result'.mapError f) := by
  cases h with
  | ok h => exact .ok h
  | error => exact .error

include h

theorem insert (hmerge : backend.mergeLogs execution = execution)
    (hreads : TextCodec.ReadsBack execution)
    (hfresh : backend.logs.get execution.executionId = none → execution.logs = []) :
    Mirrors { backend with
        executions := backend.executions.insert execution.executionId execution }
      ⟨store.executions.insert execution.executionId (TextCodec.toText execution)⟩ := by
  have hget : ∀ id, ({ backend with
      executions := backend.executions.insert execution.executionId execution } :
        InMemoryBackend J).get id =
          if id = execution.executionId then some execution else backend.get id := by
    intro id
    rw [InMemoryBackend.get, get_insert]
    split_ifs
    · exact congrArg some hmerge
    · rfl
  refine ⟨fun id => ?_, fun id execution' hfound => ?_, h.keyed.insert execution,
    fun id execution' hget hlogs => ?_, fun id hget => ?_⟩
  · rw [hget, get_insert]
    split_ifs
    · rfl
    · exact h.texts id
  · rw [hget] at hfound
    split_ifs at hfound
    · cases hfound
      exact hreads
    · exact h.readsBack id execution' hfound
  · dsimp only at hget hlogs
    rw [get_insert] at hget
    split_ifs at hget with hid
    · cases hget
      subst hid
      exact hfresh hlogs
    · exact h.fresh id execution' hget hlogs
  · dsimp only at hget ⊢
    rw [get_insert] at hget
    split_ifs at hget
    exact h.dropped id hget

theorem save (halike : store.get execution.executionId = .ok none →
      execution.logs = [] ∧ TextCodec.ReadsBack execution) :
    Written (backend.save execution) (store.save execution) := by
  cases hget : backend.executions.get execution.executionId with
  | none =>
    obtain ⟨hlogs, hreads⟩ := halike (h.read_of_none hget)
    have hmem : backend.save execution = .ok { backend with
        executions := backend.executions.insert execution.executionId execution } := by
      rw [InMemoryBackend.save, Entity.save]
      simp only [executions, hget]
      rfl
    rw [hmem, RocksExecutionStore.save, h.get_of_none hget]
    refine .ok (h.insert (InMemoryBackend.mergeLogs_of_none (h.dropped _ hget)) hreads fun _ => ?_)
    exact hlogs
  | some stored =>
    have hmem : ∃ error, backend.save execution = .error error := by
      rw [InMemoryBackend.save, Entity.save]
      simp only [executions, hget]
      exact ⟨_, rfl⟩
    obtain ⟨error, herror⟩ := hmem
    rw [herror, RocksExecutionStore.save, h.get_of_some hget]
    exact .error

theorem update (halike : ∀ stored, store.get execution.executionId = .ok (some stored) →
      execution.logs = stored.logs ∧ TextCodec.ReadsBack execution) :
    Written (backend.update execution) (store.update execution) := by
  cases hget : backend.executions.get execution.executionId with
  | none =>
    have hmem : ∃ error, backend.update execution = .error error := by
      rw [InMemoryBackend.update, Entity.update]
      simp only [executions, hget]
      exact ⟨_, rfl⟩
    obtain ⟨error, herror⟩ := hmem
    rw [herror, RocksExecutionStore.update, h.get_of_none hget]
    exact .error
  | some stored =>
    obtain ⟨hlogs, hreads⟩ := halike _ (h.read_of_some hget)
    have hsame : execution.logs = (backend.logs.get execution.executionId).getD [] :=
      hlogs.trans (h.logs_of_some hget)
    have hmem : backend.update execution = .ok { backend with
        executions := backend.executions.insert execution.executionId execution } := by
      rw [InMemoryBackend.update, Entity.update]
      simp only [executions, hget]
      rfl
    rw [hmem, RocksExecutionStore.update, h.get_of_some hget]
    refine .ok (h.insert ?_ hreads fun hnone => ?_)
    · cases hside : backend.logs.get execution.executionId with
      | none => exact InMemoryBackend.mergeLogs_of_none hside
      | some logs =>
        rw [hside] at hsame
        rw [InMemoryBackend.mergeLogs_of_some hside, ← show execution.logs = logs from hsame]
    · rw [hsame, hnone]
      rfl

omit h

omit [TextCodec (WorkflowExecution J)] in
theorem logs_updateStatus (execution : WorkflowExecution J) (status : ExecutionStatus)
    (now : Time) : (execution.updateStatus status now).logs = execution.logs := by
  unfold WorkflowExecution.updateStatus
  dsimp only
  split_ifs <;> rfl

include h

theorem updateStatus {id : String} {status : ExecutionStatus} {now : Time}
    (halike : ∀ stored, store.get id = .ok (some stored) →
      TextCodec.ReadsBack (stored.updateStatus status now)) :
    Written (updateStatusBy (fun id => .ok (backend.get id)) backend.update id status now)
      (updateStatusBy (RocksDbBackend.get store) (RocksDbBackend.update store) id status now) := by
  rw [updateStatusBy, updateStatusBy, RocksDbBackend.get, h.get]
  cases hget : backend.get id with
  | none => exact .error
  | some stored =>
    have hread : store.get id = .ok (some stored) := (h.get id).trans (congrArg Except.ok hget)
    refine Written.mapError (h.update fun other hother => ?_) RocksDbBackend.internal
    have hid : stored.executionId = id := by
      obtain ⟨kept, hkept, rfl⟩ := Option.map_eq_some_iff.mp hget
      exact InMemoryBackend.executionId_mergeLogs.trans (h.keyed id kept hkept)
    rw [WorkflowExecution.executionId_updateStatus, hid, hread] at hother
    cases hother
    exact ⟨logs_updateStatus stored status now, halike stored hread⟩

theorem delete (id : String) : Written (backend.delete id) (store.delete id) := by
  cases hget : backend.executions.get id with
  | none =>
    rw [InMemoryBackend.delete, Entity.delete, hget, RocksExecutionStore.delete,
      h.get_of_none hget]
    exact .error
  | some stored =>
    rw [InMemoryBackend.delete, Entity.delete, hget, RocksExecutionStore.delete,
      h.get_of_some hget]
    have hrest : ∀ id', (⟨backend.executions.remove id, backend.logs.remove id⟩ :
        InMemoryBackend J).get id' = if id' = id then none else backend.get id' := by
      intro id'
      rw [InMemoryBackend.get, get_remove]
      split_ifs with hid
      · rfl
      · refine Option.map_congr fun kept hkept => InMemoryBackend.mergeLogs_congr ?_
        have hkeptId : kept.executionId = id' := h.keyed id' kept hkept
        rw [hkeptId, get_remove, if_neg hid]
    refine .ok ⟨fun id' => ?_, fun id' execution hfound => ?_, fun id' record hrecord => ?_,
      fun id' record hrecord hlogs => ?_, fun id' hrecord => ?_⟩
    · refine Eq.trans ?_ (congrArg (Option.map TextCodec.toText) (hrest id')).symm
      rw [get_remove]
      split_ifs
      · rfl
      · exact h.texts id'
    · have hfound' := (hrest id').symm.trans hfound
      split_ifs at hfound'
      exact h.readsBack id' execution hfound'
    · rw [get_remove] at hrecord
      split_ifs at hrecord
      exact h.keyed id' record hrecord
    · dsimp only at hrecord hlogs
      rw [get_remove] at hrecord hlogs
      split_ifs at hrecord with hid
      rw [if_neg hid] at hlogs
      exact h.fresh id' record hrecord hlogs
    · dsimp only at hrecord ⊢
      rw [get_remove] at hrecord ⊢
      split_ifs at hrecord ⊢ with hid
      · rfl
      · exact h.dropped id' hrecord

theorem addLog {log : ExecutionLog J} {now : Time}
    (halike : ∀ stored, store.get id = .ok (some stored) →
      stored.updatedAt = now ∧ TextCodec.ReadsBack (stored.addLog log now)) :
    Written (backend.addLog id log) (store.addLog id log now) := by
  cases hget : backend.executions.get id with
  | none =>
    rw [InMemoryBackend.addLog, hget, RocksExecutionStore.addLog, RocksExecutionStore.getRequired,
      h.read_of_none hget]
    exact .error
  | some kept =>
    obtain ⟨htime, hreads⟩ := halike _ (h.read_of_some hget)
    have hid : kept.executionId = id := h.keyed id kept hget
    have hid' : ((backend.mergeLogs kept).addLog log now).executionId = id :=
      InMemoryBackend.executionId_mergeLogs.trans hid
    have hupdate : store.addLog id log now = .ok ⟨store.executions.insert id
        (TextCodec.toText ((backend.mergeLogs kept).addLog log now))⟩ := by
      rw [RocksExecutionStore.addLog, RocksExecutionStore.getRequired, h.read_of_some hget]
      dsimp only
      rw [RocksExecutionStore.update, hid', h.get_of_some hget]
      rfl
    have hafter : ∀ id', (⟨backend.executions, backend.logs.upsert id fun logs =>
        logs.getD [] ++ [log]⟩ : InMemoryBackend J).get id' =
          if id' = id then some ((backend.mergeLogs kept).addLog log now)
          else backend.get id' := by
      intro id'
      rw [InMemoryBackend.get]
      split_ifs with hsame
      · subst hsame
        have hlogs : (backend.logs.upsert id' fun logs => logs.getD [] ++ [log]).get
            kept.executionId = some ((backend.mergeLogs kept).logs ++ [log]) := by
          rw [hid, get_upsert, if_pos rfl, h.logs_of_some hget]
        have hmerge := @InMemoryBackend.mergeLogs_of_some _ ⟨backend.executions,
          backend.logs.upsert id' fun logs => logs.getD [] ++ [log]⟩ kept _ hlogs
        rw [hget, Option.map_some, hmerge]
        have hmerged : backend.mergeLogs kept =
            { kept with logs := (backend.mergeLogs kept).logs } := by
          unfold InMemoryBackend.mergeLogs
          split <;> rfl
        have hupdated : kept.updatedAt = now := by
          rw [hmerged] at htime
          exact htime
        rw [hmerged, WorkflowExecution.addLog, ← hupdated]
      · refine Option.map_congr fun other hother => InMemoryBackend.mergeLogs_congr ?_
        have hotherId : other.executionId = id' := h.keyed id' other hother
        rw [hotherId, get_upsert, if_neg hsame]
    rw [InMemoryBackend.addLog, hget, hupdate]
    refine .ok ⟨fun id' => ?_, fun id' execution hfound => ?_, h.keyed,
      fun id' record hrecord hlogs => ?_, fun id' hrecord => ?_⟩
    · refine Eq.trans ?_ (congrArg (Option.map TextCodec.toText) (hafter id')).symm
      rw [get_insert]
      split_ifs
      · rfl
      · exact h.texts id'
    · have hfound' := (hafter id').symm.trans hfound
      split_ifs at hfound'
      · cases hfound'
        exact hreads
      · exact h.readsBack id' execution hfound'
    · dsimp only at hlogs
      rw [get_upsert] at hlogs
      split_ifs at hlogs
      exact h.fresh id' record hrecord hlogs
    · dsimp only at hrecord ⊢
      rw [get_upsert]
      split_ifs with hsame
      · subst hsame
        rw [hget] at hrecord
        exact nomatch hrecord
      · exact h.dropped id' hrecord

/-! ### Calls -/

variable {hash : HashOrder (WorkflowExecution J)} {c : StoreCall J}

/-- A step of both backends. -/
structure Matched (hash : HashOrder (WorkflowExecution J)) (backend : InMemoryBackend J)
    (store : RocksExecutionStore J) (c : StoreCall J) : Prop where
  answer : answer (InMemoryBackend.call hash) backend c = answer RocksDbBackend.call store c
  next : Mirrors (next (InMemoryBackend.call hash) backend c) (next RocksDbBackend.call store c)

theorem Written.matched {result : Except String (InMemoryBackend J)}
    {result' : Except String (RocksExecutionStore J)} (hwritten : Written result result')
    (hcall : backend.call hash c = result.map (·, .done))
    (hcall' : RocksDbBackend.call store c = result'.map (·, .done)) :
    Matched hash backend store c := by
  constructor
  · rw [Engine.answer, Engine.answer, hcall, hcall']
    cases hwritten <;> rfl
  · rw [Engine.next, Engine.next, hcall, hcall']
    cases hwritten with
    | ok h' => exact h'
    | error => exact h

theorem matched_of_query (result result' : Except String (StoreAnswer J))
    (hsame : result'.toOption = result.toOption)
    (hcall : backend.call hash c = result.map (backend, ·))
    (hcall' : RocksDbBackend.call store c = result'.map (store, ·)) :
    Matched hash backend store c := by
  constructor
  · rw [Engine.answer, Engine.answer, hcall, hcall']
    cases result <;> cases result' <;> simp_all [Except.toOption, Except.map]
  · rw [Engine.next, Engine.next, hcall, hcall']
    cases result <;> cases result' <;> exact h

/-- **A call answers alike and keeps the mirror.** -/
theorem call (hdistinct : store.Distinct) (halike : Alike store c) :
    Matched hash backend store c := by
  cases c with
  | save execution => exact ((h.save halike).mapError _).matched h rfl rfl
  | get id =>
    refine h.matched_of_query (.ok (.execution (backend.get id)))
      (.ok (.execution (backend.get id))) rfl rfl ?_
    rw [RocksDbBackend.call, RocksDbBackend.get, h.get]
    rfl
  | update execution => exact ((h.update halike).mapError _).matched h rfl rfl
  | updateStatus id status now => exact (h.updateStatus halike).matched h rfl rfl
  | delete id => exact ((h.delete id).mapError _).matched h rfl rfl
  | list selection limit offset =>
    refine h.matched_of_query (.ok (.page (backend.list hash selection limit offset)))
      (.ok (.page (((newestFirst (store.selected selection)).drop offset.toNat).take
        limit.toNat))) ?_ rfl ?_
    · exact congrArg (some ∘ StoreAnswer.page) (h.list hdistinct hash selection limit offset).symm
    · rw [RocksDbBackend.call, RocksDbBackend.list_eq h.readable hdistinct halike]
      rfl
  | addLog id log now => exact ((h.addLog halike).mapError _).matched h rfl rfl
  | getLogs id =>
    have hlogs : (store.getLogs id).toOption = (backend.getLogs id).toOption := h.getLogs
    refine h.matched_of_query ((backend.getLogs id).map .logs)
      (((store.getLogs id).mapError RocksDbBackend.internal).map .logs) ?_ ?_ ?_
    · cases hmem : backend.getLogs id <;> cases hstore : store.getLogs id <;>
        simp_all [Except.toOption, Except.map, Except.mapError]
    · rw [InMemoryBackend.call]
      cases backend.getLogs id <;> rfl
    · rw [RocksDbBackend.call]
      cases store.getLogs id <;> rfl
  | countTotal =>
    refine h.matched_of_query (.ok (.count backend.countTotal)) (.ok (.count store.count)) ?_ rfl rfl
    exact congrArg (some ∘ StoreAnswer.count) h.countTotal
  | countByStatus status =>
    refine h.matched_of_query (.ok (.count (backend.countByStatus status)))
      (.ok (.count (backend.countByStatus status))) rfl rfl ?_
    rw [RocksDbBackend.call, h.countByStatus]
    rfl

end Mirrors

/-! ## Whole runs -/

abbrev Calls (J : Type) := List (HashOrder (WorkflowExecution J) × StoreCall J)

def InMemoryBackend.hashedCall (backend : InMemoryBackend J)
    (c : HashOrder (WorkflowExecution J) × StoreCall J) :
    Except String (InMemoryBackend J × StoreAnswer J) := backend.call c.1 c.2

def RocksDbBackend.hashedCall (store : RocksExecutionStore J)
    (c : HashOrder (WorkflowExecution J) × StoreCall J) :
    Except String (RocksExecutionStore J × StoreAnswer J) := RocksDbBackend.call store c.2

namespace Mirrors

variable {backend : InMemoryBackend J} {store : RocksExecutionStore J} {calls : Calls J}

/-- **A run answers alike and keeps the mirror.** -/
theorem run (h : Mirrors backend store)
    (hdistinct : Along RocksDbBackend.hashedCall (fun store _ => store.Distinct) store calls)
    (halike : Along RocksDbBackend.hashedCall (fun store c => Alike store c.2) store calls) :
    answers InMemoryBackend.hashedCall backend calls =
        answers RocksDbBackend.hashedCall store calls ∧
      Mirrors (calls.foldl (Engine.next InMemoryBackend.hashedCall) backend)
        (calls.foldl (Engine.next RocksDbBackend.hashedCall) store) := by
  induction calls generalizing backend store with
  | nil => exact ⟨rfl, h⟩
  | cons c calls ih =>
    have hmatched : Matched c.1 backend store c.2 := h.call hdistinct.1 halike.1
    obtain ⟨hanswer, hnext⟩ := hmatched
    obtain ⟨hanswers, hreached⟩ := ih hnext hdistinct.2 halike.2
    exact ⟨congrArg₂ _ hanswer hanswers, hreached⟩

end Mirrors

theorem flatMap_pages {α : Type} (l : List α) (limit n : Nat) :
    (List.range n).flatMap (fun i => (l.drop (i * limit)).take limit) = l.take (n * limit) := by
  induction n with
  | zero => simp
  | succ n ih =>
    rw [List.range_succ, List.flatMap_append, ih, List.flatMap_singleton, Nat.succ_mul,
      List.take_add]

def pageOffset (limit : UInt64) (i : Nat) : UInt64 := .ofNat (i * limit.toNat)

/-- Both backends answer a run alike, and after it consecutive pages are the list, newest first. -/
structure Interchangeable (calls : Calls J) : Prop where
  answers : answers InMemoryBackend.hashedCall .new calls =
    answers RocksDbBackend.hashedCall .new calls
  pages : ∀ (selection : Selection) (limit : UInt64) (n : Nat),
    let backend := calls.foldl (next InMemoryBackend.hashedCall) .new
    let store := calls.foldl (next RocksDbBackend.hashedCall) .new
    store.Distinct → (∀ i < n, i * limit.toNat < 2 ^ 64 ∧
      AlikePage (store.selected selection) limit (pageOffset limit i) selection) →
    ∃ page : Nat → List (WorkflowExecution J),
      (∀ i < n, RocksDbBackend.list store selection limit (pageOffset limit i) = .ok (page i)) ∧
      (∀ hash, ∀ i < n, backend.list hash selection limit (pageOffset limit i) = page i) ∧
      (List.range n).flatMap page =
        (newestFirst (store.selected selection)).take (n * limit.toNat)

/-- **When the backends are interchangeable.** -/
theorem interchangeable (calls : Calls J)
    (hdistinct : Along RocksDbBackend.hashedCall (fun store _ => store.Distinct) .new calls)
    (halike : Along RocksDbBackend.hashedCall (fun store c => Alike store c.2) .new calls) :
    Interchangeable calls := by
  obtain ⟨hanswers, hreached⟩ := Mirrors.new.run hdistinct halike
  refine ⟨hanswers, fun selection limit n => ?_⟩
  intro backend store hdistinct' hpages
  have hoffset : ∀ i < n, (pageOffset limit i).toNat = i * limit.toNat := by
    intro i hi
    exact UInt64.toNat_ofNat_of_lt' (hpages i hi).1
  refine ⟨fun i => ((newestFirst (store.selected selection)).drop (i * limit.toNat)).take
    limit.toNat, fun i hi => ?_, fun hash i hi => ?_, flatMap_pages _ _ _⟩
  · rw [RocksDbBackend.list_eq hreached.readable hdistinct' (hpages i hi).2, hoffset i hi]
  · rw [hreached.list hdistinct' hash, hoffset i hi]

/-! ### Runs of three calls -/

def anyOrder : HashOrder (WorkflowExecution Unit) := ⟨id, fun _ => .refl _⟩

def pendingExecution (id : String) (now : Time) : WorkflowExecution Unit :=
  .new id "load" "Load" () none now

def startedLog (now : Time) : ExecutionLog Unit := ⟨now, .Info, none, "started", none⟩

def startedExecution (now : Time) : WorkflowExecution Unit :=
  (pendingExecution "a" 0).addLog (startedLog now) now

def pausedExecution : WorkflowExecution Unit :=
  (pendingExecution "exec" 0).updateStatus .Paused 1

instance : TextCodec (WorkflowExecution Unit) :=
  .ofTable (fun execution => execution.executionId ++ ":" ++ execution.updatedAt.repr ++ ":" ++
      execution.logs.length.repr)
    [pendingExecution "a" 0, startedExecution 0, startedExecution 1, pausedExecution,
      (pausedExecution.updateStatus .Failed 5).clearCheckpoint 5]

def loggedRun (now : Time) : Calls Unit :=
  [(anyOrder, .save (pendingExecution "a" 0)), (anyOrder, .addLog "a" (startedLog now) now),
    (anyOrder, .get "a")]

theorem loggedRun_interchangeable : Interchangeable (loggedRun 0) := by
  refine interchangeable _ (by decide +kernel) ?_
  refine ⟨fun _ => by decide +kernel, fun stored hstored => ?_, trivial, trivial⟩
  have hget : some (pendingExecution "a" 0) = some stored :=
    Except.ok.inj (Eq.trans (by decide +kernel) hstored)
  cases hget
  exact ⟨rfl, by decide +kernel⟩

/-- An execution that gets a log later than its record was written. -/
theorem loggedRun_differs :
    Along RocksDbBackend.hashedCall (fun store _ => store.Distinct) .new (loggedRun 1) ∧
      ¬ Interchangeable (loggedRun 1) :=
  ⟨by decide +kernel, fun h => absurd h.answers (by decide +kernel)⟩

end Arcxa.Engine
