import Arcxa.Wal.Coordinator.Model

/-!
# The life of one transaction

Seen from one transaction, a run of the coordinator is a walk through a small state
machine: `Life` is what the machine knows (the status in the map, the operation in
progress, the markers in the log, the events in storage) and `LifeStep` are its moves.

* `step_life` is the refinement: each step of the coordinator is, for every transaction,
  a move of its life or nothing.
* `Life.Valid` says which markers can be in the log in which state; from it,
  `markers_language`: the log of a transaction is a `Begin`, then at most one `Prepare`,
  then at most one `Commit`, and any number of `Abort`s at the end.
-/

namespace Arcxa.Wal

open FileWal Operation

variable {E : Type}

/-! ## Markers in the log -/

inductive Marker where
  | begin | prepare | commit | abort
  deriving DecidableEq, Repr

def TransactionOp.marker : TransactionOp → Marker
  | .Begin .. => .begin
  | .Prepare .. => .prepare
  | .Commit .. => .commit
  | .Abort .. => .abort

def markerOf (txId : Nat) (e : WalEntry E) : Option Marker :=
  match e.payload with
  | .Transaction op => if op.txId = txId then some op.marker else none
  | _ => none

def markersOf (log : List (Nat × WalEntry E)) (txId : Nat) : List Marker :=
  log.filterMap (fun p => markerOf txId p.2)

def Operation.markers : Operation E → List Marker
  | .Begin .. => [.begin]
  | .AddLineage .. => []
  | .Prepare .. => [.prepare]
  | .Commit .. => [.commit]
  | .Abort .. => [.abort]

variable {op : Operation E}

section Markers

variable (fmt : Format E)

theorem markersOf_append (log more : List (Nat × WalEntry E)) (txId : Nat) :
    markersOf (log ++ more) txId = markersOf log txId ++ markersOf more txId :=
  List.filterMap_append

theorem markersOf_lineage {events : List E} {parentTx : Option Nat} {now : UInt64}
    (txId txId' lsn k seg : Nat) :
    markersOf ((FileWal.stampedFrom fmt lsn
      (((Operation.AddLineage events parentTx now).entries txId).take k)).map (fun e => (seg, e)))
      txId' = [] := by
  rw [entries, ← List.map_take]
  generalize events.take k = some_
  induction some_ generalizing lsn with
  | nil => rfl
  | cons event events ih =>
    rw [List.map_cons, stampedFrom, List.map_cons, ← List.singleton_append,
      markersOf_append, ih]
    rfl

theorem markersOf_wrote {w w' : FileWal E} {lsn k txId : Nat}
    (hw : FileWal.Wrote fmt w w' lsn (op.entries txId) k) :
    (∀ t, t ≠ txId → markersOf w'.written t = markersOf w.written t) ∧
    (markersOf w'.written txId = markersOf w.written txId ∨
      markersOf w'.written txId = markersOf w.written txId ++ op.markers) ∧
    (k = (op.entries txId).length →
      markersOf w'.written txId = markersOf w.written txId ++ op.markers) := by
  rw [hw.written]
  simp only [markersOf_append]
  -- every operation but `add_lineage` writes one entry, so that `k` is 0 or 1
  cases op with
  | AddLineage events parentTx now => simp [markersOf_lineage, markers]
  | Begin now | Prepare participants now | Commit commitLsn now | Abort reason now =>
    have hk := hw.le
    rw [entries, List.length_singleton] at hk
    refine ⟨?_, ?_, ?_⟩
    · intro t ht
      rcases Nat.le_one_iff_eq_zero_or_eq_one.mp hk with rfl | rfl
      · simp [entries, stampedFrom, markersOf]
      · simp [entries, stampedFrom, markersOf, markerOf, stamped,
          assignLsn, WalEntry.sealed, WalEntry.new, TransactionOp.txId, Ne.symm ht]
    · rcases Nat.le_one_iff_eq_zero_or_eq_one.mp hk with rfl | rfl
      · left
        simp [entries, stampedFrom, markersOf]
      · right
        simp [entries, stampedFrom, markersOf, markerOf, stamped,
          assignLsn, WalEntry.sealed, WalEntry.new, TransactionOp.txId,
          TransactionOp.marker, markers]
    · intro hlen
      simp [hlen, entries, stampedFrom, markersOf, markerOf, stamped,
        assignLsn, WalEntry.sealed, WalEntry.new, TransactionOp.txId,
        TransactionOp.marker, markers]

end Markers

/-! ## The abstract machine -/

structure Life (E : Type) where
  status : Option TransactionStatus
  task : Option (Task E)
  markers : List Marker
  stored : List E

def Life.empty : Life E := ⟨none, none, [], []⟩

/-- The moves of a transaction. `begins` and `aborts` say when it may begin and when an abort
may start. -/
inductive LifeStep (begins aborts : Prop) : Life E → Life E → Prop where
  | begin (h : begins) (now : UInt64) :
      LifeStep begins aborts Life.empty ⟨none, some ⟨.Begin now, .append⟩, [], []⟩
  | addLineage (events : List E) (parentTx : Option Nat) (now : UInt64) (ms : List Marker)
      (es : List E) :
      LifeStep begins aborts ⟨some .Active, none, ms, es⟩
        ⟨some .Active, some ⟨.AddLineage events parentTx now, .append⟩, ms, es⟩
  | prepare (participants : List String) (now : UInt64) (ms : List Marker) (es : List E) :
      LifeStep begins aborts ⟨some .Active, none, ms, es⟩
        ⟨some .Preparing, some ⟨.Prepare participants now, .append⟩, ms, es⟩
  | commit (commitLsn : Nat) (now : UInt64) (ms : List Marker) (es : List E) :
      LifeStep begins aborts ⟨some .Prepared, none, ms, es⟩
        ⟨some .Committing, some ⟨.Commit commitLsn now, .append⟩, ms, es⟩
  | abort (h : aborts) (status : TransactionStatus) (hlive : status ≠ .Committed)
      (reason : String) (now : UInt64) (ms : List Marker) (es : List E) :
      LifeStep begins aborts ⟨some status, none, ms, es⟩
        ⟨some .Aborting, some ⟨.Abort reason now, .append⟩, ms, es⟩
  | reserve (status : Option TransactionStatus) (op : Operation E) (lsn : Nat) (ms : List Marker)
      (es : List E) :
      LifeStep begins aborts ⟨status, some ⟨op, .append⟩, ms, es⟩
        ⟨status, some ⟨op, .reserved lsn⟩, ms, es⟩
  | refused (status : Option TransactionStatus) (op : Operation E) (ms : List Marker)
      (es : List E) :
      LifeStep begins aborts ⟨status, some ⟨op, .append⟩, ms, es⟩ ⟨status, none, ms, es⟩
  | failed (status : Option TransactionStatus) (op : Operation E) (lsn : Nat) (ms : List Marker)
      (es : List E) :
      LifeStep begins aborts ⟨status, some ⟨op, .reserved lsn⟩, ms, es⟩ ⟨status, none, ms, es⟩
  | failedLogged (status : Option TransactionStatus) (op : Operation E) (lsn : Nat)
      (ms : List Marker) (es : List E) :
      LifeStep begins aborts ⟨status, some ⟨op, .reserved lsn⟩, ms, es⟩
        ⟨status, none, ms ++ op.markers, es⟩
  | begun (status : Option TransactionStatus) (now : UInt64) (lsn : Nat) (ms : List Marker)
      (es : List E) :
      LifeStep begins aborts ⟨status, some ⟨.Begin now, .reserved lsn⟩, ms, es⟩
        ⟨some .Active, none, ms ++ [.begin], es⟩
  | added (status : Option TransactionStatus) (events : List E) (parentTx : Option Nat)
      (now : UInt64) (lsn : Nat) (ms : List Marker) (es : List E) :
      LifeStep begins aborts
        ⟨status, some ⟨.AddLineage events parentTx now, .reserved lsn⟩, ms, es⟩
        ⟨status, none, ms, es⟩
  | prepared (status : Option TransactionStatus) (participants : List String) (now : UInt64)
      (lsn : Nat) (next : TransactionStatus) (hnext : next = .Prepared ∨ next = .Aborting)
      (ms : List Marker) (es : List E) :
      LifeStep begins aborts ⟨status, some ⟨.Prepare participants now, .reserved lsn⟩, ms, es⟩
        ⟨some next, none, ms ++ [.prepare], es⟩
  | logged (status : Option TransactionStatus) (commitLsn : Nat) (now : UInt64) (lsn : Nat)
      (ms : List Marker) (es : List E) :
      LifeStep begins aborts ⟨status, some ⟨.Commit commitLsn now, .reserved lsn⟩, ms, es⟩
        ⟨status, some ⟨.Commit commitLsn now, .store⟩, ms ++ [.commit], es⟩
  | aborted (status : Option TransactionStatus) (reason : String) (now : UInt64) (lsn : Nat)
      (ms : List Marker) (es : List E) :
      LifeStep begins aborts ⟨status, some ⟨.Abort reason now, .reserved lsn⟩, ms, es⟩
        ⟨some .Aborted, some ⟨.Abort reason now, .remove⟩, ms ++ [.abort], es⟩
  | stored (status : Option TransactionStatus) (op : Operation E) (more : List E)
      (ms : List Marker) (es : List E) :
      LifeStep begins aborts ⟨status, some ⟨op, .store⟩, ms, es⟩
        ⟨status, some ⟨op, .publish⟩, ms, es ++ more⟩
  | storeFailed (status : Option TransactionStatus) (op : Operation E) (more : List E)
      (ms : List Marker) (es : List E) :
      LifeStep begins aborts ⟨status, some ⟨op, .store⟩, ms, es⟩ ⟨status, none, ms, es ++ more⟩
  | published (status : Option TransactionStatus) (op : Operation E) (ms : List Marker)
      (es : List E) :
      LifeStep begins aborts ⟨status, some ⟨op, .publish⟩, ms, es⟩
        ⟨some .Committed, some ⟨op, .remove⟩, ms, es⟩
  | publishFailed (status : Option TransactionStatus) (op : Operation E) (ms : List Marker)
      (es : List E) :
      LifeStep begins aborts ⟨status, some ⟨op, .publish⟩, ms, es⟩ ⟨status, none, ms, es⟩
  | removed (status : Option TransactionStatus) (op : Operation E) (ms : List Marker)
      (es : List E) :
      LifeStep begins aborts ⟨status, some ⟨op, .remove⟩, ms, es⟩ ⟨none, none, ms, es⟩

variable {begins aborts : Prop}

theorem LifeStep.of_eq {v v' u u' : Life E}
    (h : LifeStep begins aborts u u') (hv : v = u) (hv' : v' = u') :
    LifeStep begins aborts v v' := by
  rw [hv, hv']
  exact h

/-! ## What each step of the coordinator can do -/

variable {ms : List Marker} {a : CoordinatorAction E}

namespace WalCoordinator

variable {fmt : Format E} {s s' : WalCoordinator E}

variable {txId : Nat}

theorem step_request {req : Request E} {now : UInt64}
    (h : step fmt s (.request txId req now) = some s') :
    s' = s ∨ ∃ tx tx' op, s.transactions.lookup txId = some tx ∧ s.tasks.lookup txId = none ∧
      checkRequest tx now req = some (tx', op) ∧
      s' = { s with
        transactions := s.transactions.insert txId tx'
        tasks := s.tasks.insert txId { op, stage := .append } } := by
  simp only [step] at h
  split at h
  · exact .inl (Option.some.inj h).symm
  next tx htx =>
    split at h
    · cases h
    next hfree =>
      split at h
      · exact .inl (Option.some.inj h).symm
      next tx' op hallowed =>
        have hnone : s.tasks.lookup txId = none := by simpa using hfree
        exact .inr ⟨tx, tx', op, htx, hnone, hallowed, (Option.some.inj h).symm⟩

theorem step_reserve {txId available : Nat}
    (h : step fmt s (.reserve txId available) = some s') :
    ∃ op, s.tasks.lookup txId = some { op, stage := .append } ∧
      (s' = s.endTask txId ∨
        s' = { s with
          wal := { s.wal with currentLsn := s.wal.currentLsn + (op.entries txId).length }
          tasks := s.tasks.insert txId { op, stage := .reserved s.wal.currentLsn } }) := by
  simp only [step, Option.bind_eq_bind, Option.bind_eq_some_iff, Option.guard_eq_some'] at h
  obtain ⟨⟨op, stage⟩, htask, -, rfl, h⟩ := h
  refine ⟨op, htask, ?_⟩
  split at h
  · exact .inl (Option.some.inj h).symm
  · exact .inr (Option.some.inj h).symm

theorem step_write {io : Nat → FileWal.IoOutcome} {syncOk rotateOk : Bool}
    (h : step fmt s (.write txId io syncOk rotateOk) = some s') :
    ∃ op lsn k wal, s.tasks.lookup txId = some { op, stage := .reserved lsn } ∧
      FileWal.Wrote fmt s.wal wal lsn (op.entries txId) k ∧
      wal = (FileWal.appendLocked fmt s.wal op.isBatch lsn (op.entries txId) io syncOk).2 ∧
      (s' = { s with wal }.endTask txId ∨
        (k = (op.entries txId).length ∧
          { s with wal }.complete txId op (List.range' lsn (op.entries txId).length) = some s')) := by
  simp only [step, Option.bind_eq_bind, Option.bind_eq_some_iff] at h
  obtain ⟨⟨op, stage⟩, htask, h⟩ := h
  cases stage with
  | append | store | publish | remove => cases h
  | reserved lsn =>
    rcases appendLocked_spec fmt s.wal op.isBatch lsn (op.entries txId) io syncOk with
      ⟨w', hres, hw⟩ | ⟨err, k, w', hres, hw⟩
    · simp only [hres] at h
      split at h
      · exact ⟨op, lsn, _, w', htask, hw, by rw [hres], .inr ⟨rfl, h⟩⟩
      · exact ⟨op, lsn, _, w', htask, hw, by rw [hres], .inl (Option.some.inj h).symm⟩
    · simp only [hres] at h
      exact ⟨op, lsn, k, w', htask, hw, by rw [hres], .inl (Option.some.inj h).symm⟩

theorem complete_cases {lsns : List Nat}
    (h : s.complete txId op lsns = some s') :
    (∃ now, op = .Begin now ∧ s' = { s with
      transactions := s.transactions.insert txId (newTransaction lsns)
      tasks := s.tasks.erase txId }) ∨
    (∃ events parentTx now tx, op = .AddLineage events parentTx now ∧
      s.transactions.lookup txId = some tx ∧ s' = { s with
        transactions := s.transactions.insert txId (lineageAdded tx (op.entries txId) lsns)
        tasks := s.tasks.erase txId }) ∨
    (∃ participants now tx, op = .Prepare participants now ∧
      s.transactions.lookup txId = some tx ∧ s' = { s with
        transactions := s.transactions.insert txId (prepared tx lsns)
        tasks := s.tasks.erase txId }) ∨
    (∃ commitLsn now, op = .Commit commitLsn now ∧
      s' = { s with tasks := s.tasks.insert txId { op, stage := .store } }) ∨
    (∃ reason now tx, op = .Abort reason now ∧ s.transactions.lookup txId = some tx ∧
      s' = { s with
        transactions := s.transactions.insert txId { tx with status := .Aborted }
        tasks := s.tasks.insert txId { op, stage := .remove } }) := by
  cases op with
  | Begin now => exact .inl ⟨now, rfl, (Option.some.inj h).symm⟩
  | AddLineage events parentTx now =>
    obtain ⟨tx, htx, h⟩ := Option.bind_eq_some_iff.mp h
    exact .inr (.inl ⟨events, parentTx, now, tx, rfl, htx, (Option.some.inj h).symm⟩)
  | Prepare participants now =>
    obtain ⟨tx, htx, h⟩ := Option.bind_eq_some_iff.mp h
    exact .inr (.inr (.inl ⟨participants, now, tx, rfl, htx, (Option.some.inj h).symm⟩))
  | Commit commitLsn now =>
    exact .inr (.inr (.inr (.inl ⟨commitLsn, now, rfl, (Option.some.inj h).symm⟩)))
  | Abort reason now =>
    obtain ⟨tx, htx, h⟩ := Option.bind_eq_some_iff.mp h
    exact .inr (.inr (.inr (.inr ⟨reason, now, tx, rfl, htx, (Option.some.inj h).symm⟩)))

theorem step_store {failedAfter : Option Nat}
    (h : step fmt s (.store txId failedAfter) = some s') :
    ∃ (op : Operation E) (tx : TransactionState E) (events : List E),
      s.tasks.lookup txId = some { op, stage := .store } ∧
      s.transactions.lookup txId = some tx ∧
      (s' = { s with stored := s.stored ++ events.map (fun e => (txId, e)) }.endTask txId ∨
      s' = { s with
        stored := s.stored ++ events.map (fun e => (txId, e))
        transactions := s.transactions.insert txId (commitParticipants tx)
        tasks := s.tasks.insert txId { op, stage := .publish } } ∨
      s' = { s with tasks := s.tasks.insert txId { op, stage := .publish } }) := by
  simp only [step, Option.bind_eq_bind, Option.bind_eq_some_iff, Option.guard_eq_some'] at h
  obtain ⟨⟨op, stage⟩, htask, -, rfl, tx, htx, h⟩ := h
  split at h
  · cases failedAfter with
    | none =>
      exact ⟨op, tx, lineageEvents tx, htask, htx, .inr (.inl (Option.some.inj h).symm)⟩
    | some n =>
      dsimp only at h
      split at h
      · cases h
      · exact ⟨op, tx, (lineageEvents tx).take n, htask, htx, .inl (Option.some.inj h).symm⟩
  · exact ⟨op, tx, [], htask, htx, .inr (.inr (Option.some.inj h).symm)⟩

theorem step_publish {ok : Bool} (h : step fmt s (.publish txId ok) = some s') :
    ∃ op tx, s.tasks.lookup txId = some { op, stage := .publish } ∧
      s.transactions.lookup txId = some tx ∧
      ((ok = true ∧ s' = { s with
        wal := s.wal.commitBatch tx.lsns
        transactions := s.transactions.insert txId { tx with status := .Committed }
        tasks := s.tasks.insert txId { op, stage := .remove } }) ∨
      (ok = false ∧ s' = s.endTask txId)) := by
  simp only [step, Option.bind_eq_bind, Option.bind_eq_some_iff, Option.guard_eq_some'] at h
  obtain ⟨⟨op, stage⟩, htask, -, rfl, tx, htx, h⟩ := h
  refine ⟨op, tx, htask, htx, ?_⟩
  cases ok with
  | true => exact .inl ⟨rfl, (Option.some.inj h).symm⟩
  | false => exact .inr ⟨rfl, (Option.some.inj h).symm⟩

theorem step_remove (h : step fmt s (.remove txId) = some s') :
    ∃ op, s.tasks.lookup txId = some { op, stage := .remove } ∧
      s' = { s with
        transactions := s.transactions.erase txId
        tasks := s.tasks.erase txId } := by
  simp only [step, Option.bind_eq_bind, Option.bind_eq_some_iff, Option.guard_eq_some'] at h
  obtain ⟨⟨op, stage⟩, htask, -, rfl, h⟩ := h
  exact ⟨op, htask, (Option.some.inj h).symm⟩

/-! ## The refinement -/

def storedOf (stored : List (Nat × E)) (txId : Nat) : List E :=
  stored.filterMap (fun p => if p.1 = txId then some p.2 else none)

theorem storedOf_append_self (stored : List (Nat × E)) (txId : Nat) (events : List E) :
    storedOf (stored ++ events.map (fun e => (txId, e))) txId = storedOf stored txId ++ events := by
  simp [storedOf, List.filterMap_append, List.filterMap_map]

theorem storedOf_append_ne {t txId : Nat} (h : t ≠ txId) (stored : List (Nat × E))
    (events : List E) :
    storedOf (stored ++ events.map (fun e => (txId, e))) t = storedOf stored t := by
  simp [storedOf, List.filterMap_append, List.filterMap_map, Ne.symm h]

def life (s : WalCoordinator E) (txId : Nat) : Life E where
  status := (s.transactions.lookup txId).map (fun tx => tx.status)
  task := s.tasks.lookup txId
  markers := markersOf s.wal.written txId
  stored := storedOf s.stored txId

theorem life_eq {t : Nat} {status : Option TransactionStatus} {task : Option (Task E)} {es : List E}
    (hstatus : (s.transactions.lookup t).map (fun tx => tx.status) = status)
    (htask : s.tasks.lookup t = task) (hmarkers : markersOf s.wal.written t = ms)
    (hstored : storedOf s.stored t = es) : s.life t = ⟨status, task, ms, es⟩ := by
  subst hstatus htask hmarkers hstored
  rfl

theorem life_congr {t : Nat} (htx : s'.transactions.lookup t = s.transactions.lookup t)
    (htask : s'.tasks.lookup t = s.tasks.lookup t)
    (hmarkers : markersOf s'.wal.written t = markersOf s.wal.written t)
    (hstored : storedOf s'.stored t = storedOf s.stored t) : s'.life t = s.life t := by
  unfold life
  rw [htx, htask, hmarkers, hstored]

theorem commitBatch_written (w : FileWal E) (lsns : List Nat) :
    (w.commitBatch lsns).written = w.written := by
  unfold commitBatch
  split <;> rfl

theorem background_frame {w w' : FileWal E} {work : Background} (h : w.background work = some w') :
    w'.written = w.written ∧ w'.committedLsn = w.committedLsn ∧ w'.currentLsn = w.currentLsn := by
  cases work with
  | rotateLoad =>
    cases h
    exact ⟨rfl, rfl, rfl⟩
  | rotateCreate i createOk =>
    obtain ⟨r, -, -, rfl | rfl⟩ := rotateCreate_cases h <;> exact ⟨rfl, rfl, rfl⟩
  | rotateSwap i syncOk =>
    obtain ⟨r, id, -, -, ⟨-, rfl⟩ | ⟨-, rfl⟩⟩ := rotateSwap_cases h <;>
      exact ⟨rfl, rfl, rfl⟩
  | compactSelect =>
    cases h
    unfold compactSelect
    dsimp only
    split <;> exact ⟨rfl, rfl, rfl⟩
  | compactNext copyOk removeOk =>
    obtain ⟨info, rest, -, rfl⟩ := compactNext_cases h
    unfold compactSegment
    split <;> exact ⟨rfl, rfl, rfl⟩

/-- Changing the map and the tasks at `txId`, and the log and storage for `txId` only, leaves
every other life alone. -/
theorem life_congr_ne {t txId : Nat} (ht : t ≠ txId)
    (htx : s'.transactions = s.transactions ∨ (∃ tx, s'.transactions = s.transactions.insert txId tx) ∨
      s'.transactions = s.transactions.erase txId)
    (htask : s'.tasks = s.tasks.erase txId ∨ ∃ task, s'.tasks = s.tasks.insert txId task)
    (hmarkers : markersOf s'.wal.written t = markersOf s.wal.written t)
    (hstored : storedOf s'.stored t = storedOf s.stored t) : s'.life t = s.life t := by
  refine life_congr ?_ ?_ hmarkers hstored
  · rcases htx with h | ⟨tx, h⟩ | h
    · rw [h]
    · rw [h, AList.lookup_insert_ne ht]
    · rw [h, AList.lookup_erase_ne ht]
  · rcases htask with h | ⟨task, h⟩
    · rw [h, AList.lookup_erase_ne ht]
    · rw [h, AList.lookup_insert_ne ht]

theorem nextTxId_le (h : step fmt s a = some s') :
    s.nextTxId ≤ s'.nextTxId := by
  cases a with
  | connectStorage =>
    cases h
    exact le_refl _
  | beginTransaction now =>
    cases h
    exact Nat.le_succ _
  | request txId req now =>
    obtain rfl | ⟨tx, tx', op, -, -, -, rfl⟩ := step_request h <;> exact le_refl _
  | reserve txId available =>
    obtain ⟨op, -, rfl | rfl⟩ := step_reserve h <;> exact le_refl _
  | write txId io syncOk rotateOk =>
    obtain ⟨op, lsn, k, wal, -, -, -, rfl | ⟨-, hdone⟩⟩ := step_write h
    · exact le_refl _
    · rcases complete_cases hdone with ⟨_, -, rfl⟩ | ⟨_, _, _, _, -, -, rfl⟩ |
        ⟨_, _, _, -, -, rfl⟩ | ⟨_, _, -, rfl⟩ | ⟨_, _, _, -, -, rfl⟩ <;> exact le_refl _
  | store txId failedAfter =>
    obtain ⟨op, tx, events, -, -, rfl | rfl | rfl⟩ := step_store h <;> exact le_refl _
  | publish txId ok =>
    obtain ⟨op, tx, -, -, ⟨-, rfl⟩ | ⟨-, rfl⟩⟩ := step_publish h <;> exact le_refl _
  | remove txId =>
    obtain ⟨op, -, rfl⟩ := step_remove h
    exact le_refl _
  | background work =>
    obtain ⟨w', -, rfl⟩ := Option.map_eq_some_iff.mp h
    exact le_refl _

def Fresh (s : WalCoordinator E) : Prop := ∀ t, s.nextTxId ≤ t → s.life t = Life.empty

theorem prepared_status (tx : TransactionState E) (lsns : List Nat) :
    (prepared tx lsns).status = .Prepared ∨ (prepared tx lsns).status = .Aborting := by
  unfold prepared
  dsimp only
  split
  · exact .inl rfl
  · exact .inr rfl

theorem write_life {txId lsn k : Nat} {wal : FileWal E}
    (htask : s.tasks.lookup txId = some { op, stage := .reserved lsn })
    (hw : FileWal.Wrote fmt s.wal wal lsn (op.entries txId) k)
    (hres : s' = { s with wal }.endTask txId ∨ (k = (op.entries txId).length ∧
      { s with wal }.complete txId op (List.range' lsn (op.entries txId).length) = some s')) :
    LifeStep begins aborts (s.life txId) (s'.life txId) := by
  obtain ⟨-, hmaybe, hall⟩ := markersOf_wrote fmt hw
  have hlife : s.life txId = ⟨_, some ⟨op, .reserved lsn⟩, _, _⟩ := life_eq rfl htask rfl rfl
  rcases hres with rfl | ⟨hk, hdone⟩
  · -- the append failed; its entry may be in the log all the same
    rcases hmaybe with hm | hm
    · exact (LifeStep.failed _ op lsn _ _).of_eq hlife (life_eq rfl (AList.lookup_erase _ _) hm rfl)
    · exact (LifeStep.failedLogged _ op lsn _ _).of_eq hlife
        (life_eq rfl (AList.lookup_erase _ _) hm rfl)
  have hm := hall hk
  rcases complete_cases hdone with ⟨now, rfl, rfl⟩ | ⟨events, parentTx, now, tx, rfl, htx, rfl⟩ |
    ⟨participants, now, tx, rfl, htx, rfl⟩ | ⟨commitLsn, now, rfl, rfl⟩ |
    ⟨reason, now, tx, rfl, htx, rfl⟩
  · refine (LifeStep.begun _ now lsn _ _).of_eq hlife (life_eq ?_ (AList.lookup_erase _ _) hm rfl)
    rw [AList.lookup_insert]
    rfl
  · rw [markers, List.append_nil] at hm
    refine (LifeStep.added _ events parentTx now lsn _ _).of_eq hlife
      (life_eq ?_ (AList.lookup_erase _ _) hm rfl)
    dsimp only at htx ⊢
    rw [AList.lookup_insert, htx]
    rfl
  · have hnext := prepared_status tx (List.range' lsn 1)
    refine (LifeStep.prepared _ participants now lsn _ hnext _ _).of_eq hlife
      (life_eq ?_ (AList.lookup_erase _ _) hm rfl)
    rw [AList.lookup_insert]
    rfl
  · exact (LifeStep.logged _ commitLsn now lsn _ _).of_eq hlife
      (life_eq rfl (AList.lookup_insert _) hm rfl)
  · refine (LifeStep.aborted _ reason now lsn _ _).of_eq hlife
      (life_eq ?_ (AList.lookup_insert _) hm rfl)
    rw [AList.lookup_insert]
    rfl

theorem admit_life {req : Request E} {now : UInt64}
    {tx tx' : TransactionState E}
    (htx : s.transactions.lookup txId = some tx) (hfree : s.tasks.lookup txId = none)
    (hallowed : checkRequest tx now req = some (tx', op)) (haborts : ∀ reason, req = .abort reason → aborts) :
    LifeStep begins aborts (s.life txId)
      (life { s with
        transactions := s.transactions.insert txId tx'
        tasks := s.tasks.insert txId { op, stage := .append } } txId) := by
  have hlife : ∀ status, tx.status = status → s.life txId =
      ⟨some status, none, markersOf s.wal.written txId, storedOf s.stored txId⟩ := by
    intro status hstatus
    refine life_eq ?_ hfree rfl rfl
    rw [htx, ← hstatus]
    rfl
  have hafter : life { s with
      transactions := s.transactions.insert txId tx'
      tasks := s.tasks.insert txId { op, stage := .append } } txId =
        ⟨some tx'.status, some ⟨op, .append⟩, markersOf s.wal.written txId,
          storedOf s.stored txId⟩ := by
    refine life_eq ?_ (AList.lookup_insert _) rfl rfl
    rw [AList.lookup_insert]
    rfl
  cases req with
  | addLineage events =>
    simp only [checkRequest] at hallowed
    split at hallowed
    next hactive =>
      cases hallowed
      rw [hactive] at hafter
      exact (LifeStep.addLineage events tx.parentTx now _ _).of_eq (hlife _ hactive) hafter
    · cases hallowed
  | prepare =>
    simp only [checkRequest] at hallowed
    split at hallowed
    next hactive =>
      cases hallowed
      exact (LifeStep.prepare _ now _ _).of_eq (hlife _ hactive) hafter
    · cases hallowed
  | commit =>
    simp only [checkRequest] at hallowed
    split at hallowed
    next hprepared =>
      cases hallowed
      exact (LifeStep.commit _ now _ _).of_eq (hlife _ hprepared) hafter
    · cases hallowed
  | abort reason =>
    simp only [checkRequest] at hallowed
    split at hallowed
    · cases hallowed
    next hlive =>
      cases hallowed
      exact (LifeStep.abort (haborts reason rfl) tx.status (fun h => hlive (.inl h)) reason now _ _).of_eq
        (hlife _ rfl) hafter

theorem reserve_life {txId available : Nat}
    (h : step fmt s (.reserve txId available) = some s') :
    (∀ t, t ≠ txId → s'.life t = s.life t) ∧
      LifeStep begins aborts (s.life txId) (s'.life txId) := by
  obtain ⟨op, htask, rfl | rfl⟩ := step_reserve h
  · refine ⟨fun t ht => life_congr_ne ht (.inl rfl) (.inl rfl) rfl rfl, ?_⟩
    exact (LifeStep.refused _ op _ _).of_eq (life_eq rfl htask rfl rfl)
      (life_eq rfl (AList.lookup_erase _ _) rfl rfl)
  · refine ⟨fun t ht => life_congr_ne ht (.inl rfl) (.inr ⟨_, rfl⟩) rfl rfl, ?_⟩
    exact (LifeStep.reserve _ op _ _ _).of_eq (life_eq rfl htask rfl rfl)
      (life_eq rfl (AList.lookup_insert _) rfl rfl)

theorem write_life_ne {t txId lsn k : Nat} {wal : FileWal E} (ht : t ≠ txId)
    (hw : FileWal.Wrote fmt s.wal wal lsn (op.entries txId) k)
    (hres : s' = { s with wal }.endTask txId ∨ (k = (op.entries txId).length ∧
      { s with wal }.complete txId op (List.range' lsn (op.entries txId).length) = some s')) :
    s'.life t = s.life t := by
  have hmarkers := (markersOf_wrote fmt hw).1 t ht
  rcases hres with rfl | ⟨-, hdone⟩
  · exact life_congr_ne ht (.inl rfl) (.inl rfl) hmarkers rfl
  rcases complete_cases hdone with ⟨_, -, rfl⟩ | ⟨_, _, _, _, -, -, rfl⟩ |
    ⟨_, _, _, -, -, rfl⟩ | ⟨_, _, -, rfl⟩ | ⟨_, _, _, -, -, rfl⟩
  · exact life_congr_ne ht (.inr (.inl ⟨_, rfl⟩)) (.inl rfl) hmarkers rfl
  · exact life_congr_ne ht (.inr (.inl ⟨_, rfl⟩)) (.inl rfl) hmarkers rfl
  · exact life_congr_ne ht (.inr (.inl ⟨_, rfl⟩)) (.inl rfl) hmarkers rfl
  · exact life_congr_ne ht (.inl rfl) (.inr ⟨_, rfl⟩) hmarkers rfl
  · exact life_congr_ne ht (.inr (.inl ⟨_, rfl⟩)) (.inr ⟨_, rfl⟩) hmarkers rfl

theorem store_life {failedAfter : Option Nat}
    (h : step fmt s (.store txId failedAfter) = some s') :
    (∀ t, t ≠ txId → s'.life t = s.life t) ∧
      LifeStep begins aborts (s.life txId) (s'.life txId) := by
  obtain ⟨op, tx, events, htask, htx, rfl | rfl | rfl⟩ := step_store h
  · constructor
    · intro t ht
      exact life_congr_ne ht (.inl rfl) (.inl rfl) rfl (storedOf_append_ne ht _ _)
    · exact (LifeStep.storeFailed _ op events _ _).of_eq (life_eq rfl htask rfl rfl)
        (life_eq rfl (AList.lookup_erase _ _) rfl (storedOf_append_self _ _ _))
  · constructor
    · intro t ht
      exact life_congr_ne ht (.inr (.inl ⟨_, rfl⟩)) (.inr ⟨_, rfl⟩) rfl (storedOf_append_ne ht _ _)
    · refine (LifeStep.stored _ op events _ _).of_eq (life_eq rfl htask rfl rfl)
        (life_eq ?_ (AList.lookup_insert _) rfl (storedOf_append_self _ _ _))
      rw [AList.lookup_insert, htx]
      rfl
  · constructor
    · intro t ht
      exact life_congr_ne ht (.inl rfl) (.inr ⟨_, rfl⟩) rfl rfl
    · refine (LifeStep.stored _ op [] _ _).of_eq (life_eq rfl htask rfl rfl)
        (life_eq rfl (AList.lookup_insert _) rfl ?_)
      rw [List.append_nil]

theorem publish_life {ok : Bool}
    (h : step fmt s (.publish txId ok) = some s') :
    (∀ t, t ≠ txId → s'.life t = s.life t) ∧
      LifeStep begins aborts (s.life txId) (s'.life txId) := by
  obtain ⟨op, tx, htask, htx, ⟨-, rfl⟩ | ⟨-, rfl⟩⟩ := step_publish h
  · have hmarkers : ∀ t, markersOf (s.wal.commitBatch tx.lsns).written t =
        markersOf s.wal.written t := by
      intro t
      rw [commitBatch_written]
    constructor
    · intro t ht
      exact life_congr_ne ht (.inr (.inl ⟨_, rfl⟩)) (.inr ⟨_, rfl⟩) (hmarkers t) rfl
    · refine (LifeStep.published _ op _ _).of_eq (life_eq rfl htask rfl rfl)
        (life_eq ?_ (AList.lookup_insert _) (hmarkers txId) rfl)
      rw [AList.lookup_insert]
      rfl
  · refine ⟨fun t ht => life_congr_ne ht (.inl rfl) (.inl rfl) rfl rfl, ?_⟩
    exact (LifeStep.publishFailed _ op _ _).of_eq (life_eq rfl htask rfl rfl)
      (life_eq rfl (AList.lookup_erase _ _) rfl rfl)

/-- **Refinement.** Every step of the coordinator is a move in the life of one transaction and
leaves all other lives as they are. A life begins only with the next transaction id, and an
abort starts only with a call of `abort`. -/
theorem step_life (hfresh : Fresh s) (h : step fmt s a = some s')
    (t : Nat) :
    s'.life t = s.life t ∨
      LifeStep (t = s.nextTxId ∧ s.nextTxId < s'.nextTxId)
        (∃ reason now, a = .request t (.abort reason) now) (s.life t) (s'.life t) := by
  cases a with
  | connectStorage =>
    cases h
    exact .inl rfl
  | beginTransaction now =>
    cases h
    by_cases ht : t = s.nextTxId
    · subst ht
      have hempty := hfresh s.nextTxId (le_refl _)
      -- a new life: no status, no marker, nothing stored
      obtain ⟨hstatus, htask, hmarkers, hstored⟩ := Life.mk.inj hempty
      exact .inr ((LifeStep.begin ⟨rfl, Nat.lt_succ_self _⟩ now).of_eq hempty
        (life_eq hstatus (AList.lookup_insert _) hmarkers hstored))
    · exact .inl (life_congr_ne ht (.inl rfl) (.inr ⟨_, rfl⟩) rfl rfl)
  | request txId req now =>
    obtain rfl | ⟨tx, tx', op, htx, hfree, hallowed, rfl⟩ := step_request h
    · exact .inl rfl
    by_cases ht : t = txId
    · subst ht
      refine .inr (admit_life htx hfree hallowed ?_)
      rintro reason rfl
      exact ⟨reason, now, rfl⟩
    · exact .inl (life_congr_ne ht (.inr (.inl ⟨_, rfl⟩)) (.inr ⟨_, rfl⟩) rfl rfl)
  | reserve txId available =>
    obtain ⟨hothers, hown⟩ := reserve_life h
    by_cases ht : t = txId
    · subst ht
      exact .inr hown
    · exact .inl (hothers t ht)
  | write txId io syncOk rotateOk =>
    obtain ⟨op, lsn, k, wal, htask, hw, -, hres⟩ := step_write h
    by_cases ht : t = txId
    · subst ht
      exact .inr (write_life htask hw hres)
    · exact .inl (write_life_ne ht hw hres)
  | store txId failedAfter =>
    obtain ⟨hothers, hown⟩ := store_life h
    by_cases ht : t = txId
    · subst ht
      exact .inr hown
    · exact .inl (hothers t ht)
  | publish txId ok =>
    obtain ⟨hothers, hown⟩ := publish_life h
    by_cases ht : t = txId
    · subst ht
      exact .inr hown
    · exact .inl (hothers t ht)
  | remove txId =>
    obtain ⟨op, htask, rfl⟩ := step_remove h
    by_cases ht : t = txId
    · subst ht
      refine .inr ((LifeStep.removed _ op _ _).of_eq (life_eq rfl htask rfl rfl)
        (life_eq ?_ (AList.lookup_erase _ _) rfl rfl))
      rw [AList.lookup_erase]
      rfl
    · exact .inl (life_congr_ne ht (.inr (.inr rfl)) (.inl rfl) rfl rfl)
  | background work =>
    obtain ⟨w', hw, rfl⟩ := Option.map_eq_some_iff.mp h
    exact .inl (life_congr rfl rfl (by rw [(background_frame hw).1]) rfl)

theorem fresh_step (hfresh : Fresh s) (h : step fmt s a = some s') :
    Fresh s' := by
  intro t ht
  have hle := nextTxId_le h
  have hempty := hfresh t (by omega)
  rcases step_life hfresh h t with heq | hmove
  · rw [heq, hempty]
  · -- the only move out of nothing is a begin, and the id is used up by it
    rw [hempty] at hmove
    generalize s'.life t = v at hmove ⊢
    unfold Life.empty at hmove
    cases hmove with
    | begin hbegin now => omega

end WalCoordinator

/-! ## Which markers there can be -/

namespace Life

def Base (ms : List Marker) : Prop :=
  ms = [.begin] ∨ ms = [.begin, .prepare] ∨ ms = [.begin, .prepare, .commit]

def Aborts (ms : List Marker) : Prop :=
  ∃ base n, Base base ∧ ms = base ++ List.replicate n .abort

/-- The markers that fit a status when no operation is in progress. -/
def AtRest (ms : List Marker) : Option TransactionStatus → Prop
  | none => ms = [] ∨ Aborts ms
  | some .Active => ms = [.begin]
  | some .Preparing => ms = [.begin] ∨ ms = [.begin, .prepare]
  | some .Prepared => ms = [.begin, .prepare]
  | some .Committing => ms = [.begin, .prepare] ∨ ms = [.begin, .prepare, .commit]
  | some .Aborting => Aborts ms
  | some .Committed | some .Aborted => False

def BeforeWrite (ms : List Marker) (status : Option TransactionStatus) : Operation E → Prop
  | .Begin _ => status = none ∧ ms = []
  | .AddLineage .. => status = some .Active ∧ ms = [.begin]
  | .Prepare .. => status = some .Preparing ∧ ms = [.begin]
  | .Commit .. => status = some .Committing ∧ ms = [.begin, .prepare]
  | .Abort .. => status = some .Aborting ∧ Aborts ms

def Committing (ms : List Marker) : Operation E → Prop
  | .Commit .. => ms = [.begin, .prepare, .commit]
  | _ => False

/-- What can be in the log of a transaction, by what the coordinator is doing with it. -/
def Valid (v : Life E) : Prop :=
  match v.task with
  | none => AtRest v.markers v.status
  | some ⟨op, .append⟩ => BeforeWrite v.markers v.status op
  | some ⟨op, .reserved _⟩ => BeforeWrite v.markers v.status op
  | some ⟨op, .store⟩ => v.status = some .Committing ∧ Committing v.markers op
  | some ⟨op, .publish⟩ => v.status = some .Committing ∧ Committing v.markers op
  | some ⟨_, .remove⟩ => Aborts v.markers

theorem aborts_of_base (h : Base ms) : Aborts ms :=
  ⟨ms, 0, h, by simp⟩

theorem aborts_append (h : Aborts ms) : Aborts (ms ++ [.abort]) := by
  obtain ⟨base, n, hbase, rfl⟩ := h
  exact ⟨base, n + 1, hbase, by rw [List.append_assoc, List.replicate_succ']⟩

theorem commit_of_committing (h : Committing ms op) :
    (∃ commitLsn now, op = .Commit commitLsn now) ∧ ms = [.begin, .prepare, .commit] := by
  cases op with
  | Commit commitLsn now => exact ⟨⟨commitLsn, now, rfl⟩, h⟩
  | Begin | AddLineage | Prepare | Abort => exact h.elim

theorem aborts_of_atRest {status : TransactionStatus}
    (h : AtRest ms (some status)) : Aborts ms := by
  cases status with
  | Active => exact aborts_of_base (.inl h)
  | Preparing =>
    rcases h with h | h
    · exact aborts_of_base (.inl h)
    · exact aborts_of_base (.inr (.inl h))
  | Prepared => exact aborts_of_base (.inr (.inl h))
  | Committing =>
    rcases h with h | h
    · exact aborts_of_base (.inr (.inl h))
    · exact aborts_of_base (.inr (.inr h))
  | Aborting => exact h
  | Committed | Aborted => exact h.elim

theorem atRest_of_beforeWrite {status : Option TransactionStatus} (h : BeforeWrite ms status op) :
    AtRest ms status ∧ AtRest (ms ++ op.markers) status := by
  cases op with
  | Begin now =>
    obtain ⟨rfl, rfl⟩ := h
    exact ⟨.inl rfl, .inr (aborts_of_base (.inl rfl))⟩
  | AddLineage events parentTx now =>
    obtain ⟨rfl, rfl⟩ := h
    exact ⟨rfl, rfl⟩
  | Prepare participants now =>
    obtain ⟨rfl, rfl⟩ := h
    exact ⟨.inl rfl, .inr rfl⟩
  | Commit commitLsn now =>
    obtain ⟨rfl, rfl⟩ := h
    exact ⟨.inl rfl, .inr rfl⟩
  | Abort reason now =>
    obtain ⟨rfl, haborts⟩ := h
    exact ⟨haborts, aborts_append haborts⟩

theorem valid_step {v v' : Life E} (hv : Valid v)
    (h : LifeStep begins aborts v v') : Valid v' := by
  cases h with
  | begin hbegin now => exact ⟨rfl, rfl⟩
  | addLineage events parentTx now ms es => exact ⟨rfl, hv⟩
  | prepare participants now ms es => exact ⟨rfl, hv⟩
  | commit commitLsn now ms es => exact ⟨rfl, hv⟩
  | abort hstart status hlive reason now ms es => exact ⟨rfl, aborts_of_atRest hv⟩
  | reserve status op lsn ms es => exact hv
  | refused status op ms es => exact (atRest_of_beforeWrite hv).1
  | failed status op lsn ms es => exact (atRest_of_beforeWrite hv).1
  | failedLogged status op lsn ms es => exact (atRest_of_beforeWrite hv).2
  | begun status now lsn ms es =>
    obtain ⟨-, rfl⟩ : status = none ∧ ms = [] := hv
    rfl
  | added status events parentTx now lsn ms es =>
    obtain ⟨rfl, rfl⟩ : status = some .Active ∧ ms = [.begin] := hv
    rfl
  | prepared status participants now lsn next hnext ms es =>
    obtain ⟨-, rfl⟩ : status = some .Preparing ∧ ms = [.begin] := hv
    rcases hnext with rfl | rfl
    · rfl
    · exact aborts_of_base (.inr (.inl rfl))
  | logged status commitLsn now lsn ms es =>
    obtain ⟨rfl, rfl⟩ : status = some .Committing ∧ ms = [.begin, .prepare] := hv
    exact ⟨rfl, rfl⟩
  | aborted status reason now lsn ms es => exact aborts_append hv.2
  | stored status op more ms es => exact hv
  | storeFailed status op more ms es =>
    obtain ⟨rfl, hlogged⟩ : status = some .Committing ∧ Committing ms op := hv
    exact .inr (commit_of_committing hlogged).2
  | published status op ms es => exact aborts_of_base (.inr (.inr (commit_of_committing hv.2).2))
  | publishFailed status op ms es =>
    obtain ⟨rfl, hlogged⟩ : status = some .Committing ∧ Committing ms op := hv
    exact .inr (commit_of_committing hlogged).2
  | removed status op ms es => exact .inr hv

theorem Valid.language {v : Life E} (hv : Valid v) : v.markers = [] ∨ Aborts v.markers := by
  obtain ⟨status, task, ms, es⟩ := v
  match task with
  | none =>
    cases status with
    | none => exact hv
    | some status => exact .inr (aborts_of_atRest hv)
  | some ⟨op, .append⟩ | some ⟨op, .reserved lsn⟩ =>
    have hrest : AtRest ms status := (atRest_of_beforeWrite hv).1
    cases status with
    | none => exact hrest
    | some status => exact .inr (aborts_of_atRest hrest)
  | some ⟨op, .store⟩ | some ⟨op, .publish⟩ => 
    exact .inr (aborts_of_base (.inr (.inr (commit_of_committing hv.2).2)))
  | some ⟨op, .remove⟩ => exact .inr hv

end Life

namespace WalCoordinator

variable {fmt : Format E} {s s' : WalCoordinator E}

/-- Every life is valid and the ids to come are unused. -/
structure Orderly (s : WalCoordinator E) : Prop where
  fresh : Fresh s
  valid : ∀ t, (s.life t).Valid

theorem orderly_new (config : WalConfig) : Orderly (new config : WalCoordinator E) :=
  ⟨fun _ _ => rfl, fun _ => .inl rfl⟩

theorem orderly_step (hs : Orderly s) (h : step fmt s a = some s') :
    Orderly s' := by
  refine ⟨fresh_step hs.fresh h, fun t => ?_⟩
  rcases step_life hs.fresh h t with heq | hmove
  · rw [heq]
    exact hs.valid t
  · exact Life.valid_step (hs.valid t) hmove

theorem orderly_reaches {config : WalConfig} {ok : WalCoordinator E → CoordinatorAction E → Prop}
    (h : Reaches (step fmt) ok (new config) s) : Orderly s :=
  h.invariant (orderly_new config) (fun _ _ _ hs _ hstep => orderly_step hs hstep)

/-- **The language of a transaction's log**, in every reachable state: nothing, or `Begin`, at
most one `Prepare`, at most one `Commit`, then `Abort`s. -/
theorem markers_language {config : WalConfig} {ok : WalCoordinator E → CoordinatorAction E → Prop}
    (h : Reaches (step fmt) ok (new config) s) (t : Nat) :
    markersOf s.wal.written t = [] ∨ Life.Aborts (markersOf s.wal.written t) :=
  ((orderly_reaches h).valid t).language

end WalCoordinator

end Arcxa.Wal
