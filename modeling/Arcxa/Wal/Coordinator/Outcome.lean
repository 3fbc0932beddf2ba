import Arcxa.Wal.Coordinator.Lifecycle

/-!
# One outcome per transaction

A commit logs its record first and writes to storage afterwards; when the write fails,
the transaction stays in the map with the status `Committing`. `abort` refuses
`Committed` and `Aborted` only, so that such a transaction can still be aborted, by its
owner or by the timeout handler, and then has both records.

That is the only way: `oneOutcome_of_noLateAbort` says that in every run in which no
abort starts on a transaction that is still in the map with its `Commit` logged, the
two records exclude each other and aborted transactions have nothing in storage.
-/

namespace Arcxa.Wal

variable {E : Type}

namespace WalCoordinator

/-- The log holds a `Commit` record of the transaction. -/
def CommitLogged (s : WalCoordinator E) (txId : Nat) : Prop :=
  Marker.commit ∈ markersOf s.wal.written txId

/-- The log holds an `Abort` record of the transaction. -/
def AbortLogged (s : WalCoordinator E) (txId : Nat) : Prop :=
  Marker.abort ∈ markersOf s.wal.written txId

instance (s : WalCoordinator E) (txId : Nat) : Decidable (s.CommitLogged txId) :=
  inferInstanceAs (Decidable (_ ∈ _))

instance (s : WalCoordinator E) (txId : Nat) : Decidable (s.AbortLogged txId) :=
  inferInstanceAs (Decidable (_ ∈ _))

def OneOutcome (s : WalCoordinator E) : Prop :=
  ∀ t, ¬ (s.CommitLogged t ∧ s.AbortLogged t) ∧
    (s.AbortLogged t → ∀ event, (t, event) ∉ s.stored)

/-- An abort starts only on a transaction that has left the map or has no `Commit` record. -/
def NoLateAbort (s : WalCoordinator E) : CoordinatorAction E → Prop
  | .request txId (.abort _) _ => (s.transactions.lookup txId).isSome → ¬ s.CommitLogged txId
  | _ => True

instance (s : WalCoordinator E) : ∀ a, Decidable (NoLateAbort s a)
  | .request txId (.abort _) _ =>
    inferInstanceAs (Decidable ((s.transactions.lookup txId).isSome → ¬ s.CommitLogged txId))
  | .request _ (.addLineage _) _ | .request _ .prepare _ | .request _ .commit _
  | .connectStorage | .beginTransaction _ | .reserve .. | .write .. | .store .. | .publish ..
  | .remove _ | .background _ => inferInstanceAs (Decidable True)

end WalCoordinator

/-! ## The invariant of one life -/

namespace Life

/-- Commit and abort exclude each other; what is stored is committed; an abort in progress
has found no commit. -/
structure Settled (v : Life E) : Prop where
  exclusive : Marker.abort ∈ v.markers → Marker.commit ∉ v.markers
  storedCommitted : v.stored ≠ [] → Marker.commit ∈ v.markers
  aborting : ∀ reason now stage, v.task = some ⟨.Abort reason now, stage⟩ →
    Marker.commit ∉ v.markers

theorem settled_empty : Settled (Life.empty : Life E) :=
  ⟨by simp [Life.empty], by simp [Life.empty], by simp [Life.empty]⟩

theorem Settled.move {status status' : Option TransactionStatus} {task task' : Option (Task E)}
    {ms : List Marker} {es : List E} (h : Settled ⟨status, task, ms, es⟩)
    (htask : ∀ reason now stage, task' = some ⟨.Abort reason now, stage⟩ →
      ∃ stage₀, task = some ⟨.Abort reason now, stage₀⟩) :
    Settled ⟨status', task', ms, es⟩ := by
  refine ⟨h.exclusive, h.storedCommitted, ?_⟩
  intro reason now stage hnew
  obtain ⟨stage₀, hold⟩ := htask reason now stage hnew
  exact h.aborting reason now stage₀ hold

theorem Settled.log {status status' : Option TransactionStatus} {op : Operation E} {lsn : Nat}
    {task' : Option (Task E)} {ms : List Marker} {es : List E}
    (h : Settled ⟨status, some ⟨op, .reserved lsn⟩, ms, es⟩)
    (hv : BeforeWrite ms status op)
    (htask : ∀ reason now stage, task' = some ⟨.Abort reason now, stage⟩ →
      op = .Abort reason now) : Settled ⟨status', task', ms ++ op.markers, es⟩ := by
  cases op with
  | Abort reason now =>
    have hno : Marker.commit ∉ ms := h.aborting reason now _ rfl
    refine ⟨?_, ?_, ?_⟩
    · simp [Operation.markers, hno]
    · intro hes
      exact absurd (h.storedCommitted hes) hno
    · simp [Operation.markers, hno]
  | Begin now | AddLineage events parentTx now | Prepare participants now | Commit commitLsn now =>
    -- nothing but `Begin` and `Prepare` can stand before, so that no abort is there
    obtain ⟨-, rfl⟩ := hv
    refine ⟨by simp [Operation.markers], ?_, ?_⟩
    · intro hes
      have := h.storedCommitted hes
      simp at this
    · intro reason now' stage hnew
      have hop := htask reason now' stage hnew
      cases hop

theorem settled_step {begins aborts : Prop} {v v' : Life E} (hv : Valid v) (hs : Settled v)
    (haborts : aborts → v.status ≠ none → Marker.commit ∉ v.markers)
    (h : LifeStep begins aborts v v') : Settled v' := by
  cases h with
  | begin hbegin now => exact settled_empty.move (by simp)
  | addLineage events parentTx now ms es => exact hs.move (by simp)
  | prepare participants now ms es => exact hs.move (by simp)
  | commit commitLsn now ms es => exact hs.move (by simp)
  | abort hstart status hlive reason now ms es =>
    have hno : Marker.commit ∉ ms := haborts hstart (by simp)
    exact ⟨hs.exclusive, hs.storedCommitted, fun _ _ _ _ => hno⟩
  | reserve status op lsn ms es =>
    refine hs.move ?_
    intro reason now stage hnew
    cases hnew
    exact ⟨_, rfl⟩
  | refused status op ms es => exact hs.move (by simp)
  | failed status op lsn ms es => exact hs.move (by simp)
  | failedLogged status op lsn ms es => exact hs.log hv (by simp)
  | begun status now lsn ms es => exact hs.log hv (by simp)
  | added status events parentTx now lsn ms es => exact hs.move (by simp)
  | prepared status participants now lsn next hnext ms es => exact hs.log hv (by simp)
  | logged status commitLsn now lsn ms es => exact hs.log hv (by simp)
  | aborted status reason now lsn ms es =>
    refine hs.log hv ?_
    intro reason' now' stage hnew
    cases hnew
    rfl
  | stored status op more ms es =>
    -- only a logged commit gets here
    obtain ⟨⟨commitLsn, now, rfl⟩, rfl⟩ := commit_of_committing hv.2
    exact ⟨hs.exclusive, fun _ => by simp, by simp⟩
  | storeFailed status op more ms es =>
    obtain ⟨⟨commitLsn, now, rfl⟩, rfl⟩ := commit_of_committing hv.2
    exact ⟨hs.exclusive, fun _ => by simp, by simp⟩
  | published status op ms es =>
    refine hs.move ?_
    intro reason now stage hnew
    cases hnew
    exact ⟨_, rfl⟩
  | publishFailed status op ms es => exact hs.move (by simp)
  | removed status op ms es => exact hs.move (by simp)

end Life

/-! ## Runs -/

namespace WalCoordinator

variable {fmt : Format E} {s s' : WalCoordinator E}

theorem settled_step {a : CoordinatorAction E} (horderly : Orderly s)
    (hs : ∀ t, (s.life t).Settled) (hok : NoLateAbort s a) (h : step fmt s a = some s') :
    ∀ t, (s'.life t).Settled := by
  intro t
  rcases step_life horderly.fresh h t with heq | hmove
  · rw [heq]
    exact hs t
  · refine Life.settled_step (horderly.valid t) (hs t) ?_ hmove
    rintro ⟨reason, now, rfl⟩ hstatus
    refine hok ?_
    -- a transaction with a status is in the map
    cases htx : s.transactions.lookup t with
    | none =>
      rw [life, htx] at hstatus
      exact absurd rfl hstatus
    | some tx => rfl

theorem mem_storedOf {t : Nat} {event : E} (h : (t, event) ∈ s.stored) :
    event ∈ storedOf s.stored t := by
  unfold storedOf
  rw [List.mem_filterMap]
  exact ⟨(t, event), h, by simp⟩

/-- **One outcome.** In every run in which no abort starts on a transaction that is still in
the map with its `Commit` logged, no transaction has both records and no event of an aborted
one is in storage. -/
theorem oneOutcome_of_noLateAbort {config : WalConfig}
    (h : Reaches (step fmt) NoLateAbort (new config) s) : OneOutcome s := by
  have hsettled : ∀ t, (s.life t).Settled := by
    refine h.invariant' (P := fun s => ∀ t, (s.life t).Settled) ?_ ?_
    · exact fun _ => Life.settled_empty
    · intro s a s' hreach hs hok hstep
      exact settled_step (orderly_reaches hreach) hs hok hstep
  intro t
  refine ⟨fun ⟨hcommit, habort⟩ => (hsettled t).exclusive habort hcommit, ?_⟩
  intro habort event hevent
  have hmem := mem_storedOf hevent
  exact (hsettled t).exclusive habort ((hsettled t).storedCommitted (List.ne_nil_of_mem hmem))

/-! ## Concrete runs -/

def appendRun (txId : Nat) : List (CoordinatorAction Nat) :=
  [.reserve txId 0, .write txId (fun _ => .ok) true true]

/-- A transaction with two events, up to the point where its `Commit` is logged. -/
def loggedCommitRun : List (CoordinatorAction Nat) :=
  [.connectStorage, .beginTransaction 0] ++ appendRun 1 ++
    [.request 1 (.addLineage [7, 8]) 0] ++ appendRun 1 ++
    [.request 1 .prepare 0] ++ appendRun 1 ++ [.request 1 .commit 0] ++ appendRun 1

/-- A transaction that commits and another one that aborts. -/
theorem oneOutcome_commit_and_abort :
    ∃ s, exec (step bincode) (new sampleConfig)
        (loggedCommitRun ++ [.store 1 none, .publish 1 true, .remove 1, .beginTransaction 0] ++
          appendRun 2 ++ [.request 2 (.abort "Transaction timeout") 0] ++ appendRun 2) = some s ∧
      s.CommitLogged 1 ∧ s.AbortLogged 2 ∧ OneOutcome s := by
  apply exists_exec (fun s => s.CommitLogged 1 ∧ s.AbortLogged 2) (by decide +kernel)
  intro s hexec hq
  have hreach : Reaches (step bincode) NoLateAbort (new sampleConfig) s :=
    Reaches.of_exec (by decide +kernel) hexec
  exact ⟨hq.1, hq.2, oneOutcome_of_noLateAbort hreach⟩

/-- `write_batch` fails after one of two events, and the timeout handler aborts: the log has
both records, and storage has an event of an aborted transaction. -/
theorem abort_after_logged_commit :
    ∃ s, exec (step bincode) (new sampleConfig)
        (loggedCommitRun ++ [.store 1 (some 1), .request 1 (.abort "Transaction timeout") 0] ++
          appendRun 1) = some s ∧
      s.CommitLogged 1 ∧ s.AbortLogged 1 ∧ (1, 7) ∈ s.stored ∧ ¬ OneOutcome s := by
  apply exists_exec (fun s => s.CommitLogged 1 ∧ s.AbortLogged 1 ∧ (1, 7) ∈ s.stored)
    (by decide +kernel)
  intro s _ hq
  obtain ⟨hcommit, habort, hstored⟩ := hq
  exact ⟨hcommit, habort, hstored, fun hone => (hone 1).1 ⟨hcommit, habort⟩⟩

end WalCoordinator

end Arcxa.Wal
