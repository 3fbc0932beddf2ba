import Arcxa.Ha.Rebalancer

/-!
# Migration progress

A migration goes through its tasks and moves the bytes of each in batches. The bytes moved so far
are counted for the whole plan, and the count is compared with the bytes of the task at hand. A
task that is smaller than what was moved before makes the subtraction underflow, and the batches of
a task leave its remainder out. The count is right to the end exactly when all bytes are in the
last task and its batches divide them (`accounts_exactly_iff`).

A migration that is cancelled stops before a task, so that what is said of every prefix is said of
it as well.
-/

namespace Arcxa.Ha.Rebalancer

inductive MigrationState where
  | Planning
  | PendingApproval
  | Migrating
  | Verifying
  | Switching
  | Completed
  | Failed
  | Aborted
  deriving DecidableEq

structure MigrationProgress where
  state : MigrationState
  bytesMigrated : Nat
  bytesTotal : Nat
  currentTask : Nat
  totalTasks : Nat
  deriving DecidableEq

/-- What one call of `update_progress` is asked to do. -/
inductive ProgressUpdate where
  | start (task : Nat)
  | batch (estimatedBytes : Nat)
  | verify
  | switch
  deriving DecidableEq

def checkedSub (a b : Nat) : Option Nat := if b ≤ a then some (a - b) else none

section Run

variable (batchSize : Nat)

/-- The closure that `update_progress` is called with. -/
def updater (p : MigrationProgress) : ProgressUpdate → Option MigrationProgress
  | .start i => some { p with currentTask := i, state := .Migrating }
  | .batch estimatedBytes =>
    (checkedSub estimatedBytes p.bytesMigrated).map fun rest =>
      { p with bytesMigrated := p.bytesMigrated + min batchSize rest }
  | .verify => some { p with state := .Verifying }
  | .switch => some { p with state := .Switching }

/-- `update_progress`: the remaining bytes are computed as soon as time has passed since the
start. -/
def updateProgress (p : MigrationProgress) (update : ProgressUpdate × Bool) :
    Option MigrationProgress :=
  (updater batchSize p update.1).bind fun p =>
    if update.2 then (checkedSub p.bytesTotal p.bytesMigrated).map fun _ => p else some p

def migrateTaskData (task : MigrationTask) : List ProgressUpdate :=
  List.replicate (max (task.estimatedBytes / batchSize) 1) (.batch task.estimatedBytes)

/-- The updates of the tasks from the `i`-th on. -/
def taskUpdates : Nat → List MigrationTask → List ProgressUpdate
  | _, [] => []
  | i, task :: tasks =>
    .start i :: (migrateTaskData batchSize task ++ .verify :: taskUpdates (i + 1) tasks)

def executeMigrationTasks (tasks : List MigrationTask) : List ProgressUpdate :=
  taskUpdates batchSize 0 tasks ++ [.switch]

/-- The progress that `execute_migration` starts from. -/
def startProgress (tasks : List MigrationTask) : MigrationProgress where
  state := .Migrating
  bytesMigrated := 0
  bytesTotal := (tasks.map (·.estimatedBytes)).sum
  currentTask := 0
  totalTasks := tasks.length

/-- However the clock runs, no subtraction underflows, the bytes migrated never decrease nor exceed
the total, and in the end they are the total. -/
def AccountsExactly (tasks : List MigrationTask) : Prop :=
  ∀ run : List (ProgressUpdate × Bool), run.map (·.1) = executeMigrationTasks batchSize tasks →
    (∀ pre, pre <+: run → ∃ p, exec (updateProgress batchSize) (startProgress tasks) pre = some p ∧
      p.bytesMigrated ≤ (tasks.map (·.estimatedBytes)).sum) ∧
    (∀ pre u p p', pre ++ [u] <+: run →
      exec (updateProgress batchSize) (startProgress tasks) pre = some p →
      updateProgress batchSize p u = some p' → p.bytesMigrated ≤ p'.bytesMigrated) ∧
    ∃ p, exec (updateProgress batchSize) (startProgress tasks) run = some p ∧
      p.bytesMigrated = (tasks.map (·.estimatedBytes)).sum

def LastTaskOnly (tasks : List MigrationTask) : Prop :=
  ∀ init last, tasks = init ++ [last] → (∀ task ∈ init, task.estimatedBytes = 0) ∧
    (last.estimatedBytes < batchSize ∨ batchSize ∣ last.estimatedBytes)

end Run

/-! ## One update -/

section Updates

variable {batchSize : Nat} {p p' : MigrationProgress} {update : ProgressUpdate × Bool}

theorem updater_of_updateProgress (h : updateProgress batchSize p update = some p') :
    updater batchSize p update.1 = some p' := by
  obtain ⟨q, hq, hclock⟩ := Option.bind_eq_some_iff.mp h
  have hsame : q = p' := by
    split_ifs at hclock with helapsed
    · obtain ⟨rest, -, hrest⟩ := Option.map_eq_some_iff.mp hclock
      exact hrest
    · exact Option.some.inj hclock
  rw [hq, hsame]

theorem bytesMigrated_le (h : updateProgress batchSize p update = some p') :
    p.bytesMigrated ≤ p'.bytesMigrated := by
  have hq := updater_of_updateProgress h
  obtain ⟨kind, elapsed⟩ := update
  cases kind with
  | batch estimatedBytes =>
    obtain ⟨rest, -, rfl⟩ := Option.map_eq_some_iff.mp hq
    exact Nat.le_add_right _ _
  | start | verify | switch =>
    cases Option.some.inj hq
    exact le_refl _

theorem updateProgress_of_le (hupdate : updater batchSize p update.1 = some p')
    (hle : p'.bytesMigrated ≤ p'.bytesTotal) : updateProgress batchSize p update = some p' := by
  rw [updateProgress, hupdate, Option.bind_some]
  split_ifs
  · rw [checkedSub, if_pos hle, Option.map_some]
  · rfl

end Updates

/-! ## The tasks of a plan -/

section Tasks

variable {batchSize : Nat} {p : MigrationProgress}

theorem exec_cons_of_counts {u : ProgressUpdate × Bool} {q : MigrationProgress}
    (hupdate : updater batchSize p u.1 = some q) (hle : q.bytesMigrated ≤ q.bytesTotal)
    (run : List (ProgressUpdate × Bool)) :
    exec (updateProgress batchSize) p (u :: run) = exec (updateProgress batchSize) q run := by
  rw [exec, updateProgress_of_le hupdate hle, Option.bind_some]

variable {run : List (ProgressUpdate × Bool)}

theorem exec_batches {e : Nat} (he : e ≤ p.bytesTotal) (hle : p.bytesMigrated ≤ e) {n : Nat}
    (hrun : run.map (·.1) = List.replicate n (.batch e)) :
    exec (updateProgress batchSize) p run =
      some { p with bytesMigrated := min (p.bytesMigrated + n * batchSize) e } := by
  induction n generalizing p run with
  | zero =>
    rw [List.map_eq_nil_iff.mp hrun, Nat.zero_mul, Nat.add_zero, Nat.min_eq_left hle]
    rfl
  | succ n ih =>
    rw [List.replicate_succ, List.map_eq_cons_iff] at hrun
    obtain ⟨u, run, rfl, hu, hrun⟩ := hrun
    have hupdate : updater batchSize p u.1 = some { p with
        bytesMigrated := p.bytesMigrated + min batchSize (e - p.bytesMigrated) } := by
      rw [hu, updater, checkedSub, if_pos hle]
      rfl
    have hmoved : p.bytesMigrated + min batchSize (e - p.bytesMigrated) ≤ e := by omega
    have hrest := ih (p := { p with
      bytesMigrated := p.bytesMigrated + min batchSize (e - p.bytesMigrated) }) he hmoved hrun
    rw [exec_cons_of_counts hupdate (hmoved.trans he), hrest]
    have hsum : min (p.bytesMigrated + min batchSize (e - p.bytesMigrated) + n * batchSize) e =
        min (p.bytesMigrated + (n + 1) * batchSize) e := by
      rw [Nat.succ_mul]
      omega
    rw [← hsum]

theorem exec_batches_of_lt {e : Nat} (hlt : e < p.bytesMigrated) {n : Nat} (hn : 0 < n)
    (hrun : run.map (·.1) = List.replicate n (.batch e)) :
    exec (updateProgress batchSize) p run = none := by
  cases n with
  | zero => omega
  | succ n =>
    rw [List.replicate_succ, List.map_eq_cons_iff] at hrun
    obtain ⟨u, run, rfl, hu, -⟩ := hrun
    rw [exec, updateProgress, hu, updater, checkedSub, if_neg (by omega)]
    rfl

/-- The bytes migrated after tasks of these sizes, when `m` were before. -/
def bytesAfter (batchSize m : Nat) : List Nat → Option Nat
  | [] => some m
  | e :: es =>
    if m ≤ e then bytesAfter batchSize (min (m + max (e / batchSize) 1 * batchSize) e) es
    else none

def counts (p : MigrationProgress) : Nat × Nat := (p.bytesMigrated, p.bytesTotal)

theorem exec_taskUpdates {tasks : List MigrationTask} {i : Nat}
    (htotal : ∀ task ∈ tasks, task.estimatedBytes ≤ p.bytesTotal)
    (hle : p.bytesMigrated ≤ p.bytesTotal)
    (hrun : run.map (·.1) = taskUpdates batchSize i tasks) :
    (exec (updateProgress batchSize) p run).map counts =
      (bytesAfter batchSize p.bytesMigrated (tasks.map (·.estimatedBytes))).map
        (·, p.bytesTotal) := by
  induction tasks generalizing p i run with
  | nil =>
    rw [List.map_eq_nil_iff.mp hrun]
    rfl
  | cons task tasks ih =>
    rw [taskUpdates, List.map_eq_cons_iff] at hrun
    obtain ⟨u, run, rfl, hu, hrun⟩ := hrun
    rw [List.map_eq_append_iff] at hrun
    obtain ⟨batches, run, rfl, hbatches, hrun⟩ := hrun
    rw [List.map_eq_cons_iff] at hrun
    obtain ⟨v, run, rfl, hv, hrun⟩ := hrun
    have htask := htotal task List.mem_cons_self
    let q : MigrationProgress := { p with currentTask := i, state := .Migrating }
    have hstart : updater batchSize p u.1 = some q := by
      rw [hu]
      rfl
    rw [exec_cons_of_counts hstart hle, exec_append, List.map_cons, bytesAfter]
    split_ifs with hfits
    · rw [exec_batches (p := q) htask hfits hbatches, Option.bind_some]
      let r : MigrationProgress := { q with
        bytesMigrated := min (p.bytesMigrated + max (task.estimatedBytes / batchSize) 1 * batchSize)
          task.estimatedBytes
        state := .Verifying }
      have hverify : updater batchSize { r with state := .Migrating } v.1 = some r := by
        rw [hv]
        rfl
      have hmin : r.bytesMigrated ≤ r.bytesTotal := (Nat.min_le_right _ _).trans htask
      rw [exec_cons_of_counts hverify hmin]
      exact ih (p := r) (fun t ht => htotal t (List.mem_cons_of_mem _ ht)) hmin hrun
    · have hsome : 0 < max (task.estimatedBytes / batchSize) 1 := by omega
      rw [exec_batches_of_lt (p := q) (Nat.lt_of_not_le hfits) hsome hbatches]
      rfl

theorem bytesAfter_append (m : Nat) (es es' : List Nat) :
    bytesAfter batchSize m (es ++ es') =
      (bytesAfter batchSize m es).bind fun m' => bytesAfter batchSize m' es' := by
  induction es generalizing m with
  | nil => rfl
  | cons e es ih =>
    rw [List.cons_append, bytesAfter, bytesAfter]
    split_ifs
    · exact ih _
    · rfl

theorem bytesAfter_zeros {es : List Nat} (h : ∀ e ∈ es, e = 0) :
    bytesAfter batchSize 0 es = some 0 := by
  induction es with
  | nil => rfl
  | cons e es ih =>
    obtain rfl := h e List.mem_cons_self
    rw [bytesAfter, if_pos (le_refl 0), Nat.min_zero]
    exact ih fun e he => h e (List.mem_cons_of_mem _ he)

theorem min_batches_eq_iff (hbatch : 1 ≤ batchSize) (e : Nat) :
    min (max (e / batchSize) 1 * batchSize) e = e ↔ e < batchSize ∨ batchSize ∣ e := by
  rw [min_eq_right_iff]
  rcases Nat.lt_or_ge e batchSize with hlt | hge
  · refine iff_of_true ?_ (.inl hlt)
    rw [Nat.div_eq_of_lt hlt, Nat.max_eq_right (Nat.zero_le 1), Nat.one_mul]
    exact hlt.le
  · rw [or_iff_right (Nat.not_lt.mpr hge), Nat.max_eq_left ((Nat.one_le_div_iff hbatch).mpr hge)]
    constructor
    · intro h
      exact Dvd.intro_left _ (le_antisymm (Nat.div_mul_le_self e batchSize) h)
    · intro h
      exact (Nat.div_mul_cancel h).ge

theorem bytesAfter_eq_sum_iff (hbatch : 1 ≤ batchSize) (es : List Nat) (e : Nat) :
    bytesAfter batchSize 0 (es ++ [e]) = some (es ++ [e]).sum ↔
      (∀ e' ∈ es, e' = 0) ∧ (e < batchSize ∨ batchSize ∣ e) := by
  rw [List.sum_append, List.sum_singleton, ← min_batches_eq_iff hbatch, bytesAfter_append]
  constructor
  · intro h
    obtain ⟨m, hm, hlast⟩ := Option.bind_eq_some_iff.mp h
    rw [bytesAfter] at hlast
    split_ifs at hlast
    have hend := Option.some.inj hlast
    -- what is migrated in the end is at most the last task
    have hsum : es.sum = 0 := by omega
    have hzero : ∀ e' ∈ es, e' = 0 := by
      intro e' he'
      have := List.le_sum_of_mem he'
      omega
    rw [bytesAfter_zeros hzero] at hm
    obtain rfl := Option.some.inj hm
    rw [hsum, Nat.zero_add, Nat.zero_add] at hend
    exact ⟨hzero, hend⟩
  · rintro ⟨hzero, hlast⟩
    have hsum : es.sum = 0 := List.sum_eq_zero hzero
    rw [bytesAfter_zeros hzero, Option.bind_some, bytesAfter, if_pos (Nat.zero_le e), Nat.zero_add,
      hlast, hsum, Nat.zero_add]
    rfl

theorem lastTaskOnly_iff (hbatch : 1 ≤ batchSize) (tasks : List MigrationTask) :
    LastTaskOnly batchSize tasks ↔
      bytesAfter batchSize 0 (tasks.map (·.estimatedBytes)) =
        some (tasks.map (·.estimatedBytes)).sum := by
  rcases List.eq_nil_or_concat tasks with rfl | ⟨init, last, rfl⟩
  · refine iff_of_true ?_ rfl
    intro init last h
    cases init <;> cases h
  · rw [List.concat_eq_append, List.map_append, List.map_singleton, bytesAfter_eq_sum_iff hbatch,
      List.forall_mem_map]
    constructor
    · intro h
      exact h init last rfl
    · intro h init' last' heq
      obtain ⟨rfl, hlast⟩ := List.append_inj' heq rfl
      cases hlast
      exact h

theorem exec_executeMigrationTasks {tasks : List MigrationTask}
    (hrun : run.map (·.1) = executeMigrationTasks batchSize tasks) {m : Nat}
    (hm : m ≤ (tasks.map (·.estimatedBytes)).sum) :
    (∃ p, exec (updateProgress batchSize) (startProgress tasks) run = some p ∧
        p.bytesMigrated = m) ↔
      bytesAfter batchSize 0 (tasks.map (·.estimatedBytes)) = some m := by
  rw [executeMigrationTasks, List.map_eq_append_iff] at hrun
  obtain ⟨run, final, rfl, hrun, hfinal⟩ := hrun
  obtain ⟨u, rfl, hu⟩ := List.map_eq_singleton_iff.mp hfinal
  have htotal : ∀ task ∈ tasks, task.estimatedBytes ≤ (startProgress tasks).bytesTotal :=
    fun task htask => List.le_sum_of_mem (List.mem_map_of_mem htask)
  have htasks := exec_taskUpdates (p := startProgress tasks) htotal (Nat.zero_le _) hrun
  rw [exec_append]
  cases hexec : exec (updateProgress batchSize) (startProgress tasks) run with
  | none =>
    rw [hexec, Option.map_none, eq_comm, Option.map_eq_none_iff] at htasks
    simp only [Option.bind_none, reduceCtorEq, false_and, exists_false, false_iff]
    intro h
    exact absurd (htasks.symm.trans h) (Option.some_ne_none m).symm
  | some q =>
    rw [hexec, Option.map_some, eq_comm, Option.map_eq_some_iff] at htasks
    obtain ⟨m', hm', hcounts⟩ := htasks
    obtain ⟨hmigrated, hbytes⟩ := Prod.mk.inj hcounts
    have hm' : bytesAfter batchSize 0 (tasks.map (·.estimatedBytes)) = some m' := hm'
    rw [hm', Option.some_inj, Option.bind_some]
    constructor
    · rintro ⟨p, hp, rfl⟩
      obtain ⟨p', hlast, hend⟩ := Option.bind_eq_some_iff.mp hp
      cases Option.some.inj hend
      have hswitched := updater_of_updateProgress hlast
      rw [hu] at hswitched
      cases Option.some.inj hswitched
      exact hmigrated
    · rintro rfl
      have hle : q.bytesMigrated ≤ q.bytesTotal := by
        rw [← hmigrated, ← hbytes]
        exact hm
      have hswitch : updater batchSize q u.1 = some { q with state := .Switching } := by
        rw [hu]
        rfl
      refine ⟨_, exec_cons_of_counts hswitch hle [], hmigrated.symm⟩

end Tasks

/-- **When the migrated bytes are counted right.** -/
theorem accounts_exactly_iff (batchSize : Nat) (hbatch : 1 ≤ batchSize)
    (tasks : List MigrationTask) :
    AccountsExactly batchSize tasks ↔ LastTaskOnly batchSize tasks := by
  rw [lastTaskOnly_iff hbatch]
  constructor
  · intro h
    have hclock : ((executeMigrationTasks batchSize tasks).map (·, false)).map (·.1) =
        executeMigrationTasks batchSize tasks := by
      rw [List.map_map]
      exact List.map_id _
    obtain ⟨-, -, hend⟩ := h _ hclock
    exact (exec_executeMigrationTasks hclock (le_refl _)).mp hend
  · intro h run hrun
    obtain ⟨p, hp, hend⟩ := (exec_executeMigrationTasks hrun (le_refl _)).mpr h
    refine ⟨?_, ?_, p, hp, hend⟩
    · rintro pre ⟨post, rfl⟩
      rw [exec_append] at hp
      obtain ⟨q, hq, hrest⟩ := Option.bind_eq_some_iff.mp hp
      refine ⟨q, hq, ?_⟩
      rw [← hend]
      exact exec_mono (f := (·.bytesMigrated)) (fun _ _ _ hstep => bytesMigrated_le hstep) hrest
    · intro pre u q q' _ _ hstep
      exact bytesMigrated_le hstep

/-- A task of two full batches. -/
theorem accounts_exactly_two_batches : AccountsExactly 5 [⟨"task-0", 1, 2, [], 10, []⟩] := by
  refine (accounts_exactly_iff 5 (by decide) _).mpr ?_
  intro init last h
  rcases List.singleton_eq_append_iff.mp h with ⟨rfl, hlast⟩ | ⟨-, hlast⟩
  · cases hlast
    exact ⟨fun task htask => absurd htask List.not_mem_nil, .inr ⟨2, rfl⟩⟩
  · cases hlast

/-- After ten bytes of the first task, what remains of the five of the second is computed. -/
theorem second_task_underflows :
    ¬ ∀ (batchSize : Nat), 1 ≤ batchSize → ∀ tasks, AccountsExactly batchSize tasks := by
  intro h
  let tasks : List MigrationTask := [⟨"task-0", 1, 3, [], 10, []⟩, ⟨"task-1", 2, 3, [], 5, []⟩]
  obtain ⟨-, -, p, hp, -⟩ := h 10 (by decide) tasks
    ((executeMigrationTasks 10 tasks).map (·, true)) (by decide)
  have hnone : exec (updateProgress 10) (startProgress tasks)
      ((executeMigrationTasks 10 tasks).map (·, true)) = none := by decide
  rw [hnone] at hp
  cases hp

end Arcxa.Ha.Rebalancer
