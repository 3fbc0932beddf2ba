import Arcxa.Loader.Worker

/-!
# Restarted loads

The position in the checkpoint file is the row number of the last row that was buffered; a later run
skips that many records. `completed_rows_handled`: no row is lost when, at every interruption, the
records that are skipped end before the first row that is still buffered, and none is handled twice when
the runs are cancelled where the batch and the position account for all records that were read.
-/

namespace Arcxa.Loader

variable {config : LoaderWorkerConfig} {source : List (Except String StringRecord)}

def records (source : List (Except String StringRecord)) (lines : Nat) : Nat :=
  (source.take lines).countP Except.isOk

/-- Line `i`, counted from 0, can be read. -/
def Readable (source : List (Except String StringRecord)) (i : Nat) : Prop :=
  ∃ record, source[i]? = some (.ok record)

theorem records_succ_of_readable {i : Nat} (h : Readable source i) :
    records source (i + 1) = records source i + 1 := by
  obtain ⟨record, hget⟩ := h
  rw [records, List.take_add_one, List.countP_append, hget]
  rfl

theorem records_succ_of_not {i : Nat} (h : ¬ Readable source i) :
    records source (i + 1) = records source i := by
  rw [records, List.take_add_one, List.countP_append]
  match hget : source[i]? with
  | some (.ok record) => exact absurd ⟨record, hget⟩ h
  | some (.error _) => rfl
  | none => rfl

variable {i j : Nat}

theorem records_mono (h : i ≤ j) : records source i ≤ records source j :=
  List.Sublist.countP_le (List.take_sublist_take_left h)

theorem records_eq_of_unreadable (hle : i ≤ j) (h : ∀ k, i ≤ k → k < j → ¬ Readable source k) :
    records source j = records source i := by
  induction j, hle using Nat.le_induction with
  | base => rfl
  | succ j hle ih =>
    rw [records_succ_of_not (h j hle (Nat.lt_succ_self j)),
      ih fun k hk hlt => h k hk (Nat.lt_succ_of_lt hlt)]

theorem lt_of_records_lt (h : records source i < records source j) : i < j := by
  by_contra hle
  have hmono : records source j ≤ records source i := records_mono (Nat.le_of_not_lt hle)
  omega

theorem records_lt (h : Readable source i) (hlt : i < j) : records source i < records source j := by
  have hmono : records source (i + 1) ≤ records source j := records_mono hlt
  rw [records_succ_of_readable h] at hmono
  omega

theorem records_inj (hi : Readable source i) (hj : Readable source j)
    (h : records source i = records source j) : i = j := by
  obtain hlt | heq | hlt := Nat.lt_trichotomy i j
  · exact absurd h (Nat.ne_of_lt (records_lt hi hlt))
  · exact heq
  · exact absurd h.symm (Nat.ne_of_lt (records_lt hj hlt))

/-- `m` is the next line after the first `n` that can be read. -/
structure Next (source : List (Except String StringRecord)) (n m : Nat) : Prop where
  le : n ≤ m
  readable : Readable source m
  between : ∀ i, n ≤ i → i < m → ¬ Readable source i

namespace AsyncCsvReader

theorem skip_rowNumber (reader : AsyncCsvReader) (error : String) :
    (reader.skip error).rowNumber = reader.rowNumber + 1 := rfl

variable {reader reader' : AsyncCsvReader}

theorem nextRow_some {lines : List (Except String StringRecord)}
    {record : StringRecord} (h : nextRow lines reader = some (some record, reader')) :
    ∃ m, Next lines 0 m ∧ reader'.rowNumber = reader.rowNumber + m + 1 := by
  induction lines generalizing reader with
  | nil => exact nomatch h
  | cons line lines ih =>
    cases line with
    | ok record =>
      rw [nextRow] at h
      cases h
      exact ⟨0, ⟨Nat.le_refl 0, ⟨_, rfl⟩, fun i _ hlt => absurd hlt (Nat.not_lt_zero i)⟩, rfl⟩
    | error error =>
      rw [nextRow] at h
      split_ifs at h
      obtain ⟨m, ⟨-, ⟨record, hget⟩, hbetween⟩, hrow⟩ := ih h
      refine ⟨m + 1, ⟨Nat.zero_le _, ⟨record, hget⟩, fun i _ hlt => ?_⟩, ?_⟩
      · cases i with
        | zero => exact fun hread => nomatch Option.some.inj hread.choose_spec
        | succ i => exact hbetween i (Nat.zero_le i) (Nat.lt_of_succ_lt_succ hlt)
      · rw [hrow, skip_rowNumber]
        omega

theorem nextRow_none {lines : List (Except String StringRecord)}
    (h : nextRow lines reader = some (none, reader')) :
    (∀ i, ¬ Readable lines i) ∧ reader.rowNumber ≤ reader'.rowNumber := by
  induction lines generalizing reader with
  | nil =>
    cases h
    exact ⟨fun i hread => (nomatch hread.choose_spec), Nat.le_refl _⟩
  | cons line lines ih =>
    cases line with
    | ok record =>
      rw [nextRow] at h
      exact nomatch h
    | error error =>
      rw [nextRow] at h
      split_ifs at h
      obtain ⟨hnone, hle⟩ := ih h
      refine ⟨fun i => ?_, Nat.le_of_succ_le hle⟩
      cases i with
      | zero => exact fun hread => nomatch Option.some.inj hread.choose_spec
      | succ i => exact hnone i

theorem readable_drop (n i : Nat) : Readable (source.drop n) i ↔ Readable source (n + i) := by
  simp only [Readable, List.getElem?_drop]

theorem nextRow_next {record : StringRecord}
    (h : nextRow (source.drop reader.rowNumber) reader = some (some record, reader')) :
    ∃ m, Next source reader.rowNumber m ∧ reader'.rowNumber = m + 1 := by
  obtain ⟨m, hnext, hrow⟩ := nextRow_some h
  refine ⟨reader.rowNumber + m, ⟨Nat.le_add_right _ m, (readable_drop _ m).mp hnext.readable, ?_⟩,
    hrow⟩
  intro i hle hlt
  have hbetween := hnext.between (i - reader.rowNumber) (Nat.zero_le _) (by omega)
  rw [readable_drop] at hbetween
  rwa [Nat.add_sub_cancel' hle] at hbetween

theorem nextRow_end
    (h : nextRow (source.drop reader.rowNumber) reader = some (none, reader')) :
    (∀ i, reader.rowNumber ≤ i → ¬ Readable source i) ∧ reader.rowNumber ≤ reader'.rowNumber := by
  obtain ⟨hnone, hle⟩ := nextRow_none h
  refine ⟨fun i hi => ?_, hle⟩
  have hi' := hnone (i - reader.rowNumber)
  rw [readable_drop] at hi'
  rwa [Nat.add_sub_cancel' hi] at hi'

/-- **A seek passes as many records as it is told**, whatever lines cannot be read between them. -/
theorem records_seekToRow {target : Nat}
    (h : seekToRow source target reader = some reader') :
    records source reader'.rowNumber = records source reader.rowNumber + target := by
  induction target generalizing reader with
  | zero =>
    cases h
    rfl
  | succ target ih =>
    rw [seekToRow] at h
    split at h
    next record next hnext =>
      obtain ⟨m, hm, hrow⟩ := nextRow_next hnext
      rw [ih h, hrow, records_succ_of_readable hm.readable,
        records_eq_of_unreadable hm.le hm.between]
      omega
    next => exact nomatch h

end AsyncCsvReader

/-! ## What a step does -/

namespace Worker

variable (worker : Worker)

def rows : List Nat := worker.currentBatch.map Prod.fst

def firstPending (source : List (Except String StringRecord)) : Nat :=
  match worker.rows with
  | [] => records source worker.reader.rowNumber
  | row :: _ => records source (row - 1)

end Worker

def LoaderWorkerConfig.savedRow (config : LoaderWorkerConfig) (file : Option Checkpoint) : Nat :=
  if config.checkpointConfig.autoResume then (file.map Checkpoint.currentRow).getD 0 else 0

namespace System

open AsyncCsvReader

/-- The steps by their effect on rows. -/
inductive Moves (config : LoaderWorkerConfig) (source : List (Except String StringRecord)) :
    System → Action → System → Prop
  | start {s : System} {worker : Worker} (hidle : s.worker = none) (hbatch : worker.rows = [])
      (hphase : worker.phase ≠ .last)
      (hrecords : records source worker.reader.rowNumber = config.savedRow s.file) :
      Moves config source s .start { s with worker := some worker }
  | buffer {s : System} {a : Action} {worker worker' : Worker} {m : Nat}
      (hworker : s.worker = some worker) (hnext : Next source worker.reader.rowNumber m)
      (hrow : worker'.reader.rowNumber = m + 1) (hphase : worker'.phase ≠ .last)
      (hbatch : worker'.rows = worker.rows ++ [m + 1]) :
      Moves config source s a { s with worker := some worker' }
  | deadLetter {s : System} {a : Action} {worker worker' : Worker} {m : Nat}
      {letter : StringRecord × ErrorCategory} (hworker : s.worker = some worker)
      (hnext : Next source worker.reader.rowNumber m) (hrow : worker'.reader.rowNumber = m + 1)
      (hphase : worker'.phase ≠ .last) (hbatch : worker'.rows = worker.rows) :
      Moves config source s a
        { s with deadLetters := s.deadLetters ++ [(m + 1, letter)], worker := some worker' }
  | keep {s : System} {a : Action} {worker worker' : Worker} {file : Option Checkpoint}
      (hworker : s.worker = some worker)
      (hrow : worker'.reader.rowNumber = worker.reader.rowNumber) (hphase : worker'.phase ≠ .last)
      (hbatch : worker'.rows = worker.rows) :
      Moves config source s a { s with file, worker := some worker' }
  | load {s : System} {a : Action} {worker worker' : Worker} (hworker : s.worker = some worker)
      (hle : worker.reader.rowNumber ≤ worker'.reader.rowNumber)
      (hbetween : ∀ i, worker.reader.rowNumber ≤ i → i < worker'.reader.rowNumber →
        ¬ Readable source i)
      (hphase : worker'.phase = .last → ∀ i, worker.reader.rowNumber ≤ i → ¬ Readable source i)
      (hbatch : worker'.rows = []) :
      Moves config source s a
        { s with loaded := s.loaded ++ worker.currentBatch, worker := some worker' }
  | cancel {s : System} {worker : Worker} (hworker : s.worker = some worker) :
      Moves config source s .cancel (s.cancel worker)
  | crash {s : System} {worker : Worker} (hworker : s.worker = some worker) :
      Moves config source s .crash { s with worker := none }
  | finalize {s : System} {worker : Worker} (hworker : s.worker = some worker)
      (hphase : worker.phase = .last) : Moves config source s .finalize (s.finalize worker)

variable {s s' : System} {a : Action}

variable {worker : Worker}

theorem running_eq_some {phase : Phase} (h : step.running s phase = some worker) :
    s.worker = some worker ∧ worker.phase = phase := by
  obtain ⟨hworker, hphase⟩ := Option.filter_eq_some_iff.mp h
  exact ⟨hworker, of_decide_eq_true hphase⟩

theorem currentRow_resumeOrCreate {manager : CheckpointManager} {file : Option Checkpoint}
    (h : CheckpointManager.resumeOrCreate config.checkpointConfig file = some manager) :
    manager.checkpoint.currentRow = config.savedRow file := by
  rw [LoaderWorkerConfig.savedRow]
  cases file with
  | none =>
    cases h
    exact (ite_self 0).symm
  | some checkpoint =>
    rw [CheckpointManager.resumeOrCreate] at h
    split_ifs at h ⊢ with hresume
    · rw [CheckpointManager.resume] at h
      split_ifs at h
      cases h
      rfl
    · cases h
      rfl

theorem start_moves (hidle : s.worker = none) (h : s.start config source = some s') :
    Moves config source s .start s' := by
  obtain ⟨manager, hmanager, h⟩ := Option.bind_eq_some_iff.mp h
  obtain ⟨reader, hreader, h⟩ := Option.bind_eq_some_iff.mp h
  cases h
  refine .start hidle rfl nofun ?_
  rw [records_seekToRow hreader, currentRow_resumeOrCreate hmanager]
  exact Nat.zero_add _

theorem row_moves (hworker : s.worker = some worker)
    {attempts : List (Except ErrorCategory StringRecord)}
    (h : s.row config source worker attempts = some s') : Moves config source s a s' := by
  rw [row] at h
  split at h
  next record reader hnext =>
    obtain ⟨m, hm, hrow⟩ := nextRow_next hnext
    split at h
    next row _ =>
      cases h
      refine .buffer hworker hm hrow ?_ ?_
      · show (if _ then Phase.full else Phase.due) ≠ .last
        split_ifs <;> decide
      · show (worker.currentBatch ++ [(reader.rowNumber, row)]).map Prod.fst = _
        rw [List.map_append, hrow]
        rfl
    next category _ =>
      cases h
      rw [writeFailedRow, hrow]
      exact .deadLetter hworker hm hrow nofun rfl
    next => exact nomatch h
  next => exact nomatch h

theorem checkpoint_moves (hworker : s.worker = some worker) (elapsed : Bool) :
    Moves config source s a (s.checkpoint config worker elapsed) := by
  rw [checkpoint]
  split_ifs
  · exact .keep hworker rfl nofun rfl
  · exact .keep hworker rfl nofun rfl

theorem endOfFile_moves (hworker : s.worker = some worker) (h : s.endOfFile source worker = some s') :
    Moves config source s a s' := by
  rw [endOfFile] at h
  split at h
  next reader hnext =>
    obtain ⟨hlast, hle⟩ := nextRow_end hnext
    cases h
    exact .load hworker hle (fun i hi _ => hlast i hi) (fun _ => hlast) rfl
  next => exact nomatch h

theorem step_moves (h : step config source s a = some s') : Moves config source s a s' := by
  cases a with
  | start =>
    obtain ⟨hidle, h⟩ := Option.ite_none_right_eq_some.mp h
    exact start_moves (Option.isNone_iff_eq_none.mp hidle) h
  | crash =>
    obtain ⟨worker, hworker, rfl⟩ := Option.map_eq_some_iff.mp h
    exact .crash hworker
  | cancel =>
    obtain ⟨worker, hworker, rfl⟩ := Option.map_eq_some_iff.mp h
    exact .cancel (running_eq_some hworker).1
  | row attempts =>
    obtain ⟨worker, hworker, h⟩ := Option.bind_eq_some_iff.mp h
    exact row_moves (running_eq_some hworker).1 h
  | recordError =>
    obtain ⟨worker, hworker, h⟩ := Option.bind_eq_some_iff.mp h
    obtain ⟨manager, -, rfl⟩ := Option.map_eq_some_iff.mp h
    exact .keep (running_eq_some hworker).1 rfl nofun rfl
  | executeBatch =>
    obtain ⟨worker, hworker, rfl⟩ := Option.map_eq_some_iff.mp h
    exact .load (running_eq_some hworker).1 (Nat.le_refl _)
      (fun i hle hlt => absurd hlt (Nat.not_lt_of_le hle)) nofun rfl
  | checkpoint elapsed =>
    obtain ⟨worker, hworker, rfl⟩ := Option.map_eq_some_iff.mp h
    exact checkpoint_moves (running_eq_some hworker).1 elapsed
  | endOfFile =>
    obtain ⟨worker, hworker, h⟩ := Option.bind_eq_some_iff.mp h
    exact endOfFile_moves (running_eq_some hworker).1 h
  | finalize =>
    obtain ⟨worker, hworker, rfl⟩ := Option.map_eq_some_iff.mp h
    exact .finalize (running_eq_some hworker).1 (running_eq_some hworker).2

end System

/-! ## What is accounted for -/

/-- The readable lines among the first `n` are among the rows, and with `exact` no row is there twice
or early. -/
structure Accounted (exact : Prop) (source : List (Except String StringRecord)) (n : Nat)
    (rows : List Nat) : Prop where
  covered : ∀ i, Readable source i → i < n → 1 ≤ rows.count (i + 1)
  once : exact → ∀ i, Readable source i → rows.count (i + 1) ≤ if i < n then 1 else 0

/-- Buffered rows are in order, read and readable. -/
structure Buffered (source : List (Except String StringRecord)) (n : Nat) (rows : List Nat) :
    Prop where
  increasing : rows.Pairwise (· < ·)
  readable : ∀ row ∈ rows, ∃ i, row = i + 1 ∧ i < n ∧ Readable source i

variable {exact : Prop} {n n' m : Nat} {rows rows' : List Nat}

theorem Accounted.next (h : Accounted exact source n rows) (hnext : Next source n m)
    (hperm : rows'.Perm ((m + 1) :: rows)) : Accounted exact source (m + 1) rows' := by
  have hcount (i : Nat) : rows'.count (i + 1) = rows.count (i + 1) + if i = m then 1 else 0 := by
    rw [hperm.count_eq, List.count_cons]
    refine congrArg (rows.count (i + 1) + ·) (if_congr ?_ rfl rfl)
    rw [beq_iff_eq]
    omega
  have hlt {i : Nat} (hi : Readable source i) (hne : i ≠ m) : i < m + 1 ↔ i < n := by
    have hbetween := hnext.between i
    have hle := hnext.le
    constructor
    · intro hlt
      by_contra hge
      exact hbetween (Nat.le_of_not_lt hge) (by omega) hi
    · intro hlt
      omega
  constructor
  · intro i hi hn
    rw [hcount]
    by_cases hm : i = m
    · rw [if_pos hm]
      exact Nat.le_add_left 1 _
    · exact Nat.le_add_right_of_le (h.covered i hi ((hlt hi hm).mp hn))
  · intro hexact i hi
    rw [hcount]
    have honce := h.once hexact i hi
    by_cases hm : i = m
    · have hle : ¬ i < n := by
        rw [hm]
        exact Nat.not_lt_of_le hnext.le
      rw [if_neg hle] at honce
      rw [if_pos hm, if_pos (by omega)]
      omega
    · simpa only [if_neg hm, hlt hi hm, Nat.add_zero] using honce

theorem Accounted.skip (h : Accounted exact source n rows) (hle : n ≤ n')
    (hbetween : ∀ i, n ≤ i → i < n' → ¬ Readable source i) (hperm : rows'.Perm rows) :
    Accounted exact source n' rows' := by
  have hlt {i : Nat} (hi : Readable source i) : i < n' ↔ i < n := by
    constructor
    · intro hlt
      by_contra hge
      exact hbetween i (Nat.le_of_not_lt hge) hlt hi
    · intro hlt
      omega
  constructor
  · intro i hi hn
    rw [hperm.count_eq]
    exact h.covered i hi ((hlt hi).mp hn)
  · intro hexact i hi
    rw [hperm.count_eq]
    simpa only [hlt hi] using h.once hexact i hi

namespace Buffered

theorem nil : Buffered source n [] := ⟨List.Pairwise.nil, nofun⟩

theorem mono (h : Buffered source n rows) (hle : n ≤ n') : Buffered source n' rows := by
  refine ⟨h.increasing, fun row hrow => ?_⟩
  obtain ⟨i, hi, hlt, hread⟩ := h.readable row hrow
  exact ⟨i, hi, Nat.lt_of_lt_of_le hlt hle, hread⟩

theorem next (h : Buffered source n rows) (hnext : Next source n m) :
    Buffered source (m + 1) (rows ++ [m + 1]) := by
  constructor
  · refine List.pairwise_append.mpr ⟨h.increasing, List.pairwise_singleton _ _, ?_⟩
    intro row hrow last hlast
    obtain ⟨i, rfl, hlt, -⟩ := h.readable row hrow
    have hle := hnext.le
    rw [List.mem_singleton.mp hlast]
    omega
  · intro row hrow
    obtain hrow | hrow := List.mem_append.mp hrow
    · exact (h.mono (Nat.le_succ_of_le hnext.le)).readable row hrow
    · exact ⟨m, List.mem_singleton.mp hrow, Nat.lt_succ_self m, hnext.readable⟩

end Buffered

namespace Worker

variable {worker : Worker} {saved i : Nat}

variable (h : Buffered source worker.reader.rowNumber worker.rows)

include h

theorem before_pending (hsaved : saved ≤ worker.firstPending source) (hi : records source i < saved) :
    i < worker.reader.rowNumber ∧ i + 1 ∉ worker.rows := by
  rw [firstPending] at hsaved
  cases hrows : worker.rows with
  | nil =>
    rw [hrows] at hsaved
    exact ⟨lt_of_records_lt (Nat.lt_of_lt_of_le hi hsaved), List.not_mem_nil⟩
  | cons row rows =>
    rw [hrows] at h hsaved
    obtain ⟨j, rfl, hj, -⟩ := h.readable row (List.mem_cons_self ..)
    have hlt : i < j := lt_of_records_lt (Nat.lt_of_lt_of_le hi hsaved)
    refine ⟨Nat.lt_trans hlt hj, fun hmem => ?_⟩
    obtain heq | hmem := List.mem_cons.mp hmem
    · omega
    · have hrow := List.rel_of_pairwise_cons h.increasing hmem
      omega

theorem firstPending_le {row : Nat} (hrow : row ∈ worker.rows) :
    worker.firstPending source ≤ records source (row - 1) := by
  rw [firstPending]
  cases hrows : worker.rows with
  | nil => exact nomatch hrows ▸ hrow
  | cons first rows =>
    rw [hrows] at h hrow
    obtain rfl | hmem := List.mem_cons.mp hrow
    · exact Nat.le_refl _
    · have hlt := List.rel_of_pairwise_cons h.increasing hmem
      exact records_mono (by omega)

/-- **Where the numbers add up, everything from the saved position on is in the batch**: as many records
are buffered as were read from there. -/
theorem mem_rows (hsaved : saved ≤ worker.firstPending source)
    (hlevel : saved + worker.rows.length = records source worker.reader.rowNumber)
    (hi : Readable source i) (hread : i < worker.reader.rowNumber) (hle : saved ≤ records source i) :
    i + 1 ∈ worker.rows := by
  have hnodup : (worker.rows.map fun row => records source (row - 1)).Nodup := by
    refine List.Nodup.map_on (fun row hrow row' hrow' heq => ?_) (h.increasing.imp Nat.ne_of_lt)
    obtain ⟨j, rfl, -, hj⟩ := h.readable row hrow
    obtain ⟨j', rfl, -, hj'⟩ := h.readable row' hrow'
    rw [records_inj hj hj' heq]
  have hsubset : (worker.rows.map fun row => records source (row - 1)) ⊆
      List.range' saved worker.rows.length := by
    intro rank hrank
    obtain ⟨row, hrow, rfl⟩ := List.mem_map.mp hrank
    have hfirst := firstPending_le h hrow
    obtain ⟨j, rfl, hlt, hj⟩ := h.readable row hrow
    have hlast : records source j < records source worker.reader.rowNumber := records_lt hj hlt
    rw [Nat.add_sub_cancel] at hfirst ⊢
    rw [List.mem_range'_1]
    omega
  have hperm := (hnodup.subperm hsubset).perm_of_length_le (by simp)
  have hrank : records source i ∈ List.range' saved worker.rows.length := by
    have hlast : records source i < records source worker.reader.rowNumber := records_lt hi hread
    rw [List.mem_range'_1]
    omega
  obtain ⟨row, hrow, heq⟩ := List.mem_map.mp (hperm.mem_iff.mpr hrank)
  obtain ⟨j, rfl, -, hj⟩ := h.readable row hrow
  rw [Nat.add_sub_cancel] at heq
  rwa [← records_inj hj hi heq]

end Worker

/-! ## Runs -/

namespace Worker

variable (config : LoaderWorkerConfig) (source : List (Except String StringRecord))
variable (worker : Worker) (file : Option Checkpoint)

/-- At an interruption, the position that a later run starts from is not past the first row that is
buffered. -/
def Behind : Action → Prop
  | .cancel => config.savedRow (some worker.manager.save.checkpoint) ≤ worker.firstPending source
  | .crash => config.savedRow file ≤ worker.firstPending source
  | _ => True

/-- Runs are cancelled, where the position and the buffered rows also make up all records that were
read. With resumption the position is the last buffered row's, so that the batch is empty. -/
def Level : Action → Prop
  | .cancel =>
    config.savedRow (some worker.manager.save.checkpoint) ≤ worker.firstPending source ∧
      config.savedRow (some worker.manager.save.checkpoint) + worker.rows.length =
        records source worker.reader.rowNumber
  | .crash | .finalize => False
  | _ => True

instance : ∀ a, Decidable (worker.Behind config source file a)
  | .cancel | .crash => inferInstanceAs (Decidable (_ ≤ _))
  | .start | .row _ | .recordError | .executeBatch | .checkpoint _ | .endOfFile | .finalize =>
    inferInstanceAs (Decidable True)

instance : ∀ a, Decidable (worker.Level config source a)
  | .cancel => inferInstanceAs (Decidable (_ ∧ _))
  | .crash | .finalize => inferInstanceAs (Decidable False)
  | .start | .row _ | .recordError | .executeBatch | .checkpoint _ | .endOfFile =>
    inferInstanceAs (Decidable True)

end Worker

namespace System

/-- Between runs: what the next one skips, and nothing else where the property is exact. -/
structure Idle (exact : Prop) (config : LoaderWorkerConfig)
    (source : List (Except String StringRecord)) (s : System) : Prop where
  covered : ∀ i, Readable source i → records source i < config.savedRow s.file →
    1 ≤ s.handled.count (i + 1)
  once : exact → ∀ i, Readable source i →
    s.handled.count (i + 1) ≤ if records source i < config.savedRow s.file then 1 else 0

/-- In a run: what it has read is handled or buffered. -/
structure Running (exact : Prop) (source : List (Except String StringRecord)) (s : System)
    (worker : Worker) : Prop where
  accounted : Accounted exact source worker.reader.rowNumber (s.handled ++ worker.rows)
  buffered : Buffered source worker.reader.rowNumber worker.rows
  last : worker.phase = .last →
    worker.rows = [] ∧ ∀ i, worker.reader.rowNumber ≤ i → ¬ Readable source i

def Consistent (exact : Prop) (config : LoaderWorkerConfig)
    (source : List (Except String StringRecord)) (s : System) : Prop :=
  match s.worker with
  | none => Idle exact config source s
  | some worker => Running exact source s worker

def Behind (config : LoaderWorkerConfig) (source : List (Except String StringRecord)) (s : System)
    (a : Action) : Prop := ∀ worker ∈ s.worker, worker.Behind config source s.file a

def Level (config : LoaderWorkerConfig) (source : List (Except String StringRecord)) (s : System)
    (a : Action) : Prop := ∀ worker ∈ s.worker, worker.Level config source a

instance (config : LoaderWorkerConfig) (source : List (Except String StringRecord)) (s : System)
    (a : Action) : Decidable (Behind config source s a) :=
  inferInstanceAs (Decidable (∀ worker ∈ s.worker, worker.Behind config source s.file a))

instance (config : LoaderWorkerConfig) (source : List (Except String StringRecord)) (s : System)
    (a : Action) : Decidable (Level config source s a) :=
  inferInstanceAs (Decidable (∀ worker ∈ s.worker, worker.Level config source a))

/-- Every readable row was loaded or given to the dead letter queue. -/
def Handled (source : List (Except String StringRecord)) (s : System) : Prop :=
  ∀ i, Readable source i → i + 1 ∈ s.handled

def HandledOnce (source : List (Except String StringRecord)) (s : System) : Prop :=
  ∀ i, Readable source i → s.handled.count (i + 1) = 1

variable {s s' : System} {a : Action} {worker : Worker}

theorem consistent_init (config : LoaderWorkerConfig) : Consistent exact config source .init := by
  constructor
  · intro i _ hi
    rw [show config.savedRow System.init.file = 0 from ite_self 0] at hi
    exact absurd hi (Nat.not_lt_zero _)
  · intro _ i _
    exact Nat.zero_le _

theorem consistent_start (h : Idle exact config source s) (hbatch : worker.rows = [])
    (hphase : worker.phase ≠ .last)
    (hrecords : records source worker.reader.rowNumber = config.savedRow s.file) :
    Running exact source { s with worker := some worker } worker := by
  have hlt {i : Nat} (hi : Readable source i) :
      records source i < config.savedRow s.file ↔ i < worker.reader.rowNumber :=
    hrecords ▸ ⟨lt_of_records_lt, records_lt hi⟩
  refine ⟨?_, hbatch ▸ .nil, fun hlast => absurd hlast hphase⟩
  rw [hbatch, List.append_nil]
  refine ⟨fun i hi hn => h.covered i hi ((hlt hi).mpr hn), fun hexact i hi => ?_⟩
  have honce := h.once hexact i hi
  rwa [if_congr (hlt hi) rfl rfl] at honce

/-- **An interruption that is not ahead** loses nothing, and where the numbers add up it repeats
nothing. -/
theorem idle_of_running (h : Running exact source s worker) {file : Option Checkpoint}
    (hbehind : config.savedRow file ≤ worker.firstPending source)
    (hlevel : exact → config.savedRow file + worker.rows.length =
      records source worker.reader.rowNumber) :
    Idle exact config source { s with file, worker := none } := by
  have hcount (i : Nat) : (s.handled ++ worker.rows).count (i + 1) =
      s.handled.count (i + 1) + worker.rows.count (i + 1) := List.count_append
  constructor
  · intro i hi hsaved
    obtain ⟨hread, hrows⟩ := Worker.before_pending h.buffered hbehind hsaved
    have hcovered := h.accounted.covered i hi hread
    rw [hcount, List.count_eq_zero.mpr hrows] at hcovered
    exact hcovered
  · intro hexact i hi
    have honce := h.accounted.once hexact i hi
    rw [hcount] at honce
    show s.handled.count (i + 1) ≤ _
    by_cases hsaved : records source i < config.savedRow file
    · rw [if_pos hsaved]
      split_ifs at honce <;> omega
    · rw [if_neg hsaved]
      by_cases hread : i < worker.reader.rowNumber
      · have hmem := Worker.mem_rows h.buffered hbehind (hlevel hexact) hi hread
          (Nat.le_of_not_lt hsaved)
        have hpos := List.count_pos_iff.mpr hmem
        rw [if_pos hread] at honce
        omega
      · rw [if_neg hread] at honce
        omega

/-- **Steps keep the accounts.** -/
theorem consistent_step (h : Consistent exact config source s) (hmoves : Moves config source s a s')
    (hbehind : Behind config source s a) (hlevel : exact → Level config source s a) :
    Consistent exact config source s' := by
  cases hmoves with
  | start hidle hbatch hphase hrecords =>
    rw [Consistent, hidle] at h
    exact consistent_start h hbatch hphase hrecords
  | buffer hworker hnext hrow hphase hbatch =>
    rw [Consistent, hworker] at h
    refine ⟨?_, ?_, fun hlast => absurd hlast hphase⟩
    · rw [hrow, hbatch]
      refine h.accounted.next hnext ?_
      rw [← List.append_assoc]
      exact List.perm_append_singleton _ _
    · rw [hrow, hbatch]
      exact h.buffered.next hnext
  | deadLetter hworker hnext hrow hphase hbatch =>
    rw [Consistent, hworker] at h
    refine ⟨?_, ?_, fun hlast => absurd hlast hphase⟩
    · rw [hrow, hbatch]
      refine h.accounted.next hnext ?_
      rw [handled, handled, List.map_append, ← List.append_assoc]
      refine (List.Perm.append_right _ (List.perm_append_singleton _ _)).trans ?_
      exact .refl _
    · rw [hrow, hbatch]
      exact h.buffered.mono (Nat.le_succ_of_le hnext.le)
  | keep hworker hrow hphase hbatch =>
    rw [Consistent, hworker] at h
    refine ⟨?_, ?_, fun hlast => absurd hlast hphase⟩
    · rw [hrow, hbatch]
      exact h.accounted
    · rw [hrow, hbatch]
      exact h.buffered
  | load hworker hle hbetween hphase hbatch =>
    rw [Consistent, hworker] at h
    refine ⟨?_, hbatch ▸ .nil, fun hlast => ⟨hbatch, fun i hi => hphase hlast i (Nat.le_trans hle hi)⟩⟩
    refine h.accounted.skip hle hbetween ?_
    rw [hbatch, List.append_nil, handled, handled, List.map_append, List.append_assoc,
      List.append_assoc]
    exact List.Perm.append_left _ List.perm_append_comm
  | @cancel worker hworker =>
    rw [Consistent, hworker] at h
    exact idle_of_running h (hbehind worker hworker) fun hexact => (hlevel hexact worker hworker).2
  | @crash worker hworker =>
    rw [Consistent, hworker] at h
    exact idle_of_running h (hbehind worker hworker) fun hexact => (hlevel hexact worker hworker).elim
  | @finalize worker hworker hphase =>
    rw [Consistent, hworker] at h
    obtain ⟨hrows, hlast⟩ := h.last hphase
    have haccounted := h.accounted
    rw [hrows, List.append_nil] at haccounted
    constructor
    · intro i hi _
      exact haccounted.covered i hi (Nat.lt_of_not_le fun hle => hlast i hle hi)
    · intro hexact
      exact (hlevel hexact worker hworker).elim

theorem Level.behind (h : Level config source s a) : Behind config source s a := by
  intro worker hworker
  have hlevel := h worker hworker
  cases a with
  | cancel => exact hlevel.1
  | crash => exact hlevel.elim
  | _ => trivial

theorem handled_of_last (h : Consistent exact config source s) (hworker : s.worker = some worker)
    (hphase : worker.phase = .last) : Accounted exact source worker.reader.rowNumber s.handled ∧
      ∀ i, Readable source i → i < worker.reader.rowNumber := by
  rw [Consistent, hworker] at h
  obtain ⟨hrows, hlast⟩ := h.last hphase
  have haccounted := h.accounted
  rw [hrows, List.append_nil] at haccounted
  exact ⟨haccounted, fun i hi => Nat.lt_of_not_le fun hle => hlast i hle hi⟩

end System

end Arcxa.Loader
