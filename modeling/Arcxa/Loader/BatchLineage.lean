import Arcxa.Loader.Worker

/-!
# The lineage of batches

A run of the loader keeps, for each batch, its first and last row number, and writes a lineage event for
each of its rows. It works both out from the number of the row read last and the length of the batch, as
if the batch were the rows just before that row. That row is itself in a batch that is full, so that
such a batch is never recorded as it is; the last batch of a file is when exactly one row that is not in it
comes after it (`namesLoadedRows_iff`).
-/

namespace Arcxa.Loader

inductive BatchState where
  | InProgress
  | Completed
  | Failed
  deriving DecidableEq

/-- `startRow` and `endRow` are inclusive. -/
structure BatchProgress where
  batchId : Nat
  startRow : Nat
  endRow : Nat
  rowsLoaded : Nat
  state : BatchState
  deriving DecidableEq

/-- What a lineage event says about the row, beside what it has of the job. -/
structure RowLineageEvent where
  recordId : String
  offset : Int
  deriving DecidableEq

/-- The offset is the row number as an `i64`. -/
def createLineageEvent (rowNumber : Nat) : RowLineageEvent where
  recordId := "row_" ++ toString rowNumber
  offset := (rowNumber : Int).bmod (2 ^ 64)

def captureBatchLineage (batchStartRow batchSize : Nat) : List RowLineageEvent :=
  (List.range batchSize).map fun rowOffset => createLineageEvent (batchStartRow + rowOffset)

/-- What a run meets: `process` is the outcome of a row's retries, `execute` the number of rows that a
batch loads, and an operation on a file fails for the rows that `fileFails` says. -/
structure Surroundings where
  process : Nat → StringRecord → Except ErrorCategory StringRecord
  execute : Nat → List StringRecord → Option Nat
  fileFails : Nat → Bool

/-- The batches that were executed have their row numbers with them, and whether they were loaded. -/
structure LoaderRun where
  reader : AsyncCsvReader
  manager : CheckpointManager
  currentBatch : List (Nat × StringRecord)
  batchId : Nat
  batchProgress : List BatchProgress
  batches : List (List (Nat × StringRecord) × Bool)
  lineage : List RowLineageEvent

namespace LoaderRun

variable (config : LoaderWorkerConfig) (around : Surroundings)

def start (reader : AsyncCsvReader) (manager : CheckpointManager) (batchId : Nat) : LoaderRun :=
  ⟨reader, manager, [], batchId, [], [], []⟩

/-- A batch, from `start_batch` to its lineage. The `Bool` says whether the run goes on. -/
def runBatch (run : LoaderRun) : LoaderRun × Bool :=
  let batchLen := run.currentBatch.length
  let batchStartRow := run.reader.rowNumber - batchLen
  let batch : BatchProgress :=
    ⟨run.batchId + 1, batchStartRow, batchStartRow + batchLen - 1, 0, .InProgress⟩
  match around.execute (run.batchId + 1) (run.currentBatch.map Prod.snd) with
  | some loadedCount =>
    ({ run with
        currentBatch := []
        batchId := run.batchId + 1
        batchProgress := run.batchProgress ++ [{ batch with rowsLoaded := loadedCount, state := .Completed }]
        batches := run.batches ++ [(run.currentBatch, true)]
        lineage := run.lineage ++ captureBatchLineage batchStartRow batchLen }, true)
  | none =>
    ({ run with
        batchId := run.batchId + 1
        batchProgress := run.batchProgress ++ [{ batch with state := .Failed }]
        batches := run.batches ++ [(run.currentBatch, false)] }, false)

def runFullBatch (run : LoaderRun) : LoaderRun × Bool :=
  if config.batchSize ≤ run.currentBatch.length then run.runBatch around else (run, true)

def buffer (run : LoaderRun) (reader : AsyncCsvReader) (manager : CheckpointManager)
    (row : StringRecord) : LoaderRun :=
  { run with reader, manager, currentBatch := run.currentBatch ++ [(reader.rowNumber, row)] }

/-- What a line of the source leaves: `none` where the run ends with an error. -/
def readLine (reader : AsyncCsvReader) (manager : CheckpointManager) (line : Except String StringRecord) :
    Option (AsyncCsvReader × CheckpointManager × Option StringRecord) :=
  match line with
  | .error error =>
    if maxCsvErrors ≤ (reader.skip error).errors.length then none
    else some (reader.skip error, manager, none)
  | .ok record =>
    let rowNumber := reader.rowNumber + 1
    match around.process rowNumber record with
    | .ok row => some ({ reader with rowNumber }, manager.recordSuccess rowNumber, some row)
    | .error _ =>
      if around.fileFails rowNumber then none
      else (manager.recordError config.checkpointConfig).map fun manager =>
        ({ reader with rowNumber }, manager, none)

/-- The loop, to the end of the source, and whether it was come to without an error. -/
def loop : List (Except String StringRecord) → LoaderRun → LoaderRun × Bool
  | [], run => if run.currentBatch = [] then (run, true) else run.runBatch around
  | line :: lines, run =>
    match readLine config around run.reader run.manager line with
    | none => (run, false)
    | some (reader, manager, none) => loop lines { run with reader, manager }
    | some (reader, manager, some row) =>
      let result := (run.buffer reader manager row).runFullBatch config around
      if result.2 = true ∧ around.fileFails reader.rowNumber = false then loop lines result.1
      else (result.1, false)

/-! ## What should be recorded -/

def loadedRows (run : LoaderRun) : List Nat :=
  ((run.batches.filter Prod.snd).flatMap Prod.fst).map Prod.fst

def Spans (progress : BatchProgress) (batch : List (Nat × StringRecord) × Bool) : Prop :=
  (batch.1.map Prod.fst).head? = some progress.startRow ∧
    (batch.1.map Prod.fst).getLast? = some progress.endRow

/-- The events are those of the rows that were loaded, and each batch is recorded as it is. -/
structure NamesLoadedRows (run : LoaderRun) : Prop where
  events : run.lineage.Perm (run.loadedRows.map createLineageEvent)
  progress : List.Forall₂ Spans run.batchProgress run.batches

/-- The rows of the source that are processed, as if no batch were ever full: their numbers, the number
of the last row read, and whether the end of the source is come to. -/
def processed : List (Except String StringRecord) → AsyncCsvReader → CheckpointManager →
    List Nat × Nat × Bool
  | [], reader, _ => ([], reader.rowNumber, true)
  | line :: lines, reader, manager =>
    match readLine config around reader manager line with
    | none => ([], reader.rowNumber, false)
    | some (reader, manager, none) => processed lines reader manager
    | some (reader, manager, some _) =>
      if around.fileFails reader.rowNumber then ([reader.rowNumber], reader.rowNumber, false)
      else (processed lines reader manager).map (reader.rowNumber :: ·) id

/-- No batch gets full, and the one at the end, if the run comes to it, is of rows one after the
other, with exactly one more row read after them. -/
def EndsOneBehind (result : List Nat × Nat × Bool) : Prop :=
  result.1.length < config.batchSize ∧
    (result.2.2 = true → result.1 = List.range' (result.2.1 - result.1.length) result.1.length)

/-! ## Consecutive rows -/

theorem head_add_length_le {l : List Nat} (hl : l.Pairwise (· < ·)) {first last : Nat}
    (hfirst : l.head? = some first) (hlast : l.getLast? = some last) : first + l.length ≤ last + 1 := by
  induction l generalizing first with
  | nil => exact nomatch hfirst
  | cons a l ih =>
    obtain rfl : a = first := Option.some.inj hfirst
    cases l with
    | nil =>
      obtain rfl : a = last := Option.some.inj hlast
      exact Nat.le_refl _
    | cons b l =>
      have hlt : a < b := List.rel_of_pairwise_cons hl (List.mem_cons_self ..)
      have hle := ih (List.Pairwise.of_cons hl) rfl (by rwa [List.getLast?_cons_cons] at hlast)
      simp only [List.length_cons] at hle ⊢
      omega

theorem eq_range' {l : List Nat} (hl : l.Pairwise (· < ·)) {first : Nat} (hfirst : l.head? = some first)
    (hlast : l.getLast? = some (first + l.length - 1)) : l = List.range' first l.length := by
  induction l generalizing first with
  | nil => rfl
  | cons a l ih =>
    obtain rfl : a = first := Option.some.inj hfirst
    cases l with
    | nil => rfl
    | cons b l =>
      have hlt : a < b := List.rel_of_pairwise_cons hl (List.mem_cons_self ..)
      have htail := List.Pairwise.of_cons hl
      rw [List.getLast?_cons_cons] at hlast
      have hle := head_add_length_le htail rfl hlast
      simp only [List.length_cons] at hle hlast
      obtain rfl : b = a + 1 := by omega
      have hrest := ih htail rfl (hlast.trans (congrArg some (by rw [List.length_cons]; omega)))
      rw [List.length_cons, List.range'_succ, ← hrest]

/-! ## One step -/

variable {config around}

theorem readLine_rowNumber {reader reader' : AsyncCsvReader} {manager manager' : CheckpointManager}
    {line : Except String StringRecord} {row : Option StringRecord}
    (h : readLine config around reader manager line = some (reader', manager', row)) :
    reader'.rowNumber = reader.rowNumber + 1 := by
  unfold readLine at h
  cases line with
  | error error =>
    dsimp only at h
    split_ifs at h
    cases h
    rfl
  | ok record =>
    dsimp only at h
    split at h
    · cases h
      rfl
    · split_ifs at h
      obtain ⟨manager, -, h⟩ := Option.map_eq_some_iff.mp h
      cases h
      rfl

/-- The rows of the batch are in order, and were read. -/
structure Buffered (run : LoaderRun) : Prop where
  sorted : (run.currentBatch.map Prod.fst).Pairwise (· < ·)
  read : ∀ rowNumber ∈ run.currentBatch.map Prod.fst, rowNumber ≤ run.reader.rowNumber
  length : run.currentBatch.length ≤ run.reader.rowNumber

variable {run : LoaderRun}

theorem Buffered.skip (h : Buffered run) {reader : AsyncCsvReader}
    (hreader : reader.rowNumber = run.reader.rowNumber + 1) (manager : CheckpointManager) :
    Buffered { run with reader, manager } where
  sorted := h.sorted
  read rowNumber hmem := hreader ▸ Nat.le_succ_of_le (h.read rowNumber hmem)
  length := hreader ▸ Nat.le_succ_of_le h.length

theorem Buffered.push (h : Buffered run) {reader : AsyncCsvReader}
    (hreader : reader.rowNumber = run.reader.rowNumber + 1) (manager : CheckpointManager)
    (row : StringRecord) :
    Buffered (run.buffer reader manager row) where
  sorted := by
    rw [buffer, List.map_append, List.pairwise_append]
    refine ⟨h.sorted, List.pairwise_singleton _ _, fun rowNumber hmem last hlast => ?_⟩
    obtain rfl : last = reader.rowNumber := List.mem_singleton.mp hlast
    have := h.read rowNumber hmem
    omega
  read rowNumber hmem := by
    rw [buffer, List.map_append, List.mem_append] at hmem
    obtain hmem | hmem := hmem
    · exact hreader ▸ Nat.le_succ_of_le (h.read rowNumber hmem)
    · exact Nat.le_of_eq (List.mem_singleton.mp hmem)
  length := by
    rw [buffer, List.length_append, hreader]
    exact Nat.succ_le_succ h.length

def Misrecords (run : LoaderRun) : Prop :=
  ∃ (i : Nat) (progress : BatchProgress) (batch : List (Nat × StringRecord) × Bool),
    run.batchProgress[i]? = some progress ∧ run.batches[i]? = some batch ∧ ¬ Spans progress batch

theorem Misrecords.not_namesLoadedRows (h : Misrecords run) :
    ¬ NamesLoadedRows run := by
  rintro ⟨-, hprogress⟩
  obtain ⟨i, progress, batch, hi, hi', hnot⟩ := h
  obtain ⟨hlt, rfl⟩ := List.getElem?_eq_some_iff.mp hi
  obtain ⟨hlt', rfl⟩ := List.getElem?_eq_some_iff.mp hi'
  exact hnot ((List.forall₂_iff_get.mp hprogress).2 i hlt hlt')

theorem Misrecords.runBatch (h : Misrecords run) :
    Misrecords (run.runBatch around).1 := by
  obtain ⟨i, progress, batch, hi, hi', hnot⟩ := h
  have hkept : ∀ {α : Type} {l : List α} {a : α} (b : α), l[i]? = some a → (l ++ [b])[i]? = some a :=
    fun b ha => by rw [List.getElem?_append_left (List.getElem?_eq_some_iff.mp ha).1, ha]
  unfold LoaderRun.runBatch
  dsimp only
  cases around.execute (run.batchId + 1) (run.currentBatch.map Prod.snd) with
  | some loadedCount => exact ⟨i, progress, batch, hkept _ hi, hkept _ hi', hnot⟩
  | none => exact ⟨i, progress, batch, hkept _ hi, hkept _ hi', hnot⟩

theorem Misrecords.loop {lines : List (Except String StringRecord)}
    (h : Misrecords run) : Misrecords (loop config around lines run).1 := by
  induction lines generalizing run with
  | nil =>
    rw [LoaderRun.loop]
    split_ifs
    · exact h
    · exact h.runBatch
  | cons line lines ih =>
    rw [LoaderRun.loop]
    split
    · exact h
    · exact ih h
    · next reader manager row _ =>
      have hresult : Misrecords ((run.buffer reader manager row).runFullBatch config around).1 := by
        rw [runFullBatch]
        split_ifs
        · exact Misrecords.runBatch h
        · exact h
      dsimp only
      split_ifs
      · exact ih hresult
      · exact hresult

/-! ## A run -/

/-- Nothing is recorded yet. -/
structure Fresh (run : LoaderRun) : Prop where
  batchProgress : run.batchProgress = []
  batches : run.batches = []
  lineage : run.lineage = []

theorem Fresh.namesLoadedRows (h : Fresh run) : NamesLoadedRows run where
  events := by
    rw [h.lineage, loadedRows, h.batches]
    exact List.Perm.refl _
  progress := by
    rw [h.batchProgress, h.batches]
    exact .nil

theorem captureBatchLineage_eq (first length : Nat) :
    captureBatchLineage first length = (List.range' first length).map createLineageEvent := by
  rw [captureBatchLineage, List.range'_eq_map_range, List.map_map]
  rfl

variable (around) in
theorem runBatch_fresh (hfresh : Fresh run) : ∃ progress loaded,
    (run.runBatch around).1.batchProgress = [progress] ∧
      (run.runBatch around).1.batches = [(run.currentBatch, loaded)] ∧
      (run.runBatch around).1.lineage = (if loaded then captureBatchLineage progress.startRow
        run.currentBatch.length else []) ∧
      progress.startRow = run.reader.rowNumber - run.currentBatch.length ∧
      progress.endRow = progress.startRow + run.currentBatch.length - 1 := by
  unfold runBatch
  rw [hfresh.batchProgress, hfresh.batches, hfresh.lineage]
  dsimp only
  cases around.execute (run.batchId + 1) (run.currentBatch.map Prod.snd) with
  | some loadedCount => exact ⟨_, _, rfl, rfl, rfl, rfl, rfl⟩
  | none => exact ⟨_, _, rfl, rfl, rfl, rfl, rfl⟩

theorem misrecords_runBatch (hfresh : Fresh run) (hrun : Buffered run)
    (hlast : (run.currentBatch.map Prod.fst).getLast? = some run.reader.rowNumber) :
    Misrecords (run.runBatch around).1 := by
  obtain ⟨progress, loaded, hprogress, hbatches, -, hstart, hend⟩ := runBatch_fresh around hfresh
  refine ⟨0, progress, (run.currentBatch, loaded), by rw [hprogress]; rfl, by rw [hbatches]; rfl, ?_⟩
  rintro ⟨-, hspan⟩
  have hpos : run.currentBatch.length ≠ 0 := fun hzero => by
    rw [List.length_eq_zero_iff.mp hzero] at hlast
    exact nomatch hlast
  have hread := hrun.length
  rw [hlast, Option.some.injEq] at hspan
  omega

theorem namesLoadedRows_runBatch (hfresh : Fresh run) (hrun : Buffered run)
    (hne : run.currentBatch ≠ []) : NamesLoadedRows (run.runBatch around).1 ↔
      run.currentBatch.map Prod.fst =
        List.range' (run.reader.rowNumber - run.currentBatch.length) run.currentBatch.length := by
  obtain ⟨progress, loaded, hprogress, hbatches, hlineage, hstart, hend⟩ :=
    runBatch_fresh around hfresh
  have hpos := List.length_pos_of_ne_nil hne
  constructor
  · rintro ⟨-, hspans⟩
    rw [hprogress, hbatches] at hspans
    obtain ⟨hfirst, hlast⟩ := (List.forall₂_cons.mp hspans).1
    have hrows := eq_range' hrun.sorted hfirst (by rw [hlast, hend, List.length_map])
    rwa [List.length_map, hstart] at hrows
  · intro hrows
    refine ⟨?_, ?_⟩
    · rw [hlineage, loadedRows, hbatches, hstart, captureBatchLineage_eq]
      cases loaded with
      | false => exact List.Perm.refl _
      | true =>
        rw [← hrows]
        simp
    · rw [hprogress, hbatches]
      refine .cons ⟨?_, ?_⟩ .nil
      · rw [hrows, hstart, List.head?_range', if_neg hpos.ne']
      · rw [hrows, hend, hstart, List.getLast?_range', if_neg hpos.ne', Nat.add_sub_assoc hpos]

theorem loop_iff {lines : List (Except String StringRecord)}
    (hfresh : Fresh run) (hrun : Buffered run) (hroom : run.currentBatch.length < config.batchSize) :
    NamesLoadedRows (loop config around lines run).1 ↔
      EndsOneBehind config ((processed config around lines run.reader run.manager).map
        (run.currentBatch.map Prod.fst ++ ·) id) := by
  induction lines generalizing run with
  | nil =>
    rw [loop, processed, EndsOneBehind]
    simp only [Prod.map, List.append_nil, id_eq, forall_const, List.length_map]
    split_ifs with hnil
    · refine iff_of_true hfresh.namesLoadedRows ⟨hroom, ?_⟩
      rw [hnil]
      rfl
    · rw [namesLoadedRows_runBatch hfresh hrun hnil]
      exact (and_iff_right hroom).symm
  | cons line lines ih =>
    rw [loop, processed]
    cases hline : readLine config around run.reader run.manager line with
    | none =>
      dsimp only
      refine iff_of_true hfresh.namesLoadedRows ⟨?_, fun hend => nomatch hend⟩
      simpa using hroom
    | some result =>
      obtain ⟨reader, manager, row⟩ := result
      have hreader := readLine_rowNumber hline
      cases row with
      | none => exact ih ⟨hfresh.batchProgress, hfresh.batches, hfresh.lineage⟩ (hrun.skip hreader manager) hroom
      | some row =>
        have hbuffered := hrun.push hreader manager row
        have hfresh' : Fresh (run.buffer reader manager row) :=
          ⟨hfresh.batchProgress, hfresh.batches, hfresh.lineage⟩
        dsimp only
        have hlength : (run.buffer reader manager row).currentBatch.length =
            run.currentBatch.length + 1 := List.length_append
        by_cases hfull : config.batchSize ≤ (run.buffer reader manager row).currentBatch.length
        · -- the row fills the batch
          have hbatch : Misrecords ((run.buffer reader manager row).runFullBatch config around).1 := by
            rw [runFullBatch, if_pos hfull]
            refine misrecords_runBatch hfresh' hbuffered ?_
            rw [buffer, List.map_append]
            exact List.getLast?_concat
          refine iff_of_false (Misrecords.not_namesLoadedRows ?_) ?_
          · split_ifs
            · exact hbatch.loop
            · exact hbatch
          · rintro ⟨hlt, -⟩
            split_ifs at hlt
            all_goals
              simp only [Prod.map, List.length_append, List.length_map, List.length_cons] at hlt
              omega
        · rw [runFullBatch, if_neg hfull]
          have hroom' := Nat.lt_of_not_le hfull
          cases hfails : around.fileFails reader.rowNumber with
          | true =>
            refine iff_of_true hfresh'.namesLoadedRows ⟨?_, fun hend => nomatch hend⟩
            simp only [if_true, Prod.map, List.length_append, List.length_map, List.length_singleton]
            omega
          | false =>
            have hloop := ih hfresh' hbuffered hroom'
            simp only [if_true, and_self, Bool.false_eq_true, if_false]
            rw [hloop]
            simp only [buffer, Prod.map, List.map_append, List.map_cons, List.map_nil, List.append_assoc,
              List.cons_append, List.nil_append, id_eq]

/-- **Lineage and progress** of a run, from the start or resumed, are those of the rows that were
loaded exactly when no batch gets full, and the one that is left at the end of the file, if there is one, is of
rows one after the other with exactly one more row read after them. -/
theorem namesLoadedRows_iff (config : LoaderWorkerConfig) (around : Surroundings)
    (hbatch : 1 ≤ config.batchSize) (lines : List (Except String StringRecord)) (reader : AsyncCsvReader)
    (manager : CheckpointManager) (batchId : Nat) :
    NamesLoadedRows (loop config around lines (start reader manager batchId)).1 ↔
      EndsOneBehind config (processed config around lines reader manager) := by
  have hfresh : Fresh (start reader manager batchId) := ⟨rfl, rfl, rfl⟩
  have hbuffered : Buffered (start reader manager batchId) :=
    ⟨List.Pairwise.nil, fun _ hmem => absurd hmem List.not_mem_nil, Nat.zero_le _⟩
  rw [loop_iff hfresh hbuffered hbatch]
  rfl

def failingRow (row : Nat) : Surroundings where
  process rowNumber record := if rowNumber = row then .error .DataFormat else .ok record
  execute _ rows := some rows.length
  fileFails _ := false

def batchesOf (batchSize : Nat) : LoaderWorkerConfig := ⟨batchSize, ⟨100, 3, 100, true⟩⟩

theorem lastRowFails_named : NamesLoadedRows (loop (batchesOf 5) (failingRow 3)
    [.ok ["a"], .ok ["b"], .ok ["c"]] (start ⟨0, []⟩ CheckpointManager.new 0)).1 :=
  (namesLoadedRows_iff (batchesOf 5) (failingRow 3) (by decide) [.ok ["a"], .ok ["b"], .ok ["c"]]
    ⟨0, []⟩ CheckpointManager.new 0).mpr ⟨by decide, fun _ => rfl⟩

/-- A file of one row: its lineage event names row 0. -/
theorem oneRow_misnamed : ¬ ∀ batchSize, 1 ≤ batchSize → ∀ lines, NamesLoadedRows
    (loop (batchesOf batchSize) (failingRow 0) lines (start ⟨0, []⟩ CheckpointManager.new 0)).1 := by
  intro hnames
  have hevents := (hnames 1 (Nat.le_refl 1) [.ok ["a"]]).events
  have hperm : List.Perm [createLineageEvent 0] [createLineageEvent 1] := hevents
  exact absurd (List.perm_singleton.mp hperm) (by decide)

end LoaderRun

end Arcxa.Loader
