import Arcxa.Loader.DeadLetterQueue

/-!
# What the dead letter files give back

A job may be resumed: the next instance of the queue counts its files from 0 again. `given_back_iff`:
the files named by all instances give back every row exactly once if and only if no file was opened
by two instances and the format can hold the rows; a JSON file is never read.
-/

namespace Arcxa.Loader

open Traceability (Serde)
open Workflow (Value)
open DeadLetterQueue FailedRow

variable {F T : Type} [Timestamp T]

/-- What is compared of a row. -/
structure Content where
  rowNumber : UInt64
  rowData : List String
  category : String
  message : String
  retryCount : UInt64

def FailedRow.content (row : FailedRow T) : Content :=
  ⟨row.rowNumber, row.rowData, row.errorCategory, row.errorMessage, row.retryCount⟩

def Failure.content (failure : Failure T) : Content :=
  ⟨failure.rowNumber, failure.rowData, failure.errorCategory.display, failure.errorMessage,
    failure.retryCount⟩

def DlqFile.rowCount : DlqFile F → Nat
  | .csv records => records.tail.length
  | .lines values => values.length

def runInstances (jobId : String) (config : DlqConfig) :
    Disk F → List (List (Failure T)) → Disk F × List Path
  | disk, [] => (disk, [])
  | disk, failures :: instances =>
    let (disk, queue) := DeadLetterQueue.writeAll jobId config disk failures
    let (disk, files) := runInstances jobId config disk instances
    (disk, queue.dlqFiles ++ files)

def readFiles (now : T) (disk : Disk F) (paths : List Path) : Option (List (FailedRow T)) :=
  (paths.mapM fun path => (DlqReader.new path now).bind (·.readAll disk)).map List.flatten

/-- Every written row is read exactly once, and no file is too long. -/
def GivesBack (jobId : String) (config : DlqConfig) (now : T) (disk : Disk F)
    (instances : List (List (Failure T))) : Prop :=
  let run := runInstances jobId config disk instances
  (∃ rows, readFiles now run.1 run.2.dedup = some rows ∧
    (rows.map FailedRow.content).Perm (instances.flatten.map Failure.content)) ∧
  ∀ path ∈ run.2, ∀ file ∈ run.1.get path, file.rowCount ≤ config.maxRowsPerFile

/-! ## The files of an instance -/

def pathOf (jobId : String) (config : DlqConfig) (fileIndex : Nat) (failure : Failure T) : Path :=
  ({ DeadLetterQueue.new jobId config with fileIndex } : DeadLetterQueue).computeDlqPath
    (DeadLetterQueue.failedRow jobId failure)

/-- The files that are opened from here on, with their rows; the open file takes `room` more rows. -/
def filesFrom (jobId : String) (config : DlqConfig) :
    Nat → Nat → List (Failure T) → List (Path × List (Failure T))
  | _, _, [] => []
  | 0, fileIndex, failure :: failures =>
    (pathOf jobId config fileIndex failure, failure :: failures.take (config.maxRowsPerFile - 1)) ::
      filesFrom jobId config (config.maxRowsPerFile - 1) (fileIndex + 1) failures
  | room + 1, fileIndex, _ :: failures => filesFrom jobId config room fileIndex failures

def filesOf (jobId : String) (config : DlqConfig) (failures : List (Failure T)) :
    List (Path × List (Failure T)) :=
  filesFrom jobId config 0 0 failures

/-- A row that comes back from a file of the format. -/
def Holds (format : DlqFormat) (failure : Failure T) : Prop :=
  match format with
  | .csv => failure.rowData ≠ [] ∧ ∀ field ∈ failure.rowData, '|' ∉ field.toList
  | .json => False
  | .jsonLines => True

/-- No two instances open a file of one name. -/
def Apart (jobId : String) (config : DlqConfig) (instances : List (List (Failure T))) : Prop :=
  instances.Pairwise fun first second => List.Disjoint
    ((filesOf jobId config first).map (·.1)) ((filesOf jobId config second).map (·.1))

/-! ## Last writers -/

section LastWriter

variable {A : Type}

def lastRows : List (Path × List A) → Path → List A
  | [], _ => []
  | file :: files, path =>
    if path ∈ files.map (·.1) then lastRows files path
    else if path = file.1 then file.2 else []

variable {files : List (Path × List A)}

theorem lastRows_of_notMem {path : Path} (h : path ∉ files.map (·.1)) :
    lastRows files path = [] := by
  cases files with
  | nil => rfl
  | cons file files =>
    rw [List.map_cons, List.mem_cons, not_or] at h
    rw [lastRows, if_neg h.2, if_neg h.1]

theorem lastRows_append (files files' : List (Path × List A)) (path : Path) :
    lastRows (files ++ files') path =
      if path ∈ files'.map (·.1) then lastRows files' path else lastRows files path := by
  induction files with
  | nil =>
    rw [List.nil_append]
    split_ifs with h
    · rfl
    · exact lastRows_of_notMem h
  | cons file files ih =>
    simp only [List.cons_append, lastRows, ih, List.map_append, List.mem_append]
    by_cases h' : path ∈ files'.map (·.1)
    · rw [if_pos (.inr h'), if_pos h', if_pos h']
    · simp only [h', or_false, if_false]

theorem lastRows_mem {path : Path} (h : path ∈ files.map (·.1)) :
    (path, lastRows files path) ∈ files := by
  induction files with
  | nil => exact nomatch h
  | cons file files ih =>
    rw [lastRows]
    split_ifs with hrest hpath
    · exact List.mem_cons_of_mem _ (ih hrest)
    · subst hpath
      exact List.mem_cons_self ..
    · rcases List.mem_cons.mp h with heq | hrest'
      · exact absurd heq hpath
      · exact absurd hrest' hrest

theorem flatMap_lastRows (hne : ∀ file ∈ files, file.2 ≠ []) :
    ((files.map (·.1)).Nodup →
      (files.map (·.1)).dedup.flatMap (lastRows files) = files.flatMap (·.2)) ∧
    (¬ (files.map (·.1)).Nodup →
      ((files.map (·.1)).dedup.flatMap (lastRows files)).length < (files.flatMap (·.2)).length) := by
  induction files with
  | nil => exact ⟨fun _ => rfl, fun h => absurd List.nodup_nil h⟩
  | cons file files ih =>
    obtain ⟨hfile, hfiles⟩ := List.forall_mem_cons.mp hne
    obtain ⟨hall, hless⟩ := ih hfiles
    have hrest : (files.map (·.1)).dedup.flatMap (lastRows (file :: files)) =
        (files.map (·.1)).dedup.flatMap (lastRows files) := by
      refine List.flatMap_congr fun path hpath => ?_
      rw [lastRows, if_pos (List.mem_dedup.mp hpath)]
    have hle : ((files.map (·.1)).dedup.flatMap (lastRows files)).length ≤
        (files.flatMap (·.2)).length := by
      by_cases hnodup : (files.map (·.1)).Nodup
      · rw [hall hnodup]
      · exact (hless hnodup).le
    rw [List.map_cons, List.nodup_cons, List.flatMap_cons, List.length_append]
    by_cases hmem : file.1 ∈ files.map (·.1)
    · refine ⟨fun h => absurd hmem h.1, fun _ => ?_⟩
      rw [List.dedup_cons_of_mem hmem, hrest]
      have hpos : 0 < file.2.length := List.length_pos_iff.mpr hfile
      omega
    · have hhead : lastRows (file :: files) file.1 = file.2 := by
        rw [lastRows, if_neg hmem, if_pos rfl]
      rw [List.dedup_cons_of_notMem hmem, List.flatMap_cons, hrest, hhead]
      refine ⟨fun h => by rw [hall h.2], fun h => ?_⟩
      rw [List.length_append]
      exact Nat.add_lt_add_left (hless fun hnodup => h ⟨hmem, hnodup⟩) _

end LastWriter

/-! ## Writing -/

def written (jobId : String) (config : DlqConfig) (failure : Failure T) : FailedRow T :=
  (DeadLetterQueue.new jobId config).withStackTrace (DeadLetterQueue.failedRow jobId failure)

def appendRows (jobId : String) (config : DlqConfig) (failures : List (Failure T))
    (file : DlqFile F) : DlqFile F :=
  failures.foldl (fun file failure => file.writeRow (written jobId config failure)) file

def fileOf (jobId : String) (config : DlqConfig) (failures : List (Failure T)) : DlqFile F :=
  appendRows jobId config failures (.new config.format)

variable {jobId : String} {config : DlqConfig}

/-- The queue before a row: the file it has open, if any, takes `room` more rows. -/
structure At (jobId : String) (config : DlqConfig) (room fileIndex : Nat) (opened : Option Path)
    (queue : DeadLetterQueue) : Prop where
  ofJob : queue.jobId = jobId
  configured : queue.config = config
  total : (queue.totalRows + room) % config.maxRowsPerFile = 0
  fits : room < config.maxRowsPerFile
  writer : queue.writer = opened
  index : queue.fileIndex + (if room = 0 then 0 else 1) = fileIndex

variable {queue : DeadLetterQueue}

theorem pathOf_eq (hjob : queue.jobId = jobId)
    (hconfig : queue.config = config) (failure : Failure T) :
    queue.computeDlqPath (queue.withStackTrace (DeadLetterQueue.failedRow queue.jobId failure)) =
      pathOf jobId config queue.fileIndex failure := by
  subst hjob hconfig
  unfold withStackTrace
  split_ifs <;> rfl

omit [Timestamp T] in
theorem written_eq (hjob : queue.jobId = jobId)
    (hconfig : queue.config = config) (failure : Failure T) :
    queue.withStackTrace (DeadLetterQueue.failedRow queue.jobId failure) =
      written jobId config failure := by
  subst hjob hconfig
  rfl

variable {room fileIndex : Nat}

theorem at_next {path : Path} (queue : DeadLetterQueue)
    (hjob : queue.jobId = jobId) (hconfig : queue.config = config)
    (htotal : (queue.totalRows + 1 + room) % config.maxRowsPerFile = 0)
    (hroom : room < config.maxRowsPerFile) (hwriter : queue.writer = some path)
    (hindex : queue.fileIndex + 1 = fileIndex) :
    At jobId config room fileIndex (if room = 0 then none else some path)
      (if (queue.totalRows + 1) % queue.config.maxRowsPerFile = 0 then
        ({ queue with totalRows := queue.totalRows + 1 } : DeadLetterQueue).rotateFile
      else { queue with totalRows := queue.totalRows + 1 }) := by
  have hrotate : (queue.totalRows + 1) % queue.config.maxRowsPerFile = 0 ↔ room = 0 := by
    rw [hconfig]
    constructor
    · intro h
      rw [Nat.add_mod, h, Nat.zero_add, Nat.mod_mod, Nat.mod_eq_of_lt hroom] at htotal
      exact htotal
    · rintro rfl
      exact htotal
  by_cases hzero : room = 0
  · rw [if_pos (hrotate.mpr hzero), if_pos hzero]
    refine ⟨hjob, hconfig, htotal, hroom, rfl, ?_⟩
    rw [if_pos hzero]
    exact hindex
  · rw [if_neg (mt hrotate.mp hzero), if_neg hzero]
    refine ⟨hjob, hconfig, htotal, hroom, hwriter, ?_⟩
    rw [if_neg hzero]
    exact hindex

theorem write_opens {fileIndex : Nat} (hat : At jobId config 0 fileIndex none queue)
    (disk : Disk F) (failure : Failure T) :
    At jobId config (config.maxRowsPerFile - 1) (fileIndex + 1)
        (if config.maxRowsPerFile - 1 = 0 then none else some (pathOf jobId config fileIndex failure))
        (queue.writeFailedRow disk failure).2 ∧
      (queue.writeFailedRow disk failure).2.dlqFiles =
        queue.dlqFiles ++ [pathOf jobId config fileIndex failure] ∧
      ∀ path, (queue.writeFailedRow disk failure).1.get path =
        if path = pathOf jobId config fileIndex failure then some (fileOf jobId config [failure])
        else disk.get path := by
  have hindex : queue.fileIndex = fileIndex := hat.index
  have hpath := hindex ▸ pathOf_eq hat.ofJob hat.configured failure
  have hpos := hat.fits
  rw [writeFailedRow, writeFailedRowEntry, getWriter,
    hat.writer]
  dsimp only
  rw [hpath]
  refine ⟨at_next { queue with
    writer := some (pathOf jobId config fileIndex failure)
    dlqFiles := queue.dlqFiles ++ [pathOf jobId config fileIndex failure] }
    hat.ofJob hat.configured ?_ (Nat.sub_lt hpos Nat.one_pos) rfl (congrArg (· + 1) hindex), ?_,
    fun path => ?_⟩
  · have htotal := hat.total
    dsimp only
    rw [Nat.add_assoc, Nat.add_sub_cancel' hpos, Nat.add_mod_right]
    exact htotal
  · split_ifs <;> rfl
  · rw [BTreeMap.get_upsert, BTreeMap.get_insert, BTreeMap.get_insert, if_pos rfl,
      written_eq hat.ofJob hat.configured,
      hat.configured]
    split_ifs <;> rfl

theorem write_open {opened : Path}
    (hat : At jobId config (room + 1) fileIndex (some opened) queue) (disk : Disk F)
    (failure : Failure T) :
    At jobId config room fileIndex (if room = 0 then none else some opened)
        (queue.writeFailedRow disk failure).2 ∧
      (queue.writeFailedRow disk failure).2.dlqFiles = queue.dlqFiles ∧
      ∀ path, (queue.writeFailedRow disk failure).1.get path =
        if path = opened then
          some (((disk.get path).getD (.new config.format)).writeRow (written jobId config failure))
        else disk.get path := by
  have hindex := hat.index
  rw [if_neg (Nat.succ_ne_zero room)] at hindex
  rw [writeFailedRow, writeFailedRowEntry, getWriter,
    hat.writer]
  dsimp only
  refine ⟨at_next queue hat.ofJob hat.configured ?_ (Nat.lt_of_succ_lt hat.fits) hat.writer hindex, ?_,
    fun path => ?_⟩
  · have htotal := hat.total
    rwa [Nat.add_assoc, Nat.add_comm 1 room]
  · split_ifs <;> rfl
  · rw [BTreeMap.get_upsert, written_eq hat.ofJob hat.configured, hat.configured]
    split_ifs with h
    · rw [h]
    · rfl

/-- What the rest of an instance's rows do: they fill the open file and then new ones. -/
theorem foldl_write {opened : Path} {disk : Disk F}
    (file : DlqFile F) (failures : List (Failure T))
    (hat : At jobId config room fileIndex (if room = 0 then none else some opened) queue)
    (hfile : room ≠ 0 → disk.get opened = some file) :
    (failures.foldl (fun (disk, queue) failure => queue.writeFailedRow disk failure)
        (disk, queue)).2.dlqFiles =
      queue.dlqFiles ++ (filesFrom jobId config room fileIndex failures).map (·.1) ∧
    ∀ path, (failures.foldl (fun (disk, queue) failure => queue.writeFailedRow disk failure)
        (disk, queue)).1.get path =
      if path ∈ (filesFrom jobId config room fileIndex failures).map (·.1) then
        some (fileOf jobId config (lastRows (filesFrom jobId config room fileIndex failures) path))
      else if room ≠ 0 ∧ path = opened then
        some (appendRows jobId config (failures.take room) file)
      else disk.get path := by
  induction failures generalizing room fileIndex opened queue disk file with
  | nil =>
    refine ⟨(List.append_nil _).symm, fun path => ?_⟩
    rw [filesFrom, List.map_nil, if_neg List.not_mem_nil, List.take_nil]
    split_ifs with h
    · rw [h.2]
      exact hfile h.1
    · rfl
  | cons failure failures ih =>
    rw [List.foldl_cons]
    cases room with
    | zero =>
      rw [if_pos rfl] at hat
      obtain ⟨hnext, hfiles, hget⟩ := write_opens hat disk failure
      have hopened := hget (pathOf jobId config fileIndex failure)
      rw [if_pos rfl] at hopened
      obtain ⟨hnames, hdisk⟩ := ih _ hnext fun _ => hopened
      rw [filesFrom]
      refine ⟨?_, fun path => (hdisk path).trans ?_⟩
      · rw [hnames, hfiles, List.append_assoc]
        rfl
      · rw [List.map_cons, lastRows]
        by_cases hrest : path ∈ (filesFrom jobId config (config.maxRowsPerFile - 1) (fileIndex + 1)
            failures).map (·.1)
        · rw [if_pos hrest, if_pos hrest, if_pos (List.mem_cons_of_mem _ hrest)]
        · rw [if_neg hrest, if_neg hrest]
          by_cases hpath : path = pathOf jobId config fileIndex failure
          · rw [if_pos hpath, if_pos (List.mem_cons.mpr (.inl hpath))]
            split_ifs with h
            · rfl
            · have hzero : config.maxRowsPerFile - 1 = 0 := by
                by_contra hne
                exact h ⟨hne, hpath⟩
              rw [hpath, hopened, hzero, List.take_zero]
          · have hnot : path ∉ pathOf jobId config fileIndex failure ::
                (filesFrom jobId config (config.maxRowsPerFile - 1) (fileIndex + 1) failures).map
                  (·.1) := by
              rw [List.mem_cons, not_or]
              exact ⟨hpath, hrest⟩
            rw [if_neg hnot, if_neg fun h => hpath h.2, if_neg fun h => h.1 rfl, hget,
              if_neg hpath]
    | succ room =>
      rw [if_neg (Nat.succ_ne_zero room)] at hat
      obtain ⟨hnext, hfiles, hget⟩ := write_open hat disk failure
      have hopened := hget opened
      rw [if_pos rfl, hfile (Nat.succ_ne_zero room), Option.getD_some] at hopened
      obtain ⟨hnames, hdisk⟩ := ih _ hnext fun _ => hopened
      rw [filesFrom]
      refine ⟨hnames.trans (congrArg (· ++ _) hfiles), fun path => (hdisk path).trans ?_⟩
      split_ifs with hrest hmore hopen hopen
      · rfl
      · rfl
      · exact absurd ⟨Nat.succ_ne_zero room, hmore.2⟩ hopen
      · have hzero : room = 0 := by
          by_contra hne
          exact hmore ⟨hne, hopen.2⟩
        rw [hopen.2, hopened, hzero]
        rfl
      · rw [hget, if_neg fun h => hopen ⟨Nat.succ_ne_zero room, h⟩]

theorem writeAll_spec (jobId : String) (hmax : 0 < config.maxRowsPerFile) (disk : Disk F)
    (failures : List (Failure T)) :
    (DeadLetterQueue.writeAll jobId config disk failures).2.dlqFiles =
      (filesOf jobId config failures).map (·.1) ∧
    ∀ path, (DeadLetterQueue.writeAll jobId config disk failures).1.get path =
      if path ∈ (filesOf jobId config failures).map (·.1) then
        some (fileOf jobId config (lastRows (filesOf jobId config failures) path))
      else disk.get path := by
  have hat : At jobId config 0 0 (if 0 = 0 then none else some [])
      (new jobId config) := ⟨rfl, rfl, Nat.zero_mod _, hmax, rfl, rfl⟩
  obtain ⟨hnames, hdisk⟩ := foldl_write (.lines []) failures hat
    fun h : 0 ≠ 0 => (absurd rfl h : disk.get [] = some (.lines []))
  refine ⟨hnames, fun path => (hdisk path).trans ?_⟩
  have hnone : ¬ ((0 : Nat) ≠ 0 ∧ path = []) := fun h => h.1 rfl
  rw [if_neg hnone]
  rfl

theorem runInstances_spec (jobId : String) (hmax : 0 < config.maxRowsPerFile) (disk : Disk F)
    (instances : List (List (Failure T))) :
    (runInstances jobId config disk instances).2 =
      (instances.flatMap (filesOf jobId config)).map (·.1) ∧
    ∀ path, (runInstances jobId config disk instances).1.get path =
      if path ∈ (instances.flatMap (filesOf jobId config)).map (·.1) then
        some (fileOf jobId config (lastRows (instances.flatMap (filesOf jobId config)) path))
      else disk.get path := by
  induction instances generalizing disk with
  | nil => exact ⟨rfl, fun path => (if_neg List.not_mem_nil).symm⟩
  | cons failures instances ih =>
    obtain ⟨hnames, hdisk⟩ := writeAll_spec jobId hmax disk failures
    obtain ⟨hrest, hget⟩ := ih (writeAll jobId config disk failures).1
    rw [runInstances, List.flatMap_cons, List.map_append]
    refine ⟨congrArg₂ (· ++ ·) hnames hrest, fun path => (hget path).trans ?_⟩
    rw [hdisk, lastRows_append]
    by_cases hlater : path ∈ (instances.flatMap (filesOf jobId config)).map (·.1)
    · rw [if_pos hlater, if_pos (List.mem_append_right _ hlater), if_pos hlater]
    · rw [if_neg hlater, if_neg hlater]
      simp only [List.mem_append, hlater, or_false]

/-! ## Which files there are -/

theorem flatMap_filesFrom (room fileIndex : Nat) (failures : List (Failure T)) :
    failures.take room ++ (filesFrom jobId config room fileIndex failures).flatMap (·.2) =
      failures := by
  induction failures generalizing room fileIndex with
  | nil => rw [List.take_nil]; rfl
  | cons failure failures ih =>
    cases room with
    | zero =>
      have hrest := ih (config.maxRowsPerFile - 1) (fileIndex + 1)
      rw [filesFrom, List.flatMap_cons, List.take_zero, List.nil_append, List.cons_append, hrest]
    | succ room => rw [filesFrom, List.take_succ_cons, List.cons_append, ih]

theorem mem_filesFrom (hmax : 0 < config.maxRowsPerFile)
    {failures : List (Failure T)} {file : Path × List (Failure T)}
    (h : file ∈ filesFrom jobId config room fileIndex failures) :
    file.2 ≠ [] ∧ file.2.length ≤ config.maxRowsPerFile ∧
      ∃ (index : Nat) (first : Failure T), fileIndex ≤ index ∧
        file.1 = pathOf jobId config index first := by
  induction failures generalizing room fileIndex with
  | nil => exact nomatch h
  | cons failure failures ih =>
    cases room with
    | zero =>
      rw [filesFrom] at h
      rcases List.mem_cons.mp h with rfl | hrest
      · refine ⟨List.cons_ne_nil _ _, ?_, fileIndex, failure, Nat.le_refl _, rfl⟩
        rw [List.length_cons, List.length_take]
        omega
      · obtain ⟨hne, hlength, index, failure, hindex, hpath⟩ := ih hrest
        exact ⟨hne, hlength, index, failure, Nat.le_of_succ_le hindex, hpath⟩
    | succ room => exact ih h

theorem fourDigits_inj {n m : Nat} (h : fourDigits n = fourDigits m) : n = m := by
  have hdigits := congrArg (Nat.ofDigitChars 10 · 0) (String.ofList_injective h)
  simpa [List.leftpad, Nat.ofDigitChars_append, Nat.ofDigitChars_replicate_zero] using hdigits

theorem filename_toList (jobId : String) (config : DlqConfig) (index : Nat) :
    (DeadLetterQueue.filename jobId config index).toList =
      jobId.toList ++ '_' :: ((fourDigits index).toList ++ '.' :: config.format.extension.toList) := by
  simp [filename]

theorem getLast?_pathOf (index : Nat) (failure : Failure T) :
    (pathOf jobId config index failure).getLast? =
      some (DeadLetterQueue.filename jobId config index) :=
  List.getLast?_concat

theorem pathOf_inj {index index' : Nat} {failure failure' : Failure T}
    (h : pathOf jobId config index failure = pathOf jobId config index' failure') :
    index = index' := by
  have hname := congrArg List.getLast? h
  rw [getLast?_pathOf, getLast?_pathOf] at hname
  have hchars := congrArg String.toList (Option.some.inj hname)
  rw [filename_toList, filename_toList] at hchars
  have htail := List.cons.inj (List.append_cancel_left hchars)
  exact fourDigits_inj (String.toList_injective (List.append_cancel_right htail.2))

theorem nodup_filesFrom (hmax : 0 < config.maxRowsPerFile) (room fileIndex : Nat)
    (failures : List (Failure T)) :
    ((filesFrom jobId config room fileIndex failures).map (·.1)).Nodup := by
  induction failures generalizing room fileIndex with
  | nil => exact List.nodup_nil
  | cons failure failures ih =>
    cases room with
    | zero =>
      rw [filesFrom, List.map_cons, List.nodup_cons]
      refine ⟨fun hmem => ?_, ih _ _⟩
      obtain ⟨file, hfile, hpath⟩ := List.mem_map.mp hmem
      obtain ⟨-, -, index, failure', hindex, hpath'⟩ := mem_filesFrom hmax hfile
      have heq := pathOf_inj (hpath'.symm.trans hpath)
      omega
    | succ room => exact ih _ _

theorem nodup_files_iff (hmax : 0 < config.maxRowsPerFile) (instances : List (List (Failure T))) :
    ((instances.flatMap (filesOf jobId config)).map (·.1)).Nodup ↔ Apart jobId config instances := by
  rw [List.map_flatMap, List.nodup_flatMap, Apart]
  exact and_iff_right fun failures _ => nodup_filesFrom hmax 0 0 failures

/-! ## Reading -/

def readBack (format : DlqFormat) (content : Content) : Content :=
  match format with
  | .csv => { content with rowData := splitFields (joinFields content.rowData) }
  | _ => content

theorem splitFields_joinFields_iff (fields : List String) :
    splitFields (joinFields fields) = fields ↔
      fields ≠ [] ∧ ∀ field ∈ fields, '|' ∉ field.toList := by
  rw [splitFields, joinFields, String.toList_ofList]
  constructor
  · intro h
    constructor
    · rintro rfl
      exact absurd (List.map_eq_nil_iff.mp h) (List.splitOn_ne_nil _ _)
    · intro field hfield
      rw [← h] at hfield
      obtain ⟨part, hpart, rfl⟩ := List.mem_map.mp hfield
      rw [String.toList_ofList]
      exact not_mem_of_mem_splitOn hpart
  · rintro ⟨hne, hfree⟩
    rw [List.splitOn_intercalate '|' (List.forall_mem_map.mpr hfree) (by simpa using hne),
      List.map_map]
    exact (List.map_congr_left fun field _ => String.ofList_toList).trans (List.map_id _)

theorem splitFields_idem (text : String) :
    splitFields (joinFields (splitFields text)) = splitFields text := by
  rw [joinFields, splitFields, splitFields, List.map_map]
  have htoList : String.toList ∘ String.ofList = id := funext fun chars => String.toList_ofList
  rw [htoList, List.map_id, String.toList_ofList, List.intercalate_splitOn]

theorem parseCount_toString (n : UInt64) : DlqReader.parseCount (toString n.toNat) = n := by
  have hlt : n.toNat < 2 ^ 64 := n.toNat_lt
  rw [DlqReader.parseCount, Nat.toString_eq_repr, Nat.toList_repr,
    parseUnsigned_toDigits (Nat.le_sub_one_of_lt hlt)]
  exact UInt64.ofNat_toNat

omit [Timestamp T] in
theorem content_written (jobId : String) (config : DlqConfig) (failure : Failure T) :
    (written jobId config failure).content = failure.content := by
  unfold written withStackTrace
  split_ifs <;> rfl

theorem readCsvRecord_csvRecord (now : T) (row : FailedRow T) :
    ∃ row' : FailedRow T, DlqReader.readCsvRecord now row.csvRecord = some row' ∧
      row'.content = readBack .csv row.content := by
  refine ⟨_, rfl, ?_⟩
  simp only [content, parseCount_toString]
  rfl

variable (failures : List (Failure T))

theorem appendRows_csv (records : List (List String)) :
    appendRows jobId config failures (.csv records : DlqFile F) =
      .csv (records ++ failures.map fun failure => (written jobId config failure).csvRecord) := by
  induction failures generalizing records with
  | nil => rw [List.map_nil, List.append_nil]; rfl
  | cons failure failures ih =>
    rw [List.map_cons, List.append_cons]
    exact ih _

theorem appendRows_lines (values : List (Value F)) :
    appendRows jobId config failures (.lines values : DlqFile F) =
      .lines (values ++ failures.map fun failure =>
        FailedRow.serde.toValue (written jobId config failure)) := by
  induction failures generalizing values with
  | nil => rw [List.map_nil, List.append_nil]; rfl
  | cons failure failures ih =>
    rw [List.map_cons, List.append_cons]
    exact ih _

theorem fromValue_toValue (row : FailedRow T) :
    ∃ row' : FailedRow T,
      FailedRow.serde.fromValue (FailedRow.serde.toValue row : Value F) = some row' ∧
        row'.content = row.content := by
  have hread := (serde (F := F)).fromValue_reread id row
    (by simp [serde, record, optionalText, Serde.dateTime])
  rw [(Value.reread_eq_self_iff id _).mpr fun _ _ => rfl] at hread
  refine ⟨_, hread, ?_⟩
  simp [serde, record, content, optionalText,
    Serde.dateTime]

theorem readFile_fileOf (path : Path) (now : T) (hformat : config.format ≠ .json)
    (failures : List (Failure T)) :
    ∃ rows : List (FailedRow T),
      (⟨path, config.format, now⟩ : DlqReader T).readFile
          (fileOf jobId config failures : DlqFile F) = some rows ∧
        rows.map FailedRow.content =
          failures.map fun failure => readBack config.format failure.content := by
  cases hcase : config.format with
  | csv =>
    rw [fileOf, hcase, DlqFile.new, appendRows_csv]
    refine ⟨(failures.map fun failure => (written jobId config failure).csvRecord).filterMap
      (DlqReader.readCsvRecord now), rfl, ?_⟩
    induction failures with
    | nil => rfl
    | cons failure failures ih =>
      obtain ⟨row, hread, hcontent⟩ := readCsvRecord_csvRecord now (written jobId config failure)
      rw [List.map_cons, List.map_cons, List.filterMap_cons, hread]
      dsimp only
      rw [List.map_cons, ih, hcontent, content_written]
  | json => exact absurd hcase hformat
  | jsonLines =>
    rw [fileOf, hcase, DlqFile.new, appendRows_lines, List.nil_append]
    simp only [DlqReader.readFile]
    induction failures with
    | nil => exact ⟨[], rfl, rfl⟩
    | cons failure failures ih =>
      obtain ⟨rows, hrows, hcontents⟩ := ih
      obtain ⟨row, hread, hcontent⟩ := fromValue_toValue (F := F) (written jobId config failure)
      refine ⟨row :: rows, ?_, ?_⟩
      · rw [List.map_cons, List.mapM_cons, hread, hrows]
        rfl
      · rw [List.map_cons, List.map_cons, hcontents, hcontent, content_written]
        rfl

theorem readFile_json (path : Path) (now : T) (hformat : config.format = .json)
    (failures : List (Failure T)) :
    (⟨path, .json, now⟩ : DlqReader T).readFile (fileOf jobId config failures : DlqFile F) =
      none := by
  rw [fileOf, hformat, DlqFile.new, appendRows_lines, List.nil_append]
  match failures with
  | [] => rfl
  | [_] => rfl
  | _ :: _ :: _ => rfl

theorem rowCount_fileOf :
    (fileOf jobId config failures : DlqFile F).rowCount = failures.length := by
  rw [fileOf]
  cases config.format with
  | csv => rw [DlqFile.new, appendRows_csv]; exact List.length_map ..
  | json => rw [DlqFile.new, appendRows_lines]; exact List.length_map ..
  | jsonLines => rw [DlqFile.new, appendRows_lines]; exact List.length_map ..

theorem extension_filename (jobId : String) (config : DlqConfig) (index : Nat) :
    extension (DeadLetterQueue.filename jobId config index) = some config.format.extension := by
  have hdot : '.' ∉ config.format.extension.toList := by
    cases config.format <;> decide
  have hsplit := rsplitOnce_append hdot
    (jobId.toList ++ '_' :: (fourDigits index).toList)
  rw [List.append_assoc, List.cons_append] at hsplit
  rw [extension, filename_toList, hsplit]
  dsimp only
  rw [if_neg (by simp), String.ofList_toList]

theorem new_pathOf (now : T) (index : Nat) (failure : Failure T) :
    DlqReader.new (pathOf jobId config index failure) now =
      some ⟨pathOf jobId config index failure, config.format, now⟩ := by
  rw [DlqReader.new, getLast?_pathOf, Option.bind_some, extension_filename]
  cases config.format <;> rfl

theorem readFiles_spec (now : T) (disk : Disk F) (paths : List Path)
    (rowsOf : Path → List (Failure T)) (back : Failure T → Content)
    (h : ∀ path ∈ paths, ∃ rows, (DlqReader.new path now).bind (·.readAll disk) = some rows ∧
      rows.map FailedRow.content = (rowsOf path).map back) :
    ∃ rows, readFiles now disk paths = some rows ∧
      rows.map FailedRow.content = (paths.flatMap rowsOf).map back := by
  induction paths with
  | nil => exact ⟨[], rfl, rfl⟩
  | cons path paths ih =>
    obtain ⟨⟨first, hfirst, hcontent⟩, hrest⟩ := List.forall_mem_cons.mp h
    obtain ⟨rows, hrows, hcontents⟩ := ih hrest
    obtain ⟨rest, hmap, rfl⟩ := Option.map_eq_some_iff.mp hrows
    refine ⟨first ++ rest.flatten, ?_, ?_⟩
    · rw [readFiles, List.mapM_cons, hfirst, hmap]
      rfl
    · rw [List.map_append, hcontent, hcontents, List.flatMap_cons, List.map_append]

theorem readFiles_cons_none {now : T} {disk : Disk F} {path : Path} (paths : List Path)
    (h : (DlqReader.new path now).bind (·.readAll disk) = none) :
    readFiles now disk (path :: paths) = none := by
  rw [readFiles, List.mapM_cons, h]
  rfl

/-! ## All instances -/

variable {instances : List (List (Failure T))}

theorem flatMap_files (jobId : String) (config : DlqConfig) (instances : List (List (Failure T))) :
    (instances.flatMap (filesOf jobId config)).flatMap (·.2) = instances.flatten := by
  rw [List.flatMap_assoc, ← List.flatMap_id]
  refine List.flatMap_congr fun failures _ => ?_
  exact flatMap_filesFrom 0 0 failures

theorem mem_files (hmax : 0 < config.maxRowsPerFile) {file : Path × List (Failure T)}
    (h : file ∈ instances.flatMap (filesOf jobId config)) :
    file.2 ≠ [] ∧ file.2.length ≤ config.maxRowsPerFile ∧
      ∃ (index : Nat) (first : Failure T), file.1 = pathOf jobId config index first := by
  obtain ⟨failures, -, hfile⟩ := List.mem_flatMap.mp h
  obtain ⟨hne, hlength, index, first, -, hpath⟩ := mem_filesFrom hmax hfile
  exact ⟨hne, hlength, index, first, hpath⟩

theorem read_named (hmax : 0 < config.maxRowsPerFile) (now : T) (disk : Disk F) {path : Path}
    (h : path ∈ (instances.flatMap (filesOf jobId config)).map (·.1)) :
    (DlqReader.new path now).bind (·.readAll (runInstances jobId config disk instances).1) =
      (⟨path, config.format, now⟩ : DlqReader T).readFile (fileOf jobId config
        (lastRows (instances.flatMap (filesOf jobId config)) path) : DlqFile F) := by
  obtain ⟨-, -, index, first, hpath⟩ := mem_files hmax (lastRows_mem h)
  have hget := (runInstances_spec jobId hmax disk instances).2 path
  rw [if_pos h] at hget
  have hpath' : path = pathOf jobId config index first := hpath
  rw [hpath', new_pathOf, Option.bind_some, DlqReader.readAll, ← hpath', hget, Option.bind_some]

omit [Timestamp T] in
theorem holds_iff {format : DlqFormat} (hformat : format ≠ .json) (failure : Failure T) :
    Holds format failure ↔ readBack format failure.content = failure.content := by
  cases format with
  | csv =>
    refine (splitFields_joinFields_iff failure.rowData).symm.trans ⟨fun h => ?_, fun h => ?_⟩
    · exact congrArg (fun data => { failure.content with rowData := data }) h
    · exact congrArg Content.rowData h
  | json => exact absurd rfl hformat
  | jsonLines => exact iff_of_true trivial rfl

theorem readBack_readBack (format : DlqFormat) (content : Content) :
    readBack format (readBack format content) = readBack format content := by
  cases format with
  | csv => simp only [readBack, splitFields_idem]
  | json => rfl
  | jsonLines => rfl

theorem rowCount_le (hmax : 0 < config.maxRowsPerFile) (disk : Disk F) :
    ∀ path ∈ (runInstances jobId config disk instances).2,
      ∀ file ∈ (runInstances jobId config disk instances).1.get path,
        file.rowCount ≤ config.maxRowsPerFile := by
  intro path hpath file hfile
  obtain ⟨hnames, hget⟩ := runInstances_spec jobId hmax disk instances
  rw [hnames] at hpath
  rw [hget, if_pos hpath] at hfile
  cases hfile
  rw [rowCount_fileOf]
  exact (mem_files hmax (lastRows_mem hpath)).2.1

theorem givesBack_of_lines (hmax : 0 < config.maxRowsPerFile) (hformat : config.format ≠ .json)
    (now : T) (disk : Disk F) :
    GivesBack jobId config now disk instances ↔
      ((((instances.flatMap (filesOf jobId config)).map (·.1)).dedup.flatMap
          (lastRows (instances.flatMap (filesOf jobId config)))).map
            (fun failure => readBack config.format failure.content)).Perm
        (instances.flatten.map Failure.content) := by
  obtain ⟨rows, hrows, hcontents⟩ := readFiles_spec now
    (runInstances jobId config disk instances).1
    ((instances.flatMap (filesOf jobId config)).map (·.1)).dedup
    (lastRows (instances.flatMap (filesOf jobId config)))
    (fun failure => readBack config.format failure.content) fun path hpath => by
      rw [read_named hmax now disk (List.mem_dedup.mp hpath)]
      exact readFile_fileOf path now hformat _
  rw [GivesBack]
  rw [and_iff_left (rowCount_le hmax disk), (runInstances_spec jobId hmax disk instances).1, hrows, ← hcontents]
  constructor
  · rintro ⟨rows', heq, hperm⟩
    cases heq
    exact hperm
  · intro hperm
    exact ⟨rows, rfl, hperm⟩

/-- For every format, file length, configuration of the directories and sequence of instances: the
named files give back every row exactly once exactly when the format holds all rows and no two
instances open a file of one name. -/
theorem given_back_iff (jobId : String) (config : DlqConfig) (now : T) (disk : Disk F)
    (instances : List (List (Failure T))) (hmax : 0 < config.maxRowsPerFile) :
    GivesBack jobId config now disk instances ↔
      (∀ failures ∈ instances, ∀ failure ∈ failures, Holds config.format failure) ∧
        Apart jobId config instances := by
  have hne : ∀ file ∈ instances.flatMap (filesOf jobId config), file.2 ≠ [] :=
    fun file hfile => (mem_files hmax hfile).1
  obtain ⟨hall, hless⟩ := flatMap_lastRows hne
  rw [flatMap_files] at hall hless
  rw [← nodup_files_iff hmax, ← List.forall_mem_flatten]
  by_cases hformat : config.format = .json
  · rw [← flatMap_files jobId config, GivesBack]
    rw [and_iff_left (rowCount_le hmax disk), (runInstances_spec jobId hmax disk instances).1]
    cases hfiles : instances.flatMap (filesOf jobId config) with
    | nil =>
      have hflat : instances.flatten = [] := by
        rw [← flatMap_files jobId config, hfiles]
        rfl
      rw [hflat]
      exact iff_of_true ⟨[], rfl, List.Perm.refl _⟩ ⟨nofun, List.nodup_nil⟩
    | cons file files =>
      have hunreadable : readFiles now (runInstances jobId config disk instances).1
          (((file :: files).map (·.1)).dedup) = none := by
        cases hpaths : ((file :: files).map (·.1)).dedup with
        | nil => exact absurd hpaths (by simp)
        | cons path paths =>
          have hpath : path ∈ (instances.flatMap (filesOf jobId config)).map (·.1) := by
            rw [hfiles, ← List.mem_dedup, hpaths]
            exact List.mem_cons_self ..
          refine readFiles_cons_none paths ?_
          rw [read_named hmax now disk hpath, hformat]
          exact readFile_json path now hformat _
      refine iff_of_false (fun h => ?_) fun h => ?_
      · obtain ⟨rows, hrows, -⟩ := h
        rw [hunreadable] at hrows
        exact nomatch hrows
      · obtain ⟨failure, hfailure⟩ := List.exists_mem_of_ne_nil _ (hne file (hfiles ▸ List.mem_cons_self ..))
        have hholds := h.1 failure (List.mem_flatMap.mpr ⟨file, List.mem_cons_self .., hfailure⟩)
        rw [hformat] at hholds
        exact hholds
  · rw [givesBack_of_lines hmax hformat]
    constructor
    · intro hperm
      have hnodup : ((instances.flatMap (filesOf jobId config)).map (·.1)).Nodup := by
        by_contra hnot
        have hlength := hperm.length_eq
        rw [List.length_map, List.length_map] at hlength
        exact absurd hlength (hless hnot).ne
      refine ⟨fun failure hfailure => (holds_iff hformat failure).mpr ?_, hnodup⟩
      -- what was read is not changed by reading it again
      have hmem := hperm.mem_iff.mpr (List.mem_map_of_mem (f := Failure.content) hfailure)
      obtain ⟨source, -, hsource⟩ := List.mem_map.mp hmem
      rw [← hsource, readBack_readBack]
    · rintro ⟨hholds, hnodup⟩
      rw [hall hnodup]
      refine List.Perm.of_eq (List.map_congr_left fun failure hfailure => ?_)
      exact (holds_iff hformat failure).mp (hholds failure hfailure)

/-- A clock that stands still. -/
inductive Noon where
  | noon

instance : Timestamp Noon where
  format _ := "2025-01-15T12:00:00+00:00"
  parse text := if text = "2025-01-15T12:00:00+00:00" then some .noon else none
  parse_format _ := if_pos rfl
  date _ := "2025-01-15"

def timeout (rowNumber : UInt64) : Failure Noon where
  rowNumber
  rowData := ["a", "b"]
  errorCategory := .Timeout
  errorMessage := "Timeout"
  retryCount := 0
  now := .noon

/-- One row a file, and a resumed job whose rows are of another category. -/
theorem timeouts_given_back :
    GivesBack "job" { DlqConfig.default with maxRowsPerFile := 1 } Noon.noon (.empty : Disk Unit)
      [[timeout 1, timeout 2], [{ timeout 3 with errorCategory := .DataFormat }]] :=
  (given_back_iff "job" _ Noon.noon .empty _ (by decide)).mpr
    ⟨fun _ _ _ _ => trivial, List.pairwise_pair.mpr (List.disjoint_left.mpr (by decide))⟩

/-- A resumed job truncates the first file of the day. -/
theorem resumed_job_overwrites :
    ¬ ∀ (jobId : String) (config : DlqConfig) (disk : Disk Unit) (instances : List (List (Failure Noon))),
      0 < config.maxRowsPerFile → GivesBack jobId config Noon.noon disk instances := by
  intro h
  have hback := h "job" .default .empty [[timeout 1], [timeout 2]] (by decide)
  have hlength := ((givesBack_of_lines (by decide) (by decide) Noon.noon .empty).mp hback).length_eq
  rw [List.length_map, List.length_map, ← flatMap_files "job" .default] at hlength
  refine absurd hlength (Nat.ne_of_lt ((flatMap_lastRows fun file hfile => ?_).2 fun hnodup => ?_))
  · exact (mem_files (by decide) hfile).1
  · exact (List.nodup_cons.mp hnodup).1 (List.mem_singleton.mpr rfl)

end Arcxa.Loader
