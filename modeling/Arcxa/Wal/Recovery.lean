import Arcxa.Wal.System

/-!
# Crash recovery (`storage/wal/recovery.rs`)

`RecoveryManager::recover` finds the segment files, validates them, reads their
entries back in file order, repairs what it may repair, and replays the transaction
markers. The reader of a segment is `readEntryAt`: it takes the eight bytes at its
position for the size of the entry that starts there.

Those eight bytes are not a size. An entry starts with its header and the header with
the LSN, so the reader looks for the entry with LSN `n` in the `n` bytes from its start
and takes LSN 0 for the end of the segment. The headline
`recoversExactly_iff_returned_nil` says what is left of the recovery contract: it is
met exactly by the logs in which nothing was written.
-/

namespace Arcxa.Wal

open FileWal

variable {E : Type}

/-! ## Reports -/

structure RecoveryResult (E : Type) where
  recoveredEntries : List (WalEntry E)
  lastValidLsn : Nat
  corruptedEntries : List (Nat × WalError)

structure ValidationReport where
  validSegments : Nat
  corruptedSegments : List String
  totalEntries : Nat
  validEntries : Nat
  checksumFailures : List Nat
  deriving DecidableEq, Repr

structure RepairReport where
  repairedSegments : List String
  unrecoverableSegments : List String
  dataLoss : Bool
  recoveredBytes : Nat
  deriving DecidableEq, Repr

inductive TransactionRecoveryStatus where
  | Active | Prepared | Committed | Aborted
  deriving DecidableEq, Repr

inductive RecoveryDecision where
  | Commit | Abort | Replay | Skip
  deriving DecidableEq, Repr

structure TransactionRecovery where
  txId : Nat
  status : TransactionRecoveryStatus
  entries : List Nat
  decision : RecoveryDecision
  deriving DecidableEq, Repr

structure RecoveryReport (E : Type) where
  result : RecoveryResult E
  validation : ValidationReport
  repair : Option RepairReport
  checkpointRestored : Option Nat
  transactionsRecovered : List TransactionRecovery

namespace Recovery

/-! ## Segment files -/

/-- A segment file with its contents, which the source opens by path. -/
structure SegmentFile where
  path : String
  id : Nat
  contents : Bytes

/-- `format!("wal_{:08}.log", id)`. -/
def segmentFileName (id : Nat) : List Char :=
  let digits := Nat.toDigits 10 id
  "wal_".toList ++ List.replicate (8 - digits.length) '0' ++ digits ++ ".log".toList

/-- `u64::from_str_radix(s, 10)` on a string of digits. -/
def parseDigits (digits : List Char) : Option Nat :=
  if digits.all Char.isDigit then
    some (digits.foldl (fun n c => 10 * n + (c.toNat - '0'.toNat)) 0)
  else none

/-- One directory entry of `find_segments`: the id is read from the eight characters after
the `wal_` of the file name. -/
def segmentFile (file : (_ : Nat) × Bytes) : Option SegmentFile :=
  let name := segmentFileName file.1
  (parseDigits ((name.drop 4).take 8)).map
    (fun id => { path := String.ofList name, id, contents := file.2 })

/-- `find_segments`. -/
def findSegments (disk : Disk) : List SegmentFile :=
  (disk.entries.filterMap segmentFile).mergeSort (fun a b => a.id ≤ b.id)

variable (fmt : Format E)

/-! ## Reading a segment -/

/-- `1024 * 1024 * 10`. -/
def maxEntrySize : Nat := 1024 * 1024 * 10

/-- `read_entry_at`. -/
def readEntryAt (file : Bytes) (position : Nat) : Except WalError (Option (WalEntry E)) :=
  let sizeBuf := FileWal.slice file position 8
  if sizeBuf.length < 8 then .ok none
  else
    let entrySize := Codec.leValue sizeBuf
    if entrySize = 0 ∨ maxEntrySize < entrySize then .ok none
    else
      let entryBuf := FileWal.slice file position entrySize
      if entryBuf.length < entrySize then .error .Io
      else
        match WalEntry.fromBytes fmt entryBuf with
        | .ok entry => .ok (some entry)
        | .error err => .error (.Serialization err)

/-- `validate_entry`. Serialization recomputes the header, so that zeroing the checksum
first makes no difference; the result covers the whole entry. -/
def validateEntry (entry : WalEntry E) : Bool :=
  fmt.crc32 (entry.toBytes fmt) = entry.header.checksum

def entryStartsAt (file : Bytes) (position : Nat) : Bool :=
  match readEntryAt fmt file position with
  | .ok (some _) => true
  | _ => false

/-- `find_next_entry`, which searches the next megabyte. -/
def findNextEntry (file : Bytes) (startPosition : Nat) : Option Nat :=
  (List.range' (startPosition + 1) (1024 * 1024 - 1)).find? (entryStartsAt fmt file)

variable {fmt} in
theorem lt_of_findNextEntry {file : Bytes} {position next : Nat}
    (h : findNextEntry fmt file position = some next) : position < next := by
  have hmem := List.mem_of_find?_eq_some h
  rw [List.mem_range'_1] at hmem
  omega

theorem sizeBytes_pos (e : WalEntry E) : 0 < e.sizeBytes := by
  unfold WalEntry.sizeBytes headerSize
  omega

/-- The loop of `DefaultRecoveryStrategy::recover` over one segment. -/
def recoverSegment (tolerance : CorruptionTolerance) (file : Bytes) (position : Nat)
    (acc : RecoveryResult E) : RecoveryResult E :=
  if position < file.length then
    match readEntryAt fmt file position with
    | .ok (some entry) =>
      if validateEntry fmt entry then
        recoverSegment tolerance file (position + entry.sizeBytes)
          { acc with
            lastValidLsn := entry.header.lsn
            recoveredEntries := acc.recoveredEntries ++ [entry] }
      else
        let acc :=
          { acc with
            corruptedEntries := acc.corruptedEntries ++
              [(entry.header.lsn, .Corruption entry.header.lsn "Entry validation failed" true)] }
        if tolerance = .TruncateAtCorruption then acc
        else recoverSegment tolerance file (position + entry.sizeBytes) acc
    | .ok none => acc
    | .error _ =>
      match _hnext : findNextEntry fmt file position with
      | some next => recoverSegment tolerance file next acc
      | none => acc
  else acc
termination_by file.length - position
decreasing_by
  · have := sizeBytes_pos entry
    omega
  · have := sizeBytes_pos entry
    omega
  · have := lt_of_findNextEntry _hnext
    omega

/-- `DefaultRecoveryStrategy::recover`. -/
def recoverSegments (tolerance : CorruptionTolerance) (segments : List SegmentFile) :
    RecoveryResult E :=
  segments.foldl (fun acc segment => recoverSegment fmt tolerance segment.contents 0 acc)
    { recoveredEntries := [], lastValidLsn := 0, corruptedEntries := [] }

/-- The loop of `DefaultRecoveryStrategy::validate` over one segment; the flag says whether
the segment is still valid. -/
def validateSegment (file : Bytes) (position : Nat) (valid : Bool) (report : ValidationReport) :
    Bool × ValidationReport :=
  if position < file.length then
    match readEntryAt fmt file position with
    | .ok (some entry) =>
      let report := { report with totalEntries := report.totalEntries + 1 }
      if validateEntry fmt entry then
        validateSegment file (position + entry.sizeBytes) valid
          { report with validEntries := report.validEntries + 1 }
      else
        validateSegment file (position + entry.sizeBytes) false
          { report with checksumFailures := report.checksumFailures ++ [entry.header.lsn] }
    | .ok none => (valid, report)
    | .error _ => (false, report)
  else (valid, report)
termination_by file.length - position
decreasing_by
  · have := sizeBytes_pos entry
    omega
  · have := sizeBytes_pos entry
    omega

/-- `DefaultRecoveryStrategy::validate`. -/
def validate (segments : List SegmentFile) : ValidationReport :=
  segments.foldl
    (fun report segment =>
      match validateSegment fmt segment.contents 0 true report with
      | (true, report) => { report with validSegments := report.validSegments + 1 }
      | (false, report) =>
        { report with corruptedSegments := report.corruptedSegments ++ [segment.path] })
    { validSegments := 0, corruptedSegments := [], totalEntries := 0, validEntries := 0,
      checksumFailures := [] }

/-- The loop of `repair_segment`: the contents of the repair file. -/
def repairSegment (file : Bytes) (position : Nat) (output : Bytes) : Bytes :=
  if position < file.length then
    let skip : Unit → Bytes := fun _ =>
      match _hnext : findNextEntry fmt file position with
      | some next => repairSegment file next output
      | none => output
    match readEntryAt fmt file position with
    | .ok (some entry) =>
      if validateEntry fmt entry then
        repairSegment file (position + entry.sizeBytes) (output ++ entry.toBytes fmt)
      else skip ()
    | _ => skip ()
  else output
termination_by file.length - position
decreasing_by
  · have := lt_of_findNextEntry _hnext
    omega
  · have := sizeBytes_pos entry
    omega

/-- `DefaultRecoveryStrategy::repair`, with the files it replaces. -/
def repair (segments : List SegmentFile) : RepairReport × List SegmentFile :=
  let repaired := segments.map (fun segment =>
    { segment with contents := repairSegment fmt segment.contents 0 [] })
  ({ repairedSegments := repaired.map (·.path)
     unrecoverableSegments := []
     dataLoss := false
     recoveredBytes := (repaired.map (·.contents.length)).sum }, repaired)

/-! ## Checkpoints and transactions -/

/-- `find_last_checkpoint`. -/
def findLastCheckpoint (entries : List (WalEntry E)) : Option Nat :=
  (entries.reverse.find? (fun e => e.header.entryType = .Checkpoint)).map (fun e => e.header.lsn)

/-- The local variables of `recover_transactions`. -/
structure Replay where
  transactions : AList (fun _ : Nat => TransactionRecovery)
  committedTxs : List Nat
  abortedTxs : List Nat

/-- `if let Some(tx) = transactions.get_mut(tx_id) { .. }`. -/
def Replay.update (r : Replay) (txId : Nat) (f : TransactionRecovery → TransactionRecovery) :
    Replay :=
  match r.transactions.lookup txId with
  | some tx => { r with transactions := r.transactions.insert txId (f tx) }
  | none => r

def Replay.mark (r : Replay) : TransactionOp → Replay
  | .Begin txId _ =>
    { r with
      transactions := r.transactions.insert txId
        { txId, status := .Active, entries := [], decision := .Abort } }
  | .Prepare txId _ => r.update txId (fun tx => { tx with status := .Prepared })
  | .Commit txId _ =>
    { r with committedTxs := r.committedTxs ++ [txId] }.update txId
      (fun tx => { tx with status := .Committed, decision := .Skip })
  | .Abort txId _ =>
    { r with abortedTxs := r.abortedTxs ++ [txId] }.update txId
      (fun tx => { tx with status := .Aborted, decision := .Skip })

def Replay.payload (r : Replay) (e : WalEntry E) : Replay :=
  match e.payload with
  | .Transaction op => r.mark op
  | _ => r

def Replay.track (r : Replay) (e : WalEntry E) : Replay :=
  match e.transaction with
  | some ctx => r.update ctx.txId (fun tx => { tx with entries := tx.entries ++ [e.header.lsn] })
  | none => r

def Replay.entry (r : Replay) (e : WalEntry E) : Replay := (r.payload e).track e

def Replay.decide (r : Replay) (tx : TransactionRecovery) : TransactionRecovery :=
  if tx.txId ∉ r.committedTxs ∧ tx.txId ∉ r.abortedTxs then
    match tx.status with
    | .Prepared => { tx with decision := .Abort }
    | .Active => { tx with decision := .Abort }
    | _ => tx
  else tx

/-- `recover_transactions`. The source's map has no order of its own. -/
def recoverTransactions (entries : List (WalEntry E)) : List TransactionRecovery :=
  let r := entries.foldl Replay.entry { transactions := ∅, committedTxs := [], abortedTxs := [] }
  r.transactions.entries.map (fun p => r.decide p.2)

/-! ## The recovery manager -/

/-- The LSN that `recover` names when it refuses a corrupted log. -/
def firstCorruptedLsn (result : RecoveryResult E) : Nat :=
  (result.corruptedEntries.head?.map (·.1)).getD 0

/-- `RecoveryManager::recover`. -/
def recover (config : WalConfig) (disk : Disk) : Except WalError (RecoveryReport E) :=
  let segments := findSegments disk
  let validation := validate fmt segments
  let result := recoverSegments fmt config.corruptionTolerance segments
  let report (repair : Option RepairReport) : RecoveryReport E :=
    { result, validation, repair
      checkpointRestored := findLastCheckpoint result.recoveredEntries
      transactionsRecovered := recoverTransactions result.recoveredEntries }
  if validation.corruptedSegments = [] then .ok (report none)
  else
    match config.corruptionTolerance with
    | .FailOnCorruption => .error (.UnrecoverableCorruption (firstCorruptedLsn result))
    | .AttemptRepair => .ok (report (some (repair fmt segments).1))
    | _ => .ok (report none)

/-! ## What the reader can return -/

variable {fmt}

/-- **The reader takes the LSN for the size.** An entry it returns has its size as LSN, and
that is never zero. -/
theorem lsn_pos_of_readEntryAt {file : Bytes} {position : Nat} {e : WalEntry E}
    (h : readEntryAt fmt file position = .ok (some e)) : 0 < e.header.lsn := by
  unfold readEntryAt at h
  dsimp only at h
  split at h
  · cases h
  split at h
  · cases h
  next hsize =>
    split at h
    · cases h
    split at h
    next entry hread =>
      cases h
      have hlong := WalEntry.length_of_fromBytes fmt hread
      have hlsn := WalEntry.lsn_of_fromBytes fmt hread
      -- the slice has at least a header in it, so its first eight bytes are the size field
      have height : 8 ≤ Codec.leValue (slice file position 8) := by
        unfold slice headerSize at hlong
        rw [List.length_take] at hlong
        unfold slice
        omega
      have hfront : (slice file position
          (Codec.leValue (slice file position 8))).take 8 =
          slice file position 8 := by
        rw [slice, List.take_take, min_eq_left height]
        rfl
      rw [hlsn, hfront]
      omega
    · cases h

variable (tolerance : CorruptionTolerance)

theorem lsn_pos_of_recoverSegment (file : Bytes) (position : Nat) (acc : RecoveryResult E)
    (hacc : ∀ e ∈ acc.recoveredEntries, 0 < e.header.lsn) :
    ∀ e ∈ (recoverSegment fmt tolerance file position acc).recoveredEntries,
      0 < e.header.lsn := by
  fun_induction recoverSegment fmt tolerance file position acc with
  | case1 position acc hpos entry hread hvalid ih =>
    refine ih ?_
    intro e he
    rcases List.mem_append.mp he with hold | hnew
    · exact hacc e hold
    · cases List.mem_singleton.mp hnew
      exact lsn_pos_of_readEntryAt hread
  | case2 => exact hacc
  | case3 position acc hpos entry hread hvalid acc' htol ih => exact ih hacc
  | case4 => exact hacc
  | case5 position acc hpos err hread next hnext ih => exact ih hacc
  | case6 => exact hacc
  | case7 => exact hacc

theorem lsn_pos_of_recoverSegments (segments : List SegmentFile) :
    ∀ e ∈ (recoverSegments fmt tolerance segments).recoveredEntries, 0 < e.header.lsn := by
  suffices hgen : ∀ acc : RecoveryResult E, (∀ e ∈ acc.recoveredEntries, 0 < e.header.lsn) →
      ∀ e ∈ (segments.foldl (fun acc segment =>
        recoverSegment fmt tolerance segment.contents 0 acc) acc).recoveredEntries,
        0 < e.header.lsn by
    exact hgen _ (by simp)
  induction segments with
  | nil => exact fun acc hacc => hacc
  | cons segment segments ih =>
    intro acc hacc
    exact ih _ (lsn_pos_of_recoverSegment tolerance segment.contents 0 acc hacc)

variable {config : WalConfig} {disk : Disk}

theorem result_of_recover {report : RecoveryReport E} (h : recover fmt config disk = .ok report) :
    report.result = recoverSegments fmt config.corruptionTolerance (findSegments disk) := by
  unfold recover at h
  dsimp only at h
  split at h
  · cases h
    rfl
  split at h
  · cases h
  · cases h
    rfl
  · cases h
    rfl

/-! ## Recovery of preallocated files -/

def ZeroDisk (disk : Disk) : Prop :=
  ∀ id file, disk.lookup id = some file → file = List.replicate file.length 0

theorem readEntryAt_zero (n position : Nat) :
    readEntryAt fmt (List.replicate n 0) position = .ok none := by
  have hslice : slice (List.replicate n (0 : UInt8)) position 8 =
      List.replicate (min 8 (n - position)) 0 := by
    simp [slice]
  simp only [readEntryAt, hslice, Codec.leValue_replicate_zero]
  simp

theorem recoverSegment_zero (n : Nat) (acc : RecoveryResult E) :
    recoverSegment fmt tolerance (List.replicate n 0) 0 acc = acc := by
  unfold recoverSegment
  simp [readEntryAt_zero]

theorem validateSegment_zero (n : Nat) (valid : Bool) (report : ValidationReport) :
    validateSegment fmt (List.replicate n 0) 0 valid report = (valid, report) := by
  unfold validateSegment
  simp [readEntryAt_zero]

theorem contents_of_findSegments (hzero : ZeroDisk disk) :
    ∀ segment ∈ findSegments disk,
      segment.contents = List.replicate segment.contents.length 0 := by
  intro segment hmem
  unfold findSegments at hmem
  rw [List.mem_mergeSort, List.mem_filterMap] at hmem
  obtain ⟨p, hp, hfile⟩ := hmem
  obtain ⟨id, -, rfl⟩ := Option.map_eq_some_iff.mp hfile
  exact hzero p.1 p.2 (AList.mem_lookup_iff.mpr hp)

theorem recoverSegments_zero {segments : List SegmentFile}
    (hzero : ∀ segment ∈ segments, segment.contents = List.replicate segment.contents.length 0) :
    recoverSegments fmt tolerance segments =
      { recoveredEntries := [], lastValidLsn := 0, corruptedEntries := [] } := by
  unfold recoverSegments
  induction segments with
  | nil => rfl
  | cons segment segments ih =>
    rw [List.foldl_cons, hzero segment (by simp), recoverSegment_zero]
    exact ih (fun t ht => hzero t (by simp [ht]))

theorem validate_zero {segments : List SegmentFile}
    (hzero : ∀ segment ∈ segments, segment.contents = List.replicate segment.contents.length 0) :
    (validate fmt segments).corruptedSegments = [] := by
  unfold validate
  generalize hreport : ValidationReport.mk 0 [] 0 0 [] = report
  have hempty : report.corruptedSegments = [] := by rw [← hreport]
  clear hreport
  induction segments generalizing report with
  | nil => exact hempty
  | cons segment segments ih =>
    rw [List.foldl_cons, hzero segment (by simp), validateSegment_zero]
    exact ih (fun t ht => hzero t (by simp [ht])) _ hempty

/-! ## The recovery contract -/

/-- Recovery from the files of `s` gives back what the appends of `s` returned `Ok` for, in
LSN order, finds nothing corrupted and ends at the last LSN. -/
def RecoversExactly (fmt : Format E) (s : System E) : Prop :=
  let appended := s.returned.mergeSort (fun a b => a.header.lsn ≤ b.header.lsn)
  ∃ report, recover fmt s.wal.config s.wal.disk = .ok report ∧
    report.result.recoveredEntries = appended ∧
    report.result.corruptedEntries = [] ∧
    ∀ e, appended.getLast? = some e → report.result.lastValidLsn = e.header.lsn

theorem not_recoversExactly {s : System E} {e : WalEntry E} (he : e ∈ s.returned)
    (hlsn : e.header.lsn = 0) : ¬ RecoversExactly fmt s := by
  rintro ⟨report, hreport, hentries, -, -⟩
  rw [result_of_recover hreport] at hentries
  have hmem : e ∈ s.returned.mergeSort (fun a b => a.header.lsn ≤ b.header.lsn) :=
    List.mem_mergeSort.mpr he
  rw [← hentries] at hmem
  have := lsn_pos_of_recoverSegments _ _ e hmem
  omega

theorem recoversExactly_of_zeroDisk {s : System E} (hret : s.returned = [])
    (hzero : ZeroDisk s.wal.disk) : RecoversExactly fmt s := by
  have hfiles := contents_of_findSegments hzero
  obtain ⟨report, hreport⟩ :
      ∃ report, recover fmt s.wal.config s.wal.disk = .ok report := by
    simp only [recover, validate_zero hfiles, if_true]
    exact ⟨_, rfl⟩
  have hresult := result_of_recover hreport
  rw [recoverSegments_zero _ hfiles] at hresult
  refine ⟨report, hreport, ?_⟩
  rw [hresult, hret]
  simp

/-! ### Nothing reserved, nothing written -/

theorem zeroDisk_createFile (hzero : ZeroDisk disk) (id : Nat) :
    ZeroDisk (FileWal.createFile config disk id) := by
  have hold : (disk.lookup id).getD [] =
      List.replicate ((disk.lookup id).getD []).length 0 := by
    cases hfile : disk.lookup id with
    | none => rfl
    | some file => exact hzero id file hfile
  intro id' file hfile
  by_cases hid : id' = id
  · subst hid
    rw [createFile, AList.lookup_insert, Option.some.injEq] at hfile
    rw [← hfile]
    split
    · -- cutting zeros and padding with zeros leaves zeros
      rw [setLen, hold]
      simp
    · exact hold
  · rw [createFile, AList.lookup_insert_ne hid] at hfile
    exact hzero id' file hfile

theorem zeroDisk_erase (hzero : ZeroDisk disk) (id : Nat) : ZeroDisk (disk.erase id) := by
  intro id' file hfile
  by_cases hid : id' = id
  · subst hid
    rw [AList.lookup_erase] at hfile
    cases hfile
  · rw [AList.lookup_erase_ne hid] at hfile
    exact hzero id' file hfile

/-- As long as no LSN has been handed out, the files hold what preallocation put there. -/
theorem zeroDisk_reaches {s : System E}
    (h : Reaches (System.step fmt) anyStep (System.new config) s) :
    s.wal.currentLsn = 0 → ZeroDisk s.wal.disk := by
  refine h.invariant' (P := fun s => s.wal.currentLsn = 0 → ZeroDisk s.wal.disk) ?_ ?_
  · intro _
    exact zeroDisk_createFile (fun id file hfile => by simp at hfile) 0
  intro s a s' hreach hinv _ hstep hlsn
  have hacc := System.accounted_reaches hreach
  cases a with
  | reserve batch entries available =>
    obtain rfl | rfl := System.step_reserve hstep
    · exact hinv hlsn
    · exact hinv (by dsimp only at hlsn; omega)
  | write i io syncOk =>
    obtain ⟨c, k, wal, hc, -, hw, hres⟩ := System.step_write hstep
    have hwal : s'.wal = wal := by rcases hres with ⟨-, rfl⟩ | rfl <;> rfl
    rw [hwal] at hlsn ⊢
    rw [hw.currentLsn] at hlsn
    -- a call that holds no LSN has no entry to write
    have hnil : c.entries = [] := by
      have := hacc.calls_le c (List.mem_of_getElem? hc)
      exact List.eq_nil_of_length_eq_zero (by omega)
    rw [hw.nil_eq hnil]
    exact hinv hlsn
  | finish i ok =>
    obtain ⟨c, -, -, rfl⟩ := System.step_finish hstep
    exact hinv hlsn
  | rotateLoad | commit | truncateIndex =>
    cases hstep
    exact hinv hlsn
  | rotateCreate i createOk =>
    obtain ⟨w', hw, rfl⟩ := Option.map_eq_some_iff.mp hstep
    obtain ⟨r, -, -, rfl | rfl⟩ := rotateCreate_cases hw
    · exact zeroDisk_createFile (hinv hlsn) _
    · exact hinv hlsn
  | rotateSwap i syncOk =>
    obtain ⟨w', hw, rfl⟩ := Option.map_eq_some_iff.mp hstep
    obtain ⟨r, id, -, -, ⟨-, rfl⟩ | ⟨-, rfl⟩⟩ := rotateSwap_cases hw <;> exact hinv hlsn
  | commitBatch lsns =>
    cases hstep
    rw [commitBatch_currentLsn] at hlsn
    rw [commitBatch_disk]
    exact hinv hlsn
  | compactSelect =>
    cases hstep
    rw [compactSelect_currentLsn] at hlsn
    rw [compactSelect_disk]
    exact hinv hlsn
  | compactNext copyOk removeOk =>
    obtain ⟨w', hw, rfl⟩ := Option.map_eq_some_iff.mp hstep
    obtain ⟨info, rest, -, rfl⟩ := compactNext_cases hw
    have hlsn' : s.wal.currentLsn = 0 := by
      rw [← compactSegment_currentLsn info copyOk removeOk]
      exact hlsn
    obtain hdisk | hdisk := compactSegment_disk s.wal info copyOk removeOk
    · rw [show ({ s.wal.compactSegment info copyOk removeOk with selected := rest } :
        FileWal E).disk = s.wal.disk from hdisk]
      exact hinv hlsn'
    · rw [show ({ s.wal.compactSegment info copyOk removeOk with selected := rest } :
        FileWal E).disk = s.wal.disk.erase info.id from hdisk]
      exact zeroDisk_erase (hinv hlsn') info.id

/-- **Crash recovery.** When every LSN that was handed out came back as `Ok`, the files read
back exactly if and only if nothing was appended at all. -/
theorem recoversExactly_iff_returned_nil {config : WalConfig} {s : System E}
    (hreach : Reaches (System.step fmt) anyStep (System.new config) s)
    (hall : ∀ l < s.wal.currentLsn, ∃ e ∈ s.returned, e.header.lsn = l) :
    RecoversExactly fmt s ↔ s.returned = [] := by
  constructor
  · intro hexact
    by_contra hne
    obtain ⟨e, he⟩ := List.exists_mem_of_ne_nil _ hne
    have hpos : 0 < s.wal.currentLsn := by
      have := (System.accounted_reaches hreach).returned_lt e he
      omega
    obtain ⟨e₀, he₀, hzero⟩ := hall 0 hpos
    exact not_recoversExactly he₀ hzero hexact
  · intro hret
    have hlsn : s.wal.currentLsn = 0 := by
      by_contra hne
      obtain ⟨e, he, -⟩ := hall 0 (by omega)
      rw [hret] at he
      cases he
    exact recoversExactly_of_zeroDisk hret (zeroDisk_reaches hreach hlsn)

/-- One append and nothing else: the iff at a log that is not empty. -/
theorem recoversExactly_iff_returned_nil_append :
    ∃ s, exec (System.step bincode) (System.new sampleConfig) (appendSteps sampleEntry) = some s ∧
      s.returned.map (fun e => e.header.lsn) = [0] ∧
      (RecoversExactly bincode s ↔ s.returned = []) := by
  apply exists_exec
    (fun s => s.wal.currentLsn = 1 ∧ s.returned.map (fun e => e.header.lsn) = [0])
    (by decide +kernel)
  intro s hexec hq
  obtain ⟨hlsn, hret⟩ := hq
  refine ⟨hret, recoversExactly_iff_returned_nil
    (Reaches.of_exec (okAlong_anyStep _ _ _) hexec) ?_⟩
  intro l hl
  obtain rfl : l = 0 := by omega
  exact List.mem_map.mp (hret ▸ List.mem_singleton.mpr rfl)

/-- One `append` returns `Ok` with LSN 0, and recovery does not bring its entry back. -/
theorem recovery_loses_first_append :
    ∃ s, exec (System.step bincode) (System.new sampleConfig) (appendSteps sampleEntry) = some s ∧
      s.returned = [FileWal.stamped bincode 0 sampleEntry] ∧ s.calls.length = 0 ∧
      ¬ RecoversExactly bincode s := by
  apply exists_exec
    (fun s =>
      s.returned = [stamped bincode 0 sampleEntry] ∧ s.calls.length = 0)
    (by decide +kernel)
  intro s _ hq
  obtain ⟨hret, hcalls⟩ := hq
  exact ⟨hret, hcalls, not_recoversExactly (hret ▸ List.mem_singleton.mpr rfl) rfl⟩

end Recovery

end Arcxa.Wal
