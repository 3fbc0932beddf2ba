import Arcxa.Wal.Entry
import Mathlib.Data.List.AList

/-!
# The file WAL (`storage/wal/file_wal.rs`)

The state of a `FileWal` and its operations, cut at the points where another task
can run in between: an append reserves its LSNs with one `fetch_add` and only
later takes the segment lock to write; a rotation loads `current_lsn`, then reads
the active id and creates the next file, and only then takes the lock and swaps;
the compaction worker selects segments in one pass and compacts them afterwards.
Work that is in flight between two cuts is part of the state (`rotations`,
`selected`), except for the appends, which belong to their callers.

What the environment decides is an argument: whether a write or an `fsync`
succeeds, and how far a failing direct write got. `written` is a ghost field, the
entries placed in segment files in the order they were placed.
-/

namespace Arcxa.Wal

/-! ## Configuration and errors -/

inductive FsyncMode where
  | EveryWrite | BatchSync | OnDemand | Periodic
  deriving DecidableEq, Repr

/-- How to handle corrupted entries during recovery. -/
inductive CorruptionTolerance where
  | FailOnCorruption | SkipCorrupted | AttemptRepair | TruncateAtCorruption
  deriving DecidableEq, Repr

structure CompactionPolicy where
  enabled : Bool
  minSegments : Nat
  archiveBeforeCompact : Bool
  deriving DecidableEq, Repr

/-- The fields of `WalConfig` that the modelled operations read. -/
structure WalConfig where
  maxFileSize : Nat
  preallocate : Bool
  directIo : Bool
  minFreeDiskSpace : Nat
  fsyncMode : FsyncMode
  compactionPolicy : CompactionPolicy
  corruptionTolerance : CorruptionTolerance
  deriving DecidableEq, Repr

inductive WalError where
  | Io
  | Corruption (lsn : Nat) (details : String) (recoverable : Bool)
  | ChecksumMismatch (lsn : Nat) (expected actual : UInt32)
  | WalFull (maxSegments : Nat)
  | InsufficientDiskSpace (availableBytes requiredBytes minFreeBytes : Nat)
  | InvalidLsn (lsn : Nat)
  | Serialization (error : WalEntry.ReadError)
  | UnrecoverableCorruption (lsn : Nat)
  deriving DecidableEq, Repr

/-! ## State -/

/-- The active segment. `cursor` is the position of the file handle, which only direct
I/O uses; the memory map is written at `position`. -/
structure Segment (E : Type) where
  id : Nat
  position : Nat
  cursor : Nat
  size : Nat
  startLsn : Nat
  endLsn : Option Nat
  entries : List (WalEntry E)

structure SegmentInfo where
  id : Nat
  startLsn : Nat
  endLsn : Option Nat
  size : Nat
  entries : Nat
  archived : Bool
  deriving DecidableEq, Repr

structure SegmentLocation where
  segmentId : Nat
  offset : Nat
  size : Nat
  deriving DecidableEq, Repr

/-- A `rotate_internal` call that has loaded `current_lsn` and, once `newSegmentId` is
set, has created the next segment, but has not yet swapped it in. -/
structure PendingRotation where
  currentLsn : Nat
  newSegmentId : Option Nat
  deriving DecidableEq, Repr

abbrev Disk := AList (fun _ : Nat => Bytes)

structure FileWal (E : Type) where
  config : WalConfig
  activeSegment : Segment E
  segments : AList (fun _ : Nat => SegmentInfo)
  currentLsn : Nat
  committedLsn : Nat
  lsnIndex : Nat → Option SegmentLocation
  disk : Disk
  rotations : List PendingRotation
  selected : List SegmentInfo
  written : List (Nat × WalEntry E)

namespace FileWal

variable {E : Type}

/-! ## Segments and files -/

/-- `create_segment`, the in-memory part. -/
def newSegment (config : WalConfig) (id : Nat) (startLsn : Nat) : Segment E where
  id
  position := 0
  cursor := 0
  size := config.maxFileSize
  startLsn
  endLsn := none
  entries := []

/-- `File::set_len`. -/
def setLen (file : Bytes) (len : Nat) : Bytes :=
  file.take len ++ List.replicate (len - file.length) 0

/-- `create_segment`, the file: opened without truncation and preallocated when configured. -/
def createFile (config : WalConfig) (disk : Disk) (id : Nat) : Disk :=
  let file := (disk.lookup id).getD []
  disk.insert id (if config.preallocate then setLen file config.maxFileSize else file)

/-- `FileWal::new` on an empty directory. -/
def new (config : WalConfig) : FileWal E where
  config
  activeSegment := newSegment config 0 0
  segments := ∅
  currentLsn := 0
  committedLsn := 0
  lsnIndex := fun _ => none
  disk := createFile config ∅ 0
  rotations := []
  selected := []
  written := []

/-- Overwrite `file` from `pos` on. -/
def writeAt (file : Bytes) (pos : Nat) (bytes : Bytes) : Bytes :=
  file.take pos ++ bytes ++ file.drop (pos + bytes.length)

/-- The `size` bytes of `file` from `offset` on. -/
def slice (file : Bytes) (offset size : Nat) : Bytes := (file.drop offset).take size

/-! ## Appending -/

/-- How the environment answers one entry's write: it succeeds, or it fails. A failing
`write_all` has put some of the bytes in the file first. -/
inductive IoOutcome where
  | ok
  | fail (bytesWritten : Nat)
  deriving DecidableEq, Repr

def assignLsn (e : WalEntry E) (lsn : Nat) : WalEntry E :=
  { e with header := { e.header with lsn, previousLsn := lsn - 1 } }

variable (fmt : Format E)

/-- The entry as it stands in the log after an append gave it `lsn`. -/
def stamped (lsn : Nat) (e : WalEntry E) : WalEntry E :=
  (assignLsn e lsn).sealed fmt

/-- `write_entry_to_segment`. A write through the memory map beyond the end of the file
kills the process; like every other write that does not return `Ok` it is an error here. -/
def writeEntryToSegment (config : WalConfig) (segment : Segment E) (file : Bytes)
    (entry : WalEntry E) (lsn : Nat) (io : IoOutcome) :
    Except WalError Nat × Segment E × Bytes :=
  let bytes := (assignLsn entry lsn).toBytes fmt
  let size := bytes.length
  if segment.position + size > segment.size then
    (.error (.WalFull segment.size), segment, file)
  else if config.directIo then
    match io with
    | .ok =>
      (.ok size,
        { segment with
          position := segment.position + size
          cursor := segment.cursor + size
          entries := segment.entries ++ [stamped fmt lsn entry] },
        writeAt file segment.cursor bytes)
    | .fail n =>
      (.error .Io, { segment with cursor := segment.cursor + (bytes.take n).length },
        writeAt file segment.cursor (bytes.take n))
  else if file.length < segment.position + size then
    (.error .Io, segment, file)
  else
    match io with
    | .ok =>
      (.ok size,
        { segment with
          position := segment.position + size
          entries := segment.entries ++ [stamped fmt lsn entry] },
        writeAt file segment.position bytes)
    | .fail _ =>
      -- the bytes are in the map already; only the flush failed
      (.error .Io, segment, writeAt file segment.position bytes)

def writeEntry (w : FileWal E) (lsn : Nat) (entry : WalEntry E) (io : IoOutcome) :
    Except WalError Nat × FileWal E :=
  let id := w.activeSegment.id
  match writeEntryToSegment fmt w.config w.activeSegment ((w.disk.lookup id).getD []) entry lsn io with
  | (.error err, segment, file) =>
    (.error err, { w with activeSegment := segment, disk := w.disk.insert id file })
  | (.ok size, segment, file) =>
    (.ok size,
      { w with
        activeSegment := segment
        disk := w.disk.insert id file
        lsnIndex := Function.update w.lsnIndex lsn
          (some { segmentId := id, offset := segment.position - size, size })
        written := w.written ++ [(id, stamped fmt lsn entry)] })

/-- The write loop of `append` (one entry) and `append_batch`: consecutive LSNs from `lsn`
on, stopping at the first failure. -/
def writeEntries (io : Nat → IoOutcome) :
    FileWal E → Nat → List (WalEntry E) →
      Except WalError (List Nat) × FileWal E
  | w, _, [] => (.ok [], w)
  | w, lsn, e :: es =>
    match writeEntry fmt w lsn e (io lsn) with
    | (.error err, w') => (.error err, w')
    | (.ok _, w') =>
      match writeEntries io w' (lsn + 1) es with
      | (.ok lsns, w'') => (.ok (lsn :: lsns), w'')
      | (.error err, w'') => (.error err, w'')

/-- `ensure_sufficient_disk_space`. -/
def ensureSufficientDiskSpace (config : WalConfig) (available required : Nat) :
    Except WalError Unit :=
  if config.minFreeDiskSpace = 0 then .ok ()
  else if available < config.minFreeDiskSpace then
    .error (.InsufficientDiskSpace available required config.minFreeDiskSpace)
  else .ok ()

/-- `current_lsn.fetch_add(n)`. -/
def fetchAdd (w : FileWal E) (n : Nat) : Nat × FileWal E :=
  (w.currentLsn, { w with currentLsn := w.currentLsn + n })

/-- Does this call end with an `fsync`? `append` syncs in `EveryWrite` mode only,
`append_batch` in `BatchSync` mode too. -/
def syncsAfterWrite (config : WalConfig) (batch : Bool) : Bool :=
  config.fsyncMode = .EveryWrite || (batch && config.fsyncMode = .BatchSync)

/-- Everything `append` and `append_batch` do under the segment lock. -/
def appendLocked (w : FileWal E) (batch : Bool) (lsn : Nat)
    (entries : List (WalEntry E)) (io : Nat → IoOutcome) (syncOk : Bool) :
    Except WalError (List Nat) × FileWal E :=
  match writeEntries fmt io w lsn entries with
  | (.ok lsns, w') =>
    if syncsAfterWrite w.config batch && !syncOk then (.error .Io, w') else (.ok lsns, w')
  | (.error err, w') => (.error err, w')

/-! ## Committing and truncating -/

/-- `commit`. -/
def commit (w : FileWal E) (lsn : Nat) : FileWal E :=
  { w with committedLsn := lsn }

/-- `commit_batch`. -/
def commitBatch (w : FileWal E) (lsns : List Nat) : FileWal E :=
  match lsns.max? with
  | some maxLsn => { w with committedLsn := maxLsn }
  | none => w

/-- `head_lsn`, a sum of `u64`s: past the end it panics with overflow checks and wraps without. -/
def headLsn (overflowChecks : Bool) (w : FileWal E) : Option UInt64 :=
  if overflowChecks && decide (2 ^ 64 ≤ w.committedLsn + 1) then none
  else some (UInt64.ofNat (w.committedLsn + 1))

/-- The index part of `truncate`. The store into `committed_lsn` that follows it is a
`commit` of the same LSN, and another task can run in between. -/
def truncateIndex (w : FileWal E) (upToLsn : Nat) : FileWal E :=
  { w with lsnIndex := fun lsn => if upToLsn < lsn then w.lsnIndex lsn else none }

/-! ## Rotation -/

/-- `rotate_internal` up to its first await. -/
def rotateLoad (w : FileWal E) : FileWal E :=
  { w with
    rotations := w.rotations ++ [{ currentLsn := w.currentLsn, newSegmentId := none }] }

/-- The `i`-th rotation in flight reads the active id and creates the next segment. -/
def rotateCreate (w : FileWal E) (i : Nat) (createOk : Bool) : Option (FileWal E) := do
  let r ← w.rotations[i]?
  guard (r.newSegmentId = none)
  if createOk then
    let id := w.activeSegment.id + 1
    some { w with
      disk := createFile w.config w.disk id
      rotations := w.rotations.set i { r with newSegmentId := some id } }
  else
    some { w with rotations := w.rotations.eraseIdx i }

/-- The `SegmentInfo` a rotation that loaded `currentLsn` records for the active segment. -/
def rotationInfo (segment : Segment E) (currentLsn : Nat) : SegmentInfo where
  id := segment.id
  startLsn := segment.startLsn
  endLsn := some currentLsn
  size := segment.position
  entries := segment.entries.length
  archived := false

/-- The `i`-th rotation in flight takes the segment lock and swaps. -/
def rotateSwap (w : FileWal E) (i : Nat) (syncOk : Bool) : Option (FileWal E) := do
  let r ← w.rotations[i]?
  let id ← r.newSegmentId
  if syncOk then
    some { w with
      segments := w.segments.insert w.activeSegment.id (rotationInfo w.activeSegment r.currentLsn)
      activeSegment := newSegment w.config id r.currentLsn
      rotations := w.rotations.eraseIdx i }
  else
    some { w with
      activeSegment := { w.activeSegment with endLsn := some r.currentLsn }
      rotations := w.rotations.eraseIdx i }

/-! ## Compaction -/

def eligible (committed : Nat) (info : SegmentInfo) : Bool :=
  !info.archived && info.endLsn.any (fun endLsn => endLsn ≤ committed)

def compactSelect (w : FileWal E) : FileWal E :=
  let chosen := (w.segments.entries.map (fun p => p.2)).filter (eligible w.committedLsn)
  if w.config.compactionPolicy.enabled && w.config.compactionPolicy.minSegments ≤ chosen.length then
    { w with selected := w.selected ++ chosen }
  else w

/-- The index cleanup of `compact_segment`: every LSN from `start_lsn` to `end_lsn`, both
included, whatever segment it lives in. -/
def cleanIndex (info : SegmentInfo) (index : Nat → Option SegmentLocation) :
    Nat → Option SegmentLocation :=
  match info.endLsn with
  | some endLsn => fun lsn => if info.startLsn ≤ lsn ∧ lsn ≤ endLsn then none else index lsn
  | none => index

/-- The archive copy of `compact_segment`, when one is configured. It needs the file. -/
def archiveSegment (w : FileWal E) (info : SegmentInfo) (copyOk : Bool) : Bool :=
  !w.config.compactionPolicy.archiveBeforeCompact || ((w.disk.lookup info.id).isSome && copyOk)

/-- `compact_segment`. Without the archive copy it gives up; the file goes last. -/
def compactSegment (w : FileWal E) (info : SegmentInfo) (copyOk removeOk : Bool) : FileWal E :=
  if w.archiveSegment info copyOk then
    { w with
      lsnIndex := cleanIndex info w.lsnIndex
      disk := if removeOk then w.disk.erase info.id else w.disk }
  else w

def compactNext (w : FileWal E) (copyOk removeOk : Bool) : Option (FileWal E) :=
  match w.selected with
  | [] => none
  | info :: rest => some { w.compactSegment info copyOk removeOk with selected := rest }

/-! ## Reading -/

/-- `WalReader::read`. -/
def read (w : FileWal E) (lsn : Nat) : Except WalError (WalEntry E) :=
  match w.lsnIndex lsn with
  | none => .error (.InvalidLsn lsn)
  | some location =>
    match w.segments.lookup location.segmentId with
    | none => .error (.InvalidLsn lsn)
    | some info =>
      match w.disk.lookup info.id with
      | none => .error .Io
      | some file =>
        let bytes := slice file location.offset location.size
        if bytes.length < location.size then .error .Io
        else
          match WalEntry.fromBytes fmt bytes with
          | .ok entry => .ok entry
          | .error .checksum => .error (.ChecksumMismatch lsn 0 0)
          | .error err => .error (.Corruption lsn err.message false)

/-- `WalReader::scan` over a list of LSNs: missing LSNs are skipped, any other error ends it. -/
def scanLsns (w : FileWal E) : List Nat → Except WalError (List (WalEntry E))
  | [] => .ok []
  | lsn :: lsns =>
    match read fmt w lsn with
    | .ok entry =>
      match scanLsns w lsns with
      | .ok entries => .ok (entry :: entries)
      | .error err => .error err
    | .error (.InvalidLsn _) => scanLsns w lsns
    | .error err => .error err

/-- `WalReader::scan`. -/
def scan (w : FileWal E) (start stop : Nat) : Except WalError (List (WalEntry E)) :=
  scanLsns fmt w (List.range' start (stop - start))

end FileWal

end Arcxa.Wal
