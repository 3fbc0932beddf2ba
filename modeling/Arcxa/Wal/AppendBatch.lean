import Arcxa.Wal.Recovery

/-!
# What a failed batch leaves behind (`append_batch`)

`append_batch` places and indexes its entries one by one and leaves the loop at the first that
fails; nothing takes back what was placed before. `allOrNothing_iff`: the call is all or nothing
exactly when the disk check refuses it, the batch is empty, every write and the sync succeed, or
it is the first entry that fails and what its write left in the file is not seen.
-/

namespace Arcxa.Wal

variable {E : Type}

namespace FileWal

variable (fmt : Format E)

/-- `append_batch`, where no other task runs between the reservation and the lock. -/
def appendBatch (w : FileWal E) (entries : List (WalEntry E)) (available : Nat)
    (io : Nat → IoOutcome) (syncOk : Bool) : Except WalError (List Nat) × FileWal E :=
  match ensureSufficientDiskSpace w.config available
      (entries.map (fun e => (e.toBytes fmt).length)).sum with
  | .error err => (.error err, w)
  | .ok () =>
    let (lsn, w) := w.fetchAdd entries.length
    appendLocked fmt w true lsn entries io syncOk

/-! ## The contract -/

def fileOf (w : FileWal E) (id : Nat) : Bytes := (w.disk.lookup id).getD []

def activeFile (w : FileWal E) : Bytes := w.fileOf w.activeSegment.id

/-- Readers find the same entries, and crash recovery reads the same from every segment file. -/
structure SameLog (w w' : FileWal E) : Prop where
  read : ∀ lsn entry, w'.read fmt lsn = .ok entry ↔ w.read fmt lsn = .ok entry
  recover : ∀ tolerance id acc, Recovery.recoverSegment fmt tolerance (w'.fileOf id) 0 acc =
    Recovery.recoverSegment fmt tolerance (w.fileOf id) 0 acc

/-- What an `Err` and an `Ok` of `append_batch` promise. -/
structure AllOrNothing (w : FileWal E) (entries : List (WalEntry E))
    (result : Except WalError (List Nat) × FileWal E) : Prop where
  nothing : ∀ err, result.1 = .error err →
    result.2.activeSegment.position = w.activeSegment.position ∧
    result.2.activeSegment.entries = w.activeSegment.entries ∧
    result.2.lsnIndex = w.lsnIndex ∧ SameLog fmt w result.2
  all : ∀ lsns, result.1 = .ok lsns →
    lsns = List.range' w.currentLsn entries.length ∧
    ∀ lsn ∈ lsns, ∃ loc, result.2.lsnIndex lsn = some loc ∧
      loc.segmentId = result.2.activeSegment.id

/-! ## The condition -/

def batchSize (entries : List (WalEntry E)) : Nat :=
  (entries.map (fun e => (e.toBytes fmt).length)).sum

def HasRoom (w : FileWal E) (size : Nat) : Prop :=
  w.activeSegment.position + size ≤ w.activeSegment.size ∧
    (w.config.directIo = false → w.activeSegment.position + size ≤ w.activeFile.length)

/-- Every write and the sync succeed. -/
structure Completes (w : FileWal E) (entries : List (WalEntry E)) (io : Nat → IoOutcome)
    (syncOk : Bool) : Prop where
  room : HasRoom w (batchSize fmt entries)
  written : ∀ i < entries.length, io (w.currentLsn + i) = .ok
  synced : syncsAfterWrite w.config true = true → syncOk = true

def afterFailedWrite (w : FileWal E) (lsn : Nat) (e : WalEntry E) (bytesWritten : Nat) :
    FileWal E :=
  let bytes := (assignLsn e lsn).toBytes fmt
  { w with
    disk := w.disk.insert w.activeSegment.id
      (if w.config.directIo then
        writeAt w.activeFile w.activeSegment.cursor (bytes.take bytesWritten)
      else writeAt w.activeFile w.activeSegment.position bytes) }

def FirstRejected (w : FileWal E) (e : WalEntry E) (io : Nat → IoOutcome) : Prop :=
  ¬ HasRoom w (e.toBytes fmt).length ∨
    ∃ n, io w.currentLsn = .fail n ∧ SameLog fmt w (afterFailedWrite fmt w w.currentLsn e n)

/-- The condition on the state before the call and on what the environment answers. -/
def BatchCondition (w : FileWal E) (entries : List (WalEntry E)) (available : Nat)
    (io : Nat → IoOutcome) (syncOk : Bool) : Prop :=
  (∃ err, ensureSufficientDiskSpace w.config available (batchSize fmt entries) = .error err) ∨
    entries = [] ∨ Completes fmt w entries io syncOk ∨
    ∃ e es, entries = e :: es ∧ FirstRejected fmt w e io

/-! ## One write -/

variable {fmt} {w w' : FileWal E} {lsn : Nat} {e : WalEntry E} {io : IoOutcome}

theorem length_toBytes_assignLsn (e : WalEntry E) (lsn : Nat) :
    ((assignLsn e lsn).toBytes fmt).length = (e.toBytes fmt).length := by
  rw [WalEntry.length_toBytes, WalEntry.length_toBytes]
  rfl

theorem length_writeAt_within {file bytes : Bytes} {pos : Nat} (h : pos + bytes.length ≤ file.length) :
    (writeAt file pos bytes).length = file.length := by
  simp only [writeAt, List.length_append, List.length_take, List.length_drop]
  omega

/-- What a write that succeeds does to the segment and its file. -/
structure WroteAt (w w' : FileWal E) (size : Nat) : Prop where
  position : w'.activeSegment.position = w.activeSegment.position + size
  size : w'.activeSegment.size = w.activeSegment.size
  config : w'.config = w.config
  file : w.config.directIo = false → w'.activeFile.length = w.activeFile.length

theorem activeFile_insert (w : FileWal E) (file : Bytes) :
    ((w.disk.insert w.activeSegment.id file).lookup w.activeSegment.id).getD [] = file := by
  rw [AList.lookup_insert]
  rfl

theorem HasRoom.fits (hroom : HasRoom w (e.toBytes fmt).length) :
    ¬ w.activeSegment.position + ((assignLsn e lsn).toBytes fmt).length > w.activeSegment.size ∧
      (w.config.directIo = false → ¬ ((w.disk.lookup w.activeSegment.id).getD []).length <
        w.activeSegment.position + ((assignLsn e lsn).toBytes fmt).length) := by
  rw [@length_toBytes_assignLsn E fmt e lsn]
  exact ⟨Nat.not_lt.mpr hroom.1, fun hdirect => Nat.not_lt.mpr (hroom.2 hdirect)⟩

/-- **One write succeeds exactly when there is room for it and the environment lets it.** -/
theorem writeEntry_ok (hroom : HasRoom w (e.toBytes fmt).length) :
    ∃ size w', writeEntry fmt w lsn e .ok = (.ok size, w') ∧
      WroteAt w w' (e.toBytes fmt).length := by
  obtain ⟨hfull, hshort⟩ := @HasRoom.fits E fmt w lsn e hroom
  cases hdirect : w.config.directIo with
  | true =>
    simp only [writeEntry, writeEntryToSegment, if_neg hfull, hdirect, if_true]
    refine ⟨_, _, rfl, ?_, rfl, rfl, fun h => ?_⟩
    · exact congrArg (w.activeSegment.position + ·) (length_toBytes_assignLsn _ _)
    · rw [hdirect] at h
      cases h
  | false =>
    replace hshort := hshort hdirect
    simp only [writeEntry, writeEntryToSegment, if_neg hfull, hdirect, if_neg hshort,
      Bool.false_eq_true, if_false]
    refine ⟨_, _, rfl, ?_, rfl, rfl, fun _ => ?_⟩
    · exact congrArg (w.activeSegment.position + ·) (length_toBytes_assignLsn _ _)
    · show (((w.disk.insert w.activeSegment.id _).lookup w.activeSegment.id).getD []).length = _
      rw [activeFile_insert, length_writeAt_within (Nat.not_lt.mp hshort)]
      rfl

theorem writeEntry_of_no_room (hroom : ¬ HasRoom w (e.toBytes fmt).length) :
    ∃ err w', writeEntry fmt w lsn e io = (.error err, w') ∧
      w'.activeSegment = w.activeSegment ∧ w'.lsnIndex = w.lsnIndex ∧
      w' = { w with disk := w.disk.insert w.activeSegment.id w.activeFile } := by
  have hlength := @length_toBytes_assignLsn E fmt e lsn
  by_cases hfull : w.activeSegment.position + ((assignLsn e lsn).toBytes fmt).length >
      w.activeSegment.size
  · simp only [writeEntry, writeEntryToSegment, if_pos hfull]
    exact ⟨_, _, rfl, rfl, rfl, rfl⟩
  · -- the segment has room, so the file is mapped and too short
    rw [HasRoom, not_and_or, Classical.not_imp] at hroom
    obtain ⟨hdirect, hfile⟩ := hroom.resolve_left (by rw [← hlength]; omega)
    have hshort : ((w.disk.lookup w.activeSegment.id).getD []).length <
        w.activeSegment.position + ((assignLsn e lsn).toBytes fmt).length := by
      rw [hlength]
      exact Nat.not_le.mp hfile
    simp only [writeEntry, writeEntryToSegment, if_neg hfull, hdirect, if_pos hshort,
      Bool.false_eq_true, if_false]
    exact ⟨_, _, rfl, rfl, rfl, rfl⟩

theorem writeEntry_fail {n : Nat} (hroom : HasRoom w (e.toBytes fmt).length) :
    ∃ err w', writeEntry fmt w lsn e (.fail n) = (.error err, w') ∧
      w'.activeSegment.position = w.activeSegment.position ∧
      w'.activeSegment.entries = w.activeSegment.entries ∧ w'.lsnIndex = w.lsnIndex ∧
      w'.segments = w.segments ∧ w'.disk = (afterFailedWrite fmt w lsn e n).disk := by
  obtain ⟨hfull, hshort⟩ := @HasRoom.fits E fmt w lsn e hroom
  cases hdirect : w.config.directIo with
  | true =>
    simp only [writeEntry, writeEntryToSegment, if_neg hfull, hdirect, if_true]
    refine ⟨_, _, rfl, rfl, rfl, rfl, rfl, ?_⟩
    simp only [afterFailedWrite, hdirect, if_true]
    rfl
  | false =>
    replace hshort := hshort hdirect
    simp only [writeEntry, writeEntryToSegment, if_neg hfull, hdirect, if_neg hshort,
      Bool.false_eq_true, if_false]
    refine ⟨_, _, rfl, rfl, rfl, rfl, rfl, ?_⟩
    simp only [afterFailedWrite, hdirect, Bool.false_eq_true, if_false]
    rfl

theorem of_writeEntry_ok {size : Nat} (h : writeEntry fmt w lsn e io = (.ok size, w')) :
    HasRoom w (e.toBytes fmt).length ∧ io = .ok ∧ WroteAt w w' (e.toBytes fmt).length := by
  by_cases hroom : HasRoom w (e.toBytes fmt).length
  · cases io with
    | ok =>
      obtain ⟨size', w'', hwrite, hplaced⟩ := @writeEntry_ok E fmt w lsn e hroom
      rw [h] at hwrite
      cases hwrite
      exact ⟨hroom, rfl, hplaced⟩
    | fail n =>
      obtain ⟨err, w'', hwrite, -⟩ := @writeEntry_fail E fmt w lsn e n hroom
      rw [h] at hwrite
      cases hwrite
  · obtain ⟨err, w'', hwrite, -⟩ := @writeEntry_of_no_room E fmt w lsn e io hroom
    rw [h] at hwrite
    cases hwrite

/-! ## The loop -/

section

variable {entries : List (WalEntry E)} {io : Nat → IoOutcome}

theorem HasRoom.mono {small large : Nat} (h : HasRoom w large) (hle : small ≤ large) :
    HasRoom w small :=
  ⟨(Nat.add_le_add_left hle _).trans h.1, fun hdirect =>
    (Nat.add_le_add_left hle _).trans (h.2 hdirect)⟩

theorem WroteAt.hasRoom_iff {size rest : Nat} (h : WroteAt w w' size) :
    HasRoom w' rest ↔ HasRoom w (size + rest) := by
  rw [HasRoom, HasRoom, h.position, h.size, h.config, Nat.add_assoc]
  refine and_congr_right fun _ => forall_congr' fun hdirect => ?_
  rw [h.file hdirect]

theorem batchSize_cons (e : WalEntry E) (es : List (WalEntry E)) :
    batchSize fmt (e :: es) = (e.toBytes fmt).length + batchSize fmt es := rfl

/-- **The loop gets through exactly when there is room for the batch and no write fails.** -/
theorem writeEntries_isOk_iff (w : FileWal E) (lsn : Nat) :
    (∃ lsns, (writeEntries fmt io w lsn entries).1 = .ok lsns) ↔
      entries = [] ∨ HasRoom w (batchSize fmt entries) ∧ ∀ i < entries.length, io (lsn + i) = .ok := by
  induction entries generalizing w lsn with
  | nil => exact iff_of_true ⟨[], rfl⟩ (.inl rfl)
  | cons e es ih =>
    rw [or_iff_right (List.cons_ne_nil e es), batchSize_cons]
    have hsplit : (∀ i < (e :: es).length, io (lsn + i) = .ok) ↔
        io lsn = .ok ∧ ∀ i < es.length, io (lsn + 1 + i) = .ok := by
      simp only [List.length_cons, Nat.forall_lt_succ_left, Nat.add_zero]
      refine and_congr_right fun _ => forall₂_congr fun i _ => ?_
      rw [Nat.add_assoc, Nat.add_comm 1 i]
    rw [hsplit]
    cases hwrite : writeEntry fmt w lsn e (io lsn) with
    | mk result w' =>
      cases result with
      | error err =>
        simp only [writeEntries, hwrite]
        refine iff_of_false ?_ ?_
        · rintro ⟨_, h⟩
          cases h
        · rintro ⟨hroom, hio, -⟩
          obtain ⟨size, w'', hok, -⟩ := @writeEntry_ok E fmt w lsn e
            (hroom.mono (Nat.le_add_right _ _))
          rw [hio, hok] at hwrite
          cases hwrite
      | ok size =>
        obtain ⟨hroom, hio, hplaced⟩ := of_writeEntry_ok hwrite
        have hrest : (∃ lsns, (writeEntries fmt io w lsn (e :: es)).1 = .ok lsns) ↔
            ∃ lsns, (writeEntries fmt io w' (lsn + 1) es).1 = .ok lsns := by
          simp only [writeEntries, hwrite]
          cases hres : writeEntries fmt io w' (lsn + 1) es with
          | mk rest w'' =>
            cases rest with
            | ok lsns => exact iff_of_true ⟨_, rfl⟩ ⟨_, rfl⟩
            | error err => refine iff_of_false ?_ ?_ <;> (rintro ⟨_, h⟩; cases h)
        rw [hrest, ih, hplaced.hasRoom_iff]
        constructor
        · rintro (rfl | ⟨hroom', hios⟩)
          · exact ⟨hroom, hio, fun i hi => absurd hi (Nat.not_lt_zero i)⟩
          · exact ⟨hroom', hio, hios⟩
        · rintro ⟨hroom', -, hios⟩
          exact .inr ⟨hroom', hios⟩

theorem position_le_writeEntries (w : FileWal E) (lsn : Nat) :
    w.activeSegment.position ≤ (writeEntries fmt io w lsn entries).2.activeSegment.position := by
  induction entries generalizing w lsn with
  | nil => exact le_refl _
  | cons e es ih =>
    cases hwrite : writeEntry fmt w lsn e (io lsn) with
    | mk result w' =>
      cases result with
      | error err =>
        simp only [writeEntries, hwrite]
        by_cases hroom : HasRoom w (e.toBytes fmt).length
        · cases hio : io lsn with
          | ok =>
            obtain ⟨size, w'', hok, -⟩ := @writeEntry_ok E fmt w lsn e hroom
            rw [hio, hok] at hwrite
            cases hwrite
          | fail n =>
            obtain ⟨err', w'', hfail, hposition, -⟩ := @writeEntry_fail E fmt w lsn e n hroom
            rw [hio, hfail] at hwrite
            cases hwrite
            exact hposition.ge
        · obtain ⟨err', w'', hfail, hsegment, -⟩ :=
            @writeEntry_of_no_room E fmt w lsn e (io lsn) hroom
          rw [hfail] at hwrite
          cases hwrite
          rw [hsegment]
      | ok size =>
        obtain ⟨-, -, hplaced⟩ := of_writeEntry_ok hwrite
        have hrest : (writeEntries fmt io w lsn (e :: es)).2 =
            (writeEntries fmt io w' (lsn + 1) es).2 := by
          simp only [writeEntries, hwrite]
          cases hres : writeEntries fmt io w' (lsn + 1) es with
          | mk rest w'' => cases rest <;> rfl
        rw [hrest]
        have hle := ih w' (lsn + 1)
        rw [hplaced.position] at hle
        omega

theorem writeEntries_cons_error {e : WalEntry E} {es : List (WalEntry E)} {err : WalError}
    (h : writeEntry fmt w lsn e (io lsn) = (.error err, w')) :
    writeEntries fmt io w lsn (e :: es) = (.error err, w') := by
  simp only [writeEntries, h]

theorem lt_writeEntries_cons {e : WalEntry E} {es : List (WalEntry E)} {size : Nat}
    (h : writeEntry fmt w lsn e (io lsn) = (.ok size, w')) :
    w.activeSegment.position <
      (writeEntries fmt io w lsn (e :: es)).2.activeSegment.position := by
  obtain ⟨-, -, hplaced⟩ := of_writeEntry_ok h
  have hrest : (writeEntries fmt io w lsn (e :: es)).2 =
      (writeEntries fmt io w' (lsn + 1) es).2 := by
    simp only [writeEntries, h]
    cases hres : writeEntries fmt io w' (lsn + 1) es with
    | mk rest w'' => cases rest <;> rfl
  have hle := @position_le_writeEntries E fmt es io w' (lsn + 1)
  have hsize := WalEntry.headerSize_le_length_toBytes fmt e
  rw [hplaced.position] at hle
  rw [hrest]
  unfold headerSize at hsize
  omega

end

/-! ## What is seen of a failure -/

theorem read_eq_ok_iff {entry : WalEntry E} :
    w.read fmt lsn = .ok entry ↔
      ∃ loc info, w.lsnIndex lsn = some loc ∧ w.segments.lookup loc.segmentId = some info ∧
        loc.size ≤ (slice (w.fileOf info.id) loc.offset loc.size).length ∧
        WalEntry.fromBytes fmt (slice (w.fileOf info.id) loc.offset loc.size) = .ok entry := by
  unfold FileWal.read
  cases hloc : w.lsnIndex lsn with
  | none =>
    refine iff_of_false ?_ ?_
    · intro h
      cases h
    · rintro ⟨_, _, h, -⟩
      cases h
  | some loc =>
    cases hinfo : w.segments.lookup loc.segmentId with
    | none =>
      refine iff_of_false (by simp [hinfo]) ?_
      rintro ⟨loc', info, h, hinfo', -⟩
      cases h
      rw [hinfo] at hinfo'
      cases hinfo'
    | some info =>
      have hpick : (∃ loc' info', some loc = some loc' ∧
          w.segments.lookup loc'.segmentId = some info' ∧
          loc'.size ≤ (slice (w.fileOf info'.id) loc'.offset loc'.size).length ∧
          WalEntry.fromBytes fmt (slice (w.fileOf info'.id) loc'.offset loc'.size) = .ok entry) ↔
          loc.size ≤ (slice (w.fileOf info.id) loc.offset loc.size).length ∧
          WalEntry.fromBytes fmt (slice (w.fileOf info.id) loc.offset loc.size) = .ok entry := by
        constructor
        · rintro ⟨loc', info', h, hinfo', hrest⟩
          cases h
          rw [hinfo] at hinfo'
          cases hinfo'
          exact hrest
        · exact fun h => ⟨loc, info, rfl, hinfo, h⟩
      rw [hpick]
      simp only [hinfo]
      cases hfile : w.disk.lookup info.id with
      | none =>
        -- a missing file has no bytes, and an entry has some
        have hempty : slice (w.fileOf info.id) loc.offset loc.size = [] := by
          rw [fileOf, hfile]
          simp [slice]
        rw [hempty]
        refine iff_of_false ?_ ?_
        · intro h
          cases h
        · intro h
          exact absurd (WalEntry.length_of_fromBytes fmt h.2) (by decide)
      | some file =>
        have hfileOf : w.fileOf info.id = file := by rw [fileOf, hfile]; rfl
        rw [hfileOf]
        dsimp only
        split_ifs with hshort
        · refine iff_of_false ?_ fun h => absurd h.1 (Nat.not_le.mpr hshort)
          intro h
          cases h
        · rw [and_iff_right (Nat.not_lt.mp hshort)]
          cases WalEntry.fromBytes fmt (slice file loc.offset loc.size) with
          | ok found => constructor <;> (intro h; cases h; rfl)
          | error err => cases err <;> refine iff_of_false ?_ ?_ <;> (intro h; cases h)

theorem SameLog.of_files (hindex : w'.lsnIndex = w.lsnIndex) (hsegments : w'.segments = w.segments)
    (hfiles : ∀ id, w'.fileOf id = w.fileOf id) : SameLog fmt w w' := by
  refine ⟨fun lsn entry => ?_, fun tolerance id acc => by rw [hfiles]⟩
  simp only [read_eq_ok_iff, hindex, hsegments, hfiles]

theorem SameLog.trans {w₁ w₂ w₃ : FileWal E} (h : SameLog fmt w₁ w₂) (h' : SameLog fmt w₂ w₃) :
    SameLog fmt w₁ w₃ :=
  ⟨fun lsn entry => (h'.read lsn entry).trans (h.read lsn entry),
    fun tolerance id acc => (h'.recover tolerance id acc).trans (h.recover tolerance id acc)⟩

theorem fileOf_insert_activeFile (w : FileWal E) (id : Nat) :
    ({ w with disk := w.disk.insert w.activeSegment.id w.activeFile } : FileWal E).fileOf id =
      w.fileOf id := by
  by_cases hid : id = w.activeSegment.id
  · subst hid
    exact activeFile_insert w w.activeFile
  · show ((w.disk.insert _ _).lookup id).getD [] = _
    rw [AList.lookup_insert_ne hid]
    rfl

/-! ## The contract of the call -/

variable {entries : List (WalEntry E)} {available : Nat} {io : Nat → IoOutcome} {syncOk : Bool}

theorem appendLocked_all {lsns : List Nat}
    (h : (appendLocked fmt w true lsn entries io syncOk).1 = .ok lsns) :
    lsns = List.range' lsn entries.length ∧
      ∀ l ∈ lsns, ∃ loc, (appendLocked fmt w true lsn entries io syncOk).2.lsnIndex l = some loc ∧
        loc.segmentId = (appendLocked fmt w true lsn entries io syncOk).2.activeSegment.id := by
  rcases appendLocked_spec fmt w true lsn entries io syncOk with
    ⟨w', hres, hwrote⟩ | ⟨err, k, w', hres, -⟩
  · rw [hres] at h ⊢
    cases h
    refine ⟨rfl, fun l hl => ?_⟩
    rw [List.mem_range'_1] at hl
    obtain ⟨loc, hloc, hid⟩ := hwrote.indexed l hl.1 hl.2
    exact ⟨loc, hloc, hid.trans hwrote.activeId.symm⟩
  · rw [hres] at h
    cases h

theorem appendLocked_isOk_iff (hne : entries ≠ []) :
    (∃ lsns, (appendLocked fmt w true lsn entries io syncOk).1 = .ok lsns) ↔
      HasRoom w (batchSize fmt entries) ∧ (∀ i < entries.length, io (lsn + i) = .ok) ∧
        (syncsAfterWrite w.config true = true → syncOk = true) := by
  have hwritten := @writeEntries_isOk_iff E fmt entries io w lsn
  rw [or_iff_right hne] at hwritten
  rw [← and_assoc, ← hwritten]
  rcases writeEntries_spec fmt io w lsn entries with ⟨w', hres, hwrote⟩ | ⟨err, k, w', hres, -⟩
  · simp only [appendLocked, hres]
    have hok : ∃ lsns, (Except.ok (List.range' lsn entries.length) :
        Except WalError (List Nat)) = .ok lsns := ⟨_, rfl⟩
    rw [and_iff_right hok]
    cases hsyncs : syncsAfterWrite w.config true <;> cases syncOk <;> simp
  · simp only [appendLocked, hres]
    refine iff_of_false ?_ ?_
    · rintro ⟨_, h⟩
      cases h
    · rintro ⟨⟨_, h⟩, -⟩
      cases h

theorem lt_appendLocked {e : WalEntry E} {es : List (WalEntry E)} {size : Nat}
    (h : writeEntry fmt w lsn e (io lsn) = (.ok size, w')) :
    w.activeSegment.position <
      (appendLocked fmt w true lsn (e :: es) io syncOk).2.activeSegment.position := by
  have hlt := @lt_writeEntries_cons E fmt w w' lsn io e es size h
  unfold appendLocked
  cases hres : writeEntries fmt io w lsn (e :: es) with
  | mk result w'' =>
    rw [hres] at hlt
    cases result with
    | error err => exact hlt
    | ok lsns =>
      dsimp only
      split_ifs <;> exact hlt

/-- The state with the LSNs of a batch reserved; nothing under the lock looks at `current_lsn`. -/
def reserved (w : FileWal E) (n : Nat) : FileWal E := (w.fetchAdd n).2

theorem allOrNothing_of_error {e : WalEntry E} {es : List (WalEntry E)} {err : WalError} {n : Nat}
    (hwrite : writeEntry fmt (w.reserved n) w.currentLsn e (io w.currentLsn) = (.error err, w')) :
    AllOrNothing fmt w (e :: es) (.error err, w') ↔ FirstRejected fmt w e io := by
  by_cases hroom : HasRoom w (e.toBytes fmt).length
  · rw [FirstRejected, or_iff_right (not_not.mpr hroom)]
    cases hio : io w.currentLsn with
    | ok =>
      obtain ⟨size, w'', hok, -⟩ := @writeEntry_ok E fmt (w.reserved n) w.currentLsn e hroom
      rw [hio, hok] at hwrite
      cases hwrite
    | fail k =>
      obtain ⟨err', w'', hfail, hposition, hentries, hindex, hsegments, hdisk⟩ :=
        @writeEntry_fail E fmt (w.reserved n) w.currentLsn e k hroom
      rw [hio, hfail] at hwrite
      cases hwrite
      have hfiles : ∀ id, w'.fileOf id = (afterFailedWrite fmt w w.currentLsn e k).fileOf id := by
        intro id
        rw [fileOf, hdisk]
        rfl
      have hsame : SameLog fmt (afterFailedWrite fmt w w.currentLsn e k) w' :=
        .of_files hindex hsegments hfiles
      have hsame' : SameLog fmt w' (afterFailedWrite fmt w w.currentLsn e k) :=
        .of_files hindex.symm hsegments.symm fun id => (hfiles id).symm
      constructor
      · intro h
        obtain ⟨-, -, -, hlog⟩ := h.nothing _ rfl
        exact ⟨k, rfl, hlog.trans hsame'⟩
      · rintro ⟨k', hk, hlog⟩
        cases hk
        exact ⟨fun err h => ⟨hposition, hentries, hindex, hlog.trans hsame⟩,
          fun lsns h => nomatch h⟩
  · obtain ⟨err', w'', hfail, hsegment, hindex, hstate⟩ :=
      @writeEntry_of_no_room E fmt (w.reserved n) w.currentLsn e (io w.currentLsn) hroom
    rw [hfail] at hwrite
    cases hwrite
    refine iff_of_true ⟨fun err h => ?_, fun lsns h => nomatch h⟩ (.inl hroom)
    refine ⟨by rw [hsegment]; rfl, by rw [hsegment]; rfl, hindex, .of_files hindex ?_ fun id => ?_⟩
    · rw [hstate]
      rfl
    · rw [hstate]
      exact fileOf_insert_activeFile w id

theorem allOrNothing_of_ok {e : WalEntry E} {es : List (WalEntry E)} {size n : Nat}
    (hwrite : writeEntry fmt (w.reserved n) w.currentLsn e (io w.currentLsn) = (.ok size, w')) :
    AllOrNothing fmt w (e :: es)
        (appendLocked fmt (w.reserved n) true w.currentLsn (e :: es) io syncOk) ↔
      Completes fmt w (e :: es) io syncOk := by
  have hmoved := @lt_appendLocked E fmt (w.reserved n) w' w.currentLsn io syncOk e es size hwrite
  have hok := @appendLocked_isOk_iff E fmt (w.reserved n) w.currentLsn (e :: es) io syncOk
    (List.cons_ne_nil e es)
  constructor
  · intro h
    cases hres : (appendLocked fmt (w.reserved n) true w.currentLsn (e :: es) io syncOk).1 with
    | ok lsns =>
      obtain ⟨hroom, hios, hsync⟩ := hok.mp ⟨lsns, hres⟩
      exact ⟨hroom, hios, hsync⟩
    | error err =>
      obtain ⟨hposition, -⟩ := h.nothing err hres
      exact absurd hposition hmoved.ne'
  · intro h
    obtain ⟨lsns, hlsns⟩ := hok.mpr ⟨h.room, h.written, h.synced⟩
    refine ⟨fun err herr => ?_, fun _ h => appendLocked_all h⟩
    rw [hlsns] at herr
    cases herr

/-- **All or nothing.** The call keeps its promise exactly when the disk check refuses it, there
is nothing to write, everything succeeds, or the first entry fails and is not seen. -/
theorem allOrNothing_iff (w : FileWal E) (entries : List (WalEntry E)) (available : Nat)
    (io : Nat → IoOutcome) (syncOk : Bool) :
    AllOrNothing fmt w entries (appendBatch fmt w entries available io syncOk) ↔
      BatchCondition fmt w entries available io syncOk := by
  have hrefl : SameLog fmt w w := .of_files rfl rfl fun _ => rfl
  cases hspace : ensureSufficientDiskSpace w.config available (batchSize fmt entries) with
  | error err =>
    have hresult : appendBatch fmt w entries available io syncOk = (.error err, w) := by
      rw [appendBatch, show (entries.map _).sum = batchSize fmt entries from rfl, hspace]
    rw [hresult]
    exact iff_of_true ⟨fun _ _ => ⟨rfl, rfl, rfl, hrefl⟩, fun _ h => nomatch h⟩ (.inl ⟨err, hspace⟩)
  | ok =>
    have hresult : appendBatch fmt w entries available io syncOk =
        appendLocked fmt (w.reserved entries.length) true w.currentLsn entries io syncOk := by
      rw [appendBatch, show (entries.map _).sum = batchSize fmt entries from rfl, hspace]
      rfl
    rw [hresult]
    cases entries with
    | nil =>
      refine iff_of_true ⟨fun err _ => ?_, fun _ h => appendLocked_all h⟩ (.inr (.inl rfl))
      have hstate : (appendLocked fmt (w.reserved 0) true w.currentLsn [] io syncOk).2 =
          w.reserved 0 := by
        simp only [appendLocked, writeEntries]
        split_ifs <;> rfl
      show _ = _ ∧ _
      rw [List.length_nil, hstate]
      exact ⟨rfl, rfl, rfl, .of_files rfl rfl fun _ => rfl⟩
    | cons e es =>
      have hcond : BatchCondition fmt w (e :: es) available io syncOk ↔
          Completes fmt w (e :: es) io syncOk ∨ FirstRejected fmt w e io := by
        rw [BatchCondition, hspace]
        simp
      rw [hcond]
      cases hwrite : writeEntry fmt (w.reserved (e :: es).length) w.currentLsn e
          (io w.currentLsn) with
      | mk result w' =>
        cases result with
        | error err =>
          have hlocked : appendLocked fmt (w.reserved (e :: es).length) true w.currentLsn (e :: es)
              io syncOk = (.error err, w') := by
            rw [appendLocked, writeEntries_cons_error hwrite]
          rw [hlocked, allOrNothing_of_error hwrite, or_iff_right]
          intro hcompletes
          obtain ⟨size, w'', hok, -⟩ := @writeEntry_ok E fmt (w.reserved (e :: es).length)
            w.currentLsn e (hcompletes.room.mono (Nat.le_add_right _ _))
          have hio : io w.currentLsn = .ok := hcompletes.written 0 (Nat.succ_pos _)
          rw [hio, hok] at hwrite
          cases hwrite
        | ok size =>
          rw [allOrNothing_of_ok hwrite, or_iff_left]
          obtain ⟨hroom, hio, -⟩ := of_writeEntry_ok hwrite
          rintro (hfull | ⟨n, hfail, -⟩)
          · exact hfull hroom
          · rw [hio] at hfail
            cases hfail

/-- The flush of the second entry of two fails: `Err`, and the first one stands in the log. -/
theorem failed_batch_leaves_prefix :
    let io : Nat → IoOutcome := fun lsn => if lsn = 1 then .fail 0 else .ok
    let w : FileWal Nat := .new sampleConfig
    let result := appendBatch bincode w [sampleEntry, sampleEntry] 0 io true
    result.1 = .error .Io ∧ result.2.lsnIndex 0 = some ⟨0, 0, 55⟩ ∧
      result.2.activeSegment.entries = [stamped bincode 0 sampleEntry] ∧
      ¬ AllOrNothing bincode w [sampleEntry, sampleEntry] result := by
  intro io w result
  have herror : result.1 = .error .Io := by decide +kernel
  have hposition : result.2.activeSegment.position ≠ w.activeSegment.position := by decide +kernel
  exact ⟨herror, by decide +kernel, by decide +kernel, fun h => hposition (h.nothing _ herror).1⟩

end FileWal

end Arcxa.Wal
