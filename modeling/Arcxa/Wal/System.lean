import Arcxa.Lib.Transition
import Arcxa.Wal.Bincode
import Arcxa.Wal.FileWal

/-!
# Tasks on one file WAL

A `System` is a `FileWal` together with the appends that are in flight on it. Its
actions are the atomic pieces of the public operations and of the two background
workers, so that a run is an interleaving of any number of tasks:

* `append` and `append_batch` are `reserve`, `write` and `finish`;
* `rotate_internal` is `rotateLoad`, `rotateCreate` and `rotateSwap`, and may start at
  any time (every rotation policy is a restriction of this);
* `truncate` is `truncateIndex` followed by a `commit` of the same LSN;
* the compaction worker is `compactSelect` and one `compactNext` for each segment.

`Wrote` is the specification of the write loop that every result about runs uses: a
prefix of the entries was placed in the active segment and indexed, and nothing else
changed. `returned` and `truncated` are ghost fields.
-/

namespace Arcxa.Wal

variable {E : Type}

/-! ## The write loop -/

namespace FileWal

variable (fmt : Format E)

/-- The entries as they stand in the log when the first of them gets `lsn`. -/
def stampedFrom : Nat → List (WalEntry E) → List (WalEntry E)
  | _, [] => []
  | lsn, e :: es => stamped fmt lsn e :: stampedFrom (lsn + 1) es

@[simp] theorem stamped_lsn (lsn : Nat) (e : WalEntry E) :
    (stamped fmt lsn e).header.lsn = lsn := rfl

theorem map_lsn_stampedFrom (lsn : Nat) (es : List (WalEntry E)) :
    (stampedFrom fmt lsn es).map (fun e => e.header.lsn) = List.range' lsn es.length := by
  induction es generalizing lsn with
  | nil => rfl
  | cons e es ih => simp [stampedFrom, ih, List.range'_succ]

variable {es : List (WalEntry E)}

theorem lsn_mem_stampedFrom {lsn : Nat} {e : WalEntry E}
    (h : e ∈ stampedFrom fmt lsn es) : lsn ≤ e.header.lsn ∧ e.header.lsn < lsn + es.length := by
  have hmem : e.header.lsn ∈ (stampedFrom fmt lsn es).map (fun e => e.header.lsn) :=
    List.mem_map_of_mem h
  rw [map_lsn_stampedFrom, List.mem_range'_1] at hmem
  exact hmem

theorem sealed_mem_stampedFrom {lsn : Nat} {e : WalEntry E}
    (h : e ∈ stampedFrom fmt lsn es) : e.sealed fmt = e := by
  induction es generalizing lsn with
  | nil => cases h
  | cons e' es ih =>
    rcases List.mem_cons.mp h with rfl | htail
    · rfl
    · exact ih htail

theorem exists_mem_stampedFrom {lsn l : Nat}
    (hle : lsn ≤ l) (hlt : l < lsn + es.length) :
    ∃ e ∈ stampedFrom fmt lsn es, e.header.lsn = l := by
  have hmem : l ∈ (stampedFrom fmt lsn es).map (fun e => e.header.lsn) := by
    rw [map_lsn_stampedFrom, List.mem_range'_1]
    exact ⟨hle, hlt⟩
  obtain ⟨e, he, rfl⟩ := List.mem_map.mp hmem
  exact ⟨e, he, rfl⟩

/-- What the write loop does when it gets through the first `k` of `es`. -/
structure Wrote (w w' : FileWal E) (lsn : Nat) (es : List (WalEntry E)) (k : Nat) :
    Prop where
  le : k ≤ es.length
  written : w'.written =
    w.written ++ (stampedFrom fmt lsn (es.take k)).map (fun e => (w.activeSegment.id, e))
  indexed : ∀ l, lsn ≤ l → l < lsn + k →
    ∃ loc, w'.lsnIndex l = some loc ∧ loc.segmentId = w.activeSegment.id
  kept : ∀ l, ¬ (lsn ≤ l ∧ l < lsn + k) → w'.lsnIndex l = w.lsnIndex l
  activeId : w'.activeSegment.id = w.activeSegment.id
  activeStart : w'.activeSegment.startLsn = w.activeSegment.startLsn
  config : w'.config = w.config
  segments : w'.segments = w.segments
  currentLsn : w'.currentLsn = w.currentLsn
  committedLsn : w'.committedLsn = w.committedLsn
  rotations : w'.rotations = w.rotations
  selected : w'.selected = w.selected
  nil_eq : es = [] → w' = w

section Wrote

variable {fmt} {w w' : FileWal E} {lsn k : Nat} {es : List (WalEntry E)}

theorem Wrote.mem_written (h : Wrote fmt w w' lsn es k) {p : Nat × WalEntry E}
    (hp : p ∈ w'.written) :
    p ∈ w.written ∨ ∃ e ∈ stampedFrom fmt lsn (es.take k), p = (w.activeSegment.id, e) := by
  rw [h.written] at hp
  rcases List.mem_append.mp hp with hold | hnew
  · exact .inl hold
  · obtain ⟨e, he, rfl⟩ := List.mem_map.mp hnew
    exact .inr ⟨e, he, rfl⟩

theorem Wrote.lsn_mem (h : Wrote fmt w w' lsn es k) {e : WalEntry E}
    (he : e ∈ stampedFrom fmt lsn (es.take k)) : lsn ≤ e.header.lsn ∧ e.header.lsn < lsn + k := by
  have hlsn := lsn_mem_stampedFrom fmt he
  rw [List.length_take, Nat.min_eq_left h.le] at hlsn
  exact hlsn

end Wrote

theorem writeEntryToSegment_segment (config : WalConfig) (segment : Segment E) (file : Bytes)
    (entry : WalEntry E) (lsn : Nat) (io : IoOutcome) :
    let r := writeEntryToSegment fmt config segment file entry lsn io
    r.2.1.id = segment.id ∧ r.2.1.startLsn = segment.startLsn := by
  intro r
  simp only [r, writeEntryToSegment]
  split
  · exact ⟨rfl, rfl⟩
  split
  · cases io <;> exact ⟨rfl, rfl⟩
  split
  · exact ⟨rfl, rfl⟩
  cases io <;> exact ⟨rfl, rfl⟩

theorem writeEntry_spec (w : FileWal E) (lsn : Nat) (entry : WalEntry E)
    (io : IoOutcome) :
    (∃ size w', writeEntry fmt w lsn entry io = (.ok size, w') ∧ Wrote fmt w w' lsn [entry] 1) ∨
    (∃ err w', writeEntry fmt w lsn entry io = (.error err, w') ∧
      Wrote fmt w w' lsn [entry] 0) := by
  have hseg := writeEntryToSegment_segment fmt w.config w.activeSegment
    ((w.disk.lookup w.activeSegment.id).getD []) entry lsn io
  dsimp only at hseg
  simp only [writeEntry]
  split
  next err segment file hw =>
    rw [hw] at hseg
    refine .inr ⟨err, _, rfl, ?_⟩
    exact ⟨Nat.zero_le _, by simp [stampedFrom], fun l _ _ => by omega, fun _ _ => rfl, hseg.1,
      hseg.2, rfl, rfl, rfl, rfl, rfl, rfl, fun hnil => nomatch hnil⟩
  next size segment file hw =>
    rw [hw] at hseg
    refine .inl ⟨size, _, rfl, ?_⟩
    refine ⟨le_refl _, rfl, ?_, ?_, hseg.1, hseg.2, rfl, rfl, rfl, rfl, rfl, rfl,
      fun hnil => nomatch hnil⟩
    · intro l hle hlt
      obtain rfl : l = lsn := by omega
      exact ⟨_, Function.update_self .., rfl⟩
    · intro l hl
      exact Function.update_of_ne (by omega) _ _

theorem Wrote.refl (w : FileWal E) (lsn : Nat) (es : List (WalEntry E)) :
    Wrote fmt w w lsn es 0 :=
  ⟨Nat.zero_le _, by simp [stampedFrom], fun l _ _ => by omega, fun _ _ => rfl, rfl, rfl, rfl,
    rfl, rfl, rfl, rfl, rfl, fun _ => rfl⟩

theorem Wrote.cons {w w' w'' : FileWal E} {lsn : Nat} {e : WalEntry E} {k : Nat}
    (h₁ : Wrote fmt w w' lsn [e] 1)
    (h₂ : Wrote fmt w' w'' (lsn + 1) es k) : Wrote fmt w w'' lsn (e :: es) (k + 1) where
  le := by
    have := h₂.le
    simpa using this
  written := by
    rw [h₂.written, h₁.written, h₁.activeId]
    simp [stampedFrom]
  indexed := by
    intro l hle hlt
    by_cases hl : l = lsn
    · obtain ⟨loc, hloc, hid⟩ := h₁.indexed l hle (by omega)
      exact ⟨loc, (h₂.kept l (by omega)).trans hloc, hid⟩
    · obtain ⟨loc, hloc, hid⟩ := h₂.indexed l (by omega) (by omega)
      exact ⟨loc, hloc, hid.trans h₁.activeId⟩
  kept := by
    intro l hl
    rw [h₂.kept l (by omega), h₁.kept l (by omega)]
  activeId := h₂.activeId.trans h₁.activeId
  activeStart := h₂.activeStart.trans h₁.activeStart
  config := h₂.config.trans h₁.config
  segments := h₂.segments.trans h₁.segments
  currentLsn := h₂.currentLsn.trans h₁.currentLsn
  committedLsn := h₂.committedLsn.trans h₁.committedLsn
  rotations := h₂.rotations.trans h₁.rotations
  selected := h₂.selected.trans h₁.selected
  nil_eq := fun hnil => nomatch hnil

theorem Wrote.stop {w w' : FileWal E} {lsn : Nat} {e : WalEntry E}
    (h : Wrote fmt w w' lsn [e] 0) (es : List (WalEntry E)) : Wrote fmt w w' lsn (e :: es) 0 :=
  { h with
    le := Nat.zero_le _
    written := by simpa [stampedFrom] using h.written
    nil_eq := fun hnil => nomatch hnil }

/-- **The write loop** places and indexes a prefix of the entries; it returns `Ok`, with the
consecutive LSNs, exactly when the prefix is everything. -/
theorem writeEntries_spec (io : Nat → IoOutcome) (w : FileWal E)
    (lsn : Nat) (es : List (WalEntry E)) :
    (∃ w', writeEntries fmt io w lsn es = (.ok (List.range' lsn es.length), w') ∧
      Wrote fmt w w' lsn es es.length) ∨
    (∃ err k w', writeEntries fmt io w lsn es = (.error err, w') ∧ k < es.length ∧
      Wrote fmt w w' lsn es k) := by
  induction es generalizing w lsn with
  | nil => exact .inl ⟨w, rfl, Wrote.refl fmt w lsn []⟩
  | cons e es ih =>
    rcases writeEntry_spec fmt w lsn e (io lsn) with ⟨size, w', hone, hw⟩ | ⟨err, w', hone, hw⟩
    · rcases ih w' (lsn + 1) with ⟨w'', hrest, hw'⟩ | ⟨err, k, w'', hrest, hk, hw'⟩
      · refine .inl ⟨w'', ?_, hw.cons fmt hw'⟩
        simp only [writeEntries, hone, hrest, List.length_cons, List.range'_succ]
      · refine .inr ⟨err, k + 1, w'', ?_, by simpa using hk, hw.cons fmt hw'⟩
        simp only [writeEntries, hone, hrest]
    · refine .inr ⟨err, 0, w', ?_, by simp, hw.stop fmt es⟩
      simp only [writeEntries, hone]

/-- Under the lock, an `Ok` means that everything was written; an `Err` may leave any prefix,
and after a failed `fsync` even all of it. -/
theorem appendLocked_spec (w : FileWal E) (batch : Bool) (lsn : Nat)
    (es : List (WalEntry E)) (io : Nat → IoOutcome) (syncOk : Bool) :
    (∃ w', appendLocked fmt w batch lsn es io syncOk = (.ok (List.range' lsn es.length), w') ∧
      Wrote fmt w w' lsn es es.length) ∨
    (∃ err k w', appendLocked fmt w batch lsn es io syncOk = (.error err, w') ∧
      Wrote fmt w w' lsn es k) := by
  rcases writeEntries_spec fmt io w lsn es with ⟨w', hres, hw⟩ | ⟨err, k, w', hres, -, hw⟩
  · simp only [appendLocked, hres]
    split
    · exact .inr ⟨_, _, w', rfl, hw⟩
    · exact .inl ⟨w', rfl, hw⟩
  · simp only [appendLocked, hres]
    exact .inr ⟨err, k, w', rfl, hw⟩

theorem appendLocked_written_of_fail {w : FileWal E} {batch : Bool} {lsn : Nat}
    {io : Nat → IoOutcome} {syncOk : Bool} (h : io lsn ≠ .ok) :
    (appendLocked fmt w batch lsn es io syncOk).2.written = w.written := by
  cases es with
  | nil =>
    simp only [appendLocked, writeEntries]
    split <;> rfl
  | cons e es =>
    have herr : ∃ err w', writeEntry fmt w lsn e (io lsn) = (.error err, w') ∧
        w'.written = w.written := by
      cases hio : io lsn with
      | ok => exact absurd hio h
      | fail n =>
        simp only [writeEntry, writeEntryToSegment]
        -- full segment, direct I/O, short file and mapped file in turn
        split_ifs <;> exact ⟨_, _, rfl, rfl⟩
    obtain ⟨err, w', hone, hwritten⟩ := herr
    simp only [appendLocked, writeEntries, hone]
    exact hwritten

end FileWal

/-! ## State and actions -/

/-- How far an append in flight has got. -/
inductive AppendPhase where
  | reserved | written
  deriving DecidableEq, Repr

/-- An `append` (one entry) or `append_batch` call that holds the LSNs from `lsn` on. -/
structure AppendCall (E : Type) where
  batch : Bool
  lsn : Nat
  entries : List (WalEntry E)
  phase : AppendPhase

structure System (E : Type) where
  wal : FileWal E
  calls : List (AppendCall E)
  returned : List (WalEntry E)
  truncated : List Nat

inductive Action (E : Type) where
  | reserve (batch : Bool) (entries : List (WalEntry E)) (available : Nat)
  | write (i : Nat) (io : Nat → FileWal.IoOutcome) (syncOk : Bool)
  | finish (i : Nat) (ok : Bool)
  | rotateLoad
  | rotateCreate (i : Nat) (createOk : Bool)
  | rotateSwap (i : Nat) (syncOk : Bool)
  | commit (lsn : Nat)
  | commitBatch (lsns : List Nat)
  | truncateIndex (upToLsn : Nat)
  | compactSelect
  | compactNext (copyOk removeOk : Bool)

namespace System

def new (config : WalConfig) : System E where
  wal := FileWal.new config
  calls := []
  returned := []
  truncated := []

variable (fmt : Format E)

/-- One atomic step of some task. -/
def step (s : System E) : Action E → Option (System E)
  | .reserve batch entries available => do
    guard (batch ∨ entries.length = 1)
    match FileWal.ensureSufficientDiskSpace s.wal.config available
        (entries.map (fun e => (e.toBytes fmt).length)).sum with
    | .error _ => some s
    | .ok () =>
      let (lsn, wal) := s.wal.fetchAdd entries.length
      some { s with wal, calls := s.calls ++ [{ batch, lsn, entries, phase := .reserved }] }
  | .write i io syncOk => do
    let c ← s.calls[i]?
    guard (c.phase = .reserved)
    match FileWal.appendLocked fmt s.wal c.batch c.lsn c.entries io syncOk with
    | (.ok _, wal) => some { s with wal, calls := s.calls.set i { c with phase := .written } }
    | (.error _, wal) => some { s with wal, calls := s.calls.eraseIdx i }
  | .finish i ok => do
    let c ← s.calls[i]?
    guard (c.phase = .written)
    -- only `append` can still fail here, when the rotation it started does
    guard (ok ∨ ¬ c.batch)
    some { s with
      calls := s.calls.eraseIdx i
      returned := if ok then s.returned ++ FileWal.stampedFrom fmt c.lsn c.entries else s.returned }
  | .rotateLoad => some { s with wal := s.wal.rotateLoad }
  | .rotateCreate i createOk => (s.wal.rotateCreate i createOk).map ({ s with wal := · })
  | .rotateSwap i syncOk => (s.wal.rotateSwap i syncOk).map ({ s with wal := · })
  | .commit lsn => some { s with wal := s.wal.commit lsn }
  | .commitBatch lsns => some { s with wal := s.wal.commitBatch lsns }
  | .truncateIndex upToLsn =>
    some { s with wal := s.wal.truncateIndex upToLsn, truncated := s.truncated ++ [upToLsn] }
  | .compactSelect => some { s with wal := s.wal.compactSelect }
  | .compactNext copyOk removeOk => (s.wal.compactNext copyOk removeOk).map ({ s with wal := · })

/-! ## What each step can do -/

variable {fmt} {s s' : System E}

theorem step_reserve {batch : Bool} {entries : List (WalEntry E)} {available : Nat}
    (h : step fmt s (.reserve batch entries available) = some s') :
    s' = s ∨ s' = { s with
      wal := { s.wal with currentLsn := s.wal.currentLsn + entries.length }
      calls := s.calls ++ [{ batch, lsn := s.wal.currentLsn, entries, phase := .reserved }] } := by
  simp only [step, Option.bind_eq_bind, Option.bind_eq_some_iff] at h
  obtain ⟨-, -, h⟩ := h
  split at h
  · exact .inl (Option.some.inj h).symm
  · exact .inr (Option.some.inj h).symm

theorem step_write {i : Nat} {io : Nat → FileWal.IoOutcome} {syncOk : Bool}
    (h : step fmt s (.write i io syncOk) = some s') :
    ∃ c k wal, s.calls[i]? = some c ∧ c.phase = .reserved ∧
      FileWal.Wrote fmt s.wal wal c.lsn c.entries k ∧
      ((k = c.entries.length ∧
        s' = { s with wal, calls := s.calls.set i { c with phase := .written } }) ∨
      s' = { s with wal, calls := s.calls.eraseIdx i }) := by
  simp only [step, Option.bind_eq_bind, Option.bind_eq_some_iff, Option.guard_eq_some'] at h
  obtain ⟨c, hc, -, hphase, h⟩ := h
  rcases FileWal.appendLocked_spec fmt s.wal c.batch c.lsn c.entries io syncOk with
    ⟨w', hres, hw⟩ | ⟨err, k, w', hres, hw⟩
  · rw [hres] at h
    exact ⟨c, _, w', hc, hphase, hw, .inl ⟨rfl, (Option.some.inj h).symm⟩⟩
  · rw [hres] at h
    exact ⟨c, k, w', hc, hphase, hw, .inr (Option.some.inj h).symm⟩

theorem step_write_wal {i : Nat} {io : Nat → FileWal.IoOutcome} {syncOk : Bool}
    (h : step fmt s (.write i io syncOk) = some s') :
    ∃ c, s.calls[i]? = some c ∧
      s'.wal = (FileWal.appendLocked fmt s.wal c.batch c.lsn c.entries io syncOk).2 := by
  simp only [step, Option.bind_eq_bind, Option.bind_eq_some_iff, Option.guard_eq_some'] at h
  obtain ⟨c, hc, -, -, h⟩ := h
  refine ⟨c, hc, ?_⟩
  split at h
  next hres =>
    cases h
    rw [hres]
  next hres =>
    cases h
    rw [hres]

theorem step_finish {i : Nat} {ok : Bool} (h : step fmt s (.finish i ok) = some s') :
    ∃ c, s.calls[i]? = some c ∧ c.phase = .written ∧
      s' = { s with
        calls := s.calls.eraseIdx i
        returned :=
          if ok then s.returned ++ FileWal.stampedFrom fmt c.lsn c.entries else s.returned } := by
  simp only [step, Option.bind_eq_bind, Option.bind_eq_some_iff, Option.guard_eq_some'] at h
  obtain ⟨c, hc, -, hphase, -, -, h⟩ := h
  exact ⟨c, hc, hphase, (Option.some.inj h).symm⟩

end System

/-! ## Rotation and compaction steps -/

namespace FileWal

variable {w w' : FileWal E}

theorem rotateCreate_cases {i : Nat} {createOk : Bool}
    (h : w.rotateCreate i createOk = some w') :
    ∃ r, w.rotations[i]? = some r ∧ r.newSegmentId = none ∧
      (w' = { w with
        disk := createFile w.config w.disk (w.activeSegment.id + 1)
        rotations := w.rotations.set i { r with newSegmentId := some (w.activeSegment.id + 1) } } ∨
      w' = { w with rotations := w.rotations.eraseIdx i }) := by
  simp only [rotateCreate, Option.bind_eq_bind, Option.bind_eq_some_iff,
    Option.guard_eq_some'] at h
  obtain ⟨r, hr, -, hnew, h⟩ := h
  refine ⟨r, hr, hnew, ?_⟩
  cases createOk with
  | true => exact .inl (Option.some.inj h).symm
  | false => exact .inr (Option.some.inj h).symm

theorem rotateSwap_cases {i : Nat} {syncOk : Bool} (h : w.rotateSwap i syncOk = some w') :
    ∃ r id, w.rotations[i]? = some r ∧ r.newSegmentId = some id ∧
      ((syncOk = true ∧ w' = { w with
        segments := w.segments.insert w.activeSegment.id (rotationInfo w.activeSegment r.currentLsn)
        activeSegment := newSegment w.config id r.currentLsn
        rotations := w.rotations.eraseIdx i }) ∨
      (syncOk = false ∧ w' = { w with
        activeSegment := { w.activeSegment with endLsn := some r.currentLsn }
        rotations := w.rotations.eraseIdx i })) := by
  simp only [rotateSwap, Option.bind_eq_bind, Option.bind_eq_some_iff] at h
  obtain ⟨r, hr, id, hid, h⟩ := h
  refine ⟨r, id, hr, hid, ?_⟩
  cases syncOk with
  | true => exact .inl ⟨rfl, (Option.some.inj h).symm⟩
  | false => exact .inr ⟨rfl, (Option.some.inj h).symm⟩

theorem compactNext_cases {copyOk removeOk : Bool}
    (h : w.compactNext copyOk removeOk = some w') :
    ∃ info rest, w.selected = info :: rest ∧
      w' = { w.compactSegment info copyOk removeOk with selected := rest } := by
  unfold compactNext at h
  split at h
  · cases h
  next info rest hsel => exact ⟨info, rest, hsel, (Option.some.inj h).symm⟩

theorem truncateIndex_le {upToLsn l : Nat} {loc : SegmentLocation}
    (h : (w.truncateIndex upToLsn).lsnIndex l = some loc) : w.lsnIndex l = some loc := by
  simp only [truncateIndex] at h
  split at h
  · exact h
  · cases h

theorem commitBatch_currentLsn (lsns : List Nat) :
    (w.commitBatch lsns).currentLsn = w.currentLsn := by
  unfold commitBatch
  split <;> rfl

theorem commitBatch_disk (lsns : List Nat) : (w.commitBatch lsns).disk = w.disk := by
  unfold commitBatch
  split <;> rfl

theorem compactSelect_currentLsn : w.compactSelect.currentLsn = w.currentLsn := by
  unfold compactSelect
  dsimp only
  split <;> rfl

theorem compactSelect_disk : w.compactSelect.disk = w.disk := by
  unfold compactSelect
  dsimp only
  split <;> rfl

theorem compactSegment_currentLsn (info : SegmentInfo) (copyOk removeOk : Bool) :
    (w.compactSegment info copyOk removeOk).currentLsn = w.currentLsn := by
  unfold compactSegment
  split <;> rfl

variable (w) in
theorem compactSegment_disk (info : SegmentInfo) (copyOk removeOk : Bool) :
    (w.compactSegment info copyOk removeOk).disk = w.disk ∨
      (w.compactSegment info copyOk removeOk).disk = w.disk.erase info.id := by
  unfold compactSegment
  split
  · cases removeOk with
    | true => exact .inr rfl
    | false => exact .inl rfl
  · exact .inl rfl

end FileWal

def Action.background : Action E → Bool
  | .reserve .. | .write .. | .finish .. => false
  | _ => true

namespace System

variable {fmt : Format E} {s s' : System E}

theorem step_background {a : Action E} (ha : a.background) (h : step fmt s a = some s') :
    s'.calls = s.calls ∧ s'.returned = s.returned ∧ s'.wal.currentLsn = s.wal.currentLsn := by
  cases a with
  | reserve | write | finish => cases ha
  | rotateLoad | commit | truncateIndex =>
    cases h
    exact ⟨rfl, rfl, rfl⟩
  | rotateCreate i createOk =>
    obtain ⟨w', hw, rfl⟩ := Option.map_eq_some_iff.mp h
    obtain ⟨r, -, -, rfl | rfl⟩ := FileWal.rotateCreate_cases hw <;> exact ⟨rfl, rfl, rfl⟩
  | rotateSwap i syncOk =>
    obtain ⟨w', hw, rfl⟩ := Option.map_eq_some_iff.mp h
    obtain ⟨r, id, -, -, ⟨-, rfl⟩ | ⟨-, rfl⟩⟩ := FileWal.rotateSwap_cases hw <;>
      exact ⟨rfl, rfl, rfl⟩
  | commitBatch lsns =>
    cases h
    exact ⟨rfl, rfl, FileWal.commitBatch_currentLsn lsns⟩
  | compactSelect =>
    cases h
    exact ⟨rfl, rfl, FileWal.compactSelect_currentLsn⟩
  | compactNext copyOk removeOk =>
    obtain ⟨w', hw, rfl⟩ := Option.map_eq_some_iff.mp h
    obtain ⟨info, rest, -, rfl⟩ := FileWal.compactNext_cases hw
    exact ⟨rfl, rfl, FileWal.compactSegment_currentLsn info copyOk removeOk⟩

/-! ## LSN accounting -/

/-- Every LSN that a call holds or has returned came out of the counter. -/
structure Accounted (s : System E) : Prop where
  calls_le : ∀ c ∈ s.calls, c.lsn + c.entries.length ≤ s.wal.currentLsn
  returned_lt : ∀ e ∈ s.returned, e.header.lsn < s.wal.currentLsn

theorem accounted_new (config : WalConfig) : Accounted (new config : System E) :=
  ⟨by simp [new], by simp [new]⟩

theorem accounted_step {a : Action E} (hs : Accounted s) (h : step fmt s a = some s') :
    Accounted s' := by
  cases a with
  | reserve batch entries available =>
    obtain rfl | rfl := step_reserve h
    · exact hs
    refine ⟨?_, ?_⟩
    · intro c hc
      rcases List.mem_append.mp hc with hold | hnew
      · have := hs.calls_le c hold
        dsimp only
        omega
      · cases List.mem_singleton.mp hnew
        exact le_refl _
    · intro e he
      have := hs.returned_lt e he
      dsimp only
      omega
  | write i io syncOk =>
    obtain ⟨c, k, wal, hc, -, hw, hres⟩ := step_write h
    have hmem : c ∈ s.calls := List.mem_of_getElem? hc
    rcases hres with ⟨-, rfl⟩ | rfl
    · refine ⟨?_, ?_⟩
      · intro d hd
        rw [hw.currentLsn]
        rcases List.mem_or_eq_of_mem_set hd with hold | rfl
        · exact hs.calls_le d hold
        · exact hs.calls_le c hmem
      · intro e he
        rw [hw.currentLsn]
        exact hs.returned_lt e he
    · refine ⟨?_, ?_⟩
      · intro d hd
        rw [hw.currentLsn]
        exact hs.calls_le d (List.mem_of_mem_eraseIdx hd)
      · intro e he
        rw [hw.currentLsn]
        exact hs.returned_lt e he
  | finish i ok =>
    obtain ⟨c, hc, -, rfl⟩ := step_finish h
    have hmem : c ∈ s.calls := List.mem_of_getElem? hc
    refine ⟨fun d hd => hs.calls_le d (List.mem_of_mem_eraseIdx hd), ?_⟩
    intro e he
    cases ok with
    | false => exact hs.returned_lt e he
    | true =>
      rcases List.mem_append.mp he with hold | hnew
      · exact hs.returned_lt e hold
      · have := FileWal.lsn_mem_stampedFrom fmt hnew
        have := hs.calls_le c hmem
        dsimp only
        omega
  | rotateLoad | rotateCreate | rotateSwap | commit | commitBatch | truncateIndex | compactSelect
  | compactNext =>
    obtain ⟨hcalls, hret, hlsn⟩ := step_background rfl h
    exact ⟨by rw [hcalls, hlsn]; exact hs.calls_le, by rw [hret, hlsn]; exact hs.returned_lt⟩

theorem accounted_reaches {config : WalConfig} {ok : System E → Action E → Prop}
    (h : Reaches (step fmt) ok (new config) s) : Accounted s :=
  h.invariant (accounted_new config) (fun _ _ _ hs _ hstep => accounted_step hs hstep)

end System

/-! ## Concrete runs -/

def sampleConfig : WalConfig where
  maxFileSize := 1024
  preallocate := true
  directIo := false
  minFreeDiskSpace := 0
  fsyncMode := .EveryWrite
  compactionPolicy := { enabled := true, minSegments := 1, archiveBeforeCompact := false }
  corruptionTolerance := .FailOnCorruption

def sampleEntry : WalEntry Nat := WalEntry.new 0 .RocksDbWrite (.Raw [1, 2, 3]) 0

/-- The steps of one `append` that nothing disturbs, up to its return. -/
def appendSteps (e : WalEntry Nat) : List (Action Nat) :=
  [.reserve false [e] 0, .write 0 (fun _ => .ok) true, .finish 0 true]

def rotateSteps : List (Action Nat) := [.rotateLoad, .rotateCreate 0 true, .rotateSwap 0 true]

end Arcxa.Wal
