import Arcxa.Lib.Cursor
import Arcxa.Wal.Recovery

/-!
# Where the loops over a segment go on (`recover`, `validate`, `repair_segment`)

The three loops read an entry at a cursor, and move the cursor by `size_bytes` of the entry or to
what `find_next_entry` finds. Each is a round of `Arcxa.Cursor.run` (`loops_take`), with the size of the segment
apart from the bytes of its file. They end on all bytes and never leave the file.

`size_bytes` counts the header and the payload. An entry with a transaction context is left at the
first byte of its context, and what stands there can be another entry. `sound_iff`: nothing is
decoded into two entries exactly when no loop accepts one inside a context.
-/

namespace Arcxa.Wal.Recovery

open Cursor (run Accepts Skips Visits Forward Follows Separates)

variable {E : Type} (fmt : Format E)

/-! ## Rounds -/

/-- Go on with the next entry that `find_next_entry` finds. -/
def resync (file : Bytes) (position : Nat) : Round (WalEntry E) :=
  match findNextEntry fmt file position with
  | some next => .skip next
  | none => .stop

/-- A round of `recover`. -/
def recoverRound (tolerance : CorruptionTolerance) (file : Bytes) (position : Nat) :
    Round (WalEntry E) :=
  match readEntryAt fmt file position with
  | .ok (some entry) =>
    if validateEntry fmt entry then .accept entry (position + entry.sizeBytes)
    else if tolerance = .TruncateAtCorruption then .stop
    else .skip (position + entry.sizeBytes)
  | .ok none => .stop
  | .error _ => resync fmt file position

/-- A round of `validate`; a valid entry is one that it counts as valid. -/
def validateRound (file : Bytes) (position : Nat) : Round (WalEntry E) :=
  match readEntryAt fmt file position with
  | .ok (some entry) =>
    if validateEntry fmt entry then .accept entry (position + entry.sizeBytes)
    else .skip (position + entry.sizeBytes)
  | .ok none | .error _ => .stop

/-- A round of `repair_segment`. -/
def repairRound (file : Bytes) (position : Nat) : Round (WalEntry E) :=
  match readEntryAt fmt file position with
  | .ok (some entry) =>
    if validateEntry fmt entry then .accept entry (position + entry.sizeBytes)
    else resync fmt file position
  | .ok none | .error _ => resync fmt file position

/-- The three loops. -/
inductive SegmentLoop where
  | recover (tolerance : CorruptionTolerance)
  | validate
  | repair

def SegmentLoop.round (loop : SegmentLoop) (file : Bytes) (position : Nat) : Round (WalEntry E) :=
  match loop with
  | .recover tolerance => recoverRound fmt tolerance file position
  | .validate => validateRound fmt file position
  | .repair => repairRound fmt file position

variable {fmt} {file : Bytes} {position next : Nat} {e : WalEntry E} {loop : SegmentLoop}

/-! ## What a round does -/

theorem resync_ne_accept : resync fmt file position ≠ .accept e next := by
  unfold resync
  split <;> exact nofun

/-- **What a loop accepts is a valid entry, and it goes on behind the payload.** -/
theorem round_eq_accept_iff :
    loop.round fmt file position = .accept e next ↔
      readEntryAt fmt file position = .ok (some e) ∧ validateEntry fmt e = true ∧
        next = position + e.sizeBytes := by
  have hpick : ∀ rest : Round (WalEntry E), rest ≠ .accept e next → ∀ entry : WalEntry E,
      (if validateEntry fmt entry then .accept entry (position + entry.sizeBytes) else rest) =
        .accept e next ↔
      entry = e ∧ validateEntry fmt e = true ∧ next = position + e.sizeBytes := by
    intro rest hrest entry
    split_ifs with hvalid
    · rw [Round.accept.injEq]
      constructor
      · rintro ⟨rfl, rfl⟩
        exact ⟨rfl, hvalid, rfl⟩
      · rintro ⟨rfl, -, rfl⟩
        exact ⟨rfl, rfl⟩
    · refine iff_of_false hrest ?_
      rintro ⟨rfl, hvalid', -⟩
      exact hvalid hvalid'
  cases loop with
  | recover tolerance =>
    dsimp only [SegmentLoop.round, recoverRound]
    cases readEntryAt fmt file position with
    | error err => exact iff_of_false resync_ne_accept nofun
    | ok found =>
      cases found with
      | none => exact iff_of_false nofun nofun
      | some entry =>
        dsimp only
        rw [hpick _ (by split_ifs <;> exact fun h => nomatch h)]
        simp
  | validate =>
    dsimp only [SegmentLoop.round, validateRound]
    cases readEntryAt fmt file position with
    | error err => exact iff_of_false nofun nofun
    | ok found =>
      cases found with
      | none => exact iff_of_false nofun nofun
      | some entry =>
        dsimp only
        rw [hpick (.skip _) fun h => nomatch h]
        simp
  | repair =>
    dsimp only [SegmentLoop.round, repairRound]
    cases readEntryAt fmt file position with
    | error err => exact iff_of_false resync_ne_accept nofun
    | ok found =>
      cases found with
      | none => exact iff_of_false resync_ne_accept nofun
      | some entry =>
        dsimp only
        rw [hpick _ resync_ne_accept]
        simp

theorem lt_of_resync (h : resync fmt file position = .skip next) : position < next := by
  unfold resync at h
  split at h
  next found hfound =>
    cases h
    exact lt_of_findNextEntry hfound
  · cases h

/-- **Every loop moves forward.** -/
theorem forward (loop : SegmentLoop) (file : Bytes) : Forward (loop.round fmt file) := by
  refine ⟨fun position e next h => ?_, fun position next h => ?_⟩
  · obtain ⟨-, -, rfl⟩ := round_eq_accept_iff.mp h
    exact Nat.lt_add_of_pos_right (sizeBytes_pos e)
  · have hsize : ∀ entry : WalEntry E, position < position + entry.sizeBytes := fun entry =>
      Nat.lt_add_of_pos_right (sizeBytes_pos entry)
    cases loop with
    | recover tolerance =>
      dsimp only [SegmentLoop.round, recoverRound] at h
      split at h
      next entry hread =>
        split_ifs at h
        cases h
        exact hsize entry
      · cases h
      · exact lt_of_resync h
    | validate =>
      dsimp only [SegmentLoop.round, validateRound] at h
      split at h
      next entry hread =>
        split_ifs at h
        cases h
        exact hsize entry
      · cases h
      · cases h
    | repair =>
      dsimp only [SegmentLoop.round, repairRound] at h
      split at h
      next entry hread =>
        split_ifs at h
        exact lt_of_resync h
      · exact lt_of_resync h
      · exact lt_of_resync h

/-! ## The loops of the source -/

theorem follows_recover (tolerance : CorruptionTolerance) :
    Follows ((SegmentLoop.recover tolerance).round fmt file) file.length
      (recoverSegment fmt tolerance file) RecoveryResult.recoveredEntries
      (fun kept e => kept ++ [e]) := by
  intro position acc
  constructor
  · intro hle
    rw [recoverSegment, if_neg hle.not_gt]
  · intro hlt
    rw [recoverSegment, if_pos hlt]
    dsimp only [SegmentLoop.round, recoverRound, resync]
    cases hread : readEntryAt fmt file position with
    | error err =>
      dsimp only
      cases hnext : findNextEntry fmt file position with
      | some next => exact ⟨acc, rfl, rfl⟩
      | none => rfl
    | ok found =>
      cases found with
      | none => rfl
      | some entry =>
        dsimp only
        split_ifs
        · exact ⟨_, rfl, rfl⟩
        · rfl
        · exact ⟨_, rfl, rfl⟩

theorem follows_validate :
    Follows (SegmentLoop.validate.round fmt file) file.length
      (fun position s => validateSegment fmt file position s.1 s.2)
      (fun s : Bool × ValidationReport => s.2.validEntries) (fun n _ => n + 1) := by
  rintro position ⟨valid, report⟩
  constructor
  · intro hle
    dsimp only
    rw [validateSegment, if_neg hle.not_gt]
  · intro hlt
    dsimp only
    rw [validateSegment, if_pos hlt]
    dsimp only [SegmentLoop.round, validateRound]
    cases hread : readEntryAt fmt file position with
    | error err => rfl
    | ok found =>
      cases found with
      | none => rfl
      | some entry =>
        dsimp only
        split_ifs
        · exact ⟨(_, _), rfl, rfl⟩
        · exact ⟨(_, _), rfl, rfl⟩

theorem follows_repair :
    Follows (SegmentLoop.repair.round fmt file) file.length (repairSegment fmt file) id
      (fun output e => output ++ e.toBytes fmt) := by
  intro position output
  constructor
  · intro hle
    rw [repairSegment, if_neg hle.not_gt]
  · intro hlt
    rw [repairSegment, if_pos hlt]
    dsimp only [SegmentLoop.round, repairRound, resync]
    cases hread : readEntryAt fmt file position with
    | error err =>
      dsimp only
      cases hnext : findNextEntry fmt file position with
      | some next => exact ⟨output, rfl, rfl⟩
      | none => rfl
    | ok found =>
      cases found with
      | none =>
        dsimp only
        cases hnext : findNextEntry fmt file position with
        | some next => exact ⟨output, rfl, rfl⟩
        | none => rfl
      | some entry =>
        dsimp only
        split_ifs
        · exact ⟨_, rfl, rfl⟩
        · cases hnext : findNextEntry fmt file position with
          | some next => exact ⟨output, rfl, rfl⟩
          | none => rfl

/-- **What the loops of the source take** is what their rounds accept. -/
theorem loops_take {fuel : Nat} {trace : List (Nat × WalEntry E)} (loop : SegmentLoop)
    (hrun : run (loop.round fmt file) file.length fuel position = some trace) :
    match loop with
    | .recover tolerance => ∀ acc,
      (recoverSegment fmt tolerance file position acc).recoveredEntries =
        acc.recoveredEntries ++ trace.map (·.2)
    | .validate => ∀ valid report,
      (validateSegment fmt file position valid report).2.validEntries =
        report.validEntries + trace.length
    | .repair => ∀ output, repairSegment fmt file position output =
        output ++ (trace.map (·.2)).flatMap fun e => e.toBytes fmt := by
  cases loop with
  | recover tolerance =>
    intro acc
    have hkept := (follows_recover tolerance).obs_loop hrun acc
    rwa [List.foldl_append_eq_append, ← List.flatMap_def, List.flatMap_singleton'] at hkept
  | validate =>
    intro valid report
    have hcount := follows_validate.obs_loop hrun (valid, report)
    rwa [List.foldl_add_const, Nat.one_mul, List.length_map] at hcount
  | repair =>
    intro output
    have houtput := follows_repair.obs_loop hrun output
    rwa [List.foldl_append_eq_append] at houtput

/-! ## Nothing is decoded twice -/

variable (fmt)

def extent (e : WalEntry E) : Nat := e.sizeBytes + (e.transactionBytes fmt).length

/-- The loops over a segment end, what they accept overlaps nowhere, and the search for the next
entry goes forward. -/
structure Sound (file : Bytes) (size : Nat) : Prop where
  loops : ∀ loop : SegmentLoop, ∃ fuel trace,
    run (loop.round fmt file) size fuel 0 = some trace ∧
      trace.Pairwise fun a b => a.1 + extent fmt a.2 ≤ b.1
  findNextEntry : ∀ start next, findNextEntry fmt file start = some next → start < next

def ValidAt (file : Bytes) (position : Nat) (e : WalEntry E) : Prop :=
  readEntryAt fmt file position = .ok (some e) ∧ validateEntry fmt e = true

def ContextsUnread (file : Bytes) (size : Nat) : Prop :=
  ∀ (loop : SegmentLoop) (p : Nat) (e : WalEntry E), Visits (loop.round fmt file) size 0 p →
    p < size → ValidAt fmt file p e → e.transaction ≠ none →
    ∀ q < size, Skips (loop.round fmt file) size (p + e.sizeBytes) q →
      q < p + e.sizeBytes + (e.transactionBytes fmt).length → ∀ e', ¬ ValidAt fmt file q e'

variable {fmt}

theorem entry_accepts_iff {size : Nat} :
    Accepts (loop.round fmt file) size position e ↔ position < size ∧ ValidAt fmt file position e :=
  by
  refine and_congr_right fun _ => ⟨?_, ?_⟩
  · rintro ⟨next, haccept⟩
    obtain ⟨hread, hvalid, -⟩ := round_eq_accept_iff.mp haccept
    exact ⟨hread, hvalid⟩
  · intro hvalid
    exact ⟨_, round_eq_accept_iff.mpr ⟨hvalid.1, hvalid.2, rfl⟩⟩

theorem separates_iff {size : Nat} :
    Separates (loop.round fmt file) size (extent fmt) 0 ↔
      ∀ p e, Visits (loop.round fmt file) size 0 p → p < size → ValidAt fmt file p e →
        e.transaction ≠ none → ∀ q < size, Skips (loop.round fmt file) size (p + e.sizeBytes) q →
          q < p + e.sizeBytes + (e.transactionBytes fmt).length → ∀ e', ¬ ValidAt fmt file q e' := by
  constructor
  · intro h p e hvisit hp hvalid _ q hq hskips hlt e' hvalid'
    have hend := h p e _ q e' hvisit hp (round_eq_accept_iff.mpr ⟨hvalid.1, hvalid.2, rfl⟩) hskips
      (entry_accepts_iff.mpr ⟨hq, hvalid'⟩)
    unfold extent at hend
    omega
  · intro h p e next q e' hvisit hp haccept hskips haccepts
    obtain ⟨hread, hvalid, rfl⟩ := round_eq_accept_iff.mp haccept
    obtain ⟨hq, hvalid'⟩ := entry_accepts_iff.mp haccepts
    by_contra hlt
    rw [Nat.not_le] at hlt
    by_cases htx : e.transaction = none
    · -- without a context the loop goes on where the entry ends, and never back
      have hnone : (e.transactionBytes fmt).length = 0 := by
        rw [WalEntry.transactionBytes, htx]
        rfl
      have hle := (forward loop file).le_of_skips hskips
      unfold extent at hlt
      omega
    · refine h p e hvisit hp ⟨hread, hvalid⟩ htx q hq hskips ?_ e' hvalid'
      unfold extent at hlt
      omega

/-- **Nothing is decoded twice** exactly when no loop finds a valid entry in a context. -/
theorem sound_iff (fmt : Format E) (file : Bytes) (size : Nat) :
    Sound fmt file size ↔ ContextsUnread fmt file size := by
  constructor
  · intro h loop p e
    obtain ⟨fuel, trace, htrace, hapart⟩ := h.loops loop
    have hseparates := (Cursor.apart_iff htrace).mp hapart.isChain
    exact separates_iff.mp hseparates p e
  · intro h
    refine ⟨fun loop => ?_, fun start next => lt_of_findNextEntry⟩
    have hforward : Forward (loop.round fmt file) := forward loop file
    obtain ⟨fuel, trace, htrace⟩ := Cursor.exists_run hforward size 0
    exact ⟨fuel, trace, htrace,
      ((Cursor.apart_iff htrace).mpr (separates_iff.mpr (h loop))).pairwise⟩

/-! ### An entry in a context

The first entry has a context of 21 bytes, which are the first bytes of the second one; both carry
the checksums that `from_bytes` and `validate_entry` compute.
-/

def sampleSegment : Bytes :=
  [73, 0, 0, 0, 0, 0, 0, 0, 0, 0, 0, 0, 0, 0, 0, 0, 0, 0, 0, 0, 179, 180, 24, 211, 0, 0, 0, 0,
    12, 0, 0, 0, 40, 24, 190, 238, 0, 0, 0, 1, 9, 0, 0, 0, 0, 0, 0, 0, 0, 0, 0, 0,
    52, 0, 0, 0, 0, 0, 0, 0, 0, 0, 0, 0, 0, 0, 0, 0, 0, 0, 0, 0, 0, 95, 136, 35, 30, 0, 0, 0,
    12, 0, 0, 0, 254, 252, 124, 230, 0, 0, 0, 1, 9, 0, 0, 0, 0, 0, 0, 0, 0, 0, 0, 0]

def sampleHeader (lsn : Nat) (timestampUs : UInt64) (checksum : UInt32) : EntryHeader :=
  ⟨lsn, 0, .LineageWrite, timestampUs, 12, checksum, {}⟩

def sampleOuter : WalEntry Nat :=
  ⟨sampleHeader 73 3541611699 4005435432, .Raw [], some ⟨52, none, .ReadUncommitted, []⟩⟩

def sampleInner : WalEntry Nat := ⟨sampleHeader 52 129445158656 3866950910, .Raw [], none⟩

set_option maxRecDepth 20000 in
/-- Both entries are valid, at positions 0 and 52, though the bytes of the first end at 73. -/
theorem entry_in_context_accepted :
    ValidAt bincode sampleSegment 0 sampleOuter ∧ extent bincode sampleOuter = 73 ∧
      ValidAt bincode sampleSegment 52 sampleInner ∧
      ¬ Sound bincode sampleSegment sampleSegment.length := by
  have houter : ValidAt bincode sampleSegment 0 sampleOuter :=
    ⟨by decide +kernel, by decide +kernel⟩
  have hinner : ValidAt bincode sampleSegment 52 sampleInner :=
    ⟨by decide +kernel, by decide +kernel⟩
  refine ⟨houter, by decide +kernel, hinner, fun h => ?_⟩
  have hunread := (sound_iff _ _ _).mp h (.recover .FailOnCorruption) 0 sampleOuter (.refl 0)
    (by decide) houter (by decide)
  exact hunread 52 (by decide) (.refl 52) (by decide +kernel) sampleInner hinner

end Arcxa.Wal.Recovery
