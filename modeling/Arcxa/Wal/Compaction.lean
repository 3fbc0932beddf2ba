import Arcxa.Wal.System

/-!
# What compaction removes

`compact_segment` drops the index entries of an inclusive range of LSNs, from the
segment's `start_lsn` to its `end_lsn`, and deletes the file. It goes by numbers, not by
where an entry lives. The end of the range is the value of `current_lsn` that the
rotation loaded, which is the *next* LSN to be handed out.

* `Ranged` is the invariant that ties numbers to places: the segments own disjoint,
  consecutive ranges and every entry lies in the range of the segment it was written to.
* `Disciplined` is what a schedule has to respect for it: no append is carried over a
  rotation, rotations do not overlap, and a segment is compacted only while the LSN after
  its last one has no index entry.
* `compaction_safe`: in such runs compaction removes exactly the index entries of its
  segment, all of them committed.

Outside them it does not: `compaction_drops_next_segment` loses the first entry of the
segment that follows.
-/

namespace Arcxa.Wal

open FileWal

variable {E : Type}

/-- What compaction of the segment `info` is meant to do between `w` and `w'`. -/
structure SafeCompaction (w w' : FileWal E) (info : SegmentInfo) (copyOk : Bool) : Prop where
  removes : w.archiveSegment info copyOk →
    ∀ l loc, w.lsnIndex l = some loc → (w'.lsnIndex l = none ↔ loc.segmentId = info.id)
  keeps : ∀ l loc, w.lsnIndex l = some loc → loc.segmentId ≠ info.id → w'.lsnIndex l = some loc
  addsNothing : ∀ l, w.lsnIndex l = none → w'.lsnIndex l = none
  committed : ∀ e, (info.id, e) ∈ w.written → e.header.lsn ≤ w.committedLsn

/-- The schedules that keep LSN ranges and segments together. -/
def Disciplined (s : System E) : Action E → Prop
  | .write i _ _ =>
    -- the append writes to the segment in whose range it reserved its LSNs
    ∀ c ∈ s.calls[i]?, c.entries ≠ [] → s.wal.activeSegment.startLsn ≤ c.lsn
  | .rotateSwap i true =>
    -- the rotation is the only one, and nothing was written past the LSN it loaded
    ∀ r ∈ s.wal.rotations[i]?,
      r.newSegmentId = some (s.wal.activeSegment.id + 1) ∧
      s.wal.activeSegment.startLsn ≤ r.currentLsn ∧
      ∀ p ∈ s.wal.written, p.1 = s.wal.activeSegment.id → p.2.header.lsn < r.currentLsn
  | .compactNext _ _ =>
    -- the boundary LSN is not indexed, and the watermark has not been moved back
    ∀ info ∈ s.wal.selected.head?, ∀ endLsn ∈ info.endLsn,
      s.wal.lsnIndex endLsn = none ∧ endLsn ≤ s.wal.committedLsn + 1
  | _ => True

instance (s : System E) (a : Action E) : Decidable (Disciplined s a) := by
  cases a with
  | rotateSwap i syncOk => cases syncOk <;> unfold Disciplined <;> infer_instance
  | _ => unfold Disciplined; infer_instance

/-! ## The invariant -/

/-- The segment `info` owns the LSNs from its start up to, and without, `endLsn`. -/
def Owns (info : SegmentInfo) (lsn : Nat) : Prop :=
  ∃ endLsn, info.endLsn = some endLsn ∧ info.startLsn ≤ lsn ∧ lsn < endLsn

structure Ranged (w : FileWal E) : Prop where
  indexed : ∀ l loc, w.lsnIndex l = some loc →
    ∃ e, (loc.segmentId, e) ∈ w.written ∧ e.header.lsn = l
  active_ge : ∀ p ∈ w.written, p.1 = w.activeSegment.id →
    w.activeSegment.startLsn ≤ p.2.header.lsn
  placed : ∀ p ∈ w.written, p.1 = w.activeSegment.id ∨
    ∃ info, w.segments.lookup p.1 = some info ∧ Owns info p.2.header.lsn
  rotated : ∀ id info, w.segments.lookup id = some info →
    info.id = id ∧ id < w.activeSegment.id ∧
    ∃ endLsn, info.endLsn = some endLsn ∧ endLsn ≤ w.activeSegment.startLsn
  ordered : ∀ id₁ id₂ info₁ info₂, w.segments.lookup id₁ = some info₁ →
    w.segments.lookup id₂ = some info₂ → id₁ < id₂ →
    ∃ endLsn, info₁.endLsn = some endLsn ∧ endLsn ≤ info₂.startLsn
  chosen : ∀ info ∈ w.selected, w.segments.lookup info.id = some info

namespace Ranged

variable {w w' : FileWal E}

theorem new (config : WalConfig) : Ranged (FileWal.new config : FileWal E) := by
  constructor <;> simp [FileWal.new]

variable (h : Ranged w)

include h

theorem of_frame (hwritten : w'.written = w.written)
    (hid : w'.activeSegment.id = w.activeSegment.id)
    (hstart : w'.activeSegment.startLsn = w.activeSegment.startLsn)
    (hsegments : w'.segments = w.segments) (hselected : ∀ info ∈ w'.selected, info ∈ w.selected)
    (hindex : ∀ l loc, w'.lsnIndex l = some loc → w.lsnIndex l = some loc) : Ranged w' where
  indexed := by
    intro l loc hloc
    rw [hwritten]
    exact h.indexed l loc (hindex l loc hloc)
  active_ge := by
    rw [hwritten, hid, hstart]
    exact h.active_ge
  placed := by
    rw [hwritten, hid, hsegments]
    exact h.placed
  rotated := by
    rw [hid, hstart, hsegments]
    exact h.rotated
  ordered := by
    rw [hsegments]
    exact h.ordered
  chosen := by
    intro info hinfo
    rw [hsegments]
    exact h.chosen info (hselected info hinfo)

theorem wrote {fmt : Format E} {lsn k : Nat} {es : List (WalEntry E)}
    (hw : FileWal.Wrote fmt w w' lsn es k) (hstart : es ≠ [] → w.activeSegment.startLsn ≤ lsn) :
    Ranged w' where
  indexed := by
    intro l loc hloc
    rw [hw.written]
    by_cases hin : lsn ≤ l ∧ l < lsn + k
    · obtain ⟨loc', hloc', hid⟩ := hw.indexed l hin.1 hin.2
      obtain rfl : loc = loc' := by
        rw [hloc] at hloc'
        exact Option.some.inj hloc'
      have hlen : (es.take k).length = k := by simp [hw.le]
      obtain ⟨e, he, hel⟩ := exists_mem_stampedFrom fmt hin.1 (by rw [hlen]; exact hin.2)
      refine ⟨e, List.mem_append_right _ ?_, hel⟩
      rw [hid]
      exact List.mem_map_of_mem he
    · rw [hw.kept l hin] at hloc
      obtain ⟨e, he, hel⟩ := h.indexed l loc hloc
      exact ⟨e, List.mem_append_left _ he, hel⟩
  active_ge := by
    intro p hp hpid
    rw [hw.activeId] at hpid
    rw [hw.activeStart]
    rcases hw.mem_written hp with hold | ⟨e, he, rfl⟩
    · exact h.active_ge p hold hpid
    · have hne : es ≠ [] := by
        rintro rfl
        simp [stampedFrom] at he
      exact le_trans (hstart hne) (hw.lsn_mem he).1
  placed := by
    intro p hp
    rw [hw.activeId, hw.segments]
    rcases hw.mem_written hp with hold | ⟨e, -, rfl⟩
    · exact h.placed p hold
    · exact .inl rfl
  rotated := by
    rw [hw.activeId, hw.activeStart, hw.segments]
    exact h.rotated
  ordered := by
    rw [hw.segments]
    exact h.ordered
  chosen := by
    rw [hw.selected, hw.segments]
    exact h.chosen

/-- Retiring the active segment with the end LSN `endLsn`. -/
theorem swap {endLsn : Nat} {rotations : List PendingRotation}
    (hstart : w.activeSegment.startLsn ≤ endLsn)
    (hend : ∀ p ∈ w.written, p.1 = w.activeSegment.id → p.2.header.lsn < endLsn) :
    Ranged { w with
      segments := w.segments.insert w.activeSegment.id
        (FileWal.rotationInfo w.activeSegment endLsn)
      activeSegment := FileWal.newSegment w.config (w.activeSegment.id + 1) endLsn
      rotations } where
  indexed := h.indexed
  active_ge := by
    intro p hp hpid
    -- the new segment is still empty
    exfalso
    change p.1 = w.activeSegment.id + 1 at hpid
    rcases h.placed p hp with hactive | ⟨info, hinfo, -⟩
    · omega
    · have := (h.rotated p.1 info hinfo).2.1
      omega
  placed := by
    intro p hp
    right
    dsimp only
    by_cases hid : p.1 = w.activeSegment.id
    · refine ⟨rotationInfo w.activeSegment endLsn, ?_, endLsn, rfl,
        h.active_ge p hp hid, hend p hp hid⟩
      rw [hid, AList.lookup_insert]
    · obtain hactive | ⟨info, hinfo, howns⟩ := h.placed p hp
      · exact absurd hactive hid
      · exact ⟨info, by rw [AList.lookup_insert_ne hid]; exact hinfo, howns⟩
  rotated := by
    intro id info hinfo
    dsimp only at hinfo ⊢
    by_cases hid : id = w.activeSegment.id
    · subst hid
      rw [AList.lookup_insert] at hinfo
      cases hinfo
      exact ⟨rfl, Nat.lt_succ_self _, endLsn, rfl, le_refl _⟩
    · rw [AList.lookup_insert_ne hid] at hinfo
      obtain ⟨hinfoId, hlt, e, he, hle⟩ := h.rotated id info hinfo
      exact ⟨hinfoId, Nat.lt_succ_of_lt hlt, e, he, le_trans hle hstart⟩
  ordered := by
    intro id₁ id₂ info₁ info₂ h₁ h₂ hlt
    dsimp only at h₁ h₂
    by_cases hid₁ : id₁ = w.activeSegment.id
    · -- nothing follows the segment that retires last
      exfalso
      rw [AList.lookup_insert_ne (by omega)] at h₂
      have := (h.rotated id₂ info₂ h₂).2.1
      omega
    rw [AList.lookup_insert_ne hid₁] at h₁
    by_cases hid₂ : id₂ = w.activeSegment.id
    · subst hid₂
      rw [AList.lookup_insert] at h₂
      cases h₂
      exact (h.rotated id₁ info₁ h₁).2.2
    · rw [AList.lookup_insert_ne hid₂] at h₂
      exact h.ordered id₁ id₂ info₁ info₂ h₁ h₂ hlt
  chosen := by
    intro info hinfo
    have hold := h.chosen info hinfo
    have := (h.rotated info.id info hold).2.1
    dsimp only
    rw [AList.lookup_insert_ne (by omega)]
    exact hold

theorem select : Ranged w.compactSelect := by
  unfold compactSelect
  dsimp only
  split
  next =>
    refine ⟨h.indexed, h.active_ge, h.placed, h.rotated, h.ordered, ?_⟩
    intro info hinfo
    rcases List.mem_append.mp hinfo with hold | hnew
    · exact h.chosen info hold
    · obtain ⟨p, hp, rfl⟩ := List.mem_map.mp (List.mem_filter.mp hnew).1
      have hlookup : w.segments.lookup p.1 = some p.2 := AList.mem_lookup_iff.mpr hp
      dsimp only
      rw [(h.rotated p.1 p.2 hlookup).1]
      exact hlookup
  next => exact h

theorem owner_unique {p : Nat × WalEntry E} (hp : p ∈ w.written) {id : Nat} {info : SegmentInfo}
    (hinfo : w.segments.lookup id = some info) (howns : Owns info p.2.header.lsn) : p.1 = id := by
  obtain ⟨endLsn, hend, hge, hlt⟩ := howns
  obtain ⟨-, -, endLsn', hend', hactive⟩ := h.rotated id info hinfo
  obtain rfl : endLsn = endLsn' := Option.some.inj (hend.symm.trans hend')
  rcases h.placed p hp with hid | ⟨info', hinfo', endLsn', hend', hge', hlt'⟩
  · have := h.active_ge p hp hid
    omega
  · rcases Nat.lt_trichotomy p.1 id with hlow | heq | hhigh
    · obtain ⟨e, he, hle⟩ := h.ordered p.1 id info' info hinfo' hinfo hlow
      obtain rfl : endLsn' = e := Option.some.inj (hend'.symm.trans he)
      omega
    · exact heq
    · obtain ⟨e, he, hle⟩ := h.ordered id p.1 info info' hinfo hinfo' hhigh
      obtain rfl : endLsn = e := Option.some.inj (hend.symm.trans he)
      omega

theorem owns_of_written {id : Nat} {info : SegmentInfo} {e : WalEntry E}
    (hinfo : w.segments.lookup id = some info) (he : (id, e) ∈ w.written) :
    Owns info e.header.lsn := by
  have hlt := (h.rotated id info hinfo).2.1
  rcases h.placed (id, e) he with hid | ⟨info', hinfo', howns⟩
  · exact absurd hid (Nat.ne_of_lt hlt)
  · obtain rfl : info = info' := Option.some.inj (hinfo.symm.trans hinfo')
    exact howns

end Ranged

/-! ## One step -/

namespace FileWal

theorem cleanIndex_le {info : SegmentInfo} {index : Nat → Option SegmentLocation} {l : Nat}
    {loc : SegmentLocation} (h : cleanIndex info index l = some loc) : index l = some loc := by
  cases hend : info.endLsn with
  | none =>
    simp only [cleanIndex, hend] at h
    exact h
  | some endLsn =>
    simp only [cleanIndex, hend] at h
    split at h
    · cases h
    · exact h

theorem compactSegment_lsnIndex_le {w : FileWal E} {info : SegmentInfo} {copyOk removeOk : Bool}
    {l : Nat} {loc : SegmentLocation}
    (h : (w.compactSegment info copyOk removeOk).lsnIndex l = some loc) :
    w.lsnIndex l = some loc := by
  unfold compactSegment at h
  split at h
  · exact cleanIndex_le h
  · exact h

theorem compactSegment_frame (w : FileWal E) (info : SegmentInfo) (copyOk removeOk : Bool) :
    (w.compactSegment info copyOk removeOk).written = w.written ∧
      (w.compactSegment info copyOk removeOk).activeSegment = w.activeSegment ∧
      (w.compactSegment info copyOk removeOk).segments = w.segments := by
  unfold compactSegment
  split <;> exact ⟨rfl, rfl, rfl⟩

end FileWal

variable {fmt : Format E}

theorem ranged_step {s s' : System E} {a : Action E} (hs : Ranged s.wal) (hok : Disciplined s a)
    (hstep : System.step fmt s a = some s') : Ranged s'.wal := by
  cases a with
  | reserve batch entries available =>
    obtain rfl | rfl := System.step_reserve hstep
    · exact hs
    · exact hs.of_frame rfl rfl rfl rfl (fun _ h => h) (fun _ _ h => h)
  | write i io syncOk =>
    obtain ⟨c, k, wal, hc, -, hw, hres⟩ := System.step_write hstep
    have hwal : s'.wal = wal := by rcases hres with ⟨-, rfl⟩ | rfl <;> rfl
    rw [hwal]
    exact hs.wrote hw (hok c hc)
  | finish i ok =>
    obtain ⟨c, -, -, rfl⟩ := System.step_finish hstep
    exact hs
  | rotateLoad | commit =>
    cases hstep
    exact hs.of_frame rfl rfl rfl rfl (fun _ h => h) (fun _ _ h => h)
  | rotateCreate i createOk =>
    obtain ⟨w', hw, rfl⟩ := Option.map_eq_some_iff.mp hstep
    obtain ⟨r, -, -, rfl | rfl⟩ := rotateCreate_cases hw <;>
      exact hs.of_frame rfl rfl rfl rfl (fun _ h => h) (fun _ _ h => h)
  | rotateSwap i syncOk =>
    obtain ⟨w', hw, rfl⟩ := Option.map_eq_some_iff.mp hstep
    obtain ⟨r, id, hr, hid, ⟨rfl, rfl⟩ | ⟨rfl, rfl⟩⟩ := rotateSwap_cases hw
    · obtain ⟨hnext, hstart, hend⟩ := hok r hr
      obtain rfl : id = s.wal.activeSegment.id + 1 := Option.some.inj (hid.symm.trans hnext)
      exact hs.swap hstart hend
    · exact hs.of_frame rfl rfl rfl rfl (fun _ h => h) (fun _ _ h => h)
  | commitBatch lsns =>
    cases hstep
    dsimp only
    unfold commitBatch
    split
    · exact hs.of_frame rfl rfl rfl rfl (fun _ h => h) (fun _ _ h => h)
    · exact hs
  | truncateIndex upToLsn =>
    cases hstep
    exact hs.of_frame rfl rfl rfl rfl (fun _ h => h) (fun _ _ h => truncateIndex_le h)
  | compactSelect =>
    cases hstep
    exact hs.select
  | compactNext copyOk removeOk =>
    obtain ⟨w', hw, rfl⟩ := Option.map_eq_some_iff.mp hstep
    obtain ⟨info, rest, hsel, rfl⟩ := compactNext_cases hw
    obtain ⟨hwritten, hactive, hsegments⟩ := compactSegment_frame s.wal info copyOk removeOk
    refine hs.of_frame hwritten (congrArg _ hactive) (congrArg _ hactive) hsegments ?_ ?_
    · intro info' hinfo'
      rw [hsel]
      exact List.mem_cons_of_mem _ hinfo'
    · intro l loc hloc
      exact compactSegment_lsnIndex_le hloc

theorem ranged_reaches {config : WalConfig} {s : System E}
    (h : Reaches (System.step fmt) Disciplined (System.new config) s) : Ranged s.wal :=
  h.invariant (Ranged.new config) (fun _ _ _ hs hok hstep => ranged_step hs hok hstep)

theorem Ranged.safeCompaction {w : FileWal E} {info : SegmentInfo} {copyOk removeOk : Bool}
    (h : Ranged w) (hinfo : w.segments.lookup info.id = some info)
    (hbound : ∀ endLsn ∈ info.endLsn, w.lsnIndex endLsn = none ∧ endLsn ≤ w.committedLsn + 1) :
    SafeCompaction w (w.compactSegment info copyOk removeOk) info copyOk := by
  obtain ⟨-, -, endLsn, hend, -⟩ := h.rotated info.id info hinfo
  obtain ⟨hfree, hcommitted⟩ := hbound endLsn hend
  -- an index entry is in the range exactly when it points into the segment
  have hrange : ∀ l loc, w.lsnIndex l = some loc →
      ((info.startLsn ≤ l ∧ l ≤ endLsn) ↔ loc.segmentId = info.id) := by
    intro l loc hloc
    obtain ⟨e, he, rfl⟩ := h.indexed l loc hloc
    constructor
    · rintro ⟨hge, hle⟩
      have hne : e.header.lsn ≠ endLsn := by
        intro heq
        rw [heq, hfree] at hloc
        cases hloc
      have hlt : e.header.lsn < endLsn := by omega
      exact h.owner_unique he hinfo ⟨endLsn, hend, hge, hlt⟩
    · intro hid
      rw [hid] at he
      obtain ⟨endLsn', hend', hge, hlt⟩ := h.owns_of_written hinfo he
      obtain rfl : endLsn = endLsn' := Option.some.inj (hend.symm.trans hend')
      exact ⟨hge, by omega⟩
  refine ⟨?_, ?_, ?_, ?_⟩
  · intro harchive l loc hloc
    simp only [compactSegment, harchive, if_true, cleanIndex, hend]
    rw [← hrange l loc hloc]
    simp [hloc]
  · intro l loc hloc hother
    unfold compactSegment
    split
    · simp only [cleanIndex, hend]
      rw [if_neg (fun hin => hother ((hrange l loc hloc).mp hin))]
      exact hloc
    · exact hloc
  · intro l hl
    cases hloc : (w.compactSegment info copyOk removeOk).lsnIndex l with
    | none => rfl
    | some loc =>
      rw [compactSegment_lsnIndex_le hloc] at hl
      cases hl
  · intro e he
    obtain ⟨endLsn', hend', -, hlt⟩ := h.owns_of_written hinfo he
    obtain rfl : endLsn = endLsn' := Option.some.inj (hend.symm.trans hend')
    omega

/-- **Compaction removes its own segment and nothing else.** In every run whose steps are
disciplined, each `compact_segment` removes exactly the index entries that point into its
segment, and every entry of that segment is committed. -/
theorem compaction_safe {config : WalConfig} {s s' : System E} {copyOk removeOk : Bool}
    {info : SegmentInfo} (hreach : Reaches (System.step fmt) Disciplined (System.new config) s)
    (hinfo : s.wal.selected.head? = some info) (hok : Disciplined s (.compactNext copyOk removeOk))
    (hstep : System.step fmt s (.compactNext copyOk removeOk) = some s') :
    SafeCompaction s.wal s'.wal info copyOk := by
  have hranged := ranged_reaches hreach
  obtain ⟨w', hw, rfl⟩ := Option.map_eq_some_iff.mp hstep
  obtain ⟨info', rest, hsel, rfl⟩ := compactNext_cases hw
  obtain rfl : info' = info := by simpa [hsel] using hinfo
  have hlookup : s.wal.segments.lookup info'.id = some info' :=
    hranged.chosen info' (by rw [hsel]; exact List.mem_cons_self)
  have hsafe : SafeCompaction s.wal (s.wal.compactSegment info' copyOk removeOk) info' copyOk :=
    hranged.safeCompaction hlookup (hok info' hinfo)
  exact ⟨hsafe.removes, hsafe.keeps, hsafe.addsNothing, hsafe.committed⟩

/-- Append, rotate and commit; the boundary LSN 1 has not been handed out when segment 0 is
compacted, and its entry goes. -/
theorem compaction_safe_last_segment :
    ∃ s s', exec (System.step bincode) (System.new sampleConfig)
        (appendSteps sampleEntry ++ rotateSteps ++ [.commit 1, .compactSelect]) = some s ∧
      System.step bincode s (.compactNext true true) = some s' ∧
      (s.wal.lsnIndex 0).isSome ∧ s'.wal.lsnIndex 0 = none ∧
      ∃ info, s.wal.selected.head? = some info ∧ SafeCompaction s.wal s'.wal info true := by
  simp only [exists_and_left]
  apply exists_exec
    (fun s => Disciplined s (.compactNext true true) ∧ (s.wal.lsnIndex 0).isSome ∧
      s.wal.selected.head?.isSome ∧ (System.step bincode s (.compactNext true true)).any
        (fun s' => s'.wal.lsnIndex 0 = none))
    (by decide +kernel)
  intro s hexec hq
  obtain ⟨hok, hindexed, hinfo, hnext⟩ := hq
  obtain ⟨info, hinfo⟩ := Option.isSome_iff_exists.mp hinfo
  obtain ⟨s', hstep, hgone⟩ := (Option.any_eq_true _ _).mp hnext
  have hreach : Reaches (System.step bincode) Disciplined (System.new sampleConfig) s :=
    Reaches.of_exec (by decide +kernel) hexec
  exact ⟨s', hstep, hindexed, of_decide_eq_true hgone, info, hinfo,
    compaction_safe hreach hinfo hok hstep⟩

/-- The same with one more append before the commit: compacting segment 0 drops the index
entry of LSN 1, which lives in segment 1. -/
theorem compaction_drops_next_segment :
    ∃ s s', exec (System.step bincode) (System.new sampleConfig)
        (appendSteps sampleEntry ++ rotateSteps ++ appendSteps sampleEntry ++
          [.commit 1, .compactSelect]) = some s ∧
      System.step bincode s (.compactNext true true) = some s' ∧
      (s.wal.lsnIndex 1).map (fun loc => loc.segmentId) = some 1 ∧ s'.wal.lsnIndex 1 = none ∧
      ∃ info, s.wal.selected.head? = some info ∧ info.id = 0 ∧
        ¬ SafeCompaction s.wal s'.wal info true := by
  simp only [exists_and_left]
  apply exists_exec
    (fun s => (s.wal.lsnIndex 1).map (fun loc => loc.segmentId) = some 1 ∧
      s.wal.selected.head?.any (fun info => info.id = 0) ∧
      (System.step bincode s (.compactNext true true)).any (fun s' => s'.wal.lsnIndex 1 = none))
    (by decide +kernel)
  intro s _ hq
  obtain ⟨hseg, hinfo, hnext⟩ := hq
  obtain ⟨info, hinfo, hid⟩ := (Option.any_eq_true _ _).mp hinfo
  obtain ⟨s', hstep, hgone⟩ := (Option.any_eq_true _ _).mp hnext
  have hid := of_decide_eq_true hid
  have hgone := of_decide_eq_true hgone
  refine ⟨s', hstep, hseg, hgone, info, hinfo, hid, ?_⟩
  intro hsafe
  obtain ⟨loc, hloc, hone⟩ := Option.map_eq_some_iff.mp hseg
  have hkept := hsafe.keeps 1 loc hloc (by omega)
  rw [hgone] at hkept
  cases hkept

end Arcxa.Wal
