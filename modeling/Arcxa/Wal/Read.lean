import Arcxa.Wal.System

/-!
# Reads see writes (`read`, `scan`)

A read goes through two structures: the LSN index says where an entry lies, and the map
of segments says which file that is. A write fills the first at once; the second gets
the segment only when it is rotated out. The bytes are never wrong, but until then they
cannot be reached.

* `Placed` ties the index to the bytes on disk: every location holds the entry that was
  written under its LSN.
* `Stored` ties the ghost history to the index: what was written and is above every
  truncation is indexed, under LSNs that nobody shares.
* `readsSeeWrites_iff`: in every state of a run without overlapping rotations or torn
  writes, reads and scans return what was appended exactly when the LSNs that were
  returned are those that lie in a rotated segment.
-/

namespace Arcxa.Wal

open FileWal

variable {E : Type}

/-! ## Overwriting and slicing -/

namespace FileWal

variable {file bytes : Bytes}

theorem length_writeAt {pos : Nat} (h : pos ≤ file.length) :
    (writeAt file pos bytes).length = max file.length (pos + bytes.length) := by
  simp only [writeAt, List.length_append, List.length_take, List.length_drop]
  omega

theorem slice_writeAt_self {pos : Nat} (h : pos ≤ file.length) :
    slice (writeAt file pos bytes) pos bytes.length = bytes := by
  have hfront : (file.take pos).length = pos := by simp [h]
  unfold slice writeAt
  rw [List.append_assoc, List.drop_left' hfront, List.take_left' rfl]

theorem slice_writeAt_before {pos offset size : Nat} (h : pos ≤ file.length)
    (hbefore : offset + size ≤ pos) :
    slice (writeAt file pos bytes) offset size = slice file offset size := by
  have hfront : (file.take pos).length = pos := by simp [h]
  unfold slice writeAt
  rw [List.append_assoc, List.drop_append_of_le_length (by omega),
    List.take_append_of_le_length (by rw [List.length_drop]; omega), List.drop_take,
    List.take_take, min_eq_left (by omega)]

/-! ## Placement -/

/-- The file of the location's segment holds `bytes` there. -/
def BytesAt (disk : Disk) (loc : SegmentLocation) (bytes : Bytes) : Prop :=
  ∃ file, disk.lookup loc.segmentId = some file ∧ bytes.length = loc.size ∧
    slice file loc.offset loc.size = bytes

def IoOutcome.clean : IoOutcome → Bool
  | .ok => true
  | .fail n => n = 0

variable (fmt : Format E)

structure Placed (w : FileWal E) : Prop where
  located : ∀ l loc, w.lsnIndex l = some loc →
    ∃ e, (loc.segmentId, e) ∈ w.written ∧ e.header.lsn = l ∧ BytesAt w.disk loc (e.toBytes fmt)
  inActive : ∀ l loc, w.lsnIndex l = some loc → loc.segmentId ≤ w.activeSegment.id ∧
    (loc.segmentId = w.activeSegment.id → loc.offset + loc.size ≤ w.activeSegment.position)
  room : w.activeSegment.position ≤ ((w.disk.lookup w.activeSegment.id).getD []).length
  cursor : w.config.directIo → w.activeSegment.cursor = w.activeSegment.position
  named : ∀ id info, w.segments.lookup id = some info → info.id = id

/-- Placing one entry: the bytes go to `position`, which moves past them exactly on
success. -/
theorem writeEntryToSegment_placed {config : WalConfig} {segment : Segment E} {file : Bytes}
    {entry : WalEntry E} {lsn : Nat} {io : IoOutcome} {res : Except WalError Nat}
    {segment' : Segment E} {file' : Bytes}
    (h : writeEntryToSegment fmt config segment file entry lsn io = (res, segment', file'))
    (hcursor : config.directIo → segment.cursor = segment.position)
    (hclean : config.directIo → io.clean) :
    segment'.id = segment.id ∧ (config.directIo → segment'.cursor = segment'.position) ∧
    ((res = .ok ((assignLsn entry lsn).toBytes fmt).length ∧
        segment'.position = segment.position + ((assignLsn entry lsn).toBytes fmt).length ∧
        file' = writeAt file segment.position ((assignLsn entry lsn).toBytes fmt)) ∨
      ((∃ err, res = .error err) ∧ segment'.position = segment.position ∧
        (file' = file ∨
          file' = writeAt file segment.position ((assignLsn entry lsn).toBytes fmt)))) := by
  unfold writeEntryToSegment at h
  dsimp only at h
  split at h
  · cases h
    exact ⟨rfl, hcursor, .inr ⟨⟨_, rfl⟩, rfl, .inl rfl⟩⟩
  split at h
  next hdirect =>
    rw [hcursor hdirect] at h
    cases io with
    | ok =>
      cases h
      exact ⟨rfl, fun _ => rfl, .inl ⟨rfl, rfl, rfl⟩⟩
    | fail n =>
      obtain rfl : n = 0 := of_decide_eq_true (hclean hdirect)
      cases h
      refine ⟨rfl, fun _ => rfl, .inr ⟨⟨_, rfl⟩, rfl, .inl ?_⟩⟩
      simp [writeAt]
  next hdirect =>
    split at h
    · cases h
      exact ⟨rfl, fun hd => absurd hd hdirect, .inr ⟨⟨_, rfl⟩, rfl, .inl rfl⟩⟩
    cases io with
    | ok =>
      cases h
      exact ⟨rfl, fun hd => absurd hd hdirect, .inl ⟨rfl, rfl, rfl⟩⟩
    | fail n =>
      cases h
      exact ⟨rfl, fun hd => absurd hd hdirect, .inr ⟨⟨_, rfl⟩, rfl, .inr rfl⟩⟩

theorem BytesAt.insert_of_before {disk : Disk} {loc : SegmentLocation} {bytes new file' : Bytes}
    {id pos : Nat} (h : BytesAt disk loc bytes) (hroom : pos ≤ ((disk.lookup id).getD []).length)
    (hbefore : loc.segmentId = id → loc.offset + loc.size ≤ pos)
    (hfile : file' = (disk.lookup id).getD [] ∨ file' = writeAt ((disk.lookup id).getD []) pos new) :
    BytesAt (disk.insert id file') loc bytes := by
  obtain ⟨file, hlookup, hlen, hslice⟩ := h
  by_cases hid : loc.segmentId = id
  · subst hid
    rw [hlookup, Option.getD_some] at hroom hfile
    refine ⟨file', AList.lookup_insert _, hlen, ?_⟩
    rcases hfile with rfl | rfl
    · exact hslice
    · rw [slice_writeAt_before hroom (hbefore rfl)]
      exact hslice
  · exact ⟨file, by rw [AList.lookup_insert_ne hid]; exact hlookup, hlen, hslice⟩

theorem Placed.writeEntry {w w' : FileWal E} {lsn : Nat} {entry : WalEntry E} {io : IoOutcome}
    {res : Except WalError Nat} (h : Placed fmt w) (hclean : w.config.directIo → io.clean)
    (hw : FileWal.writeEntry fmt w lsn entry io = (res, w')) : Placed fmt w' := by
  unfold FileWal.writeEntry at hw
  dsimp only at hw
  split at hw
  next err segment file hseg =>
    cases hw
    obtain ⟨hid, hcursor, hres | ⟨-, hpos, hfile⟩⟩ :=
      writeEntryToSegment_placed fmt hseg h.cursor hclean
    · cases hres.1
    refine ⟨?_, ?_, ?_, hcursor, h.named⟩
    · intro l loc hloc
      obtain ⟨e, he, hlsn, hbytes⟩ := h.located l loc hloc
      exact ⟨e, he, hlsn,
        hbytes.insert_of_before h.room (h.inActive l loc hloc).2 hfile⟩
    · intro l loc hloc
      dsimp only
      rw [hid, hpos]
      exact h.inActive l loc hloc
    · dsimp only
      rw [hid, hpos, AList.lookup_insert, Option.getD_some]
      have hroom := h.room
      rcases hfile with rfl | rfl
      · exact hroom
      · rw [length_writeAt hroom]
        omega
  next size segment file hseg =>
    cases hw
    obtain ⟨hid, hcursor, ⟨hsize, hpos, hfile⟩ | ⟨⟨err, hres⟩, -, -⟩⟩ :=
      writeEntryToSegment_placed fmt hseg h.cursor hclean
    swap
    · cases hres
    cases hsize
    have hstart : segment.position - ((assignLsn entry lsn).toBytes fmt).length =
        w.activeSegment.position := by omega
    refine ⟨?_, ?_, ?_, hcursor, h.named⟩
    · intro l loc hloc
      dsimp only at hloc ⊢
      by_cases hl : l = lsn
      · -- the entry just written
        subst hl
        rw [Function.update_self, hstart, Option.some.injEq] at hloc
        subst hloc
        refine ⟨stamped fmt l entry, List.mem_append_right _ (List.mem_singleton.mpr rfl), rfl,
          file, AList.lookup_insert _, rfl, ?_⟩
        rw [hfile]
        exact slice_writeAt_self h.room
      · rw [Function.update_of_ne hl] at hloc
        obtain ⟨e, he, hlsn, hbytes⟩ := h.located l loc hloc
        exact ⟨e, List.mem_append_left _ he, hlsn,
          hbytes.insert_of_before h.room (h.inActive l loc hloc).2 (.inr hfile)⟩
    · intro l loc hloc
      dsimp only at hloc ⊢
      rw [hid, hpos]
      by_cases hl : l = lsn
      · subst hl
        rw [Function.update_self, hstart, Option.some.injEq] at hloc
        subst hloc
        exact ⟨le_refl _, fun _ => le_refl _⟩
      · rw [Function.update_of_ne hl] at hloc
        obtain ⟨hle, hbefore⟩ := h.inActive l loc hloc
        exact ⟨hle, fun heq => le_trans (hbefore heq) (Nat.le_add_right _ _)⟩
    · dsimp only
      rw [hid, hpos, AList.lookup_insert, Option.getD_some, hfile, length_writeAt h.room]
      omega

theorem Placed.writeEntries {io : Nat → IoOutcome} {w w' : FileWal E} {lsn : Nat}
    {es : List (WalEntry E)} {res : Except WalError (List Nat)} (h : Placed fmt w)
    (hclean : w.config.directIo → ∀ l ∈ List.range' lsn es.length, (io l).clean)
    (hw : FileWal.writeEntries fmt io w lsn es = (res, w')) : Placed fmt w' := by
  -- induction along the loop; a failing round is its last one
  induction es generalizing w w' lsn res with
  | nil =>
    cases hw
    exact h
  | cons e es ih =>
    have hhead : w.config.directIo → (io lsn).clean := fun hd =>
      hclean hd lsn (by simp [List.mem_range'_1])
    rcases writeEntry_spec fmt w lsn e (io lsn) with ⟨size, w₁, hone, hwrote⟩ | ⟨err, w₁, hone, -⟩
    · have hplaced := h.writeEntry fmt hhead hone
      have htail : w₁.config.directIo → ∀ l ∈ List.range' (lsn + 1) es.length, (io l).clean := by
        intro hd l hl
        rw [hwrote.config] at hd
        refine hclean hd l ?_
        rw [List.mem_range'_1] at hl ⊢
        simp only [List.length_cons]
        omega
      simp only [FileWal.writeEntries, hone] at hw
      cases hrest : FileWal.writeEntries fmt io w₁ (lsn + 1) es with
      | mk res₂ w₂ =>
        rw [hrest] at hw
        have hfinal := ih hplaced htail hrest
        cases res₂ <;> cases hw <;> exact hfinal
    · simp only [FileWal.writeEntries, hone] at hw
      cases hw
      exact h.writeEntry fmt hhead hone

theorem Placed.of_frame {w w' : FileWal E} (h : Placed fmt w) (hconfig : w'.config = w.config)
    (hactive : w'.activeSegment.id = w.activeSegment.id ∧
      w'.activeSegment.position = w.activeSegment.position ∧
      w'.activeSegment.cursor = w.activeSegment.cursor)
    (hsegments : w'.segments = w.segments) (hwritten : w'.written = w.written)
    (hindex : ∀ l loc, w'.lsnIndex l = some loc → w.lsnIndex l = some loc)
    (hdisk : ∀ id ≤ w.activeSegment.id, w'.disk.lookup id = w.disk.lookup id) : Placed fmt w' := by
  obtain ⟨hid, hpos, hcur⟩ := hactive
  refine ⟨?_, ?_, ?_, ?_, ?_⟩
  · intro l loc hloc
    have hloc' := hindex l loc hloc
    obtain ⟨e, he, hlsn, file, hfile, hbytes⟩ := h.located l loc hloc'
    rw [hwritten]
    exact ⟨e, he, hlsn, file, by rw [hdisk _ (h.inActive l loc hloc').1]; exact hfile, hbytes⟩
  · intro l loc hloc
    rw [hid, hpos]
    exact h.inActive l loc (hindex l loc hloc)
  · rw [hid, hpos, hdisk _ (le_refl _)]
    exact h.room
  · rw [hconfig, hcur, hpos]
    exact h.cursor
  · rw [hsegments]
    exact h.named

theorem Placed.swap {w : FileWal E} {endLsn : Nat} {rotations : List PendingRotation}
    (h : Placed fmt w) : Placed fmt { w with
      segments := w.segments.insert w.activeSegment.id (rotationInfo w.activeSegment endLsn)
      activeSegment := newSegment w.config (w.activeSegment.id + 1) endLsn
      rotations } where
  located := h.located
  inActive := by
    intro l loc hloc
    have := (h.inActive l loc hloc).1
    refine ⟨Nat.le_succ_of_le this, fun heq => ?_⟩
    change loc.segmentId = w.activeSegment.id + 1 at heq
    omega
  room := Nat.zero_le _
  cursor := fun _ => rfl
  named := by
    intro id info hinfo
    dsimp only at hinfo
    by_cases hid : id = w.activeSegment.id
    · subst hid
      rw [AList.lookup_insert] at hinfo
      cases hinfo
      rfl
    · rw [AList.lookup_insert_ne hid] at hinfo
      exact h.named id info hinfo

theorem Placed.new (config : WalConfig) : Placed fmt (FileWal.new config) := by
  refine ⟨?_, ?_, Nat.zero_le _, fun _ => rfl, ?_⟩ <;> simp [FileWal.new]

theorem Placed.appendLocked {io : Nat → IoOutcome} {w : FileWal E} {batch syncOk : Bool} {lsn : Nat}
    {es : List (WalEntry E)} (h : Placed fmt w)
    (hclean : w.config.directIo → ∀ l ∈ List.range' lsn es.length, (io l).clean) :
    Placed fmt (FileWal.appendLocked fmt w batch lsn es io syncOk).2 := by
  unfold FileWal.appendLocked
  cases hw : FileWal.writeEntries fmt io w lsn es with
  | mk res w' =>
    have hplaced := h.writeEntries fmt hclean hw
    cases res with
    | error err => exact hplaced
    | ok lsns =>
      dsimp only
      split <;> exact hplaced

end FileWal

/-! ## Runs -/

def CleanStep (s : System E) : Action E → Prop
  | .write i io _ => s.wal.config.directIo → ∀ c ∈ s.calls[i]?,
      (List.range' c.lsn c.entries.length).all (fun l => (io l).clean)
  | .rotateSwap i true => ∀ r ∈ s.wal.rotations[i]?,
      r.newSegmentId = some (s.wal.activeSegment.id + 1)
  | .compactSelect | .compactNext _ _ => False
  | _ => True

instance cleanStepDecidable (s : System E) : (a : Action E) → Decidable (CleanStep s a)
  | .write i _ _ =>
    inferInstanceAs (Decidable (s.wal.config.directIo → ∀ c ∈ s.calls[i]?, List.all _ _))
  | .rotateSwap i true =>
    inferInstanceAs (Decidable (∀ r ∈ s.wal.rotations[i]?, r.newSegmentId = _))
  | .compactSelect => isFalse id
  | .compactNext _ _ => isFalse id
  | .rotateSwap _ false => isTrue trivial
  | .reserve _ _ _ => isTrue trivial
  | .finish _ _ => isTrue trivial
  | .rotateLoad => isTrue trivial
  | .rotateCreate _ _ => isTrue trivial
  | .commit _ => isTrue trivial
  | .commitBatch _ => isTrue trivial
  | .truncateIndex _ => isTrue trivial

def AppendCall.Holds (c : AppendCall E) (lsn : Nat) : Prop :=
  c.lsn ≤ lsn ∧ lsn < c.lsn + c.entries.length

structure Stored (fmt : Format E) (s : System E) : Prop where
  unshared : ∀ (i j : Nat) (c d : AppendCall E), s.calls[i]? = some c → s.calls[j]? = some d →
    i ≠ j → ∀ l, c.Holds l → ¬ d.Holds l
  fresh : ∀ c ∈ s.calls, c.phase = .reserved → ∀ p ∈ s.wal.written, ¬ c.Holds p.2.header.lsn
  written_lt : ∀ p ∈ s.wal.written, p.2.header.lsn < s.wal.currentLsn
  unique : s.wal.written.Pairwise (fun p q => p.2.header.lsn ≠ q.2.header.lsn)
  isSealed : ∀ p ∈ s.wal.written, p.2.sealed fmt = p.2
  callWritten : ∀ c ∈ s.calls, c.phase = .written →
    ∀ e ∈ FileWal.stampedFrom fmt c.lsn c.entries, ∃ id, (id, e) ∈ s.wal.written
  returnedWritten : ∀ e ∈ s.returned, ∃ id, (id, e) ∈ s.wal.written
  indexed : ∀ p ∈ s.wal.written, (∀ t ∈ s.truncated, t < p.2.header.lsn) →
    ∃ loc, s.wal.lsnIndex p.2.header.lsn = some loc

namespace Stored

variable {fmt : Format E} {s s' : System E}

theorem new (config : WalConfig) : Stored fmt (System.new config) := by
  constructor <;> simp [System.new, FileWal.new]

theorem reserve (h : Stored fmt s) (hacc : System.Accounted s) (batch : Bool)
    (entries : List (WalEntry E)) : Stored fmt { s with
      wal := { s.wal with currentLsn := s.wal.currentLsn + entries.length }
      calls := s.calls ++ [{ batch, lsn := s.wal.currentLsn, entries, phase := .reserved }] } where
  unshared := by
    intro i j c d hi hj hne l hc hd
    have hold : ∀ {c : AppendCall E}, c ∈ s.calls → c.Holds l → l < s.wal.currentLsn := by
      intro c hmem hholds
      have := hacc.calls_le c hmem
      have := hholds.2
      omega
    dsimp only at hi hj
    rw [List.getElem?_append] at hi hj
    split at hi
    · split at hj
      · exact h.unshared i j c d hi hj hne l hc hd
      · have := hold (List.mem_of_getElem? hi) hc
        cases List.mem_singleton.mp (List.mem_of_getElem? hj)
        have hge : s.wal.currentLsn ≤ l := hd.1
        omega
    · split at hj
      · have := hold (List.mem_of_getElem? hj) hd
        cases List.mem_singleton.mp (List.mem_of_getElem? hi)
        have hge : s.wal.currentLsn ≤ l := hc.1
        omega
      · have hi' := (List.getElem?_eq_some_iff.mp hi).1
        have hj' := (List.getElem?_eq_some_iff.mp hj).1
        simp only [List.length_singleton] at hi' hj'
        omega
  fresh := by
    intro c hc hphase p hp hholds
    rcases List.mem_append.mp hc with hold | hnew
    · exact h.fresh c hold hphase p hp hholds
    · cases List.mem_singleton.mp hnew
      have := h.written_lt p hp
      have hge : s.wal.currentLsn ≤ p.2.header.lsn := hholds.1
      omega
  written_lt := by
    intro p hp
    have := h.written_lt p hp
    dsimp only
    omega
  unique := h.unique
  isSealed := h.isSealed
  callWritten := by
    intro c hc hphase
    rcases List.mem_append.mp hc with hold | hnew
    · exact h.callWritten c hold hphase
    · cases List.mem_singleton.mp hnew
      cases hphase
  returnedWritten := h.returnedWritten
  indexed := h.indexed

variable {calls : List (AppendCall E)}

theorem mem_calls_after {i : Nat} {c d : AppendCall E} {phase : AppendPhase}
    (hcalls : calls = s.calls.set i { c with phase } ∨ calls = s.calls.eraseIdx i) (hd : d ∈ calls) :
    (∃ j, j ≠ i ∧ s.calls[j]? = some d) ∨
      (d = { c with phase } ∧ calls = s.calls.set i { c with phase }) := by
  rcases hcalls with rfl | rfl
  · obtain ⟨j, hj⟩ := List.mem_iff_getElem?.mp hd
    by_cases hji : j = i
    · subst hji
      rw [List.getElem?_set_self'] at hj
      obtain ⟨-, -, rfl⟩ := Option.map_eq_some_iff.mp hj
      exact .inr ⟨rfl, rfl⟩
    · rw [List.getElem?_set_ne (Ne.symm hji)] at hj
      exact .inl ⟨j, hji, hj⟩
  · exact .inl (List.mem_eraseIdx_iff_getElem?.mp hd)

theorem unshared_after {i : Nat} {c : AppendCall E} (h : Stored fmt s) (hc : s.calls[i]? = some c)
    (phase : AppendPhase)
    (hcalls : calls = s.calls.set i { c with phase } ∨ calls = s.calls.eraseIdx i) :
    ∀ (j k : Nat) (d e : AppendCall E), calls[j]? = some d → calls[k]? = some e → j ≠ k →
      ∀ l, d.Holds l → ¬ e.Holds l := by
  intro j k d e hj hk hne l hd he
  rcases hcalls with rfl | rfl
  · -- a call at the same place with the same LSNs
    have hsame : ∀ {n : Nat} {d : AppendCall E}, (s.calls.set i { c with phase })[n]? = some d →
        ∃ d', s.calls[n]? = some d' ∧ (d.Holds l → d'.Holds l) := by
      intro n d hn
      by_cases hni : n = i
      · subst hni
        rw [List.getElem?_set_self'] at hn
        obtain ⟨-, -, rfl⟩ := Option.map_eq_some_iff.mp hn
        exact ⟨c, hc, id⟩
      · rw [List.getElem?_set_ne (Ne.symm hni)] at hn
        exact ⟨d, hn, id⟩
    obtain ⟨d', hj', hd'⟩ := hsame hj
    obtain ⟨e', hk', he'⟩ := hsame hk
    exact h.unshared j k d' e' hj' hk' hne l (hd' hd) (he' he)
  · rw [List.getElem?_eraseIdx] at hj hk
    split at hj <;> split at hk <;> exact h.unshared _ _ d e hj hk (by omega) l hd he

theorem write {i k : Nat} {c : AppendCall E} {wal : FileWal E} (h : Stored fmt s)
    (hacc : System.Accounted s) (hc : s.calls[i]? = some c) (hphase : c.phase = .reserved)
    (hw : FileWal.Wrote fmt s.wal wal c.lsn c.entries k)
    (hcalls : calls = s.calls.set i { c with phase := .written } ∧ k = c.entries.length ∨
      calls = s.calls.eraseIdx i) : Stored fmt { s with wal, calls } := by
  have hcalls' : calls = s.calls.set i { c with phase := .written } ∨
      calls = s.calls.eraseIdx i := hcalls.imp_left And.left
  have hmem : c ∈ s.calls := List.mem_of_getElem? hc
  have hnew : ∀ e ∈ stampedFrom fmt c.lsn (c.entries.take k), c.Holds e.header.lsn := by
    intro e he
    obtain ⟨hle, hlt⟩ := hw.lsn_mem he
    exact ⟨hle, lt_of_lt_of_le hlt (Nat.add_le_add_left hw.le _)⟩
  refine ⟨h.unshared_after hc _ hcalls', ?_, ?_, ?_, ?_, ?_, ?_, ?_⟩
  · intro d hd hreserved p hp hholds
    rcases mem_calls_after hcalls' hd with ⟨j, hji, hj⟩ | ⟨rfl, -⟩
    · rcases hw.mem_written hp with hold | ⟨e, he, rfl⟩
      · exact h.fresh d (List.mem_of_getElem? hj) hreserved p hold hholds
      · exact h.unshared j i d c hj hc hji _ hholds (hnew e he)
    · cases hreserved
  · intro p hp
    show p.2.header.lsn < wal.currentLsn
    rw [hw.currentLsn]
    rcases hw.mem_written hp with hold | ⟨e, he, rfl⟩
    · exact h.written_lt p hold
    · exact lt_of_lt_of_le (hnew e he).2 (hacc.calls_le c hmem)
  · dsimp only
    rw [hw.written, List.pairwise_append, List.pairwise_map]
    refine ⟨h.unique, ?_, ?_⟩
    · have hlsns := map_lsn_stampedFrom fmt c.lsn (c.entries.take k)
      have hnodup : ((stampedFrom fmt c.lsn (c.entries.take k)).map
          (fun e => e.header.lsn)).Nodup := by
        rw [hlsns]
        exact List.nodup_range'
      exact List.pairwise_map.mp hnodup
    · intro p hp q hq heq
      obtain ⟨e, he, rfl⟩ := List.mem_map.mp hq
      exact h.fresh c hmem hphase p hp (heq ▸ hnew e he)
  · intro p hp
    rcases hw.mem_written hp with hold | ⟨e, he, rfl⟩
    · exact h.isSealed p hold
    · exact sealed_mem_stampedFrom fmt he
  · intro d hd hwritten e he
    dsimp only
    rw [hw.written]
    rcases mem_calls_after hcalls' hd with ⟨j, -, hj⟩ | ⟨rfl, hset⟩
    · obtain ⟨id, hid⟩ := h.callWritten d (List.mem_of_getElem? hj) hwritten e he
      exact ⟨id, List.mem_append_left _ hid⟩
    · rcases hcalls with ⟨-, rfl⟩ | herase
      · rw [List.take_length]
        exact ⟨_, List.mem_append_right _ (List.mem_map_of_mem he)⟩
      · -- a list does not keep its length when a call is removed
        have hlt := (List.getElem?_eq_some_iff.mp hc).1
        have hlen := congrArg List.length (hset.symm.trans herase)
        rw [List.length_set, List.length_eraseIdx_of_lt hlt] at hlen
        omega
  · intro e he
    obtain ⟨id, hid⟩ := h.returnedWritten e he
    dsimp only
    rw [hw.written]
    exact ⟨id, List.mem_append_left _ hid⟩
  · intro p hp habove
    rcases hw.mem_written hp with hold | ⟨e, he, rfl⟩
    · have hfresh := h.fresh c hmem hphase p hold
      have hkept := hw.kept p.2.header.lsn
        (fun hin => hfresh ⟨hin.1, lt_of_lt_of_le hin.2 (Nat.add_le_add_left hw.le _)⟩)
      show ∃ loc, wal.lsnIndex p.2.header.lsn = some loc
      rw [hkept]
      exact h.indexed p hold habove
    · obtain ⟨hle, hlt⟩ := hw.lsn_mem he
      obtain ⟨loc, hloc, -⟩ := hw.indexed e.header.lsn hle hlt
      exact ⟨loc, hloc⟩

theorem finish {i : Nat} {c : AppendCall E} {ok : Bool} (h : Stored fmt s)
    (hc : s.calls[i]? = some c) (hphase : c.phase = .written) : Stored fmt { s with
      calls := s.calls.eraseIdx i
      returned :=
        if ok then s.returned ++ FileWal.stampedFrom fmt c.lsn c.entries else s.returned } where
  unshared := h.unshared_after hc .written (.inr rfl)
  fresh := fun d hd => h.fresh d (List.mem_of_mem_eraseIdx hd)
  written_lt := h.written_lt
  unique := h.unique
  isSealed := h.isSealed
  callWritten := fun d hd => h.callWritten d (List.mem_of_mem_eraseIdx hd)
  returnedWritten := by
    intro e he
    cases ok with
    | false => exact h.returnedWritten e he
    | true =>
      rcases List.mem_append.mp he with hold | hnew
      · exact h.returnedWritten e hold
      · exact h.callWritten c (List.mem_of_getElem? hc) hphase e hnew
  indexed := h.indexed

theorem of_frame {wal : FileWal E} {truncated : List Nat} (h : Stored fmt s)
    (hwritten : wal.written = s.wal.written) (hlsn : wal.currentLsn = s.wal.currentLsn)
    (hindexed : ∀ p ∈ s.wal.written, (∀ t ∈ truncated, t < p.2.header.lsn) →
      ∃ loc, wal.lsnIndex p.2.header.lsn = some loc) :
    Stored fmt { s with wal, truncated } where
  unshared := h.unshared
  fresh := by
    dsimp only
    rw [hwritten]
    exact h.fresh
  written_lt := by
    dsimp only
    rw [hwritten, hlsn]
    exact h.written_lt
  unique := by
    dsimp only
    rw [hwritten]
    exact h.unique
  isSealed := by
    dsimp only
    rw [hwritten]
    exact h.isSealed
  callWritten := by
    dsimp only
    rw [hwritten]
    exact h.callWritten
  returnedWritten := by
    dsimp only
    rw [hwritten]
    exact h.returnedWritten
  indexed := by
    dsimp only
    rw [hwritten]
    exact hindexed

end Stored

variable {fmt : Format E}

theorem placed_step {s s' : System E} {a : Action E} (hs : FileWal.Placed fmt s.wal)
    (hok : CleanStep s a) (hstep : System.step fmt s a = some s') : FileWal.Placed fmt s'.wal := by
  cases a with
  | reserve batch entries available =>
    obtain rfl | rfl := System.step_reserve hstep
    · exact hs
    · exact hs.of_frame fmt rfl ⟨rfl, rfl, rfl⟩ rfl rfl (fun _ _ h => h) (fun _ _ => rfl)
  | write i io syncOk =>
    obtain ⟨c, hc, hwal⟩ := System.step_write_wal hstep
    rw [hwal]
    exact hs.appendLocked fmt (fun hd => List.all_eq_true.mp (hok hd c hc))
  | finish i ok =>
    obtain ⟨c, -, -, rfl⟩ := System.step_finish hstep
    exact hs
  | rotateLoad | commit =>
    cases hstep
    exact hs.of_frame fmt rfl ⟨rfl, rfl, rfl⟩ rfl rfl (fun _ _ h => h) (fun _ _ => rfl)
  | rotateCreate i createOk =>
    obtain ⟨w', hw, rfl⟩ := Option.map_eq_some_iff.mp hstep
    obtain ⟨r, -, -, rfl | rfl⟩ := rotateCreate_cases hw
    · refine hs.of_frame fmt rfl ⟨rfl, rfl, rfl⟩ rfl rfl (fun _ _ h => h) ?_
      intro id hid
      exact AList.lookup_insert_ne (by omega)
    · exact hs.of_frame fmt rfl ⟨rfl, rfl, rfl⟩ rfl rfl (fun _ _ h => h) (fun _ _ => rfl)
  | rotateSwap i syncOk =>
    obtain ⟨w', hw, rfl⟩ := Option.map_eq_some_iff.mp hstep
    obtain ⟨r, id, hr, hid, ⟨rfl, rfl⟩ | ⟨rfl, rfl⟩⟩ := rotateSwap_cases hw
    · obtain rfl : id = s.wal.activeSegment.id + 1 := Option.some.inj (hid.symm.trans (hok r hr))
      exact hs.swap fmt
    · exact hs.of_frame fmt rfl ⟨rfl, rfl, rfl⟩ rfl rfl (fun _ _ h => h) (fun _ _ => rfl)
  | commitBatch lsns =>
    cases hstep
    dsimp only
    unfold commitBatch
    split
    · exact hs.of_frame fmt rfl ⟨rfl, rfl, rfl⟩ rfl rfl (fun _ _ h => h) (fun _ _ => rfl)
    · exact hs
  | truncateIndex upToLsn =>
    cases hstep
    refine hs.of_frame fmt rfl ⟨rfl, rfl, rfl⟩ rfl rfl ?_ (fun _ _ => rfl)
    intro l loc hloc
    exact truncateIndex_le hloc
  | compactSelect | compactNext => exact hok.elim

theorem stored_step {s s' : System E} {a : Action E} (hs : Stored fmt s) (hacc : System.Accounted s)
    (hok : CleanStep s a) (hstep : System.step fmt s a = some s') : Stored fmt s' := by
  cases a with
  | reserve batch entries available =>
    obtain rfl | rfl := System.step_reserve hstep
    · exact hs
    · exact hs.reserve hacc batch entries
  | write i io syncOk =>
    obtain ⟨c, k, wal, hc, hphase, hw, hres⟩ := System.step_write hstep
    rcases hres with ⟨hk, rfl⟩ | rfl
    · exact hs.write hacc hc hphase hw (.inl ⟨rfl, hk⟩)
    · exact hs.write hacc hc hphase hw (.inr rfl)
  | finish i ok =>
    obtain ⟨c, hc, hphase, rfl⟩ := System.step_finish hstep
    exact hs.finish hc hphase
  | rotateLoad | commit =>
    cases hstep
    exact hs.of_frame rfl rfl hs.indexed
  | rotateCreate i createOk =>
    obtain ⟨w', hw, rfl⟩ := Option.map_eq_some_iff.mp hstep
    obtain ⟨r, -, -, rfl | rfl⟩ := rotateCreate_cases hw <;>
      exact hs.of_frame rfl rfl hs.indexed
  | rotateSwap i syncOk =>
    obtain ⟨w', hw, rfl⟩ := Option.map_eq_some_iff.mp hstep
    obtain ⟨r, id, -, -, ⟨-, rfl⟩ | ⟨-, rfl⟩⟩ := rotateSwap_cases hw <;>
      exact hs.of_frame rfl rfl hs.indexed
  | commitBatch lsns =>
    cases hstep
    unfold commitBatch
    split
    · exact hs.of_frame rfl rfl hs.indexed
    · exact hs
  | truncateIndex upToLsn =>
    cases hstep
    refine hs.of_frame rfl rfl ?_
    intro p hp habove
    obtain ⟨loc, hloc⟩ := hs.indexed p hp (fun t ht => habove t (List.mem_append_left _ ht))
    have hlt : upToLsn < p.2.header.lsn :=
      habove upToLsn (List.mem_append_right _ (List.mem_singleton.mpr rfl))
    exact ⟨loc, by simp only [truncateIndex, if_pos hlt, hloc]⟩
  | compactSelect | compactNext => exact hok.elim

variable {s : System E}

theorem placed_stored_reaches {config : WalConfig}
    (h : Reaches (System.step fmt) CleanStep (System.new config) s) :
    FileWal.Placed fmt s.wal ∧ Stored fmt s := by
  refine h.invariant' (P := fun s => FileWal.Placed fmt s.wal ∧ Stored fmt s)
    ⟨FileWal.Placed.new fmt config, Stored.new config⟩ ?_
  intro s a s' hreach ⟨hplaced, hstored⟩ hok hstep
  exact ⟨placed_step hplaced hok hstep,
    stored_step hstored (System.accounted_reaches hreach) hok hstep⟩

/-! ## Reads and scans -/

/-- The entry that an append returned `Ok` for under the LSN, when no truncation reached it. -/
def liveEntry (s : System E) (l : Nat) : Option (WalEntry E) :=
  if ∀ t ∈ s.truncated, t < l then s.returned.find? (fun e => e.header.lsn = l) else none

def Live (s : System E) (l : Nat) : Prop :=
  (∃ e ∈ s.returned, e.header.lsn = l) ∧ ∀ t ∈ s.truncated, t < l

def InRotatedSegment (w : FileWal E) (l : Nat) : Prop :=
  ∃ loc, w.lsnIndex l = some loc ∧ (w.segments.lookup loc.segmentId).isSome

/-- Reads return what was appended, and a scan returns exactly that for its range, in LSN
order. -/
structure ReadsSeeWrites (fmt : Format E) (s : System E) : Prop where
  read : ∀ e ∈ s.returned, (∀ t ∈ s.truncated, t < e.header.lsn) →
    FileWal.read fmt s.wal e.header.lsn = .ok e
  scan : ∀ start stop, FileWal.scan fmt s.wal start stop =
    .ok ((List.range' start (stop - start)).filterMap (liveEntry s))

theorem liveEntry_eq_some {l : Nat} {e : WalEntry E} (h : liveEntry s l = some e) :
    e ∈ s.returned ∧ e.header.lsn = l ∧ ∀ t ∈ s.truncated, t < l := by
  unfold liveEntry at h
  split at h
  next habove =>
    exact ⟨List.mem_of_find?_eq_some h, by simpa using List.find?_some h, habove⟩
  · cases h

theorem live_iff_isSome {l : Nat} : Live s l ↔ (liveEntry s l).isSome := by
  constructor
  · rintro ⟨⟨e, he, hlsn⟩, habove⟩
    rw [liveEntry, if_pos habove, List.find?_isSome]
    exact ⟨e, he, by simpa using hlsn⟩
  · intro h
    obtain ⟨e, he⟩ := Option.isSome_iff_exists.mp h
    obtain ⟨hmem, hlsn, habove⟩ := liveEntry_eq_some he
    exact ⟨⟨e, hmem, hlsn⟩, habove⟩

namespace FileWal

variable {fmt : Format E} {w : FileWal E} {l : Nat}

theorem read_of_not_inRotatedSegment (h : ¬ InRotatedSegment w l) :
    read fmt w l = .error (.InvalidLsn l) := by
  unfold read
  cases hloc : w.lsnIndex l with
  | none => rfl
  | some loc =>
    cases hinfo : w.segments.lookup loc.segmentId with
    | none => simp only [hinfo]
    | some info => exact absurd ⟨loc, hloc, by rw [hinfo]; rfl⟩ h

theorem read_ne_invalidLsn (h : InRotatedSegment w l) (l' : Nat) :
    read fmt w l ≠ .error (.InvalidLsn l') := by
  obtain ⟨loc, hloc, hinfo⟩ := h
  obtain ⟨info, hinfo⟩ := Option.isSome_iff_exists.mp hinfo
  unfold read
  simp only [hloc, hinfo]
  intro hread
  split at hread
  · cases hread
  split at hread
  · cases hread
  split at hread <;> cases hread

theorem Placed.read {loc : SegmentLocation} (h : Placed fmt w) (hloc : w.lsnIndex l = some loc)
    (hinfo : (w.segments.lookup loc.segmentId).isSome) :
    ∃ e, (loc.segmentId, e) ∈ w.written ∧ e.header.lsn = l ∧
      (e.Readable fmt → FileWal.read fmt w l = .ok (e.sealed fmt)) := by
  obtain ⟨info, hinfo⟩ := Option.isSome_iff_exists.mp hinfo
  obtain ⟨e, he, hlsn, file, hfile, hlen, hslice⟩ := h.located l loc hloc
  refine ⟨e, he, hlsn, fun hreadable => ?_⟩
  have hbytes := WalEntry.fromBytes_toBytes fmt hreadable
  have hfile' : w.disk.lookup info.id = some file := by rw [h.named _ _ hinfo]; exact hfile
  have hlong : ¬ (e.toBytes fmt).length < loc.size := by omega
  simp only [FileWal.read, hloc, hinfo, hfile', hslice, if_neg hlong, hbytes]

theorem scanLsns_eq_filterMap {f : Nat → Option (WalEntry E)} {lsns : List Nat}
    (h : ∀ l ∈ lsns, (∃ e, f l = some e ∧ FileWal.read fmt w l = .ok e) ∨
      (f l = none ∧ FileWal.read fmt w l = .error (.InvalidLsn l))) :
    scanLsns fmt w lsns = .ok (lsns.filterMap f) := by
  induction lsns with
  | nil => rfl
  | cons l lsns ih =>
    have htail := ih (fun l' hl' => h l' (List.mem_cons_of_mem _ hl'))
    rcases h l List.mem_cons_self with ⟨e, hf, hread⟩ | ⟨hf, hread⟩
    · simp only [scanLsns, hread, htail, List.filterMap_cons, hf]
    · simp only [scanLsns, hread, htail, List.filterMap_cons, hf]

end FileWal

theorem read_liveEntry {l : Nat} {e : WalEntry E} (hplaced : FileWal.Placed fmt s.wal)
    (hstored : Stored fmt s) (hreadable : ∀ e ∈ s.returned, e.Readable fmt) (he : e ∈ s.returned)
    (hlsn : e.header.lsn = l) (hrot : InRotatedSegment s.wal l) :
    FileWal.read fmt s.wal l = .ok e := by
  obtain ⟨loc, hloc, hinfo⟩ := hrot
  obtain ⟨e', he', hlsn', hread⟩ := hplaced.read hloc hinfo
  obtain ⟨id, hid⟩ := hstored.returnedWritten e he
  -- LSNs are unique in the log, so the two entries are one
  have hsame : (id, e) = (loc.segmentId, e') := by
    by_contra hne
    have : Std.Symm (fun p q : Nat × WalEntry E => p.2.header.lsn ≠ q.2.header.lsn) :=
      ⟨fun _ _ h => Ne.symm h⟩
    exact hstored.unique.forall hid he' hne (hlsn.trans hlsn'.symm)
  cases hsame
  rw [hread (hreadable e he), hstored.isSealed _ hid]

/-- **Reads see writes** exactly in the states where the LSNs that were returned, and not
truncated, are the ones that lie in a rotated segment. -/
theorem readsSeeWrites_iff {fmt : Format E} {config : WalConfig} {s : System E}
    (hreach : Reaches (System.step fmt) CleanStep (System.new config) s)
    (hreadable : ∀ e ∈ s.returned, e.Readable fmt) :
    ReadsSeeWrites fmt s ↔ ∀ l, Live s l ↔ InRotatedSegment s.wal l := by
  obtain ⟨hplaced, hstored⟩ := placed_stored_reaches hreach
  constructor
  · intro h l
    constructor
    · rintro ⟨⟨e, he, rfl⟩, habove⟩
      by_contra hnot
      have hread := h.read e he habove
      rw [read_of_not_inRotatedSegment hnot] at hread
      cases hread
    · intro hrot
      by_contra hnot
      have hnone : liveEntry s l = none := by
        rw [live_iff_isSome, Bool.not_eq_true, Option.isSome_eq_false_iff] at hnot
        exact Option.isNone_iff_eq_none.mp hnot
      -- scanning this LSN alone has to come back empty
      have hscan := h.scan l (l + 1)
      simp only [scan, Nat.add_sub_cancel_left, List.range'_one, List.filterMap_cons, hnone,
        List.filterMap_nil, scanLsns] at hscan
      split at hscan
      · cases hscan
      next hread => exact read_ne_invalidLsn hrot _ hread
      · cases hscan
  · intro hiff
    refine ⟨?_, ?_⟩
    · intro e he habove
      exact read_liveEntry hplaced hstored hreadable he rfl ((hiff _).mp ⟨⟨e, he, rfl⟩, habove⟩)
    · intro start stop
      refine scanLsns_eq_filterMap ?_
      intro l _
      cases hl : liveEntry s l with
      | some e =>
        obtain ⟨he, hlsn, -⟩ := liveEntry_eq_some hl
        have hrot := (hiff l).mp (live_iff_isSome.mpr (by rw [hl]; rfl))
        exact .inl ⟨e, rfl, read_liveEntry hplaced hstored hreadable he hlsn hrot⟩
      | none =>
        refine .inr ⟨rfl, read_of_not_inRotatedSegment ?_⟩
        intro hrot
        have hlive := live_iff_isSome.mp ((hiff l).mpr hrot)
        rw [hl] at hlive
        cases hlive

theorem sampleEntry_readable {lsn : Nat} (hlsn : lsn < 256 ^ 8) :
    (FileWal.stamped bincode lsn sampleEntry).Readable bincode where
  lsn_lt := hlsn
  previousLsn_lt := lt_of_le_of_lt (Nat.sub_le _ _) hlsn
  payload_lt := by
    rw [show stamped bincode lsn sampleEntry =
      (assignLsn sampleEntry lsn).sealed bincode from rfl]
    change (bincode.payload.encode (.Raw [1, 2, 3])).length < 2 ^ 32
    decide
  payload_decodes := (bincode_raw_roundTrips (by decide)).decodeFront_encode
  transaction_decodes := fun _ h => nomatch h

/-- An append that rotates its segment out before it returns: here the reads do see it. -/
theorem readsSeeWrites_after_rotation :
    ∃ s, exec (System.step bincode) (System.new sampleConfig)
        ([.reserve false [sampleEntry] 0, .write 0 (fun _ => .ok) true] ++ rotateSteps ++
          [.finish 0 true]) = some s ∧
      (ReadsSeeWrites bincode s ↔ ∀ l, Live s l ↔ InRotatedSegment s.wal l) ∧
      (∃ e ∈ s.returned, e.header.lsn = 0) ∧ InRotatedSegment s.wal 0 := by
  apply exists_exec
    (fun s => s.returned = [stamped bincode 0 sampleEntry] ∧
      (s.wal.lsnIndex 0).any (fun loc => (s.wal.segments.lookup loc.segmentId).isSome))
    (by decide +kernel)
  intro s hexec hq
  obtain ⟨hret, hrot⟩ := hq
  have hreach : Reaches (System.step bincode) CleanStep (System.new sampleConfig) s :=
    Reaches.of_exec (by decide +kernel) hexec
  refine ⟨readsSeeWrites_iff hreach ?_, ⟨_, hret ▸ List.mem_singleton.mpr rfl, rfl⟩, ?_⟩
  · intro e he
    rw [hret] at he
    cases List.mem_singleton.mp he
    exact sampleEntry_readable (by decide)
  · obtain ⟨loc, hloc, hinfo⟩ := (Option.any_eq_true _ _).mp hrot
    exact ⟨loc, hloc, hinfo⟩

/-- The first append of a log returns `Ok` with LSN 0, and a read of LSN 0 does not know it. -/
theorem read_misses_active_segment :
    ∃ s, exec (System.step bincode) (System.new sampleConfig) (appendSteps sampleEntry) = some s ∧
      s.returned = [FileWal.stamped bincode 0 sampleEntry] ∧ s.truncated = [] ∧
      FileWal.read bincode s.wal 0 = .error (.InvalidLsn 0) ∧
      ¬ ReadsSeeWrites bincode s := by
  apply exists_exec
    (fun s => s.returned = [stamped bincode 0 sampleEntry] ∧ s.truncated = [] ∧
      (s.wal.lsnIndex 0).all (fun loc => (s.wal.segments.lookup loc.segmentId).isNone))
    (by decide +kernel)
  intro s _ hq
  obtain ⟨hret, htrunc, hactive⟩ := hq
  have hread : read bincode s.wal 0 = .error (.InvalidLsn 0) := by
    refine read_of_not_inRotatedSegment ?_
    rintro ⟨loc, hloc, hinfo⟩
    rw [hloc, Option.all_some, Option.isNone_iff_eq_none] at hactive
    rw [hactive] at hinfo
    cases hinfo
  refine ⟨hret, htrunc, hread, ?_⟩
  intro h
  have hsees := h.read _ (hret ▸ List.mem_singleton.mpr rfl) (by simp [htrunc])
  rw [stamped_lsn, hread] at hsees
  cases hsees

end Arcxa.Wal
