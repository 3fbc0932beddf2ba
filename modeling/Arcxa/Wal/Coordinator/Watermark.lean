import Arcxa.Wal.Coordinator.Outcome

/-!
# What the watermark covers

The compaction worker deletes segments up to `committed_lsn`. A commit publishes the
largest LSN of its own transaction, whatever other transactions have logged below it,
and the watermark of a new WAL is 0, which is already the first LSN. So the watermark can
cover records of transactions that are still undecided.

`Guarded` is what it takes to rule that out: records that decide nothing reach the log
above the watermark only, a commit publishes only when the transactions that began below
its largest LSN are decided, its own apart, and rotations record an end that bounds their
segment. `watermarkSafe_of_guarded` is the safety result for such runs: all records of a
transaction come after its `Begin` (`Begun`).
-/

namespace Arcxa.Wal

open FileWal

variable {E : Type}

def ownerOf (e : WalEntry E) : Option Nat :=
  match e.payload with
  | .Transaction op => some op.txId
  | _ => e.transaction.map (fun ctx => ctx.txId)

def Operation.decides : Operation E → Bool
  | .Commit .. | .Abort .. => true
  | _ => false

def Stage.lsn? : Stage → Option Nat
  | .reserved lsn => some lsn
  | _ => none

namespace WalCoordinator

/-- The log holds the transaction's `Commit` or `Abort`. -/
def Decided (s : WalCoordinator E) (txId : Nat) : Prop := s.CommitLogged txId ∨ s.AbortLogged txId

instance (s : WalCoordinator E) (txId : Nat) : Decidable (s.Decided txId) :=
  inferInstanceAs (Decidable (_ ∨ _))

def OfDecided (s : WalCoordinator E) (e : WalEntry E) : Prop :=
  ∃ t, t ∈ ownerOf e ∧ s.Decided t

instance (s : WalCoordinator E) (e : WalEntry E) : Decidable (s.OfDecided e) :=
  inferInstanceAs (Decidable (∃ t, t ∈ ownerOf e ∧ s.Decided t))

/-- Records at or below the watermark belong to decided transactions, and so do all records
of the segments that compaction may delete. -/
structure WatermarkSafe (s : WalCoordinator E) : Prop where
  covered : ∀ p ∈ s.wal.written, p.2.header.lsn ≤ s.wal.committedLsn → s.OfDecided p.2
  deletable : ∀ id info, s.wal.segments.lookup id = some info →
    FileWal.eligible s.wal.committedLsn info → ∀ e, (id, e) ∈ s.wal.written → s.OfDecided e

/-- No other transaction that began up to `lsn` is still undecided. -/
def AloneBelow (s : WalCoordinator E) (txId lsn : Nat) : Prop :=
  ∀ p ∈ s.wal.written, p.2.header.lsn ≤ lsn → ∀ t ∈ ownerOf p.2,
    markerOf t p.2 = some .begin → t = txId ∨ s.Decided t

instance (s : WalCoordinator E) (txId lsn : Nat) : Decidable (s.AloneBelow txId lsn) := by
  unfold AloneBelow
  infer_instance

/-- The schedules that keep undecided records above the watermark. -/
def Guarded (s : WalCoordinator E) : CoordinatorAction E → Prop
  | .write txId io _ _ =>
    ∀ task ∈ s.tasks.lookup txId, ∀ lsn ∈ task.stage.lsn?,
      task.op.decides ∨ io lsn ≠ .ok ∨ s.wal.committedLsn < lsn
  | .publish txId true =>
    ∀ tx ∈ s.transactions.lookup txId, ∀ maxLsn ∈ tx.lsns.max?, s.AloneBelow txId maxLsn
  | .background (.rotateSwap i true) =>
    ∀ r ∈ s.wal.rotations[i]?, r.newSegmentId = some (s.wal.activeSegment.id + 1) ∧
      ∀ p ∈ s.wal.written, p.1 = s.wal.activeSegment.id → p.2.header.lsn ≤ r.currentLsn
  | _ => True

instance (s : WalCoordinator E) (a : CoordinatorAction E) : Decidable (Guarded s a) := by
  cases a with
  | publish txId ok => cases ok <;> unfold Guarded <;> infer_instance
  | background work =>
    cases work with
    | rotateSwap i syncOk => cases syncOk <;> unfold Guarded <;> infer_instance
    | _ => unfold Guarded; infer_instance
  | _ => unfold Guarded; infer_instance

/-! ## Decisions are final -/

variable {fmt : Format E} {s s' : WalCoordinator E}

theorem decided_mono {more : List (Nat × WalEntry E)}
    (h : s'.wal.written = s.wal.written ++ more) {t : Nat} (hs : s.Decided t) : s'.Decided t := by
  have hgrow : ∀ m ∈ markersOf s.wal.written t, m ∈ markersOf s'.wal.written t := by
    intro m hm
    rw [h, markersOf_append]
    exact List.mem_append_left _ hm
  exact hs.imp (hgrow _) (hgrow _)

variable {e : WalEntry E}

theorem ofDecided_mono {more : List (Nat × WalEntry E)} (h : s'.wal.written = s.wal.written ++ more)
    (hs : s.OfDecided e) : s'.OfDecided e := by
  obtain ⟨t, howner, hdecided⟩ := hs
  exact ⟨t, howner, decided_mono h hdecided⟩

theorem ofDecided_congr (h : s'.wal.written = s.wal.written) (hs : s.OfDecided e) :
    s'.OfDecided e :=
  ofDecided_mono (h.trans (List.append_nil _).symm) hs

/-! ## Transactions and their beginnings -/

/-- The transaction's `Begin` is in the log, at `lsn` or below. -/
def BeganBy (log : List (Nat × WalEntry E)) (t lsn : Nat) : Prop :=
  ∃ p ∈ log, markerOf t p.2 = some .begin ∧ t ∈ ownerOf p.2 ∧ p.2.header.lsn ≤ lsn

theorem BeganBy.append {log : List (Nat × WalEntry E)} {t lsn : Nat} (h : BeganBy log t lsn)
    (more : List (Nat × WalEntry E)) : BeganBy (log ++ more) t lsn := by
  obtain ⟨p, hp, hbegin⟩ := h
  exact ⟨p, List.mem_append_left _ hp, hbegin⟩

theorem ownerOf_of_markerOf {t : Nat} {m : Marker} (h : markerOf t e = some m) : t ∈ ownerOf e := by
  unfold markerOf at h
  unfold ownerOf
  cases hpayload : e.payload with
  | Transaction op =>
    rw [hpayload] at h
    dsimp only at h
    split_ifs at h with ht
    exact congrArg some ht
  | _ => simp only [hpayload, reduceCtorEq] at h

/-- LSNs are reserved in order, and every record comes at or after its transaction's `Begin`. -/
structure Begun (s : WalCoordinator E) : Prop where
  below : ∀ p ∈ s.wal.written, p.2.header.lsn < s.wal.currentLsn
  reserved : ∀ t op lsn, s.tasks.lookup t = some ⟨op, .reserved lsn⟩ →
    lsn + (op.entries t).length ≤ s.wal.currentLsn ∧
      (op.markers = [.begin] ∨ BeganBy s.wal.written t lsn)
  first : ∀ p ∈ s.wal.written, ∃ t ∈ ownerOf p.2, BeganBy s.wal.written t p.2.header.lsn

theorem Begun.of_frame (h : Begun s) (hwritten : s'.wal.written = s.wal.written)
    (hcurrent : s'.wal.currentLsn = s.wal.currentLsn)
    (htasks : ∀ t op lsn, s'.tasks.lookup t = some ⟨op, .reserved lsn⟩ →
      s.tasks.lookup t = some ⟨op, .reserved lsn⟩) : Begun s' := by
  refine ⟨?_, fun t op lsn ht => ?_, ?_⟩
  · rw [hwritten, hcurrent]
    exact h.below
  · rw [hwritten, hcurrent]
    exact h.reserved t op lsn (htasks t op lsn ht)
  · rw [hwritten]
    exact h.first

variable {op : Operation E}

theorem reserved_of_erase {tasks : AList fun _ : Nat => Task E} {txId t lsn : Nat}
    (h : (tasks.erase txId).lookup t = some ⟨op, .reserved lsn⟩) :
    tasks.lookup t = some ⟨op, .reserved lsn⟩ := by
  by_cases ht : t = txId
  · rw [ht, AList.lookup_erase] at h
    cases h
  · rwa [AList.lookup_erase_ne ht] at h

theorem reserved_of_insert {tasks : AList fun _ : Nat => Task E} {txId t lsn : Nat} {task : Task E}
    (hstage : task.stage.lsn? = none)
    (h : (tasks.insert txId task).lookup t = some ⟨op, .reserved lsn⟩) :
    tasks.lookup t = some ⟨op, .reserved lsn⟩ := by
  by_cases ht : t = txId
  · rw [ht, AList.lookup_insert] at h
    cases h
    cases hstage
  · rwa [AList.lookup_insert_ne ht] at h

/-- Stamping changes the header only. -/
theorem exists_of_mem_stampedFrom {es : List (WalEntry E)} {lsn : Nat}
    (h : e ∈ FileWal.stampedFrom fmt lsn es) :
    ∃ e' ∈ es, e.payload = e'.payload ∧ e.transaction = e'.transaction := by
  induction es generalizing lsn with
  | nil => cases h
  | cons e' es ih =>
    rcases List.mem_cons.mp h with rfl | htail
    · exact ⟨e', List.mem_cons_self, rfl, rfl⟩
    · obtain ⟨e'', he'', heq⟩ := ih htail
      exact ⟨e'', List.mem_cons_of_mem _ he'', heq⟩

variable {txId lsn k : Nat}

theorem ownerOf_mem_entries (h : e ∈ FileWal.stampedFrom fmt lsn ((op.entries txId).take k)) :
    ownerOf e = some txId := by
  have hall : ∀ e' ∈ op.entries txId, ownerOf e' = some txId := by
    cases op with
    | AddLineage events parentTx now =>
      intro e' he'
      obtain ⟨event, -, rfl⟩ := List.mem_map.mp he'
      rfl
    | Begin | Prepare | Commit | Abort =>
      intro e' he'
      cases List.mem_singleton.mp he'
      rfl
  obtain ⟨e', he', hpayload, htransaction⟩ := exists_of_mem_stampedFrom h
  rw [← hall e' (List.mem_of_mem_take he'), ownerOf, ownerOf, hpayload, htransaction]

theorem markerOf_mem_entries (hop : op.markers = [.begin])
    (h : e ∈ FileWal.stampedFrom fmt lsn ((op.entries txId).take k)) :
    markerOf txId e = some .begin := by
  obtain ⟨e', he', hpayload, -⟩ := exists_of_mem_stampedFrom h
  cases op with
  | Begin now =>
    obtain rfl := List.mem_singleton.mp (List.mem_of_mem_take he')
    rw [markerOf, hpayload]
    exact if_pos rfl
  | AddLineage | Prepare | Commit | Abort => cases hop

/-- An operation that begins nothing is on a transaction that has begun. -/
theorem begin_mem_of_beforeWrite {ms : List Marker} {status : Option TransactionStatus}
    (h : Life.BeforeWrite ms status op) : op.markers = [.begin] ∨ Marker.begin ∈ ms := by
  cases op with
  | Begin now => exact .inl rfl
  | AddLineage events parentTx now => exact .inr (h.2 ▸ List.mem_singleton_self _)
  | Prepare participants now => exact .inr (h.2 ▸ List.mem_singleton_self _)
  | Commit commitLsn now => exact .inr (h.2 ▸ List.mem_cons_self ..)
  | Abort reason now =>
    obtain ⟨base, n, hbase, rfl⟩ := h.2
    refine .inr (List.mem_append_left _ ?_)
    rcases hbase with rfl | rfl | rfl <;> exact List.mem_cons_self ..

theorem Begun.wrote {wal : FileWal E} (h : Begun s)
    (htask : s.tasks.lookup txId = some ⟨op, .reserved lsn⟩)
    (hw : FileWal.Wrote fmt s.wal wal lsn (op.entries txId) k) (hwal : s'.wal = wal)
    (htasks : ∀ t op lsn, s'.tasks.lookup t = some ⟨op, .reserved lsn⟩ →
      s.tasks.lookup t = some ⟨op, .reserved lsn⟩) : Begun s' := by
  obtain ⟨hfits, hbegun⟩ := h.reserved txId op lsn htask
  subst hwal
  refine ⟨fun p hp => ?_, fun t op lsn ht => ?_, fun p hp => ?_⟩
  · rw [hw.currentLsn]
    rcases hw.mem_written hp with hold | ⟨e, he, rfl⟩
    · exact h.below p hold
    · have hlsn := hw.lsn_mem he
      have hle := hw.le
      dsimp only
      omega
  · obtain ⟨hle, hbegin⟩ := h.reserved t op lsn (htasks t op lsn ht)
    rw [hw.currentLsn, hw.written]
    exact ⟨hle, hbegin.imp_right fun hby => hby.append _⟩
  · rcases hw.mem_written hp with hold | ⟨e, he, rfl⟩
    · obtain ⟨t, howner, hby⟩ := h.first p hold
      rw [hw.written]
      exact ⟨t, howner, hby.append _⟩
    · refine ⟨txId, ownerOf_mem_entries he, ?_⟩
      rcases hbegun with hmarkers | hby
      · exact ⟨_, hp, markerOf_mem_entries hmarkers he, ownerOf_mem_entries he, le_rfl⟩
      · obtain ⟨p, hold, hbegin, howner, hle⟩ := hby.append _
        rw [← hw.written] at hold
        exact ⟨p, hold, hbegin, howner, hle.trans (hw.lsn_mem he).1⟩

theorem begun_new (config : WalConfig) : Begun (new config : WalCoordinator E) := by
  refine ⟨by simp [new, FileWal.new], fun t op lsn ht => ?_, by simp [new, FileWal.new]⟩
  rw [new, AList.lookup_empty] at ht
  cases ht

theorem begun_step {a : CoordinatorAction E} (horderly : Orderly s) (hs : Begun s)
    (h : step fmt s a = some s') : Begun s' := by
  cases a with
  | connectStorage =>
    cases h
    exact hs.of_frame rfl rfl fun _ _ _ ht => ht
  | beginTransaction now =>
    cases h
    exact hs.of_frame rfl rfl fun _ _ _ ht => reserved_of_insert rfl ht
  | request txId req now =>
    obtain rfl | ⟨tx, tx', op, -, -, -, rfl⟩ := step_request h
    · exact hs
    · exact hs.of_frame rfl rfl fun _ _ _ ht => reserved_of_insert rfl ht
  | reserve txId available =>
    obtain ⟨op, htask, rfl | rfl⟩ := step_reserve h
    · exact hs.of_frame rfl rfl fun _ _ _ ht => reserved_of_erase ht
    refine ⟨fun p hp => (hs.below p hp).trans_le (Nat.le_add_right ..), fun t op' lsn ht => ?_,
      hs.first⟩
    dsimp only at ht ⊢
    by_cases heq : t = txId
    · rw [heq, AList.lookup_insert] at ht
      cases ht
      subst heq
      refine ⟨le_rfl, ?_⟩
      -- the log is below the LSN that is reserved now
      have hvalid := horderly.valid t
      rw [life_eq rfl htask rfl rfl] at hvalid
      refine (begin_mem_of_beforeWrite hvalid).imp_right fun hmem => ?_
      obtain ⟨p, hp, hbegin⟩ := List.mem_filterMap.mp hmem
      exact ⟨p, hp, hbegin, ownerOf_of_markerOf hbegin, (hs.below p hp).le⟩
    · rw [AList.lookup_insert_ne heq] at ht
      obtain ⟨hle, hbegin⟩ := hs.reserved t op' lsn ht
      exact ⟨hle.trans (Nat.le_add_right ..), hbegin⟩
  | write txId io syncOk rotateOk =>
    obtain ⟨op, lsn, k, wal, htask, hw, -, rfl | ⟨-, hdone⟩⟩ := step_write h
    · exact hs.wrote htask hw rfl fun _ _ _ ht => reserved_of_erase ht
    · rcases complete_cases hdone with ⟨_, -, rfl⟩ | ⟨_, _, _, _, -, -, rfl⟩ |
        ⟨_, _, _, -, -, rfl⟩ | ⟨_, _, -, rfl⟩ | ⟨_, _, _, -, -, rfl⟩
      · exact hs.wrote htask hw rfl fun _ _ _ ht => reserved_of_erase ht
      · exact hs.wrote htask hw rfl fun _ _ _ ht => reserved_of_erase ht
      · exact hs.wrote htask hw rfl fun _ _ _ ht => reserved_of_erase ht
      · exact hs.wrote htask hw rfl fun _ _ _ ht => reserved_of_insert rfl ht
      · exact hs.wrote htask hw rfl fun _ _ _ ht => reserved_of_insert rfl ht
  | store txId failedAfter =>
    obtain ⟨op, tx, events, -, -, rfl | rfl | rfl⟩ := step_store h
    · exact hs.of_frame rfl rfl fun _ _ _ ht => reserved_of_erase ht
    · exact hs.of_frame rfl rfl fun _ _ _ ht => reserved_of_insert rfl ht
    · exact hs.of_frame rfl rfl fun _ _ _ ht => reserved_of_insert rfl ht
  | publish txId ok =>
    obtain ⟨op, tx, -, -, ⟨-, rfl⟩ | ⟨-, rfl⟩⟩ := step_publish h
    · have hcurrent : (s.wal.commitBatch tx.lsns).currentLsn = s.wal.currentLsn := by
        unfold commitBatch
        split <;> rfl
      exact hs.of_frame (commitBatch_written _ _) hcurrent
        fun _ _ _ ht => reserved_of_insert rfl ht
    · exact hs.of_frame rfl rfl fun _ _ _ ht => reserved_of_erase ht
  | remove txId =>
    obtain ⟨op, -, rfl⟩ := step_remove h
    exact hs.of_frame rfl rfl fun _ _ _ ht => reserved_of_erase ht
  | background work =>
    obtain ⟨w', hw, rfl⟩ := Option.map_eq_some_iff.mp h
    obtain ⟨hwritten, -, hcurrent⟩ := background_frame hw
    exact hs.of_frame hwritten hcurrent fun _ _ _ ht => ht

/-- **What a publishing commit covers**: its own records, and those of transactions that have begun
before them. -/
theorem Begun.ofDecided (h : Begun s) {txId lsn : Nat} (hown : s.CommitLogged txId)
    (halone : s.AloneBelow txId lsn) {p : Nat × WalEntry E} (hp : p ∈ s.wal.written)
    (hle : p.2.header.lsn ≤ lsn) : s.OfDecided p.2 := by
  obtain ⟨t, howner, b, hb, hbegin, howner', hfirst⟩ := h.first p hp
  refine ⟨t, howner, ?_⟩
  rcases halone b hb (hfirst.trans hle) t howner' hbegin with rfl | hdecided
  · exact .inl hown
  · exact hdecided

/-! ## Segments and their ends -/

def EndsBound (w : FileWal E) : Prop :=
  ∀ id info, w.segments.lookup id = some info → id < w.activeSegment.id ∧
    ∃ endLsn, info.endLsn = some endLsn ∧
      ∀ e, (id, e) ∈ w.written → e.header.lsn ≤ endLsn

theorem EndsBound.of_frame {w w' : FileWal E} (h : EndsBound w) (hsegments : w'.segments = w.segments)
    (hactive : w'.activeSegment.id = w.activeSegment.id) (hwritten : w'.written = w.written) :
    EndsBound w' := by
  unfold EndsBound
  rw [hsegments, hactive, hwritten]
  exact h

theorem EndsBound.wrote {w w' : FileWal E} {lsn k : Nat} {es : List (WalEntry E)} (h : EndsBound w)
    (hw : FileWal.Wrote fmt w w' lsn es k) : EndsBound w' := by
  intro id info hinfo
  rw [hw.segments] at hinfo
  obtain ⟨hlt, endLsn, hend, hbound⟩ := h id info hinfo
  refine ⟨by rw [hw.activeId]; exact hlt, endLsn, hend, ?_⟩
  intro e he
  rcases hw.mem_written he with hold | ⟨e', -, heq⟩
  · exact hbound e hold
  · -- new entries go to the active segment, which is not this one
    have : id = w.activeSegment.id := congrArg Prod.fst heq
    omega

theorem EndsBound.swap {w : FileWal E} {endLsn : Nat} {rotations : List PendingRotation}
    (h : EndsBound w)
    (hend : ∀ p ∈ w.written, p.1 = w.activeSegment.id → p.2.header.lsn ≤ endLsn) :
    EndsBound { w with
      segments := w.segments.insert w.activeSegment.id
        (FileWal.rotationInfo w.activeSegment endLsn)
      activeSegment := FileWal.newSegment w.config (w.activeSegment.id + 1) endLsn
      rotations } := by
  intro id info hinfo
  dsimp only at hinfo ⊢
  by_cases hid : id = w.activeSegment.id
  · subst hid
    rw [AList.lookup_insert] at hinfo
    cases hinfo
    exact ⟨Nat.lt_succ_self _, endLsn, rfl, fun e he => hend _ he rfl⟩
  · rw [AList.lookup_insert_ne hid] at hinfo
    obtain ⟨hlt, hrest⟩ := h id info hinfo
    exact ⟨Nat.lt_succ_of_lt hlt, hrest⟩

theorem endsBound_background {w : FileWal E} {work : Background} (hw : EndsBound w)
    (hok : Guarded s (.background work)) (hs : s.wal = w) {w' : FileWal E}
    (h : w.background work = some w') : EndsBound w' := by
  subst hs
  cases work with
  | rotateLoad =>
    cases h
    exact hw.of_frame rfl rfl rfl
  | rotateCreate i createOk =>
    obtain ⟨r, -, -, rfl | rfl⟩ := rotateCreate_cases h <;> exact hw.of_frame rfl rfl rfl
  | rotateSwap i syncOk =>
    obtain ⟨r, id, hr, hid, ⟨rfl, rfl⟩ | ⟨rfl, rfl⟩⟩ := rotateSwap_cases h
    · obtain ⟨hnext, hend⟩ := hok r hr
      obtain rfl : id = s.wal.activeSegment.id + 1 := Option.some.inj (hid.symm.trans hnext)
      exact hw.swap hend
    · exact hw.of_frame rfl rfl rfl
  | compactSelect =>
    cases h
    unfold compactSelect
    dsimp only
    split
    · exact hw.of_frame rfl rfl rfl
    · exact hw
  | compactNext copyOk removeOk =>
    obtain ⟨info, rest, -, rfl⟩ := compactNext_cases h
    unfold compactSegment
    split <;> exact hw.of_frame rfl rfl rfl

/-! ## The invariant -/

structure Covering (s : WalCoordinator E) : Prop where
  covered : ∀ p ∈ s.wal.written, p.2.header.lsn ≤ s.wal.committedLsn → s.OfDecided p.2
  ends : EndsBound s.wal

theorem Covering.watermarkSafe (h : Covering s) : WatermarkSafe s := by
  refine ⟨h.covered, ?_⟩
  intro id info hinfo heligible e he
  obtain ⟨-, endLsn, hend, hbound⟩ := h.ends id info hinfo
  have hle : endLsn ≤ s.wal.committedLsn := by
    simp only [eligible, hend, Option.any_some, Bool.and_eq_true, decide_eq_true_eq]
      at heligible
    exact heligible.2
  exact h.covered (id, e) he (le_trans (hbound e he) hle)

theorem Covering.of_frame (h : Covering s) (hwritten : s'.wal.written = s.wal.written)
    (hcommitted : s'.wal.committedLsn = s.wal.committedLsn) (hends : EndsBound s'.wal) :
    Covering s' := by
  refine ⟨?_, hends⟩
  intro p hp hle
  rw [hwritten] at hp
  rw [hcommitted] at hle
  exact ofDecided_congr hwritten (h.covered p hp hle)

theorem Covering.wrote {wal : FileWal E} (h : Covering s)
    (hw : FileWal.Wrote fmt s.wal wal lsn (op.entries txId) k)
    (hok : op.decides ∨ wal.written = s.wal.written ∨ s.wal.committedLsn < lsn)
    (hwal : s'.wal = wal) : Covering s' := by
  have hgrow := hw.written
  rw [← hwal] at hgrow
  refine ⟨?_, by rw [hwal]; exact h.ends.wrote hw⟩
  intro p hp hle
  rw [hwal, hw.committedLsn] at hle
  rw [hwal] at hp
  rcases hw.mem_written hp with hold | ⟨e, he, rfl⟩
  · exact ofDecided_mono hgrow (h.covered p hold hle)
  have hlsn := hw.lsn_mem he
  rcases hok with hdecides | hnothing | habove
  · -- the entry is the decision itself
    refine ⟨txId, ownerOf_mem_entries he, ?_⟩
    have hk : k = (op.entries txId).length := by
      have hle' := hw.le
      cases op with
      | Commit | Abort =>
        simp only [Operation.entries, List.length_singleton] at hle' hlsn ⊢
        omega
      | Begin | AddLineage | Prepare => cases hdecides
    have hmarkers := (markersOf_wrote fmt hw).2.2 hk
    rw [← hwal] at hmarkers
    unfold Decided CommitLogged AbortLogged
    rw [hmarkers]
    cases op with
    | Commit => exact .inl (List.mem_append_right _ (List.mem_singleton.mpr rfl))
    | Abort => exact .inr (List.mem_append_right _ (List.mem_singleton.mpr rfl))
    | Begin | AddLineage | Prepare => cases hdecides
  · have hnil : stampedFrom fmt lsn ((op.entries txId).take k) = [] := by
      rw [hw.written] at hnothing
      simpa using hnothing
    rw [hnil] at he
    cases he
  · dsimp only at hle
    omega

theorem covering_step {a : CoordinatorAction E} (horderly : Orderly s) (hbegun : Begun s)
    (hs : Covering s) (hok : Guarded s a) (h : step fmt s a = some s') : Covering s' := by
  cases a with
  | connectStorage | beginTransaction =>
    cases h
    exact hs.of_frame rfl rfl hs.ends
  | request txId req now =>
    obtain rfl | ⟨tx, tx', op, -, -, -, rfl⟩ := step_request h
    · exact hs
    · exact hs.of_frame rfl rfl hs.ends
  | reserve txId available =>
    obtain ⟨op, -, rfl | rfl⟩ := step_reserve h
    · exact hs.of_frame rfl rfl hs.ends
    · exact hs.of_frame rfl rfl (hs.ends.of_frame rfl rfl rfl)
  | write txId io syncOk rotateOk =>
    obtain ⟨op, lsn, k, wal, htask, hw, hlocked, hres⟩ := step_write h
    have hcondition : op.decides ∨ wal.written = s.wal.written ∨ s.wal.committedLsn < lsn := by
      refine (hok _ htask lsn rfl).imp_right (Or.imp_left ?_)
      intro hfail
      rw [hlocked]
      exact appendLocked_written_of_fail fmt hfail
    refine hs.wrote hw hcondition ?_
    rcases hres with rfl | ⟨-, hdone⟩
    · rfl
    · rcases complete_cases hdone with ⟨_, -, rfl⟩ | ⟨_, _, _, _, -, -, rfl⟩ |
        ⟨_, _, _, -, -, rfl⟩ | ⟨_, _, -, rfl⟩ | ⟨_, _, _, -, -, rfl⟩ <;> rfl
  | store txId failedAfter =>
    obtain ⟨op, tx, events, -, -, rfl | rfl | rfl⟩ := step_store h <;>
      exact hs.of_frame rfl rfl hs.ends
  | publish txId ok =>
    obtain ⟨op, tx, htask, htx, ⟨rfl, rfl⟩ | ⟨rfl, rfl⟩⟩ := step_publish h
    · have hcondition := hok tx htx
      have hvalid := horderly.valid txId
      rw [life_eq rfl htask rfl rfl] at hvalid
      have hown : s.CommitLogged txId := by
        have hmarkers : markersOf s.wal.written txId = [.begin, .prepare, .commit] :=
          (Life.commit_of_committing hvalid.2).2
        rw [CommitLogged, hmarkers]
        decide
      cases hmax : tx.lsns.max? with
      | none =>
        have hsame : s.wal.commitBatch tx.lsns = s.wal := by simp only [commitBatch, hmax]
        refine hs.of_frame ?_ ?_ ?_
        · dsimp only
          rw [hsame]
        · dsimp only
          rw [hsame]
        · dsimp only
          rw [hsame]
          exact hs.ends
      | some maxLsn =>
        have hbatch : s.wal.commitBatch tx.lsns = { s.wal with committedLsn := maxLsn } := by
          simp only [commitBatch, hmax]
        rw [hbatch]
        refine ⟨?_, hs.ends.of_frame rfl rfl rfl⟩
        intro p hp hle
        exact ofDecided_congr rfl (hbegun.ofDecided hown (hcondition maxLsn hmax) hp hle)
    · exact hs.of_frame rfl rfl hs.ends
  | remove txId =>
    obtain ⟨op, -, rfl⟩ := step_remove h
    exact hs.of_frame rfl rfl hs.ends
  | background work =>
    obtain ⟨w', hw, rfl⟩ := Option.map_eq_some_iff.mp h
    obtain ⟨hwritten, hcommitted, -⟩ := background_frame hw
    exact hs.of_frame hwritten hcommitted (endsBound_background hs.ends hok rfl hw)

/-- **The watermark covers decided transactions only**, in every state of a guarded run, and so
do the segments that compaction may delete. -/
theorem watermarkSafe_of_guarded {config : WalConfig}
    (h : Reaches (step fmt) Guarded (new config) s) : WatermarkSafe s := by
  have hinvariant : Begun s ∧ Covering s := by
    refine h.invariant' (P := fun s => Begun s ∧ Covering s) ?_ ?_
    · refine ⟨begun_new config, ?_, ?_⟩
      · simp [new, FileWal.new]
      · simp [EndsBound, new, FileWal.new]
    · intro s a s' hreach hs hok hstep
      have horderly := orderly_reaches hreach
      exact ⟨begun_step horderly hs.1 hstep, covering_step horderly hs.1 hs.2 hok hstep⟩
  exact hinvariant.2.watermarkSafe

/-- The first append burns LSN 0. Transactions 2 and 3 overlap; 3 is aborted before 2 publishes,
and 4 is active when it does. -/
def overlappingRun : List (CoordinatorAction Nat) :=
  [.beginTransaction 0, .reserve 1 0, .write 1 (fun _ => .fail 0) true true,
      .beginTransaction 0, .beginTransaction 0] ++ appendRun 2 ++ appendRun 3 ++
    [.request 3 (.addLineage [7]) 0] ++ appendRun 3 ++ [.request 2 .prepare 0] ++ appendRun 2 ++
    [.request 2 .commit 0, .request 3 (.abort "timeout") 0] ++ appendRun 3 ++
    [.beginTransaction 0] ++ appendRun 4 ++ appendRun 2 ++ [.store 2 none, .publish 2 true]

theorem watermarkSafe_overlapping :
    ∃ s, exec (step bincode) (new sampleConfig) overlappingRun = some s ∧
      (s.wal.committedLsn = 4 ∧ s.wal.written.map (fun p => p.2.header.lsn) = [1, 2, 3, 4, 5, 6, 7] ∧
        ¬ s.Decided 4) ∧ WatermarkSafe s := by
  apply exists_exec
    (fun s => s.wal.committedLsn = 4 ∧
      s.wal.written.map (fun p => p.2.header.lsn) = [1, 2, 3, 4, 5, 6, 7] ∧ ¬ s.Decided 4)
    (by decide +kernel)
  intro s hexec hq
  have hreach : Reaches (step bincode) Guarded (new sampleConfig) s :=
    Reaches.of_exec (by decide +kernel) hexec
  exact ⟨hq, watermarkSafe_of_guarded hreach⟩

/-- Transactions 1 and 2 begin at LSNs 0 and 1; transaction 1 commits and moves the watermark to
2, past the `Begin` of transaction 2, which is still active. -/
theorem watermark_covers_active_transaction :
    ∃ s, exec (step bincode) (new sampleConfig)
        ([.beginTransaction 0] ++ appendRun 1 ++ [.beginTransaction 0] ++ appendRun 2 ++
          [.request 1 .prepare 0] ++ appendRun 1 ++ [.request 1 .commit 0] ++ appendRun 1 ++
          [.store 1 none, .publish 1 true, .remove 1]) = some s ∧
      s.wal.committedLsn = 2 ∧
      (s.transactions.lookup 2).map (fun tx => (tx.status, tx.lsns)) = some (.Active, [1]) ∧
      ¬ WatermarkSafe s := by
  apply exists_exec
    (fun s => s.wal.committedLsn = 2 ∧
      (s.transactions.lookup 2).map (fun tx => (tx.status, tx.lsns)) = some (.Active, [1]) ∧
      s.wal.written.any (fun p => p.2.header.lsn ≤ s.wal.committedLsn ∧ ¬ s.OfDecided p.2))
    (by decide +kernel)
  intro s _ hq
  obtain ⟨hcommitted, hactive, hbad⟩ := hq
  refine ⟨hcommitted, hactive, ?_⟩
  intro hsafe
  obtain ⟨p, hp, hbad⟩ := List.any_eq_true.mp hbad
  rw [decide_eq_true_eq] at hbad
  exact hbad.2 (hsafe.covered p hp hbad.1)

end WalCoordinator

end Arcxa.Wal
