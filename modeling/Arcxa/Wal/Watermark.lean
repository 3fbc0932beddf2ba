import Arcxa.Wal.System

/-!
# The committed watermark (`commit`, `commit_batch`, `head_lsn`)

`commit` and `commit_batch` store what they are given. The watermark after a run of
such calls is therefore the LSN of the *last* call, and it is the maximum of
everything committed so far, at every point of the run, exactly when the calls arrive
in the order of their LSNs. The head is the LSN after it, and never moves back in such a run unless
the largest `u64` is committed: `advances_iff_ordered`.
-/

namespace Arcxa.Wal

variable {E : Type}

/-- A call of one of the two commit operations. -/
inductive CommitCall where
  | commit (lsn : UInt64)
  | commitBatch (lsns : List UInt64)
  deriving DecidableEq, Repr

namespace CommitCall

def lsns : CommitCall → List Nat
  | .commit lsn => [lsn.toNat]
  | .commitBatch lsns => lsns.map UInt64.toNat

def apply (w : FileWal E) : CommitCall → FileWal E
  | .commit lsn => w.commit lsn.toNat
  | .commitBatch lsns => w.commitBatch (lsns.map UInt64.toNat)

def stored (c : CommitCall) : Option Nat := c.lsns.max?

theorem apply_committedLsn (w : FileWal E) (c : CommitCall) :
    (c.apply w).committedLsn = c.stored.getD w.committedLsn := by
  cases c with
  | commit lsn => rfl
  | commitBatch lsns =>
    simp only [apply, FileWal.commitBatch, stored, CommitCall.lsns]
    cases (lsns.map UInt64.toNat).max? <;> rfl

theorem stored_lt {c : CommitCall} {lsn : Nat} (h : c.stored = some lsn) : lsn < 2 ^ 64 := by
  have hmem : lsn ∈ c.lsns := List.max?_mem h
  cases c with
  | commit lsn' =>
    rw [List.mem_singleton.mp hmem]
    exact lsn'.toNat_lt
  | commitBatch lsns =>
    obtain ⟨lsn', -, rfl⟩ := List.mem_map.mp hmem
    exact lsn'.toNat_lt

end CommitCall

def runCommits (w : FileWal E) (calls : List CommitCall) : FileWal E :=
  calls.foldl CommitCall.apply w

def maxCommitted (calls : List CommitCall) : Nat := (calls.flatMap CommitCall.lsns).foldr max 0

/-- At every point of the run the watermark is the maximum of what was committed so far,
and the next call leaves a head that is not before the present one. -/
def Advances (overflowChecks : Bool) (w : FileWal E) (calls : List CommitCall) : Prop :=
  ∀ sofar, sofar <+: calls →
    (runCommits w sofar).committedLsn = maxCommitted sofar ∧
    ∀ c, sofar ++ [c] <+: calls → ∃ head head',
      (runCommits w sofar).headLsn overflowChecks = some head ∧
        (runCommits w (sofar ++ [c])).headLsn overflowChecks = some head' ∧ head ≤ head'

def Ordered (calls : List CommitCall) : Prop :=
  (calls.filterMap CommitCall.stored).Pairwise (· ≤ ·)

/-- No call stores the largest `u64`. -/
def LeavesNext (calls : List CommitCall) : Prop :=
  ∀ c ∈ calls, c.stored ≠ some (2 ^ 64 - 1)

/-! ## Step lemmas -/

theorem foldr_max_append (as bs : List Nat) :
    (as ++ bs).foldr max 0 = max (as.foldr max 0) (bs.foldr max 0) := by
  induction as with
  | nil => simp
  | cons a as ih => simp only [List.cons_append, List.foldr_cons, ih, max_assoc]

theorem foldr_max_eq_max? (as : List Nat) : as.foldr max 0 = as.max?.getD 0 := by
  induction as with
  | nil => rfl
  | cons a as ih =>
    rw [List.foldr_cons, ih, List.max?_cons]
    cases as.max? <;> simp

theorem maxCommitted_concat (calls : List CommitCall) (c : CommitCall) :
    maxCommitted (calls ++ [c]) = max (maxCommitted calls) (c.stored.getD 0) := by
  unfold maxCommitted CommitCall.stored
  rw [List.flatMap_append, foldr_max_append, List.flatMap_singleton, foldr_max_eq_max? c.lsns]

theorem committedLsn_concat (w : FileWal E) (calls : List CommitCall) (c : CommitCall) :
    (runCommits w (calls ++ [c])).committedLsn =
      c.stored.getD (runCommits w calls).committedLsn := by
  unfold runCommits
  rw [List.foldl_append, List.foldl_cons, List.foldl_nil, CommitCall.apply_committedLsn]

theorem maxCommitted_le_iff (calls : List CommitCall) (m : Nat) :
    maxCommitted calls ≤ m ↔ ∀ lsn ∈ calls.filterMap CommitCall.stored, lsn ≤ m := by
  induction calls using List.reverseRecOn with
  | nil => simp [maxCommitted]
  | append_singleton calls c ih =>
    rw [maxCommitted_concat, List.filterMap_append]
    cases hc : c.stored with
    | none => simp [hc, ih]
    | some lsn => simp [hc, ih, or_imp, forall_and]

/-! ## Runs -/

theorem committedLsn_eq_max_iff_ordered (config : WalConfig) (calls : List CommitCall) :
    (∀ sofar, sofar <+: calls →
      (runCommits (FileWal.new config : FileWal E) sofar).committedLsn = maxCommitted sofar) ↔
    Ordered calls := by
  -- by induction on the last call: it has to store at least what came before
  induction calls using List.reverseRecOn with
  | nil => simp [Ordered, List.prefix_nil, runCommits, maxCommitted, FileWal.new]
  | append_singleton calls c ih =>
    simp only [List.prefix_concat_iff, forall_eq_or_imp]
    rw [ih, committedLsn_concat, maxCommitted_concat]
    unfold Ordered
    rw [List.filterMap_append, List.pairwise_append]
    cases hc : c.stored with
    | none =>
      simp only [hc, List.filterMap_cons, List.filterMap_nil, Option.getD_none, Nat.max_zero]
      constructor
      · rintro ⟨-, hord⟩
        exact ⟨hord, List.Pairwise.nil, by simp⟩
      · rintro ⟨hord, -, -⟩
        exact ⟨ih.mpr hord calls (List.prefix_refl calls), hord⟩
    | some lsn =>
      simp only [hc, List.filterMap_cons, List.filterMap_nil, Option.getD_some]
      constructor
      · rintro ⟨hmax, hord⟩
        refine ⟨hord, List.pairwise_singleton _ _, ?_⟩
        intro a ha b hb
        rw [List.mem_singleton.mp hb]
        exact (maxCommitted_le_iff calls lsn).mp (by omega) a ha
      · rintro ⟨hord, -, hle⟩
        have hmax : maxCommitted calls ≤ lsn :=
          (maxCommitted_le_iff calls lsn).mpr (fun a ha => hle a ha lsn (by simp))
        exact ⟨by omega, hord⟩

/-- The head is the LSN after the watermark while there is one, and never after that. -/
theorem headLsn_eq {w : FileWal E} (hw : w.committedLsn < 2 ^ 64 - 1) (overflowChecks : Bool) :
    w.headLsn overflowChecks = some (UInt64.ofNat (w.committedLsn + 1)) := by
  have hlt : ¬ 2 ^ 64 ≤ w.committedLsn + 1 := by omega
  rw [FileWal.headLsn, decide_eq_false hlt, Bool.and_false, if_neg Bool.false_ne_true]

theorem headLsn_of_last {w : FileWal E} (hw : w.committedLsn = 2 ^ 64 - 1) {overflowChecks : Bool}
    {head : UInt64} (h : w.headLsn overflowChecks = some head) : head = 0 := by
  rw [FileWal.headLsn, hw] at h
  cases overflowChecks with
  | true => cases h
  | false => exact (Option.some.inj h).symm

theorem maxCommitted_lt {calls : List CommitCall} (h : LeavesNext calls) :
    maxCommitted calls < 2 ^ 64 - 1 := by
  refine Nat.lt_of_le_of_lt ((maxCommitted_le_iff calls (2 ^ 64 - 2)).mpr fun lsn hmem => ?_)
    (by decide)
  obtain ⟨c, hc, hstored⟩ := List.mem_filterMap.mp hmem
  have hlt := CommitCall.stored_lt hstored
  have hne : lsn ≠ 2 ^ 64 - 1 := fun heq => h c hc (heq ▸ hstored)
  omega

/-- Where the head moves on at every call, no call stores the largest `u64`: after the first that
did, the head would be 0 or not be there, and before it, it is not 0. -/
theorem leavesNext_of_advances {config : WalConfig} {overflowChecks : Bool} {calls : List CommitCall}
    (h : Advances overflowChecks (FileWal.new config : FileWal E) calls) : LeavesNext calls := by
  induction calls using List.reverseRecOn with
  | nil => exact fun c hc => absurd hc List.not_mem_nil
  | append_singleton calls c ih =>
    have hcalls := ih fun sofar hp =>
      ⟨(h sofar (hp.trans (List.prefix_append ..))).1,
        fun c' hc' => (h sofar (hp.trans (List.prefix_append ..))).2 c'
          (hc'.trans (List.prefix_append ..))⟩
    intro c' hc' hstored
    rcases List.mem_append.mp hc' with hmem | hmem
    · exact hcalls c' hmem hstored
    · rw [List.mem_singleton.mp hmem] at hstored
      obtain ⟨hmax, hmoves⟩ := h calls (List.prefix_append ..)
      obtain ⟨head, head', hhead, hhead', hle⟩ := hmoves c (List.prefix_refl _)
      have hlt := hmax ▸ maxCommitted_lt hcalls
      rw [headLsn_eq hlt, Option.some.injEq] at hhead
      have hzero := headLsn_of_last
        (by rw [committedLsn_concat, hstored, Option.getD_some]) hhead'
      rw [← hhead, hzero, UInt64.le_iff_toNat_le, UInt64.toNat_ofNat', UInt64.toNat_zero] at hle
      omega

/-- **The watermark never moves backwards**, and is the maximum of all LSNs committed,
exactly in the runs whose calls store their LSNs in increasing order and never the largest `u64`. -/
theorem advances_iff_ordered (overflowChecks : Bool) (config : WalConfig)
    (calls : List CommitCall) :
    Advances overflowChecks (FileWal.new config : FileWal E) calls ↔
      Ordered calls ∧ LeavesNext calls := by
  rw [← committedLsn_eq_max_iff_ordered (E := E) config]
  constructor
  · exact fun h => ⟨fun sofar hp => (h sofar hp).1, leavesNext_of_advances h⟩
  · rintro ⟨hmax, hnext⟩ sofar hp
    have hlt : ∀ pre, pre <+: calls → maxCommitted pre < 2 ^ 64 - 1 := fun pre hpre =>
      maxCommitted_lt fun c hc => hnext c (hpre.subset hc)
    refine ⟨hmax sofar hp, fun c hc => ⟨_, _, headLsn_eq (hmax sofar hp ▸ hlt sofar hp) _,
      headLsn_eq (hmax _ hc ▸ hlt _ hc) _, ?_⟩⟩
    have hsofar := hlt sofar hp
    have hconcat := hlt _ hc
    rw [hmax sofar hp, hmax _ hc, UInt64.le_iff_toNat_le, UInt64.toNat_ofNat', UInt64.toNat_ofNat',
      Nat.mod_eq_of_lt (by omega), Nat.mod_eq_of_lt (by omega), maxCommitted_concat]
    omega

/-- Two transactions commit in the opposite order of their LSNs: the watermark goes back from
5 to 3. -/
theorem commit_moves_watermark_back :
    ¬ Advances true (FileWal.new sampleConfig : FileWal Nat)
        [.commitBatch [4, 5], .commitBatch [2, 3]] ∧
      (runCommits (FileWal.new sampleConfig : FileWal Nat)
        [.commitBatch [4, 5]]).headLsn true = some 6 ∧
      (runCommits (FileWal.new sampleConfig : FileWal Nat)
        [.commitBatch [4, 5], .commitBatch [2, 3]]).headLsn true = some 4 := by
  refine ⟨?_, by decide, by decide⟩
  intro h
  exact absurd (h _ (List.prefix_refl _)).1 (by decide)

end Arcxa.Wal
