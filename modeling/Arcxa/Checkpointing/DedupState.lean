import Arcxa.Lib.Calls

/-!
# The deduplication state shared by workers

`CheckpointableDedupState` with its calls cut into single uses of the clock and of the `DashMap`,
which locks one of its shards at a time. A worker asks `is_duplicate`, marks the record when the
answer is no, and processes it; cleanups and restores run beside the workers. A snapshot only reads
the map, and a restore is given any map.

The check and the mark are two steps, so that two workers may both pass the check. In the runs
where a check passes only while no other worker has the record in hand (`Alone`, which also says
what a restore may have dropped), no record is processed twice within a window
(`processed_apart`).
-/

namespace Arcxa.Checkpointing

open BTreeMap

/-! ## The map and the clock -/

def InI64 (x : Int) : Prop := -2 ^ 63 ≤ x ∧ x < 2 ^ 63

instance (x : Int) : Decidable (InI64 x) := inferInstanceAs (Decidable (_ ∧ _))

/-- Arithmetic on `i64` wraps. -/
def i64 (x : Int) : Int := x.bmod (2 ^ 64)

structure DedupConfig where
  windowMs : Int
  maxEntries : Nat
  /-- The shards of the `DashMap`, and the shard of a key. -/
  shards : Nat
  shardOf : String → Fin shards
  inI64_windowMs : InI64 windowMs

structure Processing where
  id : String
  /-- The timestamp that the worker marked the record with. -/
  marked : Int
  processedAt : Int
deriving DecidableEq

structure DedupState where
  seenIds : BTreeMap String Int
  clock : Int
  processed : List Processing
  /-- The entries that restores have dropped or replaced. -/
  dropped : List (String × Int)

/-- What `cleanup_old_entries` does next. -/
inductive CleanupStage (shards : Nat) where
  | readClock
  | retain (cutoff : Int) (rest : List (Fin shards))

/-- What a worker does next with a record. -/
inductive RecordStage (shards : Nat) where
  | readClock
  | entry (now : Int)
  /-- The record is no duplicate; `mark_seen` reads the clock again. -/
  | markClock
  | insert (now : Int)
  | count (now : Int) (total : Nat) (rest : List (Fin shards))
  | cleanup (now : Int) (stage : CleanupStage shards)
  | process (now : Int)

inductive RestoreStage (shards : Nat) where
  | clear (state : List (String × Int)) (rest : List (Fin shards))
  | load (state : List (String × Int))
  | cleanup (stage : CleanupStage shards)

inductive Call (shards : Nat) where
  | record (id : String) (stage : RecordStage shards)
  | cleanup (stage : CleanupStage shards)
  | restore (stage : RestoreStage shards)

section Calls

variable (c : DedupConfig)

/-- The entry of `is_duplicate`: the answer, and the map without an entry that is stale. -/
def isDuplicate (seenIds : BTreeMap String Int) (recordId : String) (now : Int) :
    Bool × BTreeMap String Int :=
  match seenIds.get recordId with
  | some timestamp =>
    if i64 (now - timestamp) < c.windowMs then (true, seenIds)
    else (false, seenIds.remove recordId)
  | none => (false, seenIds)

def retainShard (seenIds : BTreeMap String Int) (cutoff : Int) (shard : Fin c.shards) :
    BTreeMap String Int :=
  seenIds.retain fun key timestamp => c.shardOf key ≠ shard || ¬ timestamp < cutoff

def clearShard (seenIds : BTreeMap String Int) (shard : Fin c.shards) : BTreeMap String Int :=
  seenIds.retain fun key _ => c.shardOf key ≠ shard

def shardLen (seenIds : BTreeMap String Int) (shard : Fin c.shards) : Nat :=
  (seenIds.entries.filter fun e => c.shardOf e.1 = shard).length

namespace DedupState

variable (d : DedupState)

def withSeen (seenIds : BTreeMap String Int) : DedupState := { d with seenIds }

/-- One step of `cleanup_old_entries`. -/
def advanceCleanup : CleanupStage c.shards → DedupState × Option (CleanupStage c.shards)
  | .readClock => (d, some (.retain (i64 (d.clock - c.windowMs)) (List.finRange c.shards)))
  | .retain cutoff (shard :: rest) =>
    (d.withSeen (retainShard c d.seenIds cutoff shard), some (.retain cutoff rest))
  | .retain _ [] => (d, none)

/-- One step of a worker: `is_duplicate`, `mark_seen` unless it said yes, and the processing. -/
def advanceRecord (recordId : String) :
    RecordStage c.shards → DedupState × Option (RecordStage c.shards)
  | .readClock => (d, some (.entry d.clock))
  | .entry now =>
    let (duplicate, seenIds) := isDuplicate c d.seenIds recordId now
    (d.withSeen seenIds, if duplicate then none else some .markClock)
  | .markClock => (d, some (.insert d.clock))
  | .insert now =>
    (d.withSeen (d.seenIds.insert recordId now), some (.count now 0 (List.finRange c.shards)))
  | .count now total (shard :: rest) =>
    (d, some (.count now (total + shardLen c d.seenIds shard) rest))
  | .count now total [] =>
    (d, some (if c.maxEntries < total then .cleanup now .readClock else .process now))
  | .cleanup now stage =>
    let (d, stage) := d.advanceCleanup c stage
    (d, some (match stage with
      | some stage => .cleanup now stage
      | none => .process now))
  | .process now => ({ d with processed := d.processed ++ [⟨recordId, now, d.clock⟩] }, none)

/-- One step of `restore`, which walks the state in some order. -/
def advanceRestore : RestoreStage c.shards → DedupState × Option (RestoreStage c.shards)
  | .clear state (shard :: rest) =>
    ({ d with
        seenIds := clearShard c d.seenIds shard
        dropped := d.dropped ++ d.seenIds.entries.filter fun e => c.shardOf e.1 = shard },
      some (.clear state rest))
  | .clear state [] => (d, some (.load state))
  | .load ((key, value) :: state) =>
    ({ d with
        seenIds := d.seenIds.insert key value
        dropped := d.dropped ++ ((d.seenIds.get key).toList.map fun old => (key, old)) },
      some (.load state))
  | .load [] => (d, some (.cleanup .readClock))
  | .cleanup stage =>
    let (d, stage) := d.advanceCleanup c stage
    (d, stage.map .cleanup)

def advanceCall : Call c.shards → DedupState × Option (Call c.shards)
  | .record recordId stage =>
    let (d, stage) := d.advanceRecord c recordId stage
    (d, stage.map (.record recordId))
  | .cleanup stage =>
    let (d, stage) := d.advanceCleanup c stage
    (d, stage.map .cleanup)
  | .restore stage =>
    let (d, stage) := d.advanceRestore c stage
    (d, stage.map .restore)

/-- The step is taken when the clock shows `now`. -/
def advance (call : Call c.shards) (now : Int) : Option (DedupState × Option (Call c.shards)) :=
  if d.clock ≤ now ∧ now < 2 ^ 63 then some ({ d with clock := now }.advanceCall c call) else none

end DedupState

/-- The call is about to make its first step. The timestamps of a restored map are `i64`. -/
def Call.isFirst : Call c.shards → Bool
  | .record _ .readClock => true
  | .cleanup .readClock => true
  | .restore (.clear state rest) =>
    rest = List.finRange c.shards && state.all fun e => InI64 e.2
  | _ => false

abbrev Workers := Pool DedupState (Call c.shards)

def workersStep : Workers c → CallAction (Call c.shards) Int → Option (Workers c) :=
  Pool.step (fun _ call => call.isFirst c) (DedupState.advance c)

/-- `new`, with no worker at work. -/
def Workers.new : Workers c := ⟨⟨.empty, 0, [], []⟩, .empty⟩

end Calls

/-! ## Checks that pass alone -/

def Call.inHand {shards : Nat} : Call shards → Option String
  | .record _ .readClock => none
  | .record _ (.entry _) => none
  | .record recordId _ => some recordId
  | .cleanup _ => none
  | .restore _ => none

section Alone

variable (c : DedupConfig)

def PassesAlone (p : Workers c) (w : Nat) (recordId : String) (now : Int) : Prop :=
  (∀ e ∈ p.calls.entries, e.1 ≠ w → e.2.inHand ≠ some recordId) ∧
  (∀ q ∈ p.shared.processed, q.id = recordId →
    ∀ e ∈ p.shared.dropped, e.1 = recordId → q.marked ≤ e.2 → c.windowMs ≤ now - q.marked) ∧
  ∀ q ∈ p.shared.processed, q.id = recordId → q.marked < q.processedAt →
    c.windowMs ≤ now - q.processedAt

instance (p : Workers c) (w : Nat) (recordId : String) (now : Int) :
    Decidable (PassesAlone c p w recordId now) := by
  unfold PassesAlone
  infer_instance

def CallAlone (p : Workers c) (w : Nat) (now : Int) : Call c.shards → Prop
  | .record recordId (.entry read) =>
    (isDuplicate c p.shared.seenIds recordId read).1 = false → PassesAlone c p w recordId now
  | _ => True

instance (p : Workers c) (w : Nat) (now : Int) : ∀ call, Decidable (CallAlone c p w now call)
  | .record _ (.entry _) => inferInstanceAs (Decidable (_ → _))
  | .record _ .readClock | .record _ .markClock | .record _ (.insert _) | .record _ (.count ..)
  | .record _ (.cleanup ..) | .record _ (.process _) | .cleanup _ | .restore _ =>
    inferInstanceAs (Decidable True)

/-- Every check that passes does so alone. -/
def Alone (p : Workers c) : CallAction (Call c.shards) Int → Prop
  | .start _ _ => True
  | .advance w now => ∀ call ∈ p.calls.get w, CallAlone c p w now call

instance (p : Workers c) : ∀ action, Decidable (Alone c p action)
  | .start _ _ => inferInstanceAs (Decidable True)
  | .advance w _ => inferInstanceAs (Decidable (∀ call ∈ p.calls.get w, _))

end Alone

/-! ## What the calls rely on -/

theorem le_sub_of_le_i64 {window now timestamp : Int} (hnow : 0 ≤ now ∧ now < 2 ^ 63)
    (htimestamp : InI64 timestamp) (hwindow : 0 < window) (h : window ≤ i64 (now - timestamp)) :
    window ≤ now - timestamp := by
  unfold InI64 at htimestamp
  rw [i64, Int.bmod_def] at h
  split_ifs at h <;> omega

theorem i64_sub_of_pos {window now : Int} (hnow : 0 ≤ now ∧ now < 2 ^ 63)
    (hwindow : 0 < window ∧ window < 2 ^ 63) : i64 (now - window) = now - window := by
  rw [i64, Int.bmod_def]
  split_ifs <;> omega

section Invariant

variable {c : DedupConfig} {d d' : DedupState}

variable (c d) in
def Covered (recordId : String) (mark : Int) : Prop :=
  (∃ timestamp, d.seenIds.get recordId = some timestamp ∧ mark ≤ timestamp) ∨
  (∃ e ∈ d.dropped, e.1 = recordId ∧ mark ≤ e.2) ∨ c.windowMs ≤ d.clock - mark

variable (c d) in
def Free (recordId : String) : Prop :=
  ∀ q ∈ d.processed, q.id = recordId → c.windowMs ≤ d.clock - q.processedAt

variable (d) in
def ReadAfter (recordId : String) (now : Int) : Prop :=
  (0 ≤ now ∧ now ≤ d.clock) ∧ ∀ q ∈ d.processed, q.id = recordId → q.processedAt ≤ now

variable (c d) in
def CleanupStage.Fine : CleanupStage c.shards → Prop
  | .readClock => True
  | .retain cutoff _ => 0 < c.windowMs → cutoff ≤ d.clock - c.windowMs

variable (c d) in
def RecordStage.Fine (recordId : String) : RecordStage c.shards → Prop
  | .readClock => True
  | .entry now => 0 ≤ now ∧ now ≤ d.clock
  | .markClock => Free c d recordId
  | .insert now => Free c d recordId ∧ ReadAfter d recordId now
  | .count now _ _ => Free c d recordId ∧ ReadAfter d recordId now ∧ Covered c d recordId now
  | .cleanup now stage =>
    (Free c d recordId ∧ ReadAfter d recordId now ∧ Covered c d recordId now) ∧ stage.Fine c d
  | .process now => Free c d recordId ∧ ReadAfter d recordId now ∧ Covered c d recordId now

variable (c d) in
def RestoreStage.Fine : RestoreStage c.shards → Prop
  | .clear state _ => ∀ e ∈ state, InI64 e.2
  | .load state => ∀ e ∈ state, InI64 e.2
  | .cleanup stage => stage.Fine c d

variable (c d) in
def Call.Fine : Call c.shards → Prop
  | .record recordId stage => stage.Fine c d recordId
  | .cleanup stage => stage.Fine c d
  | .restore stage => stage.Fine c d

variable (c d) in
/-- What holds of the map and of the processings. -/
structure World : Prop where
  clock : 0 ≤ d.clock ∧ d.clock < 2 ^ 63
  values : ∀ recordId timestamp, d.seenIds.get recordId = some timestamp → InI64 timestamp
  times : ∀ q ∈ d.processed, 0 ≤ q.marked ∧ q.marked ≤ q.processedAt ∧ q.processedAt ≤ d.clock
  covered : ∀ q ∈ d.processed, Covered c d q.id q.marked
  apart : d.processed.Pairwise fun q r => q.id = r.id → c.windowMs ≤ r.processedAt - q.processedAt

/-- What holds of the calls: each is fine, and no two workers have the same record in hand. -/
structure Exclusive (p : Workers c) : Prop where
  world : World c p.shared
  fine : ∀ w call, p.calls.get w = some call → call.Fine c p.shared
  sole : ∀ w w' call call' recordId, p.calls.get w = some call → p.calls.get w' = some call' →
    call.inHand = some recordId → call'.inHand = some recordId → w = w'

/-! ### Later states -/

/-- The later state has no more processings of the record, and what was covered of it still is. -/
structure Later (c : DedupConfig) (d d' : DedupState) (recordId : String) : Prop where
  clock : d.clock ≤ d'.clock
  processed : ∀ q ∈ d'.processed, q.id = recordId → q ∈ d.processed
  covered : ∀ mark, 0 ≤ mark → mark ≤ d.clock → Covered c d recordId mark →
    Covered c d' recordId mark

theorem Free.later {recordId : String} (h : Free c d recordId) (hlater : Later c d d' recordId) :
    Free c d' recordId := by
  intro q hq hid
  have hold := h q (hlater.processed q hq hid) hid
  have hclock := hlater.clock
  omega

variable {now : Int}

theorem ReadAfter.later {recordId : String} (h : ReadAfter d recordId now)
    (hlater : Later c d d' recordId) : ReadAfter d' recordId now :=
  ⟨⟨h.1.1, h.1.2.trans hlater.clock⟩, fun q hq hid => h.2 q (hlater.processed q hq hid) hid⟩

theorem CleanupStage.Fine.later {stage : CleanupStage c.shards} (h : stage.Fine c d)
    (hclock : d.clock ≤ d'.clock) : stage.Fine c d' := by
  cases stage with
  | readClock => trivial
  | retain cutoff rest =>
    intro hwindow
    have hcutoff : cutoff ≤ d.clock - c.windowMs := h hwindow
    omega

/-- **Nothing a call relies on is lost** in a later state. -/
theorem Call.Fine.later {call : Call c.shards} (h : call.Fine c d) (hclock : d.clock ≤ d'.clock)
    (hlater : ∀ recordId, call.inHand = some recordId → Later c d d' recordId) :
    call.Fine c d' := by
  cases call with
  | record recordId stage =>
    cases stage with
    | readClock => trivial
    | entry now => exact ⟨h.1, h.2.trans hclock⟩
    | markClock => exact Free.later h (hlater recordId rfl)
    | insert now =>
      have hl := hlater recordId rfl
      exact ⟨h.1.later hl, h.2.later hl⟩
    | count now total rest =>
      have hl := hlater recordId rfl
      exact ⟨h.1.later hl, h.2.1.later hl, hl.covered now h.2.1.1.1 h.2.1.1.2 h.2.2⟩
    | cleanup now stage =>
      have hl := hlater recordId rfl
      obtain ⟨⟨hfree, hread, hcovered⟩, hstage⟩ := h
      exact ⟨⟨hfree.later hl, hread.later hl, hl.covered now hread.1.1 hread.1.2 hcovered⟩,
        hstage.later hclock⟩
    | process now =>
      have hl := hlater recordId rfl
      exact ⟨h.1.later hl, h.2.1.later hl, hl.covered now h.2.1.1.1 h.2.1.1.2 h.2.2⟩
  | cleanup stage => exact CleanupStage.Fine.later h hclock
  | restore stage =>
    cases stage with
    | clear state rest => exact h
    | load state => exact h
    | cleanup stage => exact CleanupStage.Fine.later h hclock

variable {recordId : String}

theorem Covered.mono {mark : Int} (h : Covered c d recordId mark)
    (hclock : d.clock ≤ d'.clock) (hdropped : ∀ e ∈ d.dropped, e ∈ d'.dropped)
    (hmap : ∀ timestamp, d.seenIds.get recordId = some timestamp → mark ≤ timestamp →
      Covered c d' recordId mark) : Covered c d' recordId mark := by
  rcases h with ⟨timestamp, hget, hle⟩ | ⟨e, he, hid, hle⟩ | hold
  · exact hmap timestamp hget hle
  · exact .inr (.inl ⟨e, hdropped e he, hid, hle⟩)
  · exact .inr (.inr (by omega))

variable (h : World c d)

include h

theorem World.quiet (hclock : d.clock ≤ d'.clock ∧ d'.clock < 2 ^ 63)
    (hprocessed : d'.processed = d.processed)
    (hvalues : ∀ recordId timestamp, d'.seenIds.get recordId = some timestamp → InI64 timestamp)
    (hcovered : ∀ recordId mark, mark ≤ d.clock → Covered c d recordId mark →
      Covered c d' recordId mark) : World c d' ∧ ∀ recordId, Later c d d' recordId := by
  constructor
  · refine ⟨⟨h.clock.1.trans hclock.1, hclock.2⟩, hvalues, ?_, ?_, ?_⟩
    · intro q hq
      rw [hprocessed] at hq
      obtain ⟨hmarked, hle, hat⟩ := h.times q hq
      exact ⟨hmarked, hle, hat.trans hclock.1⟩
    · intro q hq
      rw [hprocessed] at hq
      obtain ⟨hmarked, hle, hat⟩ := h.times q hq
      exact hcovered q.id q.marked (hle.trans hat) (h.covered q hq)
    · rw [hprocessed]
      exact h.apart
  · intro recordId
    refine ⟨hclock.1, ?_, fun mark _ hmark => hcovered recordId mark hmark⟩
    intro q hq _
    rw [hprocessed] at hq
    exact hq

theorem World.tick (hnow : d.clock ≤ now ∧ now < 2 ^ 63) :
    World c { d with clock := now } ∧ ∀ recordId, Later c d { d with clock := now } recordId :=
  h.quiet hnow rfl h.values fun _ _ _ hcov =>
    hcov.mono hnow.1 (fun _ he => he) fun timestamp hget hle => .inl ⟨timestamp, hget, hle⟩

theorem World.quiet_self : World c d ∧ ∀ recordId, Later c d d recordId :=
  h.quiet ⟨le_refl _, h.clock.2⟩ rfl h.values fun _ _ _ hcov => hcov

/-! ### Single steps -/

omit h

theorem isDuplicate_true {seenIds : BTreeMap String Int}
    (h : (isDuplicate c seenIds recordId now).1 = true) :
    (isDuplicate c seenIds recordId now).2 = seenIds := by
  unfold isDuplicate at h ⊢
  cases hget : seenIds.get recordId with
  | none => rfl
  | some timestamp =>
    simp only [hget] at h ⊢
    split_ifs at h ⊢
    rfl

theorem isDuplicate_false {seenIds : BTreeMap String Int}
    (h : (isDuplicate c seenIds recordId now).1 = false) :
    (∀ timestamp, seenIds.get recordId = some timestamp →
      c.windowMs ≤ i64 (now - timestamp)) ∧
    ∀ key, (isDuplicate c seenIds recordId now).2.get key =
      if key = recordId then none else seenIds.get key := by
  unfold isDuplicate at h ⊢
  cases hget : seenIds.get recordId with
  | none =>
    refine ⟨nofun, fun key => ?_⟩
    split_ifs with hkey
    · rw [hkey]
      exact hget
    · rfl
  | some timestamp =>
    simp only [hget] at h ⊢
    split_ifs at h ⊢ with hfresh
    refine ⟨?_, fun key => get_remove ..⟩
    rintro _ ⟨⟩
    exact not_lt.mp hfresh

include h

theorem World.stale {now timestamp mark : Int} (hnow : 0 ≤ now ∧ now ≤ d.clock)
    (hpass : (isDuplicate c d.seenIds recordId now).1 = false)
    (hget : d.seenIds.get recordId = some timestamp) (hle : mark ≤ timestamp)
    (hmark : mark ≤ d.clock) : c.windowMs ≤ d.clock - mark := by
  rcases lt_or_ge 0 c.windowMs with hwindow | hwindow
  · have hold := le_sub_of_le_i64 ⟨hnow.1, hnow.2.trans_lt h.clock.2⟩ (h.values _ _ hget) hwindow
      ((isDuplicate_false hpass).1 timestamp hget)
    omega
  · omega

theorem World.quiet_isDuplicate (recordId : String) (hnow : 0 ≤ now ∧ now ≤ d.clock) :
    World c (d.withSeen (isDuplicate c d.seenIds recordId now).2) ∧
    ∀ key, Later c d (d.withSeen (isDuplicate c d.seenIds recordId now).2) key := by
  cases hpass : (isDuplicate c d.seenIds recordId now).1 with
  | true =>
    rw [isDuplicate_true hpass]
    exact h.quiet_self
  | false =>
    have hseen := (isDuplicate_false hpass).2
    refine h.quiet ⟨le_refl _, h.clock.2⟩ rfl ?_ ?_
    · intro key timestamp hget
      rw [DedupState.withSeen, hseen] at hget
      split_ifs at hget
      exact h.values key timestamp hget
    · intro key mark hmark hcov
      refine hcov.mono (le_refl _) (fun _ he => he) fun timestamp hget hle => ?_
      by_cases hkey : key = recordId
      · rw [hkey] at hget
        exact .inr (.inr (h.stale hnow hpass hget hle hmark))
      · refine .inl ⟨timestamp, ?_, hle⟩
        rw [DedupState.withSeen, hseen, if_neg hkey, hget]

/-- **A check that passes alone** leaves every processing of the record a window ago. -/
theorem free_of_passes (hnow : 0 ≤ now ∧ now ≤ d.clock)
    (hpass : (isDuplicate c d.seenIds recordId now).1 = false)
    (hkept : ∀ q ∈ d.processed, q.id = recordId → ∀ e ∈ d.dropped, e.1 = recordId →
      q.marked ≤ e.2 → c.windowMs ≤ d.clock - q.marked)
    (hprompt : ∀ q ∈ d.processed, q.id = recordId → q.marked < q.processedAt →
      c.windowMs ≤ d.clock - q.processedAt) : Free c d recordId := by
  intro q hq hid
  obtain ⟨hmarked, hle, hat⟩ := h.times q hq
  -- the mark is a window old
  have hmark : c.windowMs ≤ d.clock - q.marked := by
    rcases h.covered q hq with ⟨timestamp, hget, hcov⟩ | ⟨e, he, hkey, hcov⟩ | hold
    · rw [hid] at hget
      exact h.stale hnow hpass hget hcov (hle.trans hat)
    · exact hkept q hq hid e he (hkey.trans hid) hcov
    · exact hold
  rcases hle.lt_or_eq with hlt | heq
  · exact hprompt q hq hid hlt
  · exact heq ▸ hmark

theorem World.quiet_cleanup (stage : CleanupStage c.shards) (hfine : stage.Fine c d) :
    (World c (d.advanceCleanup c stage).1 ∧
      ∀ recordId, Later c d (d.advanceCleanup c stage).1 recordId) ∧
    ∀ next ∈ (d.advanceCleanup c stage).2, next.Fine c (d.advanceCleanup c stage).1 := by
  cases stage with
  | readClock =>
    refine ⟨h.quiet_self, ?_⟩
    rintro _ ⟨⟩
    intro hwindow
    exact (i64_sub_of_pos h.clock ⟨hwindow, c.inI64_windowMs.2⟩).le
  | retain cutoff rest =>
    cases rest with
    | nil => exact ⟨h.quiet_self, nofun⟩
    | cons shard rest =>
      refine ⟨h.quiet ⟨le_refl _, h.clock.2⟩ rfl ?_ ?_, ?_⟩
      · intro key timestamp hget
        simp only [DedupState.advanceCleanup, DedupState.withSeen, retainShard,
          get_retain, Option.filter_eq_some_iff] at hget
        exact h.values key timestamp hget.1
      · intro key mark hmark hcov
        refine hcov.mono (le_refl _) (fun _ he => he) fun timestamp hget hle => ?_
        rcases lt_or_ge timestamp cutoff with hcutoff | hcutoff
        · -- an entry under the cutoff is a window old
          right; right
          show c.windowMs ≤ d.clock - mark
          rcases lt_or_ge 0 c.windowMs with hwindow | hwindow
          · have := hfine hwindow
            omega
          · omega
        · refine .inl ⟨timestamp, ?_, hle⟩
          simp [DedupState.advanceCleanup, DedupState.withSeen, retainShard, hget, hcutoff]
      · rintro _ ⟨⟩
        exact hfine

theorem World.quiet_restore (stage : RestoreStage c.shards) (hfine : stage.Fine c d) :
    (World c (d.advanceRestore c stage).1 ∧
      ∀ recordId, Later c d (d.advanceRestore c stage).1 recordId) ∧
    ∀ next ∈ (d.advanceRestore c stage).2, next.Fine c (d.advanceRestore c stage).1 := by
  cases stage with
  | clear state rest =>
    cases rest with
    | nil =>
      refine ⟨h.quiet_self, ?_⟩
      rintro _ ⟨⟩
      exact hfine
    | cons shard rest =>
      refine ⟨h.quiet ⟨le_refl _, h.clock.2⟩ rfl ?_ ?_, ?_⟩
      · intro key timestamp hget
        simp only [DedupState.advanceRestore, clearShard, get_retain,
          Option.filter_eq_some_iff] at hget
        exact h.values key timestamp hget.1
      · intro key mark hmark hcov
        refine hcov.mono (le_refl _) (fun _ he => List.mem_append_left _ he) ?_
        intro timestamp hget hle
        by_cases hshard : c.shardOf key = shard
        · refine .inr (.inl ⟨(key, timestamp), List.mem_append_right _ ?_, rfl, hle⟩)
          exact List.mem_filter.mpr ⟨mem_entries_iff.mpr hget, decide_eq_true hshard⟩
        · refine .inl ⟨timestamp, ?_, hle⟩
          simp [DedupState.advanceRestore, clearShard, hget, hshard]
      · rintro _ ⟨⟩
        exact hfine
  | load state =>
    cases state with
    | nil =>
      refine ⟨h.quiet_self, ?_⟩
      rintro _ ⟨⟩
      trivial
    | cons e state =>
      obtain ⟨key, value⟩ := e
      refine ⟨h.quiet ⟨le_refl _, h.clock.2⟩ rfl ?_ ?_, ?_⟩
      · intro key' timestamp hget
        simp only [DedupState.advanceRestore, get_insert] at hget
        split_ifs at hget with hkey
        · cases hget
          exact hfine (key, value) (List.mem_cons_self ..)
        · exact h.values key' timestamp hget
      · intro key' mark hmark hcov
        refine hcov.mono (le_refl _) (fun _ he => List.mem_append_left _ he) ?_
        intro timestamp hget hle
        by_cases hkey : key' = key
        · refine .inr (.inl ⟨(key', timestamp), List.mem_append_right _ ?_, rfl, hle⟩)
          rw [← hkey, hget]
          exact List.mem_singleton_self _
        · refine .inl ⟨timestamp, ?_, hle⟩
          rw [DedupState.advanceRestore, get_insert, if_neg hkey, hget]
      · rintro _ ⟨⟩
        exact fun e he => hfine e (List.mem_cons_of_mem _ he)
  | cleanup stage =>
    obtain ⟨hquiet, hnext⟩ := h.quiet_cleanup stage hfine
    refine ⟨hquiet, ?_⟩
    intro next hmem
    obtain ⟨stage', hstage, rfl⟩ := Option.map_eq_some_iff.mp hmem
    exact hnext stage' hstage

theorem World.insert (hread : ReadAfter d recordId now) :
    World c (d.withSeen (d.seenIds.insert recordId now)) ∧
    Covered c (d.withSeen (d.seenIds.insert recordId now)) recordId now ∧
    ∀ key, key ≠ recordId → Later c d (d.withSeen (d.seenIds.insert recordId now)) key := by
  have hown : ∀ mark, mark ≤ now →
      Covered c (d.withSeen (d.seenIds.insert recordId now)) recordId mark := by
    intro mark hle
    exact .inl ⟨now, by rw [DedupState.withSeen, get_insert, if_pos rfl], hle⟩
  have hother : ∀ key mark, key ≠ recordId → Covered c d key mark →
      Covered c (d.withSeen (d.seenIds.insert recordId now)) key mark := by
    intro key mark hkey hcov
    refine hcov.mono (le_refl _) (fun _ he => he) fun timestamp hget hle => ?_
    exact .inl ⟨timestamp, by rw [DedupState.withSeen, get_insert, if_neg hkey, hget], hle⟩
  refine ⟨⟨h.clock, ?_, h.times, ?_, h.apart⟩, hown now (le_refl _), ?_⟩
  · intro key timestamp hget
    rw [DedupState.withSeen, get_insert] at hget
    split_ifs at hget with hkey
    · cases hget
      unfold InI64
      have := hread.1
      have := h.clock
      omega
    · exact h.values key timestamp hget
  · intro q hq
    by_cases hid : q.id = recordId
    · rw [hid]
      exact hown q.marked ((h.times q hq).2.1.trans (hread.2 q hq hid))
    · exact hother q.id q.marked hid (h.covered q hq)
  · intro key hkey
    exact ⟨le_refl _, fun q hq _ => hq, fun mark _ _ => hother key mark hkey⟩

theorem World.process (hfree : Free c d recordId) (hread : ReadAfter d recordId now)
    (hcovered : Covered c d recordId now) :
    World c { d with processed := d.processed ++ [⟨recordId, now, d.clock⟩] } ∧
    ∀ key, key ≠ recordId →
      Later c d { d with processed := d.processed ++ [⟨recordId, now, d.clock⟩] } key := by
  refine ⟨⟨h.clock, h.values, ?_, ?_, ?_⟩, ?_⟩
  · intro q hq
    rcases List.mem_append.mp hq with hold | hnew
    · exact h.times q hold
    · rw [List.mem_singleton.mp hnew]
      exact ⟨hread.1.1, hread.1.2, le_refl _⟩
  · intro q hq
    rcases List.mem_append.mp hq with hold | hnew
    · exact h.covered q hold
    · rw [List.mem_singleton.mp hnew]
      exact hcovered
  · refine List.pairwise_append.mpr ⟨h.apart, List.pairwise_singleton _ _, ?_⟩
    intro q hq r hr hid
    rw [List.mem_singleton.mp hr] at hid ⊢
    exact hfree q hq hid
  · intro key hkey
    refine ⟨le_refl _, ?_, fun mark _ _ hmark => hmark⟩
    intro q hq hid
    rcases List.mem_append.mp hq with hold | hnew
    · exact hold
    · rw [List.mem_singleton.mp hnew] at hid
      exact absurd hid.symm hkey

/-! ### Steps of a call -/

variable (c) in
/-- What a step of a call does to the state, to other calls, and to the call. -/
structure Advances (d : DedupState) (call : Call c.shards) (d' : DedupState)
    (next : Option (Call c.shards)) : Prop where
  world : World c d'
  clock : d.clock ≤ d'.clock
  others : ∀ recordId, call.inHand ≠ some recordId → Later c d d' recordId
  fine : ∀ call' ∈ next, call'.Fine c d'
  /-- A record comes into a hand by a check that passes. -/
  inHand : ∀ call' ∈ next, ∀ recordId, call'.inHand = some recordId → call.inHand = some recordId ∨
    ∃ read, call = .record recordId (.entry read) ∧
      (isDuplicate c d.seenIds recordId read).1 = false

variable (c) in
/-- What a check that passes relies on: `PassesAlone`, as far as it is about the state. -/
def Relies (d : DedupState) : Call c.shards → Prop
  | .record recordId (.entry read) => (isDuplicate c d.seenIds recordId read).1 = false →
    (∀ q ∈ d.processed, q.id = recordId → ∀ e ∈ d.dropped, e.1 = recordId → q.marked ≤ e.2 →
      c.windowMs ≤ d.clock - q.marked) ∧
    ∀ q ∈ d.processed, q.id = recordId → q.marked < q.processedAt →
      c.windowMs ≤ d.clock - q.processedAt
  | _ => True

theorem advances_record {stage : RecordStage c.shards} (hfine : stage.Fine c d recordId)
    (hrelies : Relies c d (.record recordId stage)) :
    Advances c d (.record recordId stage) (d.advanceRecord c recordId stage).1
      ((d.advanceRecord c recordId stage).2.map (.record recordId)) := by
  have hself := h.quiet_self
  cases stage with
  | readClock =>
    refine ⟨hself.1, le_refl _, fun key _ => hself.2 key, ?_, ?_⟩
    · rintro _ ⟨⟩
      exact ⟨h.clock.1, le_refl _⟩
    · rintro _ ⟨⟩ key ⟨⟩
  | entry now =>
    obtain ⟨hworld, hlater⟩ := h.quiet_isDuplicate recordId hfine
    refine ⟨hworld, le_refl _, fun key _ => hlater key, ?_, ?_⟩
    all_goals
      intro call' hcall'
      obtain ⟨stage', hstage', rfl⟩ := Option.map_eq_some_iff.mp hcall'
      simp only [DedupState.advanceRecord] at hstage'
      split_ifs at hstage' with hpass
      cases hstage'
      rw [Bool.not_eq_true] at hpass
    · obtain ⟨hkept, hprompt⟩ := hrelies hpass
      exact (free_of_passes h hfine hpass hkept hprompt).later (hlater recordId)
    · rintro key ⟨⟩
      exact .inr ⟨now, rfl, hpass⟩
  | markClock =>
    refine ⟨hself.1, le_refl _, fun key _ => hself.2 key, ?_, ?_⟩
    · rintro _ ⟨⟩
      -- the record is processed at the clock's reading or before
      exact ⟨hfine, ⟨h.clock.1, le_refl _⟩, fun q hq _ => (h.times q hq).2.2⟩
    · rintro _ ⟨⟩ key hkey
      exact .inl hkey
  | insert now =>
    obtain ⟨hfree, hread⟩ := hfine
    obtain ⟨hworld, hcovered, hlater⟩ := h.insert hread
    refine ⟨hworld, le_refl _, fun key hkey => hlater key fun heq => hkey (heq ▸ rfl), ?_, ?_⟩
    · rintro _ ⟨⟩
      exact ⟨hfree, hread, hcovered⟩
    · rintro _ ⟨⟩ key hkey
      exact .inl hkey
  | count now total rest =>
    cases rest with
    | cons shard rest =>
      refine ⟨hself.1, le_refl _, fun key _ => hself.2 key, ?_, ?_⟩
      · rintro _ ⟨⟩
        exact hfine
      · rintro _ ⟨⟩ key hkey
        exact .inl hkey
    | nil =>
      refine ⟨hself.1, le_refl _, fun key _ => hself.2 key, ?_, ?_⟩
      · rintro _ ⟨⟩
        split_ifs
        · exact ⟨hfine, trivial⟩
        · exact hfine
      · rintro _ ⟨⟩ key hkey
        split_ifs at hkey <;> exact .inl hkey
  | cleanup now stage =>
    obtain ⟨⟨hfree, hread, hcovered⟩, hstage⟩ := hfine
    obtain ⟨⟨hworld, hlater⟩, hnext⟩ := h.quiet_cleanup stage hstage
    have hl := hlater recordId
    have hmine := And.intro (hfree.later hl)
      (And.intro (hread.later hl) (hl.covered now hread.1.1 hread.1.2 hcovered))
    refine ⟨hworld, hl.clock, fun key _ => hlater key, ?_, ?_⟩
    · rintro _ ⟨⟩
      split
      · rename_i stage' hstage'
        exact ⟨hmine, hnext stage' hstage'⟩
      · exact hmine
    · rintro _ ⟨⟩ key hkey
      split at hkey <;> exact .inl hkey
  | process now =>
    obtain ⟨hworld, hlater⟩ := h.process hfine.1 hfine.2.1 hfine.2.2
    exact ⟨hworld, le_refl _, fun key hkey => hlater key fun heq => hkey (heq ▸ rfl), nofun, nofun⟩

/-- **What every step does.** -/
theorem advances_advanceCall {call : Call c.shards} (hfine : call.Fine c d)
    (hrelies : Relies c d call) :
    Advances c d call (d.advanceCall c call).1 (d.advanceCall c call).2 := by
  cases call with
  | record recordId stage => exact advances_record h hfine hrelies
  | cleanup stage =>
    obtain ⟨⟨hworld, hlater⟩, hnext⟩ := h.quiet_cleanup stage hfine
    refine ⟨hworld, (hlater "").clock, fun key _ => hlater key, ?_, ?_⟩
    all_goals
      intro call' hcall'
      obtain ⟨stage', hstage', rfl⟩ := Option.map_eq_some_iff.mp hcall'
    · exact hnext stage' hstage'
    · exact nofun
  | restore stage =>
    obtain ⟨⟨hworld, hlater⟩, hnext⟩ := h.quiet_restore stage hfine
    refine ⟨hworld, (hlater "").clock, fun key _ => hlater key, ?_, ?_⟩
    all_goals
      intro call' hcall'
      obtain ⟨stage', hstage', rfl⟩ := Option.map_eq_some_iff.mp hcall'
    · exact hnext stage' hstage'
    · exact nofun

end Invariant

/-! ## Runs -/

section Runs

variable {c : DedupConfig} {p p' : Workers c}

theorem exclusive_new : Exclusive (Workers.new c) := by
  refine ⟨⟨⟨le_refl _, ?_⟩, nofun, nofun, nofun, List.Pairwise.nil⟩, nofun, nofun⟩
  show (0 : Int) < 2 ^ 63
  omega

variable {call : Call c.shards}

theorem isFirst_fine (h : call.isFirst c = true) (d : DedupState) :
    call.Fine c d ∧ call.inHand = none := by
  cases call with
  | record recordId stage =>
    cases stage <;> first | exact ⟨trivial, rfl⟩ | cases h
  | cleanup stage =>
    cases stage <;> first | exact ⟨trivial, rfl⟩ | cases h
  | restore stage =>
    cases stage with
    | clear state rest =>
      have hall := (Bool.and_eq_true_iff.mp h).2
      exact ⟨fun e he => of_decide_eq_true (List.all_eq_true.mp hall e he), rfl⟩
    | load state => cases h
    | cleanup stage => cases h

theorem Exclusive.start (h : Exclusive p) {w : Nat} (hfirst : call.isFirst c = true) :
    Exclusive { p with calls := p.calls.insert w call } := by
  obtain ⟨hfine, hhand⟩ := isFirst_fine hfirst p.shared
  refine ⟨h.world, ?_, ?_⟩
  · intro w' call' hget
    rw [get_insert] at hget
    split_ifs at hget with hw
    · cases hget
      exact hfine
    · exact h.fine w' call' hget
  · intro w₁ w₂ call₁ call₂ recordId hget₁ hget₂ hhand₁ hhand₂
    rw [get_insert] at hget₁ hget₂
    split_ifs at hget₁ hget₂ with hw₁ hw₂
    · rw [hw₁, hw₂]
    · cases hget₁
      rw [hhand] at hhand₁
      cases hhand₁
    · cases hget₂
      rw [hhand] at hhand₂
      cases hhand₂
    · exact h.sole w₁ w₂ call₁ call₂ recordId hget₁ hget₂ hhand₁ hhand₂

theorem Exclusive.tick (h : Exclusive p) {now : Int} (hnow : p.shared.clock ≤ now ∧ now < 2 ^ 63) :
    Exclusive (⟨{ p.shared with clock := now }, p.calls⟩ : Workers c) := by
  obtain ⟨hworld, hlater⟩ := h.world.tick hnow
  refine ⟨hworld, ?_, h.sole⟩
  intro w call hget
  exact (h.fine w call hget).later hnow.1 fun recordId _ => hlater recordId

/-- **One step keeps the invariant**, when a check that passes does so alone. -/
theorem Exclusive.advances (h : Exclusive p) {w : Nat} {next : Option (Call c.shards)}
    (hget : p.calls.get w = some call) (hadv : Advances c p.shared call p'.shared next)
    (hcalls : p'.calls = Pool.setCall p.calls w next)
    (hothers : ∀ recordId read, call = .record recordId (.entry read) →
      (isDuplicate c p.shared.seenIds recordId read).1 = false →
      ∀ w' call', w' ≠ w → p.calls.get w' = some call' → call'.inHand ≠ some recordId) :
    Exclusive p' := by
  -- what the step puts in this hand is in no other
  have hsole : ∀ call' ∈ next, ∀ recordId, call'.inHand = some recordId →
      ∀ w' call'', w' ≠ w → p.calls.get w' = some call'' → call''.inHand ≠ some recordId := by
    intro call' hcall' recordId hhand w' call'' hw hget'' hhand''
    rcases hadv.inHand call' hcall' recordId hhand with hbefore | ⟨read, hcall, hpass⟩
    · exact hw (h.sole w' w call'' call recordId hget'' hget hhand'' hbefore)
    · exact hothers recordId read hcall hpass w' call'' hw hget'' hhand''
  refine ⟨hadv.world, ?_, ?_⟩
  · rw [hcalls]
    refine Pool.forall_setCall hadv.fine fun w' call' hw hget' => ?_
    refine (h.fine w' call' hget').later hadv.clock fun recordId hhand => ?_
    refine hadv.others recordId fun hcall => hw ?_
    exact h.sole w' w call' call recordId hget' hget hhand hcall
  · intro w₁ w₂ call₁ call₂ recordId hget₁ hget₂ hhand₁ hhand₂
    rw [hcalls, Pool.get_setCall] at hget₁ hget₂
    split_ifs at hget₁ hget₂ with hw₁ hw₂
    · rw [hw₁, hw₂]
    · exact absurd hhand₂ (hsole call₁ hget₁ recordId hhand₁ w₂ call₂ hw₂ hget₂)
    · exact absurd hhand₁ (hsole call₂ hget₂ recordId hhand₂ w₁ call₁ hw₁ hget₁)
    · exact h.sole w₁ w₂ call₁ call₂ recordId hget₁ hget₂ hhand₁ hhand₂

theorem DedupState.advance_eq_some {d d' : DedupState} {now : Int} {next : Option (Call c.shards)}
    (h : d.advance c call now = some (d', next)) :
    (d.clock ≤ now ∧ now < 2 ^ 63) ∧ { d with clock := now }.advanceCall c call = (d', next) := by
  rw [DedupState.advance] at h
  split_ifs at h with hnow
  exact ⟨hnow, Option.some.inj h⟩

theorem exclusive_step (h : Exclusive p) {action : CallAction (Call c.shards) Int}
    (halone : Alone c p action) (hstep : workersStep c p action = some p') : Exclusive p' := by
  cases action with
  | start w call =>
    obtain ⟨-, hfirst, rfl⟩ := Pool.step_start hstep
    exact h.start hfirst
  | advance w now =>
    obtain ⟨call, next, hget, hadvance, hcalls⟩ := Pool.step_advance hstep
    obtain ⟨hnow, heq⟩ := DedupState.advance_eq_some hadvance
    have hcall : CallAlone c p w now call := halone call hget
    have htick := h.tick hnow
    have hrelies : Relies c { p.shared with clock := now } call := by
      cases call with
      | record recordId stage =>
        cases stage with
        | entry read => exact fun hpass => (hcall hpass).2
        | _ => trivial
      | _ => trivial
    have hadv := advances_advanceCall htick.world (htick.fine w call hget) hrelies
    rw [heq] at hadv
    refine htick.advances hget hadv hcalls ?_
    rintro recordId read rfl hpass w' call' hw hget'
    exact (hcall hpass).1 (w', call') (mem_entries_iff.mpr hget') hw

/-- **No record is processed twice within a window** in the runs where every check that passes does
so alone. -/
theorem processed_apart (c : DedupConfig) {p : Workers c}
    (hreach : Reaches (workersStep c) (Alone c) (Workers.new c) p) :
    p.shared.processed.Pairwise fun q r =>
      q.id = r.id → c.windowMs ≤ r.processedAt - q.processedAt := by
  have hinv : Exclusive p := by
    refine hreach.invariant exclusive_new ?_
    intro s a s' hs halone hstep
    exact exclusive_step hs halone hstep
  exact hinv.world.apart

end Runs

/-! ## Two runs -/

def minuteDedup : DedupConfig where
  windowMs := 60000
  maxEntries := 10000
  shards := 4
  shardOf key := ⟨key.length % 4, Nat.mod_lt _ (by decide)⟩
  inI64_windowMs := by decide

def begins (w : Nat) (recordId : String) : CallAction (Call minuteDedup.shards) Int :=
  .start w (.record recordId .readClock)

def works (w n : Nat) (now : Int) : List (CallAction (Call minuteDedup.shards) Int) :=
  List.replicate n (.advance w now)

/-- A record is processed, found to be a duplicate, and processed again when a window has passed. -/
theorem processed_apart_sample :
    ∃ p, exec (workersStep minuteDedup) (Workers.new minuteDedup)
        (begins 0 "key0" :: works 0 10 1000 ++ begins 1 "key0" :: works 1 2 60999 ++
          begins 1 "key0" :: works 1 10 61000) = some p ∧
      p.shared.processed.length = 2 ∧
      p.shared.processed.Pairwise fun q r =>
        q.id = r.id → minuteDedup.windowMs ≤ r.processedAt - q.processedAt := by
  refine exists_exec (fun p => p.shared.processed.length = 2) (by decide +kernel) ?_
  intro p hexec hp
  exact ⟨hp, processed_apart minuteDedup (.of_exec (by decide +kernel) hexec)⟩

/-- Two workers check a record before either has marked it, and both process it. -/
theorem processed_twice :
    ∃ p, exec (workersStep minuteDedup) (Workers.new minuteDedup)
        (begins 0 "key0" :: begins 1 "key0" :: works 0 2 1000 ++ works 1 2 1000 ++
          works 0 8 1000 ++ works 1 8 1000) = some p ∧
      ¬ p.shared.processed.Pairwise fun q r =>
        q.id = r.id → minuteDedup.windowMs ≤ r.processedAt - q.processedAt := by
  refine exists_exec (fun p => p.shared.processed =
    [⟨"key0", 1000, 1000⟩, ⟨"key0", 1000, 1000⟩]) (by decide +kernel) ?_
  intro p hexec hp
  rw [hp]
  decide

end Arcxa.Checkpointing
