import Arcxa.Workflow.DedupPaths

/-!
# The counters of the streaming deduplicator

Every row is counted as processed and every `Skip` as a duplicate, but of the `Keep` decisions only
those for new keys are counted as kept: a strategy that keeps a row whose key was found does not
count it. `Tally` says what a run adds to the counters, and runs one after the other add up
(`Tally.append`). The counters are therefore balanced (`dedup_balanced_iff`) exactly where no row that is
kept has a key that is found.
-/

namespace Arcxa.Workflow

variable {F : Type}

/-- The counters against the decisions of the run. -/
structure Balanced (decisions : List (DedupDecision F)) (stats : DedupStats) : Prop where
  kept : stats.keptCount = decisions.countP (!·.isSkip)
  duplicates : stats.duplicateCount = decisions.countP (·.isSkip)
  total : stats.totalProcessed = stats.keptCount + stats.duplicateCount

variable [Float64 F]

def skipsFound (keep : KeepStrategy) (entry : DedupEntry F) (row : Value F) : Bool :=
  match keep with
  | .First => true
  | .Last | .Merge => false
  | .HighestQuality =>
    entry.qualityScore.any fun existing => !Float64.lt existing (calculateQualityScore row)

theorem isSkip_applyKeepStrategy (keep : KeepStrategy) (entry : DedupEntry F) (row : Value F)
    (key : String) : (applyKeepStrategy entry row keep key).isSkip = skipsFound keep entry row := by
  unfold applyKeepStrategy
  cases keep with
  | First => rfl
  | Last => rfl
  | Merge => cases entry.mergedFields <;> rfl
  | HighestQuality =>
    rw [skipsFound]
    cases entry.qualityScore with
    | none => rfl
    | some existing =>
      rw [Option.any_some]
      dsimp only
      cases Float64.lt existing (calculateQualityScore row) <;> rfl

omit [Float64 F] in
theorem countP_add_countP_skip (decisions : List (DedupDecision F)) :
    decisions.countP (!·.isSkip) + decisions.countP (·.isSkip) = decisions.length := by
  rw [List.length_eq_countP_add_countP (·.isSkip), Nat.add_comm]
  congr 1
  apply List.countP_congr
  intro decision _
  simp

omit [Float64 F] in
theorem length_filterMap_keptRow (decisions : List (DedupDecision F)) :
    (decisions.filterMap DedupDecision.keptRow).length = decisions.countP (!·.isSkip) := by
  rw [List.length_filterMap_eq_countP]
  apply List.countP_congr
  intro decision _
  cases decision <;> simp [DedupDecision.keptRow, DedupDecision.isSkip]

/-- What a run adds to the counters: the kept rows are all counted exactly if `ok` holds. -/
structure Tally (before after : DedupStats) (decisions : List (DedupDecision F)) (ok : Prop) : Prop where
  total : after.totalProcessed = before.totalProcessed + decisions.length
  duplicates : after.duplicateCount = before.duplicateCount + decisions.countP (·.isSkip)
  kept_le : after.keptCount ≤ before.keptCount + decisions.countP (!·.isSkip)
  kept_iff : after.keptCount = before.keptCount + decisions.countP (!·.isSkip) ↔ ok

namespace Tally

variable {before middle after : DedupStats} {decisions decisions' : List (DedupDecision F)}
variable {ok ok' : Prop}

omit [Float64 F] in
theorem nil (stats : DedupStats) : Tally (F := F) stats stats [] True :=
  ⟨rfl, rfl, Nat.le_refl _, iff_of_true rfl trivial⟩

omit [Float64 F] in
theorem append (h : Tally before middle decisions ok) (h' : Tally middle after decisions' ok') :
    Tally before after (decisions ++ decisions') (ok ∧ ok') := by
  have hle := h.kept_le
  have hle' := h'.kept_le
  constructor
  case total => rw [h'.total, h.total, List.length_append, Nat.add_assoc]
  case duplicates => rw [h'.duplicates, h.duplicates, List.countP_append, Nat.add_assoc]
  case kept_le =>
    rw [List.countP_append]
    omega
  case kept_iff =>
    -- neither part can make up for what the other leaves out
    rw [List.countP_append, ← h.kept_iff, ← h'.kept_iff]
    omega

omit [Float64 F] in
theorem balanced_iff (h : Tally .zero after decisions ok) : Balanced decisions after ↔ ok := by
  have hdup : after.duplicateCount = 0 + _ := h.duplicates
  have hkept : after.keptCount = 0 + _ ↔ ok := h.kept_iff
  rw [Nat.zero_add] at hdup hkept
  rw [← hkept]
  constructor
  · exact fun hbalanced => hbalanced.kept
  · intro hk
    refine ⟨hk, hdup, ?_⟩
    rw [h.total, hk, hdup, countP_add_countP_skip]
    exact Nat.zero_add _

end Tally

namespace DedupStateManager

def entryFor (m : DedupStateManager F) (key : String) : Option (DedupEntry F) :=
  if m.bloomFilter.check key then (m.memoryCache.lookup key).or (m.stored key) else none

def counts (keep : KeepStrategy) (m : DedupStateManager F) (keyed : String × Value F) : Bool :=
  (m.entryFor keyed.1).all fun entry => skipsFound keep entry keyed.2

def BatchCounts (clock : Nat → Int64) (keep : KeepStrategy) (m : DedupStateManager F)
    (keyedRows : List (String × Value F)) : Prop :=
  OkAlong (fun m keyed => some (m.processRow clock keep keyed).2)
    (fun m keyed => m.counts keep keyed = true) m keyedRows

def BatchesCount (clock : Nat → Int64) (keep : KeepStrategy) (m : DedupStateManager F)
    (batches : List (List (String × Value F))) : Prop :=
  OkAlong (fun m batch => some (m.processBatch clock keep batch).2) (BatchCounts clock keep) m batches

instance (clock : Nat → Int64) (keep : KeepStrategy) (m : DedupStateManager F)
    (batches : List (List (String × Value F))) : Decidable (m.BatchesCount clock keep batches) :=
  have : ∀ m batch, Decidable (BatchCounts (F := F) clock keep m batch) := fun m batch =>
    inferInstanceAs (Decidable (OkAlong _ _ m batch))
  inferInstanceAs (Decidable (OkAlong _ (BatchCounts clock keep) m batches))

variable (clock : Nat → Int64) (keep : KeepStrategy)

/-! ## One row -/

variable {before : DedupStats}

theorem decideFound_tally {m : DedupStateManager F} {entry : DedupEntry F} (row : Value F)
    (key : String) (htotal : m.stats.totalProcessed = before.totalProcessed + 1)
    (hduplicates : m.stats.duplicateCount = before.duplicateCount)
    (hkept : m.stats.keptCount = before.keptCount) :
    Tally before (m.decideFound entry row keep key).2.stats [(m.decideFound entry row keep key).1]
      (skipsFound keep entry row = true) := by
  have hskip := isSkip_applyKeepStrategy keep entry row key
  unfold decideFound
  dsimp only
  split_ifs with hs
  · rw [hs] at hskip
    refine ⟨htotal, ?_, ?_, iff_of_true ?_ hskip.symm⟩
    · simp [hs, hduplicates]
    · simp [hs, hkept]
    · simp [hs, hkept]
  · rw [Bool.not_eq_true] at hs
    rw [hs] at hskip
    refine ⟨htotal, ?_, ?_, iff_of_false ?_ ?_⟩
    · simp [hs, hduplicates]
    · simp [hs, hkept]
    · simp [hs, hkept]
    · simp [← hskip]

variable (m : DedupStateManager F)

theorem stats_insertEntry (key : String) (entry : DedupEntry F) :
    (m.insertEntry key entry).stats = m.stats := by
  unfold insertEntry
  split_ifs <;> rfl

theorem keepNew_tally {m : DedupStateManager F} (row : Value F) (key : String) (idx : UInt64)
    (now : Int64) (htotal : m.stats.totalProcessed = before.totalProcessed + 1)
    (hduplicates : m.stats.duplicateCount = before.duplicateCount)
    (hkept : m.stats.keptCount = before.keptCount) :
    Tally before (m.keepNew key row idx now).2.stats [(m.keepNew key row idx now).1] True := by
  unfold keepNew
  dsimp only
  rw [stats_insertEntry]
  refine ⟨htotal, hduplicates, ?_, iff_of_true ?_ trivial⟩
  · simp [hkept, DedupDecision.isSkip]
  · simp [hkept, DedupDecision.isSkip]

theorem processRow_tally (keyed : String × Value F) :
    Tally m.stats (m.processRow clock keep keyed).2.stats [(m.processRow clock keep keyed).1]
      (m.counts keep keyed = true) := by
  obtain ⟨key, row⟩ := keyed
  rcases processRow_cases clock m keep key row with
    ⟨entry, hcheck, hcached, heq⟩ | ⟨entry, hcheck, hcached, hstored, heq⟩ | ⟨hknows, m₁, hm₁, heq⟩
  · have hcounts : m.counts keep (key, row) = skipsFound keep entry row := by
      simp [counts, entryFor, hcheck, hcached]
    rw [heq, hcounts]
    exact decideFound_tally keep row key rfl rfl rfl
  · have hcounts : m.counts keep (key, row) = skipsFound keep entry row := by
      simp [counts, entryFor, hcheck, hcached, hstored]
    rw [heq, hcounts]
    unfold foundInRocks
    dsimp only
    split_ifs <;> exact decideFound_tally keep row key rfl rfl rfl
  · have hcounts : m.counts keep (key, row) = true := by
      rw [knows, Bool.and_eq_false_iff, Bool.or_eq_false_iff] at hknows
      rw [counts, entryFor]
      rcases hknows with hcheck | ⟨hcached, hstored⟩
      · simp [hcheck]
      · rw [Option.isSome_eq_false_iff, Option.isNone_iff_eq_none] at hcached hstored
        simp [hcached, hstored]
    rw [heq, hcounts, eq_self]
    rcases hm₁ with rfl | rfl <;> exact keepNew_tally row key _ _ rfl rfl rfl

/-! ## Runs -/

theorem processRows_tally (keyedRows : List (String × Value F)) :
    Tally m.stats (m.processRows clock keep keyedRows).2.stats (m.processRows clock keep keyedRows).1
      (m.BatchCounts clock keep keyedRows) := by
  induction keyedRows generalizing m with
  | nil => exact .nil m.stats
  | cons keyed keyedRows ih =>
    rw [BatchCounts, okAlong_cons_total]
    exact (processRow_tally clock keep m keyed).append (ih _)

theorem stats_flushEntries (n : Nat) (m : DedupStateManager F) :
    (m.flushEntries n).stats = m.stats := by
  induction n generalizing m with
  | zero => rfl
  | succ n ih =>
    unfold flushEntries
    split
    · exact ih _
    · exact ih m

theorem Tally.endBatch {m : DedupStateManager F} {decisions : List (DedupDecision F)} {ok : Prop}
    (h : Tally before m.stats decisions ok) : Tally before m.endBatch.stats decisions ok := by
  unfold DedupStateManager.endBatch flushToDisk
  dsimp only
  split_ifs
  · rw [stats_flushEntries]
    exact { h with }
  · exact { h with }
  · exact { h with }

theorem processBatches_tally (batches : List (List (String × Value F))) :
    Tally m.stats (m.processBatches clock keep batches).2.stats
      (m.processBatches clock keep batches).1.flatten (m.BatchesCount clock keep batches) := by
  induction batches generalizing m with
  | nil => exact .nil m.stats
  | cons batch batches ih =>
    rw [BatchesCount, okAlong_cons_total]
    exact (Tally.endBatch (processRows_tally clock keep m batch)).append (ih _)

end DedupStateManager

/-! ## What the step reports -/

/-- The counts in the output of `execute`. -/
structure DedupReport where
  rowCount : Nat
  originalCount : Nat
  duplicatesRemoved : Nat
  memoryFlushes : Nat
  outputRows : Nat

namespace StreamingDeduplicator

/-- What `execute` makes of the decisions and the final counters. -/
def output (decisions : List (DedupDecision F)) (stats : DedupStats) : DedupReport × List (Value F) :=
  let outputRows := decisions.filterMap DedupDecision.keptRow
  (⟨stats.keptCount, stats.totalProcessed, stats.duplicateCount, stats.memoryFlushes,
    outputRows.length⟩, outputRows)

def execute (rt : DedupRuntime F) (config : StreamingDedupConfig F) (storage : RowStorage F)
    (fuel : Nat) : Option (Except WorkflowError (DedupReport × List (Value F))) := do
  let batches ← collect (BatchIterator.next rt.fromSlice) fuel (.new storage config.batchSize)
  return do
    let manager ←
      DedupStateManager.new rt.newForFpRate (some rt.rocksDb) rt.executionId rt.timestamp config
    let (decisions, manager) := manager.processBatches rt.clock config.base.keep
      ((← batches).map (buildDedupKeys rt.toLowercase config.base))
    return output decisions.flatten manager.stats

theorem execute_eq {rt : DedupRuntime F} {config : StreamingDedupConfig F} {storage : RowStorage F}
    {fuel : Nat} {manager : DedupStateManager F} {batches : List (List (Value F))}
    (hnew : DedupStateManager.new rt.newForFpRate (some rt.rocksDb) rt.executionId rt.timestamp
      config = .ok manager)
    (hbatches : collect (BatchIterator.next rt.fromSlice) fuel (.new storage config.batchSize) =
      some (.ok batches)) :
    execute rt config storage fuel =
      let result := manager.processBatches rt.clock config.base.keep
        (batches.map (buildDedupKeys rt.toLowercase config.base))
      some (.ok (output result.1.flatten result.2.stats)) := by
  rw [execute, hbatches]
  simp only [Option.bind_eq_bind, Option.bind_some, hnew]
  rfl

end StreamingDeduplicator

omit [Float64 F] in
theorem stats_new {newForFpRate : Nat → F → BloomHash String} {rocksHandle : Option Db}
    {executionId : String} {timestamp : Int64} {config : StreamingDedupConfig F}
    {manager : DedupStateManager F}
    (h : DedupStateManager.new newForFpRate rocksHandle executionId timestamp config = .ok manager) :
    manager.stats = .zero := by
  unfold DedupStateManager.new at h
  split_ifs at h
  cases h
  rfl

/-- **The counters are balanced, and the reported number of rows is the number of output rows,
exactly where every row has a new key or is skipped.** -/
theorem dedup_balanced_iff (rt : DedupRuntime F) (rocksHandle : Option Db) (config : StreamingDedupConfig F)
    {manager : DedupStateManager F} (hnew : DedupStateManager.new rt.newForFpRate rocksHandle
      rt.executionId rt.timestamp config = .ok manager) :
    (∀ keep batches,
      Balanced (manager.processBatches rt.clock keep batches).1.flatten
          (manager.processBatches rt.clock keep batches).2.stats ↔
        manager.BatchesCount rt.clock keep batches) ∧
    ∀ storage fuel batches, rocksHandle = some rt.rocksDb →
      collect (BatchIterator.next rt.fromSlice) fuel (.new storage config.batchSize) =
        some (.ok batches) →
      ∃ report rows,
        StreamingDeduplicator.execute rt config storage fuel = some (.ok (report, rows)) ∧
        (report.rowCount = rows.length ↔ manager.BatchesCount rt.clock config.base.keep
          (batches.map (StreamingDeduplicator.buildDedupKeys rt.toLowercase config.base))) := by
  have hzero := stats_new hnew
  constructor
  · intro keep batches
    have htally := manager.processBatches_tally rt.clock keep batches
    rw [hzero] at htally
    exact htally.balanced_iff
  · rintro storage fuel batches rfl hbatches
    have htally := manager.processBatches_tally rt.clock config.base.keep
      (batches.map (StreamingDeduplicator.buildDedupKeys rt.toLowercase config.base))
    refine ⟨_, _, StreamingDeduplicator.execute_eq hnew hbatches, ?_⟩
    rw [hzero] at htally
    have hkept := htally.kept_iff
    rw [← length_filterMap_keptRow] at hkept
    rw [← hkept]
    exact Eq.congr_right (Nat.zero_add _).symm

/-- The first row of each key is kept, and one row is skipped. -/
theorem different_keys_balanced :
    Balanced (smallManager.processBatches sampleRuntime.clock .First [[numbered "a" (.ofByte 1),
        numbered "b" (.ofByte 2)], [numbered "a" (.ofByte 3)]]).1.flatten
      (smallManager.processBatches sampleRuntime.clock .First [[numbered "a" (.ofByte 1),
        numbered "b" (.ofByte 2)], [numbered "a" (.ofByte 3)]]).2.stats :=
  ((dedup_balanced_iff sampleRuntime (some sampleRuntime.rocksDb) smallConfig new_smallManager).1 .First
    [[numbered "a" (.ofByte 1), numbered "b" (.ofByte 2)], [numbered "a" (.ofByte 3)]]).mpr
    (by decide +kernel)

/-- Two rows of one key are both kept, and one is counted. -/
theorem last_of_key_not_counted : ¬ ∀ (rt : DedupRuntime Int) (config : StreamingDedupConfig Int)
    (manager : DedupStateManager Int), DedupStateManager.new rt.newForFpRate (some rt.rocksDb)
      rt.executionId rt.timestamp config = .ok manager → ∀ keep batches,
      Balanced (manager.processBatches rt.clock keep batches).1.flatten
        (manager.processBatches rt.clock keep batches).2.stats := by
  intro h
  have hkept := (h sampleRuntime smallConfig smallManager new_smallManager .Last
    [[numbered "a" (.ofByte 1), numbered "a" (.ofByte 2)]]).kept
  exact absurd hkept (by decide +kernel)

end Arcxa.Workflow
