import Arcxa.Kafka.Replay

/-!
# The recovery report

A batch is replayed as soon as one of its events was written, and what the others came to is not
counted. The writes follow a pattern here, one result for each event and attempt.
`report_truthful_iff`: the report adds up and tells a success exactly where each batch is written whole
or not at all in the first attempt that writes anything.
-/

namespace Arcxa.Kafka

variable {E : Type}

abbrev WriteLog := List (Nat × Except String Unit)

variable {log : WriteLog}

namespace WriteLog

def attempts (log : WriteLog) (i : Nat) : Nat := (log.map Prod.fst).count i

/-- A write of the event was `Ok`. -/
def written (log : WriteLog) (i : Nat) : Bool := log.any fun w => w.1 == i && w.2.isOk

theorem attempts_append (log log' : WriteLog) (i : Nat) :
    attempts (log ++ log') i = log.attempts i + log'.attempts i := by
  rw [attempts, List.map_append, List.count_append]
  rfl

theorem written_append (log log' : WriteLog) (i : Nat) :
    written (log ++ log') i = (log.written i || log'.written i) :=
  List.any_append

theorem attempts_eq_zero {i : Nat} (h : ∀ w ∈ log, w.1 ≠ i) :
    log.attempts i = 0 := by
  rw [attempts, List.count_eq_zero]
  intro hmem
  obtain ⟨w, hw, hi⟩ := List.mem_map.mp hmem
  exact h w hw hi

theorem written_eq_false {i : Nat} (h : ∀ w ∈ log, w.1 ≠ i) :
    log.written i = false := by
  rw [written, List.any_eq_false]
  intro w hw
  simp [h w hw]

end WriteLog

/-- A sink that answers the writes of the event at index `i` by `pattern i`, attempt by attempt. -/
def patternTarget (pattern : Nat → Nat → Except String Unit) : Target WriteLog (E × Nat) where
  write log event :=
    let result := pattern event.2 (log.attempts event.2)
    some (result, log ++ [(event.2, result)])
  sleep _ log := log

def WrittenWhole (pattern : Nat → Nat → Except String Unit) (maxRetryAttempts : Nat)
    (batch : List (E × Nat)) : Prop :=
  ∀ attempt ≤ maxRetryAttempts,
    (∀ k < attempt, ∀ event ∈ batch, (pattern event.2 k).isOk = false) →
    (∃ event ∈ batch, (pattern event.2 attempt).isOk = true) →
    ∀ event ∈ batch, (pattern event.2 attempt).isOk = true

/-- The report of a recovery of `events` events, against the writes that it made. -/
structure RecoveryReport.Truthful (report : RecoveryReport) (log : WriteLog) (events : Nat) :
    Prop where
  totalEvents : report.totalEvents = events
  adds_up : report.replayedEvents + report.failedEvents = report.totalEvents
  replayed : report.replayedEvents = (List.range events).countP log.written
  successful : report.isSuccessful = true ↔ ∀ i < events, log.written i = true

namespace ReplayManager

section Pattern

variable {pattern : Nat → Nat → Except String Unit}

/-! ## One attempt -/

def round (pattern : Nat → Nat → Except String Unit) (k : Nat) (batch : List (E × Nat)) : WriteLog :=
  batch.map fun event => (event.2, pattern event.2 k)

def okCount (pattern : Nat → Nat → Except String Unit) (k : Nat) (batch : List (E × Nat)) : Nat :=
  batch.countP fun event => (pattern event.2 k).isOk

variable {batch : List (E × Nat)}

open WriteLog

theorem attempts_round (hnodup : (batch.map Prod.snd).Nodup) (k : Nat)
    {event : E × Nat} (h : event ∈ batch) : (round pattern k batch).attempts event.2 = 1 := by
  rw [attempts, round, List.map_map]
  exact List.count_eq_one_of_mem hnodup (List.mem_map_of_mem (f := Prod.snd) h)

theorem written_round (k : Nat) {event : E × Nat} (h : event ∈ batch) :
    (round pattern k batch).written event.2 = (pattern event.2 k).isOk := by
  rw [written, round, List.any_map, Bool.eq_iff_iff, List.any_eq_true]
  constructor
  · rintro ⟨other, -, hother⟩
    simp only [Function.comp_apply, Bool.and_eq_true, beq_iff_eq] at hother
    exact hother.1 ▸ hother.2
  · intro hok
    exact ⟨event, h, by simpa using hok⟩

theorem replayEvents_eq {k : Nat} (n : Nat)
    (hattempts : ∀ event ∈ batch, log.attempts event.2 = k)
    (hnodup : (batch.map Prod.snd).Nodup) :
    replayEvents (patternTarget pattern) n log batch =
      some (n + okCount pattern k batch, log ++ round pattern k batch) := by
  induction batch generalizing n log with
  | nil => simp [replayEvents, okCount, round]
  | cons event batch ih =>
    rw [List.forall_mem_cons] at hattempts
    rw [List.map_cons, List.nodup_cons] at hnodup
    -- the other events have other indices
    have hrest : ∀ other ∈ batch,
        (log ++ [(event.2, pattern event.2 k)] : WriteLog).attempts other.2 = k := by
      intro other hother
      have hne : event.2 ≠ other.2 := fun heq => hnodup.1 (heq ▸ List.mem_map_of_mem hother)
      rw [attempts_append, hattempts.2 other hother, attempts_eq_zero (by simpa),
        Nat.add_zero]
    have happend : log ++ round pattern k (event :: batch) =
        log ++ [(event.2, pattern event.2 k)] ++ round pattern k batch := by
      rw [round, List.map_cons, List.append_assoc]
      rfl
    simp only [replayEvents, patternTarget, hattempts.1]
    cases hresult : pattern event.2 k with
    | ok u =>
      rw [hresult] at hrest
      have hcount : okCount pattern k (event :: batch) = okCount pattern k batch + 1 :=
        List.countP_cons_of_pos (by rw [hresult]; rfl)
      rw [happend, hresult, hcount]
      exact (ih (n + 1) hrest hnodup.2).trans (by rw [Nat.add_assoc, Nat.add_comm 1])
    | error e =>
      rw [hresult] at hrest
      have hcount : okCount pattern k (event :: batch) = okCount pattern k batch :=
        List.countP_cons_of_neg (by rw [hresult]; exact Bool.false_ne_true)
      rw [happend, hresult, hcount]
      exact ih n hrest hnodup.2

theorem replayBatch_eq {k : Nat}
    (hattempts : ∀ event ∈ batch, log.attempts event.2 = k)
    (hnodup : (batch.map Prod.snd).Nodup) :
    replayBatch (patternTarget pattern) log batch =
      some (if okCount pattern k batch = 0 then .error "No events replayed in batch"
        else .ok (okCount pattern k batch), log ++ round pattern k batch) := by
  rw [replayBatch, replayEvents_eq 0 hattempts hnodup, Option.map_some, Nat.zero_add]
  dsimp only
  split_ifs <;> rfl

theorem okCount_eq_zero {k : Nat} :
    okCount pattern k batch = 0 ↔ ∀ event ∈ batch, (pattern event.2 k).isOk = false := by
  rw [okCount, List.countP_eq_zero]
  simp only [Bool.not_eq_true]

/-! ## A batch with its retries -/

/-- What the attempts from `k` to `last` come to: the first that writes an event counts, and before
it, or where there is none, nothing is written. -/
inductive Settled (pattern : Nat → Nat → Except String Unit) (batch : List (E × Nat)) (k last : Nat)
    (log : WriteLog) : Except String (Nat × Nat) → Prop where
  | replayed (j retries : Nat) (hk : k ≤ j) (hlast : j ≤ last)
      (hbefore : ∀ l, k ≤ l → l < j → okCount pattern l batch = 0)
      (hok : okCount pattern j batch ≠ 0)
      (hwritten : ∀ event ∈ batch, log.written event.2 = (pattern event.2 j).isOk) :
      Settled pattern batch k last log (.ok (okCount pattern j batch, retries))
  | failed (err : String) (hnone : ∀ l, k ≤ l → l ≤ last → okCount pattern l batch = 0)
      (hwritten : ∀ event ∈ batch, log.written event.2 = false) :
      Settled pattern batch k last log (.error err)

variable {config : ReplayConfig}

theorem replayBatchWithRetry_settled
    (hnodup : (batch.map Prod.snd).Nodup) {attempts backoff retries k : Nat}
    (hattempts : ∀ event ∈ batch, log.attempts event.2 = k) :
    ∃ result writes,
      replayBatchWithRetry (patternTarget pattern) config batch attempts backoff retries log =
        some (result, log ++ writes) ∧
      (∀ w ∈ writes, ∃ event ∈ batch, w.1 = event.2) ∧
      Settled pattern batch k (k + attempts) writes result := by
  have hround : ∀ k, ∀ w ∈ round pattern k batch, ∃ event ∈ batch, w.1 = event.2 := by
    intro k w hw
    obtain ⟨event, hevent, rfl⟩ := List.mem_map.mp hw
    exact ⟨event, hevent, rfl⟩
  induction attempts generalizing backoff retries k log with
  | zero =>
    rw [replayBatchWithRetry, replayBatch_eq hattempts hnodup]
    by_cases hok : okCount pattern k batch = 0
    · rw [if_pos hok]
      refine ⟨_, _, rfl, hround k, .failed _ (fun l hk hl => ?_) fun event hevent => ?_⟩
      · rwa [Nat.le_antisymm hl hk]
      · rw [written_round k hevent]
        exact okCount_eq_zero.mp hok event hevent
    · rw [if_neg hok]
      exact ⟨_, _, rfl, hround k, .replayed k retries le_rfl le_rfl (by omega) hok
        fun event hevent => written_round k hevent⟩
  | succ attempts ih =>
    rw [replayBatchWithRetry, replayBatch_eq hattempts hnodup]
    by_cases hok : okCount pattern k batch = 0
    · rw [if_pos hok]
      have hnext : ∀ event ∈ batch,
          (log ++ round pattern k batch : WriteLog).attempts event.2 = k + 1 := by
        intro event hevent
        rw [attempts_append, hattempts event hevent, attempts_round hnodup k hevent]
      obtain ⟨result, writes, hrun, hwithin, hsettled⟩ : ∃ result writes,
          replayBatchWithRetry (patternTarget pattern) config batch attempts
            (min (backoff * 2) config.maxBackoff) (retries + 1) (log ++ round pattern k batch) =
              some (result, log ++ round pattern k batch ++ writes) ∧
          (∀ w ∈ writes, ∃ event ∈ batch, w.1 = event.2) ∧
          Settled pattern batch (k + 1) (k + 1 + attempts) writes result := ih hnext
      have hnone : ∀ event ∈ batch, (round pattern k batch).written event.2 = false := by
        intro event hevent
        rw [written_round k hevent]
        exact okCount_eq_zero.mp hok event hevent
      refine ⟨result, round pattern k batch ++ writes, ?_, ?_, ?_⟩
      · rw [← List.append_assoc]
        exact hrun
      · intro w hw
        exact (List.mem_append.mp hw).elim (hround k w) (hwithin w)
      · have hbefore : ∀ l, k ≤ l → ¬ k + 1 ≤ l → okCount pattern l batch = 0 := by
          intro l hk hl
          rwa [show l = k by omega]
        cases hsettled with
        | replayed j retries hk hlast hearlier hok' hwritten =>
          refine .replayed j retries (by omega) (by omega) (fun l hl hlj => ?_) hok' ?_
          · by_cases hle : k + 1 ≤ l
            · exact hearlier l hle hlj
            · exact hbefore l hl hle
          · intro event hevent
            rw [written_append, hnone event hevent, Bool.false_or]
            exact hwritten event hevent
        | failed err hnone' hwritten =>
          refine .failed err (fun l hl hlast => ?_) ?_
          · by_cases hle : k + 1 ≤ l
            · exact hnone' l hle (by omega)
            · exact hbefore l hl hle
          · intro event hevent
            rw [written_append, hnone event hevent, Bool.false_or]
            exact hwritten event hevent
    · rw [if_neg hok]
      exact ⟨_, _, rfl, hround k, .replayed k retries le_rfl (by omega) (by omega) hok
        fun event hevent => written_round k hevent⟩

theorem addBatch_settled
    {result : Except String (Nat × Nat)}
    (h : Settled pattern batch 0 config.maxRetryAttempts log result) (report : RecoveryReport)
    (batchIdx : Nat) : ∃ failed,
      (addBatch report batchIdx batch result).totalEvents = report.totalEvents ∧
      (addBatch report batchIdx batch result).replayedEvents =
        report.replayedEvents + batch.countP (fun event => log.written event.2) ∧
      (addBatch report batchIdx batch result).failedEvents = report.failedEvents + failed ∧
      batch.countP (fun event => log.written event.2) + failed ≤ batch.length ∧
      (batch.countP (fun event => log.written event.2) + failed = batch.length ↔
        WrittenWhole pattern config.maxRetryAttempts batch) := by
  cases h with
  | replayed j retries hk hlast hbefore hok hwritten =>
    have hcount : batch.countP (fun event => log.written event.2) = okCount pattern j batch :=
      List.countP_congr fun event hevent => by rw [hwritten event hevent]
    refine ⟨0, rfl, by rw [hcount]; rfl, rfl, List.countP_le_length, ?_⟩
    rw [Nat.add_zero, hcount, okCount, List.countP_eq_length]
    constructor
    · intro hall attempt hattempt hnone hsome
      -- the first attempt that writes an event is the one that counted
      obtain ⟨event, hevent, hwrites⟩ := hsome
      rcases Nat.lt_trichotomy attempt j with hlt | rfl | hgt
      · have hzero := okCount_eq_zero.mp (hbefore attempt (Nat.zero_le _) hlt) event hevent
        rw [hwrites] at hzero
        cases hzero
      · exact hall
      · exact absurd (okCount_eq_zero.mpr (hnone j hgt)) hok
    · intro hwhole
      refine hwhole j hlast (fun l hl => okCount_eq_zero.mp (hbefore l (Nat.zero_le _) hl)) ?_
      by_contra hnone
      refine hok (okCount_eq_zero.mpr fun event hevent => ?_)
      rw [Bool.eq_false_iff]
      exact fun hwrites => hnone ⟨event, hevent, hwrites⟩
  | failed err hnone hwritten =>
    have hcount : batch.countP (fun event => log.written event.2) = 0 := by
      rw [List.countP_eq_zero]
      intro event hevent
      rw [hwritten event hevent]
      decide
    refine ⟨batch.length, rfl, by rw [hcount]; rfl, rfl, by omega, ?_⟩
    rw [hcount, Nat.zero_add]
    refine iff_of_true rfl fun attempt hattempt _ hsome => ?_
    obtain ⟨event, hevent, hwrites⟩ := hsome
    have hzero := okCount_eq_zero.mp (hnone attempt (Nat.zero_le _) hattempt) event hevent
    rw [hwrites] at hzero
    cases hzero

/-! ## All batches -/

variable (pattern config) in
theorem replayBatches_counts {rest : List (List (E × Nat))} (batches idx : Nat)
    (report : RecoveryReport)
    (hfresh : ∀ event ∈ rest.flatten, log.attempts event.2 = 0)
    (hnodup : (rest.flatten.map Prod.snd).Nodup) : ∃ report' writes failed,
      replayBatches (patternTarget pattern) config batches idx report log rest =
        some (report', log ++ writes) ∧
      (∀ w ∈ writes, ∃ event ∈ rest.flatten, w.1 = event.2) ∧
      report'.totalEvents = report.totalEvents ∧
      report'.replayedEvents =
        report.replayedEvents + rest.flatten.countP (fun event => writes.written event.2) ∧
      report'.failedEvents = report.failedEvents + failed ∧
      rest.flatten.countP (fun event => writes.written event.2) + failed ≤ rest.flatten.length ∧
      (rest.flatten.countP (fun event => writes.written event.2) + failed = rest.flatten.length ↔
        ∀ batch ∈ rest, WrittenWhole pattern config.maxRetryAttempts batch) := by
  induction rest generalizing idx report log with
  | nil => exact ⟨report, [], 0, by rw [List.append_nil]; rfl, by simp, rfl, rfl, rfl, by simp, by simp⟩
  | cons batch rest ih =>
    rw [List.flatten_cons] at hfresh hnodup
    rw [List.map_append] at hnodup
    obtain ⟨hnodup₁, hnodup₂, happart⟩ := List.nodup_append.mp hnodup
    have happart' : ∀ event ∈ batch, ∀ other ∈ rest.flatten, event.2 ≠ other.2 :=
      fun event hevent other hother =>
        happart _ (List.mem_map_of_mem hevent) _ (List.mem_map_of_mem hother)
    obtain ⟨result, writes₁, hrun₁, hwithin₁, hsettled⟩ : ∃ result writes,
        replayBatchWithRetry (patternTarget pattern) config batch config.maxRetryAttempts
          config.retryBackoff 0 log = some (result, log ++ writes) ∧
        (∀ w ∈ writes, ∃ event ∈ batch, w.1 = event.2) ∧
        Settled pattern batch 0 (0 + config.maxRetryAttempts) writes result :=
      replayBatchWithRetry_settled hnodup₁
        fun event hevent => hfresh event (List.mem_append_left _ hevent)
    rw [Nat.zero_add] at hsettled
    obtain ⟨failed₁, htotal₁, hreplayed₁, hfailed₁, hle₁, hwhole₁⟩ :=
      addBatch_settled hsettled report idx
    have hfresh₂ : ∀ other ∈ rest.flatten, (log ++ writes₁ : WriteLog).attempts other.2 = 0 := by
      intro other hother
      rw [attempts_append, hfresh other (List.mem_append_right _ hother),
        attempts_eq_zero]
      intro w hw
      obtain ⟨event, hevent, heq⟩ := hwithin₁ w hw
      exact heq ▸ happart' event hevent other hother
    obtain ⟨report', writes₂, failed₂, hrun₂, hwithin₂, htotal₂, hreplayed₂, hfailed₂, hle₂,
      hwhole₂⟩ := ih _ _ hfresh₂ hnodup₂
    -- each event is written with its own batch
    have hleft : batch.countP (fun event => (writes₁ ++ writes₂ : WriteLog).written event.2) =
        batch.countP (fun event => writes₁.written event.2) := by
      refine List.countP_congr fun event hevent => ?_
      have hother : writes₂.written event.2 = false := by
        refine written_eq_false fun w hw => ?_
        obtain ⟨other, hother, heq⟩ := hwithin₂ w hw
        exact heq ▸ (happart' event hevent other hother).symm
      rw [written_append, hother, Bool.or_false]
    have hright : rest.flatten.countP
          (fun event => (writes₁ ++ writes₂ : WriteLog).written event.2) =
        rest.flatten.countP (fun event => writes₂.written event.2) := by
      refine List.countP_congr fun other hother => ?_
      have hearlier : writes₁.written other.2 = false := by
        refine written_eq_false fun w hw => ?_
        obtain ⟨event, hevent, heq⟩ := hwithin₁ w hw
        exact heq ▸ happart' event hevent other hother
      rw [written_append, hearlier, Bool.false_or]
    refine ⟨report', writes₁ ++ writes₂, failed₁ + failed₂, ?_, ?_, htotal₂.trans htotal₁, ?_, ?_, ?_,
      ?_⟩
    · rw [replayBatches, hrun₁, ← List.append_assoc]
      dsimp only
      split_ifs
      · exact hrun₂
      · exact hrun₂
    · intro w hw
      rw [List.flatten_cons]
      rcases List.mem_append.mp hw with hw | hw
      · obtain ⟨event, hevent, heq⟩ := hwithin₁ w hw
        exact ⟨event, List.mem_append_left _ hevent, heq⟩
      · obtain ⟨event, hevent, heq⟩ := hwithin₂ w hw
        exact ⟨event, List.mem_append_right _ hevent, heq⟩
    · rw [hreplayed₂, hreplayed₁, List.flatten_cons, List.countP_append, hleft, hright,
        Nat.add_assoc]
    · rw [hfailed₂, hfailed₁, Nat.add_assoc]
    · rw [List.flatten_cons, List.countP_append, hleft, hright, List.length_append]
      omega
    · rw [List.flatten_cons, List.countP_append, hleft, hright, List.length_append,
        List.forall_mem_cons, ← hwhole₁, ← hwhole₂]
      omega

end Pattern

/-! ## The report -/

theorem map_snd_zipIdx (events : List E) :
    events.zipIdx.map Prod.snd = List.range events.length := by
  rw [List.zipIdx_map_snd, List.range_eq_range']

/-- **The report is truthful exactly where no batch is written in part.** -/
theorem report_truthful_iff (pattern : Nat → Nat → Except String Unit) (config : ReplayConfig)
    (events : List E) (hbatch : 1 ≤ config.batchSize) : ∃ report log,
      recoverEvents (patternTarget pattern) config [] events.zipIdx = some (report, log) ∧
      (report.Truthful log events.length ↔
        ∀ batch ∈ chunks config.batchSize events.zipIdx,
          WrittenWhole pattern config.maxRetryAttempts batch) := by
  have hflatten := flatten_chunks (Nat.lt_of_lt_of_le Nat.zero_lt_one hbatch) events.zipIdx
  by_cases hnil : events = []
  · subst hnil
    refine ⟨_, _, rfl, iff_of_true ⟨rfl, rfl, rfl, by simp [RecoveryReport.isSuccessful]⟩ ?_⟩
    simp
  · have hne : events.zipIdx ≠ [] := by simpa [List.zipIdx_eq_nil_iff] using hnil
    have hnodup : ((chunks config.batchSize events.zipIdx).flatten.map Prod.snd).Nodup := by
      rw [hflatten, map_snd_zipIdx]
      exact List.nodup_range
    have hfresh : ∀ event ∈ (chunks config.batchSize events.zipIdx).flatten,
        WriteLog.attempts [] event.2 = 0 := fun event _ => rfl
    obtain ⟨report, log, failed, hrun, -, htotal, hreplayed, hfailed, hle, hwhole⟩ :=
      replayBatches_counts pattern config
        ((events.zipIdx.length + config.batchSize - 1) / config.batchSize) 0
        ⟨events.zipIdx.length, 0, 0, [], 0, 0⟩ hfresh hnodup
    have hcount : (chunks config.batchSize events.zipIdx).flatten.countP
        (fun event => log.written event.2) = (List.range events.length).countP log.written := by
      rw [hflatten, ← map_snd_zipIdx, List.countP_map]
      rfl
    rw [hflatten, List.length_zipIdx] at hwhole hle
    rw [hcount] at hreplayed
    rw [hflatten] at hcount
    rw [hcount] at hwhole hle
    rw [Nat.zero_add] at hreplayed hfailed
    rw [List.length_zipIdx] at htotal
    refine ⟨report, log, ?_, ?_⟩
    · rw [recoverEvents, if_neg hne, if_neg (by omega)]
      exact hrun
    · rw [← hwhole]
      constructor
      · intro htruthful
        rw [← hreplayed, ← hfailed, htruthful.adds_up, htotal]
      · intro hsum
        refine ⟨htotal, by rw [hreplayed, hfailed, htotal, hsum], hreplayed, ?_⟩
        have hall : (List.range events.length).countP log.written = events.length ↔
            ∀ i < events.length, log.written i = true := by
          have hlength := List.countP_eq_length (p := log.written) (l := List.range events.length)
          rw [List.length_range] at hlength
          simpa only [List.mem_range] using hlength
        rw [RecoveryReport.isSuccessful, beq_iff_eq, hfailed, ← hall]
        omega

def secondAttempt (_ attempt : Nat) : Except String Unit :=
  if attempt = 0 then .error "unavailable" else .ok ()

def pairs : ReplayConfig := { ReplayConfig.default with batchSize := 2 }

theorem secondAttempt_truthful : ∃ report log,
    recoverEvents (patternTarget secondAttempt) pairs [] [(), (), ()].zipIdx = some (report, log) ∧
      report.Truthful log 3 := by
  obtain ⟨report, log, hrun, hiff⟩ := report_truthful_iff secondAttempt pairs [(), (), ()] (by decide)
  refine ⟨report, log, hrun, hiff.mpr ?_⟩
  intro batch _ attempt _ _ hsome event _
  obtain ⟨other, -, hother⟩ := hsome
  exact hother

def refusesSecond (i _ : Nat) : Except String Unit :=
  if i = 1 then .error "circuit open" else .ok ()

theorem part_of_batch_lost : ¬ ∀ (pattern : Nat → Nat → Except String Unit) (config : ReplayConfig)
    (events : List Unit), 1 ≤ config.batchSize → ∃ report log,
      recoverEvents (patternTarget pattern) config [] events.zipIdx = some (report, log) ∧
        report.Truthful log events.length := by
  intro h
  obtain ⟨report, log, hrun, htruthful⟩ := h refusesSecond pairs [(), ()] (by decide)
  have hone : recoverEvents (patternTarget refusesSecond) pairs [] [((), 0), ((), 1)] =
      some (⟨2, 1, 0, [], 1, 0⟩, [(0, .ok ()), (1, .error "circuit open")]) := by
    rw [recoverEvents, if_neg (List.cons_ne_nil _ _), if_neg (by decide),
      chunks_of_length_le (by decide) (List.cons_ne_nil _ _) (by decide)]
    rfl
  rw [show [(), ()].zipIdx = [((), 0), ((), 1)] from rfl, hone, Option.some.injEq,
    Prod.mk.injEq] at hrun
  obtain ⟨rfl, -⟩ := hrun
  exact absurd htruthful.adds_up (by decide)

end ReplayManager

end Arcxa.Kafka
