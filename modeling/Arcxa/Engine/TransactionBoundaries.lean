import Arcxa.Engine.Transactions

/-!
# The boundaries that the transaction coordinator keeps

What every step keeps of a transaction's record is `Later`. Each mode has its own invariant: of the
files' own transactions (`OwnInv`), of the one shared transaction (`SharedInv`) and of the batches
(`BatchInv`). `boundaries_iff` says that the promises hold exactly when no file is begun again after
its outcome, no rollback comes after the batch was committed, and every file is settled.
-/

namespace Arcxa.Engine.TransactionCoordinator

variable {job : TransactionJob} {c c' c'' : TransactionCoordinator} {id fileId : String}
  {txn : TransactionInfo} {now : Time}

/-! ## What is kept of a record -/

structure Grows (txn txn' : TransactionInfo) : Prop where
  files : txn.fileIds ⊆ txn'.fileIds
  settled : txn.state ≠ .Active → txn'.state = txn.state

theorem Grows.refl (txn : TransactionInfo) : Grows txn txn := ⟨fun _ h => h, fun _ => rfl⟩

theorem Grows.addFile (txn : TransactionInfo) (fileId : String) : Grows txn (txn.addFile fileId) :=
  ⟨List.subset_append_left _ _, fun _ => rfl⟩

theorem Grows.trans {a b d : TransactionInfo} (h : Grows a b) (h' : Grows b d) : Grows a d where
  files := List.Subset.trans h.files h'.files
  settled hsettled := by
    have hstate := h.settled hsettled
    rw [h'.settled (hstate.symm ▸ hsettled), hstate]

/-- Every record is still there, with its files and its outcome. -/
def Later (c c' : TransactionCoordinator) : Prop :=
  ∀ id txn, c.transactions.get id = some txn →
    ∃ txn', c'.transactions.get id = some txn' ∧ Grows txn txn'

theorem Later.of_eq (h : c'.transactions = c.transactions) : Later c c' :=
  fun _ txn hget => ⟨txn, h ▸ hget, Grows.refl txn⟩

theorem Later.trans (h : Later c c') (h' : Later c' c'') : Later c c'' := by
  intro id txn hget
  obtain ⟨txn', hget', hgrows⟩ := h id txn hget
  obtain ⟨txn'', hget'', hgrows'⟩ := h' id txn' hget'
  exact ⟨txn'', hget'', hgrows.trans hgrows'⟩

@[simp] theorem get_put (c : TransactionCoordinator) (id key : String) (txn : TransactionInfo) :
    (c.put id txn).transactions.get key = if key = id then some txn else c.transactions.get key :=
  BTreeMap.get_insert ..

theorem Later.put (h : ∀ old, c.transactions.get id = some old → Grows old txn) :
    Later c (c.put id txn) := by
  intro key old hget
  rw [get_put]
  split_ifs with hkey
  · exact ⟨txn, rfl, h old (hkey ▸ hget)⟩
  · exact ⟨old, hget, Grows.refl old⟩

/-! ## Deciding a transaction -/

/-- At most the transaction `id` was decided, as `outcome`; it was, if it was active. -/
def DecidesAt (id : String) (outcome : TransactionState) (c c' : TransactionCoordinator) : Prop :=
  (c' = c ∧ ∀ txn, c.transactions.get id = some txn → txn.state ≠ .Active) ∨
    ∃ old txn, c.transactions.get id = some old ∧ old.state = .Active ∧
      txn.fileIds = old.fileIds ∧ txn.state = outcome ∧ c' = c.put id txn

theorem decidesAt_settle {outcome : TransactionState}
    (decision : TransactionInfo → TransactionInfo) (hfiles : ∀ txn, (decision txn).fileIds = txn.fileIds)
    (houtcome : ∀ txn, (decision txn).state = outcome) (c : TransactionCoordinator) (id : String) :
    DecidesAt id outcome c ((c.settle id decision).toOption.getD c) := by
  rw [settle]
  cases hget : c.transactions.get id with
  | none => exact .inl ⟨rfl, fun txn hsome => nomatch hget.symm.trans hsome⟩
  | some old =>
    by_cases hactive : old.state = .Active
    · refine .inr ⟨old, decision old, hget, hactive, hfiles old, houtcome old, ?_⟩
      dsimp only [Except.toOption, Option.getD_some]
      rw [if_pos hactive]
    · refine .inl ⟨?_, fun txn hsome => Option.some.inj (hget.symm.trans hsome) ▸ hactive⟩
      dsimp only [Except.toOption, Option.getD_some]
      rw [if_neg hactive]

theorem decidesAt_commit (c : TransactionCoordinator) (id : String) (now : Time) :
    DecidesAt id .Committed c ((c.commitTransactionInternal id now).toOption.getD c) :=
  decidesAt_settle (·.commit now) (fun _ => rfl) (fun _ => rfl) c id

theorem decidesAt_rollback (c : TransactionCoordinator) (id error : String) (now : Time) :
    DecidesAt id .RolledBack c ((c.rollbackTransaction id error now).toOption.getD c) :=
  decidesAt_settle (·.rollback error now) (fun _ => rfl) (fun _ => rfl) c id

namespace DecidesAt

variable {outcome : TransactionState}

variable (h : DecidesAt id outcome c c')

include h

theorem later : Later c c' := by
  obtain ⟨rfl, -⟩ | ⟨old, txn, hget, hactive, hfiles, -, rfl⟩ := h
  · exact .of_eq rfl
  · refine .put fun old' hold => ?_
    cases hget.symm.trans hold
    exact ⟨hfiles ▸ fun _ h => h, fun hsettled => absurd hactive hsettled⟩

theorem batchJob : c'.batchJob = c.batchJob := by
  obtain ⟨rfl, -⟩ | ⟨_, _, -, -, -, -, rfl⟩ := h <;> rfl

theorem currentTransactionId : c'.currentTransactionId = c.currentTransactionId := by
  obtain ⟨rfl, -⟩ | ⟨_, _, -, -, -, -, rfl⟩ := h <;> rfl

theorem batchCounter : c'.batchCounter = c.batchCounter := by
  obtain ⟨rfl, -⟩ | ⟨_, _, -, -, -, -, rfl⟩ := h <;> rfl

theorem currentBatchFiles : c'.currentBatchFiles = c.currentBatchFiles := by
  obtain ⟨rfl, -⟩ | ⟨_, _, -, -, -, -, rfl⟩ := h <;> rfl

theorem get_of_ne {key : String} (hkey : key ≠ id) :
    c'.transactions.get key = c.transactions.get key := by
  obtain ⟨rfl, -⟩ | ⟨_, _, -, -, -, -, rfl⟩ := h
  · rfl
  · rw [get_put, if_neg hkey]

theorem origin {key : String} (hget : c'.transactions.get key = some txn) :
    ∃ old, c.transactions.get key = some old ∧ txn.fileIds = old.fileIds ∧
      (txn.state = old.state ∨ txn.state = outcome) := by
  obtain ⟨rfl, -⟩ | ⟨old, txn', hold, -, hfiles, hstate, rfl⟩ := h
  · exact ⟨txn, hget, rfl, .inl rfl⟩
  · rw [get_put] at hget
    split_ifs at hget with hkey
    · cases hget
      exact ⟨old, hkey ▸ hold, hfiles, .inr hstate⟩
    · exact ⟨txn, hget, rfl, .inl rfl⟩

theorem not_active (houtcome : outcome ≠ .Active) (hget : c'.transactions.get id = some txn) :
    txn.state ≠ .Active := by
  obtain ⟨rfl, hnone⟩ | ⟨old, txn', -, -, -, hstate, rfl⟩ := h
  · exact hnone txn hget
  · rw [get_put, if_pos rfl] at hget
    cases hget
    rwa [hstate]

theorem isSome_iff (key : String) :
    (∃ txn, c'.transactions.get key = some txn) ↔ ∃ txn, c.transactions.get key = some txn := by
  constructor
  · rintro ⟨txn, hget⟩
    obtain ⟨old, hold, -⟩ := h.origin hget
    exact ⟨old, hold⟩
  · rintro ⟨txn, hget⟩
    obtain ⟨txn', hget', -⟩ := h.later key txn hget
    exact ⟨txn', hget'⟩

end DecidesAt

theorem step_rollback (c : TransactionCoordinator) (id error : String) (now : Time) :
    DecidesAt id .RolledBack c (c.step (.call (.rollback id error now))) :=
  decidesAt_rollback c id error now

theorem step_commit_own (hmode : c.batchJob.transactionMode = .PerFile) (id : String) (now : Time) :
    DecidesAt id .Committed c (c.step (.call (.commit id now))) := by
  rw [step, commitTransaction, hmode]
  exact decidesAt_commit c id now

theorem step_commit_deferred (hmode : c.batchJob.transactionMode ≠ .PerFile) (id : String)
    (now : Time) : c.step (.call (.commit id now)) = c := by
  rw [step, commitTransaction]
  cases hcase : c.batchJob.transactionMode with
  | PerFile => exact absurd hcase hmode
  | AllOrNothing => rfl
  | Batched => rfl

theorem step_finalize_own (hmode : c.batchJob.transactionMode = .PerFile) (success : Bool)
    (now : Time) : c.step (.finalize success now) = c := by
  rw [step, finalize, hmode]
  rfl

theorem getD_map_summary (c : TransactionCoordinator) (e : Except String TransactionCoordinator) :
    ((e.map (fun c => (c.getSummary, c))).map (·.2)).toOption.getD c = e.toOption.getD c := by
  cases e <;> rfl

def lastOutcome (success : Bool) : TransactionState := if success then .Committed else .RolledBack

theorem lastOutcome_ne (success : Bool) : lastOutcome success ≠ .Active := by
  cases success <;> decide

theorem decideCurrent_some {current : String} (hcurrent : c.currentTransactionId = some current)
    (success : Bool) (error : String) (now : Time) :
    DecidesAt current (lastOutcome success) c
      ((c.decideCurrent success error now).toOption.getD c) := by
  rw [decideCurrent, hcurrent]
  cases success with
  | true => exact decidesAt_commit c current now
  | false => exact decidesAt_rollback c current error now

theorem step_finalize_eq (hmode : c.batchJob.transactionMode ≠ .PerFile) (success : Bool)
    (now : Time) : ∃ error, c.step (.finalize success now) =
      (c.decideCurrent success error now).toOption.getD c := by
  rw [step, finalize]
  cases hcase : c.batchJob.transactionMode with
  | PerFile => exact absurd hcase hmode
  | AllOrNothing => exact ⟨_, getD_map_summary ..⟩
  | Batched => exact ⟨_, getD_map_summary ..⟩

theorem step_finalize_some (hmode : c.batchJob.transactionMode ≠ .PerFile) {current : String}
    (hcurrent : c.currentTransactionId = some current) (success : Bool) (now : Time) :
    DecidesAt current (lastOutcome success) c (c.step (.finalize success now)) := by
  obtain ⟨error, heq⟩ := step_finalize_eq hmode success now
  rw [heq]
  exact decideCurrent_some hcurrent success error now

theorem step_finalize_none (hmode : c.batchJob.transactionMode ≠ .PerFile)
    (hcurrent : c.currentTransactionId = none) (success : Bool) (now : Time) :
    c.step (.finalize success now) = c := by
  obtain ⟨error, heq⟩ := step_finalize_eq hmode success now
  rw [heq, decideCurrent, hcurrent]
  rfl

/-! ## A transaction for each file -/

/-- Each record is that of one file, which was begun. -/
def OwnInv (c : TransactionCoordinator) : Prop :=
  ∀ id txn, c.transactions.get id = some txn →
    txn.state ≠ .NotStarted ∧ ∃ fileId, id = c.batchJob.fileTxn fileId ∧ txn.fileIds = [fileId]

theorem begin_own (hmode : c.batchJob.transactionMode = .PerFile) (fileId : String) (now : Time) :
    c.beginTransaction fileId now = .ok (c.batchJob.fileTxn fileId,
      c.put (c.batchJob.fileTxn fileId) (.started (c.batchJob.fileTxn fileId) fileId now)) := by
  rw [beginTransaction, hmode]

theorem step_begin_own (hmode : c.batchJob.transactionMode = .PerFile) (fileId : String)
    (now : Time) : c.step (.call (.begin fileId now)) =
      c.put (c.batchJob.fileTxn fileId) (.started (c.batchJob.fileTxn fileId) fileId now) := by
  rw [step, begin_own hmode]
  rfl

theorem OwnInv.of_decides {outcome : TransactionState} (houtcome : outcome ≠ .NotStarted)
    (hinv : OwnInv c) (h : DecidesAt id outcome c c') : OwnInv c' := by
  intro key txn hget
  obtain ⟨old, hold, hfiles, hstate⟩ := h.origin hget
  obtain ⟨hstarted, hfile⟩ := hinv key old hold
  rw [h.batchJob, hfiles]
  refine ⟨?_, hfile⟩
  obtain hstate | hstate := hstate
  · rwa [hstate]
  · rwa [hstate]

theorem OwnInv.step (hmode : c.batchJob.transactionMode = .PerFile) (hinv : OwnInv c)
    (s : TransactionStep) : OwnInv (c.step s) := by
  match s with
  | .call (.begin fileId now) =>
    rw [step_begin_own hmode]
    intro key txn hget
    rw [get_put] at hget
    split_ifs at hget with hkey
    · cases hget
      exact ⟨nofun, fileId, hkey, rfl⟩
    · exact hinv key txn hget
  | .call (.commit id now) => exact hinv.of_decides (by decide) (step_commit_own hmode id now)
  | .call (.rollback id error now) =>
    exact hinv.of_decides (by decide) (step_rollback c id error now)
  | .finalize success now =>
    rw [step_finalize_own hmode]
    exact hinv

theorem OwnInv.later (hmode : c.batchJob.transactionMode = .PerFile) (hinv : OwnInv c)
    {s : TransactionStep} (htime : c.InTime s) : Later c (c.step s) := by
  match s with
  | .call (.begin fileId now) =>
    rw [step_begin_own hmode]
    refine .put fun old hold => ?_
    obtain ⟨hstarted, fileId', hid, hfiles⟩ := hinv _ old hold
    refine ⟨?_, fun hsettled => absurd ?_ (htime hmode old hold)⟩
    · rw [hfiles, TransactionJob.fileTxn_inj hid]
      exact fun _ h => h
    · cases hstate : old.state with
      | NotStarted => exact absurd hstate hstarted
      | Active => exact absurd hstate hsettled
      | Committed => exact .inl rfl
      | RolledBack => exact .inr rfl
  | .call (.commit id now) => exact (step_commit_own hmode id now).later
  | .call (.rollback id error now) => exact (step_rollback c id error now).later
  | .finalize success now => exact .of_eq (congrArg _ (step_finalize_own hmode success now))

/-! ## One transaction for all files -/

structure SharedInv (c : TransactionCoordinator) : Prop where
  idle : c.currentTransactionId = none → ∀ id, c.transactions.get id = none
  running : ∀ id, c.currentTransactionId = some id →
    id = c.batchJob.allTxn ∧ ∃ txn, c.transactions.get id = some txn
  only : ∀ id txn, c.transactions.get id = some txn → id = c.batchJob.allTxn

theorem SharedInv.of_decides {outcome : TransactionState} (hinv : SharedInv c)
    (h : DecidesAt id outcome c c') : SharedInv c' where
  idle hcurrent key := by
    rw [h.currentTransactionId] at hcurrent
    rw [Option.eq_none_iff_forall_ne_some]
    intro txn hget
    obtain ⟨old, hold, -⟩ := h.origin hget
    exact nomatch (hinv.idle hcurrent key).symm.trans hold
  running key hcurrent := by
    rw [h.currentTransactionId] at hcurrent
    rw [h.batchJob, h.isSome_iff]
    exact hinv.running key hcurrent
  only key txn hget := by
    obtain ⟨old, hold, -⟩ := h.origin hget
    rw [h.batchJob]
    exact hinv.only key old hold

theorem addTo_of_get (hget : c.transactions.get id = some txn) (fileId : String) :
    c.addTo id fileId = c.put id (txn.addFile fileId) := by
  rw [addTo, hget]

theorem begin_shared (hmode : c.batchJob.transactionMode = .AllOrNothing) (hinv : SharedInv c)
    (fileId : String) (now : Time) :
    ∃ c' txn, c.beginTransaction fileId now = .ok (c.batchJob.allTxn, c') ∧ c'.batchJob = c.batchJob ∧
      Later c c' ∧ SharedInv c' ∧ c'.transactions.get c.batchJob.allTxn = some txn ∧
      fileId ∈ txn.fileIds ∧
      (txn.state = .Active ∨
        ∃ old, c.transactions.get c.batchJob.allTxn = some old ∧ txn.state = old.state) := by
  rw [beginTransaction, hmode]
  cases hcurrent : c.currentTransactionId with
  | none =>
    have hempty := hinv.idle hcurrent
    refine ⟨_, .started c.batchJob.allTxn fileId now, rfl, rfl, ?_, ⟨nofun, ?_, ?_⟩, ?_,
      List.mem_singleton.mpr rfl, .inl rfl⟩
    · exact fun id txn hget => nomatch (hempty id).symm.trans hget
    · intro id hid
      cases hid
      exact ⟨rfl, _, (get_put ..).trans (if_pos rfl)⟩
    · intro id txn hget
      have hput := (get_put c _ id _).symm.trans hget
      split_ifs at hput with hid
      · exact hid
      · exact nomatch (hempty id).symm.trans hput
    · exact (get_put ..).trans (if_pos rfl)
  | some current =>
    obtain ⟨rfl, old, hold⟩ := hinv.running current hcurrent
    refine ⟨c.put c.batchJob.allTxn (old.addFile fileId), old.addFile fileId, ?_, rfl, ?_, ⟨?_, ?_, ?_⟩,
      ?_, List.mem_append_right _ (List.mem_singleton.mpr rfl), .inr ⟨old, hold, rfl⟩⟩
    · exact congrArg (fun c' => Except.ok (_, c')) (addTo_of_get hold fileId)
    · exact .put fun old' hold' => Option.some.inj (hold.symm.trans hold') ▸ Grows.addFile old fileId
    · exact fun hnone => nomatch hcurrent.symm.trans hnone
    · intro id hid
      refine ⟨(hinv.running id hid).1, old.addFile fileId, ?_⟩
      rw [get_put, if_pos (hinv.running id hid).1]
    · intro id txn hget
      rw [get_put] at hget
      split_ifs at hget with hid
      · exact hid
      · exact hinv.only id txn hget
    · rw [get_put, if_pos rfl]

theorem step_begin_shared (hmode : c.batchJob.transactionMode = .AllOrNothing) (hinv : SharedInv c)
    (fileId : String) (now : Time) :
    (c.step (.call (.begin fileId now))).batchJob = c.batchJob ∧
      Later c (c.step (.call (.begin fileId now))) ∧
      SharedInv (c.step (.call (.begin fileId now))) := by
  obtain ⟨c', txn, hbegin, hjob, hlater, hinv', -⟩ := begin_shared hmode hinv fileId now
  rw [step, hbegin]
  exact ⟨hjob, hlater, hinv'⟩

theorem SharedInv.step (hmode : c.batchJob.transactionMode = .AllOrNothing) (hinv : SharedInv c)
    (s : TransactionStep) : SharedInv (c.step s) ∧ Later c (c.step s) := by
  have hdeferred : c.batchJob.transactionMode ≠ .PerFile := hmode ▸ nofun
  match s with
  | .call (.begin fileId now) =>
    exact (step_begin_shared hmode hinv fileId now).2.symm
  | .call (.commit id now) =>
    rw [step_commit_deferred hdeferred]
    exact ⟨hinv, .of_eq rfl⟩
  | .call (.rollback id error now) =>
    exact ⟨hinv.of_decides (step_rollback c id error now), (step_rollback c id error now).later⟩
  | .finalize success now =>
    cases hcurrent : c.currentTransactionId with
    | none =>
      rw [step_finalize_none hdeferred hcurrent]
      exact ⟨hinv, .of_eq rfl⟩
    | some current =>
      have hdecides := step_finalize_some hdeferred hcurrent success now
      exact ⟨hinv.of_decides hdecides, hdecides.later⟩

def Uncommitted (c : TransactionCoordinator) : Prop :=
  ∀ id txn, c.transactions.get id = some txn → txn.state ≠ .Committed

theorem Uncommitted.call (hmode : c.batchJob.transactionMode = .AllOrNothing) (hinv : SharedInv c)
    (h : Uncommitted c) (call : TransactionCall) : Uncommitted (c.step (.call call)) := by
  cases call with
  | begin fileId now =>
    obtain ⟨c', txn, hbegin, hjob, -, hinv', htxn, -, hstate⟩ := begin_shared hmode hinv fileId now
    rw [step, hbegin]
    intro id txn' hget
    have hid := hinv'.only id txn' hget
    rw [hjob] at hid
    subst hid
    cases htxn.symm.trans hget
    obtain hactive | ⟨old, hold, hsame⟩ := hstate
    · rw [hactive]
      decide
    · rw [hsame]
      exact h _ old hold
  | commit id now =>
    have hdeferred : c.batchJob.transactionMode ≠ .PerFile := hmode ▸ nofun
    rw [step_commit_deferred hdeferred]
    exact h
  | rollback id error now =>
    intro key txn hget
    obtain ⟨old, hold, -, hstate | hstate⟩ := (step_rollback c id error now).origin hget
    · exact hstate ▸ h key old hold
    · rw [hstate]
      decide

/-! ## Batches -/

/-- Batches are numbered from zero; only the current one may be active, and no batch is too big. -/
structure BatchInv (b : Nat) (c : TransactionCoordinator) : Prop where
  idle : c.currentTransactionId = none →
    c.currentBatchFiles = [] ∧ c.transactions.get (c.batchJob.batchTxn c.batchCounter) = none
  running : ∀ id, c.currentTransactionId = some id → id = c.batchJob.batchTxn c.batchCounter ∧
    ∃ txn, c.transactions.get id = some txn ∧ txn.fileIds = c.currentBatchFiles
  bounded : c.currentBatchFiles.length ≤ max 1 b
  known : ∀ id txn, c.transactions.get id = some txn →
    (∃ k ≤ c.batchCounter, id = c.batchJob.batchTxn k) ∧ txn.fileIds.length ≤ max 1 b ∧
      (c.currentTransactionId ≠ some id → txn.state ≠ .Active)

variable {b : Nat}

theorem BatchInv.of_decides {outcome : TransactionState} (houtcome : outcome ≠ .Active)
    (hinv : BatchInv b c) (h : DecidesAt id outcome c c') : BatchInv b c' where
  idle hcurrent := by
    rw [h.currentTransactionId] at hcurrent
    obtain ⟨hfiles, hnone⟩ := hinv.idle hcurrent
    rw [h.currentBatchFiles, h.batchJob, h.batchCounter]
    refine ⟨hfiles, Option.eq_none_iff_forall_ne_some.mpr fun txn hget => ?_⟩
    obtain ⟨old, hold, -⟩ := h.origin hget
    exact nomatch hnone.symm.trans hold
  running key hcurrent := by
    rw [h.currentTransactionId] at hcurrent
    obtain ⟨hkey, txn, hget, hfiles⟩ := hinv.running key hcurrent
    obtain ⟨txn', hget', -⟩ := h.later key txn hget
    obtain ⟨old, hold, hsame, -⟩ := h.origin hget'
    cases hget.symm.trans hold
    rw [h.batchJob, h.batchCounter, h.currentBatchFiles]
    exact ⟨hkey, txn', hget', hsame.trans hfiles⟩
  bounded := h.currentBatchFiles ▸ hinv.bounded
  known key txn hget := by
    obtain ⟨old, hold, hfiles, hstate⟩ := h.origin hget
    obtain ⟨hkey, hlength, hactive⟩ := hinv.known key old hold
    rw [h.batchJob, h.batchCounter, hfiles, h.currentTransactionId]
    refine ⟨hkey, hlength, fun hcurrent => ?_⟩
    obtain hstate | hstate := hstate
    · rw [hstate]
      exact hactive hcurrent
    · rwa [hstate]

def nextBatch (c : TransactionCoordinator) : TransactionCoordinator :=
  { c with
    currentBatchFiles := []
    batchCounter := c.batchCounter + 1
    currentTransactionId := none }

theorem BatchInv.nextBatch (hinv : BatchInv b c)
    (hdone : ∀ id txn, c.transactions.get id = some txn → txn.state ≠ .Active) :
    BatchInv b c.nextBatch where
  idle _ := by
    refine ⟨rfl, Option.eq_none_iff_forall_ne_some.mpr fun txn hget => ?_⟩
    obtain ⟨⟨k, hk, hid⟩, -⟩ := hinv.known _ txn hget
    have hsucc : c.batchCounter + 1 = k := TransactionJob.batchTxn_inj hid
    omega
  running _ hcurrent := nomatch hcurrent
  bounded := Nat.zero_le _
  known id txn hget := by
    obtain ⟨⟨k, hk, hid⟩, hlength, -⟩ := hinv.known id txn hget
    exact ⟨⟨k, Nat.le_succ_of_le hk, hid⟩, hlength, fun _ => hdone id txn hget⟩

theorem closeBatch_spec (hinv : BatchInv b c) (now : Time) :
    ∃ c', c.closeBatch now = .ok c' ∧ c'.batchJob = c.batchJob ∧ Later c c' ∧ BatchInv b c' ∧
      c'.currentTransactionId = none := by
  rw [closeBatch]
  cases hcurrent : c.currentTransactionId with
  | none =>
    refine ⟨c.nextBatch, rfl, rfl, .of_eq rfl, hinv.nextBatch fun id txn hget => ?_, rfl⟩
    exact (hinv.known id txn hget).2.2 (hcurrent ▸ nofun)
  | some current =>
    obtain ⟨-, txn, hget, -⟩ := hinv.running current hcurrent
    have hdecides := decidesAt_commit c current now
    have hok : ∃ c', c.commitTransactionInternal current now = .ok c' := by
      rw [commitTransactionInternal, settle, hget]
      exact ⟨_, rfl⟩
    obtain ⟨c', hok⟩ := hok
    dsimp only
    rw [hok] at hdecides ⊢
    have hinv' := hinv.of_decides (by decide) hdecides
    refine ⟨c'.nextBatch, rfl, hdecides.batchJob, hdecides.later.trans (.of_eq rfl),
      hinv'.nextBatch fun id txn' hget' => ?_, rfl⟩
    by_cases hid : id = current
    · exact hdecides.not_active (by decide) (hid ▸ hget')
    · refine (hinv'.known id txn' hget').2.2 ?_
      rw [hdecides.currentTransactionId, hcurrent, ne_eq, Option.some.injEq]
      exact Ne.symm hid

theorem joinBatch_spec (hinv : BatchInv b c) (hroom : c.currentBatchFiles.length < max 1 b)
    (fileId : String) (now : Time) :
    (c.joinBatch fileId now).2.batchJob = c.batchJob ∧ Later c (c.joinBatch fileId now).2 ∧
      BatchInv b (c.joinBatch fileId now).2 ∧
      ∃ txn, (c.joinBatch fileId now).2.transactions.get (c.joinBatch fileId now).1 = some txn ∧
        fileId ∈ txn.fileIds := by
  have hlength : (c.currentBatchFiles ++ [fileId]).length ≤ max 1 b := by
    rw [List.length_append, List.length_singleton]
    omega
  rw [joinBatch]
  cases hcurrent : c.currentTransactionId with
  | none =>
    obtain ⟨hfiles, hnone⟩ := hinv.idle hcurrent
    have hget (id : String) := get_put c (c.batchJob.batchTxn c.batchCounter) id
      (.started (c.batchJob.batchTxn c.batchCounter) fileId now)
    refine ⟨rfl, fun id txn hold => ?_, ⟨nofun, ?_, hlength, ?_⟩, ?_⟩
    · have hid : id ≠ c.batchJob.batchTxn c.batchCounter := by
        rintro rfl
        exact nomatch hnone.symm.trans hold
      exact ⟨txn, ((hget id).trans (if_neg hid)).trans hold, Grows.refl txn⟩
    · intro id hid
      cases hid
      exact ⟨rfl, _, (hget _).trans (if_pos rfl), congrArg (· ++ [fileId]) hfiles.symm⟩
    · intro id txn hsome
      have hput := (hget id).symm.trans hsome
      split_ifs at hput with hid
      · cases hput
        refine ⟨⟨_, le_rfl, hid⟩, Nat.le_max_left .., fun hother => absurd ?_ hother⟩
        exact congrArg some hid.symm
      · obtain ⟨hknown, hold, hactive⟩ := hinv.known id txn hput
        exact ⟨hknown, hold, fun _ => hactive (hcurrent ▸ nofun)⟩
    · exact ⟨_, (hget _).trans (if_pos rfl), List.mem_singleton.mpr rfl⟩
  | some current =>
    obtain ⟨hid, old, hold, hfiles⟩ := hinv.running current hcurrent
    have hget (id : String) := get_put c current id (old.addFile fileId)
    dsimp only
    rw [addTo_of_get hold]
    refine ⟨rfl, ?_, ⟨?_, ?_, hlength, ?_⟩, ?_⟩
    · exact Later.trans (.put fun old' hold' =>
        Option.some.inj (hold.symm.trans hold') ▸ Grows.addFile old fileId) (.of_eq rfl)
    · exact fun hnone => nomatch hcurrent.symm.trans hnone
    · intro id hsome
      cases hcurrent.symm.trans hsome
      exact ⟨hid, _, (hget _).trans (if_pos rfl), congrArg (· ++ [fileId]) hfiles⟩
    · intro id txn hsome
      have hput := (hget id).symm.trans hsome
      split_ifs at hput with hcase
      · cases hput
        refine ⟨⟨_, le_rfl, hcase.trans hid⟩, ?_, fun hother => absurd ?_ hother⟩
        · exact (congrArg (fun files => (files ++ [fileId]).length) hfiles).trans_le hlength
        · exact hcurrent.trans (congrArg some hcase.symm)
      · exact hinv.known id txn hput
    · exact ⟨_, (hget _).trans (if_pos rfl), List.mem_append_right _ (List.mem_singleton.mpr rfl)⟩

theorem begin_batched (hmode : c.batchJob.transactionMode = .Batched b) (hinv : BatchInv b c)
    (fileId : String) (now : Time) :
    ∃ id c', c.beginTransaction fileId now = .ok (id, c') ∧ c'.batchJob = c.batchJob ∧ Later c c' ∧
      BatchInv b c' ∧ ∃ txn, c'.transactions.get id = some txn ∧ fileId ∈ txn.fileIds := by
  rw [beginTransaction, hmode]
  dsimp only
  split_ifs with hfull
  · obtain ⟨closed, hclosed, hjob, hlater, hinv', hnone⟩ := closeBatch_spec hinv now
    have hroom : closed.currentBatchFiles.length < max 1 b := by
      rw [(hinv'.idle hnone).1, List.length_nil]
      omega
    obtain ⟨hjob', hlater', hinv'', htxn⟩ := joinBatch_spec hinv' hroom fileId now
    rw [hclosed]
    exact ⟨_, _, rfl, hjob'.trans hjob, hlater.trans hlater', hinv'', htxn⟩
  · obtain ⟨hjob', hlater', hinv'', htxn⟩ := joinBatch_spec hinv (by omega) fileId now
    exact ⟨_, _, rfl, hjob', hlater', hinv'', htxn⟩

theorem BatchInv.step (hmode : c.batchJob.transactionMode = .Batched b) (hinv : BatchInv b c)
    (s : TransactionStep) : BatchInv b (c.step s) ∧ Later c (c.step s) := by
  have hdeferred : c.batchJob.transactionMode ≠ .PerFile := hmode ▸ nofun
  match s with
  | .call (.begin fileId now) =>
    obtain ⟨id, c', hbegin, -, hlater, hinv', -⟩ := begin_batched hmode hinv fileId now
    rw [TransactionCoordinator.step, hbegin]
    exact ⟨hinv', hlater⟩
  | .call (.commit id now) =>
    rw [step_commit_deferred hdeferred]
    exact ⟨hinv, .of_eq rfl⟩
  | .call (.rollback id error now) =>
    have hdecides := step_rollback c id error now
    exact ⟨hinv.of_decides (by decide) hdecides, hdecides.later⟩
  | .finalize success now =>
    cases hcurrent : c.currentTransactionId with
    | none =>
      rw [step_finalize_none hdeferred hcurrent]
      exact ⟨hinv, .of_eq rfl⟩
    | some current =>
      have hdecides := step_finalize_some hdeferred hcurrent success now
      exact ⟨hinv.of_decides (lastOutcome_ne success) hdecides, hdecides.later⟩

/-! ## Runs -/

def ModeInv (c : TransactionCoordinator) : Prop :=
  match c.batchJob.transactionMode with
  | .PerFile => OwnInv c
  | .AllOrNothing => SharedInv c
  | .Batched b => BatchInv b c

theorem modeInv_new (job : TransactionJob) : ModeInv (new job) := by
  rw [ModeInv]
  cases (new job).batchJob.transactionMode with
  | PerFile => exact nofun
  | AllOrNothing => exact ⟨fun _ _ => rfl, nofun, nofun⟩
  | Batched b => exact ⟨fun _ => ⟨rfl, rfl⟩, nofun, Nat.zero_le _, nofun⟩

theorem step_batchJob (hinv : ModeInv c) (s : TransactionStep) :
    (c.step s).batchJob = c.batchJob := by
  rw [ModeInv] at hinv
  match s with
  | .call (.begin fileId now) =>
    cases hmode : c.batchJob.transactionMode with
    | PerFile => rw [step_begin_own hmode]; rfl
    | AllOrNothing =>
      rw [hmode] at hinv
      exact (step_begin_shared hmode hinv fileId now).1
    | Batched b =>
      rw [hmode] at hinv
      obtain ⟨id, c', hbegin, hjob, -⟩ := begin_batched hmode hinv fileId now
      rw [step, hbegin]
      exact hjob
  | .call (.commit id now) =>
    by_cases hmode : c.batchJob.transactionMode = .PerFile
    · exact (step_commit_own hmode id now).batchJob
    · rw [step_commit_deferred hmode]
  | .call (.rollback id error now) => exact (step_rollback c id error now).batchJob
  | .finalize success now =>
    by_cases hmode : c.batchJob.transactionMode = .PerFile
    · rw [step_finalize_own hmode]
    · cases hcurrent : c.currentTransactionId with
      | none => rw [step_finalize_none hmode hcurrent]
      | some current => exact (step_finalize_some hmode hcurrent success now).batchJob

theorem ModeInv.step (hinv : ModeInv c) (s : TransactionStep) :
    ModeInv (c.step s) ∧ (c.InTime s → Later c (c.step s)) := by
  have hjob := step_batchJob hinv s
  rw [ModeInv] at hinv ⊢
  rw [hjob]
  cases hmode : c.batchJob.transactionMode with
  | PerFile =>
    rw [hmode] at hinv
    exact ⟨OwnInv.step hmode hinv s, OwnInv.later hmode hinv⟩
  | AllOrNothing =>
    rw [hmode] at hinv
    exact ⟨(SharedInv.step hmode hinv s).1, fun _ => (SharedInv.step hmode hinv s).2⟩
  | Batched b =>
    rw [hmode] at hinv
    exact ⟨(BatchInv.step hmode hinv s).1, fun _ => (BatchInv.step hmode hinv s).2⟩

theorem ModeInv.foldl (hinv : ModeInv c) (steps : List TransactionStep) :
    ModeInv (steps.foldl TransactionCoordinator.step c) ∧
      (steps.foldl TransactionCoordinator.step c).batchJob = c.batchJob := by
  induction steps generalizing c with
  | nil => exact ⟨hinv, rfl⟩
  | cons s steps ih =>
    obtain ⟨hinv', hjob⟩ := ih (hinv.step s).1
    exact ⟨hinv', hjob.trans (step_batchJob hinv s)⟩

theorem modeInv_after (job : TransactionJob) (steps : List TransactionStep) :
    ModeInv (after job steps) :=
  ((modeInv_new job).foldl steps).1

theorem batchJob_after (job : TransactionJob) (steps : List TransactionStep) :
    (after job steps).batchJob = job :=
  ((modeInv_new job).foldl steps).2

theorem mode_after (job : TransactionJob) (steps : List TransactionStep) :
    (after job steps).batchJob.transactionMode = job.transactionMode := by
  rw [batchJob_after]

theorem after_append (job : TransactionJob) (before mid : List TransactionStep) :
    after job (before ++ mid) = mid.foldl step (after job before) :=
  List.foldl_append ..

theorem ownInv_after (hmode : job.transactionMode = .PerFile) (steps : List TransactionStep) :
    OwnInv (after job steps) := by
  have hinv := modeInv_after job steps
  rwa [ModeInv, batchJob_after, hmode] at hinv

theorem sharedInv_after (hmode : job.transactionMode = .AllOrNothing)
    (steps : List TransactionStep) : SharedInv (after job steps) := by
  have hinv := modeInv_after job steps
  rwa [ModeInv, batchJob_after, hmode] at hinv

theorem batchInv_after (hmode : job.transactionMode = .Batched b) (steps : List TransactionStep) :
    BatchInv b (after job steps) := by
  have hinv := modeInv_after job steps
  rwa [ModeInv, batchJob_after, hmode] at hinv

theorem later_foldl (hinv : ModeInv c) {steps : List TransactionStep}
    (htime : OkAlong (fun c s => some (step c s)) InTime c steps) :
    Later c (steps.foldl step c) := by
  induction steps generalizing c with
  | nil => exact .of_eq rfl
  | cons s steps ih =>
    rw [okAlong_cons_total] at htime
    exact ((hinv.step s).2 htime.1).trans (ih (hinv.step s).1 htime.2)

theorem later_of_prefix {steps before mid : List TransactionStep}
    (htime : OkAlong (fun c s => some (step c s)) InTime (new job) steps)
    (hpre : before ++ mid <+: steps) : Later (after job before) (after job (before ++ mid)) := by
  obtain ⟨rest, rfl⟩ := hpre
  rw [List.append_assoc, okAlong_append_total, okAlong_append_total] at htime
  rw [after_append]
  exact later_foldl (modeInv_after job before) htime.2.1

theorem begin_spec (hinv : ModeInv c) (fileId : String) (now : Time) :
    ∃ id c', c.beginTransaction fileId now = .ok (id, c') ∧
      ∃ txn, c'.transactions.get id = some txn ∧ fileId ∈ txn.fileIds := by
  rw [ModeInv] at hinv
  cases hmode : c.batchJob.transactionMode with
  | PerFile =>
    refine ⟨_, _, begin_own hmode fileId now, _, (get_put ..).trans (if_pos rfl), ?_⟩
    exact List.mem_singleton.mpr rfl
  | AllOrNothing =>
    rw [hmode] at hinv
    obtain ⟨c', txn, hbegin, -, -, -, hget, hmem, -⟩ := begin_shared hmode hinv fileId now
    exact ⟨_, c', hbegin, txn, hget, hmem⟩
  | Batched b =>
    rw [hmode] at hinv
    obtain ⟨id, c', hbegin, -, -, -, htxn⟩ := begin_batched hmode hinv fileId now
    exact ⟨id, c', hbegin, htxn⟩

/-! ## Files that nobody settles -/

theorem step_own_active (c : TransactionCoordinator) (fileId : String)
    (hmode : c.batchJob.transactionMode = .PerFile) (call : TransactionCall)
    (hsettles : ¬ call.Settles (c.batchJob.fileTxn fileId))
    (hactive : ∃ txn, c.transactions.get (c.batchJob.fileTxn fileId) = some txn ∧
      txn.state = .Active) :
    ∃ txn, (c.step (.call call)).transactions.get (c.batchJob.fileTxn fileId) = some txn ∧
      txn.state = .Active := by
  cases call with
  | begin fileId' now =>
    rw [step_begin_own hmode, get_put]
    split_ifs
    · exact ⟨_, rfl, rfl⟩
    · exact hactive
  | commit id now => rwa [(step_commit_own hmode id now).get_of_ne (Ne.symm hsettles)]
  | rollback id error now => rwa [(step_rollback c id error now).get_of_ne (Ne.symm hsettles)]

theorem active_of_unsettled (fileId : String) (before : List TransactionCall) (now : Time)
    (hmode : job.transactionMode = .PerFile) {rest : List TransactionCall}
    (hrest : ∀ call ∈ rest, ¬ call.Settles (job.fileTxn fileId)) :
    ∃ txn, (after job ((before ++ .begin fileId now :: rest).map .call)).transactions.get
      (job.fileTxn fileId) = some txn ∧ txn.state = .Active := by
  induction rest using List.reverseRecOn with
  | nil =>
    rw [List.map_append, List.map_cons, List.map_nil, after_append]
    have hjob := batchJob_after job (before.map .call)
    have hmode' := (mode_after job (before.map .call)).trans hmode
    rw [List.foldl_cons, List.foldl_nil, step_begin_own hmode', get_put, hjob, if_pos rfl]
    exact ⟨_, rfl, rfl⟩
  | append_singleton rest call ih =>
    have hactive := ih fun call hcall => hrest call (List.mem_append_left _ hcall)
    rw [← List.cons_append, ← List.append_assoc, List.map_append, after_append]
    have hjob := batchJob_after job ((before ++ .begin fileId now :: rest).map .call)
    have hcall := @step_own_active (after job ((before ++ .begin fileId now :: rest).map .call)) fileId
    rw [hjob] at hcall
    exact hcall hmode call (hrest call (List.mem_append_right _ (List.mem_singleton.mpr rfl))) hactive

theorem unsettled_of_active (hmode : job.transactionMode = .PerFile) {calls : List TransactionCall}
    (hget : (after job (calls.map .call)).transactions.get (job.fileTxn fileId) = some txn)
    (hactive : txn.state = .Active) :
    ∃ before now rest, calls = before ++ .begin fileId now :: rest ∧
      ∀ call ∈ rest, ¬ call.Settles (job.fileTxn fileId) := by
  induction calls using List.reverseRecOn generalizing txn with
  | nil => exact nomatch hget
  | append_singleton calls call ih =>
    have hjob := batchJob_after job (calls.map .call)
    have hmode' := (mode_after job (calls.map .call)).trans hmode
    rw [List.map_append, after_append] at hget
    have hextend {txn' : TransactionInfo} (hsettles : ¬ call.Settles (job.fileTxn fileId))
        (hget' : (after job (calls.map .call)).transactions.get (job.fileTxn fileId) = some txn')
        (hactive' : txn'.state = .Active) :
        ∃ before now rest, calls ++ [call] = before ++ .begin fileId now :: rest ∧
          ∀ call ∈ rest, ¬ call.Settles (job.fileTxn fileId) := by
      obtain ⟨before, now, rest, rfl, hrest⟩ := ih hget' hactive'
      refine ⟨before, now, rest ++ [call], List.append_assoc .., ?_⟩
      intro other hother
      rcases List.mem_append.mp hother with hother | hother
      · exact hrest other hother
      · exact List.mem_singleton.mp hother ▸ hsettles
    cases call with
    | begin fileId' now =>
      have hstep := (congrArg (fun c => c.transactions.get (job.fileTxn fileId))
        (step_begin_own hmode' fileId' now)).symm.trans hget
      rw [get_put, hjob] at hstep
      split_ifs at hstep with hfile
      · rw [TransactionJob.fileTxn_inj hfile]
        exact ⟨calls, now, [], rfl, nofun⟩
      · exact hextend id hstep hactive
    | commit id now =>
      have hdecides := step_commit_own hmode' id now
      by_cases hid : id = job.fileTxn fileId
      · exact absurd hactive (hdecides.not_active (by decide) (hid ▸ hget))
      · exact hextend hid
          ((hdecides.get_of_ne (Ne.symm hid)).symm.trans hget) hactive
    | rollback id error now =>
      have hdecides := step_rollback (after job (calls.map .call)) id error now
      by_cases hid : id = job.fileTxn fileId
      · exact absurd hactive (hdecides.not_active (by decide) (hid ▸ hget))
      · exact hextend hid
          ((hdecides.get_of_ne (Ne.symm hid)).symm.trans hget) hactive

/-! ## The boundaries -/

variable {calls : List TransactionCall} {success : Bool}

theorem after_steps (job : TransactionJob) (calls : List TransactionCall) (success : Bool)
    (now : Time) : after job (steps calls success now) =
      (after job (calls.map .call)).step (.finalize success now) :=
  after_append ..

theorem map_of_prefix {before : List TransactionStep} {call : TransactionCall}
    (hpre : before ++ [.call call] <+: steps calls success now) :
    ∃ first rest, before = first.map .call ∧ calls = first ++ call :: rest := by
  obtain hlast | hcalls := List.prefix_concat_iff.mp hpre
  · exact nomatch (List.append_inj' hlast rfl).2
  · obtain ⟨rest, hrest⟩ := hcalls
    rw [List.append_assoc, List.singleton_append] at hrest
    obtain ⟨first, others, rfl, hfirst, hothers⟩ := List.map_eq_append_iff.mp hrest.symm
    obtain ⟨call', rest', rfl, hcall, -⟩ := List.map_eq_cons_iff.mp hothers
    cases hcall
    exact ⟨first, rest', hfirst.symm, rfl⟩

theorem closed_of_settled (hsettled : AllSettled job calls)
    (hget : (after job (steps calls success now)).transactions.get id = some txn) :
    txn.state ≠ .Active := by
  rw [after_steps] at hget
  by_cases hmode : job.transactionMode = .PerFile
  · rw [step_finalize_own ((mode_after ..).trans hmode)] at hget
    obtain ⟨-, fileId, hid, -⟩ := ownInv_after hmode _ id txn hget
    rw [batchJob_after] at hid
    subst hid
    intro hactive
    obtain ⟨before, now, rest, hcalls, hrest⟩ := unsettled_of_active hmode hget hactive
    obtain ⟨call, hcall, hsettles⟩ := hsettled hmode before fileId now rest hcalls
    exact hrest call hcall hsettles
  · have hmode' : (after job (calls.map .call)).batchJob.transactionMode ≠ .PerFile := by
      rwa [mode_after]
    cases hcurrent : (after job (calls.map .call)).currentTransactionId with
    | none =>
      rw [step_finalize_none hmode' hcurrent] at hget
      cases hcase : job.transactionMode with
      | PerFile => exact absurd hcase hmode
      | AllOrNothing =>
        exact nomatch ((sharedInv_after hcase _).idle hcurrent id).symm.trans hget
      | Batched b =>
        exact ((batchInv_after hcase _).known id txn hget).2.2 (hcurrent ▸ nofun)
    | some current =>
      have hdecides := step_finalize_some hmode' hcurrent success now
      by_cases hid : id = current
      · exact hdecides.not_active (lastOutcome_ne success) (hid ▸ hget)
      · rw [hdecides.get_of_ne hid] at hget
        cases hcase : job.transactionMode with
        | PerFile => exact absurd hcase hmode
        | AllOrNothing =>
          have hshared := sharedInv_after hcase (calls.map .call)
          exact absurd ((hshared.only id txn hget).trans (hshared.running current hcurrent).1.symm) hid
        | Batched b =>
          refine ((batchInv_after hcase _).known id txn hget).2.2 ?_
          rw [hcurrent, ne_eq, Option.some.injEq]
          exact Ne.symm hid

theorem uncommitted_after (hmode : job.transactionMode = .AllOrNothing)
    (calls : List TransactionCall) : Uncommitted (after job (calls.map .call)) := by
  induction calls using List.reverseRecOn with
  | nil => exact nofun
  | append_singleton calls call ih =>
    rw [List.map_append, after_append]
    exact ih.call ((mode_after ..).trans hmode) (sharedInv_after hmode _) call

theorem shared_of_mode (hmode : job.transactionMode = .AllOrNothing)
    (hget : (after job (steps calls success now)).transactions.get id = some txn) :
    id = job.allTxn ∧ (txn.state = .Committed → success = true) := by
  have hid := (sharedInv_after hmode _).only id txn hget
  rw [batchJob_after] at hid
  refine ⟨hid, fun hcommitted => ?_⟩
  rw [after_steps] at hget
  have hdeferred : (after job (calls.map .call)).batchJob.transactionMode ≠ .PerFile := by
    rw [mode_after, hmode]
    exact nofun
  have huncommitted := uncommitted_after hmode calls
  cases hcurrent : (after job (calls.map .call)).currentTransactionId with
  | none =>
    rw [step_finalize_none hdeferred hcurrent] at hget
    exact absurd hcommitted (huncommitted id txn hget)
  | some current =>
    obtain ⟨old, hold, -, hsame | hlast⟩ :=
      (step_finalize_some hdeferred hcurrent success now).origin hget
    · exact absurd (hsame.symm.trans hcommitted) (huncommitted id old hold)
    · cases success with
      | true => rfl
      | false => exact nomatch hlast.symm.trans hcommitted

theorem rolledBack_step {error : String}
    (hmissed : ∀ txn ∈ c.transactions.get id, txn.state ≠ .Committed)
    (hok : c.rollbackTransaction id error now = .ok c') :
    ∃ txn, (c.step (.call (.rollback id error now))).transactions.get id = some txn ∧
      txn.state ≠ .Active ∧ txn.state ≠ .Committed := by
  have hdecides := step_rollback c id error now
  have hfound : ∃ old, c.transactions.get id = some old := by
    rw [rollbackTransaction, settle] at hok
    cases hget : c.transactions.get id with
    | none =>
      rw [hget] at hok
      exact nomatch hok
    | some old => exact ⟨old, rfl⟩
  obtain ⟨txn, hget⟩ := (hdecides.isSome_iff id).mpr hfound
  refine ⟨txn, hget, hdecides.not_active nofun hget, ?_⟩
  obtain ⟨old, hold, -, hstate | hstate⟩ := hdecides.origin hget
  · exact hstate ▸ hmissed old hold
  · rw [hstate]
    exact nofun

theorem boundaries_of_inTime
    (htime : OkAlong (fun c s => some (step c s)) InTime (new job) (steps calls success now))
    (hsettled : AllSettled job calls) : Boundaries job calls success now where
  begun before fileId moment mid hpre := by
    obtain ⟨id, c', hbegin, txn, hget, hmem⟩ := begin_spec (modeInv_after job before) fileId moment
    have hstep : after job (before ++ [.call (.begin fileId moment)]) = c' := by
      rw [after_append, List.foldl_cons, List.foldl_nil, step, hbegin]
      rfl
    rw [← List.singleton_append, ← List.append_assoc] at hpre
    obtain ⟨txn', hget', hgrows⟩ := later_of_prefix htime hpre id txn (hstep ▸ hget)
    rw [List.append_assoc, List.singleton_append] at hget'
    exact ⟨id, c', hbegin, txn', hget', hgrows.files hmem⟩
  kept before mid hpre id txn hget hdecided := by
    obtain ⟨txn', hget', hgrows⟩ := later_of_prefix htime hpre id txn hget
    refine ⟨txn', hget', hgrows.settled fun hactive => ?_⟩
    rw [hactive] at hdecided
    exact absurd hdecided (by decide)
  closed _ _ hget := closed_of_settled hsettled hget
  shared hmode _ _ hget := shared_of_mode hmode hget
  bounded _ hmode before _ id txn hget := ((batchInv_after hmode before).known id txn hget).2.1
  rolledBack hmode before id error moment hpre hok txn hget := by
    obtain ⟨c', hok⟩ := hok
    have hmissed : ∀ txn ∈ (after job before).transactions.get id, txn.state ≠ .Committed := by
      cases hcase : job.transactionMode with
      | PerFile => exact absurd hcase hmode
      | AllOrNothing =>
        obtain ⟨first, rest, rfl, -⟩ := map_of_prefix hpre
        exact fun txn hmem => uncommitted_after hcase first id txn hmem
      | Batched b =>
        refine (forall_step_iff_okAlong ..).mpr htime before _ hpre ⟨b, ?_⟩
        exact (mode_after ..).trans hcase
    obtain ⟨txn', hget', hactive, hcommitted⟩ := rolledBack_step hmissed hok
    obtain ⟨rest, hrest⟩ := hpre
    have hstep : after job (before ++ [.call (.rollback id error moment)]) =
        (after job before).step (.call (.rollback id error moment)) := after_append ..
    have hall : before ++ [.call (.rollback id error moment)] ++ rest <+: steps calls success now :=
      hrest ▸ List.prefix_rfl
    obtain ⟨txn'', hget'', hgrows⟩ := later_of_prefix htime hall id txn' (hstep ▸ hget')
    rw [hrest] at hget''
    cases hget.symm.trans hget''
    rw [hgrows.settled hactive]
    exact hcommitted

theorem inTime_of_boundaries (h : Boundaries job calls success now) :
    OkAlong (fun c s => some (step c s)) InTime (new job) (steps calls success now) := by
  refine (forall_step_iff_okAlong ..).mp fun before s hpre => ?_
  match s with
  | .call (.begin fileId moment) =>
    intro hmode old hold hdecided
    obtain ⟨txn, hget, hstate⟩ := h.kept before [.call (.begin fileId moment)] hpre _ old hold hdecided
    have hstep := step_begin_own hmode fileId moment
    rw [after_append, List.foldl_cons, List.foldl_nil, show after job before = before.foldl step
      (new job) from rfl, hstep, get_put, if_pos rfl] at hget
    cases hget
    rw [← hstate] at hdecided
    exact hdecided.elim nofun nofun
  | .call (.commit _ _) => exact trivial
  | .call (.rollback id error moment) =>
    rintro ⟨b, hmode⟩ old hold hcommitted
    have hbatched : job.transactionMode = .Batched b := (mode_after ..).symm.trans hmode
    have hok : ∃ c', (after job before).rollbackTransaction id error moment = .ok c' := by
      rw [rollbackTransaction, settle]
      rw [show (after job before).transactions.get id = some old from hold]
      exact ⟨_, rfl⟩
    obtain ⟨rest, hrest⟩ := hpre
    rw [List.append_assoc] at hrest
    obtain ⟨txn, hget, hstate⟩ := h.kept before ([.call (.rollback id error moment)] ++ rest)
      (hrest ▸ List.prefix_rfl) id old hold (.inl hcommitted)
    rw [hrest] at hget
    refine h.rolledBack (hbatched ▸ nofun) before id error moment ?_ hok txn hget
      (hstate.trans hcommitted)
    exact ⟨rest, (List.append_assoc ..).trans hrest⟩
  | .finalize _ _ => exact trivial

theorem allSettled_of_boundaries (h : Boundaries job calls success now) : AllSettled job calls := by
  intro hmode before fileId moment rest hcalls
  by_contra hnone
  push Not at hnone
  obtain ⟨txn, hget, hactive⟩ := active_of_unsettled fileId before moment hmode hnone
  rw [← hcalls] at hget
  refine h.closed (job.fileTxn fileId) txn ?_ hactive
  rw [after_steps, step_finalize_own ((mode_after ..).trans hmode)]
  exact hget

/-- The coordinator keeps its boundaries exactly when no file is begun again after its transaction
was decided, no batch is rolled back after it was committed, and every file with a transaction of
its own is committed or rolled back. -/
theorem boundaries_iff (job : TransactionJob) (calls : List TransactionCall) (success : Bool)
    (now : Time) : Boundaries job calls success now ↔
      OkAlong (fun c s => some (step c s)) InTime (new job) (steps calls success now) ∧
        AllSettled job calls :=
  ⟨fun h => ⟨inTime_of_boundaries h, allSettled_of_boundaries h⟩,
    fun h => boundaries_of_inTime h.1 h.2⟩

/-- A file that failed and is retried: its rolled back transaction is open again, then committed. -/
theorem retried_outcome_changes : ¬ Boundaries ⟨"job", .PerFile⟩
    [.begin "f" 0, .rollback "txn_job_f" "bad row" 1, .begin "f" 2, .commit "txn_job_f" 3] true 4 := by
  intro h
  obtain ⟨txn, hget, hstate⟩ := h.kept
    [.call (.begin "f" 0), .call (.rollback "txn_job_f" "bad row" 1)] [.call (.begin "f" 2)]
    (by simp [steps]) "txn_job_f" ⟨"txn_job_f", .RolledBack, ["f"], some 0, some 1, some "bad row"⟩
    (by decide +kernel) (by decide)
  have hactive : (after ⟨"job", .PerFile⟩ [.call (.begin "f" 0),
      .call (.rollback "txn_job_f" "bad row" 1), .call (.begin "f" 2)]).transactions.get "txn_job_f" =
      some ⟨"txn_job_f", .Active, ["f"], some 2, none, none⟩ := by
    decide +kernel
  cases hactive.symm.trans hget
  exact nomatch hstate

end Arcxa.Engine.TransactionCoordinator
