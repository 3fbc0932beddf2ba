import Arcxa.Wal.Coordinator.Outcome
import Arcxa.Wal.Recovery

/-!
# Two replays of one log

After a crash the log is replayed twice, by `RecoveryManager::recover_transactions` and
by `WalCoordinator::recover`. Both keep, for each transaction, what its last marker
says. They part at transactions that are prepared and no more: the manager aborts them
("conservative"), the coordinator commits them ("PREPARED transactions MUST commit").

`outcomesAgree_iff` says that this is the only difference: on the log of any run, the
two outcomes of a transaction that has begun agree exactly when its last marker is not
`Prepare`.
-/

namespace Arcxa.Wal

variable {E : Type}

/-- The final outcome of a transaction. -/
inductive Outcome where
  | committed | aborted
  deriving DecidableEq, Repr

/-! ## The coordinator's replay -/

namespace WalCoordinator

/-- `if let Some(state) = tx_states.get_mut(..)`, with the LSN that every marker adds. -/
def updateState (states : AList (fun _ : Nat => TransactionState E)) (txId : Nat)
    (status : TransactionStatus) (lsn : Nat) : AList (fun _ : Nat => TransactionState E) :=
  match states.lookup txId with
  | some state => states.insert txId { state with status, lsns := state.lsns ++ [lsn] }
  | none => states

/-- One round of `reconstruct_transaction_states`. -/
def reconstructEntry (states : AList (fun _ : Nat => TransactionState E)) (e : WalEntry E) :
    AList (fun _ : Nat => TransactionState E) :=
  match e.payload with
  | .Transaction (.Begin txId _) =>
    states.insert txId
      { participants := [], entries := [e], lsns := [e.header.lsn], status := .Active,
        parentTx := none }
  | .Transaction (.Prepare txId _) => updateState states txId .Prepared e.header.lsn
  | .Transaction (.Commit txId _) => updateState states txId .Committed e.header.lsn
  | .Transaction (.Abort txId _) => updateState states txId .Aborted e.header.lsn
  | _ => states

/-- `reconstruct_transaction_states`. -/
def reconstructTransactionStates (entries : List (WalEntry E)) :
    AList (fun _ : Nat => TransactionState E) :=
  entries.foldl reconstructEntry ∅

/-- The decision match of `recover`. -/
def recoveryDecision : TransactionStatus → Option Outcome
  | .Prepared | .Committing => some .committed
  | .Aborting | .Active => some .aborted
  | .Committed => some .committed
  | .Aborted => some .aborted
  | .Preparing => none

end WalCoordinator

/-! ## Outcomes -/

def TransactionRecovery.outcome (tx : TransactionRecovery) : Option Outcome :=
  match tx.decision, tx.status with
  | .Commit, _ => some .committed
  | .Abort, _ => some .aborted
  | .Skip, .Committed => some .committed
  | .Skip, .Aborted => some .aborted
  | _, _ => none

/-- The outcome of a transaction after `recover_transactions`. -/
def managerOutcome (entries : List (WalEntry E)) (txId : Nat) : Option Outcome :=
  ((Recovery.recoverTransactions entries).find? (fun tx => tx.txId = txId)).bind
    TransactionRecovery.outcome

def coordinatorOutcome (entries : List (WalEntry E)) (txId : Nat) : Option Outcome :=
  ((WalCoordinator.reconstructTransactionStates entries).lookup txId).bind
    (fun state => WalCoordinator.recoveryDecision state.status)

/-- Both replays settle the transaction, and in the same way. -/
def OutcomesAgree (entries : List (WalEntry E)) (txId : Nat) : Prop :=
  ∃ outcome, managerOutcome entries txId = some outcome ∧
    coordinatorOutcome entries txId = some outcome

/-! ## Replaying markers -/

def markersIn (entries : List (WalEntry E)) (txId : Nat) : List Marker :=
  entries.filterMap (markerOf txId)

def managerMark (tx : Option (TransactionRecoveryStatus × RecoveryDecision)) :
    Marker → Option (TransactionRecoveryStatus × RecoveryDecision)
  | .begin => some (.Active, .Abort)
  | .prepare => tx.map (fun p => (.Prepared, p.2))
  | .commit => tx.map (fun _ => (.Committed, .Skip))
  | .abort => tx.map (fun _ => (.Aborted, .Skip))

def coordinatorMark (status : Option TransactionStatus) : Marker → Option TransactionStatus
  | .begin => some .Active
  | .prepare => status.map (fun _ => .Prepared)
  | .commit => status.map (fun _ => .Committed)
  | .abort => status.map (fun _ => .Aborted)

def onMarker {σ : Type} (mark : σ → Marker → σ) (x : σ) : Option Marker → σ
  | none => x
  | some m => mark x m

theorem foldl_markersIn {σ : Type} (mark : σ → Marker → σ) (txId : Nat)
    (entries : List (WalEntry E)) (x : σ) :
    (markersIn entries txId).foldl mark x =
      entries.foldl (fun x e => onMarker mark x (markerOf txId e)) x := by
  induction entries generalizing x with
  | nil => rfl
  | cons e entries ih =>
    rw [List.foldl_cons, ← ih]
    unfold markersIn
    rw [List.filterMap_cons]
    cases markerOf txId e <;> rfl

/-! ### The coordinator -/

namespace WalCoordinator

def statusIn (states : AList (fun _ : Nat => TransactionState E)) (txId : Nat) :
    Option TransactionStatus :=
  (states.lookup txId).map (fun state => state.status)

theorem statusIn_updateState (states : AList (fun _ : Nat => TransactionState E))
    (txId txId' : Nat) (status : TransactionStatus) (lsn : Nat) :
    statusIn (updateState states txId' status lsn) txId =
      if txId' = txId then (statusIn states txId).map (fun _ => status)
      else statusIn states txId := by
  unfold statusIn updateState
  by_cases h : txId' = txId
  · subst h
    cases hlookup : states.lookup txId' with
    | none => simp [hlookup]
    | some state => simp
  · cases hlookup : states.lookup txId' with
    | none => simp [h]
    | some state => simp [h, AList.lookup_insert_ne (Ne.symm h)]

theorem statusIn_reconstructEntry (states : AList (fun _ : Nat => TransactionState E))
    (e : WalEntry E) (txId : Nat) :
    statusIn (reconstructEntry states e) txId =
      onMarker coordinatorMark (statusIn states txId) (markerOf txId e) := by
  unfold reconstructEntry markerOf
  cases e.payload with
  | Transaction op =>
    cases op with
    | Begin txId' timeoutMs =>
      by_cases h : txId' = txId
      · subst h
        simp [statusIn, TransactionOp.txId, TransactionOp.marker, onMarker, coordinatorMark]
      · simp [statusIn, TransactionOp.txId, onMarker, h, AList.lookup_insert_ne (Ne.symm h)]
    | Prepare txId' participants | Commit txId' commitLsn | Abort txId' reason =>
      simp only [statusIn_updateState, TransactionOp.txId, TransactionOp.marker]
      by_cases h : txId' = txId
      · simp [h, onMarker, coordinatorMark]
      · simp [h, onMarker]
  | Lineage | LineageBatch | QualityViolation | RdfTriple | RdfTripleBatch | RdfUpdate
  | StorageWrite | Checkpoint | Raw => rfl

theorem statusIn_reconstruct (entries : List (WalEntry E)) (txId : Nat) :
    statusIn (reconstructTransactionStates entries) txId =
      (markersIn entries txId).foldl coordinatorMark none := by
  rw [foldl_markersIn, reconstructTransactionStates]
  have hgen : ∀ states : AList (fun _ : Nat => TransactionState E),
      statusIn (entries.foldl reconstructEntry states) txId =
        entries.foldl (fun x e => onMarker coordinatorMark x (markerOf txId e))
          (statusIn states txId) := by
    induction entries with
    | nil => exact fun _ => rfl
    | cons e entries ih =>
      intro states
      rw [List.foldl_cons, ih, statusIn_reconstructEntry]
      rfl
  exact hgen ∅

end WalCoordinator

/-! ### The recovery manager -/

namespace Recovery

def markIn (r : Replay) (txId : Nat) : Option (TransactionRecoveryStatus × RecoveryDecision) :=
  (r.transactions.lookup txId).map (fun tx => (tx.status, tx.decision))

def Filed (r : Replay) : Prop := ∀ txId tx, r.transactions.lookup txId = some tx → tx.txId = txId

open Replay

theorem markIn_update (r : Replay) (txId txId' : Nat)
    (f : TransactionRecovery → TransactionRecovery) :
    markIn (r.update txId' f) txId =
      if txId' = txId then
        (r.transactions.lookup txId).map (fun tx => ((f tx).status, (f tx).decision))
      else markIn r txId := by
  unfold markIn update
  by_cases h : txId' = txId
  · subst h
    cases hlookup : r.transactions.lookup txId' with
    | none => simp [hlookup]
    | some tx => simp
  · cases hlookup : r.transactions.lookup txId' with
    | none => simp [h]
    | some tx => simp [h, AList.lookup_insert_ne (Ne.symm h)]

variable {r : Replay}

theorem filed_update (h : Filed r) {txId : Nat} {f : TransactionRecovery → TransactionRecovery}
    (hf : ∀ tx, (f tx).txId = tx.txId) : Filed (r.update txId f) := by
  unfold update
  cases hlookup : r.transactions.lookup txId with
  | none => exact h
  | some tx =>
    intro txId' tx' htx'
    dsimp only at htx'
    by_cases hid : txId' = txId
    · subst hid
      rw [AList.lookup_insert] at htx'
      cases htx'
      rw [hf]
      exact h _ _ hlookup
    · rw [AList.lookup_insert_ne hid] at htx'
      exact h _ _ htx'

theorem markIn_mark (r : Replay) (op : TransactionOp) (txId : Nat) :
    markIn (r.mark op) txId =
      onMarker managerMark (markIn r txId) (if op.txId = txId then some op.marker else none) := by
  cases op with
  | Begin txId' timeoutMs =>
    by_cases h : txId' = txId
    · subst h
      simp [markIn, mark, TransactionOp.txId, TransactionOp.marker, onMarker, managerMark]
    · simp [markIn, mark, TransactionOp.txId, onMarker, h,
        AList.lookup_insert_ne (Ne.symm h)]
  | Prepare txId' participants | Commit txId' commitLsn | Abort txId' reason =>
    simp only [mark, markIn_update, TransactionOp.txId, TransactionOp.marker]
    by_cases h : txId' = txId
    · simp [h, onMarker, managerMark, markIn, Function.comp_def]
    · simp [h, onMarker, markIn]

theorem filed_mark (h : Filed r) (op : TransactionOp) : Filed (r.mark op) := by
  cases op with
  | Begin txId' timeoutMs =>
    intro txId tx htx
    by_cases hid : txId = txId'
    · subst hid
      simp only [mark, AList.lookup_insert] at htx
      cases htx
      rfl
    · simp only [mark, AList.lookup_insert_ne hid] at htx
      exact h _ _ htx
  | Prepare txId' participants => exact filed_update h (fun _ => rfl)
  | Commit txId' commitLsn =>
    exact filed_update (r := { r with committedTxs := r.committedTxs ++ [txId'] }) h (fun _ => rfl)
  | Abort txId' reason =>
    exact filed_update (r := { r with abortedTxs := r.abortedTxs ++ [txId'] }) h (fun _ => rfl)

theorem markIn_track (r : Replay) (e : WalEntry E) (txId : Nat) :
    markIn (r.track e) txId = markIn r txId := by
  unfold track
  cases e.transaction with
  | none => rfl
  | some ctx =>
    simp only [markIn_update]
    split
    · rfl
    · rfl

theorem markIn_entry (r : Replay) (e : WalEntry E) (txId : Nat) :
    markIn (r.entry e) txId = onMarker managerMark (markIn r txId) (markerOf txId e) := by
  unfold entry
  rw [markIn_track]
  unfold payload markerOf
  cases e.payload with
  | Transaction op => exact markIn_mark r op txId
  | Lineage | LineageBatch | QualityViolation | RdfTriple | RdfTripleBatch | RdfUpdate
  | StorageWrite | Checkpoint | Raw => rfl

theorem filed_entry (h : Filed r) (e : WalEntry E) : Filed (r.entry e) := by
  have hmarked : Filed (r.payload e) := by
    unfold payload
    cases e.payload with
    | Transaction op => exact filed_mark h op
    | Lineage | LineageBatch | QualityViolation | RdfTriple | RdfTripleBatch | RdfUpdate
    | StorageWrite | Checkpoint | Raw => exact h
  unfold entry track
  cases e.transaction with
  | none => exact hmarked
  | some ctx => exact filed_update hmarked (fun _ => rfl)

variable (entries : List (WalEntry E))

theorem markIn_foldl (r : Replay) (txId : Nat) :
    markIn (entries.foldl Replay.entry r) txId =
      (markersIn entries txId).foldl managerMark (markIn r txId) := by
  rw [foldl_markersIn]
  induction entries generalizing r with
  | nil => rfl
  | cons e entries ih => rw [List.foldl_cons, ih, markIn_entry, List.foldl_cons]

theorem filed_foldl (h : Filed r) : Filed (entries.foldl Replay.entry r) := by
  induction entries generalizing r with
  | nil => exact h
  | cons e entries ih => exact ih (filed_entry h e)

theorem decide_eq_self {tx : TransactionRecovery}
    (h : tx.status = .Prepared ∨ tx.status = .Active → tx.decision = .Abort) :
    r.decide tx = tx := by
  obtain ⟨txId, status, entries, decision⟩ := tx
  unfold Replay.decide
  split
  · cases status with
    | Active =>
      cases h (.inr rfl)
      rfl
    | Prepared =>
      cases h (.inl rfl)
      rfl
    | Committed | Aborted => rfl
  · rfl

theorem find_values {m : AList (fun _ : Nat => TransactionRecovery)}
    {f : TransactionRecovery → TransactionRecovery}
    (hfiled : ∀ p ∈ m.entries, (f p.2).txId = p.1) (txId : Nat) :
    (m.entries.map (fun p => f p.2)).find? (fun tx => tx.txId = txId) = (m.lookup txId).map f := by
  unfold AList.lookup
  generalize m.entries = entries at hfiled ⊢
  induction entries with
  | nil => rfl
  | cons p entries ih =>
    have hhead : (f p.2).txId = p.1 := hfiled p List.mem_cons_self
    have htail := ih (fun q hq => hfiled q (List.mem_cons_of_mem _ hq))
    obtain ⟨k, tx⟩ := p
    rw [List.map_cons, List.find?_cons]
    by_cases h : k = txId
    · subst h
      simp [hhead]
    · rw [List.dlookup_cons_ne _ _ (Ne.symm h)]
      simp only [hhead, h, decide_false]
      exact htail

theorem managerOutcome_eq (txId : Nat)
    (hsound : ∀ p, (markersIn entries txId).foldl managerMark none = some p →
      p.1 = .Prepared ∨ p.1 = .Active → p.2 = .Abort) :
    managerOutcome entries txId =
      ((markersIn entries txId).foldl managerMark none).bind
        (fun p => TransactionRecovery.outcome ⟨txId, p.1, [], p.2⟩) := by
  unfold managerOutcome recoverTransactions
  dsimp only
  generalize hr : entries.foldl entry ⟨∅, [], []⟩ = r
  have hfiled : Filed r := by
    rw [← hr]
    refine filed_foldl entries ?_
    intro txId tx htx
    cases htx
  have hmark : markIn r txId = (markersIn entries txId).foldl managerMark none := by
    rw [← hr, markIn_foldl]
    rfl
  have hvalues : ∀ p ∈ r.transactions.entries, (r.decide p.2).txId = p.1 := by
    intro p hp
    have hid : p.2.txId = p.1 := hfiled _ _ (AList.mem_lookup_iff.mpr hp)
    rw [← hid]
    unfold Replay.decide
    split
    · split <;> rfl
    · rfl
  rw [find_values hvalues, ← hmark]
  unfold markIn
  cases htx : r.transactions.lookup txId with
  | none => rfl
  | some tx =>
    have hself : r.decide tx = tx := by
      refine decide_eq_self ?_
      refine hsound (tx.status, tx.decision) ?_
      rw [← hmark, markIn, htx]
      rfl
    simp only [Option.map_some, Option.bind_some, hself]
    rfl

end Recovery

open WalCoordinator

theorem coordinatorOutcome_eq (entries : List (WalEntry E)) (txId : Nat) :
    coordinatorOutcome entries txId =
      ((markersIn entries txId).foldl coordinatorMark none).bind
        WalCoordinator.recoveryDecision := by
  rw [← statusIn_reconstruct]
  unfold coordinatorOutcome statusIn
  cases (reconstructTransactionStates entries).lookup txId <;> rfl

/-! ## The language of a transaction's markers -/

theorem foldl_managerMark_aborts (n : Nat) (p : TransactionRecoveryStatus × RecoveryDecision) :
    (List.replicate n Marker.abort).foldl managerMark (some p) =
      if n = 0 then some p else some (.Aborted, .Skip) := by
  induction n generalizing p with
  | zero => rfl
  | succ n ih =>
    rw [List.replicate_succ, List.foldl_cons, managerMark, Option.map_some, ih]
    split <;> rfl

theorem foldl_coordinatorMark_aborts (n : Nat) (status : TransactionStatus) :
    (List.replicate n Marker.abort).foldl coordinatorMark (some status) =
      if n = 0 then some status else some .Aborted := by
  induction n generalizing status with
  | zero => rfl
  | succ n ih =>
    rw [List.replicate_succ, List.foldl_cons, coordinatorMark, Option.map_some, ih]
    split <;> rfl

theorem outcomesAgree_of_aborts {entries : List (WalEntry E)} {txId : Nat}
    (h : Life.Aborts (markersIn entries txId)) :
    OutcomesAgree entries txId ↔ (markersIn entries txId).getLast? ≠ some .prepare := by
  obtain ⟨base, n, hbase, hms⟩ := h
  have hmanager := Recovery.managerOutcome_eq entries txId
  unfold OutcomesAgree
  rw [coordinatorOutcome_eq]
  rw [hms] at hmanager ⊢
  cases n with
  | zero =>
    -- no abort: the base decides
    simp only [List.replicate_zero, List.append_nil] at hmanager ⊢
    rcases hbase with rfl | rfl | rfl
    all_goals
      rw [hmanager (by simp [managerMark])]
      simp [managerMark, coordinatorMark, TransactionRecovery.outcome,
        recoveryDecision]
  | succ n =>
    -- the last abort settles it for both
    have hlast : (base ++ List.replicate (n + 1) Marker.abort).getLast? = some .abort := by
      rw [List.replicate_succ', ← List.append_assoc, List.getLast?_concat]
    rw [hlast]
    rw [List.foldl_append] at hmanager ⊢
    rcases hbase with rfl | rfl | rfl
    all_goals
      simp only [List.foldl_cons, List.foldl_nil, managerMark, coordinatorMark, Option.map_some,
        foldl_managerMark_aborts, foldl_coordinatorMark_aborts] at hmanager ⊢
      rw [hmanager (by simp)]
      simp [TransactionRecovery.outcome, recoveryDecision]

/-! ## Logs of runs -/

namespace WalCoordinator

variable {fmt : Format E} {s s' : WalCoordinator E}

variable {a : CoordinatorAction E}

theorem step_tasks (h : step fmt s a = some s') :
    s'.tasks = s.tasks ∨ ∃ txId, s'.tasks = s.tasks.erase txId ∨
      (∃ op stage, (∀ lsn, stage ≠ .reserved lsn) ∧
        s'.tasks = s.tasks.insert txId { op, stage }) ∨
      ∃ op, s'.wal = { s.wal with
          currentLsn := s.wal.currentLsn + (op.entries txId).length } ∧
        s'.tasks = s.tasks.insert txId { op, stage := .reserved s.wal.currentLsn } := by
  cases a with
  | connectStorage =>
    cases h
    exact .inl rfl
  | beginTransaction now =>
    cases h
    exact .inr ⟨_, .inr (.inl ⟨_, _, by simp, rfl⟩)⟩
  | request txId req now =>
    obtain rfl | ⟨tx, tx', op, -, -, -, rfl⟩ := step_request h
    · exact .inl rfl
    · exact .inr ⟨_, .inr (.inl ⟨_, _, by simp, rfl⟩)⟩
  | reserve txId available =>
    obtain ⟨op, -, rfl | rfl⟩ := step_reserve h
    · exact .inr ⟨_, .inl rfl⟩
    · exact .inr ⟨_, .inr (.inr ⟨op, rfl, rfl⟩)⟩
  | write txId io syncOk rotateOk =>
    obtain ⟨op, lsn, k, wal, -, -, -, rfl | ⟨-, hdone⟩⟩ := step_write h
    · exact .inr ⟨_, .inl rfl⟩
    rcases complete_cases hdone with ⟨_, -, rfl⟩ | ⟨_, _, _, _, -, -, rfl⟩ |
      ⟨_, _, _, -, -, rfl⟩ | ⟨_, _, -, rfl⟩ | ⟨_, _, _, -, -, rfl⟩
    · exact .inr ⟨_, .inl rfl⟩
    · exact .inr ⟨_, .inl rfl⟩
    · exact .inr ⟨_, .inl rfl⟩
    · exact .inr ⟨_, .inr (.inl ⟨_, _, by simp, rfl⟩)⟩
    · exact .inr ⟨_, .inr (.inl ⟨_, _, by simp, rfl⟩)⟩
  | store txId failedAfter =>
    obtain ⟨op, tx, events, -, -, rfl | rfl | rfl⟩ := step_store h
    · exact .inr ⟨_, .inl rfl⟩
    · exact .inr ⟨_, .inr (.inl ⟨_, _, by simp, rfl⟩)⟩
    · exact .inr ⟨_, .inr (.inl ⟨_, _, by simp, rfl⟩)⟩
  | publish txId ok =>
    obtain ⟨op, tx, -, -, ⟨-, rfl⟩ | ⟨-, rfl⟩⟩ := step_publish h
    · exact .inr ⟨_, .inr (.inl ⟨_, _, by simp, rfl⟩)⟩
    · exact .inr ⟨_, .inl rfl⟩
  | remove txId =>
    obtain ⟨op, -, rfl⟩ := step_remove h
    exact .inr ⟨_, .inl rfl⟩
  | background work =>
    obtain ⟨w', -, rfl⟩ := Option.map_eq_some_iff.mp h
    exact .inl rfl

theorem reserved_step (h : step fmt s a = some s') {t lsn : Nat}
    {op : Operation E} (ht : s'.tasks.lookup t = some ⟨op, .reserved lsn⟩) :
    s.tasks.lookup t = some ⟨op, .reserved lsn⟩ ∨
      lsn = s.wal.currentLsn ∧
        s'.wal = { s.wal with currentLsn := s.wal.currentLsn + (op.entries t).length } := by
  rcases step_tasks h with hsame | ⟨txId, herase | ⟨op', stage, hstage, hinsert⟩ |
    ⟨op', hwal, hinsert⟩⟩
  · exact .inl (hsame ▸ ht)
  · by_cases hid : t = txId
    · rw [herase, hid, AList.lookup_erase] at ht
      cases ht
    · rw [herase, AList.lookup_erase_ne hid] at ht
      exact .inl ht
  · by_cases hid : t = txId
    · rw [hinsert, hid, AList.lookup_insert] at ht
      cases ht
      exact absurd rfl (hstage lsn)
    · rw [hinsert, AList.lookup_insert_ne hid] at ht
      exact .inl ht
  · by_cases hid : t = txId
    · subst hid
      rw [hinsert, AList.lookup_insert] at ht
      cases ht
      exact .inr ⟨rfl, hwal⟩
    · rw [hinsert, AList.lookup_insert_ne hid] at ht
      exact .inl ht

theorem step_written (h : step fmt s a = some s') :
    (s'.wal.written = s.wal.written ∧ s.wal.currentLsn ≤ s'.wal.currentLsn) ∨
      ∃ txId op lsn k, s.tasks.lookup txId = some ⟨op, .reserved lsn⟩ ∧
        FileWal.Wrote fmt s.wal s'.wal lsn (op.entries txId) k := by
  cases a with
  | connectStorage | beginTransaction =>
    cases h
    exact .inl ⟨rfl, le_refl _⟩
  | request txId req now =>
    obtain rfl | ⟨tx, tx', op, -, -, -, rfl⟩ := step_request h <;> exact .inl ⟨rfl, le_refl _⟩
  | reserve txId available =>
    obtain ⟨op, -, rfl | rfl⟩ := step_reserve h
    · exact .inl ⟨rfl, le_refl _⟩
    · exact .inl ⟨rfl, Nat.le_add_right _ _⟩
  | write txId io syncOk rotateOk =>
    obtain ⟨op, lsn, k, wal, htask, hw, -, hres⟩ := step_write h
    have hwal : s'.wal = wal := by
      rcases hres with rfl | ⟨-, hdone⟩
      · rfl
      · rcases complete_cases hdone with ⟨_, -, rfl⟩ | ⟨_, _, _, _, -, -, rfl⟩ |
          ⟨_, _, _, -, -, rfl⟩ | ⟨_, _, -, rfl⟩ | ⟨_, _, _, -, -, rfl⟩ <;> rfl
    rw [hwal]
    exact .inr ⟨txId, op, lsn, k, htask, hw⟩
  | store txId failedAfter =>
    obtain ⟨op, tx, events, -, -, rfl | rfl | rfl⟩ := step_store h <;>
      exact .inl ⟨rfl, le_refl _⟩
  | publish txId ok =>
    obtain ⟨op, tx, -, -, ⟨-, rfl⟩ | ⟨-, rfl⟩⟩ := step_publish h
    · exact .inl ⟨commitBatch_written _ _, (FileWal.commitBatch_currentLsn _).ge⟩
    · exact .inl ⟨rfl, le_refl _⟩
  | remove txId =>
    obtain ⟨op, -, rfl⟩ := step_remove h
    exact .inl ⟨rfl, le_refl _⟩
  | background work =>
    obtain ⟨w', hw, rfl⟩ := Option.map_eq_some_iff.mp h
    obtain ⟨hwritten, -, hlsn⟩ := background_frame hw
    exact .inl ⟨hwritten, hlsn.ge⟩

/-! ### LSNs grow along the markers of a transaction -/

def isMarkerOf (txId : Nat) (e : WalEntry E) : Bool := (markerOf txId e).isSome

/-- LSNs grow along the markers of each transaction, and an operation in progress holds larger
ones than its transaction has logged. -/
structure MarkersOrdered (s : WalCoordinator E) : Prop where
  written_lt : ∀ p ∈ s.wal.written, p.2.header.lsn < s.wal.currentLsn
  reserved : ∀ t op lsn, s.tasks.lookup t = some ⟨op, .reserved lsn⟩ →
    lsn + (op.entries t).length ≤ s.wal.currentLsn ∧
    ∀ p ∈ s.wal.written, isMarkerOf t p.2 → p.2.header.lsn < lsn
  sorted : ∀ t, ((s.wal.written.map Prod.snd).filter (isMarkerOf t)).Pairwise
    (fun e e' => e.header.lsn < e'.header.lsn)

theorem not_isMarkerOf_of_markersOf_nil {log : List (Nat × WalEntry E)} {t : Nat}
    (h : markersOf log t = []) {p : Nat × WalEntry E} (hp : p ∈ log) : ¬ isMarkerOf t p.2 := by
  unfold isMarkerOf
  rw [List.filterMap_eq_nil_iff.mp h p hp]
  simp

theorem markersOf_step_of_reserved (hfresh : Fresh s)
    (h : step fmt s a = some s') {t lsn : Nat} {op : Operation E}
    (hs : s.tasks.lookup t = some ⟨op, .reserved lsn⟩)
    (hs' : s'.tasks.lookup t = some ⟨op, .reserved lsn⟩) :
    markersOf s'.wal.written t = markersOf s.wal.written t := by
  rcases step_life hfresh h t with heq | hmove
  · exact congrArg Life.markers heq
  · -- every move out of `reserved` ends it
    rw [life_eq rfl hs rfl rfl, life_eq rfl hs' rfl rfl] at hmove
    generalize (s.transactions.lookup t).map (fun tx => tx.status) = status at hmove
    generalize (s'.transactions.lookup t).map (fun tx => tx.status) = status' at hmove
    cases hmove

theorem sorted_wrote {txId lsn k : Nat} {op : Operation E} {wal : FileWal E}
    (hs : MarkersOrdered s) (htask : s.tasks.lookup txId = some ⟨op, .reserved lsn⟩)
    (hw : FileWal.Wrote fmt s.wal wal lsn (op.entries txId) k) (t : Nat) :
    ((wal.written.map Prod.snd).filter (isMarkerOf t)).Pairwise
      (fun e e' => e.header.lsn < e'.header.lsn) := by
  have hnew : (FileWal.stampedFrom fmt lsn ((op.entries txId).take k)).Pairwise
      (fun e e' => e.header.lsn < e'.header.lsn) := by
    have hrange := List.pairwise_lt_range' (s := lsn) (n := ((op.entries txId).take k).length)
    rw [← FileWal.map_lsn_stampedFrom fmt, List.pairwise_map] at hrange
    exact hrange
  rw [hw.written, List.map_append, List.filter_append, List.map_map, List.pairwise_append]
  refine ⟨hs.sorted t, ?_, ?_⟩
  · refine List.Pairwise.filter _ ?_
    simpa [Function.comp_def] using hnew
  · intro e he e' he'
    obtain ⟨he, hmarker⟩ := List.mem_filter.mp he
    obtain ⟨p, hp, rfl⟩ := List.mem_map.mp he
    obtain ⟨he', hmarker'⟩ := List.mem_filter.mp he'
    obtain ⟨e'', he'', rfl⟩ := List.mem_map.mp he'
    have hle := (hw.lsn_mem he'').1
    by_cases ht : t = txId
    · subst ht
      exact lt_of_lt_of_le ((hs.reserved t op lsn htask).2 p hp hmarker) hle
    · -- the operation logs no marker of another transaction
      have hnone := (markersOf_wrote fmt hw).1 t ht
      rw [hw.written, markersOf_append, List.append_right_eq_self] at hnone
      exact absurd hmarker' (not_isMarkerOf_of_markersOf_nil hnone (List.mem_map_of_mem he''))

theorem markersOrdered_step (hfresh : Fresh s)
    (hs : MarkersOrdered s) (h : step fmt s a = some s') : MarkersOrdered s' := by
  rcases step_written h with ⟨hwritten, hle⟩ | ⟨txId, op, lsn, k, htask, hw⟩
  · -- the log is the same; an operation that takes LSNs takes them from the counter
    refine ⟨?_, ?_, by rw [hwritten]; exact hs.sorted⟩
    · intro p hp
      rw [hwritten] at hp
      exact lt_of_lt_of_le (hs.written_lt p hp) hle
    · intro t op lsn ht
      rw [hwritten]
      rcases reserved_step h ht with hold | ⟨rfl, hwal⟩
      · obtain ⟨hbound, hbelow⟩ := hs.reserved t op lsn hold
        exact ⟨le_trans hbound hle, hbelow⟩
      · rw [hwal]
        exact ⟨le_refl _, fun p hp _ => hs.written_lt p hp⟩
  refine ⟨?_, ?_, sorted_wrote hs htask hw⟩
  · intro p hp
    rw [hw.currentLsn]
    rcases hw.mem_written hp with hold | ⟨e, he, rfl⟩
    · exact hs.written_lt p hold
    · have hlsn := (hw.lsn_mem he).2
      have hle := hw.le
      have hbound := (hs.reserved txId op lsn htask).1
      dsimp only
      omega
  · intro t op' lsn' ht
    rcases reserved_step h ht with hheld | ⟨rfl, hwal⟩
    · obtain ⟨hbound, hbelow⟩ := hs.reserved t op' lsn' hheld
      refine ⟨by rw [hw.currentLsn]; exact hbound, ?_⟩
      intro p hp hmarker
      have hsame := markersOf_step_of_reserved hfresh h hheld ht
      rw [hw.written, markersOf_append, List.append_right_eq_self] at hsame
      rw [hw.written] at hp
      rcases List.mem_append.mp hp with hp | hp
      · exact hbelow p hp hmarker
      · exact absurd hmarker (not_isMarkerOf_of_markersOf_nil hsame hp)
    · rw [hwal]
      exact ⟨le_refl _, fun p hp _ => hs.written_lt p hp⟩

theorem markersOrdered_reaches {config : WalConfig}
    {ok : WalCoordinator E → CoordinatorAction E → Prop}
    (h : Reaches (step fmt) ok (new config) s) : MarkersOrdered s := by
  refine h.invariant' ?_ ?_
  · exact ⟨by simp [new, FileWal.new], by simp [new], by simp [new, FileWal.new]⟩
  · intro s a s' hreach hs _ hstep
    exact markersOrdered_step (orderly_reaches hreach).fresh hs hstep

/-! ### The log in file order and in LSN order -/

/-- The entries of the log, in the order in which they stand in the files or in the order of
their LSNs. -/
def LogOf (s : WalCoordinator E) (entries : List (WalEntry E)) : Prop :=
  entries = s.wal.written.map Prod.snd ∨
    entries.Perm (s.wal.written.map Prod.snd) ∧
      entries.Pairwise (fun e e' => e.header.lsn < e'.header.lsn)

theorem markersIn_filter (entries : List (WalEntry E)) (t : Nat) :
    markersIn (entries.filter (isMarkerOf t)) t = markersIn entries t := by
  unfold markersIn
  rw [List.filterMap_filter]
  congr 1
  funext e
  unfold isMarkerOf
  cases markerOf t e <;> rfl

theorem LogOf.markersIn_eq (hs : MarkersOrdered s) {entries : List (WalEntry E)}
    (h : s.LogOf entries) (t : Nat) : markersIn entries t = markersOf s.wal.written t := by
  have hfile : markersIn (s.wal.written.map Prod.snd) t = markersOf s.wal.written t := by
    unfold markersIn markersOf
    rw [List.filterMap_map]
    rfl
  rcases h with rfl | ⟨hperm, hsorted⟩
  · exact hfile
  rw [← hfile, ← markersIn_filter, ← markersIn_filter (s.wal.written.map Prod.snd)]
  congr 1
  refine (hperm.filter _).eq_of_pairwise ?_ (hsorted.filter _) (hs.sorted t)
  intro e e' _ _ hlt hgt
  omega

/-- **The two replays agree exactly off the in-doubt transactions.** For the log of every run,
in either order, and every transaction with a `Begin` record: recovery manager and coordinator
settle it in the same way if and only if its last marker is not `Prepare`. -/
theorem outcomesAgree_iff {config : WalConfig} (hreach : Reaches (step fmt) anyStep (new config) s)
    {entries : List (WalEntry E)} (hlog : s.LogOf entries) {t : Nat}
    (hbegin : Marker.begin ∈ markersIn entries t) :
    OutcomesAgree entries t ↔ (markersIn entries t).getLast? ≠ some .prepare := by
  refine outcomesAgree_of_aborts ?_
  rw [hlog.markersIn_eq (markersOrdered_reaches hreach)] at hbegin ⊢
  rcases markers_language hreach t with hnil | haborts
  · rw [hnil] at hbegin
    cases hbegin
  · exact haborts

/-! ## Concrete runs -/

def inDoubtRun : List (CoordinatorAction Nat) :=
  [.beginTransaction 0] ++ appendRun 1 ++ [.request 1 .prepare 0] ++ appendRun 1

/-- The in-doubt transaction, aborted after all: its log is replayed to one outcome. -/
theorem outcomesAgree_after_abort :
    ∃ s, exec (step bincode) (new sampleConfig)
        (inDoubtRun ++ [.request 1 (.abort "User requested") 0] ++ appendRun 1) = some s ∧
      OutcomesAgree (s.wal.written.map Prod.snd) 1 := by
  apply exists_exec
    (fun s => markersIn (s.wal.written.map Prod.snd) 1 = [.begin, .prepare, .abort])
    (by decide +kernel)
  intro s hexec hq
  have hreach : Reaches (step bincode) anyStep (new sampleConfig) s :=
    Reaches.of_exec (okAlong_anyStep _ _ _) hexec
  refine (outcomesAgree_iff hreach (.inl rfl) ?_).mpr ?_
  · rw [hq]
    decide
  · rw [hq]
    decide

/-- The log of a transaction that is prepared and no more: the recovery manager aborts it and
the coordinator commits it. -/
theorem replays_disagree_in_doubt :
    ∃ s, exec (step bincode) (new sampleConfig) inDoubtRun = some s ∧
      managerOutcome (s.wal.written.map Prod.snd) 1 = some .aborted ∧
      coordinatorOutcome (s.wal.written.map Prod.snd) 1 = some .committed ∧
      ¬ OutcomesAgree (s.wal.written.map Prod.snd) 1 := by
  apply exists_exec
    (fun s => managerOutcome (s.wal.written.map Prod.snd) 1 = some .aborted ∧
      coordinatorOutcome (s.wal.written.map Prod.snd) 1 = some .committed) (by decide +kernel)
  intro s _ hq
  obtain ⟨hmanager, hcoordinator⟩ := hq
  refine ⟨hmanager, hcoordinator, ?_⟩
  rintro ⟨outcome, haborted, hcommitted⟩
  rw [hmanager] at haborted
  rw [hcoordinator, ← haborted] at hcommitted
  cases hcommitted

end WalCoordinator

end Arcxa.Wal
