import Arcxa.Lib.Transition
import Arcxa.Workflow.SpillQuota

/-!
# The storage manager

The operations of `StorageManager` cut where they take a lock: an operation reserves its bytes,
lets the backend write, reconciles the reservation with the size of the file (Parquet), and
registers the storage; if something fails it releases what it holds. A failed Parquet spill of
`store_rows` goes on as a RocksDB spill. `cleanup_execution` keeps the lock of the registered
storage from its first key to its last.

Storing one execution and step twice overwrites the registered entry without releasing it, and
the cleanup goes by the text of the keys. `Exact` is the accounting a step should leave behind
and `Careful` the condition under which it does; along every run they agree
(`spill_exact_iff_careful`).
-/

namespace Arcxa.Workflow

/-! ## Tiers -/

inductive StorageTieringPlan where
  | InMemory
  | Shared
  | RocksDb
  | Parquet
  deriving DecidableEq

structure StorageTieringThresholds where
  inMemoryRowLimit : Nat
  sharedRowLimit : Nat
  sharedByteLimit : Nat
  rocksdbRowLimit : Nat

protected def StorageTieringThresholds.default : StorageTieringThresholds where
  inMemoryRowLimit := 10000
  sharedRowLimit := 100000
  sharedByteLimit := 500000000
  rocksdbRowLimit := 1000000

def StorageTieringThresholds.plan (thresholds : StorageTieringThresholds)
    (rowCount estimatedBytes : Nat) : StorageTieringPlan :=
  if rowCount < thresholds.inMemoryRowLimit then .InMemory
  else if rowCount < thresholds.sharedRowLimit ∧ estimatedBytes < thresholds.sharedByteLimit then
    .Shared
  else if rowCount < thresholds.rocksdbRowLimit then .RocksDb
  else .Parquet

/-! ## State -/

inductive StorageEntry where
  | RocksDB
  | Parquet
  deriving DecidableEq

structure ManagedStorageEntry where
  storage : StorageEntry
  executionId : String
  reservedBytes : Nat
  deriving DecidableEq

/-- How far an operation has got, with the bytes it holds. A Parquet file has a name and a
size once it is written. -/
inductive OpPhase where
  | begun
  | writing (held : Nat)
  | written (held : Nat) (fileName : String) (fileSize : Nat)
  | ready (held : Nat) (fileName : String)
  | aborting (held : Nat)
  deriving DecidableEq

/-- An operation in flight; `estimate` is what it reserves first, and with `fallback` a failed
Parquet spill goes on as a RocksDB spill. -/
structure SpillOp where
  executionId : String
  stepId : String
  estimate : Nat
  storage : StorageEntry
  fallback : Bool
  phase : OpPhase
  deriving DecidableEq

/-- A cleanup in flight, with the keys it has still to remove. -/
structure Cleaning where
  executionId : String
  keys : List String
  deriving DecidableEq

structure StorageManager where
  quotaConfig : SpillQuotaConfig
  spillQuotaUsage : SpillQuotaUsage
  activeStorage : AList (fun _ : String => ManagedStorageEntry)
  ops : List SpillOp
  cleaning : Option Cleaning

/-- What the environment decides: the size of the rows and of a batch frame, whether a write
succeeds and what file it leaves, the order in which the keys of the map come, and whether a
deletion succeeds. -/
inductive SpillAction where
  | storeRows (executionId stepId : String) (rowCount estimatedSize : Nat)
  | createRocksStorage (executionId stepId : String) (estimatedSize : Nat)
  | createParquetStorageFromBatchFrame (executionId stepId : String) (estimatedSize : Nat)
  | reserve (i : Nat)
  | write (i : Nat) (file : Option (String × Nat))
  | reconcile (i : Nat)
  | abort (i : Nat)
  | register (i : Nat)
  | cleanup (executionId : String) (keys : List String)
  | cleanupNext (deleteOk : Bool)

/-! ## Operations -/

namespace SpillOp

def held (op : SpillOp) : Nat :=
  match op.phase with
  | .begun => 0
  | .writing held => held
  | .written held _ _ => held
  | .ready held _ => held
  | .aborting held => held

def key (op : SpillOp) (fileName : String) : String :=
  match op.storage with
  | .RocksDB => op.executionId ++ "/" ++ op.stepId
  | .Parquet => op.executionId ++ "/" ++ ("parquet/" ++ fileName)

def failed (op : SpillOp) : Option SpillOp :=
  if op.storage = .Parquet ∧ op.fallback = true then
    some { op with storage := .RocksDB, fallback := false, phase := .begun }
  else none

end SpillOp

/-- `key.starts_with(&prefix)` for the keys of an execution. -/
def isKeyOf (executionId key : String) : Bool :=
  (executionId ++ "/").toList.isPrefixOf key.toList

namespace StorageManager

def withQuotaConfig (quotaConfig : SpillQuotaConfig) : StorageManager where
  quotaConfig
  spillQuotaUsage := .default
  activeStorage := ∅
  ops := []
  cleaning := none

def begin (s : StorageManager) (executionId stepId : String) (estimate : Nat)
    (storage : StorageEntry) (fallback : Bool) : StorageManager :=
  { s with ops := s.ops ++ [{ executionId, stepId, estimate, storage, fallback, phase := .begun }] }

/-- The `i`-th operation goes on as `op`, or is over. -/
def setOp (s : StorageManager) (i : Nat) : Option SpillOp → StorageManager
  | some op => { s with ops := s.ops.set i op }
  | none => { s with ops := s.ops.eraseIdx i }

def removeKey (s : StorageManager) (key : String) : StorageManager :=
  match s.activeStorage.lookup key with
  | some entry =>
    { s with
      activeStorage := s.activeStorage.erase key
      spillQuotaUsage :=
        releaseSpillQuota s.spillQuotaUsage entry.executionId entry.reservedBytes }
  | none => s

/-- One step of some operation. -/
def step (s : StorageManager) : SpillAction → Option StorageManager
  | .storeRows executionId stepId rowCount estimatedSize =>
    match StorageTieringThresholds.default.plan rowCount estimatedSize with
    | .InMemory | .Shared => some s
    | .RocksDb => some (s.begin executionId stepId estimatedSize .RocksDB false)
    | .Parquet => some (s.begin executionId stepId estimatedSize .Parquet true)
  | .createRocksStorage executionId stepId estimatedSize =>
    some (s.begin executionId stepId estimatedSize .RocksDB false)
  | .createParquetStorageFromBatchFrame executionId stepId estimatedSize =>
    some (s.begin executionId stepId estimatedSize .Parquet false)
  | .reserve i => do
    let op ← s.ops[i]?
    guard (op.phase = .begun)
    match reserveSpillQuota s.quotaConfig s.spillQuotaUsage op.executionId op.estimate with
    | .ok usage =>
      some ({ s with spillQuotaUsage := usage }.setOp i
        (some { op with phase := .writing op.estimate }))
    -- a refused reservation has changed no counter
    | .error _ => some (s.setOp i op.failed)
  | .write i file => do
    let op ← s.ops[i]?
    match op.phase, file with
    | .writing held, some (fileName, fileSize) =>
      let phase := match op.storage with
        | .RocksDB => .ready held ""
        | .Parquet => .written held fileName fileSize
      some (s.setOp i (some { op with phase }))
    | .writing held, none => some (s.setOp i (some { op with phase := .aborting held }))
    | _, _ => none
  | .reconcile i => do
    let op ← s.ops[i]?
    match op.phase with
    | .written held fileName fileSize =>
      match reconcileSpillQuota s.quotaConfig s.spillQuotaUsage op.executionId held fileSize with
      | .ok usage =>
        some ({ s with spillQuotaUsage := usage }.setOp i
          (some { op with phase := .ready fileSize fileName }))
      -- the file is removed, and the estimate is released next
      | .error _ => some (s.setOp i (some { op with phase := .aborting held }))
    | _ => none
  | .abort i => do
    let op ← s.ops[i]?
    match op.phase with
    | .aborting held =>
      some ({ s with
        spillQuotaUsage := releaseSpillQuota s.spillQuotaUsage op.executionId held }.setOp i
          op.failed)
    | _ => none
  | .register i => do
    let op ← s.ops[i]?
    -- a cleanup holds the lock of the registered storage
    guard (s.cleaning = none)
    match op.phase with
    | .ready held fileName =>
      -- an entry under the same key is replaced and its reservation stays
      some ({ s with
        activeStorage := s.activeStorage.insert (op.key fileName)
          { storage := op.storage, executionId := op.executionId, reservedBytes := held } }.setOp i
          none)
    | _ => none
  | .cleanup executionId keys => do
    guard (s.cleaning = none)
    -- a hash map gives its keys in any order
    guard (keys.Perm (s.activeStorage.keys.filter (isKeyOf executionId)))
    some (if keys = [] then s else { s with cleaning := some { executionId, keys } })
  | .cleanupNext deleteOk => do
    let c ← s.cleaning
    match c.keys with
    | [] => none
    | key :: rest =>
      -- a failed deletion returns with the other keys still registered
      some { s.removeKey key with
        cleaning := if deleteOk ∧ rest ≠ [] then some { c with keys := rest } else none }

/-! ## Exact accounting -/

def entryHoldings (s : StorageManager) : List (String × Nat) :=
  s.activeStorage.entries.map (fun p => (p.2.executionId, p.2.reservedBytes))

def opHoldings (s : StorageManager) : List (String × Nat) :=
  s.ops.map (fun op => (op.executionId, op.held))

def holdings (s : StorageManager) : List (String × Nat) := s.entryHoldings ++ s.opHoldings

def reserved (s : StorageManager) (executionId : String) : Nat :=
  s.spillQuotaUsage.reserved executionId

def entriesOf (s : StorageManager) (executionId : String) :
    List ((_ : String) × ManagedStorageEntry) :=
  s.activeStorage.entries.filter (fun p => p.2.executionId = executionId)

/-- The total is the sum over the executions and the sum over the registered storage, together
with what the operations in flight hold, and the quotas are kept. -/
structure Accurate (s : StorageManager) : Prop where
  executions : s.spillQuotaUsage.totalReservedBytes =
    sumValues s.spillQuotaUsage.reservedBytesByExecution
  entries : s.spillQuotaUsage.totalReservedBytes = total s.entryHoldings + total s.opHoldings
  totalQuota : s.spillQuotaUsage.totalReservedBytes ≤ s.quotaConfig.maxTotalSpillBytes
  executionQuota : ∀ e, s.reserved e ≤ s.quotaConfig.maxSpillBytesPerExecution

/-- What a step of a cleanup should leave: the other executions as they were, and nothing
reserved for this one when the cleanup returns. -/
def CleansUp (s s' : StorageManager) : SpillAction → Prop
  | .cleanup executionId _ => s'.cleaning = none → s'.reserved executionId = 0
  | .cleanupNext _ => ∀ c ∈ s.cleaning,
    (∀ e, e ≠ c.executionId → s'.reserved e = s.reserved e ∧ s'.entriesOf e = s.entriesOf e) ∧
      (s'.cleaning = none → s'.reserved c.executionId = 0)
  | _ => True

def Exact (s : StorageManager) (a : SpillAction) : Prop :=
  ∀ s' ∈ s.step a, s'.Accurate ∧ s.CleansUp s' a

def Fits (s : StorageManager) (executionId : String) (bytes : Nat) : Prop :=
  s.quotaConfig.maxTotalSpillBytes < usizeMax ∨
    s.quotaConfig.maxSpillBytesPerExecution < saturatingAdd (s.reserved executionId) bytes ∨
    s.spillQuotaUsage.totalReservedBytes + bytes ≤ usizeMax

def Idle (s : StorageManager) (executionId : String) : Prop :=
  ∀ op ∈ s.ops, op.executionId = executionId → op.held = 0

/-- No addition of a granted reservation saturates; storage is registered under a new key, or
over an entry that reserves nothing; a cleanup meets only storage of its execution, and when it
returns no operation of the execution holds bytes; after a failed deletion the entries that are
left reserve nothing. -/
def Careful (s : StorageManager) : SpillAction → Prop
  | .reserve i => ∀ op ∈ s.ops[i]?, s.Fits op.executionId op.estimate
  | .reconcile i => ∀ op ∈ s.ops[i]?, ∀ held fileName fileSize,
    op.phase = .written held fileName fileSize → held < fileSize →
      s.Fits op.executionId (fileSize - held)
  | .register i => ∀ op ∈ s.ops[i]?, ∀ held fileName, op.phase = .ready held fileName →
    ∀ old ∈ s.activeStorage.lookup (op.key fileName), old.reservedBytes = 0
  | .cleanup executionId keys => keys = [] → s.Idle executionId
  | .cleanupNext deleteOk => ∀ c ∈ s.cleaning, ∀ key rest, c.keys = key :: rest →
    (∀ entry ∈ s.activeStorage.lookup key, entry.executionId = c.executionId) ∧
      (deleteOk = false ∨ rest = [] → s.Idle c.executionId) ∧
      (deleteOk = false → ∀ k ∈ rest, ∀ entry ∈ s.activeStorage.lookup k,
        entry.executionId = c.executionId → entry.reservedBytes = 0)
  | _ => True

/-! Where the condition quantifies over the parts of a phase or of a list, it is decided there. -/

instance decidableForallWritten (phase : OpPhase) (P : Nat → String → Nat → Prop)
    [∀ held fileName fileSize, Decidable (P held fileName fileSize)] :
    Decidable (∀ held fileName fileSize,
      phase = .written held fileName fileSize → P held fileName fileSize) :=
  match phase with
  | .written held fileName fileSize =>
    decidable_of_iff (P held fileName fileSize)
      ⟨fun h _ _ _ heq => by cases heq; exact h, fun h => h _ _ _ rfl⟩
  | .begun | .writing _ | .ready _ _ | .aborting _ => isTrue (fun _ _ _ heq => by cases heq)

instance decidableForallReady (phase : OpPhase) (P : Nat → String → Prop)
    [∀ held fileName, Decidable (P held fileName)] :
    Decidable (∀ held fileName, phase = .ready held fileName → P held fileName) :=
  match phase with
  | .ready held fileName =>
    decidable_of_iff (P held fileName) ⟨fun h _ _ heq => by cases heq; exact h, fun h => h _ _ rfl⟩
  | .begun | .writing _ | .written _ _ _ | .aborting _ => isTrue (fun _ _ heq => by cases heq)

instance decidableForallCons (keys : List String) (P : String → List String → Prop)
    [∀ key rest, Decidable (P key rest)] :
    Decidable (∀ key rest, keys = key :: rest → P key rest) :=
  match keys with
  | key :: rest =>
    decidable_of_iff (P key rest) ⟨fun h _ _ heq => by cases heq; exact h, fun h => h _ _ rfl⟩
  | [] => isTrue (fun _ _ heq => by cases heq)

instance decidableFits (s : StorageManager) (executionId : String) (bytes : Nat) :
    Decidable (s.Fits executionId bytes) :=
  inferInstanceAs (Decidable (_ ∨ _ ∨ _))

instance decidableIdle (s : StorageManager) (executionId : String) :
    Decidable (s.Idle executionId) :=
  inferInstanceAs (Decidable (∀ op ∈ s.ops, op.executionId = executionId → op.held = 0))

instance decidableCareful (s : StorageManager) : ∀ a, Decidable (s.Careful a)
  | .reserve i => inferInstanceAs (Decidable (∀ _ ∈ s.ops[i]?, s.Fits _ _))
  | .reconcile i => inferInstanceAs (Decidable (∀ op ∈ s.ops[i]?, ∀ held fileName fileSize,
      op.phase = .written held fileName fileSize → _ → s.Fits _ _))
  | .register i => inferInstanceAs (Decidable (∀ op ∈ s.ops[i]?, ∀ held fileName,
      op.phase = .ready held fileName → ∀ _ ∈ s.activeStorage.lookup (op.key fileName), _ = _))
  | .cleanup _ _ => inferInstanceAs (Decidable (_ → s.Idle _))
  | .cleanupNext _ => inferInstanceAs (Decidable (∀ c ∈ s.cleaning, ∀ key rest,
      c.keys = key :: rest → (∀ _ ∈ s.activeStorage.lookup key, _ = _) ∧ (_ ∨ _ → s.Idle _) ∧
        (_ → ∀ k ∈ rest, ∀ _ ∈ s.activeStorage.lookup k, _ → _)))
  | .storeRows .. | .createRocksStorage .. | .createParquetStorageFromBatchFrame ..
  | .write .. | .abort _ => inferInstanceAs (Decidable True)

/-! ## What a step does to the holdings -/

variable {i : Nat}

section Holdings

variable {s : StorageManager}

theorem total_holdings (s : StorageManager) :
    total s.holdings = total s.entryHoldings + total s.opHoldings := by
  rw [holdings, total, List.map_append, List.sum_append]
  rfl

theorem accurate_of_accounts (h : Accounts s.quotaConfig s.spillQuotaUsage s.holdings) :
    s.Accurate where
  executions := h.sum
  entries := by rw [h.total, total_holdings]
  totalQuota := h.totalQuota
  executionQuota := h.executionQuota

@[simp] theorem setOp_quotaConfig (s : StorageManager) (i : Nat) (op : Option SpillOp) :
    (s.setOp i op).quotaConfig = s.quotaConfig := by
  cases op <;> rfl

@[simp] theorem setOp_spillQuotaUsage (s : StorageManager) (i : Nat) (op : Option SpillOp) :
    (s.setOp i op).spillQuotaUsage = s.spillQuotaUsage := by
  cases op <;> rfl

@[simp] theorem setOp_activeStorage (s : StorageManager) (i : Nat) (op : Option SpillOp) :
    (s.setOp i op).activeStorage = s.activeStorage := by
  cases op <;> rfl

@[simp] theorem setOp_cleaning (s : StorageManager) (i : Nat) (op : Option SpillOp) :
    (s.setOp i op).cleaning = s.cleaning := by
  cases op <;> rfl

/-- The holdings without those of the `i`-th operation. -/
def others (s : StorageManager) (i : Nat) : List (String × Nat) :=
  s.entryHoldings ++ (s.ops.eraseIdx i).map (fun op => (op.executionId, op.held))

theorem holdings_perm {op : SpillOp} (hget : s.ops[i]? = some op) :
    s.holdings.Perm ((op.executionId, op.held) :: s.others i) := by
  obtain ⟨hi, rfl⟩ := List.getElem?_eq_some_iff.mp hget
  have hops : s.ops.Perm (s.ops[i] :: s.ops.eraseIdx i) :=
    (List.getElem_cons_eraseIdx_perm hi).symm
  exact ((hops.map _).append_left _).trans List.perm_middle

theorem holdings_set_perm {op : SpillOp} (hget : s.ops[i]? = some op) (op' : SpillOp) :
    (s.setOp i (some op')).holdings.Perm ((op'.executionId, op'.held) :: s.others i) := by
  obtain ⟨hi, -⟩ := List.getElem?_eq_some_iff.mp hget
  have hops : (s.ops.set i op').Perm (op' :: s.ops.eraseIdx i) :=
    List.set_perm_cons_eraseIdx hi op'
  exact ((hops.map _).append_left _).trans List.perm_middle

theorem accounts_failed {op : SpillOp} {usage : SpillQuotaUsage}
    (hget : s.ops[i]? = some op) (h : Accounts s.quotaConfig usage (s.others i)) :
    Accounts s.quotaConfig usage (s.setOp i op.failed).holdings := by
  cases hfailed : op.failed with
  | none => exact h
  | some op' =>
    have hheld : op'.held = 0 := by
      unfold SpillOp.failed at hfailed
      split_ifs at hfailed
      cases hfailed
      rfl
    have hcons := (accounts_cons_zero op'.executionId).mpr h
    rw [← hheld] at hcons
    exact hcons.perm (holdings_set_perm hget op').symm

end Holdings

/-! ## One step -/

section Step

variable {s s' : StorageManager}

/-- What the runs keep: the counters are right, storage is registered under keys of its
execution, and a cleanup has the keys of its execution that are left. -/
structure Inv (s : StorageManager) : Prop where
  accounts : Accounts s.quotaConfig s.spillQuotaUsage s.holdings
  keyed : ∀ p ∈ s.activeStorage.entries, isKeyOf p.2.executionId p.1 = true
  keys : ∀ c ∈ s.cleaning, c.keys.Perm (s.activeStorage.keys.filter (isKeyOf c.executionId))

theorem inv_withQuotaConfig (quotaConfig : SpillQuotaConfig) :
    Inv (withQuotaConfig quotaConfig) where
  accounts := accounts_default
  keyed p hp := by cases hp
  keys c hc := by cases hc

theorem exact_iff {a : SpillAction} (hstep : s.step a = some s') :
    s.Exact a ↔ s'.Accurate ∧ s.CleansUp s' a := by
  unfold Exact
  rw [hstep]
  simp

theorem exact_iff_accurate {a : SpillAction} (hstep : s.step a = some s')
    (hclean : s.CleansUp s' a) : s.Exact a ↔ s'.Accurate := by
  rw [exact_iff hstep, and_iff_left hclean]

theorem Inv.of_accounts (hinv : Inv s) (hactive : s'.activeStorage = s.activeStorage)
    (hcleaning : s'.cleaning = s.cleaning)
    (haccounts : Accounts s'.quotaConfig s'.spillQuotaUsage s'.holdings) : Inv s' where
  accounts := haccounts
  keyed := hactive ▸ hinv.keyed
  keys := by
    rw [hactive, hcleaning]
    exact hinv.keys

theorem step_of_inv {a : SpillAction} (hstep : s.step a = some s') (hcareful : s.Careful a)
    (hclean : s.CleansUp s' a) (hinv : Inv s') :
    (s.Exact a ↔ s.Careful a) ∧ (s.Careful a → Inv s') := by
  refine ⟨iff_of_true ?_ hcareful, fun _ => hinv⟩
  exact (exact_iff hstep).mpr ⟨accurate_of_accounts hinv.accounts, hclean⟩

theorem inv_begin (hinv : Inv s) (executionId stepId : String) (estimate : Nat)
    (storage : StorageEntry) (fallback : Bool) :
    Inv (s.begin executionId stepId estimate storage fallback) := by
  refine hinv.of_accounts rfl rfl ?_
  have hcons := (accounts_cons_zero executionId).mpr hinv.accounts
  refine hcons.perm ?_
  show List.Perm _ (s.entryHoldings ++ List.map _ (s.ops ++ [_]))
  rw [List.map_append, ← List.append_assoc]
  exact (List.perm_append_singleton _ _).symm

variable {executionId : String}

theorem fits_of_ok {bytes : Nat} {usage : SpillQuotaUsage}
    (hok : reserveSpillQuota s.quotaConfig s.spillQuotaUsage executionId bytes = .ok usage) :
    s.Fits executionId bytes ↔ s.spillQuotaUsage.totalReservedBytes + bytes ≤ usizeMax := by
  obtain ⟨htotal, hexecution, -⟩ := reserveSpillQuota_ok hok
  constructor
  · rintro (hquota | hrefused | hfit)
    · unfold saturatingAdd at htotal
      omega
    · exact absurd hexecution (not_le.mpr hrefused)
    · exact hfit
  · exact fun hfit => .inr (.inr hfit)

theorem fits_of_error {bytes : Nat} {err : WorkflowError}
    (herr : reserveSpillQuota s.quotaConfig s.spillQuotaUsage executionId bytes = .error err) :
    s.Fits executionId bytes := by
  unfold reserveSpillQuota at herr
  dsimp only at herr
  split_ifs at herr with htotal hexecution
  · left
    unfold saturatingAdd at htotal
    omega
  · exact .inr (.inl hexecution)

theorem accurate_iff_fits {holdings : List (String × Nat)} {bytes : Nat}
    {usage : SpillQuotaUsage} (haccounts : Accounts s.quotaConfig s.spillQuotaUsage holdings)
    (hok : reserveSpillQuota s.quotaConfig s.spillQuotaUsage executionId bytes = .ok usage)
    (hconfig : s'.quotaConfig = s.quotaConfig) (husage : s'.spillQuotaUsage = usage)
    (htotal : total ((executionId, bytes) :: holdings) = total s'.holdings)
    (hof : ∀ e, totalOf e ((executionId, bytes) :: holdings) = totalOf e s'.holdings) :
    (s'.Accurate ↔ s.Fits executionId bytes) ∧
      (s.Fits executionId bytes → Accounts s'.quotaConfig s'.spillQuotaUsage s'.holdings) := by
  have hfine : s.Fits executionId bytes →
      Accounts s'.quotaConfig s'.spillQuotaUsage s'.holdings := by
    intro hfits
    rw [hconfig, husage]
    exact (haccounts.reserve ((fits_of_ok hok).mp hfits) hok).of_totals htotal hof
  refine ⟨⟨fun haccurate => ?_, fun hfits => accurate_of_accounts (hfine hfits)⟩, hfine⟩
  -- a saturated total is less than the holdings
  by_contra hfits
  rw [fits_of_ok hok, not_le] at hfits
  have hless := totalReservedBytes_of_saturated hfits hok
  have hentries := haccurate.entries
  rw [total_cons, ← haccounts.total] at htotal
  rw [← total_holdings, husage] at hentries
  omega

theorem step_reserve (hinv : Inv s) (hstep : s.step (.reserve i) = some s') :
    (s.Exact (.reserve i) ↔ s.Careful (.reserve i)) ∧ (s.Careful (.reserve i) → Inv s') := by
  rw [exact_iff_accurate hstep trivial]
  simp only [step, Option.bind_eq_bind, Option.bind_eq_some_iff, Option.guard_eq_some'] at hstep
  obtain ⟨op, hget, -, hphase, hstep⟩ := hstep
  have hheld : op.held = 0 := by rw [SpillOp.held, hphase]
  have hothers : Accounts s.quotaConfig s.spillQuotaUsage (s.others i) := by
    have hperm := hinv.accounts.perm (holdings_perm hget)
    rw [hheld] at hperm
    exact (accounts_cons_zero _).mp hperm
  have hcareful : s.Careful (.reserve i) ↔ s.Fits op.executionId op.estimate := by
    simp [Careful, hget]
  rw [hcareful]
  split at hstep
  next usage hok =>
    obtain rfl := Option.some.inj hstep
    have hholdings := (holdings_set_perm hget { op with phase := .writing op.estimate }).symm
    obtain ⟨hiff, haccounts⟩ := accurate_iff_fits hothers hok
      (setOp_quotaConfig { s with spillQuotaUsage := usage } i
        (some { op with phase := .writing op.estimate }))
      (setOp_spillQuotaUsage { s with spillQuotaUsage := usage } i _) (total_perm hholdings)
      (totalOf_perm hholdings)
    exact ⟨hiff, fun hfits => hinv.of_accounts rfl rfl (haccounts hfits)⟩
  next err herr =>
    cases hstep
    have hafter : Accounts (s.setOp i op.failed).quotaConfig (s.setOp i op.failed).spillQuotaUsage
        (s.setOp i op.failed).holdings := by
      rw [setOp_quotaConfig, setOp_spillQuotaUsage]
      exact accounts_failed hget hothers
    exact ⟨iff_of_true (accurate_of_accounts hafter) (fits_of_error herr),
      fun _ => hinv.of_accounts (setOp_activeStorage _ _ _) (setOp_cleaning _ _ _) hafter⟩

theorem accounts_setOp {op op' : SpillOp} (hinv : Inv s) (hget : s.ops[i]? = some op)
    (hexecution : op'.executionId = op.executionId) (hheld : op'.held = op.held) :
    Accounts s.quotaConfig s.spillQuotaUsage (s.setOp i (some op')).holdings := by
  have hperm := hinv.accounts.perm (holdings_perm hget)
  rw [← hexecution, ← hheld] at hperm
  exact hperm.perm (holdings_set_perm hget op').symm

theorem step_write {file : Option (String × Nat)} (hinv : Inv s)
    (hstep : s.step (.write i file) = some s') : Inv s' := by
  simp only [step, Option.bind_eq_bind, Option.bind_eq_some_iff] at hstep
  obtain ⟨op, hget, hstep⟩ := hstep
  split at hstep
  next held fileName fileSize hphase =>
    cases hstep
    refine hinv.of_accounts rfl rfl (accounts_setOp hinv hget rfl ?_)
    rw [SpillOp.held, SpillOp.held, hphase]
    cases op.storage <;> rfl
  next held hphase =>
    cases hstep
    refine hinv.of_accounts rfl rfl (accounts_setOp hinv hget rfl ?_)
    rw [SpillOp.held, SpillOp.held, hphase]
  next => cases hstep

theorem step_reconcile (hinv : Inv s) (hstep : s.step (.reconcile i) = some s') :
    (s.Exact (.reconcile i) ↔ s.Careful (.reconcile i)) ∧
      (s.Careful (.reconcile i) → Inv s') := by
  rw [exact_iff_accurate hstep trivial]
  simp only [step, Option.bind_eq_bind, Option.bind_eq_some_iff] at hstep
  obtain ⟨op, hget, hstep⟩ := hstep
  have hperm := hinv.accounts.perm (holdings_perm hget)
  split at hstep
  next held fileName fileSize hphase =>
    have hheld : op.held = held := by rw [SpillOp.held, hphase]
    have hcareful : s.Careful (.reconcile i) ↔
        (held < fileSize → s.Fits op.executionId (fileSize - held)) := by
      simp [Careful, hget, hphase]
    rw [hcareful]
    split at hstep
    next usage hok =>
      obtain rfl := Option.some.inj hstep
      rw [hheld] at hperm
      have hholdings := (holdings_set_perm hget { op with phase := .ready fileSize fileName }).symm
      -- only a file that is larger than the estimate is checked against the quotas again
      by_cases hlt : held < fileSize
      · -- the operation holds what it held and what it reserves now
        have hreserve := hok
        rw [reconcileSpillQuota, if_neg (by omega), if_pos hlt] at hreserve
        have htotal : total ((op.executionId, fileSize - held) ::
            (op.executionId, held) :: s.others i) = total ((op.executionId, fileSize) ::
              s.others i) := by
          simp only [total_cons]
          omega
        have hof : ∀ e, totalOf e ((op.executionId, fileSize - held) ::
            (op.executionId, held) :: s.others i) = totalOf e ((op.executionId, fileSize) ::
              s.others i) := by
          intro e
          simp only [totalOf_cons]
          split_ifs <;> omega
        obtain ⟨hiff, haccounts⟩ := accurate_iff_fits hperm hreserve
          (setOp_quotaConfig { s with spillQuotaUsage := usage } i
            (some { op with phase := .ready fileSize fileName }))
          (setOp_spillQuotaUsage { s with spillQuotaUsage := usage } i _)
          (htotal.trans (total_perm hholdings)) (fun e => (hof e).trans (totalOf_perm hholdings e))
        rw [forall_prop_of_true hlt]
        exact ⟨hiff, fun hfits => hinv.of_accounts rfl rfl (haccounts hfits)⟩
      · -- a release cannot saturate
        have hafter := (hperm.reconcile (fun h => absurd h hlt) hok).perm hholdings
        exact ⟨iff_of_true (accurate_of_accounts hafter) (fun h => absurd h hlt),
          fun _ => hinv.of_accounts rfl rfl hafter⟩
    next err herr =>
      obtain rfl := Option.some.inj hstep
      have hafter : Accounts s.quotaConfig s.spillQuotaUsage
          (s.setOp i (some { op with phase := .aborting held })).holdings :=
        accounts_setOp hinv hget rfl hheld.symm
      refine ⟨iff_of_true (accurate_of_accounts hafter) (fun hlt => ?_),
        fun _ => hinv.of_accounts rfl rfl hafter⟩
      rw [reconcileSpillQuota, if_neg (by omega), if_pos hlt] at herr
      exact fits_of_error herr
  next => cases hstep

theorem step_abort (hinv : Inv s) (hstep : s.step (.abort i) = some s') : Inv s' := by
  simp only [step, Option.bind_eq_bind, Option.bind_eq_some_iff] at hstep
  obtain ⟨op, hget, hstep⟩ := hstep
  have hperm := hinv.accounts.perm (holdings_perm hget)
  split at hstep
  next held hphase =>
    have hheld : op.held = held := by rw [SpillOp.held, hphase]
    rw [hheld] at hperm
    obtain rfl := Option.some.inj hstep
    refine hinv.of_accounts (setOp_activeStorage _ _ _) (setOp_cleaning _ _ _) ?_
    rw [setOp_quotaConfig, setOp_spillQuotaUsage]
    have hafter := accounts_failed hget hperm.release
    -- a Parquet spill goes on as a RocksDB spill, the other kinds are over
    generalize op.failed = next at hafter ⊢
    cases next <;> exact hafter
  next => cases hstep

theorem isKeyOf_key (op : SpillOp) (fileName : String) :
    isKeyOf op.executionId (op.key fileName) = true := by
  have happend : ∀ rest : String,
      isKeyOf op.executionId (op.executionId ++ "/" ++ rest) = true := by
    intro rest
    have hlist : (op.executionId ++ "/" ++ rest).toList =
        (op.executionId ++ "/").toList ++ rest.toList := String.toList_append
    rw [isKeyOf, List.isPrefixOf_iff_prefix, hlist]
    exact List.prefix_append _ _
  unfold SpillOp.key
  cases op.storage <;> exact happend _

theorem accounts_register {op : SpillOp} {held : Nat} {fileName : String}
    (hinv : Inv s) (hget : s.ops[i]? = some op) (hphase : op.phase = .ready held fileName)
    {t : StorageManager}
    (ht : t = { s with
      activeStorage := s.activeStorage.insert (op.key fileName)
        { storage := op.storage, executionId := op.executionId, reservedBytes := held } }.setOp i
          none) :
    match s.activeStorage.lookup (op.key fileName) with
    | some old => Accounts s.quotaConfig s.spillQuotaUsage
        ((old.executionId, old.reservedBytes) :: t.holdings)
    | none => Accounts s.quotaConfig s.spillQuotaUsage t.holdings := by
  have hperm := hinv.accounts.perm (holdings_perm hget)
  rw [show op.held = held by rw [SpillOp.held, hphase]] at hperm
  have hholdings : t.holdings = (op.executionId, held) ::
      ((s.activeStorage.erase (op.key fileName)).entries.map
        (fun p => (p.2.executionId, p.2.reservedBytes)) ++
        (s.ops.eraseIdx i).map (fun op => (op.executionId, op.held))) := by
    rw [ht]
    rfl
  rw [hholdings]
  split
  next old hold =>
    have hentries := (perm_cons_erase hold).map (fun p => (p.2.executionId, p.2.reservedBytes))
    refine hperm.perm ?_
    exact (List.Perm.cons _ (hentries.append_right _)).trans (List.Perm.swap _ _ _)
  next hnone =>
    rw [erase_of_lookup_none hnone]
    exact hperm

theorem step_register (hinv : Inv s) (hstep : s.step (.register i) = some s') :
    (s.Exact (.register i) ↔ s.Careful (.register i)) ∧ (s.Careful (.register i) → Inv s') := by
  rw [exact_iff_accurate hstep trivial]
  simp only [step, Option.bind_eq_bind, Option.bind_eq_some_iff, Option.guard_eq_some'] at hstep
  obtain ⟨op, hget, -, hidle, hstep⟩ := hstep
  split at hstep
  next held fileName hphase =>
    have hcareful : s.Careful (.register i) ↔
        ∀ old ∈ s.activeStorage.lookup (op.key fileName), old.reservedBytes = 0 := by
      simp [Careful, hget, hphase]
    have haccounts := accounts_register hinv hget hphase (Option.some.inj hstep).symm
    have hconfig : s'.quotaConfig = s.quotaConfig := by
      rw [← Option.some.inj hstep]
      rfl
    have husage : s'.spillQuotaUsage = s.spillQuotaUsage := by
      rw [← Option.some.inj hstep]
      rfl
    have hrest : Accounts s'.quotaConfig s'.spillQuotaUsage s'.holdings → Inv s' := by
      intro hafter
      refine ⟨hafter, ?_, ?_⟩
      · rw [← Option.some.inj hstep]
        intro p hp
        rcases List.mem_cons.mp hp with rfl | hmem
        · exact isKeyOf_key op fileName
        · exact hinv.keyed p ((List.kerase_sublist _ _).subset hmem)
      · rw [← Option.some.inj hstep, setOp_cleaning, hidle]
        exact fun c hc => by cases hc
    rw [hcareful]
    split at haccounts
    next old hold =>
      have hzero : (∀ old' ∈ some old, old'.reservedBytes = 0) ↔ old.reservedBytes = 0 := by simp
      rw [hold, hzero]
      have hafter : old.reservedBytes = 0 →
          Accounts s'.quotaConfig s'.spillQuotaUsage s'.holdings := by
        intro h
        rw [h] at haccounts
        rw [hconfig, husage]
        exact (accounts_cons_zero _).mp haccounts
      refine ⟨⟨fun haccurate => ?_, fun h => accurate_of_accounts (hafter h)⟩,
        fun h => hrest (hafter h)⟩
      -- the bytes of the old entry are still in the total
      have htotal := haccounts.total
      have hentries := haccurate.entries
      rw [total_cons] at htotal
      rw [← total_holdings, husage] at hentries
      omega
    next hnone =>
      rw [hnone]
      rw [← hconfig, ← husage] at haccounts
      exact ⟨iff_of_true (accurate_of_accounts haccounts) (fun old h => by cases h),
        fun _ => hrest haccounts⟩
  next => cases hstep

theorem reserved_eq_zero (haccounts : Accounts s.quotaConfig s.spillQuotaUsage s.holdings)
    (executionId : String) :
    s.reserved executionId = 0 ↔
      (∀ p ∈ s.activeStorage.entries, p.2.executionId = executionId → p.2.reservedBytes = 0) ∧
        s.Idle executionId := by
  rw [reserved, haccounts.executions, totalOf_eq_zero, holdings, List.forall_mem_append,
    entryHoldings, opHoldings, List.forall_mem_map, List.forall_mem_map]
  rfl

theorem step_cleanup {keys : List String} (hinv : Inv s)
    (hstep : s.step (.cleanup executionId keys) = some s') :
    (s.Exact (.cleanup executionId keys) ↔ s.Careful (.cleanup executionId keys)) ∧
      (s.Careful (.cleanup executionId keys) → Inv s') := by
  rw [exact_iff hstep]
  simp only [step, Option.bind_eq_bind, Option.bind_eq_some_iff, Option.guard_eq_some'] at hstep
  obtain ⟨-, hidle, -, hkeys, hstep⟩ := hstep
  obtain rfl := Option.some.inj hstep
  split_ifs with hempty
  · rw [and_iff_right (accurate_of_accounts hinv.accounts)]
    refine ⟨?_, fun _ => hinv⟩
    show (s.cleaning = none → s.reserved executionId = 0) ↔ (keys = [] → s.Idle executionId)
    rw [forall_prop_of_true hidle, forall_prop_of_true hempty, reserved_eq_zero hinv.accounts]
    refine and_iff_right ?_
    -- the storage of the execution has keys of the execution, and there are none
    intro p hp hexecution
    rw [hempty] at hkeys
    have hnone := List.filter_eq_nil_iff.mp hkeys.nil_eq.symm p.1 (List.mem_keys_of_mem hp)
    rw [← hexecution, hinv.keyed p hp] at hnone
    exact absurd rfl hnone
  · -- the cleanup has only begun, so it promises nothing yet
    have hafter : Inv { s with cleaning := some { executionId, keys } } :=
      ⟨hinv.accounts, hinv.keyed, fun c hc => by cases hc; exact hkeys⟩
    refine ⟨iff_of_true ⟨accurate_of_accounts hafter.accounts, fun h => by cases h⟩ ?_,
      fun _ => hafter⟩
    exact fun h => absurd h hempty

theorem lookup_of_mem_keys {c : Cleaning} (hinv : Inv s) (hc : s.cleaning = some c) {key : String}
    (hkey : key ∈ c.keys) : ∃ entry, s.activeStorage.lookup key = some entry := by
  have hmem := (hinv.keys c hc).mem_iff.mp hkey
  have hactive : key ∈ s.activeStorage := (List.mem_filter.mp hmem).1
  exact Option.isSome_iff_exists.mp (AList.lookup_isSome.mpr hactive)

section RemoveKey

variable {key : String} {entry : ManagedStorageEntry}

theorem removeKey_eq (hlookup : s.activeStorage.lookup key = some entry) :
    s.removeKey key =
      { s with
        activeStorage := s.activeStorage.erase key
        spillQuotaUsage :=
          releaseSpillQuota s.spillQuotaUsage entry.executionId entry.reservedBytes } := by
  rw [removeKey, hlookup]

theorem accounts_removeKey (hinv : Inv s) (hlookup : s.activeStorage.lookup key = some entry) :
    Accounts (s.removeKey key).quotaConfig (s.removeKey key).spillQuotaUsage
      (s.removeKey key).holdings := by
  rw [removeKey_eq hlookup]
  have hentries := (perm_cons_erase hlookup).map (fun p => (p.2.executionId, p.2.reservedBytes))
  exact (hinv.accounts.perm (hentries.append_right _)).release

theorem removeKey_others (hlookup : s.activeStorage.lookup key = some entry)
    (executionId : String) :
    (∀ e, e ≠ executionId → (s.removeKey key).reserved e = s.reserved e ∧
      (s.removeKey key).entriesOf e = s.entriesOf e) ↔ entry.executionId = executionId := by
  rw [removeKey_eq hlookup]
  constructor
  · intro hothers
    by_contra hne
    obtain ⟨-, hentries⟩ := hothers entry.executionId hne
    -- the entry itself is gone
    have hperm := (perm_cons_erase hlookup).filter
      (fun p => decide (p.2.executionId = entry.executionId))
    rw [List.filter_cons, if_pos (by simp)] at hperm
    have hlength := hperm.length_eq
    have hsame := congrArg List.length hentries
    unfold entriesOf at hsame
    dsimp only at hsame
    rw [List.length_cons] at hlength
    omega
  · intro hexecution e hne
    have hne' : e ≠ entry.executionId := fun h => hne (h.trans hexecution)
    refine ⟨?_, ?_⟩
    · show (releaseSpillQuota _ _ _).reserved e = _
      rw [reserved_releaseSpillQuota, if_neg hne']
      rfl
    · exact filter_erase_of_lookup hlookup
        (q := fun entry => decide (entry.executionId = e)) (by simpa using Ne.symm hne')

theorem keys_removeKey {c : Cleaning} {rest : List String} (hinv : Inv s)
    (hc : s.cleaning = some c) (hkeys : c.keys = key :: rest) :
    rest.Perm ((s.activeStorage.erase key).keys.filter (isKeyOf c.executionId)) := by
  have hperm := (hinv.keys c hc).erase key
  rw [hkeys, List.erase_cons_head] at hperm
  have hnodup : s.activeStorage.keys.Nodup := s.activeStorage.keys_nodup
  rw [(hnodup.filter _).erase_eq_filter] at hperm
  rw [AList.keys_erase, hnodup.erase_eq_filter, List.filter_comm]
  exact hperm

theorem reserved_removeKey {c : Cleaning} {rest : List String} (hinv : Inv s)
    (hc : s.cleaning = some c) (hkeys : c.keys = key :: rest)
    (hlookup : s.activeStorage.lookup key = some entry) :
    (s.removeKey key).reserved c.executionId = 0 ↔
      (∀ k ∈ rest, ∀ old ∈ s.activeStorage.lookup k, old.executionId = c.executionId →
        old.reservedBytes = 0) ∧ s.Idle c.executionId := by
  rw [reserved_eq_zero (accounts_removeKey hinv hlookup), removeKey_eq hlookup]
  refine and_congr ?_ Iff.rfl
  have hrest := keys_removeKey hinv hc hkeys
  -- the keys are distinct, so erasing this one leaves the entries of the others
  have hne : ∀ k ∈ rest, k ≠ key := by
    intro k hk
    have hmem := (List.mem_filter.mp (hrest.mem_iff.mp hk)).1
    exact (AList.mem_erase.mp hmem).1
  constructor
  · intro h k hk old hold hexecution
    have hlookup' : (s.activeStorage.erase key).lookup k = some old := by
      rw [AList.lookup_erase_ne (hne k hk)]
      exact hold
    exact h ⟨k, old⟩ (AList.mem_lookup_iff.mp hlookup') hexecution
  · intro h p hp hexecution
    have hkey : isKeyOf c.executionId p.1 = true := by
      rw [← hexecution]
      exact hinv.keyed p ((List.kerase_sublist _ _).subset hp)
    have hk : p.1 ∈ rest :=
      hrest.mem_iff.mpr (List.mem_filter.mpr ⟨List.mem_keys_of_mem hp, hkey⟩)
    have hlookup' : (s.activeStorage.erase key).lookup p.1 = some p.2 := AList.mem_lookup_iff.mpr hp
    rw [AList.lookup_erase_ne (hne p.1 hk)] at hlookup'
    exact h p.1 hk p.2 hlookup' hexecution

end RemoveKey

theorem cleansUp_cleanupNext {c : Cleaning} {key : String} {entry : ManagedStorageEntry}
    (hc : s.cleaning = some c) (hlookup : s.activeStorage.lookup key = some entry)
    (next : Option Cleaning) (deleteOk : Bool) :
    s.CleansUp { s.removeKey key with cleaning := next } (.cleanupNext deleteOk) ↔
      entry.executionId = c.executionId ∧
        (next = none → (s.removeKey key).reserved c.executionId = 0) := by
  rw [← removeKey_others hlookup c.executionId, CleansUp, hc]
  simp only [Option.mem_some_iff, forall_eq']
  rfl

theorem careful_cleanupNext {c : Cleaning} {key : String} {rest : List String}
    {entry : ManagedStorageEntry} (hc : s.cleaning = some c) (hkeys : c.keys = key :: rest)
    (hlookup : s.activeStorage.lookup key = some entry) (deleteOk : Bool) :
    s.Careful (.cleanupNext deleteOk) ↔ entry.executionId = c.executionId ∧
      (deleteOk = false ∨ rest = [] → s.Idle c.executionId) ∧
      (deleteOk = false → ∀ k ∈ rest, ∀ old ∈ s.activeStorage.lookup k,
        old.executionId = c.executionId → old.reservedBytes = 0) := by
  rw [Careful, hc]
  simp only [Option.mem_some_iff, forall_eq']
  constructor
  · intro h
    have hthis := h key rest hkeys
    rw [hlookup] at hthis
    exact ⟨hthis.1 entry rfl, hthis.2⟩
  · rintro ⟨hexecution, hleft⟩ key' rest' hkeys'
    rw [hkeys] at hkeys'
    cases hkeys'
    rw [hlookup]
    refine ⟨fun old hold => ?_, hleft⟩
    cases hold
    exact hexecution

theorem step_cleanupNext {deleteOk : Bool} (hinv : Inv s)
    (hstep : s.step (.cleanupNext deleteOk) = some s') :
    (s.Exact (.cleanupNext deleteOk) ↔ s.Careful (.cleanupNext deleteOk)) ∧
      (s.Careful (.cleanupNext deleteOk) → Inv s') := by
  rw [exact_iff hstep]
  simp only [step, Option.bind_eq_bind, Option.bind_eq_some_iff] at hstep
  obtain ⟨c, hc, hstep⟩ := hstep
  cases hkeys : c.keys with
  | nil =>
    rw [hkeys] at hstep
    cases hstep
  | cons key rest =>
    rw [hkeys] at hstep
    obtain rfl := Option.some.inj hstep
    have hmem : key ∈ c.keys := by
      rw [hkeys]
      exact List.mem_cons_self
    obtain ⟨entry, hlookup⟩ := lookup_of_mem_keys hinv hc hmem
    have haccounts := accounts_removeKey hinv hlookup
    have hleft := keys_removeKey hinv hc hkeys
    -- the counters stay right whatever the entry is; only what the cleanup promises can fail
    refine ⟨?_, fun _ => ⟨haccounts, ?_, ?_⟩⟩
    · have haccurate : StorageManager.Accurate { s.removeKey key with
          cleaning := if deleteOk = true ∧ rest ≠ [] then some { c with keys := rest } else none } :=
        accurate_of_accounts haccounts
      have hcleaned : (if deleteOk = true ∧ rest ≠ [] then
          some ({ c with keys := rest } : Cleaning) else none) = none ↔
            deleteOk = false ∨ rest = [] := by
        cases deleteOk <;> simp
      rw [cleansUp_cleanupNext hc hlookup, careful_cleanupNext hc hkeys hlookup, hcleaned,
        reserved_removeKey hinv hc hkeys hlookup]
      apply (and_iff_right haccurate).trans
      refine and_congr_right fun _ => ⟨fun h => ⟨fun hreturns => (h hreturns).2,
        fun hfailed => (h (.inl hfailed)).1⟩, ?_⟩
      rintro ⟨hidle, hentries⟩ hreturns
      refine ⟨?_, hidle hreturns⟩
      rcases hreturns with hfailed | hlast
      · exact hentries hfailed
      · rw [hlast]
        exact fun k hk => by cases hk
    · rw [removeKey_eq hlookup]
      exact fun p hp => hinv.keyed p ((List.kerase_sublist _ _).subset hp)
    · intro c' hc'
      rw [removeKey_eq hlookup]
      dsimp only at hc' ⊢
      split_ifs at hc' with hgoes
      · cases hc'
        exact hleft
      · cases hc'

theorem exact_step {a : SpillAction} (hinv : Inv s) (hstep : s.step a = some s') :
    (s.Exact a ↔ s.Careful a) ∧ (s.Careful a → Inv s') := by
  cases a with
  | storeRows executionId stepId rowCount estimatedSize =>
    refine step_of_inv hstep trivial trivial ?_
    simp only [step] at hstep
    split at hstep
    · cases hstep
      exact hinv
    · cases hstep
      exact hinv
    · cases hstep
      exact inv_begin hinv _ _ _ _ _
    · cases hstep
      exact inv_begin hinv _ _ _ _ _
  | createRocksStorage executionId stepId estimatedSize =>
    refine step_of_inv hstep trivial trivial ?_
    cases hstep
    exact inv_begin hinv _ _ _ _ _
  | createParquetStorageFromBatchFrame executionId stepId estimatedSize =>
    refine step_of_inv hstep trivial trivial ?_
    cases hstep
    exact inv_begin hinv _ _ _ _ _
  | reserve i => exact step_reserve hinv hstep
  | write i file => exact step_of_inv hstep trivial trivial (step_write hinv hstep)
  | reconcile i => exact step_reconcile hinv hstep
  | abort i => exact step_of_inv hstep trivial trivial (step_abort hinv hstep)
  | register i => exact step_register hinv hstep
  | cleanup executionId keys => exact step_cleanup hinv hstep
  | cleanupNext deleteOk => exact step_cleanupNext hinv hstep

/-- **Spill quota accounting is exact** after every step of a run exactly when every step of it
meets the condition, for every quota configuration. -/
theorem spill_exact_iff_careful (quotaConfig : SpillQuotaConfig) (actions : List SpillAction)
    (s : StorageManager) (hrun : exec step (withQuotaConfig quotaConfig) actions = some s) :
    OkAlong step Exact (withQuotaConfig quotaConfig) actions ↔
      OkAlong step Careful (withQuotaConfig quotaConfig) actions := by
  refine okAlong_congr (I := Inv) ?_ (inv_withQuotaConfig quotaConfig) hrun
  intro t a t' hinv hstep
  obtain ⟨hiff, hkeep⟩ := exact_step hinv hstep
  exact ⟨hiff, fun hexact => hkeep (hiff.mp hexact)⟩

def sampleSpill (executionId stepId : String) (bytes : Nat) : List SpillAction :=
  [.createRocksStorage executionId stepId bytes, .reserve 0, .write 0 (some ("", 0)), .register 0]

def sampleCleanup (executionId : String) (keys : List String) (deleteOk : Bool) :
    List SpillAction :=
  [.cleanup executionId keys, .cleanupNext deleteOk]

def sampleFailure : List SpillAction :=
  [.createParquetStorageFromBatchFrame "load" "read" 4096, .reserve 0,
    .createRocksStorage "other" "join" 512, .reserve 1, .write 1 none, .abort 1,
    .write 0 (some ("read_0.parquet", 1024)), .reconcile 0, .register 0]

def sampleSpills : List SpillAction :=
  sampleFailure ++ sampleSpill "other" "join" 512 ++
    sampleCleanup "load" ["load/parquet/read_0.parquet"] true

theorem spill_exact_sample :
    ∃ s, exec step (withQuotaConfig .default) sampleSpills = some s ∧
      s.reserved "load" = 0 ∧ s.reserved "other" = 512 ∧
      OkAlong step Exact (withQuotaConfig .default) sampleSpills := by
  apply exists_exec (fun s => s.reserved "load" = 0 ∧ s.reserved "other" = 512)
    (by decide +kernel)
  intro s hrun hq
  obtain ⟨hload, hother⟩ := hq
  refine ⟨hload, hother, (spill_exact_iff_careful .default sampleSpills s hrun).mpr ?_⟩
  decide +kernel

/-- One execution and step stored twice, each time with 512 bytes: with no operation in flight
1024 bytes are reserved and the registered storage has 512, and the cleanup leaves 512 reserved.
The cleanup of `a` removes the storage of the execution `a/b`; and after a deletion that fails,
the cleanup returns with storage of `a` still reserved. -/
theorem spill_quota_leaks :
    (exec step (withQuotaConfig .default)
        (sampleSpill "a" "s" 512 ++ sampleSpill "a" "s" 512)).map
          (fun s => (s.ops, s.spillQuotaUsage.totalReservedBytes, total s.entryHoldings)) =
      some ([], 1024, 512) ∧
    (exec step (withQuotaConfig .default)
        (sampleSpill "a" "s" 512 ++ sampleSpill "a" "s" 512 ++
          sampleCleanup "a" ["a/s"] true)).map
            (fun s => (s.ops, s.cleaning, s.reserved "a", s.entriesOf "a")) =
      some ([], none, 512, []) ∧
    (exec step (withQuotaConfig .default)
        (sampleSpill "a/b" "s" 512 ++ sampleCleanup "a" ["a/b/s"] true)).map
          (fun s => (s.ops, s.cleaning, s.reserved "a/b", s.entriesOf "a/b")) =
      some ([], none, 0, []) ∧
    (exec step (withQuotaConfig .default)
        (sampleSpill "a" "s" 512 ++ sampleSpill "a" "t" 512 ++
          sampleCleanup "a" ["a/s", "a/t"] false)).map
            (fun s => (s.ops, s.cleaning, s.reserved "a")) =
      some ([], none, 512) ∧
    ¬ OkAlong step Exact (withQuotaConfig .default)
      (sampleSpill "a" "s" 512 ++ sampleSpill "a" "s" 512) := by
  refine ⟨by decide +kernel, by decide +kernel, by decide +kernel, by decide +kernel, ?_⟩
  intro hexact
  have hentries : OkAlong step (fun s a => ∀ s' ∈ s.step a,
      s'.spillQuotaUsage.totalReservedBytes = total s'.entryHoldings + total s'.opHoldings)
      (withQuotaConfig .default) (sampleSpill "a" "s" 512 ++ sampleSpill "a" "s" 512) :=
    hexact.mono fun s a h s' hs' => (h s' hs').1.entries
  revert hentries
  decide +kernel

end Step

end StorageManager

end Arcxa.Workflow
