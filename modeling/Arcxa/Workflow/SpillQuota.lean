import Arcxa.Lib.Tally
import Arcxa.Workflow.Json

/-!
# The spill quota

Two counters of the bytes reserved for spilled rows: in total and by execution. A reservation
is checked against the total quota first and against the quota of the execution next, and the
additions saturate at `usize::MAX`.

`Accounts` says that the counters are right for a list of holdings, each an execution and the
bytes it has reserved. A reservation that does not saturate adds a holding, a release takes
one away, and a reconciliation replaces one.
-/

namespace Arcxa.Workflow

/-- `usize::MAX`. -/
def usizeMax : Nat := 2 ^ 64 - 1

/-- `usize::saturating_add`. -/
def saturatingAdd (a b : Nat) : Nat := min (a + b) usizeMax

structure SpillQuotaConfig where
  maxTotalSpillBytes : Nat
  maxSpillBytesPerExecution : Nat
  deriving DecidableEq

protected def SpillQuotaConfig.default : SpillQuotaConfig where
  maxTotalSpillBytes := 20 * 1024 * 1024 * 1024
  maxSpillBytesPerExecution := 4 * 1024 * 1024 * 1024

structure SpillQuotaUsage where
  totalReservedBytes : Nat
  reservedBytesByExecution : AList (fun _ : String => Nat)

namespace SpillQuotaUsage

protected def default : SpillQuotaUsage where
  totalReservedBytes := 0
  reservedBytesByExecution := ∅

def reserved (usage : SpillQuotaUsage) (executionId : String) : Nat :=
  (usage.reservedBytesByExecution.lookup executionId).getD 0

end SpillQuotaUsage

variable (config : SpillQuotaConfig) (usage : SpillQuotaUsage) (executionId : String)

def totalQuotaExceeded (bytes : Nat) : WorkflowError :=
  .ResourceLimit
    ("Spill quota exceeded: reserving " ++ toString bytes ++ " bytes for execution '" ++
      executionId ++ "' would exceed total spill quota " ++
      toString config.maxTotalSpillBytes ++ " bytes (current total " ++
      toString usage.totalReservedBytes ++ ")")

def executionQuotaExceeded (bytes : Nat) : WorkflowError :=
  .ResourceLimit
    ("Spill quota exceeded: reserving " ++ toString bytes ++ " bytes for execution '" ++
      executionId ++ "' would exceed per-execution spill quota " ++
      toString config.maxSpillBytesPerExecution ++ " bytes (current execution total " ++
      toString (usage.reserved executionId) ++ ")")

def reserveSpillQuota (bytes : Nat) : Except WorkflowError SpillQuotaUsage :=
  let newTotal := saturatingAdd usage.totalReservedBytes bytes
  if config.maxTotalSpillBytes < newTotal then
    .error (totalQuotaExceeded config usage executionId bytes)
  else
    let newExecutionTotal := saturatingAdd (usage.reserved executionId) bytes
    if config.maxSpillBytesPerExecution < newExecutionTotal then
      .error (executionQuotaExceeded config usage executionId bytes)
    else
      .ok
        { totalReservedBytes := newTotal
          reservedBytesByExecution :=
            usage.reservedBytesByExecution.insert executionId newExecutionTotal }

def releaseSpillQuota (bytes : Nat) : SpillQuotaUsage where
  totalReservedBytes := usage.totalReservedBytes - bytes
  reservedBytesByExecution :=
    match usage.reservedBytesByExecution.lookup executionId with
    | some current =>
      if current - bytes = 0 then usage.reservedBytesByExecution.erase executionId
      else usage.reservedBytesByExecution.insert executionId (current - bytes)
    | none => usage.reservedBytesByExecution

def reconcileSpillQuota (previousBytes actualBytes : Nat) : Except WorkflowError SpillQuotaUsage :=
  if actualBytes = previousBytes then .ok usage
  else if previousBytes < actualBytes then
    reserveSpillQuota config usage executionId (actualBytes - previousBytes)
  else .ok (releaseSpillQuota usage executionId (previousBytes - actualBytes))

/-! ## The counters are right -/

/-- The counters are those of the holdings, and within the quotas. -/
structure Accounts (holdings : List (String × Nat)) : Prop where
  total : usage.totalReservedBytes = Arcxa.total holdings
  executions : ∀ e, usage.reserved e = totalOf e holdings
  sum : usage.totalReservedBytes = sumValues usage.reservedBytesByExecution
  totalQuota : usage.totalReservedBytes ≤ config.maxTotalSpillBytes
  executionQuota : ∀ e, usage.reserved e ≤ config.maxSpillBytesPerExecution

variable {config usage executionId} {holdings : List (String × Nat)}

theorem accounts_default : Accounts config .default [] where
  total := rfl
  executions _ := rfl
  sum := rfl
  totalQuota := Nat.zero_le _
  executionQuota _ := Nat.zero_le _

theorem Accounts.of_totals {holdings' : List (String × Nat)} (h : Accounts config usage holdings)
    (htotal : Arcxa.total holdings = Arcxa.total holdings')
    (hof : ∀ e, totalOf e holdings = totalOf e holdings') : Accounts config usage holdings' where
  total := h.total.trans htotal
  executions e := (h.executions e).trans (hof e)
  sum := h.sum
  totalQuota := h.totalQuota
  executionQuota := h.executionQuota

theorem Accounts.perm {holdings' : List (String × Nat)} (h : Accounts config usage holdings)
    (hperm : holdings.Perm holdings') : Accounts config usage holdings' :=
  h.of_totals (total_perm hperm) (totalOf_perm hperm)

variable (executionId) in
theorem accounts_cons_zero :
    Accounts config usage ((executionId, 0) :: holdings) ↔ Accounts config usage holdings := by
  have htotal : Arcxa.total ((executionId, 0) :: holdings) = Arcxa.total holdings := by simp
  have hof : ∀ e, totalOf e ((executionId, 0) :: holdings) = totalOf e holdings := by simp
  exact ⟨fun h => h.of_totals htotal hof,
    fun h => h.of_totals htotal.symm (fun e => (hof e).symm)⟩

theorem accounts_cons_add {a b : Nat} :
    Accounts config usage ((executionId, a) :: (executionId, b) :: holdings) ↔
      Accounts config usage ((executionId, a + b) :: holdings) := by
  have htotal : Arcxa.total ((executionId, a) :: (executionId, b) :: holdings) =
      Arcxa.total ((executionId, a + b) :: holdings) := by
    simp only [total_cons]
    omega
  have hof : ∀ e, totalOf e ((executionId, a) :: (executionId, b) :: holdings) =
      totalOf e ((executionId, a + b) :: holdings) := by
    intro e
    simp only [totalOf_cons]
    split_ifs <;> omega
  exact ⟨fun h => h.of_totals htotal hof,
    fun h => h.of_totals htotal.symm (fun e => (hof e).symm)⟩

variable {usage' : SpillQuotaUsage} {bytes : Nat}

theorem reserveSpillQuota_ok (h : reserveSpillQuota config usage executionId bytes = .ok usage') :
    saturatingAdd usage.totalReservedBytes bytes ≤ config.maxTotalSpillBytes ∧
      saturatingAdd (usage.reserved executionId) bytes ≤ config.maxSpillBytesPerExecution ∧
      usage' =
        { totalReservedBytes := saturatingAdd usage.totalReservedBytes bytes
          reservedBytesByExecution :=
            usage.reservedBytesByExecution.insert executionId
              (saturatingAdd (usage.reserved executionId) bytes) } := by
  unfold reserveSpillQuota at h
  dsimp only at h
  split_ifs at h with htotal hexecution
  cases h
  exact ⟨not_lt.mp htotal, not_lt.mp hexecution, rfl⟩

open SpillQuotaUsage

theorem reserved_insert (total : Nat) (e : String) (v : Nat) :
    (SpillQuotaUsage.mk total (usage.reservedBytesByExecution.insert executionId v)).reserved e =
      if e = executionId then v else usage.reserved e := by
  unfold reserved
  split_ifs with h
  · rw [h, AList.lookup_insert]
    rfl
  · rw [AList.lookup_insert_ne h]

theorem Accounts.reserve (h : Accounts config usage holdings)
    (hfit : usage.totalReservedBytes + bytes ≤ usizeMax)
    (hok : reserveSpillQuota config usage executionId bytes = .ok usage') :
    Accounts config usage' ((executionId, bytes) :: holdings) := by
  obtain ⟨htotal, hexecution, rfl⟩ := reserveSpillQuota_ok hok
  -- the counter of an execution is at most the total, so that it does not saturate either
  have hle : usage.reserved executionId ≤ usage.totalReservedBytes := by
    rw [h.executions, h.total]
    exact totalOf_le_total _ _
  have htotalEq : saturatingAdd usage.totalReservedBytes bytes =
      usage.totalReservedBytes + bytes := min_eq_left hfit
  have hexecutionEq : saturatingAdd (usage.reserved executionId) bytes =
      usage.reserved executionId + bytes := min_eq_left (by omega)
  rw [htotalEq] at htotal
  rw [hexecutionEq] at hexecution
  rw [htotalEq, hexecutionEq]
  refine ⟨?_, fun e => ?_, ?_, htotal, fun e => ?_⟩
  · rw [total_cons, ← h.total]
    exact Nat.add_comm _ _
  · rw [reserved_insert, totalOf_cons, ← h.executions]
    split_ifs with h₁ h₂ h₂
    · rw [h₁, Nat.add_comm]
    · exact absurd h₁.symm h₂
    · exact absurd h₂.symm h₁
    · rw [Nat.zero_add]
  · have hsum := sumValues_erase_add usage.reservedBytesByExecution executionId
    have htotals := h.sum
    show usage.totalReservedBytes + bytes = _
    rw [sumValues_insert]
    unfold reserved
    omega
  · rw [reserved_insert]
    split_ifs
    · exact hexecution
    · exact h.executionQuota e

theorem totalReservedBytes_of_saturated (hfit : usizeMax < usage.totalReservedBytes + bytes)
    (hok : reserveSpillQuota config usage executionId bytes = .ok usage') :
    usage'.totalReservedBytes < usage.totalReservedBytes + bytes := by
  obtain ⟨-, -, rfl⟩ := reserveSpillQuota_ok hok
  show saturatingAdd usage.totalReservedBytes bytes < _
  unfold saturatingAdd
  omega

theorem reserved_releaseSpillQuota (bytes : Nat) (e : String) :
    (releaseSpillQuota usage executionId bytes).reserved e =
      if e = executionId then usage.reserved e - bytes else usage.reserved e := by
  unfold releaseSpillQuota
  cases hlookup : usage.reservedBytesByExecution.lookup executionId with
  | none =>
    unfold reserved
    split_ifs with h
    · rw [h, hlookup]
      simp
    · rfl
  | some current =>
    dsimp only
    split_ifs with hzero h h
    · unfold reserved
      rw [h, AList.lookup_erase, hlookup]
      exact hzero.symm
    · unfold reserved
      rw [AList.lookup_erase_ne h]
    · rw [reserved_insert, if_pos h]
      unfold reserved
      rw [h, hlookup]
      rfl
    · rw [reserved_insert, if_neg h]

variable (usage executionId) in
theorem sumValues_releaseSpillQuota (hle : bytes ≤ usage.reserved executionId) :
    sumValues (releaseSpillQuota usage executionId bytes).reservedBytesByExecution + bytes =
      sumValues usage.reservedBytesByExecution := by
  have hsum := sumValues_erase_add usage.reservedBytesByExecution executionId
  unfold reserved at hle
  unfold releaseSpillQuota
  cases hlookup : usage.reservedBytesByExecution.lookup executionId with
  | none =>
    rw [hlookup] at hle
    have hzero : bytes = 0 := Nat.le_zero.mp hle
    rw [hzero]
    rfl
  | some current =>
    rw [hlookup, Option.getD_some] at hle hsum
    dsimp only
    split_ifs with hzero
    · omega
    · rw [sumValues_insert]
      omega

theorem Accounts.release (h : Accounts config usage ((executionId, bytes) :: holdings)) :
    Accounts config (releaseSpillQuota usage executionId bytes) holdings := by
  have hexecution := h.executions executionId
  have htotal := h.total
  rw [totalOf_cons, if_pos rfl] at hexecution
  rw [total_cons] at htotal
  have hle : bytes ≤ usage.reserved executionId := by omega
  have hsum := sumValues_releaseSpillQuota usage executionId hle
  have hbefore := h.sum
  refine ⟨?_, fun e => ?_, ?_, ?_, fun e => ?_⟩
  · show usage.totalReservedBytes - bytes = _
    omega
  · have he := h.executions e
    rw [totalOf_cons] at he
    rw [reserved_releaseSpillQuota]
    split_ifs with heq
    · rw [if_pos heq.symm] at he
      omega
    · rw [if_neg (fun h => heq h.symm)] at he
      omega
  · show usage.totalReservedBytes - bytes = _
    omega
  · exact (Nat.sub_le _ _).trans h.totalQuota
  · rw [reserved_releaseSpillQuota]
    have hquota := h.executionQuota e
    split_ifs <;> omega

theorem Accounts.reconcile {previousBytes actualBytes : Nat}
    (h : Accounts config usage ((executionId, previousBytes) :: holdings))
    (hfit : previousBytes < actualBytes →
      usage.totalReservedBytes + (actualBytes - previousBytes) ≤ usizeMax)
    (hok : reconcileSpillQuota config usage executionId previousBytes actualBytes = .ok usage') :
    Accounts config usage' ((executionId, actualBytes) :: holdings) := by
  unfold reconcileSpillQuota at hok
  split_ifs at hok with heq hlt
  · cases hok
    exact heq ▸ h
  · have hreserved := h.reserve (hfit hlt) hok
    rw [accounts_cons_add, Nat.sub_add_cancel hlt.le] at hreserved
    exact hreserved
  · cases hok
    have hle : actualBytes ≤ previousBytes := not_lt.mp hlt
    have hsplit : Accounts config usage ((executionId, previousBytes - actualBytes) ::
        (executionId, actualBytes) :: holdings) := by
      rw [accounts_cons_add, Nat.sub_add_cancel hle]
      exact h
    exact hsplit.release

end Arcxa.Workflow
