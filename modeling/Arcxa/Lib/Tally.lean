import Mathlib.Data.List.AList
import Mathlib.Tactic

/-!
# Sums over holdings

A holding is an owner and an amount. `total` is the sum of all amounts of a list of holdings
and `totalOf k` the sum of those of one owner; both depend on the list up to order only, and
they are added up one holding at a time. The entries of a map are taken apart the same way: a
map with a value at a key is, up to order, that value and the map without the key
(`perm_cons_erase`), and `sumValues` follows.
-/

namespace Arcxa

variable {K V : Type} [DecidableEq K]

/-! ## Maps -/

variable {m : AList (fun _ : K => V)}

theorem entries_of_lookup {k : K} {v : V} (h : m.lookup k = some v) :
    ∃ l₁ l₂, m.entries = l₁ ++ ⟨k, v⟩ :: l₂ ∧ (m.erase k).entries = l₁ ++ l₂ := by
  have hmem : ⟨k, v⟩ ∈ m.entries := List.of_mem_dlookup h
  obtain ⟨v', l₁, l₂, -, hentries, hrest⟩ := List.exists_of_kerase (List.mem_keys_of_mem hmem)
  have hmem' : ⟨k, v'⟩ ∈ m.entries := by
    rw [hentries]
    exact List.mem_append_right _ (List.mem_cons_self ..)
  cases m.nodupKeys.eq_of_mk_mem hmem hmem'
  exact ⟨l₁, l₂, hentries, hrest⟩

theorem perm_cons_erase {k : K} {v : V} (h : m.lookup k = some v) :
    m.entries.Perm (⟨k, v⟩ :: (m.erase k).entries) := by
  obtain ⟨l₁, l₂, hentries, hrest⟩ := entries_of_lookup h
  rw [hentries, hrest]
  exact List.perm_middle

theorem erase_of_lookup_none {k : K} (h : m.lookup k = none) : (m.erase k).entries = m.entries :=
  List.kerase_of_notMem_keys (AList.lookup_eq_none.mp h)

theorem filter_erase_of_lookup {k : K} {v : V} (h : m.lookup k = some v) {q : V → Bool}
    (hq : q v = false) :
    (m.erase k).entries.filter (fun p => q p.2) = m.entries.filter (fun p => q p.2) := by
  obtain ⟨l₁, l₂, hentries, hrest⟩ := entries_of_lookup h
  rw [hentries, hrest, List.filter_append, List.filter_append, List.filter_cons,
    if_neg (by simp [hq])]

def sumValues (m : AList (fun _ : K => Nat)) : Nat := (m.entries.map (fun p => p.2)).sum

theorem sumValues_erase_add (m : AList (fun _ : K => Nat)) (k : K) :
    sumValues (m.erase k) + (m.lookup k).getD 0 = sumValues m := by
  cases h : m.lookup k with
  | none =>
    unfold sumValues
    rw [erase_of_lookup_none h]
    rfl
  | some v =>
    have hsum := ((perm_cons_erase h).map (fun p => p.2)).sum_eq
    rw [List.map_cons, List.sum_cons] at hsum
    unfold sumValues
    rw [hsum, Nat.add_comm]
    rfl

theorem sumValues_insert (m : AList (fun _ : K => Nat)) (k : K) (v : Nat) :
    sumValues (m.insert k v) = v + sumValues (m.erase k) := rfl

/-! ## Holdings -/

def total (holdings : List (K × Nat)) : Nat := (holdings.map Prod.snd).sum

def totalOf (k : K) (holdings : List (K × Nat)) : Nat :=
  total (holdings.filter (fun p => p.1 = k))

omit [DecidableEq K] in
@[simp] theorem total_cons (p : K × Nat) (holdings : List (K × Nat)) :
    total (p :: holdings) = p.2 + total holdings := rfl

@[simp] theorem totalOf_nil (k : K) : totalOf k [] = 0 := rfl

@[simp] theorem totalOf_cons (k : K) (p : K × Nat) (holdings : List (K × Nat)) :
    totalOf k (p :: holdings) = (if p.1 = k then p.2 else 0) + totalOf k holdings := by
  unfold totalOf
  rw [List.filter_cons]
  split_ifs with h₁ h₂ h₂
  · rw [total_cons]
  · exact absurd (of_decide_eq_true h₁) h₂
  · exact absurd (decide_eq_true h₂) h₁
  · rw [Nat.zero_add]

omit [DecidableEq K] in
theorem total_perm {holdings holdings' : List (K × Nat)} (h : holdings.Perm holdings') :
    total holdings = total holdings' :=
  (h.map Prod.snd).sum_eq

theorem totalOf_perm {holdings holdings' : List (K × Nat)} (h : holdings.Perm holdings') (k : K) :
    totalOf k holdings = totalOf k holdings' :=
  total_perm (h.filter _)

theorem totalOf_le_total (k : K) (holdings : List (K × Nat)) :
    totalOf k holdings ≤ total holdings := by
  induction holdings with
  | nil => exact le_refl _
  | cons p holdings ih =>
    rw [totalOf_cons, total_cons]
    split_ifs <;> omega

theorem totalOf_eq_zero {k : K} {holdings : List (K × Nat)} :
    totalOf k holdings = 0 ↔ ∀ p ∈ holdings, p.1 = k → p.2 = 0 := by
  induction holdings with
  | nil => simp
  | cons p holdings ih =>
    rw [totalOf_cons, Nat.add_eq_zero_iff, ih, List.forall_mem_cons]
    split_ifs with h <;> simp [h]

end Arcxa
