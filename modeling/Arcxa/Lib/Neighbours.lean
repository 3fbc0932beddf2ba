import Mathlib.Data.List.Destutter
import Mathlib.Data.List.Sort

/-!
# Duplicates among neighbours

Removing an element that equals the one before it leaves an element once exactly when nothing stands
between its copies. Before, the list may be sorted by a key: a stable sort keeps the order of
elements with one key.
-/

namespace Arcxa

variable {α κ : Type}

section Destutter

variable [DecidableEq α]

theorem sublist_destutter' {c : List α} (hc : c.IsChain (· ≠ ·)) (a : α) {l : List α}
    (h : c.Sublist (a :: l)) : c.Sublist (l.destutter' (· ≠ ·) a) := by
  induction l generalizing a c with
  | nil => exact h
  | cons b l ih =>
    by_cases hab : a ≠ b
    · rw [List.destutter'_cons_pos _ hab]
      cases h with
      | cons _ h => exact (ih hc b h).cons a
      | cons_cons _ h => exact (ih hc.tail b h).cons_cons a
    · rw [List.destutter'_cons_neg _ hab]
      have hab : a = b := not_not.mp hab
      subst hab
      refine ih hc a ?_
      cases h with
      | cons _ h => exact h
      | @cons_cons rest _ _ h =>
        cases h with
        | cons _ h => exact h.cons_cons a
        | cons_cons _ h => exact absurd rfl (List.isChain_cons_cons.mp hc).1

theorem sublist_destutter {c l : List α} (hc : c.IsChain (· ≠ ·)) (h : c.Sublist l) :
    c.Sublist (l.destutter (· ≠ ·)) := by
  cases l with
  | nil => exact h
  | cons a l => exact sublist_destutter' hc a h

theorem exists_between {l : List α} (hchain : l.IsChain (· ≠ ·)) {e : α} (h : 2 ≤ l.count e) :
    ∃ d ≠ e, [e, d, e].Sublist l := by
  induction l with
  | nil => exact absurd h (by simp)
  | cons a l ih =>
    by_cases ha : a = e
    · subst ha
      rw [List.count_cons_self] at h
      cases l with
      | nil => exact absurd h (by simp)
      | cons b l =>
        have hb : a ≠ b := (List.isChain_cons_cons.mp hchain).1
        rw [List.count_cons_of_ne hb.symm] at h
        have hmem : a ∈ l := List.count_pos_iff.mp (Nat.le_of_succ_le_succ h)
        exact ⟨b, hb.symm, ((List.singleton_sublist.mpr hmem).cons_cons b).cons_cons a⟩
    · rw [List.count_cons_of_ne ha] at h
      obtain ⟨d, hd, hsub⟩ := ih hchain.tail h
      exact ⟨d, hd, hsub.cons a⟩

theorem count_destutter_eq_one_iff {l : List α} {e : α} (hmem : e ∈ l) :
    (l.destutter (· ≠ ·)).count e = 1 ↔ ∀ d ≠ e, ¬ [e, d, e].Sublist l := by
  have hpos : 0 < (l.destutter (· ≠ ·)).count e :=
    List.count_pos_iff.mpr ((sublist_destutter (List.isChain_singleton e)
      (List.singleton_sublist.mpr hmem)).subset (List.mem_singleton_self e))
  constructor
  · intro hone d hd hsub
    have hchain : [e, d, e].IsChain (· ≠ ·) := by simp [hd, hd.symm]
    have hle := (sublist_destutter hchain hsub).count_le e
    rw [hone] at hle
    simp [hd] at hle
  · intro hnone
    by_contra hne
    obtain ⟨d, hd, hsub⟩ := exists_between (List.isChain_destutter _ l)
      (show 2 ≤ (l.destutter (· ≠ ·)).count e by omega)
    exact hnone d hd (hsub.trans (List.destutter_sublist _ l))

theorem destutter_key [DecidableEq κ] {f : α → κ} {l : List α}
    (hinj : ∀ a ∈ l, ∀ b ∈ l, f a = f b → a = b) :
    l.destutter (fun a b => f a ≠ f b) = l.destutter (· ≠ ·) := by
  have h : (l.destutter fun a b => f a ≠ f b).map id = (l.map id).destutter (· ≠ ·) :=
    List.map_destutter fun a ha b hb => not_congr ⟨hinj a ha b hb, congrArg f⟩
  rwa [List.map_id, List.map_id] at h

end Destutter

section Sorting

variable [LinearOrder κ] (k : α → κ)

def sortByKey (l : List α) : List α := l.mergeSort fun a b => k a ≤ k b

variable {k}

theorem key_le_trans (a b c : α) (hab : decide (k a ≤ k b) = true) (hbc : decide (k b ≤ k c) = true) :
    decide (k a ≤ k c) = true :=
  decide_eq_true ((of_decide_eq_true hab).trans (of_decide_eq_true hbc))

theorem key_le_total (a b : α) : (decide (k a ≤ k b) || decide (k b ≤ k a)) = true := by
  simpa using le_total (k a) (k b)

theorem pairwise_sortByKey (l : List α) : (sortByKey k l).Pairwise fun a b => k a ≤ k b := by
  have h := List.pairwise_mergeSort key_le_trans (key_le_total (k := k)) l
  exact h.imp of_decide_eq_true

theorem perm_sortByKey (l : List α) : (sortByKey k l).Perm l := List.mergeSort_perm l _

theorem filter_sortByKey (l : List α) (t : κ) :
    (sortByKey k l).filter (k · = t) = l.filter (k · = t) := by
  have hsorted : (l.filter (k · = t)).Pairwise fun a b => decide (k a ≤ k b) = true := by
    refine List.pairwise_of_forall_mem_list fun a ha b hb => decide_eq_true ?_
    rw [of_decide_eq_true (List.mem_filter.mp ha).2, of_decide_eq_true (List.mem_filter.mp hb).2]
  have hsub : (l.filter (k · = t)).Sublist (sortByKey k l) :=
    List.sublist_mergeSort key_le_trans key_le_total hsorted List.filter_sublist
  have hfilter := hsub.filter (k · = t)
  rw [List.filter_filter] at hfilter
  simp only [Bool.and_self] at hfilter
  exact (hfilter.eq_of_length ((perm_sortByKey l).filter _).length_eq.symm).symm

theorem sublist_sortByKey_iff {c l : List α} {t : κ} (hc : ∀ a ∈ c, k a = t) :
    c.Sublist (sortByKey k l) ↔ c.Sublist l := by
  have hself : c.filter (k · = t) = c := List.filter_eq_self.mpr fun a ha => decide_eq_true (hc a ha)
  constructor
  · intro h
    have hfilter := h.filter (k · = t)
    rw [hself, filter_sortByKey] at hfilter
    exact hfilter.trans List.filter_sublist
  · intro h
    have hfilter := h.filter (k · = t)
    rw [hself, ← filter_sortByKey] at hfilter
    exact hfilter.trans List.filter_sublist

end Sorting

end Arcxa
