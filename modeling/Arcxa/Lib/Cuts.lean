import Mathlib.Tactic

/-!
# Cutting an interval into pieces

Cut points in order cut the interval from the first to the last into half-open pieces: every
point of it is in exactly one of them. When the cut points are a list in order, the pieces are
its `windows`, and they cover what lies between two of them (`exists_window_iff`).
-/

namespace Arcxa

variable {cut : Nat → Nat}

/-- **Every point is in one piece.** -/
theorem existsUnique_piece (hmono : Monotone cut) {n x : Nat} (hfirst : cut 0 ≤ x)
    (hlast : x < cut n) : ∃! i, i < n ∧ cut i ≤ x ∧ x < cut (i + 1) := by
  have hexists : ∃ i, i < n ∧ cut i ≤ x ∧ x < cut (i + 1) := by
    induction n with
    | zero => omega
    | succ n ih =>
      rcases Nat.lt_or_ge x (cut n) with hlt | hge
      · obtain ⟨i, hi, hpiece⟩ := ih hlt
        exact ⟨i, by omega, hpiece⟩
      · exact ⟨n, by omega, hge, hlast⟩
  obtain ⟨i, hi, hlow, hhigh⟩ := hexists
  refine ⟨i, ⟨hi, hlow, hhigh⟩, ?_⟩
  rintro j ⟨-, hlow', hhigh'⟩
  -- of two different pieces the one ends before the other begins
  rcases Nat.lt_trichotomy j i with hlt | heq | hgt
  · have hle : cut (j + 1) ≤ cut i := hmono hlt
    omega
  · exact heq
  · have hle : cut (i + 1) ≤ cut j := hmono hgt
    omega

section Windows

variable {α : Type}

/-- `windows(2)`. -/
def windows (l : List α) : List (α × α) := l.zip l.tail

theorem windows_cons_cons (a b : α) (l : List α) :
    windows (a :: b :: l) = (a, b) :: windows (b :: l) := rfl

/-- **The pieces of a list in order.** -/
theorem exists_window_iff [LinearOrder α] {l : List α} (hl : l.Pairwise (· ≤ ·)) {x : α} :
    (∃ p ∈ windows l, p.1 ≤ x ∧ x < p.2) ↔ (∃ a ∈ l, a ≤ x) ∧ ∃ b ∈ l, x < b := by
  induction l with
  | nil => simp [windows]
  | cons a l ih =>
    obtain ⟨hfirst, hrest⟩ := List.pairwise_cons.mp hl
    cases l with
    | nil =>
      simp only [windows, List.tail_cons, List.zip_nil_right, List.not_mem_nil, false_and,
        exists_false, List.mem_singleton, exists_eq_left, false_iff, not_and, not_lt]
      exact id
    | cons b l =>
      rw [windows_cons_cons, List.exists_mem_cons_iff, ih hrest]
      constructor
      · rintro (⟨ha, hb⟩ | ⟨⟨c, hc, hcx⟩, d, hd, hxd⟩)
        · exact ⟨⟨a, List.mem_cons_self, ha⟩, b, List.mem_cons_of_mem a List.mem_cons_self, hb⟩
        · exact ⟨⟨c, List.mem_cons_of_mem a hc, hcx⟩, d, List.mem_cons_of_mem a hd, hxd⟩
      · rintro ⟨⟨c, hc, hcx⟩, d, hd, hxd⟩
        have hle : ∀ e ∈ a :: b :: l, a ≤ e := by
          intro e he
          rcases List.mem_cons.mp he with rfl | he
          · exact le_refl e
          · exact hfirst e he
        have hax : a ≤ x := (hle c hc).trans hcx
        have hd : d ∈ b :: l := by
          rcases List.mem_cons.mp hd with rfl | hd
          · exact absurd hxd (not_lt.mpr hax)
          · exact hd
        -- the point is before the second cut or not
        rcases lt_or_ge x b with hxb | hbx
        · exact .inl ⟨hax, hxb⟩
        · exact .inr ⟨⟨b, List.mem_cons_self, hbx⟩, d, hd, hxd⟩

end Windows

end Arcxa
