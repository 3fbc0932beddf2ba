import Mathlib.Data.Prod.Lex
import Arcxa.Lib.BTreeMap
import Arcxa.Lib.Distinct

/-!
# Clockwise search

The keys of a sorted map are places on a ring. From any point on, the entries are met in the order
of their keys, and after the last one the first one follows. `turn k` is that order as seen from
the point `k`, and `successor` is the entry that comes first in it (`successor_eq_some`). So the
successor stays what it is as long as no entry in front of it comes or goes
(`successor_of_subset`).

`takeFirsts` walks once around, or a bit more, and stops after so many different values.
-/

namespace Arcxa

namespace BTreeMap

variable {K V : Type} [LinearOrder K]

/-- `range(k..)`. -/
def entriesFrom (m : BTreeMap K V) (k : K) : List (K × V) := m.entries.filter (fun p => k ≤ p.1)

/-- `range(k..).chain(iter())`. -/
def clockwise (m : BTreeMap K V) (k : K) : List (K × V) := m.entriesFrom k ++ m.entries

/-- `range(k..).next().or_else(|| iter().next())`. -/
def successor (m : BTreeMap K V) (k : K) : Option (K × V) :=
  (m.entriesFrom k).head?.or m.entries.head?

/-- How far a place is, seen from `k`: what lies behind `k` comes last. -/
def turn (k a : K) : Bool ×ₗ K := toLex (decide (a < k), a)

theorem turn_injective (k : K) : Function.Injective (turn k) := by
  intro a b h
  exact (Prod.mk.injEq .. ▸ toLex_inj.mp h).2

theorem turn_le {k a b : K} :
    turn k a ≤ turn k b ↔ (k ≤ a ∧ b < k) ∨ (a ≤ b ∧ (a < k ↔ b < k)) := by
  unfold turn
  rw [Prod.Lex.toLex_le_toLex]
  by_cases ha : a < k <;> by_cases hb : b < k <;> simp [ha, hb, not_lt.mp, not_le.mpr]

theorem head?_clockwise (m : BTreeMap K V) (k : K) : (m.clockwise k).head? = m.successor k :=
  List.head?_append

variable {m : BTreeMap K V}

theorem mem_clockwise {k : K} {p : K × V} : p ∈ m.clockwise k ↔ p ∈ m.entries := by
  rw [clockwise, List.mem_append]
  exact ⟨fun h => h.elim (fun hp => List.mem_of_mem_filter hp) id, .inr⟩

theorem successor_eq_none {k : K} : m.successor k = none ↔ m.entries = [] := by
  rw [successor, Option.or_eq_none_iff, List.head?_eq_none_iff, List.head?_eq_none_iff]
  exact ⟨And.right, fun h => ⟨by rw [entriesFrom, h]; rfl, h⟩⟩

theorem le_of_head? {l : List (K × V)} (hl : l.Pairwise (fun p q => p.1 < q.1)) {p q : K × V}
    (hp : l.head? = some p) (hq : q ∈ l) : p.1 ≤ q.1 := by
  obtain ⟨rest, rfl⟩ := List.head?_eq_some_iff.mp hp
  rcases List.mem_cons.mp hq with rfl | hrest
  · exact le_refl _
  · exact (List.rel_of_pairwise_cons hl hrest).le

theorem successor_spec {k a : K} {v : V} (h : m.successor k = some (a, v)) :
    m.get a = some v ∧ ∀ b w, m.get b = some w → turn k a ≤ turn k b := by
  rw [successor, Option.or_eq_some_iff] at h
  have hfrom : ∀ b w, m.get b = some w → k ≤ b → (b, w) ∈ m.entriesFrom k := by
    intro b w hb hle
    exact List.mem_filter.mpr ⟨mem_entries_iff.mpr hb, decide_eq_true hle⟩
  rcases h with hhead | ⟨hnone, hhead⟩
  · obtain ⟨hmem, hle⟩ := List.mem_filter.mp (List.mem_of_head? hhead)
    have hka : k ≤ a := of_decide_eq_true hle
    refine ⟨mem_entries_iff.mp hmem, ?_⟩
    intro b w hb
    rw [turn_le]
    rcases lt_or_ge b k with hbk | hkb
    · exact .inl ⟨hka, hbk⟩
    · have hab := le_of_head? (m.sorted.filter _) hhead (hfrom b w hb hkb)
      exact .inr ⟨hab, iff_of_false (not_lt.mpr hka) (not_lt.mpr hkb)⟩
  · -- everything lies behind `k`
    have hbehind : ∀ b w, m.get b = some w → b < k := by
      intro b w hb
      by_contra hkb
      have hmem := hfrom b w hb (not_lt.mp hkb)
      rw [List.head?_eq_none_iff.mp hnone] at hmem
      cases hmem
    have ha : m.get a = some v := mem_entries_iff.mp (List.mem_of_head? hhead)
    refine ⟨ha, ?_⟩
    intro b w hb
    rw [turn_le]
    exact .inr ⟨le_of_head? m.sorted hhead (mem_entries_iff.mpr hb),
      iff_of_true (hbehind a v ha) (hbehind b w hb)⟩

/-- **The successor is the first entry on the way around.** -/
theorem successor_eq_some {k a : K} {v : V} :
    m.successor k = some (a, v) ↔
      m.get a = some v ∧ ∀ b w, m.get b = some w → turn k a ≤ turn k b := by
  refine ⟨successor_spec, ?_⟩
  rintro ⟨ha, hfirst⟩
  cases hs : m.successor k with
  | none =>
    have hmem := mem_entries_iff.mpr ha
    rw [successor_eq_none.mp hs] at hmem
    cases hmem
  | some p =>
    obtain ⟨b, w⟩ := p
    obtain ⟨hb, hfirst'⟩ := successor_spec hs
    obtain rfl := turn_injective k (le_antisymm (hfirst b w hb) (hfirst' a v ha))
    rw [ha] at hb
    rw [Option.some.inj hb]

theorem successor_self {k : K} {v : V} (h : m.get k = some v) : m.successor k = some (k, v) := by
  refine successor_eq_some.mpr ⟨h, ?_⟩
  intro b w _
  rw [turn_le]
  rcases lt_or_ge b k with hb | hb
  · exact .inl ⟨le_refl k, hb⟩
  · exact .inr ⟨hb, iff_of_false (lt_irrefl k) (not_lt.mpr hb)⟩

theorem successor_of_subset {m m' : BTreeMap K V}
    (hsub : ∀ b w, m.get b = some w → m'.get b = some w) {k a : K} {v : V}
    (h : m'.successor k = some (a, v)) (ha : m.get a = some v) : m.successor k = some (a, v) :=
  successor_eq_some.mpr ⟨ha, fun b w hb => (successor_spec h).2 b w (hsub b w hb)⟩

end BTreeMap

/-! ## Walking to so many different values -/

section Walk

variable {κ : Type} [DecidableEq κ]

/-- Push the values that are new, and stop when there are `n` after a push. -/
def takeFirsts (n : Nat) : List κ → List κ → List κ
  | out, [] => out
  | out, a :: l =>
    if a ∈ out then takeFirsts n out l
    else if n ≤ (out ++ [a]).length then out ++ [a]
    else takeFirsts n (out ++ [a]) l

theorem takeFirsts_eq (n : Nat) {out : List κ} (hout : out.length < max n 1) (l : List κ) :
    takeFirsts n out l = (out ++ (firstMarks id out l).reduceOption).take (max n 1) := by
  induction l generalizing out with
  | nil =>
    rw [takeFirsts, firstMarks, List.reduceOption_nil, List.append_nil,
      List.take_of_length_le hout.le]
  | cons a l ih =>
    rw [takeFirsts, firstMarks, id_eq]
    by_cases hmem : a ∈ out
    · rw [if_pos hmem, if_pos hmem, List.reduceOption_cons_of_none, ih hout,
        firstMarks_cons_of_mem hmem]
    · rw [if_neg hmem, if_neg hmem, List.reduceOption_cons_of_some]
      have hlen : (out ++ [a]).length = out.length + 1 := List.length_append
      have hsplit : out ++ a :: (firstMarks id (a :: out) l).reduceOption =
          out ++ [a] ++ (firstMarks id (a :: out) l).reduceOption := by simp
      split_ifs with hfull
      · -- these are all that are asked for
        have hmax : max n 1 = (out ++ [a]).length := by omega
        rw [hsplit, hmax, List.take_left]
      · have hsame : ∀ k, k ∈ a :: out ↔ k ∈ out ++ [a] := by
          intro k
          simp [or_comm]
        rw [hsplit, firstMarks_congr_seen id hsame, ih (by omega)]

theorem takeFirsts_nil (n : Nat) (l : List κ) :
    takeFirsts n [] l = (firsts id l).take (max n 1) :=
  takeFirsts_eq n (by simp) l

end Walk

end Arcxa
