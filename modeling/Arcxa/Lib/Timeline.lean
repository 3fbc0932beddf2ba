import Mathlib.Data.List.Chain
import Mathlib.Order.Basic
import Mathlib.Tactic

/-!
# Timelines

Entries with a time they start and perhaps a time they stop. In a timeline each entry starts after
the one before it, which stops there, and the last one is open. So at any time at most one entry
holds (`Timeline.length_filter_le_one`), and exactly the last one is open (`Timeline.filter_open`).
A timeline grows by an entry that starts where the last one stops (`Timeline.concat`).
-/

namespace Arcxa

variable {α T : Type} [LinearOrder T] {start : α → T} {stop : α → Option T}

def Covers (start : α → T) (stop : α → Option T) (t : T) (v : α) : Prop :=
  start v ≤ t ∧ ∀ e ∈ stop v, t < e

structure Timeline (start : α → T) (stop : α → Option T) (l : List α) : Prop where
  follows : l.IsChain fun v w => start v < start w ∧ stop v = some (start w)
  last_open : ∀ v ∈ l.getLast?, stop v = none

namespace Timeline

variable {l front : List α} {v w last : α} {t : T}

theorem nil : Timeline start stop [] := ⟨.nil, nofun⟩

theorem singleton (hv : stop v = none) : Timeline start stop [v] := by
  refine ⟨.singleton v, ?_⟩
  intro w hw
  rw [List.getLast?_singleton, Option.mem_some_iff] at hw
  exact hw ▸ hv

theorem pairwise (h : Timeline start stop l) :
    l.Pairwise fun v w => start v < start w ∧ ∃ e ∈ stop v, e ≤ start w := by
  have htrans : ∀ u v w, (start u < start v ∧ ∃ e ∈ stop u, e ≤ start v) →
      (start v < start w ∧ ∃ e ∈ stop v, e ≤ start w) →
      start u < start w ∧ ∃ e ∈ stop u, e ≤ start w := by
    rintro u v w ⟨huv, e, he, hle⟩ ⟨hvw, -⟩
    exact ⟨huv.trans hvw, e, he, hle.trans hvw.le⟩
  have : IsTrans α fun v w => start v < start w ∧ ∃ e ∈ stop v, e ≤ start w := ⟨htrans⟩
  refine List.isChain_iff_pairwise.mp (h.follows.imp ?_)
  rintro v w ⟨hlt, hstop⟩
  exact ⟨hlt, start w, hstop, le_rfl⟩

theorem not_covers_both (hvw : start v < start w ∧ ∃ e ∈ stop v, e ≤ start w)
    (hv : Covers start stop t v) : ¬ Covers start stop t w := by
  intro hw
  obtain ⟨-, e, he, hle⟩ := hvw
  exact absurd (hv.2 e he) (not_lt.mpr (hle.trans hw.1))

theorem length_filter_le_one (h : Timeline start stop l) (p : α → Bool)
    (hp : ∀ v, p v = true → Covers start stop t v) : (l.filter p).length ≤ 1 := by
  have hpair := h.pairwise.filter p
  -- of two entries that hold, the first would have stopped before the second starts
  match hfilter : l.filter p with
  | [] => simp
  | [_] => simp
  | v :: w :: rest =>
    exfalso
    rw [hfilter] at hpair
    have hcovers : ∀ u ∈ v :: w :: rest, Covers start stop t u := by
      intro u hu
      exact hp u (List.of_mem_filter (hfilter ▸ hu))
    have hvw := List.rel_of_pairwise_cons hpair (List.mem_cons_self ..)
    exact not_covers_both hvw (hcovers v (by simp)) (hcovers w (by simp))

theorem filter_open (h : Timeline start stop l) :
    l.filter (fun v => (stop v).isNone) = l.getLast?.toList := by
  rcases List.eq_nil_or_concat l with rfl | ⟨front, last, rfl⟩
  · rfl
  · have hclosed : ∀ v ∈ front, ¬ (stop v).isNone = true := by
      intro v hv
      have hpair := h.pairwise
      rw [List.concat_eq_append, List.pairwise_append] at hpair
      obtain ⟨-, e, he, -⟩ := hpair.2.2 v hv last (by simp)
      rw [Option.mem_def.mp he]
      simp
    have hlast : stop last = none := h.last_open last (by simp)
    rw [List.concat_eq_append, List.filter_append, List.filter_eq_nil_iff.mpr hclosed]
    simp [hlast]

theorem concat (h : Timeline start stop (front ++ [last])) (hstart : start w = start last)
    (hstop : stop w = some (start v)) (hlt : start last < start v) (hopen : stop v = none) :
    Timeline start stop (front ++ [w, v]) := by
  have hfollows := h.follows
  rw [List.isChain_append] at hfollows
  constructor
  · rw [List.isChain_append]
    refine ⟨hfollows.1, ?_, ?_⟩
    · simpa [hstart] using ⟨hlt, hstop⟩
    · -- the link to the last entry is kept, since it starts where it did
      intro u hu w' hw'
      rw [List.head?_cons, Option.mem_some_iff] at hw'
      have hu' := hfollows.2.2 u hu last (by simp)
      rw [← hw', hstart]
      exact hu'
  · intro u hu
    rw [List.getLast?_append_cons, List.getLast?_cons_cons, List.getLast?_singleton,
      Option.mem_some_iff] at hu
    exact hu ▸ hopen

end Timeline

end Arcxa
