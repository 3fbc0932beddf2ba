import Arcxa.Lib.BoundedTraversal

/-!
# Search with a stack

A search that keeps what it has to visit on a stack, each node with its depth. A node is visited once,
at the depth that it has when it is first taken from the stack, and not beyond a greatest depth: one
that is come to on a long way first may hide what is near it. `exists_stackSearch` says what is left
behind. Where the depth is enough for every node, all that can be come to is visited.
-/

namespace Arcxa

open Traversal

variable {K : Type} [DecidableEq K]

/-- The state is what is visited and what was pushed. `none`: the fuel is at its end. -/
def stackSearch (next : K → List K) (maxDepth : Nat) :
    Nat → List (K × Nat) → List K × List K → Option (List K × List K)
  | _, [], s => some s
  | 0, _ :: _, _ => none
  | fuel + 1, (node, depth) :: stack, s =>
    if maxDepth < depth ∨ node ∈ s.1 then stackSearch next maxDepth fuel stack s
    else
      let new := (next node).filter (· ∉ node :: s.1)
      stackSearch next maxDepth fuel ((new.map (·, depth + 1)).reverse ++ stack)
        (node :: s.1, s.2 ++ new)

def Goes (next : K → List K) (node x : K) : Prop := x ∈ next node

namespace StackSearch

/-- What holds at every turn. -/
structure Frontier (next : K → List K) (maxDepth : Nat) (start : K) (stack : List (K × Nat))
    (s : List K × List K) : Prop where
  begun : start ∈ s.1 ∨ s.1 = [] ∧ stack = [(start, 0)]
  waiting : ∀ entry ∈ stack, Steps (Goes next) start entry.2 entry.1 ∧ entry.2 ≤ s.1.length
  visited : ∀ node ∈ s.1, ∃ n ≤ maxDepth, Steps (Goes next) start n node
  nodup : s.1.Nodup
  edges : ∀ node ∈ s.1, ∀ x ∈ next node, x ∈ s.1 ∨ x ∈ stack.map Prod.fst ∨ maxDepth < s.1.length
  known : ∀ x, x ∈ s.1 ∨ x ∈ stack.map Prod.fst → x = start ∨ x ∈ s.2
  pushed : ∀ x, x ∈ s.2 ↔ x ≠ start ∧ ∃ node ∈ s.1, x ∈ next node

variable {next : K → List K} {maxDepth depth fuel : Nat} {start node : K}
variable {stack : List (K × Nat)} {s : List K × List K}

omit [DecidableEq K] in
theorem frontier_start : Frontier next maxDepth start [(start, 0)] ([], []) where
  begun := .inr ⟨rfl, rfl⟩
  waiting := List.forall_mem_singleton.mpr ⟨.start, Nat.zero_le _⟩
  visited := nofun
  nodup := List.nodup_nil
  edges := nofun
  known _ hx := .inl (List.mem_singleton.mp (hx.resolve_left List.not_mem_nil))
  pushed := by simp

omit [DecidableEq K] in
theorem Frontier.skip (h : Frontier next maxDepth start ((node, depth) :: stack) s)
    (hskip : maxDepth < depth ∨ node ∈ s.1) : Frontier next maxDepth start stack s where
  begun := by
    refine .inl (h.begun.resolve_right fun ⟨hnil, hstack⟩ => ?_)
    cases hstack
    rw [hnil] at hskip
    exact hskip.elim (Nat.not_lt_zero _) List.not_mem_nil
  waiting entry hentry := h.waiting entry (List.mem_cons_of_mem _ hentry)
  visited := h.visited
  nodup := h.nodup
  edges v hv x hx := by
    obtain hx | hx | hfull := h.edges v hv x hx
    · exact .inl hx
    · obtain rfl | hx := List.mem_cons.mp hx
      · exact hskip.elim (fun hdeep => .inr (.inr (hdeep.trans_le (h.waiting _ List.mem_cons_self).2)))
          .inl
      · exact .inr (.inl hx)
    · exact .inr (.inr hfull)
  known x hx := h.known x (hx.imp_right (List.mem_cons_of_mem _))
  pushed := h.pushed

theorem Frontier.visit (h : Frontier next maxDepth start ((node, depth) :: stack) s)
    (hdepth : depth ≤ maxDepth) (hnode : node ∉ s.1) {new : List K}
    (hnew : new = (next node).filter (· ∉ node :: s.1)) :
    Frontier next maxDepth start ((new.map (·, depth + 1)).reverse ++ stack)
      (node :: s.1, s.2 ++ new) := by
  have hmem (x : K) : x ∈ new ↔ x ∈ next node ∧ x ∉ node :: s.1 := by
    rw [hnew, List.mem_filter, decide_eq_true_eq]
  have hfst : ((new.map (·, depth + 1)).reverse ++ stack).map Prod.fst =
      new.reverse ++ stack.map Prod.fst := by
    rw [List.map_append, List.map_reverse, List.map_map]
    exact congrArg (·.reverse ++ _) (List.map_id _)
  obtain ⟨hsteps, hshort⟩ := h.waiting _ List.mem_cons_self
  have hstart : start ∈ node :: s.1 := h.begun.elim (List.mem_cons_of_mem _) fun ⟨_, hstack⟩ => by
    cases hstack
    exact List.mem_cons_self
  have hknown (x : K) (hx : x ∈ node :: s.1) : x = start ∨ x ∈ s.2 :=
    h.known x ((List.mem_cons.mp hx).elim (fun heq => .inr (heq ▸ List.mem_cons_self)) .inl)
  constructor
  case begun => exact .inl hstart
  case waiting =>
    refine List.forall_mem_append.mpr ⟨fun entry hentry => ?_, fun entry hentry => ?_⟩
    · obtain ⟨x, hx, rfl⟩ := List.mem_map.mp (List.mem_reverse.mp hentry)
      exact ⟨hsteps.step ((hmem x).mp hx).1, Nat.succ_le_succ hshort⟩
    · obtain ⟨hentry, hlength⟩ := h.waiting entry (List.mem_cons_of_mem _ hentry)
      exact ⟨hentry, hlength.trans (Nat.le_succ _)⟩
  case visited => exact List.forall_mem_cons.mpr ⟨⟨depth, hdepth, hsteps⟩, h.visited⟩
  case nodup => exact List.nodup_cons.mpr ⟨hnode, h.nodup⟩
  case edges =>
    intro v hv x hx
    rw [hfst, List.mem_append, List.mem_reverse, hmem]
    by_cases hvisited : x ∈ node :: s.1
    · exact .inl hvisited
    obtain rfl | hv := List.mem_cons.mp hv
    · exact .inr (.inl (.inl ⟨hx, hvisited⟩))
    · rw [List.mem_cons, not_or] at hvisited
      obtain hx | hx | hfull := h.edges v hv x hx
      · exact absurd hx hvisited.2
      · exact .inr (.inl (.inr ((List.mem_cons.mp hx).resolve_left hvisited.1)))
      · exact .inr (.inr (hfull.trans (Nat.lt_succ_self _)))
  case known =>
    intro x hx
    rw [hfst, List.mem_append, List.mem_reverse] at hx
    obtain hx | hx | hx := hx
    · exact (hknown x hx).imp_right (List.mem_append_left _)
    · exact .inr (List.mem_append_right _ hx)
    · exact (h.known x (.inr (List.mem_cons_of_mem _ hx))).imp_right (List.mem_append_left _)
  case pushed =>
    intro x
    rw [List.mem_append, hmem, h.pushed]
    constructor
    · rintro (⟨hne, v, hv, hx⟩ | ⟨hx, hnot⟩)
      · exact ⟨hne, v, List.mem_cons_of_mem _ hv, hx⟩
      · exact ⟨fun heq => hnot (heq ▸ hstart), node, List.mem_cons_self, hx⟩
    · rintro ⟨hne, v, hv, hx⟩
      rw [← h.pushed]
      by_cases hvisited : x ∈ node :: s.1
      · exact .inl ((hknown x hvisited).resolve_left hne)
      · obtain rfl | hv := List.mem_cons.mp hv
        · exact .inr ⟨hx, hvisited⟩
        · exact .inl ((h.pushed x).mpr ⟨hne, v, hv, hx⟩)

/-! ## The search ends -/

/-- How many nodes the rest of the search can push. -/
def pushes (next : K → List K) (nodes : Finset K) (visited : List K) : Nat :=
  ∑ node ∈ nodes.filter (· ∉ visited), (next node).length

variable (next) in
theorem pushes_cons {nodes : Finset K} {visited : List K} (hmem : node ∈ nodes)
    (hnode : node ∉ visited) :
    (next node).length + pushes next nodes (node :: visited) = pushes next nodes visited := by
  have herase : nodes.filter (· ∉ node :: visited) = (nodes.filter (· ∉ visited)).erase node := by
    ext x
    simp only [Finset.mem_filter, Finset.mem_erase, List.mem_cons, not_or]
    exact and_left_comm
  rw [pushes, herase]
  exact Finset.add_sum_erase _ (fun node => (next node).length)
    (Finset.mem_filter.mpr ⟨hmem, hnode⟩)

variable {nodes : Finset K}

omit [DecidableEq K] in
theorem mem_of_steps (hstart : start ∈ nodes) (hnodes : ∀ node, ∀ x ∈ next node, x ∈ nodes) {n : Nat}
    {x : K} (h : Steps (Goes next) start n x) : x ∈ nodes := by
  cases h with
  | start => exact hstart
  | step _ hx => exact hnodes _ _ hx

/-- **A search comes to its end.** -/
theorem exists_stackSearch (hstart : start ∈ nodes) (hnodes : ∀ node, ∀ x ∈ next node, x ∈ nodes)
    (hfuel : stack.length + pushes next nodes s.1 ≤ fuel)
    (h : Frontier next maxDepth start stack s) :
    ∃ s', stackSearch next maxDepth fuel stack s = some s' ∧ Frontier next maxDepth start [] s' := by
  induction fuel generalizing stack s with
  | zero =>
    obtain rfl : stack = [] := List.length_eq_zero_iff.mp (by omega)
    exact ⟨s, rfl, h⟩
  | succ fuel ih =>
    cases stack with
    | nil => exact ⟨s, rfl, h⟩
    | cons entry stack =>
      obtain ⟨node, depth⟩ := entry
      rw [List.length_cons] at hfuel
      rw [stackSearch]
      split_ifs with hskip
      · exact ih (by omega) (h.skip hskip)
      · obtain ⟨hdepth, hnode⟩ := not_or.mp hskip
        refine ih ?_ (h.visit (Nat.not_lt.mp hdepth) hnode rfl)
        have hpushes := pushes_cons next
          (mem_of_steps hstart hnodes (h.waiting _ List.mem_cons_self).1) hnode
        have hfilter := List.length_filter_le (· ∉ node :: s.1) (next node)
        rw [List.length_append, List.length_reverse, List.length_map]
        dsimp only at hpushes ⊢
        omega

/-- With depth for every node, a search visits all that can be come to. -/
theorem Frontier.mem_visited (h : Frontier next maxDepth start [] s) (hstart : start ∈ nodes)
    (hnodes : ∀ node, ∀ x ∈ next node, x ∈ nodes) (hcard : nodes.card ≤ maxDepth) {n : Nat} {x : K}
    (hx : Steps (Goes next) start n x) : x ∈ s.1 := by
  have hlength : s.1.length ≤ maxDepth := by
    rw [← List.toFinset_card_of_nodup h.nodup]
    refine (Finset.card_le_card fun node hnode => ?_).trans hcard
    obtain ⟨_, _, hsteps⟩ := h.visited node (List.mem_toFinset.mp hnode)
    exact mem_of_steps hstart hnodes hsteps
  induction hx with
  | start => exact h.begun.resolve_right fun hstack => absurd hstack.2 (List.cons_ne_nil _ _).symm
  | step _ hgoes ih =>
    exact (h.edges _ ih _ hgoes).resolve_right fun hx =>
      hx.elim List.not_mem_nil hlength.not_gt

end StackSearch

end Arcxa
