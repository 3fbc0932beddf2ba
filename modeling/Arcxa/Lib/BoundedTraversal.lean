import Mathlib.Tactic

/-!
# Depth-first traversal with a bound on the depth

A traversal that goes from a node to the targets of its items, as deep as a budget lasts, and never
visits a node twice. It collects the items of what it visits. A node that it comes to on a long way first
is visited with little budget left, and not again on a shorter way. `traverse_spec` says what is left
behind: each visited node but the first was come to from one with one more budget, and what leads on
from a node with budget is visited.
-/

namespace Arcxa

variable {K I : Type} [DecidableEq K]

def traverse (items : K → List I) (targets : I → List K) :
    Nat → K → List (K × Nat) × List I → List (K × Nat) × List I
  | 0, _, s => s
  | budget + 1, node, s =>
    if node ∈ s.1.map Prod.fst then s
    else
      (items node).foldl (fun s item =>
        (targets item).foldl (fun s target => traverse items targets budget target s)
          (s.1, s.2 ++ [item]))
        (s.1 ++ [(node, budget + 1)], s.2)

namespace Traversal

variable (items : K → List I) (targets : I → List K)

def Leads (node next : K) : Prop := ∃ item ∈ items node, next ∈ targets item

/-- What leads on from the node is visited, if it had budget for that. -/
def Closed (marks : List (K × Nat)) (mark : K × Nat) : Prop :=
  2 ≤ mark.2 → ∀ next, Leads items targets mark.1 next → next ∈ marks.map Prod.fst

def HasParent (marks : List (K × Nat)) (mark : K × Nat) : Prop :=
  ∃ parent ∈ marks, parent.2 = mark.2 + 1 ∧ Leads items targets parent.1 mark.1

/-- What is visited on a part of a traversal: the nodes are new, each was come to from another or is
one of the `roots` of the part, and their items are collected, and `extra` ones beside. -/
structure Extends (roots : K × Nat → Prop) (extra : List I) (s s' : List (K × Nat) × List I) :
    Prop where
  visited : ∃ new, s'.1 = s.1 ++ new ∧
    s'.2.Perm (s.2 ++ extra ++ new.flatMap fun mark => items mark.1) ∧
    ∀ mark ∈ new, 1 ≤ mark.2 ∧ Closed items targets s'.1 mark ∧
      (roots mark ∨ HasParent items targets s'.1 mark)
  nodup : (s.1.map Prod.fst).Nodup → (s'.1.map Prod.fst).Nodup

variable {items targets} {roots : K × Nat → Prop} {s s' s'' : List (K × Nat) × List I}
variable {budget : Nat} {node : K}

omit [DecidableEq K] in
theorem Closed.append {marks : List (K × Nat)} {mark : K × Nat} (h : Closed items targets marks mark)
    (new : List (K × Nat)) : Closed items targets (marks ++ new) mark := by
  intro hbudget next hnext
  rw [List.map_append]
  exact List.mem_append_left _ (h hbudget next hnext)

omit [DecidableEq K] in
theorem HasParent.append {marks : List (K × Nat)} {mark : K × Nat}
    (h : HasParent items targets marks mark) (new : List (K × Nat)) :
    HasParent items targets (marks ++ new) mark := by
  obtain ⟨parent, hparent, hleads⟩ := h
  exact ⟨parent, List.mem_append_left _ hparent, hleads⟩

omit [DecidableEq K] in
theorem Extends.refl (roots : K × Nat → Prop) (s : List (K × Nat) × List I) :
    Extends items targets roots [] s s where
  visited := ⟨[], (List.append_nil _).symm, by simp, fun _ hmark => absurd hmark List.not_mem_nil⟩
  nodup := id

omit [DecidableEq K] in
theorem Extends.collect (roots : K × Nat → Prop) (s : List (K × Nat) × List I) (item : I) :
    Extends items targets roots [item] s (s.1, s.2 ++ [item]) where
  visited := ⟨[], (List.append_nil _).symm, by simp, fun _ hmark => absurd hmark List.not_mem_nil⟩
  nodup := id

omit [DecidableEq K] in
theorem Extends.trans {extra extra' : List I} (h : Extends items targets roots extra s s')
    (h' : Extends items targets roots extra' s' s'') :
    Extends items targets roots (extra ++ extra') s s'' where
  visited := by
    obtain ⟨new, hnew, hitems, hmarks⟩ := h.visited
    obtain ⟨new', hnew', hitems', hmarks'⟩ := h'.visited
    refine ⟨new ++ new', by rw [hnew', hnew, List.append_assoc], ?_, fun mark hmark => ?_⟩
    · refine hitems'.trans ?_
      rw [List.flatMap_append]
      have hperm := (hitems.append_right extra').append_right (new'.flatMap fun mark => items mark.1)
      refine hperm.trans ?_
      simp only [List.append_assoc]
      refine (List.Perm.append_left _ (List.Perm.append_left _ ?_))
      rw [← List.append_assoc, ← List.append_assoc]
      exact List.perm_append_comm.append_right _
    · obtain hmark | hmark := List.mem_append.mp hmark
      · obtain ⟨hpos, hclosed, hparent⟩ := hmarks mark hmark
        rw [hnew']
        exact ⟨hpos, hclosed.append _, hparent.imp_right fun hparent => hparent.append _⟩
      · exact hmarks' mark hmark
  nodup hnodup := h'.nodup (h.nodup hnodup)

omit [DecidableEq K] in
theorem Extends.mono {extra : List I} {roots' : K × Nat → Prop} (hroots : ∀ mark, roots mark → roots' mark)
    (h : Extends items targets roots extra s s') : Extends items targets roots' extra s s' where
  visited := by
    obtain ⟨new, hnew, hitems, hmarks⟩ := h.visited
    refine ⟨new, hnew, hitems, fun mark hmark => ?_⟩
    obtain ⟨hpos, hclosed, hparent⟩ := hmarks mark hmark
    exact ⟨hpos, hclosed, hparent.imp_left (hroots mark)⟩
  nodup := h.nodup

omit [DecidableEq K] in
theorem Extends.subset {extra : List I} (h : Extends items targets roots extra s s') :
    s.1.map Prod.fst ⊆ s'.1.map Prod.fst := by
  obtain ⟨new, hnew, -⟩ := h.visited
  rw [hnew, List.map_append]
  exact List.subset_append_left _ _

omit [DecidableEq K] in
theorem foldl_extends {A : Type} {f : List (K × Nat) × List I → A → List (K × Nat) × List I}
    {extra : A → List I} {l : List A} {P : A → K → Prop}
    (hf : ∀ s, ∀ a ∈ l, Extends items targets roots (extra a) s (f s a) ∧
      ∀ x, P a x → x ∈ (f s a).1.map Prod.fst) :
    Extends items targets roots (l.flatMap extra) s (l.foldl f s) ∧
      ∀ a ∈ l, ∀ x, P a x → x ∈ (l.foldl f s).1.map Prod.fst := by
  induction l generalizing s with
  | nil => exact ⟨.refl roots s, fun _ ha => absurd ha List.not_mem_nil⟩
  | cons a l ih =>
    obtain ⟨ha, hx⟩ := hf s a (List.mem_cons_self ..)
    obtain ⟨hl, hxs⟩ := ih (s := f s a) fun s b hb => hf s b (List.mem_cons_of_mem _ hb)
    rw [List.foldl_cons, List.flatMap_cons]
    refine ⟨ha.trans hl, List.forall_mem_cons.mpr ⟨fun x hax => hl.subset (hx x hax), hxs⟩⟩

/-- **What a traversal leaves behind.** -/
theorem traverse_spec (budget : Nat) (node : K) (s : List (K × Nat) × List I) :
    Extends items targets (· = (node, budget)) [] s (traverse items targets budget node s) ∧
      (1 ≤ budget → (node, budget) ∈ (traverse items targets budget node s).1 ∨
        node ∈ s.1.map Prod.fst) := by
  induction budget generalizing node s with
  | zero => exact ⟨.refl _ s, fun hbudget => absurd hbudget (by decide)⟩
  | succ budget ih =>
    rw [traverse]
    split_ifs with hvisited
    · exact ⟨.refl _ s, fun _ => .inr hvisited⟩
    · -- the targets of the items, from the node that is marked
      let child : K × Nat → Prop := fun mark => mark.2 = budget ∧ Leads items targets node mark.1
      have htarget : ∀ item ∈ items node, ∀ s, ∀ target ∈ targets item,
          Extends items targets child [] s (traverse items targets budget target s) ∧
            ∀ x, 1 ≤ budget ∧ x = target → x ∈ (traverse items targets budget target s).1.map Prod.fst := by
        intro item hitem s target htarget
        refine ⟨(ih target s).1.mono fun mark hmark => ?_, ?_⟩
        · subst hmark
          exact ⟨rfl, item, hitem, htarget⟩
        · rintro x ⟨hbudget, rfl⟩
          exact ((ih x s).2 hbudget).elim List.mem_map_of_mem fun hx => (ih x s).1.subset hx
      have hitem : ∀ s, ∀ item ∈ items node,
          Extends items targets child [item] s ((targets item).foldl
            (fun s target => traverse items targets budget target s) (s.1, s.2 ++ [item])) ∧
            ∀ x, 1 ≤ budget ∧ x ∈ targets item → x ∈ ((targets item).foldl
              (fun s target => traverse items targets budget target s) (s.1, s.2 ++ [item])).1.map Prod.fst := by
        intro s item hitem
        obtain ⟨hfold, hmem⟩ := foldl_extends (htarget item hitem)
        refine ⟨?_, fun x hx => hmem x hx.2 x ⟨hx.1, rfl⟩⟩
        have hcollect := (Extends.collect child s item).trans hfold
        rwa [List.flatMap_eq_nil_iff.mpr fun _ _ => rfl, List.append_nil] at hcollect
      obtain ⟨hextends, hmem⟩ := foldl_extends hitem (s := (s.1 ++ [(node, budget + 1)], s.2))
      rw [List.flatMap_singleton'] at hextends
      obtain ⟨new, hnew, hitems, hmarks⟩ := hextends.visited
      rw [List.append_assoc] at hnew
      have hnode : (node, budget + 1) ∈ s.1 ++ ([(node, budget + 1)] ++ new) := by simp
      refine ⟨⟨⟨_, hnew, ?_, ?_⟩, fun hnodup => hextends.nodup ?_⟩, fun _ => ?_⟩
      · rwa [List.append_nil, List.flatMap_append, List.flatMap_singleton, ← List.append_assoc]
      · refine List.forall_mem_cons.mpr ⟨⟨Nat.le_add_left .., ?_, .inl rfl⟩, fun mark hmark => ?_⟩
        · rintro hbudget next ⟨item, hitem, hnext⟩
          exact hmem item hitem next ⟨Nat.le_of_succ_le_succ hbudget, hnext⟩
        · obtain ⟨hpos, hclosed, hparent⟩ := hmarks mark hmark
          refine ⟨hpos, hclosed, .inr ?_⟩
          obtain ⟨hbudget, hleads⟩ | hparent := hparent
          · exact ⟨(node, budget + 1), hnew ▸ hnode, by rw [hbudget], hleads⟩
          · exact hparent
      · rw [List.map_append, List.nodup_append]
        refine ⟨hnodup, List.nodup_singleton _, fun x hx y hy hxy => hvisited ?_⟩
        obtain rfl : y = node := List.mem_singleton.mp hy
        exact hxy ▸ hx
      · rw [hnew]
        exact .inl hnode

/-! ## From a start -/

/-- The node can be come to with that many steps. -/
inductive Steps (leads : K → K → Prop) (start : K) : Nat → K → Prop where
  | start : Steps leads start 0 start
  | step {n : Nat} {node next : K} (h : Steps leads start n node) (hleads : leads node next) :
    Steps leads start (n + 1) next

variable {start : K} {marks : List (K × Nat)}

/-- What is visited from a start. -/
structure From (items : K → List I) (targets : I → List K) (budget : Nat) (start : K)
    (marks : List (K × Nat)) : Prop where
  start_mem : (start, budget) ∈ marks
  nodup : (marks.map Prod.fst).Nodup
  mark : ∀ mark ∈ marks, 1 ≤ mark.2 ∧ Closed items targets marks mark ∧
    (mark = (start, budget) ∨ HasParent items targets marks mark)

variable (items targets) in
theorem traverse_from (hbudget : 1 ≤ budget) (start : K) :
    From items targets budget start (traverse items targets budget start ([], [])).1 ∧
      (traverse items targets budget start ([], [])).2.Perm
        ((traverse items targets budget start ([], [])).1.flatMap fun mark => items mark.1) := by
  obtain ⟨hextends, hstart⟩ := traverse_spec budget start ([], [])
  obtain ⟨new, hnew, hitems, hmarks⟩ := hextends.visited
  rw [List.nil_append] at hnew
  refine ⟨⟨(hstart hbudget).resolve_right List.not_mem_nil, hextends.nodup List.nodup_nil, ?_⟩, ?_⟩
  · exact fun mark hmark => hmarks mark (hnew ▸ hmark)
  · rw [hnew]
    exact hitems

namespace From

omit [DecidableEq K]

variable (h : From items targets budget start marks)

include h

theorem steps_of_mark {mark : K × Nat} (hmark : mark ∈ marks) :
    ∃ n, n + mark.2 = budget ∧ Steps (Leads items targets) start n mark.1 := by
  -- by induction on how far the budget is from the greatest one
  obtain ⟨top, htop⟩ : ∃ top, ∀ mark ∈ marks, mark.2 ≤ top :=
    ⟨(marks.map Prod.snd).sum, fun mark hmark => List.le_sum_of_mem (List.mem_map_of_mem hmark)⟩
  induction hn : top - mark.2 generalizing mark with
  | zero =>
    obtain ⟨-, -, rfl | ⟨parent, hparent, hbudget, -⟩⟩ := h.mark mark hmark
    · exact ⟨0, Nat.zero_add _, .start⟩
    · have := htop parent hparent
      omega
  | succ n ih =>
    obtain ⟨-, -, rfl | ⟨parent, hparent, hbudget, hleads⟩⟩ := h.mark mark hmark
    · exact ⟨0, Nat.zero_add _, .start⟩
    · obtain ⟨m, hm, hsteps⟩ := ih hparent (by omega)
      exact ⟨m + 1, by omega, hsteps.step hleads⟩

theorem steps {x : K} (hx : x ∈ marks.map Prod.fst) :
    ∃ n < budget, Steps (Leads items targets) start n x := by
  obtain ⟨mark, hmark, rfl⟩ := List.mem_map.mp hx
  obtain ⟨n, hn, hsteps⟩ := h.steps_of_mark hmark
  have hpos := (h.mark mark hmark).1
  exact ⟨n, by omega, hsteps⟩

theorem next_mem {mark : K × Nat} (hmark : mark ∈ marks) (hbudget : 2 ≤ mark.2) {next : K}
    (hleads : Leads items targets mark.1 next) :
    next ∈ marks.map Prod.fst := (h.mark mark hmark).2.1 hbudget next hleads

end From

/-! ## Nodes that are come to late -/

/-- No visited node is come to again with more budget left than it was visited with: a node leads on with
what is left of its budget. -/
def NeverLate (items : K → List I) (targets : I → List K) (marks : List (K × Nat)) : Prop :=
  ∀ mark ∈ marks, 2 ≤ mark.2 → ∀ item ∈ items mark.1, ∀ next ∈ targets item,
    ∃ later ∈ marks, later.1 = next ∧ mark.2 ≤ later.2 + 1

instance : Decidable (NeverLate items targets marks) :=
  inferInstanceAs (Decidable (∀ _ ∈ _, _ → ∀ _ ∈ _, ∀ _ ∈ _, ∃ _ ∈ _, _ ∧ _))

omit [DecidableEq K] in
/-- Then each node is visited with what a shortest way to it leaves. -/
theorem NeverLate.mem (h : NeverLate items targets marks) (hfrom : From items targets budget start marks)
    {n : Nat} (hn : n < budget) {x : K} (hx : Steps (Leads items targets) start n x) :
    ∃ mark ∈ marks, mark.1 = x ∧ budget ≤ mark.2 + n := by
  induction hx with
  | start => exact ⟨_, hfrom.start_mem, rfl, Nat.le_refl _⟩
  | step _ hleads ih =>
    obtain ⟨mark, hmark, rfl, hbudget⟩ := ih (by omega)
    obtain ⟨item, hitem, hnext⟩ := hleads
    obtain ⟨later, hlater, rfl, hle⟩ := h mark hmark (by omega) item hitem _ hnext
    exact ⟨later, hlater, rfl, by omega⟩

/-! ## What is collected more than once -/

def nexts (items : K → List I) (targets : I → List K) (marks : List (K × Nat)) : List K :=
  marks.flatMap fun mark => (items mark.1).flatMap targets

omit [DecidableEq K] in
theorem mem_flatMap_targets {x next : K} :
    next ∈ (items x).flatMap targets ↔ Leads items targets x next := List.mem_flatMap

omit [DecidableEq K] in
theorem eq_of_leads (hnodup : (nexts items targets marks).Nodup) {mark mark' : K × Nat}
    (hmark : mark ∈ marks) (hmark' : mark' ∈ marks) {next : K} (h : Leads items targets mark.1 next)
    (h' : Leads items targets mark'.1 next) : mark = mark' := by
  have hsymm : Std.Symm (Function.onFun List.Disjoint fun mark : K × Nat =>
      (items mark.1).flatMap targets) := ⟨fun _ _ hdisjoint => hdisjoint.symm⟩
  by_contra hne
  exact (List.nodup_flatMap.mp hnodup).2.forall hmark hmark' hne (mem_flatMap_targets.mpr h)
    (mem_flatMap_targets.mpr h')

variable (h : From items targets budget start marks)

include h

omit [DecidableEq K] in
theorem From.budget_of_nodup (hnodup : (nexts items targets marks).Nodup) {n : Nat} {x : K}
    (hx : Steps (Leads items targets) start n x)
    (hshortest : ∀ m < n, ¬ Steps (Leads items targets) start m x) (hn : n < budget) :
    (x, budget - n) ∈ marks := by
  induction n generalizing x with
  | zero =>
    cases hx
    exact h.start_mem
  | succ n ih =>
    cases hx with
    | @step _ node _ hnode hleads =>
      have hmark := ih hnode (fun m hm hsteps => hshortest (m + 1) (by omega) (hsteps.step hleads)) (by omega)
      have hvisited := h.next_mem hmark (show 2 ≤ budget - n by omega) hleads
      obtain ⟨⟨x', r⟩, hr, rfl⟩ := List.mem_map.mp hvisited
      obtain ⟨-, -, heq | ⟨parent, hparent, hbudget, hleads'⟩⟩ := h.mark _ hr
      · cases heq
        exact absurd .start (hshortest 0 (Nat.succ_pos n))
      · -- the node that it was come to from is the one on the shortest way
        obtain rfl : parent = (node, budget - n) := eq_of_leads hnodup hparent hmark hleads' hleads
        have : budget - (n + 1) = r := by
          simp only at hbudget
          omega
        exact this ▸ hr

omit [DecidableEq K] in
theorem From.mem_of_nodup (hnodup : (nexts items targets marks).Nodup) {x : K}
    (hx : ∃ n < budget, Steps (Leads items targets) start n x) : ∃ r, (x, r) ∈ marks := by
  classical
  have hfind := Nat.find_spec hx
  refine ⟨_, h.budget_of_nodup hnodup hfind.2 (fun m hm hsteps => ?_) hfind.1⟩
  exact Nat.find_min hx hm ⟨hm.trans hfind.1, hsteps⟩

omit [DecidableEq K] in
/-- **Nothing is come to twice** exactly when no node is led to from two nodes that can be come to
before the budget is used up. -/
theorem From.nodup_iff (hitems : ∀ x, ((items x).flatMap targets).Nodup) :
    (nexts items targets marks).Nodup ↔
      ∀ x y next, (∃ n < budget, Steps (Leads items targets) start n x) →
        (∃ n < budget, Steps (Leads items targets) start n y) →
          Leads items targets x next → Leads items targets y next → x = y := by
  constructor
  · intro hnodup x y next hx hy hleads hleads'
    obtain ⟨r, hr⟩ := h.mem_of_nodup hnodup hx
    obtain ⟨r', hr'⟩ := h.mem_of_nodup hnodup hy
    exact congrArg Prod.fst (eq_of_leads hnodup hr hr' hleads hleads')
  · intro hsingle
    refine List.nodup_flatMap.mpr ⟨fun mark _ => hitems mark.1, ?_⟩
    refine (List.pairwise_map.mp h.nodup).imp_of_mem fun hmark hmark' hne => ?_
    intro next hnext hnext'
    exact hne (hsingle _ _ next (h.steps (List.mem_map_of_mem hmark))
      (h.steps (List.mem_map_of_mem hmark')) (mem_flatMap_targets.mp hnext)
      (mem_flatMap_targets.mp hnext'))

omit [DecidableEq K] in
theorem From.mem_nexts (hnodup : (nexts items targets marks).Nodup) {x : K} :
    x ∈ nexts items targets marks ↔ ∃ n < budget, Steps (Leads items targets) start (n + 1) x := by
  constructor
  · intro hx
    obtain ⟨mark, hmark, hx⟩ := List.mem_flatMap.mp hx
    obtain ⟨n, hn, hsteps⟩ := h.steps (List.mem_map_of_mem hmark)
    exact ⟨n, hn, hsteps.step (mem_flatMap_targets.mp hx)⟩
  · rintro ⟨n, hn, hsteps⟩
    cases hsteps with
    | step hnode hleads =>
      obtain ⟨r, hr⟩ := h.mem_of_nodup hnodup ⟨n, hn, hnode⟩
      exact List.mem_flatMap.mpr ⟨_, hr, mem_flatMap_targets.mpr hleads⟩

end Traversal

end Arcxa
