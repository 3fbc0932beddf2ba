import Mathlib.Data.Fintype.Card
import Mathlib.Order.Bounds.Basic
import Mathlib.Tactic

/-!
# Orders that respect a relation

`r p a` says that `p` comes before `a`. A list is in order where whatever comes before one of its
elements stands before it (`PredsFirst`). The depth of an element is the length of the longest chain
that ends in it, and one pass over a list in order finds it from the depths of the elements before
(`isDepth_levelOf`). `topologicalSort` orders the elements of every acyclic relation
(`predsFirst_topologicalSort`).
-/

namespace Arcxa

open Relation

variable {α β : Type} {r : α → α → Prop}

/-! ## Lists in order -/

def PredsFirst (r : α → α → Prop) (order : List α) : Prop :=
  ∀ before a after, order = before ++ a :: after → ∀ p, r p a → p ∈ before

theorem predsFirst_nil : PredsFirst r [] := by
  intro before a after h
  simp at h

variable {order : List α} {a : α}

theorem PredsFirst.concat (h : PredsFirst r order) (ha : ∀ p, r p a → p ∈ order) :
    PredsFirst r (order ++ [a]) := by
  intro before b after heq p hp
  rcases List.eq_nil_or_concat after with rfl | ⟨rest, last, rfl⟩
  · obtain ⟨rfl, hab⟩ := List.append_inj' heq rfl
    cases hab
    exact ha p hp
  · rw [List.concat_eq_append, ← List.cons_append, ← List.append_assoc] at heq
    obtain ⟨hinit, -⟩ := List.append_inj' heq rfl
    exact h before b rest hinit p hp

theorem PredsFirst.left {order after : List α} (h : PredsFirst r (order ++ after)) :
    PredsFirst r order := by
  intro before a rest heq p hp
  exact h before a (rest ++ after) (by rw [heq, List.append_assoc, List.cons_append]) p hp

theorem PredsFirst.last (h : PredsFirst r (order ++ [a])) : ∀ p, r p a → p ∈ order :=
  h order a [] rfl

theorem PredsFirst.transGen (h : PredsFirst r order) : PredsFirst (TransGen r) order := by
  intro before a after heq p hp
  induction hp using TransGen.head_induction_on with
  | single hpa => exact h before a after heq _ hpa
  | head hpq _ ih =>
    obtain ⟨front, back, rfl⟩ := List.append_of_mem ih
    have hfront := h front _ (back ++ a :: after) (by simp [heq]) _ hpq
    exact List.mem_append_left _ hfront

theorem PredsFirst.acyclic (h : PredsFirst r order) (hnodup : order.Nodup) (ha : a ∈ order) :
    ¬ TransGen r a a := by
  intro hcycle
  obtain ⟨before, after, rfl⟩ := List.append_of_mem ha
  have hbefore := h.transGen before a after rfl a hcycle
  exact (List.nodup_append.mp hnodup).2.2 a hbefore a List.mem_cons_self rfl

variable {r' : β → β → Prop}

theorem PredsFirst.map {f : α → β} (h : PredsFirst r order)
    (hback : ∀ a ∈ order, ∀ q, r' q (f a) → ∃ p, r p a ∧ f p = q) :
    PredsFirst r' (order.map f) := by
  intro before b after heq q hq
  obtain ⟨front, back, rfl, rfl, htail⟩ := List.map_eq_append_iff.mp heq
  obtain ⟨a, rest, rfl, rfl, rfl⟩ := List.map_eq_cons_iff.mp htail
  obtain ⟨p, hpa, rfl⟩ := hback a (by simp) q hq
  exact List.mem_map_of_mem (h front a rest rfl p hpa)

/-! ## Depth -/

/-- A chain of `n` steps that ends in the element. -/
inductive ChainTo (r : α → α → Prop) : Nat → α → Prop where
  | start (a : α) : ChainTo r 0 a
  | step {n : Nat} {p a : α} (h : ChainTo r n p) (hpa : r p a) : ChainTo r (n + 1) a

/-- `n` is the length of the longest chain that ends in `a`. -/
def IsDepth (r : α → α → Prop) (a : α) (n : Nat) : Prop := IsGreatest {n | ChainTo r n a} n

theorem IsDepth.lt {p a : α} {m n : Nat} (hp : IsDepth r p m) (ha : IsDepth r a n) (h : r p a) :
    m < n :=
  ha.2 (ChainTo.step hp.1 h)

theorem IsDepth.lt_of_transGen {p a : α} {m n : Nat} (hp : IsDepth r p m) (ha : IsDepth r a n)
    (h : TransGen r p a) : m < n := by
  have hchain : ∀ {q : α}, TransGen r p q → ∃ k, m < k ∧ ChainTo r k q := by
    intro q hq
    induction hq with
    | single hpq => exact ⟨m + 1, Nat.lt_succ_self m, .step hp.1 hpq⟩
    | tail _ hqs ih =>
      obtain ⟨k, hmk, hk⟩ := ih
      exact ⟨k + 1, Nat.lt_succ_of_lt hmk, .step hk hqs⟩
  obtain ⟨k, hmk, hk⟩ := hchain h
  exact Nat.lt_of_lt_of_le hmk (ha.2 hk)

variable {R : α → β → Prop}

theorem ChainTo.simulate (hR : ∀ a b, R a b → ∀ p, r p a → ∃ q, r' q b ∧ R p q) {n : Nat} {b : β}
    (h : ChainTo r n a) (hab : R a b) : ChainTo r' n b := by
  induction h generalizing b with
  | start a => exact .start b
  | step _ hpa ih =>
    obtain ⟨q, hqb, hpq⟩ := hR _ b hab _ hpa
    exact .step (ih hpq) hqb

theorem transGen_simulate (hR : ∀ a b, R a b → ∀ p, r p a → ∃ q, r' q b ∧ R p q) {p a : α} {b : β}
    (h : TransGen r p a) (hab : R a b) : ∃ q, TransGen r' q b ∧ R p q := by
  induction h using TransGen.head_induction_on with
  | single hpa =>
    obtain ⟨q, hqb, hpq⟩ := hR _ b hab _ hpa
    exact ⟨q, .single hqb, hpq⟩
  | head hop _ ih =>
    obtain ⟨q, hqb, hpq⟩ := ih
    obtain ⟨s, hsq, hos⟩ := hR _ q hpq _ hop
    exact ⟨s, .head hsq hqb, hos⟩

theorem isDepth_iff_of_simulation (hforth : ∀ a b, R a b → ∀ p, r p a → ∃ q, r' q b ∧ R p q)
    (hback : ∀ a b, R a b → ∀ q, r' q b → ∃ p, r p a ∧ R p q) {n : Nat} {b : β} (hab : R a b) :
    IsDepth r a n ↔ IsDepth r' b n := by
  have hchains : ∀ m, ChainTo r m a ↔ ChainTo r' m b := fun m =>
    ⟨fun h => h.simulate hforth hab,
      fun h => h.simulate (R := fun b a => R a b) (fun b a hab => hback a b hab) hab⟩
  have hset : {m | ChainTo r m a} = {m | ChainTo r' m b} := Set.ext hchains
  rw [IsDepth, IsDepth, hset]

/-! ## Levels -/

section Levels

variable (level : α → Option Nat)

/-- One more than the highest level among `preds`; those without a level do not count. -/
def levelOf (preds : List α) : Nat :=
  preds.foldl (fun highest p => (level p).elim highest fun n => max highest (n + 1)) 0

variable {level}

theorem levelOf_concat (preds : List α) (p : α) :
    levelOf level (preds ++ [p]) =
      (level p).elim (levelOf level preds) fun n => max (levelOf level preds) (n + 1) := by
  rw [levelOf, List.foldl_append]
  rfl

theorem lt_levelOf {preds : List α} {p : α} {n : Nat} (hp : p ∈ preds) (hn : level p = some n) :
    n < levelOf level preds := by
  induction preds using List.reverseRecOn with
  | nil => exact absurd hp (by simp)
  | append_singleton preds q ih =>
    rw [levelOf_concat]
    rcases List.mem_append.mp hp with hp | hp
    · have hlt := ih hp
      cases level q with
      | none => exact hlt
      | some m => exact Nat.lt_of_lt_of_le hlt (Nat.le_max_left _ _)
    · rw [List.mem_singleton] at hp
      subst hp
      rw [hn]
      exact Nat.le_max_right _ _

variable (level) in
theorem levelOf_eq_zero_or (preds : List α) :
    levelOf level preds = 0 ∨ ∃ p ∈ preds, ∃ n, level p = some n ∧ levelOf level preds = n + 1 := by
  induction preds using List.reverseRecOn with
  | nil => exact .inl rfl
  | append_singleton preds q ih =>
    have hkept : levelOf level preds = 0 ∨
        ∃ p ∈ preds ++ [q], ∃ n, level p = some n ∧ levelOf level preds = n + 1 :=
      ih.imp_right fun ⟨p, hp, hn⟩ => ⟨p, List.mem_append_left _ hp, hn⟩
    rw [levelOf_concat]
    cases hq : level q with
    | none => exact hkept
    | some m =>
      simp only [Option.elim_some]
      rcases Nat.le_total (levelOf level preds) (m + 1) with hle | hle
      · rw [max_eq_right hle]
        exact .inr ⟨q, by simp, m, hq, rfl⟩
      · rw [max_eq_left hle]
        exact hkept

theorem isDepth_levelOf {preds : List α} {a : α} (hpreds : ∀ p, r p a ↔ p ∈ preds)
    (hlevel : ∀ p ∈ preds, ∃ n, level p = some n ∧ IsDepth r p n) :
    IsDepth r a (levelOf level preds) := by
  constructor
  · rcases levelOf_eq_zero_or level preds with hzero | ⟨p, hp, n, hn, heq⟩
    · rw [hzero]
      exact .start a
    · obtain ⟨m, hm, hdepth⟩ := hlevel p hp
      rw [hn, Option.some.injEq] at hm
      subst hm
      rw [heq]
      exact ChainTo.step hdepth.1 ((hpreds p).mpr hp)
  · intro n hchain
    cases hchain with
    | start => exact Nat.zero_le _
    | step hchain hpa =>
      have hp := (hpreds _).mp hpa
      obtain ⟨m, hm, hdepth⟩ := hlevel _ hp
      exact Nat.lt_of_le_of_lt (hdepth.2 hchain) (lt_levelOf hp hm)

end Levels

/-! ## Batches -/

variable {batches : List (List α)}

theorem exists_of_flatten_eq {before after : List α} (h : batches.flatten = before ++ a :: after) :
    ∃ (level : Nat) (batch : List α), batches[level]? = some batch ∧ a ∈ batch ∧
      ∀ k < level, ∀ earlier, batches[k]? = some earlier → ∀ x ∈ earlier, x ∈ before := by
  induction batches generalizing before with
  | nil => simp at h
  | cons first rest ih =>
    -- in a later batch, after all of the first
    have hlater : ∀ front, rest.flatten = front ++ a :: after → first ++ front = before →
        ∃ (level : Nat) (batch : List α), (first :: rest)[level]? = some batch ∧ a ∈ batch ∧
          ∀ k < level, ∀ earlier, (first :: rest)[k]? = some earlier → ∀ x ∈ earlier,
            x ∈ before := by
      rintro front hrest rfl
      obtain ⟨level, batch, hbatch, ha, hearlier⟩ := ih hrest
      refine ⟨level + 1, batch, hbatch, ha, fun k hk earlier hget x hx => ?_⟩
      cases k with
      | zero =>
        cases hget
        exact List.mem_append_left _ hx
      | succ k =>
        exact List.mem_append_right _ (hearlier k (Nat.lt_of_succ_lt_succ hk) earlier hget x hx)
    rw [List.flatten_cons, List.append_eq_append_iff] at h
    rcases h with ⟨front, hbefore, hrest⟩ | ⟨tail, hfirst, hrest⟩
    · exact hlater front hrest hbefore.symm
    · cases tail with
      | nil => exact hlater [] hrest.symm (by rw [hfirst, List.append_nil, List.append_nil])
      | cons b tail =>
        obtain ⟨rfl, -⟩ := List.cons.inj hrest
        exact ⟨0, first, rfl, by simp [hfirst], fun k hk => absurd hk (Nat.not_lt_zero k)⟩

theorem predsFirst_flatten
    (hdepth : ∀ (level : Nat) (batch : List α), batches[level]? = some batch →
      ∀ a ∈ batch, IsDepth r a level)
    (hclosed : ∀ a ∈ batches.flatten, ∀ p, r p a → p ∈ batches.flatten) :
    PredsFirst r batches.flatten := by
  intro before a after heq p hpa
  obtain ⟨level, batch, hbatch, ha, hearlier⟩ := exists_of_flatten_eq heq
  have hmem : a ∈ batches.flatten := by simp [heq]
  obtain ⟨earlier, hmember, hp⟩ := List.mem_flatten.mp (hclosed a hmem p hpa)
  obtain ⟨k, hk⟩ := List.getElem?_of_mem hmember
  have hlt := (hdepth k earlier hk p hp).lt (hdepth level batch hbatch a ha) hpa
  exact hearlier k hlt earlier hk p hp

def addToBatch (batches : List (List α)) (level : Nat) (a : α) : List (List α) :=
  (batches ++ List.replicate (level + 1 - batches.length) []).modify level (· ++ [a])

theorem perm_flatten_modify {level : Nat} (h : level < batches.length) (a : α) :
    (batches.modify level (· ++ [a])).flatten.Perm (a :: batches.flatten) := by
  induction batches generalizing level with
  | nil => exact absurd h (Nat.not_lt_zero level)
  | cons first rest ih =>
    cases level with
    | zero =>
      rw [List.modify_zero_cons, List.flatten_cons, List.flatten_cons, List.append_assoc]
      exact List.perm_middle
    | succ level =>
      rw [List.modify_succ_cons, List.flatten_cons, List.flatten_cons]
      exact ((ih (Nat.lt_of_succ_lt_succ h)).append_left first).trans List.perm_middle

theorem perm_flatten_addToBatch (batches : List (List α)) (level : Nat) (a : α) :
    (addToBatch batches level a).flatten.Perm (a :: batches.flatten) := by
  have hlength : level < (batches ++ List.replicate (level + 1 - batches.length) []).length := by
    rw [List.length_append, List.length_replicate]
    omega
  have hperm := perm_flatten_modify hlength a
  rwa [List.flatten_append, List.flatten_replicate_nil, List.append_nil] at hperm

theorem mem_addToBatch {level k : Nat} {a b : α} {batch : List α}
    (hk : (addToBatch batches level a)[k]? = some batch) (hb : b ∈ batch) :
    (k = level ∧ b = a) ∨ ∃ old, batches[k]? = some old ∧ b ∈ old := by
  rw [addToBatch, List.getElem?_modify, Option.map_eq_map, Option.map_eq_some_iff] at hk
  obtain ⟨old, hold, rfl⟩ := hk
  have hkept : b ∈ old → ∃ old, batches[k]? = some old ∧ b ∈ old := by
    intro hmem
    rcases Nat.lt_or_ge k batches.length with hlt | hge
    · rw [List.getElem?_append_left hlt] at hold
      exact ⟨old, hold, hmem⟩
    · rw [List.getElem?_append_right hge, List.getElem?_replicate] at hold
      split_ifs at hold
      cases hold
      exact absurd hmem (by simp)
  split_ifs at hb with hlevel
  · rcases List.mem_append.mp hb with hmem | hmem
    · exact .inr (hkept hmem)
    · exact .inl ⟨hlevel.symm, List.mem_singleton.mp hmem⟩
  · exact .inr (hkept hb)

/-! ## Sorting -/

section Sorting

variable [DecidableEq α] (preds : α → List α)

/-- Moves the first waiting element whose predecessors are all placed. `none`: there is none. -/
def placeReady : Nat → List α → List α → Option (List α)
  | _, placed, [] => some placed
  | 0, _, _ :: _ => none
  | fuel + 1, placed, a :: rest =>
    ((a :: rest).find? fun b => (preds b).all (· ∈ placed)).bind fun b =>
      placeReady fuel (placed ++ [b]) ((a :: rest).erase b)

def topologicalSort (elements : List α) : Option (List α) :=
  placeReady preds elements.length [] elements

variable {preds}

theorem placeReady_ordered {fuel : Nat} {placed waiting order : List α}
    (h : placeReady preds fuel placed waiting = some order)
    (hplaced : PredsFirst (fun p a => p ∈ preds a) placed) :
    order.Perm (placed ++ waiting) ∧ PredsFirst (fun p a => p ∈ preds a) order := by
  induction fuel generalizing placed waiting with
  | zero =>
    cases waiting with
    | nil =>
      cases h
      exact ⟨by rw [List.append_nil], hplaced⟩
    | cons a rest => simp [placeReady] at h
  | succ fuel ih =>
    cases waiting with
    | nil =>
      cases h
      exact ⟨by rw [List.append_nil], hplaced⟩
    | cons a rest =>
      rw [placeReady, Option.bind_eq_some_iff] at h
      obtain ⟨b, hfind, hrest⟩ := h
      have hready := List.find?_some hfind
      simp only [List.all_eq_true, decide_eq_true_eq] at hready
      obtain ⟨hperm, hordered⟩ := ih hrest (hplaced.concat hready)
      have hb : b ∈ a :: rest := List.mem_of_find?_eq_some hfind
      refine ⟨hperm.trans ?_, hordered⟩
      rw [List.append_assoc]
      exact (List.perm_cons_erase hb).symm.append_left placed

theorem exists_minimal {waiting : List α} (hne : waiting ≠ [])
    (hacyclic : ∀ a, ¬ TransGen r a a) : ∃ a ∈ waiting, ∀ p ∈ waiting, ¬ r p a := by
  let onWaiting : {a // a ∈ waiting} → {a // a ∈ waiting} → Prop :=
    fun p a => TransGen r p.1 a.1
  have : IsTrans _ onWaiting := ⟨fun _ _ _ hab hbc => TransGen.trans hab hbc⟩
  have : Std.Irrefl onWaiting := ⟨fun a => hacyclic a.1⟩
  have hwf : WellFounded onWaiting := Finite.wellFounded_of_trans_of_irrefl onWaiting
  obtain ⟨b, hb⟩ := List.exists_mem_of_ne_nil _ hne
  obtain ⟨a, -, hmin⟩ := hwf.has_min Set.univ ⟨⟨b, hb⟩, trivial⟩
  exact ⟨a.1, a.2, fun p hp hpa => hmin ⟨p, hp⟩ trivial (.single hpa)⟩

theorem exists_placeReady (hacyclic : ∀ a, ¬ TransGen (fun p a => p ∈ preds a) a a) {fuel : Nat}
    {placed waiting : List α} (hfuel : waiting.length ≤ fuel)
    (hclosed : ∀ a ∈ waiting, ∀ p ∈ preds a, p ∈ placed ∨ p ∈ waiting) :
    ∃ order, placeReady preds fuel placed waiting = some order := by
  induction fuel generalizing placed waiting with
  | zero =>
    rw [Nat.le_zero, List.length_eq_zero_iff] at hfuel
    subst hfuel
    exact ⟨placed, rfl⟩
  | succ fuel ih =>
    cases waiting with
    | nil => exact ⟨placed, rfl⟩
    | cons a rest =>
      obtain ⟨m, hm, hmin⟩ := exists_minimal (List.cons_ne_nil a rest) hacyclic
      have hready : (preds m).all (· ∈ placed) := by
        rw [List.all_eq_true]
        intro p hp
        have := (hclosed m hm p hp).resolve_right fun hwaits => hmin p hwaits hp
        exact decide_eq_true this
      cases hfind : (a :: rest).find? fun b => (preds b).all (· ∈ placed) with
      | none => exact absurd hready (List.find?_eq_none.mp hfind m hm)
      | some b =>
        have hb : b ∈ a :: rest := List.mem_of_find?_eq_some hfind
        have hlength : ((a :: rest).erase b).length ≤ fuel := by
          rw [List.length_erase_of_mem hb]
          omega
        have hclosed' : ∀ c ∈ (a :: rest).erase b, ∀ p ∈ preds c,
            p ∈ placed ++ [b] ∨ p ∈ (a :: rest).erase b := by
          intro c hc p hp
          rcases hclosed c (List.mem_of_mem_erase hc) p hp with h | h
          · exact .inl (List.mem_append_left _ h)
          · by_cases hpb : p = b
            · exact .inl (by simp [hpb])
            · exact .inr ((List.mem_erase_of_ne hpb).mpr h)
        obtain ⟨order, horder⟩ := ih hlength hclosed'
        exact ⟨order, by rw [placeReady, hfind, Option.bind_some, horder]⟩

theorem predsFirst_topologicalSort {elements order : List α}
    (h : topologicalSort preds elements = some order) :
    order.Perm elements ∧ PredsFirst (fun p a => p ∈ preds a) order :=
  placeReady_ordered h predsFirst_nil

theorem exists_topologicalSort {elements : List α}
    (hclosed : ∀ a ∈ elements, ∀ p ∈ preds a, p ∈ elements)
    (hacyclic : ∀ a, ¬ TransGen (fun p a => p ∈ preds a) a a) :
    ∃ order, topologicalSort preds elements = some order :=
  exists_placeReady hacyclic (Nat.le_refl _) fun a ha p hp => .inr (hclosed a ha p hp)

end Sorting

end Arcxa
