import Mathlib.Tactic

/-!
# Runs of a partial step function

A system is a state type, an action type and a partial step function; an action
that is not enabled has no successor. `Reaches step ok s₀ s` says that some run
from `s₀` ends in `s` and that every step of it met the side condition `ok`, which
may look at the state before the step. All runs are the case where `ok` asks
nothing.

A safety result over runs is then two goals, the initial state and one step
(`Reaches.invariant`). Concrete runs are executed by `exec` and enter through
`Reaches.of_exec`.
-/

namespace Arcxa

variable {σ α : Type}

/-- States reached from `s₀` by a run all of whose steps met `ok`. -/
inductive Reaches (step : σ → α → Option σ) (ok : σ → α → Prop) (s₀ : σ) : σ → Prop where
  | init : Reaches step ok s₀ s₀
  | step {s s' : σ} {a : α} (hreach : Reaches step ok s₀ s) (hok : ok s a)
      (hstep : step s a = some s') : Reaches step ok s₀ s'

def anyStep (_ : σ) (_ : α) : Prop := True

def exec (step : σ → α → Option σ) : σ → List α → Option σ
  | s, [] => some s
  | s, a :: as => (step s a).bind (fun s' => exec step s' as)

/-- Every step of the execution of a list of actions meets `ok`. -/
def OkAlong (step : σ → α → Option σ) (ok : σ → α → Prop) : σ → List α → Prop
  | _, [] => True
  | s, a :: as => ok s a ∧ ∀ s' ∈ step s a, OkAlong step ok s' as

instance okAlongDecidable (step : σ → α → Option σ) (ok : σ → α → Prop)
    [∀ s a, Decidable (ok s a)] : ∀ s as, Decidable (OkAlong step ok s as)
  | _, [] => inferInstanceAs (Decidable True)
  | s, a :: as =>
    have : ∀ s', Decidable (OkAlong step ok s' as) := fun s' => okAlongDecidable step ok s' as
    inferInstanceAs (Decidable (ok s a ∧ ∀ s' ∈ step s a, OkAlong step ok s' as))

variable {as : List α}

namespace Reaches

variable {step : σ → α → Option σ} {ok ok' : σ → α → Prop} {s₀ s s' : σ}

variable (hreach : Reaches step ok s₀ s)

include hreach

theorem invariant {P : σ → Prop} (hinit : P s₀)
    (hstep : ∀ s a s', P s → ok s a → step s a = some s' → P s') : P s := by
  induction hreach with
  | init => exact hinit
  | step _ hok hs ih => exact hstep _ _ _ ih hok hs

/-- The same, where a step may use that its state was reached. -/
theorem invariant' {P : σ → Prop} (hinit : P s₀)
    (hstep : ∀ s a s', Reaches step ok s₀ s → P s → ok s a → step s a = some s' → P s') : P s := by
  induction hreach with
  | init => exact hinit
  | step hr hok hs ih => exact hstep _ _ _ hr ih hok hs

theorem of_exec_from (hok : OkAlong step ok s as) (hexec : exec step s as = some s') :
    Reaches step ok s₀ s' := by
  induction as generalizing s with
  | nil =>
    simp only [exec, Option.some.injEq] at hexec
    exact hexec ▸ hreach
  | cons a as ih =>
    obtain ⟨t, ht, hrest⟩ := Option.bind_eq_some_iff.mp hexec
    exact ih (.step hreach hok.1 ht) (hok.2 t ht) hrest

omit hreach

/-- A run whose steps are all allowed reaches its end. -/
theorem of_exec (hok : OkAlong step ok s as) (hexec : exec step s as = some s') :
    Reaches step ok s s' :=
  of_exec_from .init hok hexec

end Reaches

theorem exec_append (step : σ → α → Option σ) (s : σ) (as bs : List α) :
    exec step s (as ++ bs) = (exec step s as).bind fun t => exec step t bs := by
  induction as generalizing s with
  | nil => rfl
  | cons a as ih =>
    rw [List.cons_append, exec, exec, Option.bind_assoc]
    exact Option.bind_congr fun t _ => ih t

variable {step : σ → α → Option σ}

/-- What no step lowers is no lower at the end. -/
theorem exec_mono {β : Type} [Preorder β] {f : σ → β}
    (hstep : ∀ s a s', step s a = some s' → f s ≤ f s') {s t : σ}
    (hexec : exec step s as = some t) : f s ≤ f t := by
  induction as generalizing s with
  | nil =>
    cases Option.some.inj hexec
    exact le_refl _
  | cons a as ih =>
    obtain ⟨s', hs', hrest⟩ := Option.bind_eq_some_iff.mp hexec
    exact (hstep s a s' hs').trans (ih hrest)

theorem exists_exec {s₀ : σ} {P : σ → Prop}
    (q : σ → Prop) [DecidablePred q] (hany : (exec step s₀ as).any (fun s => q s) = true)
    (hP : ∀ s, exec step s₀ as = some s → q s → P s) :
    ∃ s, exec step s₀ as = some s ∧ P s := by
  obtain ⟨s, hexec, hq⟩ := (Option.any_eq_true _ _).mp hany
  exact ⟨s, hexec, hP s hexec (of_decide_eq_true hq)⟩

variable (f : σ → α → σ)

theorem okAlong_cons_total (ok : σ → α → Prop) (s : σ) (a : α) (as : List α) :
    OkAlong (fun s a => some (f s a)) ok s (a :: as) ↔
      ok s a ∧ OkAlong (fun s a => some (f s a)) ok (f s a) as := by
  simp only [OkAlong, Option.mem_some_iff, forall_eq']

theorem okAlong_append_total (ok : σ → α → Prop) (s : σ) (as bs : List α) :
    OkAlong (fun s a => some (f s a)) ok s (as ++ bs) ↔
      OkAlong (fun s a => some (f s a)) ok s as ∧
        OkAlong (fun s a => some (f s a)) ok (as.foldl f s) bs := by
  induction as generalizing s with
  | nil => exact (and_iff_right trivial).symm
  | cons a as ih =>
    rw [List.cons_append, okAlong_cons_total, okAlong_cons_total, ih, and_assoc]
    rfl

theorem exec_total (s : σ) (as : List α) :
    exec (fun s a => some (f s a)) s as = some (as.foldl f s) := by
  induction as generalizing s with
  | nil => rfl
  | cons a as ih => exact ih (f s a)

/-- A property of all states of a run is one of its start and its steps. -/
theorem forall_prefix_iff_okAlong (P : σ → Prop) (s : σ) (as : List α) :
    (∀ pre, pre <+: as → P (pre.foldl f s)) ↔
      P s ∧ OkAlong (fun s a => some (f s a)) (fun s a => P (f s a)) s as := by
  induction as generalizing s with
  | nil => simp [OkAlong]
  | cons a as ih =>
    rw [okAlong_cons_total, ← ih]
    constructor
    · intro h
      refine ⟨h [] List.nil_prefix, ?_⟩
      intro pre hpre
      exact h (a :: pre) (List.cons_prefix_cons.mpr ⟨rfl, hpre⟩)
    · rintro ⟨hs, hrest⟩ pre hpre
      rcases List.prefix_cons_iff.mp hpre with rfl | ⟨t, rfl, ht⟩
      · exact hs
      · exact hrest t ht

theorem forall_exec_prefix_iff_okAlong (step : σ → α → Option σ) (P : σ → Prop) (s : σ)
    (as : List α) :
    (∀ pre, pre <+: as → ∀ t, exec step s pre = some t → P t) ↔
      P s ∧ OkAlong step (fun s a => ∀ s' ∈ step s a, P s') s as := by
  induction as generalizing s with
  | nil =>
    constructor
    · intro h
      exact ⟨h [] List.nil_prefix s rfl, trivial⟩
    · rintro ⟨hs, -⟩ pre hpre t ht
      rw [List.prefix_nil.mp hpre] at ht
      exact Option.some.inj ht ▸ hs
  | cons a as ih =>
    constructor
    · intro h
      have hnext : ∀ s' ∈ step s a,
          P s' ∧ OkAlong step (fun s a => ∀ s' ∈ step s a, P s') s' as := by
        intro s' hs'
        rw [← ih]
        intro pre hpre t ht
        refine h (a :: pre) (List.cons_prefix_cons.mpr ⟨rfl, hpre⟩) t ?_
        rw [exec, hs']
        exact ht
      exact ⟨h [] List.nil_prefix s rfl, fun s' hs' => (hnext s' hs').1,
        fun s' hs' => (hnext s' hs').2⟩
    · rintro ⟨hs, hok, hrest⟩ pre hpre t ht
      rcases List.prefix_cons_iff.mp hpre with rfl | ⟨pre, rfl, hpre'⟩
      · exact Option.some.inj ht ▸ hs
      · obtain ⟨s', hs', ht⟩ := Option.bind_eq_some_iff.mp ht
        exact (ih s').mpr ⟨hok s' hs', hrest s' hs'⟩ pre hpre' t ht

theorem forall_step_iff_okAlong (Q : σ → α → Prop) (s : σ) (as : List α) :
    (∀ pre a, pre ++ [a] <+: as → Q (pre.foldl f s) a) ↔
      OkAlong (fun s a => some (f s a)) Q s as := by
  induction as generalizing s with
  | nil => exact iff_of_true (fun pre a hpre => absurd (List.prefix_nil.mp hpre) (by simp)) trivial
  | cons b as ih =>
    rw [okAlong_cons_total, ← ih]
    constructor
    · intro h
      refine ⟨h [] b (List.cons_prefix_cons.mpr ⟨rfl, List.nil_prefix⟩), ?_⟩
      intro pre a hpre
      exact h (b :: pre) a (List.cons_prefix_cons.mpr ⟨rfl, hpre⟩)
    · rintro ⟨hb, hrest⟩ pre a hpre
      cases pre with
      | nil =>
        rw [(List.cons_prefix_cons.mp hpre).1]
        exact hb
      | cons c pre =>
        obtain ⟨rfl, hpre'⟩ := List.cons_prefix_cons.mp hpre
        exact hrest pre a hpre'

theorem okAlong_and (step : σ → α → Option σ) (ok ok' : σ → α → Prop) (s : σ) (as : List α) :
    OkAlong step ok s as ∧ OkAlong step ok' s as ↔
      OkAlong step (fun s a => ok s a ∧ ok' s a) s as := by
  induction as generalizing s with
  | nil => exact and_self_iff
  | cons a as ih =>
    simp only [OkAlong, ← ih]
    exact ⟨fun h => ⟨⟨h.1.1, h.2.1⟩, fun s' hs => ⟨h.1.2 s' hs, h.2.2 s' hs⟩⟩,
      fun h => ⟨⟨h.1.1, fun s' hs => (h.2 s' hs).1⟩, h.1.2, fun s' hs => (h.2 s' hs).2⟩⟩

theorem okAlong_anyStep (step : σ → α → Option σ) (s : σ) (as : List α) :
    OkAlong step anyStep s as := by
  induction as generalizing s with
  | nil => trivial
  | cons a as ih => exact ⟨trivial, fun s' _ => ih s'⟩

theorem OkAlong.cons {ok : σ → α → Prop} {s s' : σ} {a : α} (hok : ok s a)
    (hstep : step s a = some s') (hrest : OkAlong step ok s' as) :
    OkAlong step ok s (a :: as) :=
  ⟨hok, fun _ hs' => Option.some.inj (hstep.symm.trans hs') ▸ hrest⟩

theorem OkAlong.mono {ok ok' : σ → α → Prop}
    (himp : ∀ s a, ok s a → ok' s a) {s : σ} (h : OkAlong step ok s as) :
    OkAlong step ok' s as := by
  induction as generalizing s with
  | nil => trivial
  | cons a as ih => exact ⟨himp s a h.1, fun s' hs' => ih (h.2 s' hs')⟩

theorem okAlong_congr_mem {ok ok' : σ → α → Prop} {I : σ → Prop}
    (hagree : ∀ s, ∀ a ∈ as, ∀ s', I s → step s a = some s' →
      (ok s a ↔ ok' s a) ∧ (ok s a → I s'))
    {s t : σ} (hinv : I s) (hexec : exec step s as = some t) :
    OkAlong step ok s as ↔ OkAlong step ok' s as := by
  induction as generalizing s with
  | nil => exact Iff.rfl
  | cons a as ih =>
    obtain ⟨s', hstep, hrest⟩ := Option.bind_eq_some_iff.mp hexec
    obtain ⟨hiff, hkeep⟩ := hagree s a (List.mem_cons_self ..) s' hinv hstep
    have hnext : ∀ P : σ → Prop, (∀ u ∈ step s a, P u) ↔ P s' := by
      intro P
      rw [hstep]
      exact ⟨fun h => h s' rfl, fun h u hu => Option.some.inj hu ▸ h⟩
    show (ok s a ∧ ∀ u ∈ step s a, OkAlong step ok u as) ↔
      (ok' s a ∧ ∀ u ∈ step s a, OkAlong step ok' u as)
    rw [hnext, hnext, ← hiff]
    exact and_congr_right fun hok =>
      ih (fun s a ha => hagree s a (List.mem_cons_of_mem _ ha)) (hkeep hok) hrest

/-- Conditions that agree where the invariant holds agree along a run from there. -/
theorem okAlong_congr {ok ok' : σ → α → Prop} {I : σ → Prop}
    (hagree : ∀ s a s', I s → step s a = some s' → (ok s a ↔ ok' s a) ∧ (ok s a → I s'))
    {s t : σ} (hinv : I s) (hexec : exec step s as = some t) :
    OkAlong step ok s as ↔ OkAlong step ok' s as :=
  okAlong_congr_mem (fun s a _ => hagree s a) hinv hexec

/-- Two conditions agree along a run whose steps meet a third, if they agree at such steps. -/
theorem okAlong_congr_along {met ok ok' : σ → α → Prop} {I : σ → Prop}
    (hagree : ∀ s a s', I s → met s a → step s a = some s' → (ok s a ↔ ok' s a) ∧ (ok s a → I s'))
    {s t : σ} (hinv : I s) (hmet : OkAlong step met s as) (hexec : exec step s as = some t) :
    OkAlong step ok s as ↔ OkAlong step ok' s as := by
  rw [← and_iff_right (b := OkAlong step ok s as) hmet, okAlong_and,
    ← and_iff_right (b := OkAlong step ok' s as) hmet, okAlong_and]
  refine okAlong_congr (I := I) (fun s a s' hs hnext => ?_) hinv hexec
  exact ⟨and_congr_right fun hm => (hagree s a s' hs hm hnext).1,
    fun h => (hagree s a s' hs h.1 hnext).2 h.2⟩

theorem safety_iff_okAlong_mem {ok : σ → α → Prop} {I P : σ → Prop} (hP : ∀ s, I s → P s)
    (hstep : ∀ s, ∀ a ∈ as, ∀ s', I s → step s a = some s' → (P s' → ok s a) ∧ (ok s a → I s'))
    {s t : σ} (hinv : I s) (hexec : exec step s as = some t) :
    (∀ pre, pre <+: as → ∀ u, exec step s pre = some u → P u) ↔ OkAlong step ok s as := by
  rw [forall_exec_prefix_iff_okAlong step P, and_iff_right (hP s hinv)]
  refine okAlong_congr_mem (I := I) (fun s a ha s' hs hnext => ?_) hinv hexec
  obtain ⟨hneed, hkeep⟩ := hstep s a ha s' hs hnext
  have hone : (∀ u ∈ step s a, P u) ↔ P s' := by
    rw [hnext]
    exact ⟨fun h => h s' rfl, fun h u hu => Option.some.inj hu ▸ h⟩
  rw [hone]
  exact ⟨⟨hneed, fun hok => hP s' (hkeep hok)⟩, fun h => hkeep (hneed h)⟩

/-- The property holds all along a run exactly when all its steps meet the condition. -/
theorem safety_iff_okAlong {ok : σ → α → Prop} {I P : σ → Prop}
    (hP : ∀ s, I s → P s)
    (hstep : ∀ s a s', I s → step s a = some s' → (P s' → ok s a) ∧ (ok s a → I s'))
    {s t : σ} (hinv : I s) (hexec : exec step s as = some t) :
    (∀ pre, pre <+: as → ∀ u, exec step s pre = some u → P u) ↔ OkAlong step ok s as :=
  safety_iff_okAlong_mem hP (fun s a _ => hstep s a) hinv hexec

/-- The end is good if all steps meet the condition, and bad if one does not. -/
theorem final_iff_okAlong {ok : σ → α → Prop} (I good bad : σ → Prop)
    (hkeep : ∀ s a s', I s → step s a = some s' →
      I s' ∧ (good s → ok s a → good s') ∧ (¬ ok s a ∨ bad s → bad s'))
    {s t : σ} (hinv : I s) (hexec : exec step s as = some t) :
    I t ∧ (good s → OkAlong step ok s as → good t) ∧
      (¬ OkAlong step ok s as ∨ bad s → bad t) := by
  induction as generalizing s with
  | nil =>
    cases Option.some.inj hexec
    exact ⟨hinv, fun hgood _ => hgood, fun h => h.resolve_left (not_not.mpr trivial)⟩
  | cons a as ih =>
    obtain ⟨s', hstep, hrest⟩ := Option.bind_eq_some_iff.mp hexec
    obtain ⟨hinv', hgood, hbad⟩ := hkeep s a s' hinv hstep
    obtain ⟨hlast, hgoods, hbads⟩ := ih hinv' hrest
    refine ⟨hlast, fun hs hok => hgoods (hgood hs hok.1) (hok.2 s' hstep), fun h => hbads ?_⟩
    rcases h with hnot | hs
    · by_cases hok : ok s a
      · refine .inl fun hlater => hnot ⟨hok, fun u hu => ?_⟩
        exact Option.some.inj (hstep.symm.trans hu) ▸ hlater
      · exact .inr (hbad (.inl hok))
    · exact .inr (hbad (.inr hs))

theorem okAlong_iff_forall_mem {ok : α → Prop} {s t : σ}
    (hexec : exec step s as = some t) :
    OkAlong step (fun _ a => ok a) s as ↔ ∀ a ∈ as, ok a := by
  induction as generalizing s with
  | nil => exact iff_of_true trivial nofun
  | cons a as ih =>
    obtain ⟨s', hstep, hrest⟩ := Option.bind_eq_some_iff.mp hexec
    rw [List.forall_mem_cons, ← ih hrest]
    refine and_congr_right fun _ => ⟨fun h => h s' hstep, fun h u hu => ?_⟩
    exact Option.some.inj (hstep.symm.trans hu) ▸ h

theorem foldl_iff_exists {f : σ → α → σ} {P : σ → Prop} {Q : α → Prop}
    (h : ∀ s a, P (f s a) ↔ P s ∨ Q a) (s : σ) (as : List α) :
    P (as.foldl f s) ↔ P s ∨ ∃ a ∈ as, Q a := by
  induction as generalizing s with
  | nil => simp
  | cons a as ih => rw [List.foldl_cons, ih, h, or_assoc, List.exists_mem_cons_iff]

/-! ## Steps that depend on something else -/

/-- The states after a list of actions, each taken in whatever environment. -/
inductive Outcome {ε : Type} (step : ε → σ → α → σ) : σ → List α → σ → Prop where
  | nil {s : σ} : Outcome step s [] s
  | cons {s t : σ} {a : α} {as : List α} (e : ε) (hrest : Outcome step (step e s a) as t) :
      Outcome step s (a :: as) t

/-- A run has one outcome exactly when no step of it depends on what is chosen. -/
theorem outcome_unique_iff {ε : Type} (step : ε → σ → α → σ) (e₀ : ε) (s : σ) (as : List α) :
    (∀ pre, pre <+: as → ∀ t t', Outcome step s pre t → Outcome step s pre t' → t = t') ↔
      OkAlong (fun s a => some (step e₀ s a)) (fun s a => ∀ e e', step e s a = step e' s a)
        s as := by
  induction as generalizing s with
  | nil =>
    refine iff_of_true ?_ trivial
    intro pre hpre t t' ht ht'
    rw [List.prefix_nil.mp hpre] at ht ht'
    cases ht
    cases ht'
    rfl
  | cons a as ih =>
    rw [okAlong_cons_total, ← ih]
    constructor
    · intro h
      constructor
      · intro e e'
        exact h [a] (List.cons_prefix_cons.mpr ⟨rfl, List.nil_prefix⟩) _ _ (.cons e .nil)
          (.cons e' .nil)
      · intro pre hpre t t' ht ht'
        exact h (a :: pre) (List.cons_prefix_cons.mpr ⟨rfl, hpre⟩) t t' (.cons e₀ ht)
          (.cons e₀ ht')
    · rintro ⟨hstep, hrest⟩ pre hpre t t' ht ht'
      cases ht with
      | nil =>
        cases ht'
        rfl
      | cons e ht =>
        cases ht' with
        | cons e' ht' =>
          obtain ⟨rfl, hpre'⟩ := List.cons_prefix_cons.mp hpre
          rw [hstep e e₀] at ht
          rw [hstep e' e₀] at ht'
          exact hrest _ hpre' t t' ht ht'

end Arcxa
