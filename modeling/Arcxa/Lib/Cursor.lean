import Mathlib.Tactic

/-!
# Loops over a file with a cursor

`while position < size` around a round that accepts something and goes on, skips, or stops. The
loop is run with fuel, and more fuel than there are positions left is enough when every round moves
forward (`run_isSome`). Whether what it accepts lies apart is a matter of what it accepts next
(`apart_iff`): between two acceptances the loop only skips.
-/

namespace Arcxa

variable {α : Type}

/-- What one round does at its position. -/
inductive Round (α : Type) where
  | accept (a : α) (next : Nat)
  | skip (next : Nat)
  | stop

namespace Cursor

variable (round : Nat → Round α) (size : Nat)

def run : Nat → Nat → Option (List (Nat × α))
  | 0, _ => none
  | fuel + 1, position =>
    if position < size then
      match round position with
      | .accept a next => (run fuel next).map ((position, a) :: ·)
      | .skip next => run fuel next
      | .stop => some []
    else some []

/-- Every round that goes on goes forward. -/
structure Forward : Prop where
  accept : ∀ position a next, round position = .accept a next → position < next
  skip : ∀ position next, round position = .skip next → position < next

/-- The positions the loop gets to by skipping only. -/
inductive Skips : Nat → Nat → Prop where
  | refl (position : Nat) : Skips position position
  | step {position next last : Nat} (hlt : position < size) (hskip : round position = .skip next)
      (hrest : Skips next last) : Skips position last

/-- The positions the loop gets to. -/
inductive Visits : Nat → Nat → Prop where
  | refl (position : Nat) : Visits position position
  | accept {position next last : Nat} {a : α} (hlt : position < size)
      (haccept : round position = .accept a next) (hrest : Visits next last) : Visits position last
  | skip {position next last : Nat} (hlt : position < size) (hskip : round position = .skip next)
      (hrest : Visits next last) : Visits position last

/-- The loop accepts `a` at a position. -/
def Accepts (position : Nat) (a : α) : Prop :=
  position < size ∧ ∃ next, round position = .accept a next

def Apart (extent : α → Nat) (trace : List (Nat × α)) : Prop :=
  trace.IsChain fun a b => a.1 + extent a.2 ≤ b.1

variable {round size} {extent : α → Nat} {fuel position : Nat} {trace : List (Nat × α)}

/-! ## Termination -/

/-- **With more fuel than positions left the loop ends.** -/
theorem run_isSome (h : Forward round) (hfuel : size < fuel + position) (hpos : 0 < fuel) :
    ∃ trace, run round size fuel position = some trace := by
  induction fuel generalizing position with
  | zero => exact absurd hpos (Nat.lt_irrefl 0)
  | succ fuel ih =>
    rw [run]
    split_ifs with hlt
    · cases hround : round position with
      | accept a next =>
        have hnext := h.accept position a next hround
        obtain ⟨trace, htrace⟩ := @ih next (by omega) (by omega)
        exact ⟨(position, a) :: trace, by simp only [htrace, Option.map_some]⟩
      | skip next =>
        have hnext := h.skip position next hround
        exact ih (by omega) (by omega)
      | stop => exact ⟨[], rfl⟩
    · exact ⟨[], rfl⟩

theorem exists_run (h : Forward round) (size position : Nat) :
    ∃ fuel trace, run round size fuel position = some trace :=
  ⟨size + 1, run_isSome h (by omega) (by omega)⟩

theorem Forward.le_of_skips {last : Nat} (h : Forward round)
    (hskips : Skips round size position last) : position ≤ last := by
  induction hskips with
  | refl => exact le_refl _
  | step _ hskip _ ih => exact (h.skip _ _ hskip).le.trans ih

/-! ## The trace -/

theorem skips_of_run {first : Nat × α} (h : run round size fuel position = some (first :: trace)) :
    Skips round size position first.1 ∧ Accepts round size first.1 first.2 := by
  induction fuel generalizing position with
  | zero => cases h
  | succ fuel ih =>
    rw [run] at h
    split_ifs at h with hlt
    · cases hround : round position with
      | accept a next =>
        simp only [hround, Option.map_eq_some_iff, List.cons.injEq] at h
        obtain ⟨_, _, rfl, -⟩ := h
        exact ⟨.refl _, hlt, next, hround⟩
      | skip next =>
        simp only [hround] at h
        obtain ⟨hskips, haccepts⟩ := ih h
        exact ⟨.step hlt hround hskips, haccepts⟩
      | stop => simp [hround] at h
    · cases h

theorem run_of_skips {q : Nat} {b : α} (hskips : Skips round size position q)
    (haccepts : Accepts round size q b) (h : run round size fuel position = some trace) :
    ∃ rest, trace = (q, b) :: rest := by
  induction hskips generalizing fuel with
  | refl position =>
    obtain ⟨hlt, next, hround⟩ := haccepts
    cases fuel with
    | zero => cases h
    | succ fuel =>
      simp only [run, if_pos hlt, hround, Option.map_eq_some_iff] at h
      obtain ⟨rest, -, rfl⟩ := h
      exact ⟨rest, rfl⟩
  | step hlt hskip _ ih =>
    cases fuel with
    | zero => cases h
    | succ fuel =>
      simp only [run, if_pos hlt, hskip] at h
      exact ih haccepts h

/-- From no acceptance on, the loop skips to another one before the first has ended. -/
def Separates (round : Nat → Round α) (size : Nat) (extent : α → Nat) (position : Nat) : Prop :=
  ∀ p a next q b, Visits round size position p → p < size → round p = .accept a next →
    Skips round size next q → Accepts round size q b → p + extent a ≤ q

theorem separates_accept {a : α} {next : Nat} (hlt : position < size)
    (hround : round position = .accept a next) :
    Separates round size extent position ↔
      (∀ q b, Skips round size next q → Accepts round size q b → position + extent a ≤ q) ∧
        Separates round size extent next := by
  constructor
  · intro h
    refine ⟨fun q b => h position a next q b (.refl _) hlt hround, ?_⟩
    intro p a' next' q b hvisit
    exact h p a' next' q b (.accept hlt hround hvisit)
  · rintro ⟨hfirst, hrest⟩ p a' next' q b hvisit hp haccept
    cases hvisit with
    | refl =>
      rw [hround] at haccept
      cases haccept
      exact hfirst q b
    | accept _ haccept' hvisit =>
      rw [hround] at haccept'
      cases haccept'
      exact hrest p a' next' q b hvisit hp haccept
    | skip _ hskip _ =>
      rw [hround] at hskip
      cases hskip

theorem separates_skip {next : Nat} (hlt : position < size)
    (hround : round position = .skip next) :
    Separates round size extent position ↔ Separates round size extent next := by
  constructor
  · intro h p a next' q b hvisit
    exact h p a next' q b (.skip hlt hround hvisit)
  · intro h p a next' q b hvisit hp haccept
    cases hvisit with
    | refl =>
      rw [hround] at haccept
      cases haccept
    | accept _ haccept' _ =>
      rw [hround] at haccept'
      cases haccept'
    | skip _ hskip hvisit =>
      rw [hround] at hskip
      cases hskip
      exact h p a next' q b hvisit hp haccept

theorem separates_end (hround : position < size → round position = .stop) :
    Separates round size extent position := by
  intro p a next q b hvisit hp haccept
  have hstart : p = position := by
    cases hvisit with
    | refl => rfl
    | accept hlt haccept' _ =>
      rw [hround hlt] at haccept'
      cases haccept'
    | skip hlt hskip _ =>
      rw [hround hlt] at hskip
      cases hskip
  subst hstart
  rw [hround hp] at haccept
  cases haccept

/-- **Apart.** What the loop accepts lies apart exactly when every acceptance has ended before the
next one that the loop skips to. -/
theorem apart_iff (h : run round size fuel position = some trace) :
    Apart extent trace ↔ Separates round size extent position := by
  induction fuel generalizing position trace with
  | zero => cases h
  | succ fuel ih =>
    rw [run] at h
    split_ifs at h with hlt
    · cases hround : round position with
      | accept a next =>
        simp only [hround, Option.map_eq_some_iff] at h
        obtain ⟨rest, hrest, rfl⟩ := h
        rw [separates_accept hlt hround, ← ih hrest, Apart, List.isChain_cons]
        refine and_congr_left fun _ => ?_
        constructor
        · intro hhead q b hskips haccepts
          obtain ⟨rest', rfl⟩ := run_of_skips hskips haccepts hrest
          exact hhead (q, b) rfl
        · intro hfirst first hfirst'
          obtain ⟨rest', rfl⟩ : ∃ rest', rest = first :: rest' := by
            cases rest with
            | nil => cases hfirst'
            | cons head rest' => exact ⟨rest', by rw [Option.some.inj hfirst']⟩
          obtain ⟨hskips, haccepts⟩ := skips_of_run hrest
          exact hfirst first.1 first.2 hskips haccepts
      | skip next =>
        simp only [hround] at h
        rw [separates_skip hlt hround, ih h]
      | stop =>
        simp only [hround, Option.some.injEq] at h
        subst h
        exact iff_of_true List.isChain_nil (separates_end fun _ => hround)
    · cases h
      exact iff_of_true List.isChain_nil (separates_end fun hlt' => absurd hlt' hlt)

theorem Apart.pairwise (h : Apart extent trace) :
    trace.Pairwise fun a b => a.1 + extent a.2 ≤ b.1 := by
  have htrans : Trans (fun a b : Nat × α => a.1 + extent a.2 ≤ b.1)
      (fun a b : Nat × α => a.1 + extent a.2 ≤ b.1) (fun a b => a.1 + extent a.2 ≤ b.1) :=
    ⟨fun hab hbc => hab.trans ((Nat.le_add_right _ _).trans hbc)⟩
  exact List.isChain_iff_pairwise.mp h

/-! ## Loops that go the rounds -/

/-- `loop` goes the rounds: what is looked at of its state changes with what they accept. -/
def Follows {S R : Type} (round : Nat → Round α) (size : Nat) (loop : Nat → S → S) (obs : S → R)
    (keep : R → α → R) : Prop :=
  ∀ position s, (size ≤ position → loop position s = s) ∧ (position < size →
    match round position with
    | .accept a next => ∃ s', loop position s = loop next s' ∧ obs s' = keep (obs s) a
    | .skip next => ∃ s', loop position s = loop next s' ∧ obs s' = obs s
    | .stop => obs (loop position s) = obs s)

/-- **A loop that goes the rounds takes what they accept.** -/
theorem Follows.obs_loop {S R : Type} {loop : Nat → S → S} {obs : S → R} {keep : R → α → R}
    (h : Follows round size loop obs keep) (hrun : run round size fuel position = some trace)
    (s : S) : obs (loop position s) = (trace.map (·.2)).foldl keep (obs s) := by
  induction fuel generalizing position trace s with
  | zero => cases hrun
  | succ fuel ih =>
    rw [run] at hrun
    split_ifs at hrun with hlt
    · have hround := (h position s).2 hlt
      cases hcase : round position with
      | accept a next =>
        simp only [hcase, Option.map_eq_some_iff] at hrun hround
        obtain ⟨rest, hrest, rfl⟩ := hrun
        obtain ⟨s', hloop, hobs⟩ := hround
        rw [hloop, ih hrest, hobs, List.map_cons, List.foldl_cons]
      | skip next =>
        simp only [hcase] at hrun hround
        obtain ⟨s', hloop, hobs⟩ := hround
        rw [hloop, ih hrun, hobs]
      | stop =>
        simp only [hcase, Option.some.injEq] at hrun hround
        rw [hround, ← hrun]
        rfl
    · cases hrun
      rw [(h position s).1 (Nat.not_lt.mp hlt)]
      rfl

end Cursor

end Arcxa
