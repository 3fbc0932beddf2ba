import Arcxa.Lib.BTreeMap
import Arcxa.Lib.Transition

/-!
# Calls in progress

Several calls work on one shared state, each with its own place in its own program. An action
starts a call or lets one of the calls in progress make its next step, in any order. A call is a
value that says what is left of it to do; the step that ends it gives none.
-/

namespace Arcxa

variable {σ γ ι : Type}

/-- The shared state and the calls in progress, by number. -/
structure Pool (σ γ : Type) where
  shared : σ
  calls : BTreeMap Nat γ

inductive CallAction (γ ι : Type) where
  | start (c : Nat) (call : γ)
  | advance (c : Nat) (input : ι)

namespace Pool

def setCall (calls : BTreeMap Nat γ) (c : Nat) : Option γ → BTreeMap Nat γ
  | some call => calls.insert c call
  | none => calls.remove c

theorem get_setCall (calls : BTreeMap Nat γ) (c : Nat) (next : Option γ) (c' : Nat) :
    (setCall calls c next).get c' = if c' = c then next else calls.get c' := by
  cases next with
  | some call => exact BTreeMap.get_insert ..
  | none => exact BTreeMap.get_remove ..

/-- Every call is the one that has gone on, or was there before under another number. -/
theorem forall_setCall {Q : Nat → γ → Prop} {calls : BTreeMap Nat γ} {c : Nat} {next : Option γ}
    (hnext : ∀ call, next = some call → Q c call)
    (hothers : ∀ c' call, c' ≠ c → calls.get c' = some call → Q c' call) :
    ∀ c' call, (setCall calls c next).get c' = some call → Q c' call := by
  intro c' call hget
  rw [get_setCall] at hget
  split_ifs at hget with heq
  · exact heq ▸ hnext call hget
  · exact hothers c' call heq hget

def step (mayStart : Pool σ γ → γ → Bool) (advance : σ → γ → ι → Option (σ × Option γ))
    (p : Pool σ γ) : CallAction γ ι → Option (Pool σ γ)
  | .start c call =>
    if (p.calls.get c).isNone && mayStart p call then
      some { p with calls := p.calls.insert c call }
    else none
  | .advance c input =>
    match p.calls.get c with
    | none => none
    | some call =>
      match advance p.shared call input with
      | none => none
      | some (shared, next) => some ⟨shared, setCall p.calls c next⟩

variable {mayStart : Pool σ γ → γ → Bool} {advance : σ → γ → ι → Option (σ × Option γ)}
  {p p' : Pool σ γ}

theorem step_start {c : Nat} {call : γ} (h : step mayStart advance p (.start c call) = some p') :
    p.calls.get c = none ∧ mayStart p call = true ∧
      p' = { p with calls := p.calls.insert c call } := by
  rw [step] at h
  split_ifs at h with hstart
  rw [Bool.and_eq_true, Option.isNone_iff_eq_none] at hstart
  exact ⟨hstart.1, hstart.2, (Option.some.inj h).symm⟩

theorem step_advance {c : Nat} {input : ι}
    (h : step mayStart advance p (.advance c input) = some p') :
    ∃ call next, p.calls.get c = some call ∧
      advance p.shared call input = some (p'.shared, next) ∧
      p'.calls = setCall p.calls c next := by
  rw [step] at h
  cases hcall : p.calls.get c with
  | none =>
    rw [hcall] at h
    cases h
  | some call =>
    simp only [hcall] at h
    cases hadvance : advance p.shared call input with
    | none =>
      rw [hadvance] at h
      cases h
    | some result =>
      obtain ⟨shared, next⟩ := result
      rw [hadvance] at h
      cases h
      exact ⟨call, next, rfl, hadvance, rfl⟩

end Pool

end Arcxa
