import Mathlib.Tactic

/-!
# Lists extended by reading and writing back

A list is extended by reading it and writing back, some time later, what was read with one entry more.
`stored` is the list, `full` is what it would hold had nothing been lost, and `pending` says which lists
are about to be written back. Either nothing is lost yet and every pending list extends an earlier state
(`Intact`), or something is lost and no pending list can make up for it (`Lost`). A write keeps the list
intact exactly when it adds one entry to what is stored at that time (`Intact.write`, `Intact.lost`).
-/

namespace Arcxa

variable {E : Type} {stored full : List E} {pending pending' : List E → Prop}

structure Intact (stored full : List E) (pending : List E → Prop) : Prop where
  stored_eq : stored = full
  extends_prefix : ∀ l, pending l → ∃ old e, l = old ++ [e] ∧ old <+: full

structure Lost (stored full : List E) (pending : List E → Prop) : Prop where
  shorter : stored.length < full.length
  pending_le : ∀ l, pending l → l.length ≤ full.length

def Tracked (stored full : List E) (pending : List E → Prop) : Prop :=
  Intact stored full pending ∨ Lost stored full pending

theorem tracked_nil : Tracked ([] : List E) [] (fun _ => False) := .inl ⟨rfl, nofun⟩

theorem Tracked.intact (h : Tracked stored full pending) (hlength : full.length ≤ stored.length) :
    Intact stored full pending :=
  h.resolve_right fun hlost => absurd hlost.shorter (Nat.not_lt.mpr hlength)

theorem Tracked.mono (h : Tracked stored full pending) (hsub : ∀ l, pending' l → pending l) :
    Tracked stored full pending' := by
  rcases h with h | h
  · exact .inl ⟨h.stored_eq, fun l hl => h.extends_prefix l (hsub l hl)⟩
  · exact .inr ⟨h.shorter, fun l hl => h.pending_le l (hsub l hl)⟩

theorem Tracked.read (h : Tracked stored full pending)
    (hpending : ∀ l, pending' l → pending l ∨ ∃ e, l = stored ++ [e]) :
    Tracked stored full pending' := by
  rcases h with h | h
  · refine .inl ⟨h.stored_eq, fun l hl => ?_⟩
    rcases hpending l hl with hl | ⟨e, rfl⟩
    · exact h.extends_prefix l hl
    · exact ⟨stored, e, rfl, h.stored_eq ▸ List.prefix_rfl⟩
  · refine .inr ⟨h.shorter, fun l hl => ?_⟩
    rcases hpending l hl with hl | ⟨e, rfl⟩
    · exact h.pending_le l hl
    · rw [List.length_append, List.length_singleton]
      exact h.shorter

theorem Intact.write (h : Intact stored full pending) (hsub : ∀ l, pending' l → pending l) (e : E) :
    Intact (stored ++ [e]) (full ++ [e]) pending' := by
  refine ⟨by rw [h.stored_eq], fun l hl => ?_⟩
  obtain ⟨old, e', rfl, hprefix⟩ := h.extends_prefix l (hsub l hl)
  exact ⟨old, e', rfl, hprefix.trans (List.prefix_append ..)⟩

theorem Lost.write (h : Lost stored full pending) (hsub : ∀ l, pending' l → pending l) {l : List E}
    (hl : pending l) {added : List E} (hne : added ≠ []) : Lost l (full ++ added) pending' := by
  have hpos : 0 < added.length := List.length_pos_of_ne_nil hne
  have hle := h.pending_le l hl
  refine ⟨?_, fun l' hl' => ?_⟩
  · rw [List.length_append]
    omega
  · have hle' := h.pending_le l' (hsub l' hl')
    rw [List.length_append]
    omega

theorem Intact.lost (h : Intact stored full pending) (hsub : ∀ l, pending' l → pending l)
    {l : List E} (hl : pending l) {added : List E} (hne : added ≠ [])
    (hnot : ¬ (added.length = 1 ∧ ∃ e, l = stored ++ [e])) : Lost l (full ++ added) pending' := by
  have hpos : 0 < added.length := List.length_pos_of_ne_nil hne
  refine ⟨?_, fun l' hl' => ?_⟩
  · obtain ⟨old, e, rfl, hprefix⟩ := h.extends_prefix l hl
    have hle : old.length ≤ full.length := hprefix.length_le
    rw [List.length_append, List.length_append, List.length_singleton]
    by_cases hone : added.length = 1
    · -- the list was read before another write
      have hne' : old.length ≠ full.length := by
        intro heq
        have hfull : old = full := hprefix.eq_of_length heq
        exact hnot ⟨hone, e, by rw [hfull, h.stored_eq]⟩
      omega
    · omega
  · obtain ⟨old, e, rfl, hprefix⟩ := h.extends_prefix l' (hsub l' hl')
    have hle : old.length ≤ full.length := hprefix.length_le
    rw [List.length_append, List.length_append, List.length_singleton]
    omega

end Arcxa
