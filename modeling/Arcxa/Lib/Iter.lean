import Mathlib.Tactic

/-!
# Fallible iterators

An iterator is a state with a `next` that may end, fail or yield. `collect` runs it to its
end or to its first error, with fuel; `Yields` says that enough fuel gives the list.
`nextBatch` gathers up to `b` items into one, and `chunks` is what that does to a list.

`Enumerates next Inv` is the rule for proving such a loop: `Inv s l` relates a state to
the list it has still to yield, and each `next` takes the head off. `Enumerates.yields`
is the whole run, `Enumerates.batches` the run in batches.
-/

namespace Arcxa

variable {σ α ε : Type}

/-! ## Cutting a list into batches -/

def chunks (b : Nat) (l : List α) : List (List α) :=
  if l = [] ∨ b = 0 then [] else l.take b :: chunks b (l.drop b)
termination_by l.length
decreasing_by
  rename_i h
  have hlen : l.length ≠ 0 := fun h0 => h (.inl (List.length_eq_zero_iff.mp h0))
  rw [List.length_drop]
  omega

@[simp] theorem chunks_nil (b : Nat) : chunks b ([] : List α) = [] := by
  rw [chunks, if_pos (.inl rfl)]

variable {b : Nat}

variable (hb : 0 < b)

include hb

theorem chunks_cons {l : List α} (hl : l ≠ []) : chunks b l = l.take b :: chunks b (l.drop b) := by
  rw [chunks, if_neg]
  rintro (h | h)
  · exact hl h
  · omega

theorem chunks_induction {P : List α → Prop} (hnil : P [])
    (hstep : ∀ l, l ≠ [] → P (l.drop b) → P l) (l : List α) : P l := by
  generalize hn : l.length = n
  induction n using Nat.strong_induction_on generalizing l with
  | _ n ih =>
    by_cases hl : l = []
    · exact hl ▸ hnil
    · have hlen : l.length ≠ 0 := fun h0 => hl (List.length_eq_zero_iff.mp h0)
      refine hstep l hl (ih _ ?_ _ rfl)
      rw [List.length_drop]
      omega

theorem chunks_of_length_le {l : List α} (hl : l ≠ []) (hlen : l.length ≤ b) :
    chunks b l = [l] := by
  rw [chunks_cons hb hl, List.take_of_length_le hlen, List.drop_of_length_le hlen, chunks_nil]

theorem flatten_chunks (l : List α) : (chunks b l).flatten = l := by
  induction l using chunks_induction hb with
  | hnil => rw [chunks_nil, List.flatten_nil]
  | hstep l hl ih => rw [chunks_cons hb hl, List.flatten_cons, ih, List.take_append_drop]

theorem drop_chunks (n : Nat) (l : List α) : (chunks b l).drop n = chunks b (l.drop (n * b)) := by
  induction n generalizing l with
  | zero => rw [Nat.zero_mul, List.drop_zero, List.drop_zero]
  | succ n ih =>
    by_cases hl : l = []
    · rw [hl, List.drop_nil, chunks_nil, List.drop_nil]
    · rw [chunks_cons hb hl, List.drop_succ_cons, ih, List.drop_drop, Nat.succ_mul, Nat.add_comm]

theorem flatten_take_chunks (n : Nat) (l : List α) :
    ((chunks b l).take n).flatten = l.take (n * b) := by
  induction n generalizing l with
  | zero => rw [Nat.zero_mul, List.take_zero, List.take_zero, List.flatten_nil]
  | succ n ih =>
    by_cases hl : l = []
    · rw [hl, List.take_nil, chunks_nil, List.take_nil, List.flatten_nil]
    · rw [chunks_cons hb hl, List.take_succ_cons, List.flatten_cons, ih, Nat.succ_mul, Nat.add_comm,
        List.take_add]

theorem flatten_map_reverse_chunks_eq_iff (l : List α) :
    ((chunks b l).map List.reverse).flatten = l ↔ ∀ c ∈ chunks b l, c.reverse = c := by
  constructor
  · induction l using chunks_induction hb with
    | hnil =>
      intro _ c hc
      rw [chunks_nil] at hc
      cases hc
    | hstep l hl ih =>
      intro h
      rw [chunks_cons hb hl, List.map_cons, List.flatten_cons] at h
      conv at h => rhs; rw [← List.take_append_drop b l]
      obtain ⟨hhead, htail⟩ := List.append_inj h (List.length_reverse)
      rw [chunks_cons hb hl]
      intro c hc
      rcases List.mem_cons.mp hc with rfl | hrest
      · exact hhead
      · exact ih htail c hrest
  · intro h
    rw [List.map_congr_left h, List.map_id'', flatten_chunks hb]
    exact fun _ => rfl

/-! ## Running an iterator -/

/-- `collect::<Result<Vec<_>>>()`; `none` means that the fuel did not suffice. -/
def collect (next : σ → Option (Except ε α) × σ) : Nat → σ → Option (Except ε (List α))
  | 0, _ => none
  | fuel + 1, s =>
    match next s with
    | (none, _) => some (.ok [])
    | (some (.error e), _) => some (.error e)
    | (some (.ok a), s') => (collect next fuel s').map (fun r => r.map (a :: ·))

def Yields (next : σ → Option (Except ε α) × σ) (s : σ) (l : List α) : Prop :=
  ∃ fuel, collect next fuel s = some (.ok l)

variable {next : σ → Option (Except ε α) × σ}

omit hb

theorem collect_succ {fuel : Nat} {s : σ}
    {r : Except ε (List α)} (h : collect next fuel s = some r) :
    collect next (fuel + 1) s = some r := by
  induction fuel generalizing s r with
  | zero => cases h
  | succ fuel ih =>
    rw [collect] at h ⊢
    split at h
    · exact h
    · exact h
    · obtain ⟨r', hr', hmap⟩ := Option.map_eq_some_iff.mp h
      rw [ih hr', ← hmap]
      rfl

theorem collect_add {fuel : Nat} {s : σ}
    {r : Except ε (List α)} (h : collect next fuel s = some r) (more : Nat) :
    collect next (fuel + more) s = some r := by
  induction more with
  | zero => exact h
  | succ more ih => exact collect_succ ih

theorem Yields.unique {s : σ} {l l' : List α}
    (h : Yields next s l) (h' : Yields next s l') : l = l' := by
  obtain ⟨fuel, hfuel⟩ := h
  obtain ⟨fuel', hfuel'⟩ := h'
  have hlong := collect_add hfuel fuel'
  rw [Nat.add_comm, collect_add hfuel' fuel] at hlong
  cases hlong
  rfl

/-! ## Batches -/

/-- Up to `n` items, or the first error. -/
def takeBatch (next : σ → Option (Except ε α) × σ) : Nat → σ → Except ε (List α) × σ
  | 0, s => (.ok [], s)
  | n + 1, s =>
    match next s with
    | (none, s') => (.ok [], s')
    | (some (.error e), s') => (.error e, s')
    | (some (.ok a), s') =>
      match takeBatch next n s' with
      | (.ok as, s'') => (.ok (a :: as), s'')
      | (.error e, s'') => (.error e, s'')

/-- The next batch of `b` items; an empty one is the end. -/
def nextBatch (next : σ → Option (Except ε α) × σ) (b : Nat) (s : σ) :
    Option (Except ε (List α)) × σ :=
  match takeBatch next b s with
  | (.error e, s') => (some (.error e), s')
  | (.ok [], s') => (none, s')
  | (.ok (a :: as), s') => (some (.ok (a :: as)), s')

/-! ## The rule -/

/-- `next` takes the head off the list that `Inv` relates to the state. -/
structure Enumerates (next : σ → Option (Except ε α) × σ) (Inv : σ → List α → Prop) : Prop where
  nil : ∀ s, Inv s [] → ∃ s', next s = (none, s') ∧ Inv s' []
  cons : ∀ s a l, Inv s (a :: l) → ∃ s', next s = (some (.ok a), s') ∧ Inv s' l

namespace Enumerates

variable {next : σ → Option (Except ε α) × σ} {Inv : σ → List α → Prop}

variable (h : Enumerates next Inv)

include h

theorem collect_eq {s : σ} {l : List α} (hs : Inv s l) :
    collect next (l.length + 1) s = some (.ok l) := by
  induction l generalizing s with
  | nil =>
    obtain ⟨s', hnext, -⟩ := h.nil s hs
    rw [collect, hnext]
  | cons a l ih =>
    obtain ⟨s', hnext, hs'⟩ := h.cons s a l hs
    rw [List.length_cons, collect, hnext]
    dsimp only
    rw [ih hs']
    rfl

theorem yields {s : σ} {l : List α} (hs : Inv s l) : Yields next s l :=
  ⟨_, h.collect_eq hs⟩

theorem takeBatch_eq (n : Nat) {s : σ} {l : List α} (hs : Inv s l) :
    ∃ s', takeBatch next n s = (.ok (l.take n), s') ∧ Inv s' (l.drop n) := by
  induction n generalizing s l with
  | zero => exact ⟨s, rfl, hs⟩
  | succ n ih =>
    cases l with
    | nil =>
      obtain ⟨s', hnext, hs'⟩ := h.nil s hs
      refine ⟨s', ?_, hs'⟩
      rw [takeBatch, hnext]
      rfl
    | cons a l =>
      obtain ⟨s', hnext, hs'⟩ := h.cons s a l hs
      obtain ⟨s'', hrest, hs''⟩ := ih hs'
      refine ⟨s'', ?_, hs''⟩
      rw [takeBatch, hnext]
      dsimp only
      rw [hrest]
      rfl

theorem batches (hb : 0 < b) :
    Enumerates (nextBatch next b) (fun s ls => ∃ l, Inv s l ∧ ls = chunks b l) where
  nil := by
    rintro s ⟨l, hs, hnil⟩
    obtain rfl : l = [] := by
      rw [← flatten_chunks hb l, ← hnil, List.flatten_nil]
    obtain ⟨s', hbatch, hs'⟩ := h.takeBatch_eq b hs
    rw [List.take_nil] at hbatch
    rw [List.drop_nil] at hs'
    refine ⟨s', ?_, [], hs', hnil⟩
    rw [nextBatch, hbatch]
  cons := by
    rintro s c cs ⟨l, hs, hcons⟩
    have hl : l ≠ [] := by
      rintro rfl
      rw [chunks_nil] at hcons
      cases hcons
    rw [chunks_cons hb hl] at hcons
    cases hcons
    obtain ⟨s', hbatch, hs'⟩ := h.takeBatch_eq b hs
    refine ⟨s', ?_, l.drop b, hs', rfl⟩
    -- a batch of a list that is not empty has an item
    obtain ⟨a, l, rfl⟩ := List.exists_cons_of_ne_nil hl
    obtain ⟨b, rfl⟩ := Nat.exists_eq_succ_of_ne_zero hb.ne'
    rw [nextBatch, hbatch]
    rfl

end Enumerates

end Arcxa
