import Mathlib.Tactic

/-!
# Bounded caches and approximate membership

An LRU cache of fixed capacity, as its entries from the most to the least recently used,
and a Bloom filter, as the keys set so far with an answer that has no false negatives.

The cache is described by `Lru.lookup` alone: `lookup_modify`, `lookup_put`, `lookup_pop` and
`lookup_popLru` say what each operation does to it. `Lru.evicts` is the key that
`put` pushes out.
-/

namespace Arcxa

/-! ## LRU caches -/

/-- An LRU cache; the entries stand from the most to the least recently used. -/
structure Lru (K V : Type) where
  cap : Nat
  entries : List (K × V)
  pos : 0 < cap
  bounded : entries.length ≤ cap
  nodup : (entries.map Prod.fst).Nodup

namespace Lru

variable {K V : Type} [DecidableEq K]

def empty (cap : Nat) (pos : 0 < cap) : Lru K V where
  cap
  entries := []
  pos
  bounded := Nat.zero_le cap
  nodup := List.nodup_nil

def len (c : Lru K V) : Nat := c.entries.length

def lookup (c : Lru K V) (k : K) : Option V := c.entries.lookup k

def without (k : K) (l : List (K × V)) : List (K × V) := l.filter (fun p => p.1 ≠ k)

variable {l : List (K × V)} {p : K × V}

theorem mem_without {k : K} : p ∈ without k l ↔ p ∈ l ∧ p.1 ≠ k := by
  unfold without
  rw [List.mem_filter, decide_eq_true_iff]

/-- The key that `put` pushes out: the least recently used, when the cache is full and the new
key is not in it. -/
def evicts (c : Lru K V) (k : K) : Option K :=
  if c.lookup k = none ∧ c.entries.length = c.cap then c.entries.getLast?.map Prod.fst else none

/-- What stays when a key is put: everything else, without the least recently used if there
is no room. -/
def kept (c : Lru K V) (k : K) : List (K × V) :=
  if c.lookup k = none ∧ c.entries.length = c.cap then c.entries.dropLast else without k c.entries

theorem length_without_lt {k : K} {v : V} (h : l.lookup k = some v) :
    (without k l).length < l.length := by
  have hmem : (k, v) ∈ l := by
    obtain ⟨l₁, l₂, rfl, -⟩ := List.lookup_eq_some_iff.mp h
    simp
  refine List.length_filter_lt_length_iff_exists.mpr ⟨(k, v), hmem, ?_⟩
  simp

variable (c : Lru K V)

theorem kept_sublist (k : K) : (c.kept k).Sublist c.entries := by
  unfold kept
  split_ifs
  · exact List.dropLast_sublist _
  · exact List.filter_sublist

theorem ne_of_mem_kept {c : Lru K V} {k : K} (h : p ∈ c.kept k) : p.1 ≠ k := by
  unfold kept at h
  split_ifs at h with hfull
  · rintro rfl
    have hmem := List.mem_of_mem_dropLast h
    exact absurd (List.lookup_eq_none_iff.mp hfull.1 p hmem) (by simp)
  · exact (mem_without.mp h).2

theorem length_kept_lt (k : K) : (c.kept k).length < c.cap := by
  have hpos := c.pos
  have hbounded := c.bounded
  unfold kept
  split_ifs with hfull
  · rw [List.length_dropLast]
    omega
  · rcases eq_or_ne (c.lookup k) none with hnone | hsome
    · have hlen : (without k c.entries).length ≤ c.entries.length := List.length_filter_le _ _
      have hroom : c.entries.length ≠ c.cap := fun h => hfull ⟨hnone, h⟩
      omega
    · obtain ⟨v, hv⟩ := Option.ne_none_iff_exists'.mp hsome
      exact (length_without_lt hv).trans_le hbounded

def put (c : Lru K V) (k : K) (v : V) : Lru K V where
  cap := c.cap
  entries := (k, v) :: c.kept k
  pos := c.pos
  bounded := c.length_kept_lt k
  nodup := by
    rw [List.map_cons, List.nodup_cons]
    refine ⟨?_, c.nodup.sublist ((c.kept_sublist k).map Prod.fst)⟩
    intro hmem
    obtain ⟨p, hp, hpk⟩ := List.mem_map.mp hmem
    exact ne_of_mem_kept hp hpk

def modify (c : Lru K V) (k : K) (f : V → V) : Lru K V :=
  match c.lookup k with
  | none => c
  | some v => c.put k (f v)

def popLru (c : Lru K V) : Option ((K × V) × Lru K V) :=
  c.entries.getLast?.map fun p =>
    (p, { c with
      entries := c.entries.dropLast
      bounded := (List.dropLast_sublist _).length_le.trans c.bounded
      nodup := c.nodup.sublist ((List.dropLast_sublist _).map Prod.fst) })

def pop (c : Lru K V) (k : K) : Lru K V where
  cap := c.cap
  entries := without k c.entries
  pos := c.pos
  bounded := List.filter_sublist.length_le.trans c.bounded
  nodup := c.nodup.sublist (List.filter_sublist.map Prod.fst)

/-! ### Lookups -/

variable (k k' : K)

theorem lookup_cons_ite (v : V) (l : List (K × V)) :
    ((k, v) :: l).lookup k' = if k' = k then some v else l.lookup k' := by
  rw [List.lookup_cons]
  split_ifs with hk
  · rw [beq_iff_eq.mpr hk]
  · rw [beq_eq_false_iff_ne.mpr hk]

theorem lookup_without (l : List (K × V)) :
    (without k l).lookup k' = if k' = k then none else l.lookup k' := by
  induction l with
  | nil => simp [without]
  | cons p l ih =>
    obtain ⟨kp, v⟩ := p
    unfold without at ih ⊢
    rw [List.filter_cons]
    by_cases hkp : kp = k
    · rw [if_neg (by simp [hkp]), ih, lookup_cons_ite, hkp]
      split_ifs <;> rfl
    · rw [if_pos (by simpa using hkp), lookup_cons_ite, lookup_cons_ite, ih]
      split_ifs with hkp' hk <;> grind

theorem lookup_pop : (c.pop k).lookup k' = if k' = k then none else c.lookup k' :=
  lookup_without k k' c.entries

theorem lookup_dropLast (hl : (l.map Prod.fst).Nodup) (hp : l.getLast? = some p) (k : K) :
    l.lookup p.1 = some p.2 ∧ l.dropLast.lookup k = if k = p.1 then none else l.lookup k := by
  obtain ⟨front, rfl⟩ := List.getLast?_eq_some_iff.mp hp
  have hnot : front.lookup p.1 = none := by
    rw [List.lookup_eq_none_iff]
    intro q hq
    rw [List.map_append, List.nodup_append] at hl
    have hne := hl.2.2 q.1 (List.mem_map_of_mem hq) p.1 (by simp)
    simpa using hne.symm
  rw [List.dropLast_concat, List.lookup_append, List.lookup_append, hnot]
  refine ⟨by rw [Option.none_or, lookup_cons_ite, if_pos rfl], ?_⟩
  split_ifs with hk
  · rw [hk, hnot]
  · have hlast : [p].lookup k = none := by
      rw [List.lookup_eq_none_iff]
      simpa using hk
    rw [hlast, Option.or_none]

theorem lookup_put (v : V) :
    (c.put k v).lookup k' =
      if k' = k then some v else if c.evicts k = some k' then none else c.lookup k' := by
  show List.lookup k' ((k, v) :: c.kept k) = _
  rw [lookup_cons_ite]
  split_ifs with hk hevicts
  · rfl
  · -- the last entry has gone
    unfold evicts at hevicts
    split_ifs at hevicts with hfull
    obtain ⟨p, hp, rfl⟩ := Option.map_eq_some_iff.mp hevicts
    rw [kept, if_pos hfull, (lookup_dropLast c.nodup hp _).2, if_pos rfl]
  · unfold evicts at hevicts
    unfold kept
    split_ifs at hevicts ⊢ with hfull
    · have hne : c.entries ≠ [] := List.ne_nil_of_length_pos (hfull.2 ▸ c.pos)
      have hlast := List.getLast?_eq_some_getLast hne
      rw [(lookup_dropLast c.nodup hlast _).2, if_neg]
      · rfl
      · rintro rfl
        exact hevicts (by rw [hlast]; rfl)
    · rw [lookup_without, if_neg hk]
      rfl

theorem lookup_modify (f : V → V) :
    (c.modify k f).lookup k' = if k' = k then (c.lookup k).map f else c.lookup k' := by
  unfold modify
  split
  · next hnone =>
    split_ifs with hk
    · rw [hk, hnone]
      rfl
    · rfl
  · next v hsome =>
    have hevicts : c.evicts k = none := if_neg (by simp [hsome])
    rw [lookup_put, hevicts, hsome, if_neg (by simp : ¬ none = some k')]
    rfl

theorem of_evicts {c : Lru K V} {k k' : K} (h : c.evicts k = some k') :
    c.lookup k' ≠ none ∧ k' ≠ k := by
  unfold evicts at h
  split_ifs at h with hfull
  obtain ⟨p, hp, rfl⟩ := Option.map_eq_some_iff.mp h
  have hsome : c.lookup p.1 = some p.2 := (lookup_dropLast c.nodup hp p.1).1
  refine ⟨by simp [hsome], ?_⟩
  rintro rfl
  rw [hfull.1] at hsome
  cases hsome

theorem evicts_eq_none {c : Lru K V} (h : c.len < c.cap) (k : K) : c.evicts k = none :=
  if_neg (fun hfull => h.ne hfull.2)

theorem lookup_popLru {c c' : Lru K V} (h : c.popLru = some (p, c')) (k : K) :
    c.lookup p.1 = some p.2 ∧ c'.lookup k = if k = p.1 then none else c.lookup k := by
  obtain ⟨q, hq, heq⟩ := Option.map_eq_some_iff.mp h
  cases heq
  exact lookup_dropLast c.nodup hq k

end Lru

/-! ## Bloom filters -/

/-- How a Bloom filter of some size answers after a list of keys was set. It may be wrong only
about keys that are not in the list. -/
structure BloomHash (K : Type) where
  numberOfBits : Nat
  positive : List K → K → Bool
  complete : ∀ keys k, k ∈ keys → positive keys k = true

structure Bloom (K : Type) where
  hash : BloomHash K
  keys : List K

namespace Bloom

variable {K : Type}

def empty (hash : BloomHash K) : Bloom K := ⟨hash, []⟩

def check (b : Bloom K) (k : K) : Bool := b.hash.positive b.keys k

def set (b : Bloom K) (k : K) : Bloom K := { b with keys := k :: b.keys }

theorem check_of_mem {b : Bloom K} {k : K} (h : k ∈ b.keys) : b.check k = true :=
  b.hash.complete _ _ h

end Bloom

end Arcxa
