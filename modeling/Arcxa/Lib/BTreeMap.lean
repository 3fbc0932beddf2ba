import Mathlib.Data.String.Basic
import Mathlib.Tactic

/-!
# Maps in key order

A `BTreeMap` is the list of its entries, strictly increasing in key. The order is part of
the value: iterating the map is reading the list, and two maps with the same bindings
are equal (`ext_get`). `upsert` is the entry API (`and_modify` / `or_insert`); `insert`
and `ofList` are cases of it, and `floorEntry` is the last entry of the range up to a key.

Results about maps go through `get`: `get_upsert` for one update, `get_foldl_upsert` for a
loop over another map's entries.
-/

namespace Arcxa

variable {K V W : Type} [LinearOrder K]

structure BTreeMap (K V : Type) [LinearOrder K] where
  entries : List (K × V)
  sorted : entries.Pairwise (fun p q => p.1 < q.1)

namespace BTreeMap

/-! ## Operations -/

def empty : BTreeMap K V := ⟨[], List.Pairwise.nil⟩

def lookupList (k : K) : List (K × V) → Option V
  | [] => none
  | (k', v) :: rest => if k = k' then some v else lookupList k rest

def get (m : BTreeMap K V) (k : K) : Option V := lookupList k m.entries

def upsertList (k : K) (f : Option V → V) : List (K × V) → List (K × V)
  | [] => [(k, f none)]
  | (k', v) :: rest =>
    if k < k' then (k, f none) :: (k', v) :: rest
    else if k = k' then (k, f (some v)) :: rest
    else (k', v) :: upsertList k f rest

variable {l : List (K × V)} {k : K}

theorem mem_upsertList {f : Option V → V} {p : K × V}
    (h : p ∈ upsertList k f l) : p.1 = k ∨ p ∈ l := by
  induction l with
  | nil =>
    rw [upsertList, List.mem_singleton] at h
    exact .inl (congrArg Prod.fst h)
  | cons q rest ih =>
    unfold upsertList at h
    split_ifs at h with hlt heq
    · rcases List.mem_cons.mp h with rfl | hmem
      · exact .inl rfl
      · exact .inr hmem
    · rcases List.mem_cons.mp h with rfl | hmem
      · exact .inl rfl
      · exact .inr (List.mem_cons_of_mem _ hmem)
    · rcases List.mem_cons.mp h with rfl | hmem
      · exact .inr List.mem_cons_self
      · exact (ih hmem).imp_right (List.mem_cons_of_mem _)

/-- An update keeps the keys in order. -/
theorem sorted_upsertList (k : K) (f : Option V → V)
    (h : l.Pairwise (fun p q => p.1 < q.1)) :
    (upsertList k f l).Pairwise (fun p q => p.1 < q.1) := by
  induction l with
  | nil => exact List.pairwise_singleton _ _
  | cons q rest ih =>
    obtain ⟨hhead, htail⟩ := List.pairwise_cons.mp h
    unfold upsertList
    split_ifs with hlt heq
    · refine List.pairwise_cons.mpr ⟨?_, h⟩
      intro p hp
      rcases List.mem_cons.mp hp with rfl | hmem
      · exact hlt
      · exact hlt.trans (hhead p hmem)
    · refine List.pairwise_cons.mpr ⟨?_, htail⟩
      intro p hp
      show k < p.1
      rw [heq]
      exact hhead p hp
    · refine List.pairwise_cons.mpr ⟨?_, ih htail⟩
      intro p hp
      rcases mem_upsertList hp with hkey | hmem
      · rw [hkey]
        exact lt_of_le_of_ne (not_lt.mp hlt) (Ne.symm heq)
      · exact hhead p hmem

def upsert (m : BTreeMap K V) (k : K) (f : Option V → V) : BTreeMap K V :=
  ⟨upsertList k f m.entries, sorted_upsertList k f m.sorted⟩

def insert (m : BTreeMap K V) (k : K) (v : V) : BTreeMap K V := m.upsert k (fun _ => v)

def remove (m : BTreeMap K V) (k : K) : BTreeMap K V :=
  ⟨m.entries.filter (fun p => p.1 ≠ k), m.sorted.filter _⟩

def retain (m : BTreeMap K V) (p : K → V → Bool) : BTreeMap K V :=
  ⟨m.entries.filter (fun e => p e.1 e.2), m.sorted.filter _⟩

def keys (m : BTreeMap K V) : List K := m.entries.map (·.1)

def values (m : BTreeMap K V) : List V := m.entries.map (·.2)

def ofList (l : List (K × V)) : BTreeMap K V := l.foldl (fun m p => m.insert p.1 p.2) empty

/-- `range(..=k).next_back()`. -/
def floorEntry (m : BTreeMap K V) (k : K) : Option (K × V) :=
  (m.entries.filter (fun p => p.1 ≤ k)).getLast?

/-! ## Reading -/

@[ext] theorem ext {m m' : BTreeMap K V} (h : m.entries = m'.entries) : m = m' := by
  cases m
  cases m'
  cases h
  rfl

@[simp] theorem get_empty (k : K) : (empty : BTreeMap K V).get k = none := rfl

variable {v : V}

theorem mem_of_lookupList (h : lookupList k l = some v) :
    (k, v) ∈ l := by
  induction l with
  | nil => cases h
  | cons p rest ih =>
    unfold lookupList at h
    split_ifs at h with heq
    · cases h
      rw [heq]
      exact List.mem_cons_self
    · exact List.mem_cons_of_mem _ (ih h)

theorem lookupList_of_notMem (h : k ∉ l.map (·.1)) :
    lookupList k l = none := by
  cases hfound : lookupList k l with
  | none => rfl
  | some v => exact absurd (List.mem_map_of_mem (f := (·.1)) (mem_of_lookupList hfound)) h

theorem lookupList_of_mem
    (hl : l.Pairwise (fun p q => p.1 < q.1)) (h : (k, v) ∈ l) : lookupList k l = some v := by
  induction l with
  | nil => cases h
  | cons p rest ih =>
    obtain ⟨hhead, htail⟩ := List.pairwise_cons.mp hl
    unfold lookupList
    rcases List.mem_cons.mp h with rfl | hmem
    · exact if_pos rfl
    · rw [if_neg (hhead _ hmem).ne']
      exact ih htail hmem

theorem lookupList_eq_none {p : K × W} {rest : List (K × V)} (hk : k = p.1)
    (hhead : ∀ q ∈ rest, p.1 < q.1) : lookupList k rest = none := by
  cases hfound : lookupList k rest with
  | none => rfl
  | some w =>
    have hlt := hhead _ (mem_of_lookupList hfound)
    rw [← hk] at hlt
    exact absurd hlt (lt_irrefl _)

theorem lookupList_upsertList_of_ne {k k' : K} (h : k' ≠ k) (f : Option V → V) (l : List (K × V)) :
    lookupList k' (upsertList k f l) = lookupList k' l := by
  induction l with
  | nil => exact if_neg h
  | cons p rest ih =>
    unfold upsertList
    split_ifs with hlt heq
    · exact if_neg h
    · rw [lookupList, lookupList, if_neg h, if_neg (heq ▸ h)]
    · rw [lookupList, lookupList, ih]

variable {m : BTreeMap K V}

/-- The entries are what is looked up. -/
theorem mem_entries_iff :
    (k, v) ∈ m.entries ↔ m.get k = some v :=
  ⟨lookupList_of_mem m.sorted, mem_of_lookupList⟩

/-- A map is known by its lookups. -/
theorem ext_get {m m' : BTreeMap K V} (h : ∀ k, m.get k = m'.get k) : m = m' := by
  have hnodup : ∀ m : BTreeMap K V, m.entries.Nodup := by
    intro m
    refine m.sorted.imp ?_
    rintro p q hlt rfl
    exact lt_irrefl _ hlt
  have hperm : m.entries.Perm m'.entries := by
    rw [List.perm_ext_iff_of_nodup (hnodup m) (hnodup m')]
    rintro ⟨k, v⟩
    rw [mem_entries_iff, mem_entries_iff, h]
  refine ext (hperm.eq_of_pairwise ?_ m.sorted m'.sorted)
  intro p q _ _ hlt hgt
  exact absurd hlt hgt.asymm

/-- A set is known by its members. -/
theorem ext_set {m m' : BTreeMap K Unit} (h : ∀ k, (m.get k).isSome ↔ (m'.get k).isSome) :
    m = m' := by
  refine ext_get fun k => ?_
  have hk := h k
  cases hm : m.get k with
  | none =>
    rw [hm] at hk
    exact (Option.not_isSome_iff_eq_none.mp fun hsome => nomatch hk.mpr hsome).symm
  | some u =>
    rw [hm] at hk
    obtain ⟨u', hu'⟩ := Option.isSome_iff_exists.mp (hk.mp rfl)
    exact hu'.symm

theorem lookupList_upsertList_eq (k : K) (f : Option V → V)
    (hl : l.Pairwise (fun p q => p.1 < q.1)) :
    lookupList k (upsertList k f l) = some (f (lookupList k l)) := by
  induction l with
  | nil => exact if_pos rfl
  | cons p rest ih =>
    obtain ⟨hhead, htail⟩ := List.pairwise_cons.mp hl
    unfold upsertList
    split_ifs with hlt heq
    · -- the new entry goes in front, so that the key was not there
      have habsent : lookupList k (p :: rest) = none := by
        rw [lookupList, if_neg hlt.ne]
        exact lookupList_eq_none (p := (k, p.2)) rfl (fun q hq => hlt.trans (hhead q hq))
      rw [habsent, lookupList, if_pos rfl]
    · rw [lookupList, if_pos rfl, lookupList, if_pos heq]
    · rw [lookupList, if_neg heq, lookupList, if_neg heq]
      exact ih htail

/-- An update is seen at its own key only. -/
theorem get_upsert (m : BTreeMap K V) (k k' : K) (f : Option V → V) :
    (m.upsert k f).get k' = if k' = k then some (f (m.get k)) else m.get k' := by
  split_ifs with hk'
  · rw [hk']
    exact lookupList_upsertList_eq k f m.sorted
  · exact lookupList_upsertList_of_ne hk' f m.entries

@[simp] theorem get_insert (m : BTreeMap K V) (k k' : K) (v : V) :
    (m.insert k v).get k' = if k' = k then some v else m.get k' :=
  get_upsert m k k' _

@[simp] theorem get_remove (m : BTreeMap K V) (k k' : K) :
    (m.remove k).get k' = if k' = k then none else m.get k' := by
  apply Option.ext
  intro v
  rw [← mem_entries_iff, remove, List.mem_filter, mem_entries_iff, decide_eq_true_eq]
  split_ifs with hk
  · simp [hk]
  · simp [hk]

theorem entries_ne_nil_of_get (h : m.get k = some v) :
    m.entries ≠ [] := by
  intro hnil
  have hmem := mem_entries_iff.mpr h
  rw [hnil] at hmem
  cases hmem

@[simp] theorem get_retain (m : BTreeMap K V) (p : K → V → Bool) (k : K) :
    (m.retain p).get k = (m.get k).filter (p k) := by
  refine Option.ext fun v => ?_
  rw [Option.filter_eq_some_iff, ← mem_entries_iff, ← mem_entries_iff]
  exact List.mem_filter

/-- The later of two values stays. -/
theorem insert_insert (m : BTreeMap K V) (k : K) (v w : V) :
    (m.insert k v).insert k w = m.insert k w := by
  apply ext_get
  intro k'
  rw [get_insert, get_insert, get_insert]
  split_ifs <;> rfl

theorem insert_eq_self :
    m.insert k v = m ↔ m.get k = some v := by
  refine ⟨fun h => ?_, fun h => ext_get fun k' => ?_⟩
  · rw [← h, get_insert, if_pos rfl]
  · rw [get_insert]
    split_ifs with hk
    · rw [hk, h]
    · rfl

theorem mem_keys : k ∈ m.keys ↔ ∃ v, m.get k = some v := by
  simp only [keys, List.mem_map, Prod.exists, exists_and_right, exists_eq_right, mem_entries_iff]

theorem mem_values : v ∈ m.values ↔ ∃ k, m.get k = some v := by
  simp only [values, List.mem_map, Prod.exists, exists_eq_right, mem_entries_iff]

theorem sorted_keys (m : BTreeMap K V) : m.keys.Pairwise (· < ·) :=
  List.pairwise_map.mpr m.sorted

theorem nodup_keys (m : BTreeMap K V) : m.keys.Nodup := (sorted_keys m).imp ne_of_lt

/-- Maps that know the same keys list the same keys. -/
theorem keys_congr {m' : BTreeMap K W}
    (h : ∀ k, (m.get k).isSome = (m'.get k).isSome) : m.keys = m'.keys := by
  have hperm : m.keys.Perm m'.keys := by
    rw [List.perm_ext_iff_of_nodup (nodup_keys m) (nodup_keys m')]
    intro k
    rw [mem_keys, mem_keys, ← Option.isSome_iff_exists, ← Option.isSome_iff_exists, h]
  refine hperm.eq_of_pairwise ?_ (sorted_keys m) (sorted_keys m')
  intro a b _ _ hlt hgt
  exact absurd hlt hgt.asymm

/-- Overwriting a value leaves the keys. -/
theorem keys_insert_of_get {v w : V} (h : m.get k = some w) :
    (m.insert k v).keys = m.keys := by
  apply keys_congr
  intro k'
  rw [get_insert]
  split_ifs with hk
  · rw [hk, h]
    rfl
  · rfl

@[simp] theorem length_keys (m : BTreeMap K V) : m.keys.length = m.entries.length :=
  List.length_map ..

/-- A key above all others goes to the end. -/
theorem entries_insert_last (h : ∀ p ∈ m.entries, p.1 < k) (v : V) :
    (m.insert k v).entries = m.entries ++ [(k, v)] := by
  show upsertList k (fun _ => v) m.entries = _
  generalize m.entries = l at h
  induction l with
  | nil => rfl
  | cons p rest ih =>
    rw [List.forall_mem_cons] at h
    rw [upsertList, if_neg h.1.asymm, if_neg h.1.ne', ih h.2]
    rfl

theorem length_upsertList_le (k : K) (f : Option V → V) (l : List (K × V)) :
    (upsertList k f l).length ≤ l.length + 1 := by
  induction l with
  | nil => exact le_refl 1
  | cons p rest ih =>
    unfold upsertList
    split_ifs
    · exact le_refl _
    · exact Nat.le_succ _
    · exact Nat.succ_le_succ ih

theorem length_keys_insert_le (m : BTreeMap K V) (k : K) (v : V) :
    (m.insert k v).keys.length ≤ m.keys.length + 1 := by
  rw [length_keys, length_keys]
  exact length_upsertList_le k _ m.entries

/-- Updates at different keys do not meet. -/
theorem get_foldl_upsert (f : K × W → Option V → V) {l : List (K × W)}
    (hl : l.Pairwise (fun p q => p.1 < q.1)) (m : BTreeMap K V) (k : K) :
    (l.foldl (fun m p => m.upsert p.1 (f p)) m).get k =
      (lookupList k l).elim (m.get k) (fun w => some (f (k, w) (m.get k))) := by
  induction l generalizing m with
  | nil => rfl
  | cons p rest ih =>
    obtain ⟨hhead, htail⟩ := List.pairwise_cons.mp hl
    rw [List.foldl_cons, ih htail, lookupList]
    by_cases hk : k = p.1
    · rw [lookupList_eq_none hk hhead, if_pos hk, Option.elim_none, Option.elim_some, get_upsert,
        if_pos hk, hk]
    · rw [if_neg hk, get_upsert, if_neg hk]

theorem lookupList_upsertList_self (k : K) (v : V) (l : List (K × V)) :
    lookupList k (upsertList k (fun _ => v) l) = some v := by
  induction l with
  | nil => exact if_pos rfl
  | cons p rest ih =>
    unfold upsertList
    split_ifs with hlt heq
    · exact if_pos rfl
    · exact if_pos rfl
    · rw [lookupList, if_neg heq]
      exact ih

theorem lookupList_foldl_upsertList
    (hl : l.Pairwise (fun p q => p.1 < q.1)) (m : List (K × V)) (k : K) :
    lookupList k (l.foldl (fun m p => upsertList p.1 (fun _ => p.2) m) m) =
      (lookupList k l).or (lookupList k m) := by
  induction l generalizing m with
  | nil => rfl
  | cons p rest ih =>
    obtain ⟨hhead, htail⟩ := List.pairwise_cons.mp hl
    rw [List.foldl_cons, ih htail, lookupList]
    by_cases hk : k = p.1
    · rw [lookupList_eq_none hk hhead, if_pos hk, hk, lookupList_upsertList_self]
      rfl
    · rw [if_neg hk, lookupList_upsertList_of_ne hk]

theorem lookupList_map (f : K × V → W) (l : List (K × V)) (k : K) :
    lookupList k (l.map (fun p => (p.1, f p))) = (lookupList k l).map (fun v => f (k, v)) := by
  induction l with
  | nil => rfl
  | cons p rest ih =>
    rw [List.map_cons, lookupList, lookupList]
    split_ifs with hk
    · rw [hk]
      rfl
    · exact ih

/-- A list in the order of its keys is looked up as it stands. -/
theorem get_ofList (hl : l.Pairwise (fun p q => p.1 < q.1)) (k : K) :
    (ofList l).get k = lookupList k l := by
  have hfold := get_foldl_upsert (fun (p : K × V) _ => p.2) hl empty k
  unfold ofList insert
  rw [hfold]
  cases lookupList k l <;> rfl

theorem isSome_get_ofList (l : List (K × V)) (k : K) :
    ((ofList l).get k).isSome ↔ k ∈ l.map (·.1) := by
  have hfold : ∀ (m : BTreeMap K V), ((l.foldl (fun m p => m.insert p.1 p.2) m).get k).isSome ↔
      (m.get k).isSome ∨ k ∈ l.map (·.1) := by
    induction l with
    | nil => simp
    | cons p rest ih =>
      intro m
      rw [List.foldl_cons, ih, get_insert, List.map_cons, List.mem_cons]
      split_ifs with hk
      · simp [hk]
      · rw [or_iff_right hk]
  unfold ofList
  rw [hfold, get_empty, Option.isSome_none, or_iff_right Bool.false_ne_true]

theorem mem_iff_lookupList (hl : (l.map (·.1)).Nodup) :
    (k, v) ∈ l ↔ lookupList k l = some v := by
  refine ⟨fun h => ?_, mem_of_lookupList⟩
  induction l with
  | nil => cases h
  | cons p rest ih =>
    obtain ⟨hhead, htail⟩ := List.nodup_cons.mp hl
    rw [lookupList]
    rcases List.mem_cons.mp h with rfl | hmem
    · exact if_pos rfl
    · have hk : k ∈ rest.map (·.1) := List.mem_map_of_mem (f := (·.1)) hmem
      have hne : k ≠ p.1 := by
        intro heq
        rw [heq] at hk
        exact hhead hk
      rw [if_neg hne]
      exact ih htail hmem

/-- So is a list in any order, if no key is in it twice. -/
theorem get_ofList_of_nodup (hl : (l.map (·.1)).Nodup) (k : K) :
    (ofList l).get k = lookupList k l := by
  have hfold : ∀ (m : BTreeMap K V), (l.foldl (fun m p => m.insert p.1 p.2) m).get k =
      (lookupList k l).or (m.get k) := by
    induction l with
    | nil => exact fun m => rfl
    | cons p rest ih =>
      intro m
      obtain ⟨hhead, htail⟩ := List.nodup_cons.mp hl
      rw [List.foldl_cons, ih htail, get_insert, lookupList]
      split_ifs with hk
      · rw [lookupList_of_notMem (hk ▸ hhead)]
        rfl
      · rfl
  unfold ofList
  rw [hfold, get_empty, Option.or_none]

theorem perm_entries_ofList (hl : (l.map (·.1)).Nodup) :
    (ofList l).entries.Perm l := by
  refine (List.perm_ext_iff_of_nodup ?_ (List.Nodup.of_map _ hl)).mpr fun p => ?_
  · exact List.Nodup.of_map _ (ofList l).nodup_keys
  · rw [mem_iff_lookupList hl, mem_entries_iff, get_ofList_of_nodup hl]

/-- The order does not matter if no key is there twice. -/
theorem ofList_eq_of_perm {l l' : List (K × V)} (hl : (l.map (·.1)).Nodup) (h : l.Perm l') :
    ofList l = ofList l' := by
  refine ext_get fun k => Option.ext fun v => ?_
  have hl' := (h.map (·.1)).nodup_iff.mp hl
  rw [get_ofList_of_nodup hl, get_ofList_of_nodup hl', ← mem_iff_lookupList hl,
    ← mem_iff_lookupList hl', h.mem_iff]

theorem ofList_filter_ne (hl : (l.map (·.1)).Nodup) (k : K) :
    ofList (l.filter fun p => decide (p.1 ≠ k)) = (ofList l).remove k := by
  have hfilter : ((l.filter fun p => decide (p.1 ≠ k)).map (·.1)).Nodup :=
    (List.filter_sublist.map _).nodup hl
  refine ext_get fun k' => Option.ext fun v => ?_
  rw [get_ofList_of_nodup hfilter, ← mem_iff_lookupList hfilter, List.mem_filter, get_remove,
    mem_iff_lookupList hl, get_ofList_of_nodup hl]
  by_cases hk : k' = k
  · simp [hk]
  · simp [hk]

theorem mem_of_get_ofList (h : (ofList l).get k = some v) :
    (k, v) ∈ l := by
  have hfold : ∀ (m : BTreeMap K V), (l.foldl (fun m p => m.insert p.1 p.2) m).get k = some v →
      (k, v) ∈ l ∨ m.get k = some v := by
    clear h
    induction l with
    | nil => exact fun m h => .inr h
    | cons p rest ih =>
      intro m h
      rcases ih _ h with hrest | hhead
      · exact .inl (List.mem_cons_of_mem _ hrest)
      · rw [get_insert] at hhead
        split_ifs at hhead with hk
        · cases hhead
          exact .inl (hk ▸ List.mem_cons_self)
        · exact .inr hhead
  exact (hfold empty h).resolve_right nofun

@[simp] theorem ofList_entries (m : BTreeMap K V) : ofList m.entries = m :=
  ext_get (fun k => get_ofList m.sorted k)

/-- The entry before a key is that of the greatest key not above it. -/
theorem floorEntry_eq_some {k k' : K} (hget : m.get k' = some v)
    (hle : k' ≤ k) (hmax : ∀ k'' v', m.get k'' = some v' → k'' ≤ k → k'' ≤ k') :
    m.floorEntry k = some (k', v) := by
  have hmem : (k', v) ∈ m.entries.filter (fun p => p.1 ≤ k) :=
    List.mem_filter.mpr ⟨mem_entries_iff.mpr hget, by simpa using hle⟩
  have hsorted : (m.entries.filter (fun p => p.1 ≤ k)).Pairwise (fun p q => p.1 < q.1) :=
    m.sorted.filter _
  obtain ⟨front, back, hsplit⟩ := List.append_of_mem hmem
  unfold floorEntry
  -- nothing can stand behind the entry
  cases back with
  | nil => rw [hsplit, List.getLast?_concat]
  | cons q back =>
    rw [hsplit] at hsorted
    have hlt : k' < q.1 :=
      List.rel_of_pairwise_cons (List.pairwise_append.mp hsorted).2.1 List.mem_cons_self
    have hq : q ∈ m.entries.filter (fun p => p.1 ≤ k) := by
      rw [hsplit]
      exact List.mem_append_right _ (List.mem_cons_of_mem _ List.mem_cons_self)
    obtain ⟨hentry, hqle⟩ := List.mem_filter.mp hq
    exact absurd (hmax q.1 q.2 (mem_entries_iff.mp hentry) (by simpa using hqle)) (not_le.mpr hlt)

/-! ## The values, up to order -/

theorem remove_eq_self (h : m.get k = none) : m.remove k = m := by
  refine ext_get fun k' => ?_
  rw [get_remove]
  split_ifs with hk
  · rw [hk, h]
  · rfl

/-- An insert adds its value and takes away the one under its key. -/
theorem perm_values_insert (m : BTreeMap K V) (k : K) (v : V) :
    (m.insert k v).values.Perm (v :: (m.remove k).values) := by
  have hnot : (k, v) ∉ (m.remove k).entries := by
    rw [mem_entries_iff, get_remove, if_pos rfl]
    exact nofun
  have hnodup : ∀ m : BTreeMap K V, m.entries.Nodup := fun m =>
    List.Nodup.of_map _ m.nodup_keys
  have hentries : (m.insert k v).entries.Perm ((k, v) :: (m.remove k).entries) := by
    refine (List.perm_ext_iff_of_nodup (hnodup _) (List.nodup_cons.mpr ⟨hnot, hnodup _⟩)).mpr ?_
    rintro ⟨k', w⟩
    rw [List.mem_cons, mem_entries_iff, mem_entries_iff, get_insert, get_remove]
    split_ifs with hk
    · simp [hk, eq_comm]
    · simp [hk]
  exact hentries.map _

theorem perm_values_of_get (h : m.get k = some v) :
    m.values.Perm (v :: (m.remove k).values) := by
  have hperm := m.perm_values_insert k v
  rwa [insert_eq_self.mpr h] at hperm

/-- The count changes by the value put in and the one put out. -/
theorem countP_values_insert (p : V → Bool) (m : BTreeMap K V) (k : K) (v : V) :
    (m.insert k v).values.countP p + (m.get k).elim 0 (fun w => if p w then 1 else 0) =
      m.values.countP p + if p v then 1 else 0 := by
  rw [(m.perm_values_insert k v).countP_eq, List.countP_cons]
  cases h : m.get k with
  | none =>
    rw [remove_eq_self h]
    rfl
  | some w =>
    rw [(perm_values_of_get h).countP_eq, List.countP_cons, Option.elim_some]
    omega

end BTreeMap

end Arcxa
