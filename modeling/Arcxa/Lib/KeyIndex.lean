import Arcxa.Lib.BTreeMap

/-!
# Indexes

Records are indexed by a key that is computed from them: the index is an ordered map, and a later record
with the same key takes the place of an earlier one. So the index has the records that no later record
of the same key follows (`Kept`), in the order of their keys. A scan goes through the index from some
key on; a scan that stops where a test fails returns the records for which no record up to them fails it,
and where the keys are texts and the test is on a prefix, those with the prefix.
-/

namespace Arcxa

variable {R K V W : Type} [LinearOrder K]

namespace BTreeMap

/-! ## The values of a map, one by one -/

def mapValues (f : V → W) (m : BTreeMap K V) : BTreeMap K W where
  entries := m.entries.map fun p => (p.1, f p.2)
  sorted := List.pairwise_map.mpr m.sorted

@[simp] theorem entries_mapValues (f : V → W) (m : BTreeMap K V) :
    (m.mapValues f).entries = m.entries.map fun p => (p.1, f p.2) := rfl

@[simp] theorem get_mapValues (f : V → W) (m : BTreeMap K V) (k : K) :
    (m.mapValues f).get k = (m.get k).map f := by
  refine Option.ext fun w => ?_
  rw [← mem_entries_iff, Option.map_eq_some_iff]
  show (k, w) ∈ m.entries.map _ ↔ _
  simp only [List.mem_map, Prod.exists, Prod.mk.injEq, mem_entries_iff]
  exact ⟨fun ⟨k', v, hget, hk, hw⟩ => ⟨v, hk ▸ hget, hw⟩, fun ⟨v, hget, hw⟩ => ⟨k, v, hget, rfl, hw⟩⟩

theorem insert_mapValues (f : V → W) (m : BTreeMap K V) (k : K) (v : V) :
    (m.mapValues f).insert k (f v) = (m.insert k v).mapValues f := by
  refine ext_get fun k' => ?_
  rw [get_insert, get_mapValues, get_mapValues, get_insert]
  split_ifs <;> rfl

end BTreeMap

/-! ## An index -/

def keyIndex (key : R → K) (records : List R) : BTreeMap K R :=
  records.foldl (fun m r => m.insert (key r) r) .empty

theorem keyIndex_concat (key : R → K) (records : List R) (r : R) :
    keyIndex key (records ++ [r]) = (keyIndex key records).insert (key r) r := by
  rw [keyIndex, List.foldl_append]
  rfl

def Kept (key : R → K) (records : List R) (r : R) : Prop :=
  ∃ before after, records = before ++ r :: after ∧ ∀ r' ∈ after, key r' ≠ key r

variable {key : R → K} {records : List R}

omit [LinearOrder K] in
theorem Kept.mem {r : R} (h : Kept key records r) :
    r ∈ records := by
  obtain ⟨before, after, rfl, -⟩ := h
  exact List.mem_append_right _ (List.mem_cons_self ..)

omit [LinearOrder K] in
theorem kept_concat {r r' : R} :
    Kept key (records ++ [r']) r ↔ r = r' ∨ key r ≠ key r' ∧ Kept key records r := by
  constructor
  · rintro ⟨before, after, hsplit, hafter⟩
    rcases List.eq_nil_or_concat after with rfl | ⟨after, last, rfl⟩
    · exact .inl (List.singleton_inj.mp (List.append_inj' hsplit rfl).2).symm
    · rw [List.concat_eq_append] at hsplit hafter
      rw [← List.cons_append, ← List.append_assoc] at hsplit
      obtain ⟨hrecords, hlast⟩ := List.append_inj' hsplit rfl
      cases hlast
      refine .inr ⟨fun heq => hafter r' (by simp) heq.symm, before, after, hrecords, ?_⟩
      exact fun other hother => hafter other (List.mem_append_left _ hother)
  · rintro (rfl | ⟨hne, before, after, rfl, hafter⟩)
    · exact ⟨records, [], rfl, nofun⟩
    · refine ⟨before, after ++ [r'], by simp, fun other hother => ?_⟩
      rcases List.mem_append.mp hother with hother | hother
      · exact hafter other hother
      · rw [List.mem_singleton.mp hother]
        exact Ne.symm hne

theorem get_keyIndex {k : K} {r : R} :
    (keyIndex key records).get k = some r ↔ key r = k ∧ Kept key records r := by
  induction records using List.reverseRecOn with
  | nil =>
    refine iff_of_false nofun ?_
    rintro ⟨-, hkept⟩
    cases hkept.mem
  | append_singleton records r' ih =>
    rw [keyIndex_concat, BTreeMap.get_insert, kept_concat]
    split_ifs with hk
    · constructor
      · rintro ⟨⟩
        exact ⟨hk.symm, .inl rfl⟩
      · rintro ⟨hkey, rfl | ⟨hne, -⟩⟩
        · rfl
        · exact absurd (hkey.trans hk) hne
    · rw [ih]
      refine and_congr_right fun hkey => ⟨fun hkept => .inr ⟨fun heq => hk (hkey.symm.trans heq), hkept⟩, ?_⟩
      rintro (rfl | ⟨-, hkept⟩)
      · exact absurd hkey.symm hk
      · exact hkept

instance [DecidableEq R] (key : R → K) (records : List R) (r : R) :
    Decidable (Kept key records r) :=
  decidable_of_iff ((keyIndex key records).get (key r) = some r)
    (get_keyIndex.trans (and_iff_right rfl))

theorem get_keyIndex_of_mem (h : (records.map key).Nodup) {r : R}
    (hr : r ∈ records) : (keyIndex key records).get (key r) = some r := by
  refine get_keyIndex.mpr ⟨rfl, ?_⟩
  obtain ⟨before, after, rfl⟩ := List.append_of_mem hr
  refine ⟨before, after, rfl, fun r' hr' heq => ?_⟩
  rw [List.map_append, List.map_cons, List.nodup_append] at h
  exact (List.nodup_cons.mp h.2.1).1 (heq ▸ List.mem_map_of_mem hr')

theorem perm_map_key_iff {records l l' : List R} (h : (records.map key).Nodup)
    (hl : ∀ r ∈ l, r ∈ records) (hl' : ∀ r ∈ l', r ∈ records) :
    (l.map key).Perm (l'.map key) ↔ l.Perm l' := by
  have hread : ∀ {l : List R}, (∀ r ∈ l, r ∈ records) →
      (l.map key).filterMap (keyIndex key records).get = l := by
    intro l hl
    rw [List.filterMap_map]
    exact (List.filterMap_congr fun r hr => get_keyIndex_of_mem h (hl r hr)).trans List.filterMap_some
  constructor
  · intro hperm
    have hread' := hperm.filterMap (keyIndex key records).get
    rwa [hread hl, hread hl'] at hread'
  · exact List.Perm.map key

def indexed (key : R → K) (records : List R) : List R := (keyIndex key records).values

theorem mem_indexed {r : R} :
    r ∈ indexed key records ↔ Kept key records r := by
  simp only [indexed, BTreeMap.mem_values, get_keyIndex, exists_eq_left']

theorem entries_keyIndex (key : R → K) (records : List R) :
    (keyIndex key records).entries = (indexed key records).map fun r => (key r, r) := by
  rw [indexed, BTreeMap.values, List.map_map]
  refine (List.map_id _).symm.trans (List.map_congr_left fun p hp => ?_)
  have hkey := (get_keyIndex.mp (BTreeMap.mem_entries_iff.mp (show (p.1, p.2) ∈ _ from hp))).1
  exact Prod.ext hkey.symm rfl

theorem sorted_indexed (key : R → K) (records : List R) :
    (indexed key records).Pairwise (fun r r' => key r < key r') := by
  have hsorted := (keyIndex key records).sorted
  rw [entries_keyIndex, List.pairwise_map] at hsorted
  exact hsorted

theorem nodup_indexed (key : R → K) (records : List R) : (indexed key records).Nodup :=
  (sorted_indexed key records).imp fun hlt heq => absurd (heq ▸ hlt) (lt_irrefl _)

theorem perm_filter_indexed_iff (hnodup : records.Nodup)
    {q c : R → Bool} : ((indexed key records).filter q).Perm (records.filter c) ↔
      ∀ r ∈ records, Kept key records r ∧ q r ↔ c r := by
  rw [List.perm_ext_iff_of_nodup ((nodup_indexed key records).filter q) (hnodup.filter c)]
  simp only [List.mem_filter, mem_indexed]
  constructor
  · intro h r hr
    rw [h r]
    exact and_iff_right hr
  · intro h r
    constructor
    · intro hkept
      exact ⟨hkept.1.mem, (h r hkept.1.mem).mp hkept⟩
    · intro hmem
      exact (h r hmem.1).mpr hmem.2

/-! ## Scans -/

theorem takeWhile_eq_filter {q : R → Bool} {l : List R}
    (h : l.Pairwise (fun r r' => q r' → q r)) : l.takeWhile q = l.filter q := by
  induction l with
  | nil => rfl
  | cons r l ih =>
    obtain ⟨hhead, htail⟩ := List.pairwise_cons.mp h
    rw [List.takeWhile_cons, List.filter_cons, ih htail]
    split_ifs with hr
    · rfl
    · refine (List.filter_eq_nil_iff.mpr fun r' hr' hq => hr ?_).symm
      exact hhead r' hr' hq

theorem mem_takeWhile_iff {q : R → Bool} {l : List R}
    (h : l.Pairwise (fun r r' => key r < key r')) {r : R} :
    r ∈ l.takeWhile q ↔ r ∈ l ∧ ∀ r' ∈ l, key r' ≤ key r → q r' := by
  induction l with
  | nil => exact iff_of_false nofun nofun
  | cons first l ih =>
    obtain ⟨hhead, htail⟩ := List.pairwise_cons.mp h
    rw [List.takeWhile_cons]
    split_ifs with hfirst
    · rw [List.mem_cons, ih htail]
      constructor
      · rintro (rfl | ⟨hmem, hall⟩)
        · refine ⟨List.mem_cons_self .., fun r' hr' hle => ?_⟩
          rcases List.mem_cons.mp hr' with rfl | hr'
          · exact hfirst
          · exact absurd hle (not_le.mpr (hhead r' hr'))
        · refine ⟨List.mem_cons_of_mem _ hmem, fun r' hr' hle => ?_⟩
          rcases List.mem_cons.mp hr' with rfl | hr'
          · exact hfirst
          · exact hall r' hr' hle
      · rintro ⟨hmem, hall⟩
        rcases List.mem_cons.mp hmem with rfl | hmem
        · exact .inl rfl
        · exact .inr ⟨hmem, fun r' hr' hle => hall r' (List.mem_cons_of_mem _ hr') hle⟩
    · refine iff_of_false nofun ?_
      rintro ⟨hmem, hall⟩
      refine hfirst (hall first (List.mem_cons_self ..) ?_)
      rcases List.mem_cons.mp hmem with rfl | hmem
      · exact le_refl _
      · exact (hhead r hmem).le

theorem eq_of_sorted {l l' : List R} (h : l.Pairwise (fun r r' => key r < key r'))
    (h' : l'.Pairwise (fun r r' => key r < key r')) (hmem : ∀ r, r ∈ l ↔ r ∈ l') : l = l' := by
  have hnodup : ∀ {l : List R}, l.Pairwise (fun r r' => key r < key r') → l.Nodup :=
    fun h => h.imp fun hlt heq => absurd (heq ▸ hlt) (lt_irrefl _)
  have hperm := (List.perm_ext_iff_of_nodup (hnodup h) (hnodup h')).mpr hmem
  refine hperm.eq_of_pairwise ?_ h h'
  intro a b _ _ hlt hgt
  exact absurd hlt hgt.asymm

/-! ## Keys that are texts -/

theorem cons_le_cons_iff {c c' : Char} {k k' : List Char} :
    c :: k ≤ c' :: k' ↔ c < c' ∨ c = c' ∧ k ≤ k' := by
  rw [← not_lt, List.cons_lt_cons_iff, ← not_lt]
  rcases lt_trichotomy c c' with hlt | rfl | hgt
  · simp [hlt, hlt.not_gt, hlt.ne']
  · simp
  · simp [hgt, hgt.not_gt, hgt.ne']

theorem le_of_isPrefix {p k : List Char} (h : p <+: k) : p ≤ k := by
  obtain ⟨rest, rfl⟩ := h
  induction p with
  | nil => exact not_lt.mp (List.not_lt_nil _)
  | cons c p ih => exact cons_le_cons_iff.mpr (.inr ⟨rfl, ih⟩)

theorem isPrefix_of_between {p k k' : List Char} (hle : p ≤ k) (hle' : k ≤ k') (h : p <+: k') :
    p <+: k := by
  induction p generalizing k k' with
  | nil => exact List.nil_prefix
  | cons c p ih =>
    obtain ⟨rest, rfl⟩ := h
    cases k with
    | nil => exact absurd (List.nil_lt_cons c p) (not_lt.mpr hle)
    | cons c' k =>
      rw [List.cons_append] at hle'
      rcases cons_le_cons_iff.mp hle with hlt | ⟨rfl, htail⟩
      · rcases cons_le_cons_iff.mp hle' with hgt | ⟨rfl, -⟩
        · exact absurd hlt hgt.asymm
        · exact absurd hlt (lt_irrefl _)
      · rcases cons_le_cons_iff.mp hle' with hgt | ⟨-, htail'⟩
        · exact absurd hgt (lt_irrefl _)
        · exact List.cons_prefix_cons.mpr ⟨rfl, ih htail htail' (List.prefix_append ..)⟩

/-- `starts_with`. -/
def startsWith (p k : String) : Bool := p.toList.isPrefixOf k.toList

theorem startsWith_iff {p k : String} : startsWith p k ↔ p.toList <+: k.toList :=
  List.isPrefixOf_iff_prefix

theorem le_of_startsWith {p k : String} (h : startsWith p k) : p ≤ k :=
  String.le_iff_toList_le.mpr (le_of_isPrefix (startsWith_iff.mp h))

theorem startsWith_of_between {p k k' : String} (hle : p ≤ k) (hle' : k ≤ k')
    (h : startsWith p k') : startsWith p k :=
  startsWith_iff.mpr (isPrefix_of_between (String.le_iff_toList_le.mp hle)
    (String.le_iff_toList_le.mp hle') (startsWith_iff.mp h))

theorem scan_prefix {key : R → String} {l : List R} (h : l.Pairwise (fun r r' => key r < key r'))
    (p : String) : (l.filter (fun r => p ≤ key r)).takeWhile (fun r => startsWith p (key r)) =
      l.filter (fun r => startsWith p (key r)) := by
  rw [takeWhile_eq_filter, List.filter_filter]
  · refine List.filter_congr fun r _ => ?_
    rw [Bool.and_eq_left_iff_imp]
    exact fun hstarts => decide_eq_true (le_of_startsWith hstarts)
  · refine (h.filter _).imp_of_mem fun {r r'} hr _ hlt hstarts => ?_
    exact startsWith_of_between (of_decide_eq_true (List.mem_filter.mp hr).2) hlt.le hstarts

end Arcxa
