import Arcxa.Lib.BTreeMap

/-!
# Batches into buckets

Records come in batches and go into buckets, each under its key. Where a batch is applied to what the
buckets held before it, record by record, the last record of each key is what is left of the batch
(`get_foldl_insert`). So over several batches a bucket has one record of each batch (`survivors`), and it
has all that it should exactly where no batch had more (`survivors_eq_iff`, `perm_survivors_iff`).
-/

namespace Arcxa

variable {R K V : Type}

section Survivors

variable [DecidableEq K] (key : R → K) (k : K)

def lastUnder (batch : List R) : Option R := (batch.filter (key · = k)).getLast?

def survivors (batches : List (List R)) : List R :=
  batches.flatMap fun batch => (lastUnder key k batch).toList

variable {key k}

theorem mem_of_lastUnder {batch : List R} {r : R} (h : r ∈ lastUnder key k batch) :
    r ∈ batch ∧ key r = k := by
  have hmem := List.mem_filter.mp (List.mem_of_getLast? h)
  exact ⟨hmem.1, of_decide_eq_true hmem.2⟩

theorem lastUnder_eq_none {batch : List R} (h : lastUnder key k batch = none) :
    batch.filter (key · = k) = [] := List.getLast?_eq_none_iff.mp h

theorem isSome_lastUnder {batch : List R} : (lastUnder key k batch).isSome ↔ k ∈ batch.map key := by
  rw [List.mem_map]
  constructor
  · intro hsome
    obtain ⟨r, hr⟩ := Option.isSome_iff_exists.mp hsome
    exact ⟨r, mem_of_lastUnder hr⟩
  · rintro ⟨r, hmem, hkey⟩
    rw [Option.isSome_iff_ne_none]
    intro hnone
    exact List.filter_eq_nil_iff.mp (lastUnder_eq_none hnone) r hmem (decide_eq_true hkey)

variable {batches : List (List R)}

theorem mem_survivors {r : R} (h : r ∈ survivors key k batches) :
    r ∈ batches.flatten ∧ key r = k := by
  obtain ⟨batch, hbatch, hr⟩ := List.mem_flatMap.mp h
  obtain ⟨hmem, hkey⟩ := mem_of_lastUnder (Option.mem_toList.mp hr)
  exact ⟨List.mem_flatten_of_mem hbatch hmem, hkey⟩

theorem survivors_concat (batches : List (List R)) (batch : List R) :
    survivors key k (batches ++ [batch]) =
      survivors key k batches ++ (lastUnder key k batch).toList := by
  rw [survivors, List.flatMap_append, List.flatMap_singleton]
  rfl

theorem sublist_survivors (batches : List (List R)) :
    (survivors key k batches).Sublist (batches.flatten.filter (key · = k)) := by
  induction batches with
  | nil => exact List.Sublist.refl _
  | cons batch batches ih =>
    rw [survivors, List.flatMap_cons, List.flatten_cons, List.filter_append]
    refine List.Sublist.append ?_ ih
    cases hlast : lastUnder key k batch with
    | none => exact List.nil_sublist _
    | some r => exact List.singleton_sublist.mpr (List.mem_of_getLast? hlast)

theorem lastUnder_concat (batch : List R) (r : R) :
    lastUnder key k (batch ++ [r]) = if key r = k then some r else lastUnder key k batch := by
  unfold lastUnder
  rw [List.filter_append]
  split_ifs with hk
  · simp [hk]
  · simp [hk]

variable (key k) in
theorem length_survivors_cons (c : R → Prop) [DecidablePred c] (batch : List R)
    (batches : List (List R)) :
    (survivors key k (batch :: batches)).length =
        (lastUnder key k batch).toList.length + (survivors key k batches).length ∧
      ((batch :: batches).flatten.filter fun r => c r).length =
        batch.countP (fun r => c r) + (batches.flatten.filter fun r => c r).length := by
  rw [List.flatten_cons, List.filter_append, List.length_append, ← List.countP_eq_length_filter]
  exact ⟨List.length_append, rfl⟩

theorem length_survivors_le {c : R → Prop} [DecidablePred c]
    (hle : ∀ batch ∈ batches, (lastUnder key k batch).toList.length ≤ batch.countP fun r => c r) :
    (survivors key k batches).length ≤ (batches.flatten.filter fun r => c r).length := by
  induction batches with
  | nil => exact le_refl _
  | cons batch batches ih =>
    obtain ⟨hleft, hright⟩ := length_survivors_cons key k c batch batches
    rw [hleft, hright]
    exact Nat.add_le_add (hle batch (List.mem_cons_self ..))
      (ih fun b hb => hle b (List.mem_cons_of_mem _ hb))

theorem countP_eq_of_length {c : R → Prop} [DecidablePred c]
    (hle : ∀ batch ∈ batches, (lastUnder key k batch).toList.length ≤ batch.countP fun r => c r)
    (hlength : (survivors key k batches).length = (batches.flatten.filter fun r => c r).length) :
    ∀ batch ∈ batches, batch.countP (fun r => c r) = (lastUnder key k batch).toList.length := by
  induction batches with
  | nil => exact fun batch hbatch => nomatch hbatch
  | cons first batches ih =>
    obtain ⟨hleft, hright⟩ := length_survivors_cons key k c first batches
    have hfirst := hle first (List.mem_cons_self ..)
    have hle' := fun b hb => hle b (List.mem_cons_of_mem _ hb)
    have hrest := length_survivors_le hle'
    intro batch hbatch
    rcases List.mem_cons.mp hbatch with rfl | hbatch
    · omega
    · exact ih hle' (by omega) batch hbatch

/-- A bucket has exactly the records that it should where each batch that reaches it has one such record,
and that last. -/
theorem perm_survivors_iff {c : R → Prop} [DecidablePred c] (hc : ∀ r, c r → key r = k) :
    (survivors key k batches).Perm (batches.flatten.filter fun r => c r) ↔
      ∀ batch ∈ batches, ∀ last ∈ lastUnder key k batch,
        c last ∧ batch.countP (fun r => c r) = 1 := by
  constructor
  · intro hperm
    have hlast : ∀ batch ∈ batches, ∀ last ∈ lastUnder key k batch, c last := by
      intro batch hbatch last hlast
      have hmem : last ∈ survivors key k batches :=
        List.mem_flatMap.mpr ⟨batch, hbatch, Option.mem_toList.mpr hlast⟩
      exact of_decide_eq_true (List.mem_filter.mp (hperm.mem_iff.mp hmem)).2
    have hle : ∀ batch ∈ batches,
        (lastUnder key k batch).toList.length ≤ batch.countP fun r => c r := by
      intro batch hbatch
      cases hk : lastUnder key k batch with
      | none => exact Nat.zero_le _
      | some last =>
        exact List.countP_pos_iff.mpr
          ⟨last, (mem_of_lastUnder hk).1, decide_eq_true (hlast batch hbatch last hk)⟩
    intro batch hbatch last hmem
    have hcount := countP_eq_of_length hle hperm.length_eq batch hbatch
    rw [hmem] at hcount
    exact ⟨hlast batch hbatch last hmem, hcount⟩
  · intro hall
    refine List.Perm.of_eq ?_
    induction batches with
    | nil => rfl
    | cons batch batches ih =>
      rw [survivors, List.flatMap_cons, List.flatten_cons, List.filter_append]
      refine congrArg₂ (· ++ ·) ?_ (ih fun b hb => hall b (List.mem_cons_of_mem _ hb))
      cases hk : lastUnder key k batch with
      | none =>
        refine (List.filter_eq_nil_iff.mpr fun r hr hcr => ?_).symm
        have hnone := List.filter_eq_nil_iff.mp (lastUnder_eq_none hk) r hr
        exact hnone (decide_eq_true (hc r (of_decide_eq_true hcr)))
      | some last =>
        obtain ⟨hlast, hcount⟩ := hall batch (List.mem_cons_self ..) last hk
        rw [List.countP_eq_length_filter] at hcount
        obtain ⟨r, hr⟩ := List.length_eq_one_iff.mp hcount
        have hmem : last ∈ batch.filter fun r => c r :=
          List.mem_filter.mpr ⟨(mem_of_lastUnder hk).1, decide_eq_true hlast⟩
        rw [hr] at hmem ⊢
        rw [List.mem_singleton.mp hmem]
        rfl

theorem survivors_eq_iff :
    survivors key k batches = batches.flatten.filter (key · = k) ↔
      ∀ batch ∈ batches, batch.countP (key · = k) ≤ 1 := by
  have hperm : survivors key k batches = batches.flatten.filter (key · = k) ↔
      (survivors key k batches).Perm (batches.flatten.filter (key · = k)) :=
    ⟨List.Perm.of_eq, fun hperm => (sublist_survivors batches).eq_of_length hperm.length_eq⟩
  rw [hperm, perm_survivors_iff fun r hr => hr]
  refine forall₂_congr fun batch hbatch => ?_
  constructor
  · intro hall
    cases hk : lastUnder key k batch with
    | none =>
      rw [List.countP_eq_length_filter, lastUnder_eq_none hk]
      exact Nat.zero_le _
    | some last => exact (hall last hk).2.le
  · intro hcount last hlast
    obtain ⟨hmem, hkey⟩ := mem_of_lastUnder hlast
    exact ⟨hkey, le_antisymm hcount (List.countP_pos_iff.mpr ⟨last, hmem, decide_eq_true hkey⟩)⟩

theorem survivors_eq_nil_iff :
    survivors key k batches = [] ↔ ∀ r ∈ batches.flatten, key r ≠ k := by
  constructor
  · intro hnil r hr hkey
    obtain ⟨batch, hbatch, hmem⟩ := List.mem_flatten.mp hr
    cases hlast : lastUnder key k batch with
    | none => exact List.filter_eq_nil_iff.mp (lastUnder_eq_none hlast) r hmem (decide_eq_true hkey)
    | some last =>
      have hlast' : last ∈ survivors key k batches :=
        List.mem_flatMap.mpr ⟨batch, hbatch, Option.mem_toList.mpr hlast⟩
      rw [hnil] at hlast'
      cases hlast'
  · intro hall
    refine List.eq_nil_iff_forall_not_mem.mpr fun r hr => ?_
    obtain ⟨hmem, hkey⟩ := mem_survivors hr
    exact hall r hmem hkey

variable (key) in
theorem filter_flatMap_key {keys : List K} (hnodup : keys.Nodup) (bucket : K → List R)
    (hbucket : ∀ k, ∀ r ∈ bucket k, key r = k) (k : K) :
    (keys.flatMap bucket).filter (key · = k) = if k ∈ keys then bucket k else [] := by
  have hfilter : ∀ k', (bucket k').filter (key · = k) = if k' = k then bucket k else [] := by
    intro k'
    split_ifs with hk
    · subst hk
      exact List.filter_eq_self.mpr fun r hr => decide_eq_true (hbucket k' r hr)
    · refine List.filter_eq_nil_iff.mpr fun r hr hkey => hk ?_
      rw [← hbucket k' r hr]
      exact of_decide_eq_true hkey
  induction keys with
  | nil => rfl
  | cons k' keys ih =>
    obtain ⟨hk', hnodup⟩ := List.nodup_cons.mp hnodup
    rw [List.flatMap_cons, List.filter_append, hfilter, ih hnodup]
    by_cases hk : k' = k
    · subst hk
      rw [if_pos rfl, if_neg hk', if_pos (List.mem_cons_self ..), List.append_nil]
    · rw [if_neg hk, List.nil_append]
      simp only [List.mem_cons, Ne.symm hk, false_or]

variable (key) in
theorem perm_flatMap_filter {keys : List K} (hnodup : keys.Nodup) {l : List R}
    (hl : ∀ r ∈ l, key r ∈ keys) : l.Perm (keys.flatMap fun k => l.filter (key · = k)) := by
  induction keys generalizing l with
  | nil =>
    rw [List.eq_nil_iff_forall_not_mem.mpr fun r hr => nomatch hl r hr]
    exact List.Perm.refl _
  | cons k keys ih =>
    obtain ⟨hk, hnodup⟩ := List.nodup_cons.mp hnodup
    have hrest := ih hnodup (l := l.filter fun r => !decide (key r = k)) fun r hr => by
      obtain ⟨hmem, hne⟩ := List.mem_filter.mp hr
      rcases List.mem_cons.mp (hl r hmem) with heq | hmem
      · simp [heq] at hne
      · exact hmem
    have hsame : (keys.flatMap fun k' =>
          (l.filter fun r => !decide (key r = k)).filter (key · = k')) =
        keys.flatMap fun k' => l.filter (key · = k') := by
      refine List.flatMap_congr fun k' hk' => ?_
      rw [List.filter_filter]
      refine List.filter_congr fun r _ => ?_
      rw [Bool.and_eq_left_iff_imp, decide_eq_true_eq]
      rintro rfl
      rw [Bool.not_eq_true', decide_eq_false_iff_not]
      rintro rfl
      exact hk hk'
    rw [hsame] at hrest
    rw [List.flatMap_cons]
    exact (List.filter_append_perm (fun r => decide (key r = k)) l).symm.trans (hrest.append_left _)

end Survivors

/-! ## The latest record of each key -/

section Latest

variable [DecidableEq K] (key : R → K)

def latest : List R → List R
  | [] => []
  | r :: l => if key r ∈ l.map key then latest l else r :: latest l

def superseded : List R → List R
  | [] => []
  | r :: l => if key r ∈ l.map key then r :: superseded l else superseded l

theorem perm_latest_superseded (l : List R) : l.Perm (latest key l ++ superseded key l) := by
  induction l with
  | nil => exact .refl _
  | cons r l ih =>
    rw [latest, superseded]
    split_ifs with hlater
    · exact (ih.cons r).trans List.perm_middle.symm
    · exact ih.cons r

variable {key}

theorem lastUnder_cons (k : K) (r : R) (l : List R) :
    lastUnder key k (r :: l) = (lastUnder key k l).or (if key r = k then some r else none) := by
  unfold lastUnder
  rw [List.filter_cons]
  by_cases hk : key r = k
  · rw [if_pos (decide_eq_true hk), if_pos hk, List.getLast?_cons]
    cases (l.filter (key · = k)).getLast? <;> rfl
  · rw [if_neg (by simpa using hk), if_neg hk, Option.or_none]

theorem mem_latest {l : List R} {r : R} : r ∈ latest key l ↔ lastUnder key (key r) l = some r := by
  induction l with
  | nil => exact iff_of_false List.not_mem_nil nofun
  | cons a l ih =>
    rw [latest, lastUnder_cons]
    by_cases hk : key a = key r
    · rw [if_pos hk, hk]
      split_ifs with hlater
      · obtain ⟨r', hr'⟩ := Option.isSome_iff_exists.mp (isSome_lastUnder.mpr hlater)
        rw [ih, hr', Option.some_or]
      · have hnone : lastUnder key (key r) l = none :=
          Option.not_isSome_iff_eq_none.mp fun hsome => hlater (isSome_lastUnder.mp hsome)
        rw [List.mem_cons, ih, hnone, Option.none_or, Option.some.injEq, or_iff_left nofun, eq_comm]
    · rw [if_neg hk, Option.or_none, ← ih]
      split_ifs with hlater
      · exact .rfl
      · rw [List.mem_cons, or_iff_right fun heq : r = a => hk (congrArg key heq.symm)]

theorem nodup_latest (l : List R) : ((latest key l).map key).Nodup := by
  induction l with
  | nil => exact List.nodup_nil
  | cons r l ih =>
    rw [latest]
    split_ifs with hlater
    · exact ih
    · refine List.nodup_cons.mpr ⟨fun hmem => hlater ?_, ih⟩
      obtain ⟨r', hr', hkey⟩ := List.mem_map.mp hmem
      exact hkey ▸ List.mem_map_of_mem (mem_of_lastUnder (mem_latest.mp hr')).1

end Latest

/-! ## Loops that write to a map -/

variable [LinearOrder K]

theorem get_foldl_insert (key : R → K) (value : R → V) (batch : List R) (m : BTreeMap K V) (k : K) :
    (batch.foldl (fun m r => m.insert (key r) (value r)) m).get k =
      ((lastUnder key k batch).map value).or (m.get k) := by
  induction batch using List.reverseRecOn with
  | nil => rfl
  | append_singleton batch r ih =>
    rw [List.foldl_append, List.foldl_cons, List.foldl_nil, BTreeMap.get_insert, ih, lastUnder_concat]
    by_cases hk : k = key r
    · rw [if_pos hk, if_pos hk.symm]
      rfl
    · rw [if_neg hk, if_neg (Ne.symm hk)]

theorem get_foldl_entries (m index : BTreeMap K V) (k : K) :
    (m.entries.foldl (fun index entry => index.insert entry.1 entry.2) index).get k =
      (m.get k).or (index.get k) := by
  have hfold := BTreeMap.get_foldl_upsert (fun (entry : K × V) _ => entry.2) m.sorted index k
  refine hfold.trans ?_
  show (m.get k).elim _ _ = _
  cases m.get k <;> rfl

theorem perm_entries_foldl_insert (key : R → K) (value : R → V) (l : List R) :
    (l.foldl (fun m r => m.insert (key r) (value r)) BTreeMap.empty).entries.Perm
      ((latest key l).map fun r => (key r, value r)) := by
  refine (List.perm_ext_iff_of_nodup (List.Nodup.of_map _ (BTreeMap.nodup_keys _)) ?_).mpr ?_
  · refine List.Nodup.of_map Prod.fst ?_
    rw [List.map_map]
    exact nodup_latest l
  · rintro ⟨k, v⟩
    rw [BTreeMap.mem_entries_iff, get_foldl_insert, BTreeMap.get_empty, Option.or_none,
      Option.map_eq_some_iff, List.mem_map]
    constructor
    · rintro ⟨r, hr, rfl⟩
      obtain rfl := (mem_of_lastUnder hr).2
      exact ⟨r, mem_latest.mpr hr, rfl⟩
    · rintro ⟨r, hr, heq⟩
      obtain ⟨rfl, rfl⟩ := Prod.mk.inj heq
      exact ⟨r, mem_latest.mp hr, rfl⟩

end Arcxa
