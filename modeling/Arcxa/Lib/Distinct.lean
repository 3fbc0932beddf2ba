import Mathlib.Data.List.ReduceOption
import Mathlib.Tactic

/-!
# First occurrences

The elements of a list whose key did not occur before, kept in their places
(`firstMarks`) and as a list (`firsts`). Where all keys are different, a loop with one round for
each of them is read back key by key (`foldl_of_nodup_keys`).
-/

namespace Arcxa

variable {α κ : Type} [DecidableEq κ]

def firstMarks (key : α → κ) : List κ → List α → List (Option α)
  | _, [] => []
  | seen, a :: l => (if key a ∈ seen then none else some a) :: firstMarks key (key a :: seen) l

def firsts (key : α → κ) (l : List α) : List α := (firstMarks key [] l).reduceOption

theorem reduceOption_map_filterMap {γ : Type} (f : α → Option γ) (l : List α) :
    (l.map f).reduceOption = l.filterMap f :=
  List.filterMap_map

def insertUnseen (key : α → κ) (state : List κ × List α) (a : α) : List κ × List α :=
  if key a ∈ state.1 then state else (key a :: state.1, state.2 ++ [a])

def pushGroup (groups : List (κ × List α)) (k : κ) (a : α) : List (κ × List α) :=
  match groups with
  | [] => [(k, [a])]
  | (k', group) :: groups =>
    if k' = k then (k', group ++ [a]) :: groups else (k', group) :: pushGroup groups k a

def keysAfter (key : α → κ) (seen : List κ) (l : List α) : List κ :=
  l.foldl (fun seen a => key a :: seen) seen

variable {l : List α} {key : α → κ} {seen : List κ}

omit [DecidableEq κ] in
theorem mem_keysAfter {k : κ} :
    k ∈ keysAfter key seen l ↔ k ∈ seen ∨ ∃ a ∈ l, key a = k := by
  induction l generalizing seen with
  | nil => simp [keysAfter]
  | cons a l ih =>
    rw [keysAfter, List.foldl_cons, ← keysAfter, ih, List.mem_cons, eq_comm, or_assoc,
      or_left_comm]
    simp

@[simp] theorem length_firstMarks (key : α → κ) (seen : List κ) (l : List α) :
    (firstMarks key seen l).length = l.length := by
  induction l generalizing seen with
  | nil => rfl
  | cons a l ih => rw [firstMarks, List.length_cons, List.length_cons, ih]

theorem firstMarks_append (key : α → κ) (seen : List κ) (l l' : List α) :
    firstMarks key seen (l ++ l') =
      firstMarks key seen l ++ firstMarks key (keysAfter key seen l) l' := by
  induction l generalizing seen with
  | nil => rfl
  | cons a l ih =>
    rw [List.cons_append, firstMarks, firstMarks, ih]
    rfl

/-! ## Other keys, other elements -/

theorem firstMarks_congr_seen (key : α → κ) {seen seen' : List κ} (h : ∀ k, k ∈ seen ↔ k ∈ seen')
    (l : List α) : firstMarks key seen l = firstMarks key seen' l := by
  induction l generalizing seen seen' with
  | nil => rfl
  | cons a l ih =>
    have hcons : ∀ k, k ∈ key a :: seen ↔ k ∈ key a :: seen' := by
      intro k
      rw [List.mem_cons, List.mem_cons, h]
    rw [firstMarks, firstMarks, ih hcons]
    simp only [h]

theorem firstMarks_cons_of_mem {k : κ} (h : k ∈ seen) (l : List α) :
    firstMarks key (k :: seen) l = firstMarks key seen l := by
  apply firstMarks_congr_seen
  intro k'
  rw [List.mem_cons]
  exact ⟨fun hk => hk.elim (fun heq => heq ▸ h) id, Or.inr⟩

theorem firstMarks_congr_key {key key' : α → κ} (seen : List κ)
    (h : ∀ a ∈ l, key a = key' a) : firstMarks key seen l = firstMarks key' seen l := by
  induction l generalizing seen with
  | nil => rfl
  | cons a l ih =>
    rw [firstMarks, firstMarks, h a List.mem_cons_self,
      ih _ (fun b hb => h b (List.mem_cons_of_mem _ hb))]

theorem firsts_congr_key {key key' : α → κ} (h : ∀ a ∈ l, key a = key' a) :
    firsts key l = firsts key' l := by
  unfold firsts
  rw [firstMarks_congr_key [] h]

theorem firstMarks_map {β : Type} (key : α → κ) (f : β → α) (seen : List κ) (l : List β) :
    firstMarks key seen (l.map f) = (firstMarks (key ∘ f) seen l).map (Option.map f) := by
  induction l generalizing seen with
  | nil => rfl
  | cons b l ih =>
    rw [List.map_cons, firstMarks, firstMarks, List.map_cons, ih]
    simp only [Function.comp_apply]
    split_ifs <;> rfl

theorem firsts_map {β : Type} (key : α → κ) (f : β → α) (l : List β) :
    firsts key (l.map f) = (firsts (key ∘ f) l).map f := by
  unfold firsts
  rw [firstMarks_map, List.reduceOption_map]

variable {a : α}

theorem mem_of_mem_firstMarks (h : some a ∈ firstMarks key seen l) : a ∈ l := by
  induction l generalizing seen with
  | nil => cases h
  | cons b l ih =>
    rcases List.mem_cons.mp h with heq | hmem
    · split_ifs at heq
      cases heq
      exact List.mem_cons_self
    · exact List.mem_cons_of_mem _ (ih hmem)

theorem mem_of_mem_firsts (h : a ∈ firsts key l) : a ∈ l :=
  mem_of_mem_firstMarks (List.reduceOption_mem_iff.mp h)

theorem nodup_firstMarks (key : α → κ) (seen : List κ) (l : List α) :
    ((firstMarks key seen l).reduceOption.map key).Nodup ∧
      ∀ a ∈ (firstMarks key seen l).reduceOption, key a ∉ seen := by
  induction l generalizing seen with
  | nil => exact ⟨List.nodup_nil, fun a ha => absurd ha List.not_mem_nil⟩
  | cons a l ih =>
    obtain ⟨hnodup, hnew⟩ := ih (key a :: seen)
    have hnew' : ∀ b ∈ (firstMarks key (key a :: seen) l).reduceOption, key b ∉ seen :=
      fun b hb hmem => hnew b hb (List.mem_cons_of_mem _ hmem)
    rw [firstMarks]
    split_ifs with hseen
    · rw [List.reduceOption_cons_of_none]
      exact ⟨hnodup, hnew'⟩
    · rw [List.reduceOption_cons_of_some, List.map_cons, List.nodup_cons]
      refine ⟨⟨?_, hnodup⟩, List.forall_mem_cons.mpr ⟨hseen, hnew'⟩⟩
      intro hmem
      obtain ⟨b, hb, hkey⟩ := List.mem_map.mp hmem
      exact hnew b hb (hkey ▸ List.mem_cons_self)

theorem nodup_firsts (key : α → κ) (l : List α) : ((firsts key l).map key).Nodup :=
  (nodup_firstMarks key [] l).1

theorem exists_mem_firstMarks (ha : a ∈ l) (hseen : key a ∉ seen) :
    ∃ b ∈ (firstMarks key seen l).reduceOption, key b = key a := by
  induction l generalizing seen with
  | nil => cases ha
  | cons c l ih =>
    rw [firstMarks]
    by_cases hkey : key c = key a
    · rw [if_neg (hkey ▸ hseen), List.reduceOption_cons_of_some]
      exact ⟨c, List.mem_cons_self, hkey⟩
    · have hl : a ∈ l := (List.mem_cons.mp ha).resolve_left (fun heq => hkey (by rw [heq]))
      have hseen' : key a ∉ key c :: seen := by
        rw [List.mem_cons, not_or]
        exact ⟨Ne.symm hkey, hseen⟩
      obtain ⟨b, hb, hba⟩ := ih hl hseen'
      refine ⟨b, ?_, hba⟩
      split_ifs
      · exact hb
      · rw [List.reduceOption_cons_of_some]
        exact List.mem_cons_of_mem _ hb

theorem mem_firstMarks_iff :
    a ∈ (firstMarks key seen l).reduceOption ↔
      key a ∉ seen ∧ l.find? (fun b => key b = key a) = some a := by
  induction l generalizing seen with
  | nil => simp [firstMarks]
  | cons c l ih =>
    rw [firstMarks]
    by_cases hkey : key c = key a
    · -- nothing behind has the key for the first time
      have hrest : a ∉ (firstMarks key (key c :: seen) l).reduceOption := by
        rw [ih, hkey]
        exact fun h => h.1 List.mem_cons_self
      have hfind : (c :: l).find? (fun b => key b = key a) = some c := by simp [hkey]
      rw [hfind, Option.some_inj]
      split_ifs with hseen
      · rw [List.reduceOption_cons_of_none]
        exact iff_of_false hrest fun h => h.1 (hkey ▸ hseen)
      · rw [List.reduceOption_cons_of_some, List.mem_cons, or_iff_left hrest, ← hkey,
          and_iff_right hseen, eq_comm]
    · have hrest : a ∈ (firstMarks key (key c :: seen) l).reduceOption ↔
          key a ∉ seen ∧ l.find? (fun b => key b = key a) = some a := by
        rw [ih, List.mem_cons, not_or, and_iff_right (Ne.symm hkey)]
      have hfind : (c :: l).find? (fun b => key b = key a) =
          l.find? (fun b => key b = key a) := by simp [hkey]
      rw [hfind, ← hrest]
      split_ifs
      · rw [List.reduceOption_cons_of_none]
      · rw [List.reduceOption_cons_of_some, List.mem_cons, or_iff_right]
        rintro rfl
        exact hkey rfl

theorem mem_firsts_iff : a ∈ firsts key l ↔ l.find? (fun b => key b = key a) = some a := by
  rw [firsts, mem_firstMarks_iff, and_iff_right List.not_mem_nil]

theorem exists_mem_firsts (ha : a ∈ l) : ∃ b ∈ firsts key l, key b = key a :=
  exists_mem_firstMarks ha List.not_mem_nil

theorem mem_firsts_id {l : List κ} {a : κ} : a ∈ firsts id l ↔ a ∈ l := by
  refine ⟨mem_of_mem_firsts, fun ha => ?_⟩
  have hnew : id a ∉ ([] : List κ) := List.not_mem_nil
  obtain ⟨b, hb, rfl⟩ := exists_mem_firstMarks ha hnew
  exact hb

theorem head?_firsts (key : α → κ) (l : List α) : (firsts key l).head? = l.head? := by
  cases l with
  | nil => rfl
  | cons a l =>
    unfold firsts
    rw [firstMarks, if_neg List.not_mem_nil, List.reduceOption_cons_of_some]
    rfl

theorem filterMap_zipIdx_firsts (key : α → κ) (l : List α) :
    (firsts (key ∘ Prod.fst) l.zipIdx).filterMap (fun p => l[p.2]?) = firsts key l := by
  have hget : ∀ p ∈ firsts (key ∘ Prod.fst) l.zipIdx, l[p.2]? = some p.1 := by
    intro p hp
    exact List.mem_zipIdx_iff_getElem?.mp (mem_of_mem_firsts hp)
  calc (firsts (key ∘ Prod.fst) l.zipIdx).filterMap (fun p => l[p.2]?)
      = (firsts (key ∘ Prod.fst) l.zipIdx).filterMap (fun p => some p.1) :=
        List.filterMap_congr hget
    _ = (firsts (key ∘ Prod.fst) l.zipIdx).map Prod.fst := by rw [List.filterMap_eq_map']
    _ = firsts key (l.zipIdx.map Prod.fst) := (firsts_map key Prod.fst _).symm
    _ = firsts key l := by rw [List.zipIdx_map_fst]

theorem filterMap_range_firsts {keyAt : Nat → κ}
    (h : ∀ i a, l[i]? = some a → keyAt i = key a) :
    (firsts keyAt (List.range l.length)).filterMap (l[·]?) = firsts key l := by
  have hrange : List.range l.length = l.zipIdx.map Prod.snd := by
    rw [List.zipIdx_map_snd, List.range_eq_range']
  have hkeys : ∀ p ∈ l.zipIdx, (keyAt ∘ Prod.snd) p = (key ∘ Prod.fst) p :=
    fun p hp => h p.2 p.1 (List.mem_zipIdx_iff_getElem?.mp hp)
  rw [hrange, firsts_map, List.filterMap_map, firsts_congr_key hkeys]
  exact filterMap_zipIdx_firsts key l

theorem sum_map_firstMarks {M : Type} [AddMonoid M] [DecidableEq M]
    (hkey : Function.Injective key) (f : α → M)
    (hseen : ∀ a ∈ l, key a ∈ seen → f a = 0) (hnodup : (l.filter (fun a => f a ≠ 0)).Nodup) :
    ((firstMarks key seen l).reduceOption.map f).sum = (l.map f).sum := by
  induction l generalizing seen with
  | nil => rfl
  | cons a l ih =>
    rw [List.forall_mem_cons] at hseen
    -- an element that comes again is zero
    have hrest : ∀ b ∈ l, key b ∈ key a :: seen → f b = 0 := by
      intro b hb hmem
      rcases List.mem_cons.mp hmem with heq | hmem
      · by_contra hne
        have hba : b = a := hkey heq
        subst hba
        rw [List.filter_cons_of_pos (by simpa using hne), List.nodup_cons] at hnodup
        exact hnodup.1 (List.mem_filter.mpr ⟨hb, by simpa using hne⟩)
      · exact hseen.2 b hb hmem
    have hsub : (l.filter (fun a => f a ≠ 0)).Nodup :=
      hnodup.sublist ((List.sublist_cons_self a l).filter _)
    rw [firstMarks, List.map_cons, List.sum_cons]
    split_ifs with hmem
    · rw [List.reduceOption_cons_of_none, ih hrest hsub, hseen.1 hmem, zero_add]
    · rw [List.reduceOption_cons_of_some, List.map_cons, List.sum_cons, ih hrest hsub]

theorem sum_map_firsts {M : Type} [AddMonoid M] [DecidableEq M]
    (hkey : Function.Injective key) (f : α → M)
    (hnodup : (l.filter (fun a => f a ≠ 0)).Nodup) :
    ((firsts key l).map f).sum = (l.map f).sum :=
  sum_map_firstMarks hkey f (fun _ _ hmem => absurd hmem List.not_mem_nil) hnodup

/-! ## Loops -/

theorem foldl_insertUnseen (key : α → κ) (seen : List κ) (out l : List α) :
    (l.foldl (insertUnseen key) (seen, out)).2 = out ++ (firstMarks key seen l).reduceOption := by
  induction l generalizing seen out with
  | nil => exact (List.append_nil out).symm
  | cons a l ih =>
    rw [List.foldl_cons, insertUnseen, firstMarks]
    split_ifs with hseen
    · rw [ih, List.reduceOption_cons_of_none, firstMarks_cons_of_mem hseen]
    · rw [ih, List.reduceOption_cons_of_some, List.append_assoc]
      rfl

theorem foldl_insertUnseen_nil (key : α → κ) (l : List α) :
    (l.foldl (insertUnseen key) ([], [])).2 = firsts key l :=
  foldl_insertUnseen key [] [] l

variable {groups : List (κ × List α)}

theorem pushGroup_of_not_mem {k : κ} (h : k ∉ groups.map Prod.fst) (a : α) :
    pushGroup groups k a = groups ++ [(k, [a])] := by
  induction groups with
  | nil => rfl
  | cons g groups ih =>
    obtain ⟨k', group⟩ := g
    rw [List.map_cons, List.mem_cons, not_or] at h
    rw [pushGroup, if_neg (Ne.symm h.1), ih h.2]
    rfl

theorem pushGroup_of_mem {k : κ} (h : k ∈ groups.map Prod.fst) (hne : ∀ g ∈ groups, g.2 ≠ [])
    (a : α) :
    (pushGroup groups k a).map Prod.fst = groups.map Prod.fst ∧
      (pushGroup groups k a).map (fun g => g.2.head?) = groups.map (fun g => g.2.head?) ∧
      ∀ g ∈ pushGroup groups k a, g.2 ≠ [] := by
  induction groups with
  | nil => cases h
  | cons g groups ih =>
    obtain ⟨k', group⟩ := g
    obtain ⟨hgroup, hgroups⟩ := List.forall_mem_cons.mp hne
    rw [pushGroup]
    split_ifs with hk
    · refine ⟨rfl, ?_, List.forall_mem_cons.mpr ⟨List.append_ne_nil_of_left_ne_nil hgroup _, hgroups⟩⟩
      rw [List.map_cons, List.map_cons, List.head?_append_of_ne_nil _ hgroup]
    · have hmem : k ∈ groups.map Prod.fst := (List.mem_cons.mp h).resolve_left (Ne.symm hk)
      obtain ⟨hkeys, hheads, hall⟩ := ih hmem hgroups
      rw [List.map_cons, List.map_cons, List.map_cons, List.map_cons, hkeys, hheads]
      exact ⟨rfl, rfl, List.forall_mem_cons.mpr ⟨hgroup, hall⟩⟩

theorem perm_pushGroup (groups : List (κ × List α)) (k : κ) (a : α) :
    ((pushGroup groups k a).flatMap Prod.snd).Perm (groups.flatMap Prod.snd ++ [a]) := by
  induction groups with
  | nil => exact .rfl
  | cons g groups ih =>
    obtain ⟨k', group⟩ := g
    rw [pushGroup]
    split_ifs
    · rw [List.flatMap_cons, List.flatMap_cons, List.append_assoc, List.append_assoc]
      exact List.perm_append_comm.append_left group
    · rw [List.flatMap_cons, List.flatMap_cons, List.append_assoc]
      exact ih.append_left group

theorem heads_foldl_pushGroup {β : Type} (key : β → κ) (f : β → α) (hne : ∀ g ∈ groups, g.2 ≠ [])
    (l : List β) :
    (l.foldl (fun groups b => pushGroup groups (key b) (f b)) groups).map (fun g => g.2.head?) =
      groups.map (fun g => g.2.head?) ++
        (firstMarks key (groups.map Prod.fst) l).reduceOption.map (fun b => some (f b)) := by
  induction l generalizing groups with
  | nil => exact (List.append_nil _).symm
  | cons b l ih =>
    rw [List.foldl_cons, firstMarks]
    split_ifs with hmem
    · obtain ⟨hkeys, hheads, hall⟩ := pushGroup_of_mem hmem hne (f b)
      rw [ih hall, hkeys, hheads, List.reduceOption_cons_of_none, firstMarks_cons_of_mem hmem]
    · have hall : ∀ g ∈ groups ++ [(key b, [f b])], g.2 ≠ [] := by
        intro g hg
        rcases List.mem_append.mp hg with hg | hg
        · exact hne g hg
        · rw [List.mem_singleton.mp hg]
          exact List.cons_ne_nil _ _
      have hsame : ∀ k, k ∈ (groups ++ [(key b, [f b])]).map Prod.fst ↔
          k ∈ key b :: groups.map Prod.fst := by
        intro k
        simp [or_comm]
      rw [pushGroup_of_not_mem hmem, ih hall, firstMarks_congr_seen key hsame,
        List.reduceOption_cons_of_some, List.map_append, List.append_assoc]
      rfl

/-! ## Rounds with different keys -/

theorem foldl_of_nodup_keys {σ π β : Type} (round : σ → π → σ) (key : π → κ) (look : σ → κ → β)
    (change : π → β → β) (Inv : σ → Prop) (hinv : ∀ s p, Inv s → Inv (round s p))
    (hround : ∀ s p k, Inv s →
      look (round s p) k = if k = key p then change p (look s k) else look s k)
    {rounds : List π} (hnodup : (rounds.map key).Nodup) {s : σ} (hs : Inv s) :
    Inv (rounds.foldl round s) ∧
      (∀ p ∈ rounds, look (rounds.foldl round s) (key p) = change p (look s (key p))) ∧
      ∀ k, k ∉ rounds.map key → look (rounds.foldl round s) k = look s k := by
  induction rounds generalizing s with
  | nil => exact ⟨hs, fun p hp => absurd hp List.not_mem_nil, fun _ _ => rfl⟩
  | cons p rounds ih =>
    rw [List.map_cons, List.nodup_cons] at hnodup
    obtain ⟨hkeep, hin, hout⟩ := ih hnodup.2 (hinv s p hs)
    rw [List.foldl_cons]
    refine ⟨hkeep, ?_, ?_⟩
    · intro q hq
      rcases List.mem_cons.mp hq with rfl | hmem
      · -- no later round has this key
        rw [hout (key q) hnodup.1, hround s q _ hs, if_pos rfl]
      · have hne : key q ≠ key p := by
          intro heq
          exact hnodup.1 (heq ▸ List.mem_map_of_mem hmem)
        rw [hin q hmem, hround s p _ hs, if_neg hne]
    · intro k hk
      rw [List.map_cons, List.mem_cons, not_or] at hk
      rw [hout k hk.2, hround s p k hs, if_neg hk.1]

end Arcxa
