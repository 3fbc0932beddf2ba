import Arcxa.Ha.StateMachine

/-!
# Rebuilding the ring

When the ring is rebuilt, the active shards are put on an empty ring in the order in which a
`HashMap` is walked. `alone` is what a shard takes up when it comes first. If no two shards meet
there, every one of them is put where it would be alone and the order makes no difference
(`addAll_perm`). If two do meet, the one that comes last has the place, so that the order does
make a difference (`apart_of_addAll_perm`).
-/

namespace Arcxa.Ha

open ConsistentHashRing

/-! ## Shards that do not meet -/

def alone (hash : String → UInt64) (s : Nat) : List VirtualNode :=
  placed hash s [] (List.range defaultVirtualNodes)

def Apart (hash : String → UInt64) (ids : List Nat) : Prop :=
  ∀ s ∈ ids, ∀ t ∈ ids, s ≠ t → ∀ v ∈ alone hash s, ∀ w ∈ alone hash t, v.hash ≠ w.hash

theorem Apart.mono {hash : String → UInt64} {ids ids' : List Nat} (h : Apart hash ids)
    (hsub : ids' ⊆ ids) : Apart hash ids' :=
  fun s hs t ht => h s (hsub hs) t (hsub ht)

theorem placed_append_of_not_mem {hash : String → UInt64} {s : Nat} {taken others : List UInt64}
    {is : List Nat} (h : ∀ v ∈ placed hash s taken is, v.hash ∉ others) :
    placed hash s (others ++ taken) is = placed hash s taken is := by
  induction is generalizing taken with
  | nil => rfl
  | cons i is ih =>
    rw [placed, List.forall_mem_cons] at h
    have hposition : position hash s (others ++ taken) i = position hash s taken i := by
      by_cases htaken : hash (vnodeKey s i) ∈ taken
      · rw [position, position, if_pos (List.mem_append_right _ htaken), if_pos htaken]
      · have hfree : hash (vnodeKey s i) ∉ others := by
          have hhead := h.1
          rw [position, if_neg htaken] at hhead
          exact hhead
        rw [position, position, if_neg htaken, if_neg]
        rw [List.mem_append, not_or]
        exact ⟨hfree, htaken⟩
    rw [placed, placed, hposition, ← ih h.2]
    refine congrArg _ (placed_congr (fun x => ?_) is)
    rw [List.mem_cons, List.mem_append, List.mem_append, List.mem_cons]
    exact or_left_comm

theorem get_overlay (nodes : BTreeMap UInt64 VirtualNode) (vnodes : List VirtualNode)
    (x : UInt64) :
    (overlay nodes vnodes).get x = ((overlay .empty vnodes).get x).or (nodes.get x) := by
  induction vnodes using List.reverseRecOn with
  | nil => rfl
  | append_singleton vnodes v ih =>
    rw [get_overlay_concat, get_overlay_concat, ih]
    split_ifs <;> rfl

theorem mem_of_get_overlay {vnodes : List VirtualNode} {x : UInt64} {v : VirtualNode}
    (h : (overlay .empty vnodes).get x = some v) : v ∈ vnodes ∧ v.hash = x := by
  by_cases hx : ∃ w ∈ vnodes, w.hash = x
  · obtain ⟨w, hw, rfl⟩ := hx
    obtain ⟨u, hu, hhash, hget⟩ := @exists_get_overlay .empty _ _ hw
    rw [hget] at h
    rw [← Option.some.inj h]
    exact ⟨hu, hhash⟩
  · rw [get_overlay_of_not_mem fun w hw heq => hx ⟨w, hw, heq⟩] at h
    cases h

/-- Every shard stands where it would be alone. -/
structure Layout (hash : String → UInt64) (ids : List Nat) (ring : ConsistentHashRing) : Prop where
  nodes : ∀ x v, ring.nodes.get x = some v ↔
    ∃ s ∈ ids, (overlay .empty (alone hash s)).get x = some v
  lists : ∀ s, ring.shardNodes.get s = if s ∈ ids then some (alone hash s) else none
  counts : ∀ s, ring.virtualNodeCounts.get s = if s ∈ ids then some defaultVirtualNodes else none

namespace Layout

variable {hash : String → UInt64} {ids : List Nat} {ring ring' : ConsistentHashRing}

theorem new : Layout hash [] ConsistentHashRing.new := by
  refine ⟨fun x v => iff_of_false nofun ?_, fun _ => rfl, fun _ => rfl⟩
  rintro ⟨s, hs, -⟩
  cases hs

theorem ext {ids' : List Nat} (h : Layout hash ids ring) (h' : Layout hash ids' ring')
    (hids : ∀ s, s ∈ ids ↔ s ∈ ids') : ring = ring' := by
  have hnodes : ring.nodes = ring'.nodes := by
    refine BTreeMap.ext_get fun x => Option.ext fun v => ?_
    rw [h.nodes, h'.nodes]
    simp only [hids]
  have hlists : ring.shardNodes = ring'.shardNodes := by
    refine BTreeMap.ext_get fun s => ?_
    rw [h.lists, h'.lists]
    simp only [hids]
  have hcounts : ring.virtualNodeCounts = ring'.virtualNodeCounts := by
    refine BTreeMap.ext_get fun s => ?_
    rw [h.counts, h'.counts]
    simp only [hids]
  cases ring
  cases ring'
  cases hnodes
  cases hlists
  cases hcounts
  rfl

theorem add {s : Nat} (h : Layout hash ids ring) (hs : s ∉ ids) (hapart : Apart hash (ids ++ [s])) :
    Layout hash (ids ++ [s]) (membershipStep hash ring (.add s defaultVirtualNodes)) := by
  have hself : s ∈ ids ++ [s] := List.mem_append_right _ List.mem_cons_self
  have hfree : ∀ v ∈ alone hash s, ring.nodes.get v.hash = none := by
    intro v hv
    cases hnode : ring.nodes.get v.hash with
    | none => rfl
    | some w =>
      obtain ⟨t, ht, hw⟩ := (h.nodes _ _).mp hnode
      obtain ⟨hmem, hhash⟩ := mem_of_get_overlay hw
      have hne : s ≠ t := fun heq => hs (heq ▸ ht)
      exact absurd hhash.symm (hapart s hself t (List.mem_append_left _ ht) hne v hv w hmem)
  have hplaced : placed hash s ring.nodes.keys (List.range defaultVirtualNodes) =
      alone hash s := by
    have hkeys : ∀ v ∈ alone hash s, v.hash ∉ ring.nodes.keys := by
      intro v hv hmem
      obtain ⟨w, hw⟩ := BTreeMap.mem_keys.mp hmem
      rw [hfree v hv] at hw
      cases hw
    have happend := placed_append_of_not_mem hkeys
    rwa [List.append_nil] at happend
  have hnone : ring.shardNodes.get s = none := by rw [h.lists, if_neg hs]
  have hadd : ring.addShard hash s defaultVirtualNodes =
      .ok (membershipStep hash ring (.add s defaultVirtualNodes)) := membershipStep_add hnone
  obtain ⟨-, hring⟩ := addShard_eq_ok.mp hadd
  have hmem : ∀ t, t ∈ ids ++ [s] ↔ t = s ∨ t ∈ ids := by
    intro t
    rw [List.mem_append, List.mem_singleton, or_comm]
  rw [hring, hplaced]
  constructor
  · intro x v
    dsimp only
    rw [get_overlay, Option.or_eq_some_iff, h.nodes]
    constructor
    · rintro (hnew | ⟨-, t, ht, hold⟩)
      · exact ⟨s, hself, hnew⟩
      · exact ⟨t, List.mem_append_left _ ht, hold⟩
    · rintro ⟨t, ht, hv⟩
      rcases (hmem t).mp ht with rfl | ht
      · exact .inl hv
      · refine .inr ⟨?_, t, ht, hv⟩
        cases hnew : (overlay .empty (alone hash s)).get x with
        | none => rfl
        | some w =>
          obtain ⟨hw, rfl⟩ := mem_of_get_overlay hnew
          have hold := (h.nodes _ _).mpr ⟨t, ht, hv⟩
          rw [hfree w hw] at hold
          cases hold
  · intro t
    dsimp only
    rw [BTreeMap.get_insert, h.lists]
    simp only [hmem]
    split_ifs with h1 h2 h3 h4 <;> simp_all
  · intro t
    dsimp only
    rw [BTreeMap.get_insert, h.counts]
    simp only [hmem]
    split_ifs with h1 h2 h3 h4 <;> simp_all

theorem addAll {more : List Nat} (h : Layout hash ids ring) (hnodup : (ids ++ more).Nodup)
    (hapart : Apart hash (ids ++ more)) : Layout hash (ids ++ more) (addAll hash ring more) := by
  induction more generalizing ids ring with
  | nil =>
    rw [List.append_nil]
    exact h
  | cons s more ih =>
    have hsplit : ids ++ s :: more = ids ++ [s] ++ more := List.append_cons ..
    rw [hsplit] at hnodup hapart ⊢
    have hs : s ∉ ids := by
      intro hmem
      have hdisjoint := (List.nodup_append.mp (List.nodup_append.mp hnodup).1).2.2
      exact hdisjoint s hmem s List.mem_cons_self rfl
    exact ih (h.add hs (hapart.mono (List.subset_append_left ..))) hnodup hapart

end Layout

/-! ## The order of the shards -/

section Order

variable {hash : String → UInt64} {ids : List Nat}

theorem layout_addAll (hnodup : ids.Nodup) (hapart : Apart hash ids) :
    Layout hash ids (addAll hash .new ids) :=
  Layout.new.addAll hnodup hapart

/-- **The order makes no difference** to shards that do not meet. -/
theorem addAll_perm {ids' : List Nat} (hperm : ids'.Perm ids) (hnodup : ids.Nodup)
    (hapart : Apart hash ids) : addAll hash .new ids' = addAll hash .new ids := by
  have hapart' : Apart hash ids' := hapart.mono hperm.subset
  exact (layout_addAll (hperm.nodup_iff.mpr hnodup) hapart').ext (layout_addAll hnodup hapart)
    fun s => hperm.mem_iff

theorem get_shardNodes_addAll {ring : ConsistentHashRing} {s : Nat} (hs : s ∉ ids)
    (hnodup : ids.Nodup) (hnew : ∀ t ∈ ids, ring.shardNodes.get t = none) :
    (addAll hash ring ids).shardNodes.get s = ring.shardNodes.get s := by
  induction ids generalizing ring with
  | nil => rfl
  | cons t ids ih =>
    rw [List.mem_cons, not_or] at hs
    rw [List.nodup_cons] at hnodup
    rw [List.forall_mem_cons] at hnew
    have hstep : ∀ u, u ≠ t → (membershipStep hash ring (.add t defaultVirtualNodes)).shardNodes.get
        u = ring.shardNodes.get u := fun u hu => get_shardNodes_step hnew.1 hu
    rw [addAll, List.foldl_cons]
    refine (ih hs.2 hnodup.2 ?_).trans (hstep s hs.1)
    intro u hu
    rw [hstep u (fun heq => hnodup.1 (heq ▸ hu))]
    exact hnew.2 u hu

theorem lists_of_first {s : Nat} (hnodup : (s :: ids).Nodup) :
    (addAll hash .new (s :: ids)).shardNodes.get s = some (alone hash s) := by
  rw [List.nodup_cons] at hnodup
  have hadd : ConsistentHashRing.new.addShard hash s defaultVirtualNodes =
      .ok (membershipStep hash .new (.add s defaultVirtualNodes)) := membershipStep_add rfl
  obtain ⟨-, hring⟩ := addShard_eq_ok.mp hadd
  have hlists : ∀ t, (membershipStep hash .new (.add s defaultVirtualNodes)).shardNodes.get t =
      if t = s then some (alone hash s) else none := by
    intro t
    rw [hring, BTreeMap.get_insert]
    rfl
  rw [addAll, List.foldl_cons]
  refine (get_shardNodes_addAll hnodup.1 hnodup.2 fun t ht => ?_).trans ?_
  · rw [hlists, if_neg]
    rintro rfl
    exact hnodup.1 ht
  · rw [hlists, if_pos rfl]

theorem nodes_of_last {s : Nat} (hnodup : (ids ++ [s]).Nodup) :
    ∃ list, (addAll hash .new (ids ++ [s])).shardNodes.get s = some list ∧
      ∀ v ∈ list, ∃ w, (addAll hash .new (ids ++ [s])).nodes.get v.hash = some w ∧
        w.shardId = s := by
  obtain ⟨hids, -, hdisjoint⟩ := List.nodup_append.mp hnodup
  have hs : s ∉ ids := fun hmem => hdisjoint s hmem s List.mem_cons_self rfl
  have hnone : (addAll hash .new ids).shardNodes.get s = none :=
    get_shardNodes_addAll hs hids fun _ _ => rfl
  have hadd : (addAll hash .new ids).addShard hash s defaultVirtualNodes =
      .ok (membershipStep hash (addAll hash .new ids) (.add s defaultVirtualNodes)) :=
    membershipStep_add hnone
  obtain ⟨-, hring⟩ := addShard_eq_ok.mp hadd
  have hlast : addAll hash .new (ids ++ [s]) =
      membershipStep hash (addAll hash .new ids) (.add s defaultVirtualNodes) :=
    List.foldl_concat ..
  rw [hlast, hring]
  refine ⟨_, by rw [BTreeMap.get_insert, if_pos rfl], fun v hv => ?_⟩
  obtain ⟨w, hw, -, hget⟩ := @exists_get_overlay (addAll hash .new ids).nodes _ _ hv
  exact ⟨w, hget, (of_mem_placed hw).1⟩

/-- **The order makes a difference** to shards that meet. -/
theorem apart_of_addAll_perm {ring : ConsistentHashRing}
    (hfirst : ∀ s ∈ ids, ∃ rest, (s :: rest).Perm ids ∧ addAll hash .new (s :: rest) = ring)
    (hlast : ∀ s ∈ ids, ∃ rest, (rest ++ [s]).Perm ids ∧ addAll hash .new (rest ++ [s]) = ring)
    (hnodup : ids.Nodup) : Apart hash ids := by
  -- in the one ring there is, the places of a shard's list are its own
  have hown : ∀ s ∈ ids, ∀ v ∈ alone hash s, ∃ w, ring.nodes.get v.hash = some w ∧
      w.shardId = s := by
    intro s hs v hv
    obtain ⟨rest, hperm, hring⟩ := hfirst s hs
    have hlist : (addAll hash .new (s :: rest)).shardNodes.get s = some (alone hash s) :=
      lists_of_first (hperm.nodup_iff.mpr hnodup)
    rw [hring] at hlist
    obtain ⟨rest', hperm', hring'⟩ := hlast s hs
    obtain ⟨list, hlist', hnodes⟩ := @nodes_of_last hash _ _ (hperm'.nodup_iff.mpr hnodup)
    rw [hring'] at hlist' hnodes
    rw [hlist] at hlist'
    cases hlist'
    exact hnodes v hv
  intro s hs t ht hne v hv w hw heq
  obtain ⟨u, hu, rfl⟩ := hown s hs v hv
  obtain ⟨u', hu', rfl⟩ := hown t ht w hw
  rw [heq, hu'] at hu
  exact hne (congrArg (·.shardId) (Option.some.inj hu)).symm

end Order

end Arcxa.Ha
