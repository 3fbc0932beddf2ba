import Arcxa.Lib.Text
import Arcxa.Ha.HashRing

/-!
# Routing and replicas

Where the hash tells the keys of the virtual nodes in use apart, no virtual node is ever put in
the place of another one, and the ring is determined by the shards in it and the numbers of their
virtual nodes (`Canonical`). Two such rings that differ in one shard send a hash to the same shard
or to that one (`Canonical.findShard_of_others`).

`findShardsWithReplicas` checks for the end after it has pushed a shard, so that zero replicas are
one replica. Asking for more than `maxReplicas` ends the process: the vector for as many ids is
allocated first, also where the ring has few shards.
-/

namespace Arcxa.Ha

open ConsistentHashRing
open BTreeMap

/-! ## Keys -/

theorem toList_vnodeKey (shardId i : Nat) : (vnodeKey shardId i).toList =
    "shard-".toList ++ (Nat.toDigits 10 shardId ++ '-' ::
      ("vnode-".toList ++ Nat.toDigits 10 i)) := by
  simp [vnodeKey, toString]

theorem vnodeKey_inj {s t i j : Nat} (h : vnodeKey s i = vnodeKey t j) : s = t ∧ i = j := by
  have hlist := congrArg String.toList h
  rw [toList_vnodeKey, toList_vnodeKey] at hlist
  -- the digits of a number have no dash
  have hsplit := congrArg (splitOnce '-') (List.append_cancel_left hlist)
  rw [splitOnce_append (not_mem_toDigits (by decide)),
    splitOnce_append (not_mem_toDigits (by decide))] at hsplit
  obtain ⟨hs, hi⟩ := Prod.mk.inj (Option.some.inj hsplit)
  exact ⟨toDigits_inj hs, toDigits_inj (List.append_cancel_left hi)⟩

/-! ## Shards and their numbers of virtual nodes -/

def countsStep (counts : BTreeMap Nat Nat) : MembershipOp → BTreeMap Nat Nat
  | .add shardId virtualNodes =>
    if (counts.get shardId).isSome then counts else counts.insert shardId virtualNodes
  | .remove shardId => counts.remove shardId

def countsOf (ops : List MembershipOp) : BTreeMap Nat Nat := ops.foldl countsStep .empty

def ringOf (hash : String → UInt64) (ops : List MembershipOp) : ConsistentHashRing :=
  ops.foldl (membershipStep hash) new

def keysInUse (counts : BTreeMap Nat Nat) : Set String :=
  {key | ∃ s n i, counts.get s = some n ∧ i < n ∧ key = vnodeKey s i}

/-- At no time do two virtual nodes in use have keys with the same hash. -/
def Separates (hash : String → UInt64) (ops : List MembershipOp) : Prop :=
  ∀ pre, pre <+: ops → Set.InjOn hash (keysInUse (countsOf pre))

def shardsWithNodes (counts : BTreeMap Nat Nat) : List Nat :=
  (counts.entries.filter (fun p => 0 < p.2)).map (·.1)

theorem mem_shardsWithNodes {counts : BTreeMap Nat Nat} {s : Nat} :
    s ∈ shardsWithNodes counts ↔ ∃ n, counts.get s = some n ∧ 0 < n := by
  simp [shardsWithNodes, mem_entries_iff]

theorem nodup_shardsWithNodes (counts : BTreeMap Nat Nat) : (shardsWithNodes counts).Nodup :=
  (BTreeMap.nodup_keys counts).sublist (List.filter_sublist.map _)

/-! ## The ring of a set of shards -/

def vnodeAt (hash : String → UInt64) (s i : Nat) : VirtualNode := ⟨hash (vnodeKey s i), s, i⟩

/-- Every virtual node stands at the hash of its own key. -/
structure Canonical (hash : String → UInt64) (counts : BTreeMap Nat Nat)
    (ring : ConsistentHashRing) : Prop where
  counts_eq : ring.virtualNodeCounts = counts
  lists : ∀ s, ring.shardNodes.get s =
    (counts.get s).map (fun n => (List.range n).map (vnodeAt hash s))
  nodes : ∀ h v, ring.nodes.get h = some v ↔
    ∃ s n i, counts.get s = some n ∧ i < n ∧ v = vnodeAt hash s i ∧ h = v.hash

variable {hash : String → UInt64}

theorem placed_eq_map {s : Nat} {taken : List UInt64} {is : List Nat}
    (hfree : ∀ i ∈ is, hash (vnodeKey s i) ∉ taken)
    (hnodup : (is.map (fun i => hash (vnodeKey s i))).Nodup) :
    placed hash s taken is = is.map (vnodeAt hash s) := by
  induction is generalizing taken with
  | nil => rfl
  | cons i is ih =>
    rw [List.forall_mem_cons] at hfree
    rw [List.map_cons, List.nodup_cons] at hnodup
    have hposition : position hash s taken i = hash (vnodeKey s i) := if_neg hfree.1
    rw [placed, hposition, List.map_cons, ih _ hnodup.2]
    · rfl
    · intro j hj hmem
      rcases List.mem_cons.mp hmem with heq | htaken
      · exact hnodup.1 (List.mem_map.mpr ⟨j, hj, heq⟩)
      · exact hfree.2 j hj htaken

namespace Canonical

variable {hash : String → UInt64} {counts counts' : BTreeMap Nat Nat}
  {ring ring' : ConsistentHashRing}

theorem new : Canonical hash .empty ConsistentHashRing.new := by
  refine ⟨rfl, fun _ => rfl, fun h v => iff_of_false nofun ?_⟩
  rintro ⟨s, n, i, hn, -⟩
  cases hn

variable (h : Canonical hash counts ring)

include h

theorem get_shardNodes_eq_none {s : Nat} : ring.shardNodes.get s = none ↔ counts.get s = none := by
  rw [h.lists, Option.map_eq_none_iff]

theorem hash_not_mem (hcounts : ∀ s n, counts.get s = some n → counts'.get s = some n)
    (hinj : Set.InjOn hash (keysInUse counts')) {s n i : Nat} (hs : counts.get s = none)
    (hn : counts'.get s = some n) (hi : i < n) : hash (vnodeKey s i) ∉ ring.nodes.keys := by
  intro hmem
  obtain ⟨v, hv⟩ := mem_keys.mp hmem
  obtain ⟨t, m, j, hm, hj, rfl, heq⟩ := (h.nodes _ _).mp hv
  have hkey := hinj ⟨s, n, i, hn, hi, rfl⟩ ⟨t, m, j, hcounts t m hm, hj, rfl⟩ heq
  obtain ⟨rfl, -⟩ := vnodeKey_inj hkey
  rw [hs] at hm
  cases hm

theorem addShard {s n : Nat} (hs : counts.get s = none)
    (hinj : Set.InjOn hash (keysInUse (counts.insert s n)))
    (hadd : ring.addShard hash s n = .ok ring') : Canonical hash (counts.insert s n) ring' := by
  obtain ⟨-, rfl⟩ := addShard_eq_ok.mp hadd
  have hkept : ∀ t m, counts.get t = some m → (counts.insert s n).get t = some m := by
    intro t m hm
    rw [get_insert, if_neg, hm]
    rintro rfl
    rw [hs] at hm
    cases hm
  have hself : (counts.insert s n).get s = some n := by rw [get_insert, if_pos rfl]
  have hnodup : ((List.range n).map (fun i => hash (vnodeKey s i))).Nodup := by
    refine List.nodup_range.map_on fun i hi j hj heq => ?_
    exact (vnodeKey_inj (hinj ⟨s, n, i, hself, List.mem_range.mp hi, rfl⟩
      ⟨s, n, j, hself, List.mem_range.mp hj, rfl⟩ heq)).2
  have hplaced : placed hash s ring.nodes.keys (List.range n) =
      (List.range n).map (vnodeAt hash s) :=
    placed_eq_map (fun i hi => h.hash_not_mem hkept hinj hs hself (List.mem_range.mp hi)) hnodup
  rw [hplaced]
  constructor
  · exact congrArg (·.insert s n) h.counts_eq
  · intro t
    dsimp only
    rw [get_insert, get_insert]
    split_ifs with ht
    · rw [ht]
      rfl
    · exact h.lists t
  · intro x v
    dsimp only
    by_cases hx : ∃ w ∈ (List.range n).map (vnodeAt hash s), w.hash = x
    · obtain ⟨w, hw, rfl⟩ := hx
      rw [get_overlay_of_nodup (by rw [List.map_map]; exact hnodup) hw]
      obtain ⟨i, hi, rfl⟩ := List.mem_map.mp hw
      constructor
      · intro hv
        cases hv
        exact ⟨s, n, i, hself, List.mem_range.mp hi, rfl, rfl⟩
      · rintro ⟨t, m, j, hm, hj, rfl, heq⟩
        obtain ⟨rfl, rfl⟩ := vnodeKey_inj
          (hinj ⟨s, n, i, hself, List.mem_range.mp hi, rfl⟩ ⟨t, m, j, hm, hj, rfl⟩ heq)
        rfl
    · rw [get_overlay_of_not_mem (fun w hw heq => hx ⟨w, hw, heq⟩), h.nodes]
      constructor
      · rintro ⟨t, m, j, hm, rest⟩
        exact ⟨t, m, j, hkept t m hm, rest⟩
      · rintro ⟨t, m, j, hm, hj, rfl, rfl⟩
        rw [get_insert] at hm
        split_ifs at hm with ht
        · cases hm
          exact absurd ⟨vnodeAt hash t j,
            List.mem_map.mpr ⟨j, List.mem_range.mpr hj, by rw [ht]⟩, rfl⟩ hx
        · exact ⟨t, m, j, hm, hj, rfl, rfl⟩

theorem removeShard {s : Nat} (hinj : Set.InjOn hash (keysInUse counts))
    {removed : List VirtualNode} (hremove : ring.removeShard s = .ok (ring', removed)) :
    Canonical hash (counts.remove s) ring' := by
  obtain ⟨hlist, rfl⟩ := removeShard_eq_ok.mp hremove
  rw [h.lists, Option.map_eq_some_iff] at hlist
  obtain ⟨n, hn, rfl⟩ := hlist
  constructor
  · exact congrArg (·.remove s) h.counts_eq
  · intro t
    dsimp only
    rw [get_remove, get_remove]
    split_ifs with ht
    · rfl
    · exact h.lists t
  · intro x v
    dsimp only
    rw [get_foldl_remove]
    have hleft : (∃ t m j, (counts.remove s).get t = some m ∧ j < m ∧ v = vnodeAt hash t j ∧
        x = v.hash) ↔ ∃ t m j, (counts.get t = some m ∧ j < m ∧ v = vnodeAt hash t j ∧
        x = v.hash) ∧ t ≠ s := by
      constructor
      · rintro ⟨t, m, j, hm, rest⟩
        rw [get_remove] at hm
        split_ifs at hm with ht
        exact ⟨t, m, j, ⟨hm, rest⟩, ht⟩
      · rintro ⟨t, m, j, ⟨hm, rest⟩, ht⟩
        exact ⟨t, m, j, by rw [get_remove, if_neg ht, hm], rest⟩
    rw [hleft]
    split_ifs with hmem
    · refine iff_of_false nofun ?_
      rintro ⟨t, m, j, ⟨hm, hj, rfl, rfl⟩, ht⟩
      obtain ⟨w, hw, heq⟩ := List.mem_map.mp hmem
      obtain ⟨i, hi, rfl⟩ := List.mem_map.mp hw
      exact ht (vnodeKey_inj (hinj ⟨s, n, i, hn, List.mem_range.mp hi, rfl⟩
        ⟨t, m, j, hm, hj, rfl⟩ heq)).1.symm
    · rw [h.nodes]
      refine ⟨?_, fun ⟨t, m, j, hin, _⟩ => ⟨t, m, j, hin⟩⟩
      rintro ⟨t, m, j, hm, hj, rfl, rfl⟩
      refine ⟨t, m, j, ⟨hm, hj, rfl, rfl⟩, ?_⟩
      rintro rfl
      rw [hn] at hm
      cases hm
      exact hmem (List.mem_map.mpr
        ⟨_, List.mem_map.mpr ⟨j, List.mem_range.mpr hj, rfl⟩, rfl⟩)

omit h

theorem step (h : Canonical hash counts ring) (op : MembershipOp)
    (hinj : Set.InjOn hash (keysInUse counts))
    (hinj' : Set.InjOn hash (keysInUse (countsStep counts op))) :
    Canonical hash (countsStep counts op) (membershipStep hash ring op) := by
  cases op with
  | add s n =>
    simp only [countsStep] at hinj' ⊢
    split_ifs at hinj' ⊢ with hs
    · cases hadd : ring.addShard hash s n with
      | ok ring' =>
        rw [h.get_shardNodes_eq_none.mp (addShard_eq_ok.mp hadd).1] at hs
        cases hs
      | error e =>
        simp only [membershipStep, hadd]
        exact h
    · rw [Bool.not_eq_true, Option.isSome_eq_false_iff, Option.isNone_iff_eq_none] at hs
      cases hadd : ring.addShard hash s n with
      | ok ring' =>
        simp only [membershipStep, hadd]
        exact h.addShard hs hinj' hadd
      | error e =>
        rw [addShard_eq_ok.mpr ⟨h.get_shardNodes_eq_none.mpr hs, rfl⟩] at hadd
        cases hadd
  | remove s =>
    cases hremove : ring.removeShard s with
    | ok result =>
      simp only [membershipStep, hremove]
      exact h.removeShard hinj hremove
    | error e =>
      simp only [membershipStep, hremove]
      have hnone : ring.shardNodes.get s = none := by
        cases hlist : ring.shardNodes.get s with
        | none => rfl
        | some vnodes =>
          rw [removeShard_eq_ok.mpr ⟨hlist, rfl⟩] at hremove
          cases hremove
      have hsame : counts.remove s = counts := by
        apply ext_get
        intro t
        rw [get_remove]
        split_ifs with ht
        · rw [ht, h.get_shardNodes_eq_none.mp hnone]
        · rfl
      rw [countsStep, hsame]
      exact h

theorem findShard_of_others (h : Canonical hash counts ring) (h' : Canonical hash counts' ring')
    {s : Nat} (hothers : ∀ t, t ≠ s → counts'.get t = counts.get t)
    (hs : ∀ n, counts.get s = some n → counts'.get s = some n) (x : UInt64) :
    ring'.findShard x = ring.findShard x ∨ ring'.findShard x = some s := by
  have hcounts : ∀ t n, counts.get t = some n → counts'.get t = some n := by
    intro t n hn
    by_cases ht : t = s
    · rw [ht] at hn ⊢
      exact hs n hn
    · rw [hothers t ht, hn]
  have hsub : ∀ b w, ring.nodes.get b = some w → ring'.nodes.get b = some w := by
    intro b w hb
    obtain ⟨t, n, i, hn, rest⟩ := (h.nodes b w).mp hb
    exact (h'.nodes b w).mpr ⟨t, n, i, hcounts t n hn, rest⟩
  unfold findShard
  cases hsucc : ring'.nodes.successor x with
  | none =>
    -- the smaller ring is empty too
    left
    cases hsucc' : ring.nodes.successor x with
    | none => rfl
    | some p =>
      have hp := mem_entries_iff.mpr (hsub p.1 p.2 (successor_spec hsucc').1)
      rw [successor_eq_none.mp hsucc] at hp
      cases hp
  | some p =>
    obtain ⟨t, n, i, hn, hi, hv, hx⟩ :=
      (h'.nodes p.1 p.2).mp (successor_spec hsucc).1
    by_cases ht : t = s
    · right
      rw [Option.map_some, hv, ← ht]
      rfl
    · left
      have hold : ring.nodes.get p.1 = some p.2 :=
        (h.nodes p.1 p.2).mpr ⟨t, n, i, by rw [← hothers t ht, hn], hi, hv, hx⟩
      rw [successor_of_subset hsub hsucc hold]

theorem mem_shards (h : Canonical hash counts ring) {s : Nat} :
    s ∈ ring.nodes.entries.map (fun p => p.2.shardId) ↔ s ∈ shardsWithNodes counts := by
  rw [mem_shardsWithNodes, List.mem_map]
  constructor
  · rintro ⟨⟨x, v⟩, hp, rfl⟩
    obtain ⟨t, n, i, hn, hi, rfl, -⟩ := (h.nodes x v).mp (mem_entries_iff.mp hp)
    exact ⟨n, hn, Nat.zero_lt_of_lt hi⟩
  · rintro ⟨n, hn, hpos⟩
    have hnode := (h.nodes _ (vnodeAt hash s 0)).mpr ⟨s, n, 0, hn, hpos, rfl, rfl⟩
    exact ⟨_, mem_entries_iff.mpr hnode, rfl⟩

end Canonical

theorem canonical_ringOf {ops : List MembershipOp} (h : Separates hash ops) :
    Canonical hash (countsOf ops) (ringOf hash ops) := by
  induction ops using List.reverseRecOn with
  | nil => exact Canonical.new
  | append_singleton ops op ih =>
    have hcounts : countsOf (ops ++ [op]) = countsStep (countsOf ops) op := List.foldl_concat ..
    have hring : ringOf hash (ops ++ [op]) = membershipStep hash (ringOf hash ops) op :=
      List.foldl_concat ..
    have hpre : Separates hash ops := fun pre hpre => h pre (hpre.trans (List.prefix_append ..))
    rw [hcounts, hring]
    exact (ih hpre).step op (hpre ops List.prefix_rfl) (hcounts ▸ h _ List.prefix_rfl)

/-! ## Replicas -/

/-- The largest capacity of a vector of shard ids, where the allocator gives memory for `limit` of
them: four bytes each, `isize::MAX` bytes in all. -/
def maxReplicas (limit : Nat) : Nat := min ((2 ^ 63 - 1) / 4) limit

/-- `find_shards_with_replicas`; `none` is the end of the process in `Vec::with_capacity`, by a panic
or because the allocator refuses. -/
def ConsistentHashRing.findShardsWithReplicas (limit : Nat) (ring : ConsistentHashRing)
    (hash : UInt64) (replicaCount : Nat) : Option (List Nat) :=
  if ring.nodes.entries.isEmpty then
    some []
  else if replicaCount ≤ maxReplicas limit then
    some (takeFirsts replicaCount [] ((ring.nodes.clockwise hash).map (fun p => p.2.shardId)))
  else
    none

/-- As many different shards with virtual nodes as are asked for and there are, beginning with the
one that the hash belongs to. -/
def ReplicasOf (limit : Nat) (counts : BTreeMap Nat Nat) (ring : ConsistentHashRing) (hash : UInt64)
    (replicaCount : Nat) : Prop :=
  ∃ shards, ring.findShardsWithReplicas limit hash replicaCount = some shards ∧
    shards.Nodup ∧ (∀ s ∈ shards, s ∈ shardsWithNodes counts) ∧
    shards.length = min replicaCount (shardsWithNodes counts).length ∧
    (1 ≤ replicaCount → shards.head? = ring.findShard hash)

theorem Canonical.replicasOf_iff {counts : BTreeMap Nat Nat} {ring : ConsistentHashRing}
    (h : Canonical hash counts ring) (limit : Nat) (x : UInt64) (n : Nat) :
    ReplicasOf limit counts ring x n ↔
      shardsWithNodes counts = [] ∨ 1 ≤ n ∧ n ≤ maxReplicas limit := by
  unfold ReplicasOf findShardsWithReplicas
  by_cases hempty : ring.nodes.entries = []
  · have hnone : shardsWithNodes counts = [] := by
      refine List.eq_nil_iff_forall_not_mem.mpr fun s hs => ?_
      have hmem := h.mem_shards.mpr hs
      rw [hempty] at hmem
      cases hmem
    refine iff_of_true ⟨[], ?_, List.nodup_nil, fun s hs => absurd hs List.not_mem_nil, ?_, ?_⟩
      (.inl hnone)
    · rw [hempty]
      rfl
    · rw [hnone, List.length_nil, Nat.min_zero]
    · intro _
      rw [findShard, successor_eq_none.mpr hempty]
      rfl
  · have hsome : shardsWithNodes counts ≠ [] := by
      intro hnone
      obtain ⟨p, rest, hp⟩ := List.exists_cons_of_ne_nil hempty
      have hmem : p.2.shardId ∈ shardsWithNodes counts := by
        rw [← h.mem_shards, hp]
        exact List.mem_cons_self
      rw [hnone] at hmem
      cases hmem
    rw [if_neg (by simpa using hempty), or_iff_right hsome]
    -- the walk meets every shard with virtual nodes
    generalize hwalk : (ring.nodes.clockwise x).map (fun p => p.2.shardId) = walk
    have hmem : ∀ s, s ∈ firsts id walk ↔ s ∈ shardsWithNodes counts := by
      intro s
      rw [mem_firsts_id, ← hwalk, ← h.mem_shards, List.mem_map, List.mem_map]
      simp only [mem_clockwise]
    have hnodup : (firsts id walk).Nodup := by
      simpa using nodup_firsts id walk
    have hlength : (firsts id walk).length = (shardsWithNodes counts).length :=
      ((List.perm_ext_iff_of_nodup hnodup (nodup_shardsWithNodes counts)).mpr hmem).length_eq
    have hpos : 0 < (shardsWithNodes counts).length := List.length_pos_iff.mpr hsome
    have hhead : (firsts id walk).head? = ring.findShard x := by
      rw [head?_firsts, ← hwalk, List.head?_map, head?_clockwise]
      rfl
    rw [takeFirsts_nil]
    split_ifs with hcap
    · constructor
      · rintro ⟨shards, heq, -, -, hlen, -⟩
        cases heq
        rw [List.length_take, hlength] at hlen
        exact ⟨by omega, hcap⟩
      · rintro ⟨hn, -⟩
        refine ⟨_, rfl, hnodup.sublist (List.take_sublist ..), ?_, ?_, ?_⟩
        · exact fun s hs => (hmem s).mp (List.mem_of_mem_take hs)
        · rw [List.length_take, hlength, max_eq_left hn]
        · intro _
          rw [List.head?_take, if_neg (by omega), hhead]
    · refine iff_of_false ?_ fun hn => hcap hn.2
      rintro ⟨shards, heq, -⟩
      cases heq

/-! ## Consistent hashing -/

/-- What consistent hashing promises for one hash and one number of replicas, after and along a
sequence of operations. -/
structure RoutesWell (limit : Nat) (hash : String → UInt64) (ops : List MembershipOp) (x : UInt64)
    (n : Nat) : Prop where
  /-- After a shard was added, the hash goes to where it went or to that shard. -/
  add : ∀ pre s k, pre ++ [.add s k] <+: ops →
    (ringOf hash (pre ++ [.add s k])).findShard x = (ringOf hash pre).findShard x ∨
      (ringOf hash (pre ++ [.add s k])).findShard x = some s
  /-- After a shard was removed, the hash goes to where it went, unless that was this shard. -/
  remove : ∀ pre s, pre ++ [.remove s] <+: ops →
    (ringOf hash pre).findShard x ≠ some s →
      (ringOf hash (pre ++ [.remove s])).findShard x = (ringOf hash pre).findShard x
  /-- Other operations that lead to the same shards lead the hash to the same shard. -/
  order : ∀ ops', Separates hash ops' → countsOf ops' = countsOf ops →
    (ringOf hash ops').findShard x = (ringOf hash ops).findShard x
  replicas : ReplicasOf limit (countsOf ops) (ringOf hash ops) x n

/-- **Consistent hashing moves only what it must**, and the replicas are right, exactly when there
are no virtual nodes or at least one replica is asked for and no more than can be allocated. -/
theorem routesWell_iff (limit : Nat) (hash : String → UInt64) (ops : List MembershipOp)
    (hinj : Separates hash ops) (x : UInt64) (n : Nat) :
    RoutesWell limit hash ops x n ↔
      shardsWithNodes (countsOf ops) = [] ∨ 1 ≤ n ∧ n ≤ maxReplicas limit := by
  rw [← (canonical_ringOf hinj).replicasOf_iff limit x n]
  have hcanonical : ∀ pre, pre <+: ops → Canonical hash (countsOf pre) (ringOf hash pre) :=
    fun pre hpre => canonical_ringOf fun pre' hpre' => hinj pre' (hpre'.trans hpre)
  refine ⟨RoutesWell.replicas, fun hreplicas => ⟨?_, ?_, ?_, hreplicas⟩⟩
  · intro pre s k hpre
    have hcounts : countsOf (pre ++ [.add s k]) = countsStep (countsOf pre) (.add s k) :=
      List.foldl_concat ..
    refine (hcanonical pre ((List.prefix_append ..).trans hpre)).findShard_of_others
      (hcanonical _ hpre) ?_ ?_ x
    · intro t ht
      rw [hcounts, countsStep]
      split_ifs
      · rfl
      · rw [get_insert, if_neg ht]
    · intro m hm
      rw [hcounts, countsStep, hm]
      exact hm
  · intro pre s hpre hne
    have hcounts : countsOf (pre ++ [.remove s]) = (countsOf pre).remove s := List.foldl_concat ..
    have hcases := (hcanonical _ hpre).findShard_of_others
      (hcanonical pre ((List.prefix_append ..).trans hpre)) (s := s) ?_ ?_ x
    · exact (hcases.resolve_right hne).symm
    · intro t ht
      rw [hcounts, get_remove, if_neg ht]
    · intro m hm
      rw [hcounts, get_remove, if_pos rfl] at hm
      cases hm
  · intro ops' hinj' hcounts
    have hnodes : (ringOf hash ops').nodes = (ringOf hash ops).nodes := by
      apply ext_get
      intro y
      apply Option.ext
      intro v
      rw [(canonical_ringOf hinj').nodes, (canonical_ringOf hinj).nodes, hcounts]
    rw [findShard, findShard, hnodes]

def twoPlaces (key : String) : UInt64 := if key = vnodeKey 1 0 then 10 else 20

theorem separates_twoPlaces : Separates twoPlaces [.add 1 1, .add 2 1, .remove 1] := by
  have hinj : Set.InjOn twoPlaces {vnodeKey 1 0, vnodeKey 2 0} := by
    rintro a (rfl | rfl) b (rfl | rfl) heq
    · rfl
    · exact absurd heq (by decide)
    · exact absurd heq (by decide)
    · rfl
  intro pre hpre
  refine hinj.mono ?_
  rintro key ⟨s, n, i, hn, hi, rfl⟩
  have hcounts : ∀ q, q <+: [.add 1 1, .add 2 1, .remove 1] →
      ∀ p ∈ (countsOf q).entries, (p.1 = 1 ∨ p.1 = 2) ∧ p.2 = 1 := by
    intro q hq
    rw [← List.mem_inits] at hq
    revert q
    decide
  obtain ⟨hs, rfl⟩ := hcounts pre hpre _ (mem_entries_iff.mpr hn)
  obtain rfl := Nat.lt_one_iff.mp hi
  rcases hs with rfl | rfl
  · exact .inl rfl
  · exact .inr rfl

theorem routesWell_iff_sample :
    RoutesWell 1000 twoPlaces [.add 1 1, .add 2 1, .remove 1] 15 2 ∧
      ¬ RoutesWell 1000 twoPlaces [.add 1 1, .add 2 1, .remove 1] 15 (10 ^ 11) :=
  ⟨(routesWell_iff 1000 twoPlaces _ separates_twoPlaces 15 2).mpr (.inr (by decide)),
    fun h => absurd ((routesWell_iff 1000 twoPlaces _ separates_twoPlaces 15 _).mp h) (by decide)⟩

/-- Where no replica is asked for there is one. -/
theorem zero_replicas : ¬ ∀ (hash : String → UInt64) (ops : List MembershipOp),
    Separates hash ops → ∀ (x : UInt64) (n : Nat), RoutesWell 1000 hash ops x n := by
  intro h
  obtain ⟨shards, heq, -, -, hlen, -⟩ := (h twoPlaces _ separates_twoPlaces 0 0).replicas
  have hone : (ringOf twoPlaces [.add 1 1, .add 2 1, .remove 1]).findShardsWithReplicas 1000 0 0 =
      some [2] := by decide
  rw [hone] at heq
  cases heq
  cases hlen

end Arcxa.Ha
