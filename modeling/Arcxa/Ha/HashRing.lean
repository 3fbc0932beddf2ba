import Arcxa.Lib.Clockwise
import Arcxa.Lib.Transition

/-!
# The consistent hash ring

Each shard has virtual nodes on a ring of hashes, and a hash belongs to the shard of the first
virtual node clockwise from it. The ring keeps its virtual nodes twice: in order of their hashes
(`nodes`) and by shard (`shardNodes`). A hash function is a parameter.

A virtual node whose place is taken tries one other key, and is put where that leads whether or
not that place is taken as well. The node that stood there then stays in the list of its shard and
is on the ring no more. The two views agree in every state of a sequence of operations if and only
if that never happens (`views_agree_iff`).
-/

namespace Arcxa.Ha

open BTreeMap

instance linearOrderUInt64 : LinearOrder UInt64 where
  le_refl := UInt64.le_refl
  le_trans _ _ _ := UInt64.le_trans
  le_antisymm _ _ := UInt64.le_antisymm
  le_total := UInt64.le_total
  lt_iff_le_not_ge a b := by
    rw [UInt64.not_le]
    exact ⟨fun h => ⟨UInt64.le_of_lt h, h⟩, And.right⟩
  toDecidableLE := inferInstance
  toDecidableEq := inferInstance
  toDecidableLT := inferInstance

structure VirtualNode where
  hash : UInt64
  shardId : Nat
  vnodeIndex : Nat
  deriving DecidableEq

structure ConsistentHashRing where
  nodes : BTreeMap UInt64 VirtualNode
  shardNodes : BTreeMap Nat (List VirtualNode)
  virtualNodeCounts : BTreeMap Nat Nat

def vnodeKey (shardId i : Nat) : String := s!"shard-{shardId}-vnode-{i}"

def retryKey (shardId i : Nat) : String := s!"shard-{shardId}-vnode-{i}-retry"

namespace ConsistentHashRing

def new : ConsistentHashRing := ⟨.empty, .empty, .empty⟩

/-! ## Operations -/

section Add

variable (hash : String → UInt64)

def addVnode (shardId : Nat) (state : BTreeMap UInt64 VirtualNode × List VirtualNode) (i : Nat) :
    BTreeMap UInt64 VirtualNode × List VirtualNode :=
  let vnode : VirtualNode := ⟨hash (vnodeKey shardId i), shardId, i⟩
  if (state.1.get vnode.hash).isSome then
    -- collision: a different key, and no further check
    let vnode : VirtualNode := ⟨hash (retryKey shardId i), shardId, i⟩
    (state.1.insert vnode.hash vnode, state.2 ++ [vnode])
  else
    (state.1.insert vnode.hash vnode, state.2 ++ [vnode])

def addShard (ring : ConsistentHashRing) (shardId virtualNodes : Nat) :
    Except String ConsistentHashRing :=
  if (ring.shardNodes.get shardId).isSome then
    .error s!"Shard shard-{shardId} already exists in ring"
  else
    let (nodes, vnodes) := (List.range virtualNodes).foldl (addVnode hash shardId) (ring.nodes, [])
    .ok {
      nodes
      shardNodes := ring.shardNodes.insert shardId vnodes
      virtualNodeCounts := ring.virtualNodeCounts.insert shardId virtualNodes }

end Add

def removeShard (ring : ConsistentHashRing) (shardId : Nat) :
    Except String (ConsistentHashRing × List VirtualNode) :=
  match ring.shardNodes.get shardId with
  | none => .error s!"Shard shard-{shardId} not found in ring"
  | some vnodes =>
    .ok ({
      nodes := vnodes.foldl (fun nodes vnode => nodes.remove vnode.hash) ring.nodes
      shardNodes := ring.shardNodes.remove shardId
      virtualNodeCounts := ring.virtualNodeCounts.remove shardId }, vnodes)

def findShard (ring : ConsistentHashRing) (hash : UInt64) : Option Nat :=
  (ring.nodes.successor hash).map (fun p => p.2.shardId)

def reassignVirtualNode (ring : ConsistentHashRing) (vnodeHash : UInt64) (newShard : Nat) :
    Except String ConsistentHashRing :=
  match ring.nodes.get vnodeHash with
  | none => .error s!"Virtual node with hash {vnodeHash} not found"
  | some vnode =>
    let moved := { vnode with shardId := newShard }
    let shardNodes :=
      match ring.shardNodes.get vnode.shardId with
      | none => ring.shardNodes
      | some old => ring.shardNodes.insert vnode.shardId (old.filter (fun v => v.hash ≠ vnodeHash))
    .ok { ring with
      nodes := ring.nodes.insert vnodeHash moved
      shardNodes := shardNodes.upsert newShard (fun vnodes => vnodes.getD [] ++ [moved]) }

/-- `get_shard_vnodes`, with nothing for a shard that is not there. -/
def vnodesOf (ring : ConsistentHashRing) (shardId : Nat) : List VirtualNode :=
  (ring.shardNodes.get shardId).getD []

end ConsistentHashRing

/-! ## Sequences of operations -/

/-- The changes of the set of shards. -/
inductive MembershipOp where
  | add (shardId virtualNodes : Nat)
  | remove (shardId : Nat)
  deriving DecidableEq

inductive RingOp where
  | membership (op : MembershipOp)
  | reassign (vnodeHash : UInt64) (newShard : Nat)
  deriving DecidableEq

open ConsistentHashRing

section Build

variable (hash : String → UInt64)

def membershipStep (ring : ConsistentHashRing) : MembershipOp → ConsistentHashRing
  | .add shardId virtualNodes =>
    match ring.addShard hash shardId virtualNodes with
    | .ok ring' => ring'
    | .error _ => ring
  | .remove shardId =>
    match ring.removeShard shardId with
    | .ok (ring', _) => ring'
    | .error _ => ring

def ringStep (ring : ConsistentHashRing) : RingOp → ConsistentHashRing
  | .membership op => membershipStep hash ring op
  | .reassign vnodeHash newShard =>
    match ring.reassignVirtualNode vnodeHash newShard with
    | .ok ring' => ring'
    | .error _ => ring

def build (ops : List RingOp) : ConsistentHashRing := ops.foldl (ringStep hash) new

end Build

/-! ## Where virtual nodes are put -/

section Placement

variable (hash : String → UInt64) (shardId : Nat)

def position (taken : List UInt64) (i : Nat) : UInt64 :=
  if hash (vnodeKey shardId i) ∈ taken then hash (retryKey shardId i)
  else hash (vnodeKey shardId i)

def placed : List UInt64 → List Nat → List VirtualNode
  | _, [] => []
  | taken, i :: is =>
    ⟨position hash shardId taken i, shardId, i⟩ ::
      placed (position hash shardId taken i :: taken) is

/-- Whenever the place of a virtual node is taken, the place of its retry is free. -/
def RetriesFree : List UInt64 → List Nat → Prop
  | _, [] => True
  | taken, i :: is =>
    (hash (vnodeKey shardId i) ∈ taken → hash (retryKey shardId i) ∉ taken) ∧
      RetriesFree (position hash shardId taken i :: taken) is

variable {hash shardId}

theorem placed_congr {taken taken' : List UInt64} (h : ∀ x, x ∈ taken ↔ x ∈ taken')
    (is : List Nat) :
    placed hash shardId taken is = placed hash shardId taken' is := by
  induction is generalizing taken taken' with
  | nil => rfl
  | cons i is ih =>
    have hposition : position hash shardId taken i = position hash shardId taken' i := by
      unfold position
      simp only [h]
    rw [placed, placed, hposition]
    refine congrArg _ (ih fun x => ?_)
    rw [List.mem_cons, List.mem_cons, h]

variable {taken : List UInt64}

theorem of_mem_placed {is : List Nat} {v : VirtualNode} (h : v ∈ placed hash shardId taken is) :
    v.shardId = shardId ∧ v.vnodeIndex ∈ is := by
  induction is generalizing taken with
  | nil => cases h
  | cons i is ih =>
    rcases List.mem_cons.mp h with rfl | hrest
    · exact ⟨rfl, List.mem_cons_self⟩
    · obtain ⟨hshard, hindex⟩ := ih hrest
      exact ⟨hshard, List.mem_cons_of_mem _ hindex⟩

theorem map_vnodeIndex_placed (taken : List UInt64) (is : List Nat) :
    (placed hash shardId taken is).map (·.vnodeIndex) = is := by
  induction is generalizing taken with
  | nil => rfl
  | cons i is ih => rw [placed, List.map_cons, ih]

theorem position_not_mem_iff {i : Nat} :
    position hash shardId taken i ∉ taken ↔
      (hash (vnodeKey shardId i) ∈ taken → hash (retryKey shardId i) ∉ taken) := by
  unfold position
  split_ifs with h
  · exact ⟨fun hfree _ => hfree, fun hfree => hfree h⟩
  · exact ⟨fun _ htaken => absurd htaken h, fun _ => h⟩

theorem retriesFree_iff {is : List Nat} :
    RetriesFree hash shardId taken is ↔
      ((placed hash shardId taken is).map (·.hash)).Nodup ∧
        ∀ v ∈ placed hash shardId taken is, v.hash ∉ taken := by
  induction is generalizing taken with
  | nil => simp [RetriesFree, placed]
  | cons i is ih =>
    rw [RetriesFree, ← position_not_mem_iff, ih, placed, List.map_cons, List.nodup_cons,
      List.forall_mem_cons]
    constructor
    · rintro ⟨hfree, hnodup, hrest⟩
      refine ⟨⟨?_, hnodup⟩, hfree, ?_⟩
      · intro hmem
        obtain ⟨v, hv, hhash⟩ := List.mem_map.mp hmem
        exact hrest v hv (hhash ▸ List.mem_cons_self)
      · exact fun v hv hmem => hrest v hv (List.mem_cons_of_mem _ hmem)
    · rintro ⟨⟨hnew, hnodup⟩, hfree, hrest⟩
      refine ⟨hfree, hnodup, fun v hv hmem => ?_⟩
      rcases List.mem_cons.mp hmem with heq | hmem
      · exact hnew (List.mem_map.mpr ⟨v, hv, heq⟩)
      · exact hrest v hv hmem

end Placement

/-! ## Nodes put over others -/

def overlay (nodes : BTreeMap UInt64 VirtualNode) (vnodes : List VirtualNode) :
    BTreeMap UInt64 VirtualNode :=
  vnodes.foldl (fun nodes vnode => nodes.insert vnode.hash vnode) nodes

theorem get_overlay_concat (nodes : BTreeMap UInt64 VirtualNode) (vnodes : List VirtualNode)
    (v : VirtualNode) (h : UInt64) :
    (overlay nodes (vnodes ++ [v])).get h =
      if h = v.hash then some v else (overlay nodes vnodes).get h := by
  unfold overlay
  rw [List.foldl_append]
  exact get_insert (overlay nodes vnodes) v.hash h v

variable {nodes : BTreeMap UInt64 VirtualNode} {vnodes : List VirtualNode}

theorem get_overlay_of_not_mem
    {h : UInt64} (hnot : ∀ v ∈ vnodes, v.hash ≠ h) :
    (overlay nodes vnodes).get h = nodes.get h := by
  induction vnodes using List.reverseRecOn with
  | nil => rfl
  | append_singleton vnodes v ih =>
    rw [List.forall_mem_append, List.forall_mem_singleton] at hnot
    rw [get_overlay_concat, if_neg (Ne.symm hnot.2), ih hnot.1]

theorem exists_get_overlay
    {v : VirtualNode} (hv : v ∈ vnodes) :
    ∃ w ∈ vnodes, w.hash = v.hash ∧ (overlay nodes vnodes).get v.hash = some w := by
  induction vnodes using List.reverseRecOn with
  | nil => cases hv
  | append_singleton vnodes u ih =>
    rw [get_overlay_concat]
    split_ifs with hu
    · exact ⟨u, List.mem_append_right _ List.mem_cons_self, hu.symm, rfl⟩
    · have hmem : v ∈ vnodes := by
        rcases List.mem_append.mp hv with hmem | hmem
        · exact hmem
        · exact absurd (congrArg (·.hash) (List.mem_singleton.mp hmem)) hu
      obtain ⟨w, hw, hhash, hget⟩ := ih hmem
      exact ⟨w, List.mem_append_left _ hw, hhash, hget⟩

theorem get_overlay_of_nodup
    (hnodup : (vnodes.map (·.hash)).Nodup) {v : VirtualNode} (hv : v ∈ vnodes) :
    (overlay nodes vnodes).get v.hash = some v := by
  obtain ⟨w, hw, hhash, hget⟩ := exists_get_overlay hv
  rw [hget, List.inj_on_of_nodup_map hnodup hw hv hhash]

theorem foldl_addVnode {hash : String → UInt64} {shardId : Nat} {taken : List UInt64}
    (htaken : ∀ h, h ∈ taken ↔ (nodes.get h).isSome) (out : List VirtualNode) (is : List Nat) :
    is.foldl (addVnode hash shardId) (nodes, out) =
      (overlay nodes (placed hash shardId taken is), out ++ placed hash shardId taken is) := by
  induction is generalizing nodes taken out with
  | nil =>
    rw [placed, List.append_nil]
    rfl
  | cons i is ih =>
    have hround : addVnode hash shardId (nodes, out) i =
        (nodes.insert (position hash shardId taken i) ⟨position hash shardId taken i, shardId, i⟩,
          out ++ [⟨position hash shardId taken i, shardId, i⟩]) := by
      unfold addVnode position
      simp only [htaken]
      split_ifs <;> rfl
    have htaken' : ∀ h, h ∈ position hash shardId taken i :: taken ↔
        ((nodes.insert (position hash shardId taken i)
          ⟨position hash shardId taken i, shardId, i⟩).get h).isSome := by
      intro h
      rw [List.mem_cons, htaken, get_insert]
      split_ifs with heq
      · exact iff_of_true (.inl heq) rfl
      · exact or_iff_right heq
    rw [List.foldl_cons, hround, ih htaken', placed, List.append_assoc]
    rfl

/-! ## Specifications -/

namespace ConsistentHashRing

variable {hash : String → UInt64} {ring ring' : ConsistentHashRing}

theorem vnodesOf_of_get {shardId : Nat}
    (h : ring.shardNodes.get shardId = some vnodes) : ring.vnodesOf shardId = vnodes := by
  rw [vnodesOf, h]
  rfl

theorem addShard_eq_ok {shardId virtualNodes : Nat} :
    ring.addShard hash shardId virtualNodes = .ok ring' ↔
      ring.shardNodes.get shardId = none ∧
        ring' = {
          nodes := overlay ring.nodes
            (placed hash shardId ring.nodes.keys (List.range virtualNodes))
          shardNodes := ring.shardNodes.insert shardId
            (placed hash shardId ring.nodes.keys (List.range virtualNodes))
          virtualNodeCounts := ring.virtualNodeCounts.insert shardId virtualNodes } := by
  have htaken : ∀ h, h ∈ ring.nodes.keys ↔ (ring.nodes.get h).isSome := by
    intro h
    rw [mem_keys, Option.isSome_iff_exists]
  rw [addShard, foldl_addVnode htaken]
  split_ifs with hthere
  · refine iff_of_false nofun ?_
    rintro ⟨hnone, -⟩
    rw [hnone] at hthere
    cases hthere
  · rw [Bool.not_eq_true, Option.isSome_eq_false_iff, Option.isNone_iff_eq_none] at hthere
    rw [Except.ok.injEq, List.nil_append, eq_comm]
    exact (and_iff_right hthere).symm

theorem get_foldl_remove (nodes : BTreeMap UInt64 VirtualNode) (vnodes : List VirtualNode)
    (h : UInt64) :
    (vnodes.foldl (fun nodes vnode => nodes.remove vnode.hash) nodes).get h =
      if h ∈ vnodes.map (·.hash) then none else nodes.get h := by
  induction vnodes generalizing nodes with
  | nil => rfl
  | cons v vnodes ih =>
    rw [List.foldl_cons, ih, get_remove]
    by_cases hrest : h ∈ vnodes.map (·.hash)
    · simp [hrest]
    · simp [hrest]

theorem removeShard_eq_ok {shardId : Nat} {removed : List VirtualNode} :
    ring.removeShard shardId = .ok (ring', removed) ↔
      ring.shardNodes.get shardId = some removed ∧
        ring' = {
          nodes := removed.foldl (fun nodes vnode => nodes.remove vnode.hash) ring.nodes
          shardNodes := ring.shardNodes.remove shardId
          virtualNodeCounts := ring.virtualNodeCounts.remove shardId } := by
  rw [removeShard]
  split
  next hnone => simp [hnone]
  next vnodes hsome =>
    rw [Except.ok.injEq, Prod.mk.injEq, hsome, Option.some.injEq, eq_comm, and_comm]
    constructor
    · rintro ⟨rfl, rfl⟩
      exact ⟨rfl, rfl⟩
    · rintro ⟨rfl, rfl⟩
      exact ⟨rfl, rfl⟩

theorem reassignVirtualNode_eq_ok {vnodeHash : UInt64} {newShard : Nat}
    (h : ring.reassignVirtualNode vnodeHash newShard = .ok ring') :
    ∃ vnode, ring.nodes.get vnodeHash = some vnode ∧
      ring'.nodes = ring.nodes.insert vnodeHash { vnode with shardId := newShard } ∧
      ring'.virtualNodeCounts = ring.virtualNodeCounts ∧
      ∀ s, ring'.vnodesOf s =
        (if s = vnode.shardId then (ring.vnodesOf s).filter (fun v => v.hash ≠ vnodeHash)
          else ring.vnodesOf s) ++
        if s = newShard then [{ vnode with shardId := newShard }] else [] := by
  rw [reassignVirtualNode] at h
  split at h
  · cases h
  next vnode hvnode =>
    cases h
    refine ⟨vnode, hvnode, rfl, rfl, ?_⟩
    generalize hkept : (match ring.shardNodes.get vnode.shardId with
      | none => ring.shardNodes
      | some old => ring.shardNodes.insert vnode.shardId
          (old.filter (fun v => v.hash ≠ vnodeHash))) = kept
    have hold : ∀ s, (kept.get s).getD [] =
        if s = vnode.shardId then (ring.vnodesOf s).filter (fun v => v.hash ≠ vnodeHash)
        else ring.vnodesOf s := by
      intro s
      unfold vnodesOf
      rw [← hkept]
      split
      next hnone =>
        split_ifs with hs
        · rw [hs, hnone]
          rfl
        · rfl
      next old hsome =>
        rw [get_insert]
        split_ifs with hs
        · rw [hs, hsome]
          rfl
        · rfl
    intro s
    rw [← hold, vnodesOf]
    dsimp only
    rw [get_upsert]
    split_ifs with hs
    · rw [hs]
      rfl
    · exact (List.append_nil _).symm

end ConsistentHashRing

/-! ## The two views -/

/-- The two views describe the same virtual nodes, each of them once. -/
structure Agrees (ring : ConsistentHashRing) : Prop where
  same : ∀ h v s, ring.nodes.get h = some v ∧ v.shardId = s ↔ v ∈ ring.vnodesOf s ∧ v.hash = h
  once : ∀ s, (ring.vnodesOf s).Nodup

/-- Removing a shard, whichever, takes away no node of another one, and no hash leads to it any
more. -/
def RemovesCleanly (ring : ConsistentHashRing) : Prop :=
  ∀ s ring' removed, ring.removeShard s = .ok (ring', removed) →
    (∀ h v, ring.nodes.get h = some v → v.shardId ≠ s → ring'.nodes.get h = some v) ∧
      ∀ h, ring'.findShard h ≠ some s

/-- No virtual node that an operation adds finds both of its places taken. -/
def RetryFree (hash : String → UInt64) (ring : ConsistentHashRing) : RingOp → Prop
  | .membership (.add shardId virtualNodes) =>
    ring.shardNodes.get shardId = none →
      RetriesFree hash shardId ring.nodes.keys (List.range virtualNodes)
  | .membership (.remove _) => True
  | .reassign _ _ => True

namespace Agrees

variable {hash : String → UInt64} {ring ring' : ConsistentHashRing}

theorem new : Agrees ConsistentHashRing.new :=
  ⟨fun _ _ _ => ⟨fun h => (by cases h.1), fun h => (by cases h.1)⟩, fun _ => List.nodup_nil⟩

variable (h : Agrees ring)

include h

theorem removesCleanly : RemovesCleanly ring := by
  intro s ring' removed hremove
  obtain ⟨hlist, rfl⟩ := removeShard_eq_ok.mp hremove
  have hvnodes : ring.vnodesOf s = removed := vnodesOf_of_get hlist
  have hget : ∀ x v, (removed.foldl (fun nodes vnode => nodes.remove vnode.hash) ring.nodes).get x =
      some v ↔ ring.nodes.get x = some v ∧ v.shardId ≠ s := by
    intro x v
    rw [get_foldl_remove]
    split_ifs with hmem
    · -- at the place of a node of `s` there is this node
      obtain ⟨w, hw, rfl⟩ := List.mem_map.mp hmem
      obtain ⟨hnode, hshard⟩ := (h.same w.hash w s).mpr ⟨hvnodes ▸ hw, rfl⟩
      refine iff_of_false nofun ?_
      rintro ⟨hv, hne⟩
      rw [hnode] at hv
      cases hv
      exact hne hshard
    · refine ⟨fun hv => ⟨hv, ?_⟩, And.left⟩
      intro hshard
      obtain ⟨hin, hhash⟩ := (h.same x v s).mp ⟨hv, hshard⟩
      exact hmem (List.mem_map.mpr ⟨v, hvnodes ▸ hin, hhash⟩)
  refine ⟨fun x v hv hne => (hget x v).mpr ⟨hv, hne⟩, ?_⟩
  intro x hfind
  obtain ⟨⟨y, v⟩, hsucc, hshard⟩ := Option.map_eq_some_iff.mp hfind
  exact ((hget y v).mp (successor_spec hsucc).1).2 hshard

theorem addShard {shardId virtualNodes : Nat}
    (hfree : RetriesFree hash shardId ring.nodes.keys (List.range virtualNodes))
    (hadd : ring.addShard hash shardId virtualNodes = .ok ring') : Agrees ring' := by
  obtain ⟨hnone, rfl⟩ := addShard_eq_ok.mp hadd
  obtain ⟨hnodup, hnew⟩ := retriesFree_iff.mp hfree
  generalize hplaced : placed hash shardId ring.nodes.keys (List.range virtualNodes) = vnodes
    at hnodup hnew
  have hshard : ∀ v ∈ vnodes, v.shardId = shardId := by
    rw [← hplaced]
    exact fun v hv => (of_mem_placed hv).1
  have hempty : ring.vnodesOf shardId = [] := by
    rw [vnodesOf, hnone]
    rfl
  have hlists : ∀ s, vnodesOf
      { nodes := overlay ring.nodes vnodes
        shardNodes := ring.shardNodes.insert shardId vnodes
        virtualNodeCounts := ring.virtualNodeCounts.insert shardId virtualNodes } s =
      if s = shardId then vnodes else ring.vnodesOf s := by
    intro s
    unfold vnodesOf
    dsimp only
    rw [get_insert]
    split_ifs <;> rfl
  constructor
  · intro x v s
    rw [hlists]
    dsimp only
    by_cases hx : ∃ w ∈ vnodes, w.hash = x
    · -- one of the new nodes stands there
      obtain ⟨w, hw, rfl⟩ := hx
      rw [get_overlay_of_nodup hnodup hw]
      constructor
      · rintro ⟨hv, hs⟩
        rw [← Option.some.inj hv] at hs ⊢
        rw [if_pos (hs.symm.trans (hshard w hw))]
        exact ⟨hw, rfl⟩
      · rintro ⟨hv, hhash⟩
        split_ifs at hv with hs
        · rw [List.inj_on_of_nodup_map hnodup hv hw hhash, hs]
          exact ⟨rfl, hshard w hw⟩
        · -- an old node would have to stand there too
          have hold := ((h.same w.hash v s).mpr ⟨hv, hhash⟩).1
          exact absurd (mem_keys.mpr ⟨v, hold⟩) (hnew w hw)
    · have hx' : ∀ w ∈ vnodes, w.hash ≠ x := fun w hw heq => hx ⟨w, hw, heq⟩
      rw [get_overlay_of_not_mem hx', h.same]
      split_ifs with hs
      · rw [hs, hempty]
        refine iff_of_false (fun hv => absurd hv.1 List.not_mem_nil) ?_
        exact fun hv => hx' v hv.1 hv.2
      · exact Iff.rfl
  · intro s
    rw [hlists]
    split_ifs
    · exact hnodup.of_map _
    · exact h.once s

theorem removeShard {shardId : Nat} {removed : List VirtualNode}
    (hremove : ring.removeShard shardId = .ok (ring', removed)) : Agrees ring' := by
  obtain ⟨hlist, rfl⟩ := removeShard_eq_ok.mp hremove
  have hvnodes : ring.vnodesOf shardId = removed := vnodesOf_of_get hlist
  have hlists : ∀ s, vnodesOf
      { nodes := removed.foldl (fun nodes vnode => nodes.remove vnode.hash) ring.nodes
        shardNodes := ring.shardNodes.remove shardId
        virtualNodeCounts := ring.virtualNodeCounts.remove shardId } s =
      if s = shardId then [] else ring.vnodesOf s := by
    intro s
    unfold vnodesOf
    dsimp only
    rw [get_remove]
    split_ifs <;> rfl
  constructor
  · intro x v s
    rw [hlists]
    dsimp only
    rw [get_foldl_remove]
    split_ifs with hmem hs hs
    · exact iff_of_false (fun hv => by cases hv.1) (fun hv => absurd hv.1 List.not_mem_nil)
    · refine iff_of_false (fun hv => by cases hv.1) ?_
      rintro ⟨hv, rfl⟩
      -- the removed node with this hash stands there
      obtain ⟨w, hw, hhash⟩ := List.mem_map.mp hmem
      obtain ⟨hnode, hshard⟩ := (h.same v.hash w shardId).mpr ⟨hvnodes ▸ hw, hhash⟩
      obtain ⟨hnode', hshard'⟩ := (h.same v.hash v s).mpr ⟨hv, rfl⟩
      rw [hnode] at hnode'
      cases hnode'
      exact hs (hshard'.symm.trans hshard)
    · refine iff_of_false ?_ (fun hv => absurd hv.1 List.not_mem_nil)
      rw [h.same, hs, hvnodes]
      exact fun hv => hmem (List.mem_map.mpr ⟨v, hv⟩)
    · exact h.same x v s
  · intro s
    rw [hlists]
    split_ifs
    · exact List.nodup_nil
    · exact h.once s

theorem reassignVirtualNode {vnodeHash : UInt64} {newShard : Nat}
    (hreassign : ring.reassignVirtualNode vnodeHash newShard = .ok ring') : Agrees ring' := by
  obtain ⟨vnode, hvnode, hnodes, -, hlists⟩ := reassignVirtualNode_eq_ok hreassign
  have hhash : vnode.hash = vnodeHash := ((h.same vnodeHash vnode _).mp ⟨hvnode, rfl⟩).2
  -- of the lists as they were, only the one of the old shard holds the node
  have hkept : ∀ v s, v ∈ (if s = vnode.shardId then
        (ring.vnodesOf s).filter (fun v => v.hash ≠ vnodeHash) else ring.vnodesOf s) ↔
      v ∈ ring.vnodesOf s ∧ v.hash ≠ vnodeHash := by
    intro v s
    split_ifs with hs
    · rw [List.mem_filter, decide_eq_true_eq]
    · refine ⟨fun hv => ⟨hv, fun heq => hs ?_⟩, And.left⟩
      obtain ⟨hnode, hshard⟩ := (h.same vnodeHash v s).mpr ⟨hv, heq⟩
      rw [hvnode] at hnode
      cases hnode
      exact hshard.symm
  have hmem : ∀ v s, v ∈ ring'.vnodesOf s ↔
      v ∈ ring.vnodesOf s ∧ v.hash ≠ vnodeHash ∨
        v = { vnode with shardId := newShard } ∧ s = newShard := by
    intro v s
    rw [hlists, List.mem_append, hkept]
    refine or_congr_right ?_
    split_ifs with hs
    · simp [hs]
    · simp [hs]
  constructor
  · intro x v s
    rw [hmem, hnodes, get_insert]
    split_ifs with hx
    · constructor
      · rintro ⟨hv, rfl⟩
        cases hv
        exact ⟨.inr ⟨rfl, rfl⟩, hhash.trans hx.symm⟩
      · rintro ⟨⟨-, hne⟩ | ⟨rfl, rfl⟩, heq⟩
        · exact absurd (heq.trans hx) hne
        · exact ⟨rfl, rfl⟩
    · rw [h.same]
      constructor
      · rintro ⟨hv, heq⟩
        exact ⟨.inl ⟨hv, fun hv' => hx (heq.symm.trans hv')⟩, heq⟩
      · rintro ⟨⟨hv, -⟩ | ⟨rfl, rfl⟩, heq⟩
        · exact ⟨hv, heq⟩
        · exact absurd (heq.symm.trans hhash) hx
  · intro s
    rw [hlists, List.nodup_append]
    refine ⟨?_, ?_, ?_⟩
    · split_ifs
      · exact (h.once s).filter _
      · exact h.once s
    · split_ifs
      · exact List.nodup_singleton _
      · exact List.nodup_nil
    · intro v hv w hw heq
      split_ifs at hw
      · rw [List.mem_singleton.mp hw] at heq
        exact ((hkept v s).mp hv).2 (heq ▸ hhash)
      · cases hw

theorem retriesFree_of_addShard {shardId virtualNodes : Nat}
    (hadd : ring.addShard hash shardId virtualNodes = .ok ring') (h' : Agrees ring') :
    RetriesFree hash shardId ring.nodes.keys (List.range virtualNodes) := by
  obtain ⟨hnone, rfl⟩ := addShard_eq_ok.mp hadd
  have hindex : (placed hash shardId ring.nodes.keys (List.range virtualNodes)).map
      (·.vnodeIndex) = List.range virtualNodes := map_vnodeIndex_placed _ _
  rw [retriesFree_iff]
  have hshard : ∀ v ∈ placed hash shardId ring.nodes.keys (List.range virtualNodes),
      v.shardId = shardId := fun v hv => (of_mem_placed hv).1
  generalize placed hash shardId ring.nodes.keys (List.range virtualNodes) = vnodes
    at h' hshard hindex ⊢
  have hlist : vnodesOf
      { nodes := overlay ring.nodes vnodes
        shardNodes := ring.shardNodes.insert shardId vnodes
        virtualNodeCounts := ring.virtualNodeCounts.insert shardId virtualNodes } shardId =
      vnodes := by
    unfold vnodesOf
    dsimp only
    rw [get_insert, if_pos rfl]
    rfl
  -- every new node stands at its place
  have hstands : ∀ v ∈ vnodes, (overlay ring.nodes vnodes).get v.hash = some v := by
    intro v hv
    exact ((h'.same v.hash v shardId).mpr ⟨by rw [hlist]; exact hv, rfl⟩).1
  have hnodup : vnodes.Nodup := List.Nodup.of_map (·.vnodeIndex) (hindex ▸ List.nodup_range)
  constructor
  · refine hnodup.map_on fun v hv w hw heq => ?_
    have hvw := hstands v hv
    rw [heq, hstands w hw] at hvw
    exact (Option.some.inj hvw).symm
  · intro v hv hkey
    obtain ⟨u, hu⟩ := mem_keys.mp hkey
    obtain ⟨hin, hhash⟩ := (h.same v.hash u u.shardId).mp ⟨hu, rfl⟩
    -- the node that stood there is still in the list of its shard
    have hne : u.shardId ≠ shardId := by
      intro heq
      rw [heq, vnodesOf, hnone] at hin
      cases hin
    have hin' : u ∈ vnodesOf
        { nodes := overlay ring.nodes vnodes
          shardNodes := ring.shardNodes.insert shardId vnodes
          virtualNodeCounts := ring.virtualNodeCounts.insert shardId virtualNodes } u.shardId := by
      unfold vnodesOf at hin ⊢
      rw [get_insert, if_neg hne]
      exact hin
    have hstill := ((h'.same v.hash u u.shardId).mpr ⟨hin', hhash⟩).1
    rw [hstands v hv] at hstill
    cases hstill
    exact hne (hshard v hv)

/-- **One operation.** -/
theorem ringStep_iff (op : RingOp) : Agrees (ringStep hash ring op) ↔ RetryFree hash ring op := by
  cases op with
  | membership op =>
    cases op with
    | add shardId virtualNodes =>
      show Agrees (membershipStep hash ring (.add shardId virtualNodes)) ↔
        (ring.shardNodes.get shardId = none →
          RetriesFree hash shardId ring.nodes.keys (List.range virtualNodes))
      cases hadd : ring.addShard hash shardId virtualNodes with
      | ok ring' =>
        obtain ⟨hnone, -⟩ := addShard_eq_ok.mp hadd
        simp only [membershipStep, hadd]
        exact ⟨fun h' _ => h.retriesFree_of_addShard hadd h',
          fun hfree => h.addShard (hfree hnone) hadd⟩
      | error e =>
        simp only [membershipStep, hadd]
        refine iff_of_true h fun hnone => ?_
        rw [addShard_eq_ok.mpr ⟨hnone, rfl⟩] at hadd
        cases hadd
    | remove shardId =>
      refine iff_of_true ?_ trivial
      cases hremove : ring.removeShard shardId with
      | ok result =>
        simp only [ringStep, membershipStep, hremove]
        exact h.removeShard hremove
      | error e =>
        simp only [ringStep, membershipStep, hremove]
        exact h
  | reassign vnodeHash newShard =>
    refine iff_of_true ?_ trivial
    cases hreassign : ring.reassignVirtualNode vnodeHash newShard with
    | ok ring' =>
      simp only [ringStep, hreassign]
      exact h.reassignVirtualNode hreassign
    | error e =>
      simp only [ringStep, hreassign]
      exact h

end Agrees

/-- **The two views agree, exactly when no operation overwrites a node.** In every state that a
sequence of operations goes through the views describe the same virtual nodes, and removing a
shard there takes away its own nodes only and leaves no hash that leads to it, if and only if no
virtual node that an operation adds finds both of its places taken. -/
theorem views_agree_iff (hash : String → UInt64) (ops : List RingOp) :
    (∀ pre, pre <+: ops → Agrees (build hash pre) ∧ RemovesCleanly (build hash pre)) ↔
      OkAlong (fun ring op => some (ringStep hash ring op)) (RetryFree hash)
        ConsistentHashRing.new ops := by
  have hclean : ∀ ring, Agrees ring ∧ RemovesCleanly ring ↔ Agrees ring :=
    fun ring => and_iff_left_of_imp Agrees.removesCleanly
  simp only [hclean]
  rw [show (∀ pre, pre <+: ops → Agrees (build hash pre)) ↔ _ from
    forall_prefix_iff_okAlong (ringStep hash) Agrees ConsistentHashRing.new ops,
    and_iff_right Agrees.new]
  refine okAlong_congr (I := Agrees) ?_ Agrees.new (exec_total (ringStep hash) _ ops)
  intro ring op ring' hring hstep
  cases hstep
  exact ⟨hring.ringStep_iff op, id⟩

/-- With every key at one place, the second shard takes the place of the first: its node is gone,
and removing the first shard takes away the node of the second. -/
theorem views_disagree : ¬ ∀ (hash : String → UInt64) (ops : List RingOp) (pre : List RingOp),
    pre <+: ops → Agrees (build hash pre) ∧ RemovesCleanly (build hash pre) := by
  intro h
  obtain ⟨-, hclean⟩ := h (fun _ => 0) [.membership (.add 1 1), .membership (.add 2 1)] _
    (List.prefix_refl _)
  obtain ⟨hkept, -⟩ := hclean 1 _ _ rfl
  have hgone := hkept 0 ⟨0, 2, 0⟩ (by decide) (by decide)
  revert hgone
  decide

end Arcxa.Ha
