import Mathlib.Data.List.MinMax
import Arcxa.Lib.Cuts
import Arcxa.Ha.HashRing

/-!
# Planning migrations

A shard with too much data gives the first quarter of its virtual nodes away, at least one. The
task for it also says which hashes these nodes own: the ranges between one moved node and the next
one. A node owns the hashes up to its own, though, and from the node before it on the ring, whoever
that one belongs to. The last moved node owns itself and is in no range, so that a task whose nodes
are on the ring never has the right ranges. What is left are nodes that the ring has lost
(`ranges_exact_iff`).
-/

namespace Arcxa.Ha

open BTreeMap

structure KeyRange where
  start : UInt64
  endHash : UInt64
  deriving DecidableEq

structure MigrationTask where
  id : String
  source : Nat
  target : Nat
  virtualNodes : List UInt64
  estimatedBytes : Nat
  keyRanges : List KeyRange
  deriving DecidableEq

structure ShardStats where
  sizeBytes : Nat
  deriving DecidableEq

def vnodesToKeyRanges (vnodes : List UInt64) : List KeyRange :=
  (windows (vnodes.mergeSort fun a b => a ≤ b)).map fun w => ⟨w.1, w.2⟩

def selectedVnodes (vnodes : List VirtualNode) : List UInt64 :=
  (vnodes.take (max (vnodes.length / 4) 1)).map (·.hash)

section Plan

-- `scale` is the floating-point product of a size and the share of so many of 150 nodes, `uuid`
-- the identifiers that are drawn
variable (scale : Nat → Nat → Nat) (uuid : Nat → String) (ring : ConsistentHashRing)
  (underloaded : List Nat) (shardStats : BTreeMap Nat ShardStats)

def estimateVnodeDataSize (shardId : Nat) (vnodes : List UInt64) : Nat :=
  match shardStats.get shardId with
  | some stats => scale stats.sizeBytes vnodes.length
  | none => vnodes.length * 100 * 1024 * 1024

def sizeOrZero (shardId : Nat) : Nat := ((shardStats.get shardId).map (·.sizeBytes)).getD 0

def migrationTask (n source target : Nat) (vnodes : List VirtualNode) : MigrationTask where
  id := s!"task-{uuid n}"
  source := source
  target := target
  virtualNodes := selectedVnodes vnodes
  estimatedBytes := estimateVnodeDataSize scale shardStats source (selectedVnodes vnodes)
  keyRanges := vnodesToKeyRanges (selectedVnodes vnodes)

def planTasks (tasks : List MigrationTask) : List Nat → Except String (List MigrationTask)
  | [] => .ok tasks
  | source :: overloaded =>
    -- the first of the smallest; there is none if there is no shard to move to
    match underloaded.argmin (sizeOrZero shardStats) with
    | none => .ok tasks
    | some target =>
      match ring.shardNodes.get source with
      | none => .error s!"No virtual nodes for shard shard-{source}"
      | some vnodes =>
        planTasks
          (tasks ++ [migrationTask scale uuid shardStats tasks.length source target vnodes])
          overloaded

def planMigrations (overloaded : List Nat) : Except String (List MigrationTask) :=
  planTasks scale uuid ring underloaded shardStats [] overloaded

variable {scale uuid ring underloaded shardStats}

theorem planTasks_of_none (hnone : underloaded.argmin (sizeOrZero shardStats) = none)
    (tasks : List MigrationTask) (overloaded : List Nat) :
    planTasks scale uuid ring underloaded shardStats tasks overloaded = .ok tasks := by
  cases overloaded with
  | nil => rfl
  | cons source overloaded => rw [planTasks, hnone]

theorem planTasks_eq_error {target : Nat}
    (htarget : underloaded.argmin (sizeOrZero shardStats) = some target) {overloaded : List Nat}
    {source : Nat} (hmem : source ∈ overloaded) (hsource : ring.shardNodes.get source = none)
    (tasks : List MigrationTask) :
    ∃ e, planTasks scale uuid ring underloaded shardStats tasks overloaded = .error e := by
  induction overloaded generalizing tasks with
  | nil => cases hmem
  | cons first overloaded ih =>
    simp only [planTasks, htarget]
    cases hfirst : ring.shardNodes.get first with
    | none => exact ⟨_, rfl⟩
    | some vnodes =>
      rcases List.mem_cons.mp hmem with rfl | hmem
      · rw [hsource] at hfirst
        cases hfirst
      · exact ih hmem _

def PlannedFor (ring : ConsistentHashRing) (source : Nat) (task : MigrationTask) : Prop :=
  ∃ vnodes, ring.shardNodes.get source = some vnodes ∧ task.source = source ∧
    task.virtualNodes = selectedVnodes vnodes ∧
    task.keyRanges = vnodesToKeyRanges (selectedVnodes vnodes)

theorem planTasks_eq_ok {target : Nat}
    (htarget : underloaded.argmin (sizeOrZero shardStats) = some target) {overloaded : List Nat}
    (hthere : ∀ source ∈ overloaded, ring.shardNodes.get source ≠ none)
    (tasks : List MigrationTask) :
    ∃ planned, planTasks scale uuid ring underloaded shardStats tasks overloaded =
        .ok (tasks ++ planned) ∧
      List.Forall₂ (PlannedFor ring) overloaded planned := by
  induction overloaded generalizing tasks with
  | nil => exact ⟨[], by rw [planTasks, List.append_nil], .nil⟩
  | cons source overloaded ih =>
    obtain ⟨vnodes, hvnodes⟩ := Option.ne_none_iff_exists'.mp (hthere source List.mem_cons_self)
    have hrest : ∀ source ∈ overloaded, ring.shardNodes.get source ≠ none :=
      fun source hsource => hthere source (List.mem_cons_of_mem _ hsource)
    let task := migrationTask scale uuid shardStats tasks.length source target vnodes
    have htask : PlannedFor ring source task := ⟨vnodes, hvnodes, rfl, rfl, rfl⟩
    obtain ⟨planned, hplanned, hall⟩ := ih hrest (tasks ++ [task])
    refine ⟨task :: planned, ?_, .cons htask hall⟩
    simp only [planTasks, htarget, hvnodes, task] at hplanned ⊢
    rw [hplanned, List.append_assoc, List.singleton_append]

end Plan

/-! ## The hashes that a task moves -/

def Stands (ring : ConsistentHashRing) (source : Nat) (a : UInt64) : Prop :=
  ∃ v, ring.nodes.get a = some v ∧ v.shardId = source

def RangesExact (ring : ConsistentHashRing) (task : MigrationTask) : Prop :=
  ∀ h, (∃ r ∈ task.keyRanges, r.start ≤ h ∧ h < r.endHash) ↔
    ∃ a v, ring.nodes.successor h = some (a, v) ∧ a ∈ task.virtualNodes ∧
      v.shardId = task.source

theorem exists_keyRange_iff {vnodes : List UInt64} {h : UInt64} :
    (∃ r ∈ vnodesToKeyRanges vnodes, r.start ≤ h ∧ h < r.endHash) ↔
      (∃ a ∈ vnodes, a ≤ h) ∧ ∃ b ∈ vnodes, h < b := by
  have hsorted : (vnodes.mergeSort fun a b => a ≤ b).Pairwise (· ≤ ·) :=
    vnodes.pairwise_mergeSort' (· ≤ ·)
  simpa only [vnodesToKeyRanges, List.mem_map, exists_exists_and_eq_and, List.mem_mergeSort]
    using exists_window_iff hsorted

/-- The owners of all hashes from the smallest to the largest of these are among them: the largest
does not stand on the ring, the hash before it does, no other node stands in between, and one does
right before the smallest. -/
structure FillsArc (ring : ConsistentHashRing) (source : Nat) (vnodes : List UInt64)
    (low high : UInt64) : Prop where
  low_mem : low ∈ vnodes
  high_mem : high ∈ vnodes
  low_le : ∀ a ∈ vnodes, low ≤ a
  le_high : ∀ a ∈ vnodes, a ≤ high
  gone : ¬ Stands ring source high
  last : high - 1 ∈ vnodes ∧ Stands ring source (high - 1)
  between : ∀ a ∈ ring.nodes.keys, low ≤ a → a < high → a ∈ vnodes ∧ Stands ring source a
  before : low - 1 ∈ ring.nodes.keys

/-- No node is left on the ring, and there is nothing between their places. -/
def AllLost (ring : ConsistentHashRing) (source : Nat) (vnodes : List UInt64) : Prop :=
  (∀ a ∈ vnodes, ¬ Stands ring source a) ∧ ∀ a ∈ vnodes, ∀ b ∈ vnodes, a = b

section Exact

variable {ring : ConsistentHashRing} {source : Nat} {vnodes : List UInt64}

/-- The ranges of these nodes are exact. -/
def CoversOwned (ring : ConsistentHashRing) (source : Nat) (vnodes : List UInt64) : Prop :=
  ∀ h, ((∃ a ∈ vnodes, a ≤ h) ∧ ∃ b ∈ vnodes, h < b) ↔
    ∃ a v, ring.nodes.successor h = some (a, v) ∧ a ∈ vnodes ∧ v.shardId = source

theorem sub_one_lt {a b : UInt64} (h : b < a) : a - 1 < a := by
  rw [UInt64.lt_iff_toNat_lt] at h ⊢
  rw [UInt64.toNat_sub]
  have := a.toNat_lt
  simp at h ⊢
  omega

theorem le_sub_one {a b : UInt64} (h : b < a) : b ≤ a - 1 := by
  rw [UInt64.lt_iff_toNat_lt] at h
  rw [UInt64.le_iff_toNat_le, UInt64.toNat_sub]
  have := a.toNat_lt
  simp at h ⊢
  omega

theorem le_zero_sub_one (b : UInt64) : b ≤ 0 - 1 := by
  rw [UInt64.le_iff_toNat_le]
  have := b.toNat_lt
  simp
  omega

theorem Stands.owned {a : UInt64} (h : Stands ring source a) (ha : a ∈ vnodes) :
    ∃ b v, ring.nodes.successor a = some (b, v) ∧ b ∈ vnodes ∧ v.shardId = source := by
  obtain ⟨v, hget, hshard⟩ := h
  exact ⟨a, v, successor_self hget, ha, hshard⟩

theorem AllLost.coversOwned (h : AllLost ring source vnodes) : CoversOwned ring source vnodes := by
  obtain ⟨hlost, hone⟩ := h
  intro x
  refine iff_of_false ?_ ?_
  · rintro ⟨⟨a, ha, hax⟩, b, hb, hxb⟩
    rw [hone a ha b hb] at hax
    exact absurd hxb (not_lt.mpr hax)
  · rintro ⟨a, v, hsucc, ha, hshard⟩
    exact hlost a ha ⟨v, (successor_spec hsucc).1, hshard⟩

namespace FillsArc

variable {low high : UInt64}

variable (h : FillsArc ring source vnodes low high)

include h

theorem covered_iff {x : UInt64} :
    ((∃ a ∈ vnodes, a ≤ x) ∧ ∃ b ∈ vnodes, x < b) ↔ low ≤ x ∧ x < high := by
  constructor
  · rintro ⟨⟨a, ha, hax⟩, b, hb, hxb⟩
    exact ⟨(h.low_le a ha).trans hax, hxb.trans_le (h.le_high b hb)⟩
  · rintro ⟨hlow, hhigh⟩
    exact ⟨⟨low, h.low_mem, hlow⟩, high, h.high_mem, hhigh⟩

theorem owned {x : UInt64} (hlow : low ≤ x) (hhigh : x < high) :
    ∃ a v, ring.nodes.successor x = some (a, v) ∧ a ∈ vnodes ∧ v.shardId = source := by
  obtain ⟨w, hw, -⟩ := h.last.2
  have hlast : ¬ high - 1 < x := not_lt.mpr (le_sub_one hhigh)
  cases hsucc : ring.nodes.successor x with
  | none =>
    rw [successor_eq_none] at hsucc
    exact absurd hsucc (entries_ne_nil_of_get hw)
  | some p =>
    obtain ⟨a, v⟩ := p
    obtain ⟨hget, hfirst⟩ := successor_spec hsucc
    rcases turn_le.mp (hfirst _ w hw) with ⟨-, hbehind⟩ | ⟨hle, hside⟩
    · exact absurd hbehind hlast
    · have hxa : x ≤ a := not_lt.mp fun hax => hlast (hside.mp hax)
      have hah : a < high := hle.trans_lt (sub_one_lt hhigh)
      obtain ⟨hmem, u, hu, hshard⟩ := h.between a (mem_keys.mpr ⟨v, hget⟩)
        (hlow.trans hxa) hah
      rw [hget] at hu
      cases hu
      exact ⟨a, v, rfl, hmem, hshard⟩

theorem inside_of_owned {x a : UInt64} {v : VirtualNode}
    (hsucc : ring.nodes.successor x = some (a, v)) (hmem : a ∈ vnodes) (hshard : v.shardId = source) :
    low ≤ x ∧ x < high := by
  obtain ⟨hget, hfirst⟩ := successor_spec hsucc
  have hlow : low ≤ a := h.low_le a hmem
  have hhigh : a < high := by
    refine lt_of_le_of_ne (h.le_high a hmem) ?_
    rintro rfl
    exact h.gone ⟨v, hget, hshard⟩
  obtain ⟨w, hw⟩ := mem_keys.mp h.before
  have hbefore := turn_le.mp (hfirst _ w hw)
  rcases lt_or_ge x low with hxlow | hlowx
  · -- the node right before the smallest one comes first
    have hlt : low - 1 < low := sub_one_lt hxlow
    rcases hbefore with ⟨-, hbehind⟩ | ⟨hle, -⟩
    · exact absurd (le_sub_one hxlow) (not_le.mpr hbehind)
    · exact absurd (hlow.trans hle) (not_le.mpr hlt)
  · refine ⟨hlowx, ?_⟩
    rcases lt_or_ge a x with hax | hxa
    · -- the search went around, past the node right before the smallest one
      rcases hbefore with ⟨hxa, -⟩ | ⟨hle, hside⟩
      · exact absurd hax (not_lt.mpr hxa)
      · have hlt : low - 1 < x := hside.mp hax
        rcases lt_or_ge 0 low with hpos | hzero
        · exact absurd (hlow.trans hle) (not_le.mpr (sub_one_lt hpos))
        · obtain rfl : low = 0 := le_antisymm hzero (UInt64.le_iff_toNat_le.mpr (Nat.zero_le _))
          exact absurd (le_zero_sub_one x) (not_le.mpr hlt)
    · exact hxa.trans_lt hhigh

theorem coversOwned : CoversOwned ring source vnodes := by
  intro x
  rw [h.covered_iff]
  constructor
  · rintro ⟨hlow, hhigh⟩
    exact h.owned hlow hhigh
  · rintro ⟨a, v, hsucc, hmem, hshard⟩
    exact h.inside_of_owned hsucc hmem hshard

end FillsArc

namespace CoversOwned

variable (h : CoversOwned ring source vnodes)

include h

theorem allLost (hlost : ∀ a ∈ vnodes, ¬ Stands ring source a) : AllLost ring source vnodes := by
  have hle : ∀ a ∈ vnodes, ∀ b ∈ vnodes, b ≤ a := by
    intro a ha b hb
    by_contra hlt
    obtain ⟨c, v, hsucc, hc, hshard⟩ := (h a).mp ⟨⟨a, ha, le_refl a⟩, b, hb, not_le.mp hlt⟩
    exact hlost c hc ⟨v, (successor_spec hsucc).1, hshard⟩
  exact ⟨hlost, fun a ha b hb => le_antisymm (hle b hb a ha) (hle a ha b hb)⟩

theorem lt_of_stands {a high : UInt64} (ha : a ∈ vnodes) (hstands : Stands ring source a)
    (hhigh : ∀ b ∈ vnodes, b ≤ high) : a < high := by
  obtain ⟨-, b, hb, hab⟩ := (h a).mpr (hstands.owned ha)
  exact hab.trans_le (hhigh b hb)

theorem stands_last {s high : UInt64} (hs : s ∈ vnodes) (hstands : Stands ring source s)
    (hhigh : high ∈ vnodes) (hge : ∀ b ∈ vnodes, b ≤ high) :
    high - 1 ∈ vnodes ∧ Stands ring source (high - 1) := by
  have hsh : s < high := h.lt_of_stands hs hstands hge
  have hlt : high - 1 < high := sub_one_lt hsh
  obtain ⟨a, v, hsucc, ha, hshard⟩ := (h (high - 1)).mp ⟨⟨s, hs, le_sub_one hsh⟩, high, hhigh, hlt⟩
  obtain ⟨hget, hfirst⟩ := successor_spec hsucc
  have hah : a < high := h.lt_of_stands ha ⟨v, hget, hshard⟩ hge
  rcases lt_or_ge a (high - 1) with hbehind | hahead
  · -- then all nodes are behind, and the largest hash has the same owner
    have hsame : ring.nodes.successor high = some (a, v) := by
      refine successor_eq_some.mpr ⟨hget, ?_⟩
      intro b w hb
      rcases turn_le.mp (hfirst b w hb) with ⟨hle, -⟩ | ⟨hab, hside⟩
      · exact absurd hbehind (not_lt.mpr hle)
      · have hbl : b < high - 1 := hside.mp hbehind
        exact turn_le.mpr (.inr ⟨hab, iff_of_true hah (hbl.trans hlt)⟩)
    obtain ⟨-, b, hb, hhb⟩ := (h high).mpr ⟨a, v, hsame, ha, hshard⟩
    exact absurd hhb (not_lt.mpr (hge b hb))
  · obtain rfl : a = high - 1 := le_antisymm (le_sub_one hah) hahead
    exact ⟨ha, v, hget, hshard⟩

omit h

theorem not_covered_before {low : UInt64} (hle : ∀ b ∈ vnodes, low ≤ b) :
    ¬ ((∃ a ∈ vnodes, a ≤ low - 1) ∧ ∃ b ∈ vnodes, low - 1 < b) := by
  rintro ⟨⟨a, ha, hal⟩, b, hb, hlb⟩
  rcases lt_or_ge 0 low with hpos | hzero
  · exact absurd ((hle a ha).trans hal) (not_le.mpr (sub_one_lt hpos))
  · obtain rfl : low = 0 := le_antisymm hzero (UInt64.le_iff_toNat_le.mpr (Nat.zero_le _))
    exact absurd (le_zero_sub_one b) (not_le.mpr hlb)

theorem mem_before (h : CoversOwned ring source vnodes) {low high : UInt64}
    (hle : ∀ b ∈ vnodes, low ≤ b) (hlow : low < high) (hlast : Stands ring source (high - 1))
    (hbetween : ∀ a ∈ ring.nodes.keys, low ≤ a → a < high → a ∈ vnodes ∧ Stands ring source a) :
    low - 1 ∈ ring.nodes.keys := by
  by_contra hbefore
  obtain ⟨w, hw, -⟩ := hlast
  have hlt : high - 1 < high := sub_one_lt hlow
  cases hsucc : ring.nodes.successor (low - 1) with
  | none =>
    rw [successor_eq_none] at hsucc
    exact entries_ne_nil_of_get hw hsucc
  | some p =>
    obtain ⟨a, v⟩ := p
    obtain ⟨hget, hfirst⟩ := successor_spec hsucc
    have hkey : a ∈ ring.nodes.keys := mem_keys.mpr ⟨v, hget⟩
    have hne : a ≠ low - 1 := by
      rintro rfl
      exact hbefore hkey
    have hinside : low ≤ a ∧ a < high := by
      rcases lt_or_ge 0 low with hpos | hzero
      · have hside : ¬ high - 1 < low - 1 :=
          not_lt.mpr ((sub_one_lt hpos).le.trans (le_sub_one hlow))
        rcases turn_le.mp (hfirst _ w hw) with ⟨-, hbehind⟩ | ⟨hal, hiff⟩
        · exact absurd hbehind hside
        · refine ⟨?_, hal.trans_lt hlt⟩
          by_contra hlow'
          have hal' : a ≤ low - 1 := le_sub_one (not_le.mp hlow')
          exact hside (hiff.mp (lt_of_le_of_ne hal' hne))
      · obtain rfl : low = 0 := le_antisymm hzero (UInt64.le_iff_toNat_le.mpr (Nat.zero_le _))
        refine ⟨UInt64.le_iff_toNat_le.mpr (Nat.zero_le _), ?_⟩
        rcases turn_le.mp (hfirst _ w hw) with ⟨hahead, -⟩ | ⟨hal, -⟩
        · exact absurd (le_antisymm (le_zero_sub_one a) hahead) hne
        · exact hal.trans_lt hlt
    obtain ⟨hmem, u, hu, hshard⟩ := hbetween a hkey hinside.1 hinside.2
    rw [hget] at hu
    cases hu
    exact not_covered_before hle ((h (low - 1)).mpr ⟨a, v, hsucc, hmem, hshard⟩)

theorem fillsArc (h : CoversOwned ring source vnodes) {s : UInt64} (hs : s ∈ vnodes)
    (hstands : Stands ring source s) : ∃ low high, FillsArc ring source vnodes low high := by
  obtain ⟨low, hlow, hle⟩ :=
    Set.exists_min_image { a | a ∈ vnodes } id (List.finite_toSet vnodes) ⟨s, hs⟩
  obtain ⟨high, hhigh, hge⟩ :=
    Set.exists_max_image { a | a ∈ vnodes } id (List.finite_toSet vnodes) ⟨s, hs⟩
  have hlast := h.stands_last hs hstands hhigh hge
  have hlt : low < high := (hle s hs).trans_lt (h.lt_of_stands hs hstands hge)
  have hbetween : ∀ a ∈ ring.nodes.keys, low ≤ a → a < high →
      a ∈ vnodes ∧ Stands ring source a := by
    intro a ha hla hah
    obtain ⟨v, hv⟩ := mem_keys.mp ha
    obtain ⟨b, w, hsucc, hb, hshard⟩ := (h a).mp ⟨⟨low, hlow, hla⟩, high, hhigh, hah⟩
    rw [successor_self hv] at hsucc
    cases hsucc
    exact ⟨hb, v, hv, hshard⟩
  exact ⟨low, high, {
    low_mem := hlow
    high_mem := hhigh
    low_le := hle
    le_high := hge
    gone := fun hst => lt_irrefl high (h.lt_of_stands hhigh hst hge)
    last := hlast
    between := hbetween
    before := h.mem_before hle hlt hlast.2 hbetween }⟩

end CoversOwned

theorem coversOwned_iff : CoversOwned ring source vnodes ↔
    AllLost ring source vnodes ∨ ∃ low high, FillsArc ring source vnodes low high := by
  constructor
  · intro h
    by_cases hstands : ∃ s ∈ vnodes, Stands ring source s
    · obtain ⟨s, hs, hstands⟩ := hstands
      exact .inr (h.fillsArc hs hstands)
    · exact .inl (h.allLost fun a ha hst => hstands ⟨a, ha, hst⟩)
  · rintro (hlost | ⟨low, high, harc⟩)
    · exact hlost.coversOwned
    · exact harc.coversOwned

end Exact

/-! ## The plan -/

theorem forall_iff_of_forall₂ {α β : Type} {R : α → β → Prop} {P : α → Prop} {Q : β → Prop}
    {l : List α} {l' : List β} (hall : List.Forall₂ R l l') (h : ∀ a b, R a b → (P a ↔ Q b)) :
    (∀ a ∈ l, P a) ↔ ∀ b ∈ l', Q b := by
  induction hall with
  | nil => simp
  | cons hab _ ih => rw [List.forall_mem_cons, List.forall_mem_cons, h _ _ hab, ih]

theorem PlannedFor.rangesExact_iff {ring : ConsistentHashRing} {source : Nat} {task : MigrationTask}
    (h : PlannedFor ring source task) : RangesExact ring task ↔
      AllLost ring source (selectedVnodes (ring.vnodesOf source)) ∨
        ∃ low high, FillsArc ring source (selectedVnodes (ring.vnodesOf source)) low high := by
  obtain ⟨vnodes, hvnodes, hsource, hnodes, hranges⟩ := h
  have hof : ring.vnodesOf source = vnodes := by
    rw [ConsistentHashRing.vnodesOf, hvnodes]
    rfl
  rw [hof, ← coversOwned_iff]
  refine forall_congr' fun x => ?_
  rw [hnodes, hranges, hsource, exists_keyRange_iff]

/-- **When the ranges of a plan are what its tasks move.** -/
theorem ranges_exact_iff (scale : Nat → Nat → Nat) (uuid : Nat → String)
    (ring : ConsistentHashRing) (overloaded underloaded : List Nat)
    (shardStats : BTreeMap Nat ShardStats) :
    (∀ tasks, planMigrations scale uuid ring underloaded shardStats overloaded = .ok tasks →
        ∀ task ∈ tasks, RangesExact ring task) ↔
      underloaded = [] ∨ (∃ source ∈ overloaded, ring.shardNodes.get source = none) ∨
        ∀ source ∈ overloaded, AllLost ring source (selectedVnodes (ring.vnodesOf source)) ∨
          ∃ low high, FillsArc ring source (selectedVnodes (ring.vnodesOf source)) low high := by
  cases htarget : underloaded.argmin (sizeOrZero shardStats) with
  | none =>
    have hempty : underloaded = [] := List.argmin_eq_none.mp htarget
    refine iff_of_true ?_ (.inl hempty)
    intro tasks hplan
    rw [planMigrations, planTasks_of_none htarget] at hplan
    cases hplan
    intro task htask
    cases htask
  | some target =>
    have hsome : underloaded ≠ [] := by
      rintro rfl
      cases htarget
    rw [or_iff_right hsome]
    by_cases hmissing : ∃ source ∈ overloaded, ring.shardNodes.get source = none
    · refine iff_of_true ?_ (.inl hmissing)
      obtain ⟨source, hmem, hnone⟩ := hmissing
      obtain ⟨e, herror⟩ :
          ∃ e, planTasks scale uuid ring underloaded shardStats [] overloaded = .error e :=
        planTasks_eq_error htarget hmem hnone []
      intro tasks hplan
      rw [planMigrations, herror] at hplan
      cases hplan
    · rw [or_iff_right hmissing]
      have hthere : ∀ source ∈ overloaded, ring.shardNodes.get source ≠ none :=
        fun source hmem hnone => hmissing ⟨source, hmem, hnone⟩
      obtain ⟨planned, hplan, hall⟩ :
          ∃ planned, planTasks scale uuid ring underloaded shardStats [] overloaded =
              .ok ([] ++ planned) ∧ List.Forall₂ (PlannedFor ring) overloaded planned :=
        planTasks_eq_ok htarget hthere []
      rw [planMigrations, hplan, List.nil_append, forall_iff_of_forall₂ hall
        fun source task htask => htask.rangesExact_iff.symm]
      constructor
      · intro h
        exact h planned rfl
      · intro h tasks htasks
        cases htasks
        exact h

/-- One virtual node is moved, which owns its own hash, and there is no range at all. -/
theorem last_node_in_no_range :
    ¬ ∀ (scale : Nat → Nat → Nat) (uuid : Nat → String) (hash : String → UInt64)
      (ops : List RingOp) (overloaded underloaded : List Nat)
      (shardStats : BTreeMap Nat ShardStats) (tasks : List MigrationTask),
      planMigrations scale uuid (build hash ops) underloaded shardStats overloaded = .ok tasks →
        ∀ task ∈ tasks, RangesExact (build hash ops) task := by
  intro h
  have hexact := h (fun _ _ => 0) (fun _ => "")
    (fun key => if key = vnodeKey 1 0 then 100 else 500)
    [.membership (.add 1 1), .membership (.add 2 1)] [1] [2] .empty _ rfl _ List.mem_cons_self 100
  have howned := hexact.mpr ⟨100, ⟨100, 1, 0⟩, by decide +kernel, by decide +kernel, rfl⟩
  obtain ⟨-, b, hb, hlt⟩ := exists_keyRange_iff.mp howned
  have hone : selectedVnodes [⟨if vnodeKey 1 0 = vnodeKey 1 0 then 100 else 500, 1, 0⟩] = [100] := by
    decide +kernel
  have heq : b ∈ [100] := hone ▸ hb
  exact absurd hlt (not_lt.mpr (List.mem_singleton.mp heq).le)

end Arcxa.Ha
