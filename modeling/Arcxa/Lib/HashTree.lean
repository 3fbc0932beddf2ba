import Mathlib.Tactic
import Mathlib.Data.Set.Function

/-!
# Perfect binary hash trees

The nodes of a perfect binary tree over leaves `leaf 0, leaf 1, …` are given by level and
index, level `0` being the leaves; an inner node is `pair` of its two children. An
inclusion path climbs from a value through a list of siblings, the bits of the index
telling the sides.

`pair` is not assumed injective everywhere, which no function into a finite type is. A set
`S` of pairs stands for the inputs on which it is: a tree is covered by `S` when all its
sibling pairs are in it. Two facts carry everything else: a covered path that ends in the
root of a covered tree started in the node at the height it climbed from
(`climb_eq_node`), and two covered trees with one root agree level by level
(`node_eq_node_of_root`).
-/

namespace Arcxa.HashTree

variable {H : Type} (pair : H → H → H)

def node (leaf : Nat → H) : Nat → Nat → H
  | 0, i => leaf i
  | k + 1, i => pair (node leaf k (2 * i)) (node leaf k (2 * i + 1))

/-- The pair in which `x` stands at index `i` beside its sibling. -/
def sides (x : H) (i : Nat) (sibling : H) : H × H :=
  if i % 2 = 0 then (x, sibling) else (sibling, x)

/-- Climb from `x` at index `i` through a list of siblings. -/
def climb : H → Nat → List H → H
  | x, _, [] => x
  | x, i, s :: ss => climb (pair (sides x i s).1 (sides x i s).2) (i / 2) ss

def climbPairs : H → Nat → List H → List (H × H)
  | _, _, [] => []
  | x, i, s :: ss => sides x i s :: climbPairs (pair (sides x i s).1 (sides x i s).2) (i / 2) ss

/-- All sibling pairs of the tree of height `K` are in `S`. -/
def Covers (S : Set (H × H)) (leaf : Nat → H) (K : Nat) : Prop :=
  ∀ l c, l < K → c < 2 ^ (K - 1 - l) → (node pair leaf l (2 * c), node pair leaf l (2 * c + 1)) ∈ S

variable {pair}

theorem climb_append (x : H) (i : Nat) (ss ts : List H) :
    climb pair x i (ss ++ ts) = climb pair (climb pair x i ss) (i / 2 ^ ss.length) ts := by
  induction ss generalizing x i with
  | nil => simp [climb]
  | cons s ss ih =>
    rw [List.cons_append, climb, ih, climb, List.length_cons, Nat.div_div_eq_div_mul,
      ← pow_succ']

theorem climbPairs_append (x : H) (i : Nat) (ss ts : List H) :
    climbPairs pair x i (ss ++ ts) =
      climbPairs pair x i ss ++ climbPairs pair (climb pair x i ss) (i / 2 ^ ss.length) ts := by
  induction ss generalizing x i with
  | nil => simp [climb, climbPairs]
  | cons s ss ih =>
    rw [List.cons_append, climbPairs, ih, climbPairs, climb, List.length_cons,
      Nat.div_div_eq_div_mul, ← pow_succ', List.cons_append]

theorem sides_inj {x s a b : H} {i : Nat} (h : sides x i s = (a, b)) :
    x = if i % 2 = 0 then a else b := by
  unfold sides at h
  split_ifs at h ⊢
  · exact (Prod.mk.inj h).1
  · exact (Prod.mk.inj h).2

theorem climb_inj {S : Set (H × H)} (hinj : Set.InjOn (Function.uncurry pair) S) {x y : H}
    {i : Nat} {ss : List H} (hx : ∀ p ∈ climbPairs pair x i ss, p ∈ S)
    (hy : ∀ p ∈ climbPairs pair y i ss, p ∈ S) (h : climb pair x i ss = climb pair y i ss) :
    x = y := by
  induction ss generalizing x y i with
  | nil => exact h
  | cons s ss ih =>
    have hstep := ih (fun p hp => hx p (List.mem_cons_of_mem _ hp))
      (fun p hp => hy p (List.mem_cons_of_mem _ hp)) h
    have hsides : sides x i s = sides y i s :=
      hinj (hx _ (List.mem_cons_self ..)) (hy _ (List.mem_cons_self ..)) hstep
    have hx' : sides x i s = ((sides y i s).1, (sides y i s).2) := hsides
    rw [sides_inj hx']
    exact (sides_inj (x := y) (s := s) (i := i) rfl).symm

section Path

variable {S : Set (H × H)} {leaf : Nat → H}

/-- **A path that ends in the root started in the tree.** The node it started in is the one
at the height that is left, with the low bits of the index. -/
theorem climb_eq_node (hinj : Set.InjOn (Function.uncurry pair) S) {x : H} {i k : Nat}
    {ss : List H} (htree : Covers pair S leaf (k + ss.length))
    (hpath : ∀ p ∈ climbPairs pair x i ss, p ∈ S)
    (h : climb pair x i ss = node pair leaf (k + ss.length) 0) :
    x = node pair leaf k (i % 2 ^ ss.length) := by
  -- from the bottom up: the rest of the path starts one level higher, at half the index
  induction ss generalizing x i k with
  | nil =>
    rw [List.length_nil, pow_zero, Nat.mod_one]
    exact h
  | cons s ss ih =>
    have hlevel : k + (s :: ss).length = k + 1 + ss.length := by
      rw [List.length_cons]; omega
    rw [hlevel] at htree h
    have hparent := ih htree (fun p hp => hpath p (List.mem_cons_of_mem _ hp)) h
    have hlt : i / 2 % 2 ^ ss.length < 2 ^ ss.length := Nat.mod_lt _ (by positivity)
    have hmem := htree k (i / 2 % 2 ^ ss.length) (by omega)
      (by rw [show k + 1 + ss.length - 1 - k = ss.length by omega]; exact hlt)
    have hsides := hinj (hpath _ (List.mem_cons_self ..)) hmem hparent
    rw [sides_inj hsides, List.length_cons]
    -- the index of the child is twice that of the parent, plus the low bit
    have hidx : i % 2 ^ (ss.length + 1) = 2 * (i / 2 % 2 ^ ss.length) + i % 2 := by
      rw [pow_succ', Nat.mod_mul]; omega
    rcases Nat.mod_two_eq_zero_or_one i with heven | hodd
    · rw [if_pos heven, hidx, heven, Nat.add_zero]
    · rw [if_neg (by omega), hidx, hodd]

def siblings (pair : H → H → H) (leaf : Nat → H) : Nat → Nat → Nat → List H
  | _, _, 0 => []
  | k, i, m + 1 =>
    node pair leaf k (if i % 2 = 0 then i + 1 else i - 1) :: siblings pair leaf (k + 1) (i / 2) m

theorem climb_siblings (k i m : Nat) :
    climb pair (node pair leaf k i) i (siblings pair leaf k i m) =
      node pair leaf (k + m) (i / 2 ^ m) := by
  induction m generalizing k i with
  | zero => simp [siblings, climb]
  | succ m ih =>
    have hpair : pair (sides (node pair leaf k i) i
          (node pair leaf k (if i % 2 = 0 then i + 1 else i - 1))).1
        (sides (node pair leaf k i) i
          (node pair leaf k (if i % 2 = 0 then i + 1 else i - 1))).2 =
        node pair leaf (k + 1) (i / 2) := by
      rw [node]
      rcases Nat.mod_two_eq_zero_or_one i with heven | hodd
      · rw [sides, if_pos heven, if_pos heven, show 2 * (i / 2) = i by omega]
      · rw [sides, if_neg (by omega), if_neg (by omega), show 2 * (i / 2) = i - 1 by omega,
          show i - 1 + 1 = i by omega]
    rw [siblings, climb, hpair, ih, Nat.div_div_eq_div_mul, ← pow_succ',
      show k + 1 + m = k + (m + 1) by omega]

end Path

/-- **One root, one tree.** A tree of height `k` and one that is `d` higher, with the same
root, agree from the root down: level `l` of the first is level `l + d` of the second. -/
theorem node_eq_node_of_root {S : Set (H × H)} (hinj : Set.InjOn (Function.uncurry pair) S)
    {f g : Nat → H} {k d : Nat} (hf : Covers pair S f k) (hg : Covers pair S g (k + d))
    (hroot : node pair f k 0 = node pair g (k + d) 0) :
    ∀ t, t ≤ k → ∀ c < 2 ^ t, node pair f (k - t) c = node pair g (k + d - t) c := by
  intro t
  -- on the depth below the root
  induction t with
  | zero =>
    intro _ c hc
    rw [show c = 0 by omega]
    exact hroot
  | succ t ih =>
    intro ht c hc
    have hparent := ih (by omega) (c / 2) (by rw [pow_succ'] at hc; omega)
    have hlow : k - t = k - (t + 1) + 1 := by omega
    have hhigh : k + d - t = k + d - (t + 1) + 1 := by omega
    rw [hlow, hhigh, node, node] at hparent
    have hc2 : c / 2 < 2 ^ t := by rw [pow_succ'] at hc; omega
    have hmf := hf (k - (t + 1)) (c / 2) (by omega)
      (by rw [show k - 1 - (k - (t + 1)) = t by omega]; exact hc2)
    have hmg := hg (k + d - (t + 1)) (c / 2) (by omega)
      (by rw [show k + d - 1 - (k + d - (t + 1)) = t by omega]; exact hc2)
    have hchildren := Prod.mk.inj (hinj hmf hmg hparent)
    rcases Nat.mod_two_eq_zero_or_one c with heven | hodd
    · rw [show c = 2 * (c / 2) by omega]
      exact hchildren.1
    · rw [show c = 2 * (c / 2) + 1 by omega]
      exact hchildren.2

end Arcxa.HashTree
