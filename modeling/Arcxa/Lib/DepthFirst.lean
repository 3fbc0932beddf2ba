import Mathlib.Tactic

/-!
# Cycles by depth-first search

A search that marks what it has visited and what is on its way, over a graph given by the successors
of each node. `detectCycle_spec`: it finds a cycle exactly when there is one. The nodes that it has
left are accessible, which is the invariant.
-/

namespace Arcxa

open Relation

variable {K : Type} [DecidableEq K]

structure Search (K : Type) where
  visited : List K
  recStack : List K

namespace Search

/-- One successor, once `found` is settled or by `rec` where it is new. -/
def visitSuccessor (rec : K → Search K → Option (Bool × Search K)) (state : Bool × Search K)
    (next : K) : Option (Bool × Search K) :=
  if state.1 then some state
  else if next ∉ state.2.visited then rec next state.2
  else some (decide (next ∈ state.2.recStack), state.2)

/-- `none`: the fuel is at its end. -/
def hasCycle (successors : K → List K) : Nat → K → Search K → Option (Bool × Search K)
  | 0, _, _ => none
  | fuel + 1, node, s =>
    ((successors node).foldlM (visitSuccessor (hasCycle successors fuel))
      (false, ⟨node :: s.visited, node :: s.recStack⟩)).map fun result =>
        if result.1 then result
        else (false, { result.2 with recStack := result.2.recStack.filter (· ≠ node) })

def visitNode (successors : K → List K) (fuel : Nat) (state : Option K × Search K) (node : K) :
    Option (Option K × Search K) :=
  if state.1.isSome then some state
  else if node ∉ state.2.visited then
    (hasCycle successors fuel node state.2).map fun result =>
      (if result.1 then some node else none, result.2)
  else some state

def detectCycle (successors : K → List K) (nodes : List K) : Option (Option K) :=
  (nodes.foldlM (visitNode successors nodes.length) (none, ⟨[], []⟩)).map Prod.fst

/-! ## What is found -/

/-- `next` is a successor of `node`. -/
def Edge (successors : K → List K) (next node : K) : Prop := next ∈ successors node

/-- Nodes that were left have no infinite way from them. -/
structure Explored (successors : K → List K) (s : Search K) : Prop where
  stacked : ∀ node ∈ s.recStack, node ∈ s.visited
  left : ∀ node ∈ s.visited, node ∉ s.recStack → Acc (Edge successors) node

/-- What a search that finds nothing keeps. -/
structure Extends (s s' : Search K) : Prop where
  visited : s.visited ⊆ s'.visited
  recStack : ∀ node, node ∈ s'.recStack ↔ node ∈ s.recStack

omit [DecidableEq K] in
theorem Extends.refl (s : Search K) : Extends s s := ⟨fun _ h => h, fun _ => .rfl⟩

omit [DecidableEq K] in
theorem Extends.trans {s s' s'' : Search K} (h : Extends s s') (h' : Extends s' s'') :
    Extends s s'' :=
  ⟨fun _ hmem => h'.visited (h.visited hmem),
    fun node => (h'.recStack node).trans (h.recStack node)⟩

def Spec (successors : K → List K) (node : K) (s : Search K) (result : Bool × Search K) : Prop :=
  if result.1 then ∃ x, TransGen (Edge successors) x x
  else Explored successors result.2 ∧ Extends s result.2 ∧ node ∈ result.2.visited

variable {successors : K → List K} {fuel : Nat} {node : K} {s : Search K}
variable {rec : K → Search K → Option (Bool × Search K)}

theorem foldlM_found (nodes : List K) (s : Search K) :
    nodes.foldlM (visitSuccessor rec) (true, s) = some (true, s) := by
  induction nodes with
  | nil => rfl
  | cons next nodes ih => exact ih

variable {nodes : List K}

theorem foldlM_visitSuccessor {result : Bool × Search K}
    (hrec : ∀ next s result, rec next s = some result → Explored successors s →
      next ∉ s.visited → (∀ x ∈ s.recStack, TransGen (Edge successors) next x) →
        Spec successors next s result) (hnodes : ∀ next ∈ nodes, next ∈ successors node)
    (hs : Explored successors s)
    (hpath : ∀ x ∈ s.recStack, x = node ∨ TransGen (Edge successors) node x)
    (h : nodes.foldlM (visitSuccessor rec) (false, s) = some result) :
    if result.1 then ∃ x, TransGen (Edge successors) x x
    else Explored successors result.2 ∧ Extends s result.2 ∧
      ∀ next ∈ nodes, Acc (Edge successors) next := by
  induction nodes generalizing s with
  | nil =>
    cases h
    exact ⟨hs, .refl _, fun _ hmem => absurd hmem List.not_mem_nil⟩
  | cons next nodes ih =>
    obtain ⟨hnext, hrest⟩ := List.forall_mem_cons.mp hnodes
    rw [List.foldlM_cons] at h
    obtain ⟨⟨found, s'⟩, hstep, h⟩ := Option.bind_eq_some_iff.mp h
    have hedge : ∀ x ∈ s.recStack, TransGen (Edge successors) next x := by
      intro x hx
      obtain rfl | hway := hpath x hx
      · exact .single hnext
      · exact .head hnext hway
    -- the step finds a cycle, or it leaves the successor behind
    have hspec : if found then ∃ x, TransGen (Edge successors) x x
        else Explored successors s' ∧ Extends s s' ∧ Acc (Edge successors) next := by
      rw [visitSuccessor, if_neg Bool.false_ne_true] at hstep
      by_cases hvisited : next ∈ s.visited
      · rw [if_neg (not_not_intro hvisited)] at hstep
        cases hstep
        by_cases hstack : next ∈ s.recStack
        · rw [decide_eq_true hstack, if_pos rfl]
          exact ⟨next, hedge next hstack⟩
        · rw [decide_eq_false hstack, if_neg Bool.false_ne_true]
          exact ⟨hs, .refl s, hs.left next hvisited hstack⟩
      · rw [if_pos hvisited] at hstep
        have hspec := hrec next s (found, s') hstep hs hvisited hedge
        rw [Spec] at hspec
        cases found with
        | true => exact hspec
        | false =>
          obtain ⟨hexplored, hextends, hmem⟩ := hspec
          refine ⟨hexplored, hextends, hexplored.left next hmem fun hstack => hvisited ?_⟩
          exact hs.stacked next ((hextends.recStack next).mp hstack)
    cases found with
    | true =>
      rw [foldlM_found] at h
      cases h
      exact hspec
    | false =>
      obtain ⟨hexplored, hextends, hacc⟩ := hspec
      have hfinal := ih hrest hexplored (fun x hx => hpath x ((hextends.recStack x).mp hx)) h
      cases hresult : result.1 with
      | true => rwa [hresult] at hfinal
      | false =>
        rw [hresult] at hfinal
        obtain ⟨hexplored', hextends', haccs⟩ := hfinal
        exact ⟨hexplored', hextends.trans hextends', List.forall_mem_cons.mpr ⟨hacc, haccs⟩⟩

theorem hasCycle_spec {result : Bool × Search K}
    (h : hasCycle successors fuel node s = some result) (hs : Explored successors s)
    (hnode : node ∉ s.visited) (hpath : ∀ x ∈ s.recStack, TransGen (Edge successors) node x) :
    Spec successors node s result := by
  induction fuel generalizing node s result with
  | zero => exact nomatch h
  | succ fuel ih =>
    rw [hasCycle] at h
    obtain ⟨inner, hfold, rfl⟩ := Option.map_eq_some_iff.mp h
    have hstarted : Explored successors ⟨node :: s.visited, node :: s.recStack⟩ := by
      constructor
      · intro x hx
        exact (List.mem_cons.mp hx).elim (fun heq => heq ▸ List.mem_cons_self ..)
          fun hx => List.mem_cons_of_mem _ (hs.stacked x hx)
      · intro x hx hnot
        rw [List.mem_cons, not_or] at hnot
        exact hs.left x ((List.mem_cons.mp hx).resolve_left hnot.1) hnot.2
    have hinner := foldlM_visitSuccessor (fun next s result h hs hnext hpath => ih h hs hnext hpath)
      (fun _ hmem => hmem) hstarted
      (fun x hx => (List.mem_cons.mp hx).imp_right (hpath x)) hfold
    rw [Spec]
    cases hfound : inner.1 with
    | true =>
      rw [hfound] at hinner
      rw [if_pos rfl, hfound]
      exact hinner
    | false =>
      rw [hfound] at hinner
      obtain ⟨hexplored, hextends, haccs⟩ := hinner
      rw [if_neg Bool.false_ne_true, if_neg Bool.false_ne_true]
      have hstack : node ∉ s.recStack := fun hmem => hnode (hs.stacked node hmem)
      have hvisited : node ∈ inner.2.visited := hextends.visited (List.mem_cons_self ..)
      refine ⟨⟨?_, ?_⟩, ⟨?_, ?_⟩, hvisited⟩
      · intro x hx
        exact hexplored.stacked x (List.mem_filter.mp hx).1
      · intro x hx hnot
        by_cases heq : x = node
        · exact heq ▸ ⟨_, fun next hnext => haccs next hnext⟩
        · refine hexplored.left x hx fun hmem => hnot ?_
          exact List.mem_filter.mpr ⟨hmem, decide_eq_true heq⟩
      · exact fun x hx => hextends.visited (List.mem_cons_of_mem _ hx)
      · intro x
        rw [List.mem_filter, hextends.recStack, List.mem_cons, decide_eq_true_iff]
        constructor
        · rintro ⟨heq | hmem, hne⟩
          · exact absurd heq hne
          · exact hmem
        · intro hmem
          exact ⟨.inr hmem, fun heq => hstack (heq ▸ hmem)⟩

/-! ## The search ends -/

omit [DecidableEq K] in
theorem foldlM_isSome {α β : Type} {f : β → α → Option β} {P : β → Prop} {l : List α} {b : β}
    (hb : P b) (h : ∀ b, ∀ a ∈ l, P b → ∃ b', f b a = some b' ∧ P b') :
    ∃ b', l.foldlM f b = some b' ∧ P b' := by
  induction l generalizing b with
  | nil => exact ⟨b, rfl, hb⟩
  | cons a l ih =>
    obtain ⟨b', hstep, hb'⟩ := h b a (List.mem_cons_self ..) hb
    obtain ⟨b'', hfold, hb''⟩ := ih hb' fun b a ha => h b a (List.mem_cons_of_mem _ ha)
    exact ⟨b'', by rw [List.foldlM_cons, hstep]; exact hfold, hb''⟩

def unvisited (nodes : List K) (s : Search K) : Nat := (nodes.filter (· ∉ s.visited)).length

theorem unvisited_mono {s s' : Search K} (h : s.visited ⊆ s'.visited) :
    unvisited nodes s' ≤ unvisited nodes s :=
  List.Sublist.length_le (List.monotone_filter_right _ fun node hnode => by
    simp only [decide_eq_true_eq] at hnode ⊢
    exact fun hmem => hnode (h hmem))

theorem unvisited_lt (hmem : node ∈ nodes) (hnode : node ∉ s.visited) {recStack : List K} :
    unvisited nodes ⟨node :: s.visited, recStack⟩ < unvisited nodes s := by
  have hfilter : nodes.filter (· ∉ node :: s.visited) =
      (nodes.filter (· ∉ s.visited)).filter (· ≠ node) := by
    rw [List.filter_filter]
    refine List.filter_congr fun x _ => ?_
    simp [List.mem_cons, not_or]
  rw [unvisited, unvisited, hfilter, List.length_filter_lt_length_iff_exists]
  exact ⟨node, List.mem_filter.mpr ⟨hmem, decide_eq_true hnode⟩, by simp⟩

/-- **With fuel for every node** that is not visited, a search comes to an end, and forgets
nothing. -/
theorem hasCycle_isSome (hnodes : ∀ node, ∀ next ∈ successors node, next ∈ nodes)
    (hmem : node ∈ nodes) (hnode : node ∉ s.visited) (hfuel : unvisited nodes s ≤ fuel) :
    ∃ result, hasCycle successors fuel node s = some result ∧ s.visited ⊆ result.2.visited := by
  induction fuel generalizing node s with
  | zero =>
    have hlt : unvisited nodes ⟨node :: s.visited, []⟩ < unvisited nodes s :=
      unvisited_lt hmem hnode
    omega
  | succ fuel ih =>
    have hstart : unvisited nodes ⟨node :: s.visited, node :: s.recStack⟩ ≤ fuel :=
      Nat.le_of_lt_succ (Nat.lt_of_lt_of_le (unvisited_lt hmem hnode) hfuel)
    obtain ⟨inner, hfold, hvisited⟩ := foldlM_isSome
      (P := fun state : Bool × Search K => node :: s.visited ⊆ state.2.visited)
      (f := visitSuccessor (hasCycle successors fuel)) (l := successors node)
      (b := (false, ⟨node :: s.visited, node :: s.recStack⟩)) (List.Subset.refl _)
      (fun state next hnext hstate => by
        rw [visitSuccessor]
        by_cases hfound : state.1 = true
        · exact ⟨state, if_pos hfound, hstate⟩
        · rw [if_neg hfound]
          by_cases hvisited : next ∈ state.2.visited
          · exact ⟨_, if_neg (not_not_intro hvisited), hstate⟩
          · rw [if_pos hvisited]
            obtain ⟨result, hresult, hgrows⟩ := ih (hnodes node next hnext) hvisited
              (Nat.le_trans (unvisited_mono hstate) hstart)
            exact ⟨result, hresult, List.Subset.trans hstate hgrows⟩)
    refine ⟨_, by rw [hasCycle, hfold]; rfl, ?_⟩
    dsimp only
    split_ifs
    · exact fun x hx => hvisited (List.mem_cons_of_mem _ hx)
    · exact fun x hx => hvisited (List.mem_cons_of_mem _ hx)

theorem hasCycle_congr {successors' : K → List K} {P : K → Prop}
    (hP : ∀ x, P x → successors' x = successors x ∧ ∀ next ∈ successors x, P next) (hnode : P node) :
    hasCycle successors' fuel node s = hasCycle successors fuel node s := by
  induction fuel generalizing node s with
  | zero => rfl
  | succ fuel ih =>
    have hfold : ∀ (l : List K) (state : Bool × Search K), (∀ next ∈ l, P next) →
        l.foldlM (visitSuccessor (hasCycle successors' fuel)) state =
          l.foldlM (visitSuccessor (hasCycle successors fuel)) state := by
      intro l
      induction l with
      | nil => exact fun _ _ => rfl
      | cons next l ihl =>
        intro state hl
        obtain ⟨hnext, hl⟩ := List.forall_mem_cons.mp hl
        rw [List.foldlM_cons, List.foldlM_cons, visitSuccessor, visitSuccessor, ih hnext]
        exact congrArg _ (funext fun state => ihl state hl)
    rw [hasCycle, hasCycle, (hP node hnode).1, hfold _ _ (hP node hnode).2]

omit [DecidableEq K] in
theorem not_transGen_of_acc {r : K → K → Prop} {x : K} (h : Acc r x) : ¬ TransGen r x x := by
  have hway := h.transGen
  clear h
  induction hway with
  | intro x _ ih => exact fun hcycle => ih x hcycle hcycle

/-- **A search from one node finds a cycle** exactly when it can get to one. -/
theorem hasCycle_iff {found : Bool}
    (h : hasCycle successors fuel node ⟨[], []⟩ = some (found, s)) :
    found = true ↔ ∃ x, ReflTransGen (Edge successors) x node ∧ TransGen (Edge successors) x x := by
  classical
  -- the graph of the nodes that can be got to
  let near : K → List K := fun x =>
    if ReflTransGen (Edge successors) x node then successors x else []
  have hnear : ∀ {next x}, Edge near next x →
      Edge successors next x ∧ ReflTransGen (Edge successors) x node := by
    intro next x hedge
    by_cases hx : ReflTransGen (Edge successors) x node
    · rw [Edge, show near x = successors x from if_pos hx] at hedge
      exact ⟨hedge, hx⟩
    · rw [Edge, show near x = [] from if_neg hx] at hedge
      exact absurd hedge List.not_mem_nil
  have hwithin : ∀ {next x}, ReflTransGen (Edge successors) x node → Edge successors next x →
      Edge near next x := by
    intro next x hx hedge
    rwa [Edge, show near x = successors x from if_pos hx]
  have hsearch : hasCycle near fuel node ⟨[], []⟩ = some (found, s) := by
    rw [← h]
    exact hasCycle_congr (P := fun x => ReflTransGen (Edge successors) x node)
      (fun x hx => ⟨if_pos hx, fun next hnext => .head hnext hx⟩) .refl
  have hempty : ∀ x, x ∉ ([] : List K) := fun x => List.not_mem_nil
  have hspec := hasCycle_spec hsearch ⟨fun x hx => absurd hx (hempty x), fun x hx => absurd hx (hempty x)⟩
    (hempty node) (fun x hx => absurd hx (hempty x))
  rw [Spec] at hspec
  cases found with
  | true =>
    obtain ⟨x, hcycle⟩ := hspec
    obtain ⟨y, -, hedge⟩ := TransGen.tail'_iff.mp hcycle
    exact iff_of_true rfl
      ⟨x, (hnear hedge).2, TransGen.mono (fun _ _ hedge => (hnear hedge).1) x x hcycle⟩
  | false =>
    obtain ⟨hexplored, hextends, hmem⟩ := hspec
    refine iff_of_false Bool.false_ne_true ?_
    rintro ⟨x, hway, hcycle⟩
    have hacc : Acc (Edge near) node :=
      hexplored.left node hmem fun hstack => hempty node ((hextends.recStack node).mp hstack)
    have hkept : ∀ {y z}, TransGen (Edge successors) y z →
        ReflTransGen (Edge successors) z node → TransGen (Edge near) y z := by
      intro y z hyz
      induction hyz with
      | single hedge => exact fun hz => .single (hwithin hz hedge)
      | tail _ hedge ih => exact fun hz => (ih (.head hedge hz)).tail (hwithin hz hedge)
    have haccx : Acc (Edge near) x := by
      obtain heq | hway' := reflTransGen_iff_eq_or_transGen.mp hway
      · exact heq ▸ hacc
      · exact hacc.inv_of_transGen (hkept hway' .refl)
    exact not_transGen_of_acc haccx (hkept hcycle hway)

/-! ## All nodes -/

theorem foldlM_visitNode_found (nodes : List K) (start : K) (s : Search K) :
    nodes.foldlM (visitNode successors fuel) (some start, s) = some (some start, s) := by
  induction nodes with
  | nil => rfl
  | cons node nodes ih => exact ih

theorem foldlM_visitNode {nodes rest : List K}
    (hnodes : ∀ node, ∀ next ∈ successors node, next ∈ nodes) (hrest : rest ⊆ nodes)
    (hfuel : nodes.length ≤ fuel) (hs : Explored successors s) (hstack : s.recStack = []) :
    ∃ result, rest.foldlM (visitNode successors fuel) (none, s) = some result ∧
      if result.1.isSome then ∃ x, TransGen (Edge successors) x x
      else ∀ node ∈ rest, Acc (Edge successors) node := by
  induction rest generalizing s with
  | nil => exact ⟨_, rfl, fun _ hmem => absurd hmem List.not_mem_nil⟩
  | cons node rest ih =>
    obtain ⟨hmem, hrest⟩ := List.cons_subset.mp hrest
    rw [List.foldlM_cons, visitNode]
    simp only [Option.isSome_none, Bool.false_eq_true, if_false]
    by_cases hvisited : node ∈ s.visited
    · rw [if_neg (not_not_intro hvisited)]
      have hacc : Acc (Edge successors) node :=
        hs.left node hvisited (hstack ▸ List.not_mem_nil)
      obtain ⟨result, hfold, hresult⟩ := ih hrest hs hstack
      refine ⟨result, hfold, ?_⟩
      split_ifs at hresult ⊢
      · exact hresult
      · exact List.forall_mem_cons.mpr ⟨hacc, hresult⟩
    · rw [if_pos hvisited]
      obtain ⟨⟨found, s'⟩, hcycle, -⟩ := hasCycle_isSome hnodes hmem hvisited
        (Nat.le_trans (List.length_filter_le ..) hfuel)
      have hspec := hasCycle_spec hcycle hs hvisited
        (hstack ▸ fun x hx => absurd hx List.not_mem_nil)
      rw [hcycle]
      rw [Spec] at hspec
      cases found with
      | true => exact ⟨(some node, s'), foldlM_visitNode_found rest node s', hspec⟩
      | false =>
        obtain ⟨hexplored, hextends, hleft⟩ := hspec
        have hstack' : s'.recStack = [] := by
          refine List.eq_nil_iff_forall_not_mem.mpr fun x hx => ?_
          have hmem := (hextends.recStack x).mp hx
          rw [hstack] at hmem
          exact List.not_mem_nil hmem
        have hacc : Acc (Edge successors) node :=
          hexplored.left node hleft (hstack' ▸ List.not_mem_nil)
        obtain ⟨result, hfold, hresult⟩ := ih hrest hexplored hstack'
        refine ⟨result, hfold, ?_⟩
        split_ifs at hresult ⊢
        · exact hresult
        · exact List.forall_mem_cons.mpr ⟨hacc, hresult⟩

/-- **A cycle is found exactly when there is one**; where none is found every node is accessible. -/
theorem detectCycle_spec (hnodes : ∀ node, ∀ next ∈ successors node, next ∈ nodes) :
    ∃ start, detectCycle successors nodes = some start ∧
      (start.isSome = true ↔ ∃ x, TransGen (Edge successors) x x) ∧
      (start = none → ∀ node ∈ nodes, Acc (Edge successors) node) := by
  have hempty : Explored successors (⟨[], []⟩ : Search K) :=
    ⟨fun _ hx => absurd hx List.not_mem_nil, fun _ hx => absurd hx List.not_mem_nil⟩
  obtain ⟨result, hfold, hresult⟩ := foldlM_visitNode hnodes (List.Subset.refl nodes)
    (Nat.le_refl _) hempty rfl
  refine ⟨result.1, by rw [detectCycle, hfold]; rfl, ?_⟩
  cases hfound : result.1 with
  | some start =>
    rw [hfound] at hresult
    exact ⟨iff_of_true rfl hresult, nofun⟩
  | none =>
    rw [hfound] at hresult
    refine ⟨iff_of_false Bool.false_ne_true ?_, fun _ => hresult⟩
    rintro ⟨x, hcycle⟩
    obtain ⟨next, hedge, -⟩ := TransGen.head'_iff.mp hcycle
    exact not_transGen_of_acc (hresult x (hnodes next x hedge)) hcycle

end Search

end Arcxa
