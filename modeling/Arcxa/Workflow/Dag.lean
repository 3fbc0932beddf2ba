import Arcxa.Lib.BTreeMap
import Arcxa.Lib.Topological

/-!
# Workflow scheduling

`DagExecutor` builds the graph of a workflow's steps and reads two schedules off it: one order, and
batches whose steps can run in parallel. It is built exactly for the workflows without unknown
dependencies and without cycles, and both schedules put every step after its dependencies
(`fromWorkflow_schedules`). The sort of the graph library is a parameter; the levels come from one
pass over its order.
-/

namespace Arcxa.Workflow

open Relation

variable {Body : Type}

/-- `body` is what the step does, its type and its configuration. -/
structure WorkflowStep (Body : Type) where
  id : String
  body : Body
  dependsOn : List String
  deriving DecidableEq

structure WorkflowDefinition (Body : Type) where
  steps : List (WorkflowStep Body)

namespace WorkflowDefinition

variable (workflow : WorkflowDefinition Body)

def ids : List String := workflow.steps.map WorkflowStep.id

/-- The step named `id` depends on `dep`. -/
def DependsOn (dep id : String) : Prop :=
  ∃ step ∈ workflow.steps, step.id = id ∧ dep ∈ step.dependsOn

def DependenciesKnown : Prop := ∀ step ∈ workflow.steps, ∀ dep ∈ step.dependsOn, dep ∈ workflow.ids

def Acyclic : Prop := ∀ id, ¬ TransGen workflow.DependsOn id id

/-- All steps, each after its dependencies. -/
structure Schedules (order : List (WorkflowStep Body)) : Prop where
  perm : order.Perm workflow.steps
  predsFirst : PredsFirst workflow.DependsOn (order.map WorkflowStep.id)

end WorkflowDefinition

/-! ## The graph library -/

structure DiGraph (N : Type) where
  nodes : List N
  edges : List (Nat × Nat)

namespace DiGraph

variable {N : Type}

def empty : DiGraph N := ⟨[], []⟩

def addNode (g : DiGraph N) (weight : N) : DiGraph N × Nat :=
  ({ g with nodes := g.nodes ++ [weight] }, g.nodes.length)

def addEdge (g : DiGraph N) (a b : Nat) : DiGraph N := { g with edges := g.edges ++ [(a, b)] }

def incoming (g : DiGraph N) (i : Nat) : List Nat :=
  ((g.edges.filter (·.2 = i)).map Prod.fst).reverse

def Edge (g : DiGraph N) (a b : Nat) : Prop := (a, b) ∈ g.edges

def Valid (g : DiGraph N) : Prop := ∀ a b, g.Edge a b → a < g.nodes.length ∧ b < g.nodes.length

def Acyclic (g : DiGraph N) : Prop := ∀ i, ¬ TransGen g.Edge i i

theorem mem_incoming {g : DiGraph N} {a b : Nat} : g.Edge a b ↔ a ∈ g.incoming b := by
  simp [Edge, incoming]

end DiGraph

/-- The algorithms that the executor calls. -/
structure Petgraph where
  isCyclicDirected : DiGraph String → Bool
  toposort : DiGraph String → Option (List Nat)

structure Petgraph.Correct (petgraph : Petgraph) : Prop where
  isCyclicDirected : ∀ g : DiGraph String, g.Valid →
    (petgraph.isCyclicDirected g = true ↔ ∃ i, TransGen g.Edge i i)
  toposort : ∀ g : DiGraph String, g.Valid → g.Acyclic →
    ∃ order, petgraph.toposort g = some order ∧ order.Perm (List.range g.nodes.length) ∧
      PredsFirst g.Edge order

/-! ## The executor -/

structure DagExecutor (Body : Type) where
  graph : DiGraph String
  stepIndex : BTreeMap String Nat
  indexStep : BTreeMap Nat (WorkflowStep Body)

namespace DagExecutor

def new : DagExecutor Body := ⟨.empty, .empty, .empty⟩

def addStep (dag : DagExecutor Body) (step : WorkflowStep Body) : DagExecutor Body :=
  let (graph, idx) := dag.graph.addNode step.id
  ⟨graph, dag.stepIndex.insert step.id idx, dag.indexStep.insert idx step⟩

def addDependency (stepIndex : BTreeMap String Nat) (stepId : String) (stepIdx : Nat)
    (graph : DiGraph String) (depId : String) : Except String (DiGraph String) :=
  match stepIndex.get depId with
  | some depIdx => .ok (graph.addEdge depIdx stepIdx)
  | none => .error ("Step '" ++ stepId ++ "' depends on unknown step '" ++ depId ++ "'")

/-- `none`: a step has no index, and looking it up panics. -/
def addDependencies (stepIndex : BTreeMap String Nat) :
    List (WorkflowStep Body) → DiGraph String → Option (Except String (DiGraph String))
  | [], graph => some (.ok graph)
  | step :: rest, graph =>
    (stepIndex.get step.id).bind fun stepIdx =>
      match step.dependsOn.foldlM (addDependency stepIndex step.id stepIdx) graph with
      | .error e => some (.error e)
      | .ok graph => addDependencies stepIndex rest graph

variable (petgraph : Petgraph)

def fromWorkflow (workflow : WorkflowDefinition Body) :
    Option (Except String (DagExecutor Body)) :=
  let dag := workflow.steps.foldl addStep new
  (addDependencies dag.stepIndex workflow.steps dag.graph).map fun built =>
    built.bind fun graph =>
      if petgraph.isCyclicDirected graph then .error "Workflow contains cyclic dependencies"
      else .ok { dag with graph }

def executionOrder (dag : DagExecutor Body) : Option (Except String (List (WorkflowStep Body))) :=
  match petgraph.toposort dag.graph with
  | none => some (.error "Failed to compute topological order")
  | some sorted => (sorted.mapM dag.indexStep.get).map .ok

/-- What the pass over the sorted nodes has so far. -/
structure Pass (Body : Type) where
  visited : BTreeMap Nat Nat
  batches : List (List (WorkflowStep Body))

def placeNode (dag : DagExecutor Body) (pass : Pass Body) (nodeIdx : Nat) : Option (Pass Body) :=
  let level := levelOf pass.visited.get (dag.graph.incoming nodeIdx)
  (dag.indexStep.get nodeIdx).map fun step =>
    ⟨pass.visited.insert nodeIdx level, addToBatch pass.batches level step⟩

def parallelBatches (dag : DagExecutor Body) :
    Option (Except String (List (List (WorkflowStep Body)))) :=
  match petgraph.toposort dag.graph with
  | none => some (.error "Failed to compute topological order")
  | some sorted => (sorted.foldlM dag.placeNode ⟨.empty, []⟩).map fun pass => .ok pass.batches

/-! ## Steps and their nodes -/

/-- The nodes are the steps, in their order. -/
structure Indexed (dag : DagExecutor Body) (steps : List (WorkflowStep Body)) : Prop where
  nodes : dag.graph.nodes = steps.map WorkflowStep.id
  edges : dag.graph.edges = []
  stepIndex : ∀ id i, dag.stepIndex.get id = some i ↔ (steps.map WorkflowStep.id)[i]? = some id
  indexStep : ∀ i, dag.indexStep.get i = steps[i]?

theorem indexed_new : (new : DagExecutor Body).Indexed [] where
  nodes := rfl
  edges := rfl
  stepIndex id i := by simp [new]
  indexStep i := by simp [new]

variable {steps : List (WorkflowStep Body)}

theorem Indexed.addStep {dag : DagExecutor Body}
    {step : WorkflowStep Body} (h : dag.Indexed steps)
    (hnew : step.id ∉ steps.map WorkflowStep.id) : (dag.addStep step).Indexed (steps ++ [step]) := by
  have hlength : dag.graph.nodes.length = steps.length := by rw [h.nodes, List.length_map]
  constructor
  · show dag.graph.nodes ++ [step.id] = _
    rw [h.nodes, List.map_append, List.map_singleton]
  · exact h.edges
  · intro id i
    show (dag.stepIndex.insert step.id dag.graph.nodes.length).get id = some i ↔ _
    rw [BTreeMap.get_insert, hlength, List.map_append, List.map_singleton, List.getElem?_append,
      List.length_map]
    split_ifs with hid hlt hlt
    · subst hid
      have hne : steps.length ≠ i := Nat.ne_of_gt hlt
      have hold : (steps.map WorkflowStep.id)[i]? ≠ some step.id :=
        fun hget => hnew (List.mem_of_getElem? hget)
      simp only [Option.some.injEq, hne, hold]
    · subst hid
      rw [List.getElem?_singleton, Option.some.injEq]
      split_ifs <;> simp <;> omega
    · exact h.stepIndex id i
    · have hnone : dag.stepIndex.get id ≠ some i := by
        rw [Ne, h.stepIndex id i]
        intro hget
        exact hlt (by simpa using (List.getElem?_eq_some_iff.mp hget).1)
      rw [List.getElem?_singleton]
      simp only [hnone, false_iff]
      split_ifs
      · simpa using Ne.symm hid
      · simp
  · intro i
    show (dag.indexStep.insert dag.graph.nodes.length step).get i = _
    rw [BTreeMap.get_insert, h.indexStep, hlength, List.getElem?_append]
    split_ifs with heq hlt hlt
    · omega
    · rw [heq, Nat.sub_self]
      rfl
    · rfl
    · rw [List.getElem?_eq_none (Nat.le_of_not_lt hlt), List.getElem?_singleton, if_neg (by omega)]

theorem indexed_foldl_addStep
    (hids : (steps.map WorkflowStep.id).Nodup) : (steps.foldl addStep new).Indexed steps := by
  induction steps using List.reverseRecOn with
  | nil => exact indexed_new
  | append_singleton steps step ih =>
    rw [List.map_append, List.map_singleton] at hids
    have hapart := (List.nodup_append.mp hids).2.2
    rw [List.foldl_append]
    exact (ih (List.Nodup.of_append_left hids)).addStep
      fun hmem => hapart step.id hmem step.id (by simp) rfl

/-! ## Edges -/

section Edges

variable {stepIndex : BTreeMap String Nat}

theorem foldlM_addDependency_ok {stepId : String} {j : Nat} {deps : List String}
    {graph built : DiGraph String}
    (h : deps.foldlM (addDependency stepIndex stepId j) graph = .ok built) :
    built.nodes = graph.nodes ∧ (∀ dep ∈ deps, ∃ i, stepIndex.get dep = some i) ∧
      ∀ a b, built.Edge a b ↔
        graph.Edge a b ∨ (b = j ∧ ∃ dep ∈ deps, stepIndex.get dep = some a) := by
  induction deps generalizing graph with
  | nil =>
    cases h
    exact ⟨rfl, by simp, by simp⟩
  | cons dep deps ih =>
    rw [List.foldlM_cons] at h
    cases hdep : stepIndex.get dep with
    | none =>
      rw [addDependency, hdep] at h
      cases h
    | some i =>
      rw [addDependency, hdep] at h
      obtain ⟨hnodes, hknown, hedges⟩ := ih h
      refine ⟨hnodes, List.forall_mem_cons.mpr ⟨⟨i, hdep⟩, hknown⟩, fun a b => ?_⟩
      rw [hedges]
      have hadded : (graph.addEdge i j).Edge a b ↔ graph.Edge a b ∨ (b = j ∧ i = a) := by
        simp only [DiGraph.Edge, DiGraph.addEdge, List.mem_append, List.mem_singleton,
          Prod.mk.injEq, and_comm, eq_comm (a := a)]
      rw [hadded, List.exists_mem_cons_iff, hdep, Option.some.injEq, and_or_left, or_assoc]

theorem exists_foldlM_addDependency {stepId : String} {j : Nat} {deps : List String}
    (hknown : ∀ dep ∈ deps, ∃ i, stepIndex.get dep = some i) (graph : DiGraph String) :
    ∃ built, deps.foldlM (addDependency stepIndex stepId j) graph = .ok built := by
  induction deps generalizing graph with
  | nil => exact ⟨graph, rfl⟩
  | cons dep deps ih =>
    obtain ⟨i, hi⟩ := hknown dep List.mem_cons_self
    obtain ⟨built, hbuilt⟩ := ih (fun d hd => hknown d (List.mem_cons_of_mem _ hd))
      (graph.addEdge i j)
    refine ⟨built, ?_⟩
    rw [List.foldlM_cons, addDependency, hi]
    exact hbuilt

theorem addDependencies_ok {graph built : DiGraph String}
    (h : addDependencies stepIndex steps graph = some (.ok built)) :
    built.nodes = graph.nodes ∧
      (∀ step ∈ steps, ∀ dep ∈ step.dependsOn, ∃ i, stepIndex.get dep = some i) ∧
      ∀ a b, built.Edge a b ↔ graph.Edge a b ∨ ∃ step ∈ steps, stepIndex.get step.id = some b ∧
        ∃ dep ∈ step.dependsOn, stepIndex.get dep = some a := by
  induction steps generalizing graph with
  | nil =>
    cases h
    exact ⟨rfl, by simp, by simp⟩
  | cons step steps ih =>
    rw [addDependencies, Option.bind_eq_some_iff] at h
    obtain ⟨j, hj, h⟩ := h
    cases hfold : step.dependsOn.foldlM (addDependency stepIndex step.id j) graph with
    | error e => simp [hfold] at h
    | ok next =>
      rw [hfold] at h
      obtain ⟨hnodes, hknown, hedges⟩ := foldlM_addDependency_ok hfold
      obtain ⟨hnodes', hknown', hedges'⟩ := ih h
      refine ⟨hnodes'.trans hnodes, List.forall_mem_cons.mpr ⟨hknown, hknown'⟩, fun a b => ?_⟩
      rw [hedges', hedges, List.exists_mem_cons_iff, hj, Option.some.injEq, or_assoc]
      simp only [eq_comm (a := j)]

theorem exists_addDependencies
    (hsteps : ∀ step ∈ steps, ∃ i, stepIndex.get step.id = some i)
    (hknown : ∀ step ∈ steps, ∀ dep ∈ step.dependsOn, ∃ i, stepIndex.get dep = some i)
    (graph : DiGraph String) : ∃ built, addDependencies stepIndex steps graph = some (.ok built) := by
  induction steps generalizing graph with
  | nil => exact ⟨graph, rfl⟩
  | cons step steps ih =>
    rw [List.forall_mem_cons] at hsteps hknown
    obtain ⟨⟨j, hj⟩, hsteps⟩ := hsteps
    obtain ⟨next, hnext⟩ :
        ∃ next, step.dependsOn.foldlM (addDependency stepIndex step.id j) graph = .ok next :=
      exists_foldlM_addDependency hknown.1 graph
    obtain ⟨built, hbuilt⟩ := ih hsteps hknown.2 next
    refine ⟨built, ?_⟩
    rw [addDependencies, hj, Option.bind_some, hnext]
    exact hbuilt

end Edges

/-! ## The graph of a workflow -/

/-- The nodes are the steps, and an edge leads from each dependency to its step. -/
structure Built (dag : DagExecutor Body) (workflow : WorkflowDefinition Body) : Prop where
  nodes : dag.graph.nodes = workflow.ids
  indexStep : ∀ i, dag.indexStep.get i = workflow.steps[i]?
  edge : ∀ a b, dag.graph.Edge a b ↔ ∃ step, workflow.steps[b]? = some step ∧
    ∃ dep ∈ step.dependsOn, workflow.ids[a]? = some dep

section Built

variable {workflow : WorkflowDefinition Body} {dag : DagExecutor Body}

theorem getElem?_ids_of_step {i : Nat} {step : WorkflowStep Body}
    (h : workflow.steps[i]? = some step) : workflow.ids[i]? = some step.id := by
  rw [WorkflowDefinition.ids, List.getElem?_map, h, Option.map_some]

theorem ids_inj (hids : workflow.ids.Nodup) {i j : Nat} {id : String}
    (hi : workflow.ids[i]? = some id) (hj : workflow.ids[j]? = some id) : i = j :=
  (List.getElem?_inj (List.getElem?_eq_some_iff.mp hi).1 hids).mp (hi.trans hj.symm)

theorem built_addDependencies (hids : workflow.ids.Nodup) {graph : DiGraph String}
    (h : addDependencies (workflow.steps.foldl addStep new).stepIndex workflow.steps
      (workflow.steps.foldl addStep new).graph = some (.ok graph)) :
    workflow.DependenciesKnown ∧ Built { workflow.steps.foldl addStep new with graph } workflow := by
  have hindexed := indexed_foldl_addStep hids
  obtain ⟨hnodes, hknown, hedges⟩ := addDependencies_ok h
  constructor
  · intro step hstep dep hdep
    obtain ⟨i, hi⟩ := hknown step hstep dep hdep
    exact List.mem_of_getElem? ((hindexed.stepIndex dep i).mp hi)
  · refine ⟨hnodes.trans hindexed.nodes, hindexed.indexStep, fun a b => ?_⟩
    rw [hedges, DiGraph.Edge, hindexed.edges]
    simp only [List.not_mem_nil, false_or, hindexed.stepIndex]
    constructor
    · rintro ⟨step, hstep, hb, hdep⟩
      obtain ⟨j, hj⟩ := List.getElem?_of_mem hstep
      have hbj : b = j := ids_inj hids hb (getElem?_ids_of_step hj)
      exact ⟨step, hbj ▸ hj, hdep⟩
    · rintro ⟨step, hb, hdep⟩
      exact ⟨step, List.mem_of_getElem? hb, by rw [List.getElem?_map, hb, Option.map_some], hdep⟩

theorem fromWorkflow_eq_ok_iff {petgraph : Petgraph} :
    fromWorkflow petgraph workflow = some (.ok dag) ↔ ∃ graph,
      addDependencies (workflow.steps.foldl addStep new).stepIndex workflow.steps
        (workflow.steps.foldl addStep new).graph = some (.ok graph) ∧
      petgraph.isCyclicDirected graph = false ∧
      dag = { workflow.steps.foldl addStep new with graph } := by
  rw [fromWorkflow, Option.map_eq_some_iff]
  constructor
  · rintro ⟨built, hbuilt, h⟩
    cases built with
    | error e => cases h
    | ok graph =>
      dsimp only [Except.bind] at h
      split_ifs at h with hcyclic
      cases h
      exact ⟨graph, hbuilt, Bool.eq_false_iff.mpr hcyclic, rfl⟩
  · rintro ⟨graph, hbuilt, hcyclic, rfl⟩
    exact ⟨.ok graph, hbuilt, by simp [Except.bind, hcyclic]⟩

theorem exists_built (hids : workflow.ids.Nodup) (hknown : workflow.DependenciesKnown) :
    ∃ graph, addDependencies (workflow.steps.foldl addStep new).stepIndex workflow.steps
      (workflow.steps.foldl addStep new).graph = some (.ok graph) := by
  have hindexed := indexed_foldl_addStep hids
  have hindex : ∀ id ∈ workflow.ids, ∃ i,
      (workflow.steps.foldl addStep new).stepIndex.get id = some i := by
    intro id hid
    obtain ⟨i, hi⟩ := List.getElem?_of_mem hid
    exact ⟨i, (hindexed.stepIndex id i).mpr hi⟩
  exact exists_addDependencies (fun step hstep => hindex _ (List.mem_map_of_mem hstep))
    (fun step hstep dep hdep => hindex dep (hknown step hstep dep hdep)) _

variable (h : dag.Built workflow)

include h

theorem Built.valid : dag.graph.Valid := by
  intro a b hedge
  obtain ⟨step, hb, dep, -, ha⟩ := (h.edge a b).mp hedge
  rw [h.nodes]
  refine ⟨(List.getElem?_eq_some_iff.mp ha).1, ?_⟩
  rw [WorkflowDefinition.ids, List.length_map]
  exact (List.getElem?_eq_some_iff.mp hb).1

theorem Built.forth (i : Nat) (id : String) (hi : workflow.ids[i]? = some id) (p : Nat)
    (hp : dag.graph.Edge p i) : ∃ dep, workflow.DependsOn dep id ∧ workflow.ids[p]? = some dep := by
  obtain ⟨step, hstep, dep, hdep, hpdep⟩ := (h.edge p i).mp hp
  have hid : step.id = id := Option.some.inj ((getElem?_ids_of_step hstep).symm.trans hi)
  exact ⟨dep, ⟨step, List.mem_of_getElem? hstep, hid, hdep⟩, hpdep⟩

theorem Built.back (hids : workflow.ids.Nodup) (hknown : workflow.DependenciesKnown) (i : Nat)
    (id : String) (hi : workflow.ids[i]? = some id) (dep : String)
    (hdep : workflow.DependsOn dep id) : ∃ p, dag.graph.Edge p i ∧ workflow.ids[p]? = some dep := by
  obtain ⟨step, hstep, rfl, hmem⟩ := hdep
  obtain ⟨j, hj⟩ := List.getElem?_of_mem hstep
  obtain ⟨p, hp⟩ := List.getElem?_of_mem (hknown step hstep dep hmem)
  have hij : i = j := ids_inj hids hi (getElem?_ids_of_step hj)
  exact ⟨p, (h.edge p i).mpr ⟨step, hij ▸ hj, dep, hmem, hp⟩, hp⟩

theorem Built.isDepth_iff (hids : workflow.ids.Nodup) (hknown : workflow.DependenciesKnown)
    {i n : Nat} {id : String} (hi : workflow.ids[i]? = some id) :
    IsDepth dag.graph.Edge i n ↔ IsDepth workflow.DependsOn id n :=
  isDepth_iff_of_simulation (R := fun i id => workflow.ids[i]? = some id) h.forth
    (h.back hids hknown) hi

theorem Built.acyclic_iff (hids : workflow.ids.Nodup) (hknown : workflow.DependenciesKnown) :
    dag.graph.Acyclic ↔ workflow.Acyclic := by
  constructor
  · intro hacyclic id hcycle
    obtain ⟨dep, -, step, hstep, hid, -⟩ := TransGen.tail'_iff.mp hcycle
    obtain ⟨i, hi⟩ := List.getElem?_of_mem (List.mem_map_of_mem (f := WorkflowStep.id) hstep)
    rw [hid] at hi
    obtain ⟨p, hpi, hp⟩ := transGen_simulate (R := fun id i => workflow.ids[i]? = some id)
      (fun id i hi => h.back hids hknown i id hi) hcycle hi
    have hpi' : p = i := ids_inj hids hp hi
    exact hacyclic i (hpi' ▸ hpi)
  · intro hacyclic i hcycle
    obtain ⟨a, -, hedge⟩ := TransGen.tail'_iff.mp hcycle
    obtain ⟨step, hstep, -⟩ := (h.edge a i).mp hedge
    have hi := getElem?_ids_of_step hstep
    obtain ⟨id, hid, hiid⟩ := transGen_simulate (R := fun i id => workflow.ids[i]? = some id)
      h.forth hcycle hi
    rw [hi, Option.some.injEq] at hiid
    exact hacyclic id (hiid ▸ hid)

end Built

/-! ## Schedules -/

theorem mapM_of_isSome {α β : Type} {f : α → Option β} {l : List α}
    (h : ∀ a ∈ l, (f a).isSome) : l.mapM f = some (l.filterMap f) := by
  induction l with
  | nil => rfl
  | cons a l ih =>
    rw [List.forall_mem_cons] at h
    obtain ⟨b, hb⟩ := Option.isSome_iff_exists.mp h.1
    rw [List.mapM_cons, hb, ih h.2, List.filterMap_cons_some hb]
    rfl

theorem filterMap_range_getElem? {α : Type} (l : List α) :
    (List.range l.length).filterMap (l[·]?) = l := by
  induction l using List.reverseRecOn with
  | nil => rfl
  | append_singleton l a ih =>
    have hold : ∀ i ∈ List.range l.length, (l ++ [a])[i]? = l[i]? := fun i hi =>
      List.getElem?_append_left (List.mem_range.mp hi)
    rw [List.length_append, List.length_singleton, List.range_succ, List.filterMap_append,
      List.filterMap_congr hold, ih]
    simp

section Schedules

variable {workflow : WorkflowDefinition Body} {dag : DagExecutor Body} {sorted : List Nat}

theorem Built.isSome_indexStep (h : dag.Built workflow)
    (hperm : sorted.Perm (List.range dag.graph.nodes.length)) :
    ∀ i ∈ sorted, (dag.indexStep.get i).isSome := by
  intro i hi
  have hlt := List.mem_range.mp (hperm.mem_iff.mp hi)
  rw [h.nodes, WorkflowDefinition.ids, List.length_map] at hlt
  rw [h.indexStep, List.getElem?_eq_getElem hlt]
  rfl

theorem Built.perm_steps (h : dag.Built workflow)
    (hperm : sorted.Perm (List.range dag.graph.nodes.length)) :
    (sorted.filterMap dag.indexStep.get).Perm workflow.steps := by
  have hget : dag.indexStep.get = (workflow.steps[·]?) := funext h.indexStep
  have hlength : dag.graph.nodes.length = workflow.steps.length := by
    rw [h.nodes, WorkflowDefinition.ids, List.length_map]
  have hsteps := (hlength ▸ hperm).filterMap (workflow.steps[·]?)
  rwa [filterMap_range_getElem?, ← hget] at hsteps

theorem Built.schedules (h : dag.Built workflow) (hids : workflow.ids.Nodup)
    (hknown : workflow.DependenciesKnown)
    (hperm : sorted.Perm (List.range dag.graph.nodes.length))
    (hsorted : PredsFirst dag.graph.Edge sorted) :
    workflow.Schedules (sorted.filterMap dag.indexStep.get) := by
  refine ⟨h.perm_steps hperm, ?_⟩
  let idOf : Nat → String := fun i => (workflow.ids[i]?).getD ""
  have hidOf : ∀ i ∈ sorted, workflow.ids[i]? = some (idOf i) := by
    intro i hi
    have hlt := List.mem_range.mp (hperm.mem_iff.mp hi)
    rw [h.nodes] at hlt
    simp only [idOf, List.getElem?_eq_getElem hlt, Option.getD_some]
  have hmap : (sorted.filterMap dag.indexStep.get).map WorkflowStep.id = sorted.map idOf := by
    rw [List.map_filterMap, ← List.filterMap_eq_map]
    refine List.filterMap_congr fun i hi => ?_
    rw [h.indexStep, Function.comp_apply, ← hidOf i hi, WorkflowDefinition.ids, List.getElem?_map]
  rw [hmap]
  refine hsorted.map fun i hi dep hdep => ?_
  obtain ⟨p, hp, hpdep⟩ := h.back hids hknown i (idOf i) (hidOf i hi) dep hdep
  exact ⟨p, hp, by simp [idOf, hpdep]⟩

/-- The pass has placed the steps of these nodes by their depths. -/
structure Pass.Places (pass : Pass Body) (dag : DagExecutor Body) (nodes : List Nat) : Prop where
  visited : ∀ i ∈ nodes, ∃ n, pass.visited.get i = some n ∧ IsDepth dag.graph.Edge i n
  perm : pass.batches.flatten.Perm (nodes.filterMap dag.indexStep.get)
  level : ∀ level batch, pass.batches[level]? = some batch → ∀ step ∈ batch,
    ∃ i, dag.indexStep.get i = some step ∧ IsDepth dag.graph.Edge i level

theorem Pass.Places.placeNode {pass : Pass Body} {nodes : List Nat} (h : pass.Places dag nodes)
    {i : Nat} (hstep : (dag.indexStep.get i).isSome)
    (hpreds : ∀ p, dag.graph.Edge p i → p ∈ nodes) :
    ∃ next, dag.placeNode pass i = some next ∧ next.Places dag (nodes ++ [i]) := by
  obtain ⟨step, hstep⟩ := Option.isSome_iff_exists.mp hstep
  have hdepth : IsDepth dag.graph.Edge i (levelOf pass.visited.get (dag.graph.incoming i)) :=
    isDepth_levelOf (fun p => DiGraph.mem_incoming)
      fun p hp => h.visited p (hpreds p (DiGraph.mem_incoming.mpr hp))
  refine ⟨_, by rw [DagExecutor.placeNode, hstep]; rfl, ?_, ?_, ?_⟩
  · intro j hj
    rw [BTreeMap.get_insert]
    split_ifs with heq
    · exact ⟨_, rfl, heq ▸ hdepth⟩
    · have hold : j ∈ nodes := by simpa [heq] using hj
      exact h.visited j hold
  · refine (perm_flatten_addToBatch _ _ _).trans ?_
    rw [List.filterMap_append, List.filterMap_cons_some hstep, List.filterMap_nil]
    exact (h.perm.cons step).trans (List.perm_append_singleton _ _).symm
  · intro level batch hbatch s hs
    rcases mem_addToBatch hbatch hs with ⟨rfl, rfl⟩ | ⟨old, hold, hmem⟩
    · exact ⟨i, hstep, hdepth⟩
    · exact h.level level old hold s hmem

theorem exists_foldlM_placeNode (hsteps : ∀ i ∈ sorted, (dag.indexStep.get i).isSome)
    (hsorted : PredsFirst dag.graph.Edge sorted) :
    ∃ pass, sorted.foldlM dag.placeNode ⟨.empty, []⟩ = some pass ∧ pass.Places dag sorted := by
  induction sorted using List.reverseRecOn with
  | nil => exact ⟨_, rfl, by simp, .refl _, by simp⟩
  | append_singleton sorted i ih =>
    obtain ⟨pass, hpass, hplaces⟩ :=
      ih (fun j hj => hsteps j (List.mem_append_left _ hj)) hsorted.left
    obtain ⟨next, hnext, hplaces'⟩ := hplaces.placeNode (hsteps i (by simp)) hsorted.last
    refine ⟨next, ?_, hplaces'⟩
    rw [List.foldlM_append, hpass]
    simpa using hnext

end Schedules

/-- **Scheduling respects dependencies.** -/
theorem fromWorkflow_schedules (petgraph : Petgraph) (hpetgraph : petgraph.Correct)
    (workflow : WorkflowDefinition Body) (hids : workflow.ids.Nodup) :
    ((∃ dag, fromWorkflow petgraph workflow = some (.ok dag)) ↔
      workflow.DependenciesKnown ∧ workflow.Acyclic) ∧
    ∀ dag, fromWorkflow petgraph workflow = some (.ok dag) →
      (∃ order, dag.executionOrder petgraph = some (.ok order) ∧ workflow.Schedules order) ∧
      ∃ batches, dag.parallelBatches petgraph = some (.ok batches) ∧
        workflow.Schedules batches.flatten ∧
        (∀ level batch, batches[level]? = some batch → ∀ step ∈ batch,
          IsDepth workflow.DependsOn step.id level) ∧
        ∀ batch ∈ batches, ∀ a ∈ batch, ∀ b ∈ batch, ¬ TransGen workflow.DependsOn a.id b.id := by
  constructor
  · constructor
    · rintro ⟨dag, hdag⟩
      obtain ⟨graph, hgraph, hcyclic, rfl⟩ := fromWorkflow_eq_ok_iff.mp hdag
      obtain ⟨hknown, hbuilt⟩ := built_addDependencies hids hgraph
      refine ⟨hknown, (hbuilt.acyclic_iff hids hknown).mp fun i hcycle => ?_⟩
      rw [(hpetgraph.isCyclicDirected _ hbuilt.valid).mpr ⟨i, hcycle⟩] at hcyclic
      exact Bool.noConfusion hcyclic
    · rintro ⟨hknown, hacyclic⟩
      obtain ⟨graph, hgraph⟩ := exists_built hids hknown
      obtain ⟨-, hbuilt⟩ := built_addDependencies hids hgraph
      refine ⟨_, fromWorkflow_eq_ok_iff.mpr ⟨graph, hgraph, ?_, rfl⟩⟩
      rw [Bool.eq_false_iff, Ne, hpetgraph.isCyclicDirected _ hbuilt.valid]
      rintro ⟨i, hcycle⟩
      exact (hbuilt.acyclic_iff hids hknown).mpr hacyclic i hcycle
  · intro dag hdag
    obtain ⟨graph, hgraph, hcyclic, rfl⟩ := fromWorkflow_eq_ok_iff.mp hdag
    obtain ⟨hknown, hbuilt⟩ := built_addDependencies hids hgraph
    have hacyclic : graph.Acyclic := by
      intro i hcycle
      rw [(hpetgraph.isCyclicDirected _ hbuilt.valid).mpr ⟨i, hcycle⟩] at hcyclic
      exact Bool.noConfusion hcyclic
    obtain ⟨sorted, hsort, hperm, hsorted⟩ := hpetgraph.toposort graph hbuilt.valid hacyclic
    have hsteps := hbuilt.isSome_indexStep hperm
    constructor
    · refine ⟨_, ?_, hbuilt.schedules hids hknown hperm hsorted⟩
      simp only [executionOrder, hsort, mapM_of_isSome hsteps, Option.map_some]
    · obtain ⟨pass, hpass, hplaces⟩ := exists_foldlM_placeNode hsteps hsorted
      have hperm' := hplaces.perm.trans (hbuilt.perm_steps hperm)
      have hdepth : ∀ level batch, pass.batches[level]? = some batch → ∀ step ∈ batch,
          IsDepth workflow.DependsOn step.id level := by
        intro level batch hbatch step hstep
        obtain ⟨i, hi, hdepth⟩ := hplaces.level level batch hbatch step hstep
        rw [hbuilt.indexStep] at hi
        exact (hbuilt.isDepth_iff hids hknown (getElem?_ids_of_step hi)).mp hdepth
      refine ⟨pass.batches, ?_, ⟨hperm', ?_⟩, hdepth, ?_⟩
      · simp only [parallelBatches, hsort, hpass, Option.map_some]
      · rw [List.map_flatten]
        refine predsFirst_flatten ?_ ?_
        · intro level batch hbatch id hid
          rw [List.getElem?_map, Option.map_eq_some_iff] at hbatch
          obtain ⟨steps, hsteps, rfl⟩ := hbatch
          obtain ⟨step, hstep, rfl⟩ := List.mem_map.mp hid
          exact hdepth level steps hsteps step hstep
        · rw [← List.map_flatten]
          rintro id - dep ⟨step, hstep, -, hdep⟩
          exact (hperm'.map WorkflowStep.id).mem_iff.mpr (hknown step hstep dep hdep)
      · intro batch hbatch a ha b hb hdepends
        obtain ⟨level, hlevel⟩ := List.getElem?_of_mem hbatch
        exact Nat.lt_irrefl level ((hdepth level batch hlevel a ha).lt_of_transGen
          (hdepth level batch hlevel b hb) hdepends)

/-! ## A run -/

def listPetgraph : Petgraph where
  isCyclicDirected g := (topologicalSort g.incoming (List.range g.nodes.length)).isNone
  toposort g := topologicalSort g.incoming (List.range g.nodes.length)

theorem listPetgraph_correct : listPetgraph.Correct := by
  have hedge : ∀ g : DiGraph String, g.Edge = fun p a => p ∈ g.incoming a := fun g =>
    funext fun p => funext fun a => propext DiGraph.mem_incoming
  have hsorts : ∀ g : DiGraph String, g.Valid → g.Acyclic →
      ∃ order, topologicalSort g.incoming (List.range g.nodes.length) = some order := by
    intro g hvalid hacyclic
    rw [DiGraph.Acyclic, hedge] at hacyclic
    exact exists_topologicalSort (fun a _ p hp =>
      List.mem_range.mpr (hvalid p a (DiGraph.mem_incoming.mpr hp)).1) hacyclic
  have hsorted : ∀ (g : DiGraph String) order,
      topologicalSort g.incoming (List.range g.nodes.length) = some order →
      order.Perm (List.range g.nodes.length) ∧ PredsFirst g.Edge order := by
    intro g order h
    rw [hedge]
    exact predsFirst_topologicalSort h
  constructor
  · intro g hvalid
    rw [listPetgraph, Option.isNone_iff_eq_none]
    constructor
    · intro hnone
      by_contra hcycle
      obtain ⟨order, horder⟩ := hsorts g hvalid (not_exists.mp hcycle)
      rw [hnone] at horder
      cases horder
    · rintro ⟨i, hcycle⟩
      cases horder : topologicalSort g.incoming (List.range g.nodes.length) with
      | none => rfl
      | some order =>
        obtain ⟨hperm, hpreds⟩ := hsorted g order horder
        obtain ⟨a, -, hlast⟩ := TransGen.tail'_iff.mp hcycle
        have hmem : i ∈ order := hperm.mem_iff.mpr (List.mem_range.mpr (hvalid a i hlast).2)
        exact absurd hcycle (hpreds.acyclic (hperm.nodup_iff.mpr List.nodup_range) hmem)
  · intro g hvalid hacyclic
    obtain ⟨order, horder⟩ := hsorts g hvalid hacyclic
    exact ⟨order, horder, hsorted g order horder⟩

def pipeline : WorkflowDefinition Unit :=
  ⟨[⟨"load", (), ["extract", "clean", "clean"]⟩, ⟨"extract", (), []⟩,
    ⟨"clean", (), ["extract"]⟩]⟩

theorem pipeline_schedules :
    (pipeline.DependenciesKnown ∧ pipeline.Acyclic) ∧
    ∃ dag, fromWorkflow listPetgraph pipeline = some (.ok dag) ∧
      (∃ order, dag.executionOrder listPetgraph = some (.ok order) ∧ pipeline.Schedules order) ∧
      ∃ batches, dag.parallelBatches listPetgraph = some (.ok batches) ∧
        pipeline.Schedules batches.flatten := by
  obtain ⟨hok, hruns⟩ := fromWorkflow_schedules listPetgraph listPetgraph_correct pipeline (by decide)
  obtain ⟨dag, hdag⟩ : ∃ dag, fromWorkflow listPetgraph pipeline = some (.ok dag) := ⟨_, rfl⟩
  obtain ⟨horder, batches, hbatches, hschedules, -⟩ := hruns dag hdag
  exact ⟨hok.mp ⟨dag, hdag⟩, dag, hdag, horder, batches, hbatches, hschedules⟩

end DagExecutor

end Arcxa.Workflow
