import Arcxa.Lib.DepthFirst
import Arcxa.Lib.StackSearch
import Arcxa.Lineage.RowQueries
import Arcxa.Workflow.Deduplicator

/-!
# The lineage graph

`LineageGraph` looks records up by their output. The recursive queries are sound at every depth, and
have all that can be come to once the depth is the number of records, in whatever order the hash sets
are iterated. The queries downstream look for the consumers of an output among its producers: they go
along records with an output in common, and a record is on a cycle as soon as it has an event.
-/

namespace Arcxa.Lineage.Graph

open Traversal StackSearch
open Arcxa.Workflow (HashOrder)

variable {X : Type}

/-- `rest`: the other fields, which are part of the reference. -/
structure DataRef (X : Type) where
  system : String
  path : String
  rest : X

def DataRef.key (ref : DataRef X) : String := ref.system ++ ":" ++ ref.path

structure LineageEvent (X : Type) where
  recordId : String
  sourceRefs : List (DataRef X)
  outputRef : DataRef X

structure LineageGraph (X : Type) where
  events : List (LineageEvent X)
  recordIndex : BTreeMap String (List Nat)
  dataRefIndex : BTreeMap String (List String)

namespace LineageGraph

/-- The sets of records are lists here, without their repetitions where they are iterated. -/
def new (events : List (LineageEvent X)) : LineageGraph X where
  events := events
  recordIndex := recordLists (events.zipIdx.map fun entry => (entry.1.recordId, entry.2))
  dataRefIndex := recordLists (events.map fun event => (event.outputRef.key, event.recordId))

-- every set of the index has an order of its own
variable (graph : LineageGraph X) (hash : String → HashOrder String)

def getEventsForRecord (recordId : String) : List (LineageEvent X) :=
  ((graph.recordIndex.get recordId).getD []).filterMap fun idx => graph.events[idx]?

def upstream (recordId : String) : List (DataRef X) :=
  (graph.getEventsForRecord recordId).flatMap LineageEvent.sourceRefs

def downstream (recordId : String) : List (DataRef X) :=
  (graph.getEventsForRecord recordId).map LineageEvent.outputRef

def recordsOf (ref : DataRef X) : List String :=
  (hash ref.key).order ((graph.dataRefIndex.get ref.key).getD []).dedup

def sources (recordId : String) : List String :=
  (graph.upstream recordId).flatMap (graph.recordsOf hash)

def consumers (recordId : String) : List String :=
  (graph.downstream recordId).flatMap (graph.recordsOf hash)

def records (recordId : String) : Finset String :=
  insert recordId (graph.events.map LineageEvent.recordId).toFinset

/-- The loop of the recursive queries, with the fuel that the pushes of all records take. -/
def search (next : String → List String) (recordId : String) (maxDepth : Nat) :
    Option (List String × List String) :=
  stackSearch next maxDepth (1 + pushes next (graph.records recordId) []) [(recordId, 0)] ([], [])

/-- The references of each record that is visited. -/
def upstreamRecursive (recordId : String) (maxDepth : Nat) : Option (List (DataRef X)) :=
  (graph.search (graph.sources hash) recordId maxDepth).map fun s => s.1.flatMap graph.upstream

/-- Each record that is pushed. -/
def downstreamRecursive (recordId : String) (maxDepth : Nat) : Option (List String) :=
  (graph.search (graph.consumers hash) recordId maxDepth).map Prod.snd

def hasCircularDependency (recordId : String) : Option Bool :=
  (Search.hasCycle (graph.consumers hash) (graph.records recordId).card recordId ⟨[], []⟩).map
    Prod.fst

end LineageGraph

/-! ## What the steps are -/

section

variable (events : List (LineageEvent X))

def SourceOf (record : String) (ref : DataRef X) : Prop :=
  ∃ event ∈ events, event.recordId = record ∧ ref ∈ event.sourceRefs

def Produces (record : String) (ref : DataRef X) : Prop :=
  ∃ event ∈ events, event.recordId = record ∧ event.outputRef.key = ref.key

/-- `source` puts out what an event of `record` reads. -/
def FedBy (record source : String) : Prop := ∃ ref, SourceOf events record ref ∧ Produces events source ref

/-- The records have an output in common. -/
def SharesOutput (record other : String) : Prop :=
  ∃ event ∈ events, event.recordId = record ∧ Produces events other event.outputRef

end

namespace LineageGraph

variable {events : List (LineageEvent X)} {hash : String → HashOrder String} {recordId : String}

theorem getD_recordLists {R : Type} (entries : List (String × R)) (key : String) :
    ((recordLists entries).get key).getD [] = (entries.filter (·.1 = key)).map (·.2) := by
  rw [get_recordLists]
  split_ifs with hnil
  · exact hnil.symm
  · rfl

theorem mem_getEventsForRecord {event : LineageEvent X} :
    event ∈ (new events).getEventsForRecord recordId ↔ event ∈ events ∧ event.recordId = recordId := by
  rw [getEventsForRecord, new, getD_recordLists]
  simp only [List.mem_filterMap, List.mem_map, List.mem_filter, decide_eq_true_eq, Prod.exists,
    List.mem_zipIdx_iff_getElem?]
  constructor
  · rintro ⟨idx, ⟨_, _, ⟨⟨other, _, hother, heq⟩, hid⟩, rfl⟩, hevent⟩
    cases heq
    cases hother.symm.trans hevent
    exact ⟨List.mem_of_getElem? hevent, hid⟩
  · rintro ⟨hmem, hid⟩
    obtain ⟨idx, hidx⟩ := List.mem_iff_getElem?.mp hmem
    exact ⟨idx, ⟨_, idx, ⟨⟨event, idx, hidx, rfl⟩, hid⟩, rfl⟩, hidx⟩

theorem mem_recordsOf {ref : DataRef X} :
    recordId ∈ (new events).recordsOf hash ref ↔ Produces events recordId ref := by
  rw [recordsOf, ((hash ref.key).perm _).mem_iff, List.mem_dedup, new, getD_recordLists]
  simp only [List.mem_map, List.mem_filter, decide_eq_true_eq, Prod.exists]
  constructor
  · rintro ⟨_, _, ⟨⟨event, hmem, heq⟩, hkey⟩, rfl⟩
    cases heq
    exact ⟨event, hmem, rfl, hkey⟩
  · rintro ⟨event, hmem, rfl, hkey⟩
    exact ⟨_, _, ⟨⟨event, hmem, rfl⟩, hkey⟩, rfl⟩

theorem mem_upstream {ref : DataRef X} :
    ref ∈ (new events).upstream recordId ↔ SourceOf events recordId ref := by
  simp only [upstream, List.mem_flatMap, mem_getEventsForRecord, SourceOf, and_assoc]

theorem goes_sources (hash : String → HashOrder String) :
    Goes ((new events).sources hash) = FedBy events := by
  funext record source
  simp only [Goes, sources, List.mem_flatMap, mem_upstream, mem_recordsOf, FedBy]

theorem goes_consumers (hash : String → HashOrder String) :
    Goes ((new events).consumers hash) = SharesOutput events := by
  funext record other
  simp only [Goes, consumers, downstream, List.mem_flatMap, List.mem_map, mem_getEventsForRecord,
    mem_recordsOf, SharesOutput, and_assoc]
  refine propext ⟨?_, ?_⟩
  · rintro ⟨_, ⟨event, hmem, hid, rfl⟩, h⟩
    exact ⟨event, hmem, hid, h⟩
  · rintro ⟨event, hmem, hid, h⟩
    exact ⟨_, ⟨event, hmem, hid, rfl⟩, h⟩

theorem mem_records {refs : String → List (DataRef X)} (node x : String)
    (hx : x ∈ (refs node).flatMap ((new events).recordsOf hash)) : x ∈ (new events).records recordId := by
  obtain ⟨ref, -, hx⟩ := List.mem_flatMap.mp hx
  obtain ⟨event, hmem, rfl, -⟩ := mem_recordsOf.mp hx
  exact Finset.mem_insert_of_mem (List.mem_toFinset.mpr (List.mem_map_of_mem hmem))

theorem search_spec (next : String → List String)
    (hnext : ∀ node, ∀ x ∈ next node, x ∈ (new events).records recordId) (maxDepth : Nat) :
    ∃ s, (new events).search next recordId maxDepth = some s ∧
      Frontier next maxDepth recordId [] s :=
  exists_stackSearch (Finset.mem_insert_self _ _) hnext le_rfl frontier_start

/-- **Upstream**, all is a source within the depth, and with depth for every record all sources are
there. -/
theorem upstreamRecursive_spec (hash : String → HashOrder String) (events : List (LineageEvent X))
    (recordId : String) (maxDepth : Nat) :
    ∃ refs, (new events).upstreamRecursive hash recordId maxDepth = some refs ∧
      (∀ ref ∈ refs, ∃ n ≤ maxDepth, ∃ record,
        Steps (FedBy events) recordId n record ∧ SourceOf events record ref) ∧
      (((new events).records recordId).card ≤ maxDepth → ∀ n record ref,
        Steps (FedBy events) recordId n record → SourceOf events record ref → ref ∈ refs) := by
  obtain ⟨s, hs, h⟩ := search_spec ((new events).sources hash) mem_records maxDepth
  refine ⟨_, by rw [upstreamRecursive, hs, Option.map_some], fun ref href => ?_,
    fun hcard n record ref hsteps href => ?_⟩
  · obtain ⟨record, hrecord, href⟩ := List.mem_flatMap.mp href
    obtain ⟨n, hn, hsteps⟩ := h.visited record hrecord
    exact ⟨n, hn, record, goes_sources hash ▸ hsteps, mem_upstream.mp href⟩
  · rw [← goes_sources hash] at hsteps
    have hvisited := h.mem_visited (Finset.mem_insert_self _ _) mem_records hcard hsteps
    exact List.mem_flatMap.mpr ⟨record, hvisited, mem_upstream.mpr href⟩

/-- **Downstream**, the same along common outputs, and the record itself is not there. -/
theorem downstreamRecursive_spec (hash : String → HashOrder String) (events : List (LineageEvent X))
    (recordId : String) (maxDepth : Nat) :
    ∃ ids, (new events).downstreamRecursive hash recordId maxDepth = some ids ∧ recordId ∉ ids ∧
      (∀ id ∈ ids, ∃ n ≤ maxDepth, Steps (SharesOutput events) recordId (n + 1) id) ∧
      (((new events).records recordId).card ≤ maxDepth → ∀ n id,
        Steps (SharesOutput events) recordId n id → id ≠ recordId → id ∈ ids) := by
  obtain ⟨s, hs, h⟩ := search_spec ((new events).consumers hash) mem_records maxDepth
  refine ⟨s.2, by rw [downstreamRecursive, hs, Option.map_some], fun hmem => ?_, fun id hid => ?_,
    fun hcard n id hsteps hne => ?_⟩
  · exact ((h.pushed recordId).mp hmem).1 rfl
  · obtain ⟨-, record, hrecord, hid⟩ := (h.pushed id).mp hid
    obtain ⟨n, hn, hsteps⟩ := h.visited record hrecord
    exact ⟨n, hn, goes_consumers hash ▸ hsteps.step hid⟩
  · rw [← goes_consumers hash] at hsteps
    have hvisited := h.mem_visited (Finset.mem_insert_self _ _) mem_records hcard hsteps
    exact (h.known id (.inl hvisited)).resolve_left hne

/-- **A record is on a cycle as soon as it has an event**: its output leads back to it. -/
theorem hasCircularDependency_eq (hash : String → HashOrder String) (events : List (LineageEvent X))
    (recordId : String) : (new events).hasCircularDependency hash recordId =
      some (decide (recordId ∈ events.map LineageEvent.recordId)) := by
  rw [hasCircularDependency]
  by_cases hmem : recordId ∈ events.map LineageEvent.recordId
  · have hlength : Search.unvisited ((new events).records recordId).toList ⟨[], []⟩ ≤
        ((new events).records recordId).card := by
      rw [← Finset.length_toList]
      exact List.length_filter_le _ _
    have hnodes : ∀ node, ∀ x ∈ (new events).consumers hash node,
        x ∈ ((new events).records recordId).toList :=
      fun node x hx => Finset.mem_toList.mpr (mem_records node x hx)
    obtain ⟨result, hresult, -⟩ := Search.hasCycle_isSome hnodes
      (Finset.mem_toList.mpr (Finset.mem_insert_self _ _)) List.not_mem_nil hlength
    have hspec := Search.hasCycle_spec hresult ⟨nofun, nofun⟩ List.not_mem_nil nofun
    have hfound : result.1 = true := by
      by_contra hfound
      rw [Search.Spec, if_neg hfound] at hspec
      obtain ⟨hexplored, hextends, hvisited⟩ := hspec
      have hacc := hexplored.left recordId hvisited fun hstack =>
        List.not_mem_nil ((hextends.recStack recordId).mp hstack)
      refine Search.not_transGen_of_acc hacc (.single ?_)
      obtain ⟨event, hevent, hid⟩ := List.mem_map.mp hmem
      show Goes ((new events).consumers hash) recordId recordId
      rw [goes_consumers hash]
      exact ⟨event, hevent, hid, event, hevent, hid, rfl⟩
    rw [hresult, Option.map_some, hfound, decide_eq_true hmem]
  · have hnone : (new events).consumers hash recordId = [] := by
      refine List.eq_nil_iff_forall_not_mem.mpr fun other hother => hmem ?_
      have hshares : Goes ((new events).consumers hash) recordId other := hother
      rw [goes_consumers] at hshares
      obtain ⟨event, hevent, hid, -⟩ := hshares
      exact List.mem_map.mpr ⟨event, hevent, hid⟩
    obtain ⟨fuel, hfuel⟩ := Nat.exists_eq_succ_of_ne_zero
      (Finset.card_ne_zero_of_mem (Finset.mem_insert_self recordId _))
    rw [LineageGraph.records, hfuel, Search.hasCycle, hnone, decide_eq_false hmem]
    rfl

end LineageGraph

end Arcxa.Lineage.Graph
