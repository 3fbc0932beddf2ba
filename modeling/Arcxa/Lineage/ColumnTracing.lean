import Arcxa.Lib.BoundedTraversal

/-!
# Tracing columns

`trace_column_graph` and `analyze_column_impact` go through the columns depth first, within a depth, and
never visit a column twice. A column that is come to on a long way first is visited with little depth
left, so that what is near it may be missed; a derived column is counted before it is asked whether it
was visited, so that it is counted once for each column that it is derived from. Columns are what the
store's keys tell apart.
-/

namespace Arcxa.Lineage

open Traversal

variable {C : Type} [DecidableEq C]

structure DerivationEvent (C : Type) where
  id : String
  sourceColumns : List C
  targetColumn : C
  deriving DecidableEq

/-- The indexes of these events, each list in any order. -/
structure ColumnIndexes (events : List (DerivationEvent C)) where
  getColumnLineage : C → List (DerivationEvent C)
  getDerivedColumns : C → List C
  mem_lineage : ∀ column event, event ∈ events ∧ event.targetColumn = column ↔
    event ∈ getColumnLineage column ∧ event.targetColumn = column
  mem_derived : ∀ column derived, derived ∈ getDerivedColumns column ↔
    ∃ event ∈ events, column ∈ event.sourceColumns ∧ event.targetColumn = derived
  nodup_derived : ∀ column, (getDerivedColumns column).Nodup

namespace ColumnIndexes

variable {events : List (DerivationEvent C)} (indexes : ColumnIndexes events)

def eventsInto (column : C) : List (DerivationEvent C) :=
  (indexes.getColumnLineage column).filter fun event => event.targetColumn = column

def traceUpstreamRecursive : Nat → C → List (C × Nat) × List (DerivationEvent C) →
    List (C × Nat) × List (DerivationEvent C) :=
  traverse indexes.eventsInto DerivationEvent.sourceColumns

def traceDownstreamRecursive : Nat → C → List (C × Nat) × List C → List (C × Nat) × List C :=
  traverse indexes.getDerivedColumns fun derived => [derived]

/-- `retain`, by what is seen of the event ids. -/
def retainFirst (transformations : List (DerivationEvent C)) : List (DerivationEvent C) :=
  transformations.foldl (fun kept event =>
    if event.id ∈ kept.map DerivationEvent.id then kept else kept ++ [event]) []

def allTransformations (column : C) (maxDepth : Nat) : List (DerivationEvent C) :=
  retainFirst (indexes.traceUpstreamRecursive maxDepth column ([], [])).2

def affectedColumns (column : C) : List C := (indexes.traceDownstreamRecursive 10 column ([], [])).2

end ColumnIndexes

/-! ## What the answers should be -/

def Upstream (events : List (DerivationEvent C)) (column source : C) : Prop :=
  ∃ event ∈ events, event.targetColumn = column ∧ source ∈ event.sourceColumns

def Downstream (events : List (DerivationEvent C)) (column derived : C) : Prop :=
  Upstream events derived column

/-- The event's target is at most `maxDepth - 1` steps upstream. -/
def InReach (events : List (DerivationEvent C)) (column : C) (maxDepth : Nat)
    (event : DerivationEvent C) : Prop :=
  event ∈ events ∧ ∃ n < maxDepth, Steps (Upstream events) column n event.targetColumn

structure TracesExactly {events : List (DerivationEvent C)} (indexes : ColumnIndexes events) (column : C)
    (maxDepth : Nat) : Prop where
  nodup : (indexes.allTransformations column maxDepth).Nodup
  mem : ∀ event, event ∈ indexes.allTransformations column maxDepth ↔
    InReach events column maxDepth event

structure AffectsExactly {events : List (DerivationEvent C)} (indexes : ColumnIndexes events)
    (column : C) : Prop where
  nodup : (indexes.affectedColumns column).Nodup
  mem : ∀ derived, derived ∈ indexes.affectedColumns column ↔
    ∃ n < 10, Steps (Downstream events) column (n + 1) derived

/-! ## Upstream -/

namespace ColumnIndexes

variable {events : List (DerivationEvent C)} {indexes : ColumnIndexes events}

theorem mem_eventsInto {column : C} {event : DerivationEvent C} :
    event ∈ indexes.eventsInto column ↔ event ∈ events ∧ event.targetColumn = column := by
  rw [eventsInto, List.mem_filter, decide_eq_true_eq, indexes.mem_lineage]

variable (indexes) in
theorem leads_upstream :
    Leads indexes.eventsInto DerivationEvent.sourceColumns = Upstream events := by
  funext column source
  refine propext ⟨?_, ?_⟩
  · rintro ⟨event, hevent, hsource⟩
    obtain ⟨hmem, htarget⟩ := mem_eventsInto.mp hevent
    exact ⟨event, hmem, htarget, hsource⟩
  · rintro ⟨event, hmem, htarget, hsource⟩
    exact ⟨event, mem_eventsInto.mpr ⟨hmem, htarget⟩, hsource⟩

omit [DecidableEq C] in
theorem leads_downstream :
    Leads indexes.getDerivedColumns (fun derived => [derived]) = Downstream events := by
  funext column derived
  refine propext ⟨?_, ?_⟩
  · rintro ⟨next, hnext, hderived⟩
    obtain rfl := List.mem_singleton.mp hderived
    obtain ⟨event, hmem, hsource, htarget⟩ := (indexes.mem_derived column derived).mp hnext
    exact ⟨event, hmem, htarget, hsource⟩
  · rintro ⟨event, hmem, htarget, hsource⟩
    exact ⟨derived, (indexes.mem_derived column derived).mpr ⟨event, hmem, hsource, htarget⟩,
      List.mem_singleton_self _⟩

omit [DecidableEq C] in
theorem retainFirst_spec (l : List (DerivationEvent C)) :
    ((retainFirst l).map DerivationEvent.id).Nodup ∧ retainFirst l ⊆ l ∧
      ∀ event ∈ l, event.id ∈ (retainFirst l).map DerivationEvent.id := by
  induction l using List.reverseRecOn with
  | nil => exact ⟨List.nodup_nil, List.Subset.refl _, fun _ h => absurd h List.not_mem_nil⟩
  | append_singleton l event ih =>
    obtain ⟨hnodup, hsubset, hids⟩ := ih
    have hconcat : retainFirst (l ++ [event]) =
        if event.id ∈ (retainFirst l).map DerivationEvent.id then retainFirst l
        else retainFirst l ++ [event] := List.foldl_concat ..
    have hmem : ∀ other ∈ l ++ [event], other ∈ l ∨ other = event := fun other hother =>
      (List.mem_append.mp hother).imp_right List.mem_singleton.mp
    rw [hconcat]
    split_ifs with hid
    · refine ⟨hnodup, List.subset_append_of_subset_left _ hsubset, fun other hother => ?_⟩
      obtain hother | rfl := hmem other hother
      · exact hids other hother
      · exact hid
    · refine ⟨?_, ?_, fun other hother => ?_⟩
      · rw [List.map_append, List.nodup_append]
        refine ⟨hnodup, List.nodup_singleton _, fun id hid' id' hid'' heq => hid ?_⟩
        obtain rfl : id' = event.id := List.mem_singleton.mp hid''
        exact heq ▸ hid'
      · exact List.append_subset.mpr ⟨List.subset_append_of_subset_left _ hsubset, List.subset_append_right ..⟩
      · rw [List.map_append]
        obtain hother | rfl := hmem other hother
        · exact List.mem_append_left _ (hids other hother)
        · exact List.mem_append_right _ (List.mem_singleton_self _)

def UniqueIds (events : List (DerivationEvent C)) (column : C) (maxDepth : Nat) : Prop :=
  ∀ event event', InReach events column maxDepth event → InReach events column maxDepth event' →
    event.id = event'.id → event = event'

theorem inReach_of_mem {column : C} {maxDepth : Nat} (hdepth : 1 ≤ maxDepth) {event : DerivationEvent C}
    (h : event ∈ indexes.allTransformations column maxDepth) :
    InReach events column maxDepth event := by
  obtain ⟨hfrom, hperm⟩ := traverse_from indexes.eventsInto DerivationEvent.sourceColumns
    hdepth column
  have hmem := hperm.subset ((retainFirst_spec _).2.1 h)
  obtain ⟨mark, hmark, hevent⟩ := List.mem_flatMap.mp hmem
  obtain ⟨n, hn, hsteps⟩ := hfrom.steps (List.mem_map_of_mem hmark)
  obtain ⟨hevents, htarget⟩ := mem_eventsInto.mp hevent
  rw [leads_upstream] at hsteps
  exact ⟨hevents, n, hn, htarget ▸ hsteps⟩

theorem nodup_ids (indexes : ColumnIndexes events) (column : C) (maxDepth : Nat) :
    ((indexes.allTransformations column maxDepth).map DerivationEvent.id).Nodup :=
  (retainFirst_spec _).1

theorem uniqueIds_of_tracesExactly {column : C} {maxDepth : Nat}
    (h : TracesExactly indexes column maxDepth) : UniqueIds events column maxDepth := by
  intro event event' hevent hevent' heq
  exact List.inj_on_of_nodup_map (nodup_ids indexes column maxDepth) ((h.mem event).mpr hevent)
    ((h.mem event').mpr hevent') heq

/-- No column that was visited is come to again with more depth left, and skipped. -/
def NeverLate (indexes : ColumnIndexes events) (column : C) (maxDepth : Nat) : Prop :=
  Traversal.NeverLate indexes.eventsInto DerivationEvent.sourceColumns
    (indexes.traceUpstreamRecursive maxDepth column ([], [])).1

instance (indexes : ColumnIndexes events) (column : C) (maxDepth : Nat) :
    Decidable (NeverLate indexes column maxDepth) := inferInstanceAs (Decidable (Traversal.NeverLate ..))

theorem tracesExactly {column : C} {maxDepth : Nat} (hdepth : 1 ≤ maxDepth)
    (hids : UniqueIds events column maxDepth) (hlate : NeverLate indexes column maxDepth) :
    TracesExactly indexes column maxDepth := by
  refine ⟨(nodup_ids indexes column maxDepth).of_map, fun event =>
    ⟨inReach_of_mem hdepth, fun hreach => ?_⟩⟩
  obtain ⟨hfrom, hperm⟩ := traverse_from indexes.eventsInto DerivationEvent.sourceColumns
    hdepth column
  obtain ⟨n, hn, hsteps⟩ := hreach.2
  rw [← leads_upstream indexes] at hsteps
  obtain ⟨mark, hmark, htarget, -⟩ := hlate.mem hfrom hn hsteps
  have hcollected := hperm.symm.subset (List.mem_flatMap.mpr
    ⟨mark, hmark, mem_eventsInto.mpr ⟨hreach.1, htarget.symm⟩⟩)
  obtain ⟨event', hevent', heq⟩ := List.mem_map.mp ((retainFirst_spec _).2.2 event hcollected)
  exact hids event' event (inReach_of_mem hdepth hevent') hreach heq ▸ hevent'

/-! ## Downstream -/

/-- No column is derived from two different columns that are within the depth. -/
def SingleParents (events : List (DerivationEvent C)) (column : C) : Prop :=
  ∀ x y derived, (∃ n < 10, Steps (Downstream events) column n x) →
    (∃ n < 10, Steps (Downstream events) column n y) →
      Downstream events x derived → Downstream events y derived → x = y

theorem affectsExactly_iff (indexes : ColumnIndexes events) (column : C) :
    AffectsExactly indexes column ↔ SingleParents events column := by
  obtain ⟨hfrom, hperm⟩ := traverse_from indexes.getDerivedColumns (fun derived => [derived])
    (show 1 ≤ 10 by decide) column
  have hnexts : (indexes.affectedColumns column).Perm (nexts indexes.getDerivedColumns
      (fun derived => [derived]) (indexes.traceDownstreamRecursive 10 column ([], [])).1) := by
    refine hperm.trans (List.Perm.of_eq ?_)
    exact List.flatMap_congr fun mark _ => (List.flatMap_singleton' _).symm
  have hiff := hfrom.nodup_iff fun x => by
    rw [List.flatMap_singleton']
    exact indexes.nodup_derived x
  rw [leads_downstream] at hiff
  constructor
  · intro h
    exact hiff.mp (hnexts.nodup_iff.mp h.nodup)
  · intro hsingle
    have hnodup := hiff.mpr hsingle
    refine ⟨hnexts.nodup_iff.mpr hnodup, fun derived => ?_⟩
    rw [hnexts.mem_iff]
    have hmem := hfrom.mem_nexts hnodup (x := derived)
    rwa [leads_downstream] at hmem

def inOrder (events : List (DerivationEvent C)) : ColumnIndexes events where
  getColumnLineage column := events.filter fun event => event.targetColumn = column
  getDerivedColumns column :=
    ((events.filter fun event => column ∈ event.sourceColumns).map DerivationEvent.targetColumn).dedup
  mem_lineage column event := by
    rw [List.mem_filter, decide_eq_true_eq, and_assoc, and_self]
  mem_derived column derived := by
    rw [List.mem_dedup, List.mem_map]
    simp only [List.mem_filter, decide_eq_true_eq, and_assoc]
  nodup_derived column := List.nodup_dedup _

def shortcut : List (DerivationEvent Nat) :=
  [⟨"e0", [1, 2], 0⟩, ⟨"e1", [2], 1⟩, ⟨"e2", [3], 2⟩, ⟨"e3", [4], 3⟩]

/-- The same columns, with the near way first. -/
def nearFirst : List (DerivationEvent Nat) :=
  [⟨"e0", [2, 1], 0⟩, ⟨"e1", [2], 1⟩, ⟨"e2", [3], 2⟩, ⟨"e3", [4], 3⟩]

end ColumnIndexes

end Arcxa.Lineage
