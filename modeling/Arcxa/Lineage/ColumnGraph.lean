import Arcxa.Lib.DepthFirst
import Arcxa.Lineage.ColumnStore

/-!
# Cycles of columns

`detect_cycle` follows the stored events from a target to its sources, depth first, and marks columns by
their qualified names. It ends on every content and finds exactly the cycles of names that can be
got to (`detectCycle_exact_iff`), which are cycles of columns as far as different columns have different
names.
-/

namespace Arcxa.Lineage

open Relation
open ColumnRef Search

variable {F J : Type} [TextCodec J]

namespace ColumnLineageStore

variable (store : ColumnLineageStore F J)

def sourcesOf (column : ColumnRef) (events : List (ColumnLineageEvent F J)) : List ColumnRef :=
  (events.filter fun event =>
    event.targetColumn.fullyQualifiedName = column.fullyQualifiedName).flatMap (·.sourceColumns)

def visitSource (rec : ColumnRef → Search String → Option (Except ColumnStoreError (Bool × Search String)))
    (state : Except ColumnStoreError (Bool × Search String)) (source : ColumnRef) :
    Option (Except ColumnStoreError (Bool × Search String)) :=
  match state with
  | .error e => some (.error e)
  | .ok (found, s) => if found then some (.ok (found, s)) else rec source s

/-- `none`: the fuel is at its end. -/
def detectCycleDfs : Nat → ColumnRef → Search String →
    Option (Except ColumnStoreError (Bool × Search String))
  | 0, _, _ => none
  | fuel + 1, column, s =>
    if column.fullyQualifiedName ∈ s.recStack then some (.ok (true, s))
    else if column.fullyQualifiedName ∈ s.visited then some (.ok (false, s))
    else
      match store.getColumnLineage column with
      | .error e => some (.error e)
      | .ok events =>
        ((sourcesOf column events).foldlM (visitSource (detectCycleDfs fuel))
          (.ok (false, ⟨column.fullyQualifiedName :: s.visited, column.fullyQualifiedName :: s.recStack⟩))).map
          fun result => result.map fun (found, s) =>
            if found then (found, s)
            else (false, { s with recStack := s.recStack.filter (· ≠ column.fullyQualifiedName) })

def detectCycle (fuel : Nat) (column : ColumnRef) : Option (Except ColumnStoreError Bool) :=
  (store.detectCycleDfs fuel column ⟨[], []⟩).map fun result => result.map Prod.fst

/-! ## The graph -/

def Holds (event : ColumnLineageEvent F J) : Prop :=
  ∃ name stored, store.byColumn.get name = some stored ∧
    event ∈ stored.decode.filterMap SerializableColumnLineageEvent.tryInto

def Filed : Prop :=
  ∀ name stored, store.byColumn.get name = some stored →
    ∃ events : List (ColumnLineageEvent F J),
      stored.decode.mapM SerializableColumnLineageEvent.tryInto = some events ∧
        ∀ event ∈ events, event.name = name

/-- Some event derives `target` from `source`, as `key` tells columns apart. -/
def Feeds {K : Type} (key : ColumnRef → K) (source target : K) : Prop :=
  ∃ event, store.Holds event ∧ key event.targetColumn = target ∧
    ∃ column ∈ event.sourceColumns, key column = source

def ReachesCycle {K : Type} (key : ColumnRef → K) (column : ColumnRef) : Prop :=
  ∃ x, ReflTransGen (store.Feeds key) x (key column) ∧ TransGen (store.Feeds key) x x

/-- The detection ends, without an error, and finds exactly the cycles that can be got to. -/
def DetectsExactly {K : Type} (key : ColumnRef → K) (column : ColumnRef) : Prop :=
  ∃ found steps, (∀ fuel ≥ steps, store.detectCycle fuel column = some (.ok found)) ∧
    (found = true ↔ store.ReachesCycle key column)

end ColumnLineageStore

def ColumnRef.identity (column : ColumnRef) : String × Option String × String × String :=
  (column.datasourceId, column.schema, column.tableName, column.columnName)

def nameOf (identity : String × Option String × String × String) : String :=
  ColumnRef.fullyQualifiedName ⟨identity.1, identity.2.1, identity.2.2.1, identity.2.2.2, ""⟩

/-! ## What the events of a column are -/

namespace ColumnLineageStore

variable {store : ColumnLineageStore F J}

/-- What calls leave is filed, where the metadata that they record reads back. -/
theorem filed_columnStoreAfter {calls : List (List (ColumnLineageEvent F J))}
    (hreads : ∀ event ∈ calls.flatten, event.MetadataReadsBack) : (columnStoreAfter calls).Filed := by
  intro name stored hget
  rw [get_byColumn] at hget
  split_ifs at hget
  cases hget
  refine ⟨survivors (·.name) name calls, ?_, fun event hevent => (mem_survivors hevent).2⟩
  rw [StoredEvents.decode_encode]
  exact mapM_survivors hreads _

theorem filterMap_of_mapM {α β : Type} {f : α → Option β} {l : List α} {l' : List β}
    (h : l.mapM f = some l') : l.filterMap f = l' := by
  induction l generalizing l' with
  | nil => exact Option.some.inj h
  | cons a l ih =>
    rw [List.mapM_cons] at h
    obtain ⟨b, hb, h⟩ := Option.bind_eq_some_iff.mp h
    obtain ⟨l'', hl, h⟩ := Option.bind_eq_some_iff.mp h
    cases h
    rw [List.filterMap_cons_some hb, ih hl]

def successors (store : ColumnLineageStore F J) (name : String) : List String :=
  match store.byColumn.get name with
  | none => []
  | some stored => (stored.decode.filterMap
      (SerializableColumnLineageEvent.tryInto (J := J))).flatMap fun event =>
        event.sourceColumns.map ColumnRef.fullyQualifiedName

theorem getColumnLineage_sources (h : store.Filed) (column : ColumnRef) :
    ∃ events, store.getColumnLineage column = .ok events ∧
      (sourcesOf column events).map ColumnRef.fullyQualifiedName =
        store.successors column.fullyQualifiedName := by
  unfold getColumnLineage successors
  cases hget : store.byColumn.get column.fullyQualifiedName with
  | some stored =>
    obtain ⟨events, hevents, hnames⟩ := h _ _ hget
    simp only [hevents, filterMap_of_mapM hevents]
    refine ⟨events, rfl, ?_⟩
    have hall : (events.filter fun event =>
        event.targetColumn.fullyQualifiedName = column.fullyQualifiedName) = events :=
      List.filter_eq_self.mpr fun event hevent => decide_eq_true (hnames event hevent)
    rw [sourcesOf, hall, List.map_flatMap]
  | none =>
    have hnone : ∀ targets, sourcesOf column (store.eventsFromSource column targets) = [] := by
      intro targets
      rw [sourcesOf, List.flatMap_eq_nil_iff]
      intro event hevent
      obtain ⟨hmem, hname⟩ := List.mem_filter.mp hevent
      obtain ⟨target, -, hmem⟩ := List.mem_flatMap.mp hmem
      cases htarget : store.byColumn.get target.fullyQualifiedName with
      | none => simp only [htarget, List.not_mem_nil] at hmem
      | some stored =>
        obtain ⟨events, hevents, hnames⟩ := h _ _ htarget
        simp only [htarget, filterMap_of_mapM hevents] at hmem
        have heq := hnames event (List.mem_filter.mp hmem).1
        rw [← of_decide_eq_true hname, show event.targetColumn.fullyQualifiedName = _ from heq] at hget
        exact nomatch htarget.symm.trans hget
    cases store.bySourceColumn.get column.fullyQualifiedName with
    | none => exact ⟨[], rfl, rfl⟩
    | some targets => exact ⟨_, rfl, by rw [hnone, List.map_nil]⟩

theorem mem_successors (h : store.Filed) {source target : String} :
    source ∈ store.successors target ↔ store.Feeds ColumnRef.fullyQualifiedName source target := by
  unfold successors
  constructor
  · intro hmem
    cases hget : store.byColumn.get target with
    | none => simp only [hget, List.not_mem_nil] at hmem
    | some stored =>
      obtain ⟨events, hevents, hnames⟩ := h _ _ hget
      simp only [hget] at hmem
      obtain ⟨event, hevent, hsource⟩ := List.mem_flatMap.mp hmem
      refine ⟨event, ⟨target, stored, hget, hevent⟩, ?_, List.mem_map.mp hsource⟩
      exact hnames event (filterMap_of_mapM hevents ▸ hevent)
  · rintro ⟨event, ⟨name, stored, hget, hevent⟩, htarget, hsource⟩
    obtain ⟨events, hevents, hnames⟩ := h _ _ hget
    have hname : name = target :=
      (hnames event (filterMap_of_mapM hevents ▸ hevent)).symm.trans htarget
    subst hname
    simp only [hget]
    exact List.mem_flatMap.mpr ⟨event, hevent, List.mem_map.mpr hsource⟩

/-! ## The search -/

variable {column : ColumnRef}

theorem detectCycleDfs_of_visited {fuel : Nat} {s : Search String} {result : Bool × Search String}
    (hs : s.recStack ⊆ s.visited) (hvisited : column.fullyQualifiedName ∈ s.visited)
    (hresult : Search.visitSuccessor (Search.hasCycle store.successors fuel) (false, s)
      column.fullyQualifiedName = some result) :
    store.detectCycleDfs (fuel + 1) column s = some (.ok result) ∧
      result.2.recStack ⊆ result.2.visited := by
  rw [visitSuccessor, if_neg Bool.false_ne_true, if_neg (not_not_intro hvisited)] at hresult
  cases hresult
  refine ⟨?_, hs⟩
  rw [detectCycleDfs]
  by_cases hstack : column.fullyQualifiedName ∈ s.recStack
  · rw [if_pos hstack, decide_eq_true hstack]
  · rw [if_neg hstack, if_pos hvisited, decide_eq_false hstack]

theorem foldlM_visitSource {onNames : String → Search String → Option (Bool × Search String)}
    {rec : ColumnRef → Search String → Option (Except ColumnStoreError (Bool × Search String))}
    (hrec : ∀ (column : ColumnRef) (s : Search String) (result : Bool × Search String),
      s.recStack ⊆ s.visited →
      Search.visitSuccessor onNames (false, s) column.fullyQualifiedName = some result →
        rec column s = some (.ok result) ∧ result.2.recStack ⊆ result.2.visited)
    {sources : List ColumnRef} {state result : Bool × Search String}
    (hstate : state.2.recStack ⊆ state.2.visited)
    (h : (sources.map ColumnRef.fullyQualifiedName).foldlM (Search.visitSuccessor onNames) state =
      some result) :
    sources.foldlM (visitSource rec) (.ok state) = some (.ok result) ∧
      result.2.recStack ⊆ result.2.visited := by
  induction sources generalizing state with
  | nil =>
    cases h
    exact ⟨rfl, hstate⟩
  | cons source sources ih =>
    obtain ⟨found, s⟩ := state
    rw [List.map_cons, List.foldlM_cons] at h
    obtain ⟨state', hstep, hrest⟩ := Option.bind_eq_some_iff.mp h
    have hstep' : visitSource rec (.ok (found, s)) source = some (.ok state') ∧
        state'.2.recStack ⊆ state'.2.visited := by
      cases found with
      | true =>
        cases hstep
        exact ⟨rfl, hstate⟩
      | false => exact hrec source s state' hstate hstep
    rw [List.foldlM_cons, hstep'.1]
    exact ih hstep'.2 hrest

/-- **What a search on the names finds**, the search over the reads finds. -/
theorem detectCycleDfs_eq (h : store.Filed) {fuel : Nat} {s : Search String}
    {result : Bool × Search String} (hs : s.recStack ⊆ s.visited)
    (hresult : Search.visitSuccessor (Search.hasCycle store.successors fuel) (false, s)
      column.fullyQualifiedName = some result) :
    store.detectCycleDfs (fuel + 1) column s = some (.ok result) ∧
      result.2.recStack ⊆ result.2.visited := by
  induction fuel generalizing column s result with
  | zero =>
    by_cases hvisited : column.fullyQualifiedName ∈ s.visited
    · exact detectCycleDfs_of_visited hs hvisited hresult
    · rw [visitSuccessor, if_neg Bool.false_ne_true, if_pos hvisited] at hresult
      cases hresult
  | succ fuel ih =>
    by_cases hvisited : column.fullyQualifiedName ∈ s.visited
    · exact detectCycleDfs_of_visited hs hvisited hresult
    · rw [visitSuccessor, if_neg Bool.false_ne_true, if_pos hvisited, hasCycle] at hresult
      obtain ⟨inner, hfold, rfl⟩ := Option.map_eq_some_iff.mp hresult
      obtain ⟨events, hevents, hsources⟩ := getColumnLineage_sources h column
      rw [← hsources] at hfold
      obtain ⟨hvisits, hstacked⟩ := foldlM_visitSource (fun _ _ _ => ih)
        (List.cons_subset_cons column.fullyQualifiedName hs) hfold
      rw [detectCycleDfs, if_neg fun hmem => hvisited (hs hmem), if_neg hvisited]
      simp only [hevents, hvisits]
      obtain ⟨found, s'⟩ := inner
      cases found with
      | true => exact ⟨rfl, hstacked⟩
      | false => exact ⟨rfl, fun name hname => hstacked (List.mem_filter.mp hname).1⟩

theorem mem_names {source target : String}
    (hmem : source ∈ store.successors target) :
    source ∈ store.byColumn.keys.flatMap store.successors := by
  refine List.mem_flatMap.mpr ⟨target, ?_, hmem⟩
  unfold successors at hmem
  cases hget : store.byColumn.get target with
  | none => simp only [hget, List.not_mem_nil] at hmem
  | some stored => exact BTreeMap.mem_keys.mpr ⟨stored, hget⟩

/-- **The detection by names** ends, without an error, and is exact. -/
theorem detectsExactly_names (h : store.Filed) (column : ColumnRef) :
    store.DetectsExactly ColumnRef.fullyQualifiedName column := by
  have hedge : Search.Edge store.successors = store.Feeds fullyQualifiedName :=
    funext fun source => funext fun target => propext (mem_successors h)
  let names := column.fullyQualifiedName :: store.byColumn.keys.flatMap store.successors
  have hsearch : ∀ fuel ≥ names.length, ∃ result,
      hasCycle store.successors fuel column.fullyQualifiedName ⟨[], []⟩ = some result ∧
        store.detectCycle (fuel + 1) column = some (.ok result.1) ∧
        (result.1 = true ↔ store.ReachesCycle fullyQualifiedName column) := by
    intro fuel hfuel
    have hunvisited : unvisited names ⟨[], []⟩ ≤ fuel :=
      Nat.le_trans (List.length_filter_le ..) hfuel
    obtain ⟨result, hresult, -⟩ := hasCycle_isSome
      (fun _ _ hmem => List.mem_cons_of_mem _ (mem_names hmem)) (List.mem_cons_self ..)
      List.not_mem_nil hunvisited
    have hvisit : visitSuccessor (hasCycle store.successors fuel) (false, ⟨[], []⟩)
        column.fullyQualifiedName = some result := by
      rw [visitSuccessor, if_neg Bool.false_ne_true, if_pos List.not_mem_nil, hresult]
    have hdfs := (detectCycleDfs_eq h (List.Subset.refl _) hvisit).1
    refine ⟨result, hresult, by rw [detectCycle, hdfs]; rfl, ?_⟩
    rw [hasCycle_iff hresult, hedge]
    rfl
  obtain ⟨result, -, -, hresult⟩ := hsearch names.length (Nat.le_refl _)
  refine ⟨result.1, names.length + 1, fun fuel hfuel => ?_, hresult⟩
  obtain ⟨fuel, rfl⟩ : ∃ n, fuel = n + 1 := ⟨fuel - 1, by omega⟩
  obtain ⟨result', -, hdetect, hresult'⟩ := hsearch fuel (by omega)
  rw [hdetect, Bool.eq_iff_iff.mpr (hresult'.trans hresult.symm)]

/-! ## Names and columns -/

theorem DetectsExactly.iff {K L : Type} {key : ColumnRef → K} {key' : ColumnRef → L}
    (h : store.DetectsExactly key column) :
    store.DetectsExactly key' column ↔
      (store.ReachesCycle key column ↔ store.ReachesCycle key' column) := by
  obtain ⟨found, steps, hdetect, hfound⟩ := h
  constructor
  · rintro ⟨found', steps', hdetect', hfound'⟩
    have heq := (hdetect (max steps steps') (Nat.le_max_left ..)).symm.trans
      (hdetect' _ (Nat.le_max_right ..))
    cases heq
    exact hfound.symm.trans hfound'
  · intro hiff
    exact ⟨found, steps, hdetect, hfound.trans hiff⟩

theorem Feeds.of_key {K L : Type} {key : ColumnRef → K} {f : K → L} {source target : K}
    (h : store.Feeds key source target) : store.Feeds (f ∘ key) (f source) (f target) := by
  obtain ⟨event, hevent, htarget, column, hcolumn, hsource⟩ := h
  exact ⟨event, hevent, congrArg f htarget, column, hcolumn, congrArg f hsource⟩

theorem ReachesCycle.of_key {K L : Type} {key : ColumnRef → K} {f : K → L}
    (h : store.ReachesCycle key column) : store.ReachesCycle (f ∘ key) column := by
  obtain ⟨x, hway, hcycle⟩ := h
  exact ⟨f x, hway.lift f fun _ _ => Feeds.of_key, hcycle.lift f fun _ _ => Feeds.of_key⟩

def Occurs (store : ColumnLineageStore F J) (column other : ColumnRef) : Prop :=
  other = column ∨ ∃ event, store.Holds event ∧
    (other = event.targetColumn ∨ other ∈ event.sourceColumns)

theorem reachesCycle_of_apart (hapart : ∀ a b, store.Occurs column a → store.Occurs column b →
      a.fullyQualifiedName = b.fullyQualifiedName → a.identity = b.identity)
    (h : store.ReachesCycle ColumnRef.fullyQualifiedName column) :
    store.ReachesCycle ColumnRef.identity column := by
  classical
  -- the column that a name is the name of
  let named : String → String × Option String × String × String := fun name =>
    if hname : ∃ a, store.Occurs column a ∧ a.fullyQualifiedName = name then hname.choose.identity
    else column.identity
  have hnamed : ∀ a, store.Occurs column a → named a.fullyQualifiedName = a.identity := by
    intro a ha
    have hname : ∃ b, store.Occurs column b ∧ b.fullyQualifiedName = a.fullyQualifiedName :=
      ⟨a, ha, rfl⟩
    refine (dif_pos hname).trans ?_
    exact hapart _ _ hname.choose_spec.1 ha hname.choose_spec.2
  have hfeeds : ∀ source target, store.Feeds fullyQualifiedName source target →
      store.Feeds identity (named source) (named target) := by
    rintro _ _ ⟨event, hevent, rfl, other, hother, rfl⟩
    exact ⟨event, hevent, (hnamed _ (.inr ⟨event, hevent, .inl rfl⟩)).symm, other, hother,
      (hnamed _ (.inr ⟨event, hevent, .inr hother⟩)).symm⟩
  obtain ⟨x, hway, hcycle⟩ := h
  refine ⟨named x, ?_, hcycle.lift named hfeeds⟩
  rw [← hnamed column (.inl rfl)]
  exact hway.lift named hfeeds

theorem holds_columnStoreAfter {calls : List (List (ColumnLineageEvent F J))}
    (hreads : ∀ event ∈ calls.flatten, event.MetadataReadsBack) {event : ColumnLineageEvent F J} :
    (columnStoreAfter calls).Holds event ↔ event ∈ survivors (·.name) event.name calls := by
  constructor
  · rintro ⟨name, stored, hget, hevent⟩
    rw [get_byColumn] at hget
    split_ifs at hget
    cases hget
    rw [StoredEvents.decode_encode, filterMap_of_mapM (mapM_survivors hreads _)] at hevent
    rwa [(mem_survivors hevent).2]
  · intro hevent
    refine ⟨event.name, _, (get_byColumn calls event.name).trans
      (if_neg (List.ne_nil_of_mem hevent)), ?_⟩
    rwa [StoredEvents.decode_encode, filterMap_of_mapM (mapM_survivors hreads _)]

end ColumnLineageStore

def stagedEmail : ColumnRef := ⟨"crm.prod", none, "users", "email", "VARCHAR"⟩

def crmEmail : ColumnRef := ⟨"crm", some "prod", "users", "email", "VARCHAR"⟩

def stagedCopy : ColumnLineageEvent Unit Bool :=
  { copyInto "load" crmEmail with sourceColumns := [stagedEmail] }

theorem stagedCopy_reads : ∀ event ∈ [[stagedCopy]].flatten, event.MetadataReadsBack := by decide

def itemsPrice : ColumnRef := ⟨"shop", none, "items", "price", "INTEGER"⟩

def summedTotal : ColumnLineageEvent Unit Bool :=
  { copyInto "e1" ordersTotal with metadata := some true }

def spreadPrice : ColumnLineageEvent Unit Bool :=
  { copyInto "e2" itemsPrice with sourceColumns := [ordersTotal] }

/-- The total is computed from the price, and in a later call the price from the total. -/
def looped : List (List (ColumnLineageEvent Unit Bool)) := [[summedTotal], [spreadPrice]]

theorem looped_reads : ∀ event ∈ looped.flatten, event.MetadataReadsBack := by decide

end Arcxa.Lineage
