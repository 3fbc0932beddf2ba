import Arcxa.Workflow.Deduplicator
import Arcxa.Workflow.KeepsFirst

/-!
# Which rows the paths of the deduplicator step select

The batch operator and the pass in memory keep the first row of each key, whatever the
method and the keep strategy (`onRows_eq`, `medium_selects`). The batch operator reads the
keys from the columns of a frame, and so it needs rows that a frame holds without loss.

The workflow executor applies the keep strategy to each group, and the large path asks the
state manager. Both build the key in their own way, but in the same one
(`executeGroups_perm`, `large_selects`). It is the key of the other two where no key field
is missing and the method is not fuzzy (`buildKeyForRow_eq`).

`deduplicator_paths_agree` puts this together, and `paths_disagree` shows that none of the
conditions can go.
-/

namespace Arcxa.Workflow

variable {F : Type} [Float64 F]

/-! ## The batch operator -/

section Batch

variable {objects : List (Row F)} {frame : BatchFrame F}

open DeduplicatorBatchOperator

theorem dedupCellString_eq {column : Column F} {dataType : DataType}
    (htype : column.dataType = dataType) (i : Nat) :
    dedupCellString dataType column i = .ok (OptimizedStepExecutor.valueText (column.value i)) := by
  unfold dedupCellString
  rw [htype]
  simp only [if_true]
  cases column with
  | boolean cells | int64 cells | float64 cells | utf8 cells =>
    simp only [cellString, Column.value, Column.values, List.getElem?_map]
    rcases cells[i]? with - | - | x <;> rfl

theorem keyPart_eq (h : FrameOf objects frame) {i : Nat} {object : Row F}
    (hobject : objects[i]? = some object) (field : String) :
    keyPart i ((frame.schema.zip frame.columns).find? (fun p => p.1.name = field)) =
      .ok (OptimizedStepExecutor.fieldText (.ofRow object) field) := by
  unfold OptimizedStepExecutor.fieldText
  rw [Value.get_ofRow]
  rcases h.find?_column hobject field with ⟨p, hfind, htype, hvalue⟩ | ⟨hfind, hmissing⟩
  · rw [hfind, keyPart, dedupCellString_eq htype, hvalue]
    rfl
  · rw [hfind, hmissing]
    rfl

theorem buildDedupKey_eq (h : FrameOf objects frame) {i : Nat} {object : Row F}
    (hobject : objects[i]? = some object) (keyFields : List String) :
    buildDedupKey (keyColumns frame keyFields) i =
      .ok (OptimizedStepExecutor.buildDedupKey keyFields (.ofRow object)) := by
  obtain ⟨keyParts, hmapM, hparts⟩ := mapM_eq_ok (g := id)
    (fun field (_ : field ∈ keyFields) => ⟨_, keyPart_eq h hobject field, rfl⟩)
  unfold buildDedupKey keyColumns
  rw [List.mapM_map]
  rw [List.map_id] at hparts
  show (do let keyParts ← keyFields.mapM (fun field => keyPart i _); return joinKey keyParts) = _
  rw [hmapM, hparts]
  rfl

theorem foldlM_eq_ok {α σ ε : Type} {f : σ → α → Except ε σ} {g : σ → α → σ} {l : List α}
    (h : ∀ a ∈ l, ∀ s, f s a = .ok (g s a)) (s : σ) : l.foldlM f s = .ok (l.foldl g s) := by
  induction l generalizing s with
  | nil => rfl
  | cons a l ih =>
    rw [List.foldlM_cons, h a List.mem_cons_self, List.foldl_cons]
    exact ih (fun b hb => h b (List.mem_cons_of_mem _ hb)) _

theorem keepIndices_eq (h : FrameOf objects frame) (keyFields : List String) :
    ∃ keyAt : Nat → String,
      (∀ i row, (objects.map Value.ofRow)[i]? = some row →
        keyAt i = OptimizedStepExecutor.buildDedupKey keyFields row) ∧
      keepIndices (keyColumns frame keyFields) frame.rowCount =
        .ok (firsts keyAt (List.range objects.length)) := by
  let keyAt : Nat → String := fun i =>
    ((objects.map Value.ofRow)[i]?).elim "" (OptimizedStepExecutor.buildDedupKey keyFields)
  have hkeyAt : ∀ i row, (objects.map Value.ofRow)[i]? = some row →
      keyAt i = OptimizedStepExecutor.buildDedupKey keyFields row := by
    intro i row hrow
    simp only [keyAt, hrow, Option.elim_some]
  refine ⟨keyAt, hkeyAt, ?_⟩
  have hstep : ∀ i ∈ List.range objects.length, ∀ state : List String × List Nat,
      (do
        let key ← buildDedupKey (keyColumns frame keyFields) i
        return insertUnseen (fun _ => key) state i) = Except.ok (insertUnseen keyAt state i) := by
    intro i hi state
    have hobject := List.getElem?_eq_getElem (List.mem_range.mp hi)
    rw [buildDedupKey_eq h hobject]
    show Except.ok (insertUnseen (fun _ => _) state i) = _
    have hkey := hkeyAt i (.ofRow _) (by rw [List.getElem?_map, hobject]; rfl)
    unfold insertUnseen
    rw [hkey]
  unfold keepIndices
  rw [h.rowCount, foldlM_eq_ok hstep]
  show Except.ok _ = _
  rw [foldl_insertUnseen_nil]

/-- **The batch operator keeps the first row of each key**, whatever the method and the keep
strategy. -/
theorem onRows_eq (hlossless : Lossless objects) (config : DeduplicatorConfig F) :
    onRows (objects.map Value.ofRow) config =
      .ok (firsts (OptimizedStepExecutor.buildDedupKey config.keyFields)
        (objects.map Value.ofRow)) := by
  have hframe := frameOf_builtFrame hlossless
  obtain ⟨keyAt, hkeyAt, hkeep⟩ := keepIndices_eq hframe config.keyFields
  have hindices : ∀ i ∈ firsts keyAt (List.range objects.length), i < objects.length :=
    fun i hi => List.mem_range.mp (mem_of_mem_firsts hi)
  have hexecute : execute (builtFrame objects) config =
      .ok (builtFrame ((firsts keyAt (List.range objects.length)).filterMap (objects[·]?))) := by
    unfold execute
    rw [hkeep]
    exact selectRows_eq hlossless hindices
  have hsub : Lossless ((firsts keyAt (List.range objects.length)).filterMap (objects[·]?)) :=
    hlossless.filterMap_getElem? _
  unfold onRows
  rw [BatchFrame.fromJsonValues_eq hlossless]
  show (do let deduped ← execute (builtFrame objects) config; deduped.toJsonValues) = _
  rw [hexecute]
  show BatchFrame.toJsonValues _ = _
  rw [(frameOf_builtFrame hsub).toJsonValues_eq, List.map_filterMap, ← filterMap_range_firsts hkeyAt,
    List.length_map]
  simp only [List.getElem?_map]

end Batch

/-! ## The optimized executor -/

def Selects (run : Nat → Option (Except WorkflowError (List (Value F)))) (kept : List (Value F)) :
    Prop :=
  ∃ fuel, run fuel = some (.ok kept)

section Optimized

open OptimizedStepExecutor

variable {rt : DedupRuntime F} {storage : RowStorage F} {rows : List (Value F)}

theorem medium_selects (h : Presents rt.fromSlice storage 1000 rows) (config : DeduplicatorConfig F) :
    Selects (streamingDeduplicateMedium rt storage config)
      (firsts (buildDedupKey config.keyFields) rows) := by
  obtain ⟨batches, ⟨fuel, hcollect⟩, hflatten⟩ := h.batchIterator
  refine ⟨fuel, ?_⟩
  unfold streamingDeduplicateMedium
  rw [hcollect]
  show some (Except.ok (List.foldl _ ([], []) batches).2) = _
  rw [← List.foldl_flatten, hflatten, foldl_insertUnseen_nil]

omit [Float64 F] in
theorem firsts_keyed (key : Value F → String) (batches : List (List (Value F))) :
    (firsts Prod.fst (batches.map (fun batch => batch.map (fun row => (key row, row)))).flatten).map
      Prod.snd = firsts key batches.flatten := by
  rw [← List.map_flatten, firsts_map, List.map_map]
  exact List.map_id _

/-- The state manager of the large path finds every key it was given, and no other
(`keepsFirst_iff`). -/
def FindsKeys (rt : DedupRuntime F) (storage : RowStorage F) (config : DeduplicatorConfig F) : Prop :=
  ∀ manager batches,
    DedupStateManager.new rt.newForFpRate (some rt.rocksDb) rt.executionId rt.timestamp
      (largeConfig storage.len config) = .ok manager →
    Yields (BatchIterator.next rt.fromSlice) (.new storage 10000) batches →
    DedupAudit.NoLostKey rt.clock rt.rocksDb ⟨manager, [], []⟩
      (batches.map (StreamingDeduplicator.buildDedupKeys rt.toLowercase config))

open StreamingDeduplicator

theorem large_selects (h : Presents rt.fromSlice storage 10000 rows)
    (hids : ∀ row ∈ rows, RowIdFits row) {config : DeduplicatorConfig F} (hkeep : config.keep = .First)
    (hkeys : FindsKeys rt storage config) :
    Selects (streamingDeduplicateLarge rt storage config)
      (firsts (StreamingDeduplicator.buildKeyForRow rt.toLowercase config) rows) := by
  obtain ⟨batches, hyields, hflatten⟩ := h.batchIterator
  have hcache : 0 < (largeConfig storage.len config).cacheSize := by
    unfold largeConfig
    dsimp only
    split_ifs <;> decide
  obtain ⟨manager, hnew⟩ : ∃ manager, DedupStateManager.new rt.newForFpRate (some rt.rocksDb)
      rt.executionId rt.timestamp (largeConfig storage.len config) = .ok manager :=
    ⟨_, dif_pos hcache⟩
  have hbatches : ∀ batch ∈ batches.map (buildDedupKeys rt.toLowercase config),
      ∀ keyed ∈ batch, Codec.string.option.RoundTrips (rowIdOf keyed.2) := by
    intro batch hbatch keyed hkeyed
    obtain ⟨batch, hmem, rfl⟩ := List.mem_map.mp hbatch
    obtain ⟨row, hrow, rfl⟩ := List.mem_map.mp hkeyed
    refine (hids row ?_).roundTrips
    rw [← hflatten]
    exact List.mem_flatten_of_mem hmem hrow
  have hfirst : KeepsFirst (manager.processBatches rt.clock .First _).1
      (batches.map (buildDedupKeys rt.toLowercase config)) :=
    ((tracks_new hnew).keptBatches_iff rt.clock hbatches).mpr (hkeys manager batches hnew hyields)
  obtain ⟨fuel, hcollect⟩ := hyields
  refine ⟨fuel, ?_⟩
  have hcollect' : collect (BatchIterator.next rt.fromSlice) fuel
    (.new storage (largeConfig storage.len config).batchSize) = some (.ok batches) := hcollect
  unfold streamingDeduplicateLarge executeAndGetRows
  rw [hcollect', hnew]
  show some (Except.ok (List.filterMap _ (List.flatten (DedupStateManager.processBatches rt.clock
    config.keep manager (batches.map (buildDedupKeys _ config))).1))) = _
  rw [hkeep, hfirst.filterMap_keptRow, ← hflatten]
  exact congrArg (fun kept => some (Except.ok kept)) (firsts_keyed _ batches)

end Optimized

/-! ## The workflow executor -/

section Groups

open WorkflowExecutor

variable {config : DeduplicatorConfig F}

theorem executeGroups_perm (rt : DedupRuntime F) (hkeep : config.keep ≠ .Last)
    (hash : HashOrder (String × List Nat))
    (rows : List (Value F)) :
    (executeGroups rt hash rows config).Perm
      (firsts (StreamingDeduplicator.buildKeyForRow rt.toLowercase config) rows) := by
  let key := StreamingDeduplicator.buildKeyForRow rt.toLowercase config
  let groups := rows.zipIdx.foldl (fun groups p => pushGroup groups (key p.1) p.2) []
  have hkept : ∀ group, keptIndex config.keep group = group.head? := by
    intro group
    cases hconfig : config.keep with
    | Last => exact absurd hconfig hkeep
    | First | Merge | HighestQuality => rfl
  have hheads : groups.map (fun g => g.2.head?) =
      (firsts (key ∘ Prod.fst) rows.zipIdx).map (fun p => some p.2) :=
    heads_foldl_pushGroup (key ∘ Prod.fst) Prod.snd (by simp) rows.zipIdx
  have hgroups : groups.filterMap (fun g => (keptIndex config.keep g.2).bind (rows[·]?)) =
      firsts key rows := by
    simp only [hkept]
    calc groups.filterMap (fun g => g.2.head?.bind (rows[·]?))
        = (groups.map (fun g => g.2.head?)).filterMap (fun i => i.bind (rows[·]?)) := by
          rw [List.filterMap_map]
          rfl
      _ = (firsts (key ∘ Prod.fst) rows.zipIdx).filterMap (fun p => rows[p.2]?) := by
          rw [hheads, List.filterMap_map]
          rfl
      _ = firsts key rows := filterMap_zipIdx_firsts key rows
  rw [← hgroups]
  exact (hash.perm groups).filterMap _

end Groups

/-! ## Keys -/

section Keys

theorem fieldText_eq {row : Value F} {field : String} (h : row.get field ≠ none) :
    StreamingDeduplicator.fieldText row field = OptimizedStepExecutor.fieldText row field := by
  obtain ⟨v, hv⟩ := Option.ne_none_iff_exists'.mp h
  unfold StreamingDeduplicator.fieldText OptimizedStepExecutor.fieldText
  rw [hv]
  cases v <;> simp [OptimizedStepExecutor.valueText, Value.toString]

def DedupMethod.isFuzzy : DedupMethod → Bool
  | .Fuzzy _ => true
  | _ => false

theorem buildKeyForRow_eq {config : DeduplicatorConfig F} {row : Value F}
    (hmethod : config.method.isFuzzy = false) (hfields : ∀ field ∈ config.keyFields, row.get field ≠ none)
    (toLowercase : String → String) :
    StreamingDeduplicator.buildKeyForRow toLowercase config row =
      OptimizedStepExecutor.buildDedupKey config.keyFields row := by
  unfold StreamingDeduplicator.buildKeyForRow OptimizedStepExecutor.buildDedupKey
  rw [List.map_congr_left (fun field hfield => fieldText_eq (hfields field hfield))]
  cases hconfig : config.method with
  | Exact | Semantic => rfl
  | Fuzzy =>
    rw [hconfig] at hmethod
    cases hmethod

end Keys

/-! ## Agreement -/

section Agreement

open OptimizedStepExecutor (streamingDeduplicateMedium streamingDeduplicateLarge executionPath)

variable {rt : DedupRuntime F} {config : DeduplicatorConfig F} {storage : RowStorage F}
  {rows : List (Value F)}

def HasKeyFields (config : DeduplicatorConfig F) (rows : List (Value F)) : Prop :=
  ∀ row ∈ rows, ∀ field ∈ config.keyFields, row.get field ≠ none

/-- What the paths select of the rows. -/
structure PathsAgree (rt : DedupRuntime F) (config : DeduplicatorConfig F) (storage : RowStorage F)
    (rows kept : List (Value F)) : Prop where
  /-- The batch operator and the pass in memory, for every method and keep strategy. -/
  medium : Selects (streamingDeduplicateMedium rt storage config) kept
  batch : HomogeneousRows rows → DeduplicatorBatchOperator.onRows rows config = .ok kept
  /-- So the threshold of 10,000 rows does not matter. -/
  optimized : HomogeneousRows rows → rows.length ≤ 100000 →
    Selects (OptimizedStepExecutor.executeDeduplicator rt storage config) kept
  /-- The workflow executor, unless it folds keys or is asked for the last row. -/
  groups : config.keep ≠ .Last → config.method.isFuzzy = false → HasKeyFields config rows →
    ∀ hash, (WorkflowExecutor.executeGroups rt hash rows config).Perm kept
  workflow : HomogeneousRows rows → config.keep ≠ .Last → config.method.isFuzzy = false →
    HasKeyFields config rows → ∀ hash hasLineage,
      (WorkflowExecutor.executeDeduplicator rt hash hasLineage rows config).Perm kept
  /-- The large path has the keys of the workflow executor, for every method. -/
  large_groups : config.keep = .First → FindsKeys rt storage config →
    ∃ kept', Selects (streamingDeduplicateLarge rt storage config) kept' ∧
      ∀ hash, (WorkflowExecutor.executeGroups rt hash rows config).Perm kept'
  /-- All paths, so that the threshold of 100,000 rows does not matter either. -/
  large : config.keep = .First → FindsKeys rt storage config → config.method.isFuzzy = false →
    HasKeyFields config rows → Selects (streamingDeduplicateLarge rt storage config) kept
  optimized_large : HomogeneousRows rows → config.keep = .First → FindsKeys rt storage config →
    config.method.isFuzzy = false → HasKeyFields config rows →
      Selects (OptimizedStepExecutor.executeDeduplicator rt storage config) kept

open OptimizedStepExecutor

theorem executeDeduplicator_selects {kept : List (Value F)}
    (hvec : RowAccessor.toVec rt.fromSlice storage = .ok rows)
    (hbatch : DeduplicatorBatchOperator.onRows rows config = .ok kept)
    (hmedium : Selects (streamingDeduplicateMedium rt storage config) kept)
    (hlarge : executionPath storage.len = .streamingDisk →
      Selects (streamingDeduplicateLarge rt storage config) kept) :
    Selects (OptimizedStepExecutor.executeDeduplicator rt storage config) kept := by
  unfold Selects executeDeduplicator
  cases hpath : executionPath storage.len with
  | streamingDisk => exact hlarge hpath
  | streamingMemory => exact hmedium
  | batchFrame =>
    refine ⟨0, ?_⟩
    dsimp only
    rw [hvec]
    exact congrArg some hbatch

theorem workflow_perm {kept : List (Value F)}
    (hbatch : DeduplicatorBatchOperator.onRows rows config = .ok kept)
    {hash : HashOrder (String × List Nat)}
    (hgroups : (WorkflowExecutor.executeGroups rt hash rows config).Perm kept) (hasLineage : Bool) :
    (WorkflowExecutor.executeDeduplicator rt hash hasLineage rows config).Perm kept := by
  unfold WorkflowExecutor.executeDeduplicator WorkflowExecutor.tryExecuteDeduplicatorBatch
  rw [hbatch]
  split
  · next deduped htry =>
    split_ifs at htry
    cases htry
    exact List.Perm.refl _
  · exact hgroups

theorem HasKeyFields.firsts_eq (h : HasKeyFields config rows)
    (hmethod : config.method.isFuzzy = false) (toLowercase : String → String) :
    firsts (StreamingDeduplicator.buildKeyForRow toLowercase config) rows =
      firsts (OptimizedStepExecutor.buildDedupKey config.keyFields) rows :=
  firsts_congr_key (fun row hrow => buildKeyForRow_eq hmethod (h row hrow) toLowercase)

/-- **Where the paths of the deduplicator step agree**, on all rows that are read from a storage
that presents them: what they select is the first row of each key. -/
theorem deduplicator_paths_agree (rt : DedupRuntime F) (config : DeduplicatorConfig F)
    (h1000 : Presents rt.fromSlice storage 1000 rows)
    (h10000 : Presents rt.fromSlice storage 10000 rows) (hids : ∀ row ∈ rows, RowIdFits row) :
    PathsAgree rt config storage rows
      (firsts (OptimizedStepExecutor.buildDedupKey config.keyFields) rows) := by
  have hmedium := medium_selects h1000 config
  have hbatch : HomogeneousRows rows → DeduplicatorBatchOperator.onRows rows config =
      .ok (firsts (buildDedupKey config.keyFields) rows) := by
    rintro ⟨objects, rfl, hlossless⟩
    exact onRows_eq hlossless config
  have hgroups : config.keep ≠ .Last → config.method.isFuzzy = false → HasKeyFields config rows →
      ∀ hash, (WorkflowExecutor.executeGroups rt hash rows config).Perm
        (firsts (buildDedupKey config.keyFields) rows) := by
    intro hkeep hmethod hfields hash
    rw [← hfields.firsts_eq hmethod rt.toLowercase]
    exact executeGroups_perm rt hkeep hash rows
  have hlarge : config.keep = .First → FindsKeys rt storage config → config.method.isFuzzy = false →
      HasKeyFields config rows → Selects (streamingDeduplicateLarge rt storage config)
        (firsts (buildDedupKey config.keyFields) rows) := by
    intro hkeep hkeys hmethod hfields
    rw [← hfields.firsts_eq hmethod rt.toLowercase]
    exact large_selects h10000 hids hkeep hkeys
  refine ⟨hmedium, hbatch, ?_, hgroups, ?_, ?_, hlarge, ?_⟩
  · intro hrows hsmall
    refine executeDeduplicator_selects h1000.toVec (hbatch hrows) hmedium ?_
    intro hpath
    unfold executionPath at hpath
    rw [h1000.len, if_neg (not_lt.mpr hsmall)] at hpath
    split_ifs at hpath
  · intro hrows hkeep hmethod hfields hash hasLineage
    exact workflow_perm (hbatch hrows) (hgroups hkeep hmethod hfields hash) hasLineage
  · intro hkeep hkeys
    have hnotLast : config.keep ≠ .Last := by
      rw [hkeep]
      decide
    exact ⟨_, large_selects h10000 hids hkeep hkeys,
      fun hash => executeGroups_perm rt hnotLast hash rows⟩
  · intro hrows hkeep hkeys hmethod hfields
    exact executeDeduplicator_selects h1000.toVec (hbatch hrows) hmedium
      (fun _ => hlarge hkeep hkeys hmethod hfields)

end Agreement

/-! ## Concrete rows -/

def sampleRuntime : DedupRuntime Int where
  fromSlice _ := .error "expected value at line 1 column 1"
  toLowercase s := String.ofList (s.toList.map Char.toLower)
  newForFpRate _ _ := exactFilter
  rocksDb _ := none
  executionId := "exec"
  timestamp := 0
  clock _ := 0

def byId (method : DedupMethod) (keep : KeepStrategy) : DeduplicatorConfig Int where
  method
  keyFields := ["id"]
  threshold := none
  keep

/-- The object with an `id` and a number. -/
def numberedObject (id : String) (n : JsonInt) : Row Int :=
  (BTreeMap.empty.insert "id" (.string id)).insert "n" (.number (.int n))

def threeObjects : List (Row Int) :=
  [numberedObject "a" (.ofByte 1), numberedObject "b" (.ofByte 2),
    numberedObject "a" (.ofByte 3)]

theorem mem_threeObjects {object : Row Int} (h : object ∈ threeObjects) :
    ∃ id n, object = numberedObject id n ∧ n.val < 2 ^ 63 := by
  unfold threeObjects at h
  simp only [List.mem_cons, List.not_mem_nil, or_false] at h
  rcases h with rfl | rfl | rfl <;> exact ⟨_, _, rfl, by decide⟩

theorem get_numberedObject (id : String) (n : JsonInt) (k : String) :
    (numberedObject id n).get k =
      if k = "n" then some (.number (.int n)) else if k = "id" then some (.string id) else none := by
  unfold numberedObject
  rw [BTreeMap.get_insert, BTreeMap.get_insert, BTreeMap.get_empty]

def threeRows : List (Value Int) := threeObjects.map .ofRow

theorem threeRows_homogeneous : HomogeneousRows threeRows := by
  refine ⟨threeObjects, rfl, (BTreeMap.empty.insert "id" .Utf8).insert "n" .Int64, ?_⟩
  intro object hobject k
  obtain ⟨id, n, rfl, hn⟩ := mem_threeObjects hobject
  rw [get_numberedObject, BTreeMap.get_insert, BTreeMap.get_insert, BTreeMap.get_empty]
  split_ifs
  · exact .some hn
  · exact .some trivial
  · exact .none

theorem threeRows_rowIdFits : ∀ row ∈ threeRows, RowIdFits row := by
  intro row hrow rowId hrowId
  obtain ⟨object, hobject, rfl⟩ := List.mem_map.mp hrow
  obtain ⟨id, n, rfl, -⟩ := mem_threeObjects hobject
  unfold rowIdOf at hrowId
  rw [Value.get_ofRow, get_numberedObject, if_neg (by decide), if_neg (by decide)] at hrowId
  cases hrowId

theorem threeRows_hasKeyFields : HasKeyFields (byId .Exact .First) threeRows := by
  intro row hrow field hfield
  obtain ⟨object, hobject, rfl⟩ := List.mem_map.mp hrow
  obtain ⟨id, n, rfl, -⟩ := mem_threeObjects hobject
  rw [List.mem_singleton.mp hfield, Value.get_ofRow, get_numberedObject, if_neg (by decide),
    if_pos rfl]
  exact Option.some_ne_none _

theorem threeRows_findsKeys :
    FindsKeys sampleRuntime (.InMemory threeRows) (byId .Exact .First) := by
  intro manager batches hnew hyields
  have hchunks : batches = chunks 10000 threeRows :=
    hyields.unique (yields_batches (enumerates_inline next_inMemory) (by decide) ⟨rfl, rfl⟩)
  have hone : chunks 10000 threeRows = [threeRows] :=
    chunks_of_length_le (by decide) (List.cons_ne_nil _ _) (by decide)
  rw [hchunks, hone]
  cases hnew
  decide +kernel

/-- All paths select the same of three rows. -/
theorem three_rows_agree :
    ∃ kept, PathsAgree sampleRuntime (byId .Exact .First) (.InMemory threeRows) threeRows kept ∧
      DeduplicatorBatchOperator.onRows threeRows (byId .Exact .First) = .ok kept ∧
      Selects (OptimizedStepExecutor.streamingDeduplicateLarge sampleRuntime (.InMemory threeRows)
        (byId .Exact .First)) kept := by
  have hagree := deduplicator_paths_agree sampleRuntime (byId .Exact .First)
    (presents_inMemory sampleRuntime.fromSlice (by decide) threeRows)
    (presents_inMemory sampleRuntime.fromSlice (by decide) threeRows) threeRows_rowIdFits
  exact ⟨_, hagree, hagree.batch threeRows_homogeneous,
    hagree.large rfl threeRows_findsKeys rfl threeRows_hasKeyFields⟩

def AllPathsAgree (rt : DedupRuntime F) (config : DeduplicatorConfig F) (rows : List (Value F)) :
    Prop :=
  ∃ batch medium large,
    DeduplicatorBatchOperator.onRows rows config = .ok batch ∧
    Selects (OptimizedStepExecutor.streamingDeduplicateMedium rt (.InMemory rows) config) medium ∧
    Selects (OptimizedStepExecutor.streamingDeduplicateLarge rt (.InMemory rows) config) large ∧
    medium.Perm batch ∧ large.Perm batch ∧
    ∀ hash hasLineage,
      (WorkflowExecutor.executeDeduplicator rt hash hasLineage rows config).Perm batch

def insertionOrder : HashOrder (String × List Nat) := ⟨id, List.Perm.refl⟩

def batchTexts (rows : List (Value Int)) (config : DeduplicatorConfig Int) : List String :=
  ((DeduplicatorBatchOperator.onRows rows config).toOption.getD []).map Value.toString

def workflowTexts (rows : List (Value Int)) (config : DeduplicatorConfig Int) : List String :=
  (WorkflowExecutor.executeDeduplicator sampleRuntime insertionOrder true rows config).map
    Value.toString

def largeTexts (rows : List (Value Int)) (config : DeduplicatorConfig Int) : Option (List String) :=
  ((OptimizedStepExecutor.streamingDeduplicateLarge sampleRuntime (.InMemory rows) config 3).bind
    Except.toOption).map (List.map Value.toString)

theorem AllPathsAgree.workflowTexts_perm {rows : List (Value Int)} {config : DeduplicatorConfig Int}
    (h : AllPathsAgree sampleRuntime config rows) :
    (workflowTexts rows config).Perm (batchTexts rows config) := by
  obtain ⟨batch, medium, large, hbatch, -, -, -, -, hworkflow⟩ := h
  unfold workflowTexts batchTexts
  rw [hbatch]
  exact (hworkflow insertionOrder true).map Value.toString

theorem Selects.large_unique {rt : DedupRuntime F} {storage : RowStorage F}
    {config : DeduplicatorConfig F} {kept kept' : List (Value F)}
    (h : Selects (OptimizedStepExecutor.streamingDeduplicateLarge rt storage config) kept)
    (h' : Selects (OptimizedStepExecutor.streamingDeduplicateLarge rt storage config) kept') :
    kept = kept' := by
  obtain ⟨fuel, hfuel⟩ := h
  obtain ⟨fuel', hfuel'⟩ := h'
  obtain ⟨batches, hbatches, hkept⟩ := Option.bind_eq_some_iff.mp hfuel
  obtain ⟨batches', hbatches', hkept'⟩ := Option.bind_eq_some_iff.mp hfuel'
  have hlong := collect_add hbatches fuel'
  rw [Nat.add_comm, collect_add hbatches' fuel] at hlong
  cases hlong
  cases hkept.symm.trans hkept'
  rfl

theorem AllPathsAgree.largeTexts_perm {rows : List (Value Int)} {config : DeduplicatorConfig Int}
    (h : AllPathsAgree sampleRuntime config rows) {texts : List String}
    (htexts : largeTexts rows config = some texts) : texts.Perm (batchTexts rows config) := by
  obtain ⟨batch, medium, large, hbatch, -, hlarge, -, hperm, -⟩ := h
  obtain ⟨kept, hkept, rfl⟩ := Option.map_eq_some_iff.mp htexts
  obtain ⟨result, hresult, hok⟩ := Option.bind_eq_some_iff.mp hkept
  cases result with
  | error e => cases hok
  | ok kept' =>
    cases hok
    cases hlarge.large_unique ⟨3, hresult⟩
    unfold batchTexts
    rw [hbatch]
    exact hperm.map Value.toString

/-- Two rows with one `id`. -/
def sameId : List (Value Int) := [(numbered "a" (.ofByte 1)).2, (numbered "a" (.ofByte 2)).2]

/-- Two rows whose `id` differs in case. -/
def otherCase : List (Value Int) := [(numbered "A" (.ofByte 1)).2, (numbered "a" (.ofByte 2)).2]

/-- Two rows without a field `b`. -/
def withoutB : List (Value Int) :=
  [.object [("a", .string "p"), ("c", .string "null|q")],
    .object [("a", .string "p|null"), ("c", .string "q")]]

def widened : List (Value Int) :=
  [.object [("id", .number (.int (.ofByte 1)))], .object [("id", .number (.float 1))]]

/-- The paths differ: the workflow executor keeps the last row where the batch operator keeps the
first; the large path keeps every row where the others keep one; they fold the case or
not; they write a missing field in two ways; and the batch operator compares numbers after
the column has widened them. -/
theorem paths_disagree :
    ¬ AllPathsAgree sampleRuntime (byId .Exact .Last) sameId ∧
    ¬ AllPathsAgree sampleRuntime (byId .Exact .Merge) sameId ∧
    ¬ AllPathsAgree sampleRuntime (byId (.Fuzzy .Soundex) .First) otherCase ∧
    ¬ AllPathsAgree sampleRuntime { byId .Exact .First with keyFields := ["a", "b", "c"] } withoutB ∧
    ¬ AllPathsAgree sampleRuntime (byId .Exact .First) widened := by
  refine ⟨?_, ?_, ?_, ?_, ?_⟩
  · exact fun h => absurd h.workflowTexts_perm (by decide +kernel)
  · have hboth : largeTexts sameId (byId .Exact .Merge) =
        some (sameId.map Value.toString) := by decide +kernel
    exact fun h => absurd (h.largeTexts_perm hboth) (by decide +kernel)
  · exact fun h => absurd h.workflowTexts_perm (by decide +kernel)
  · exact fun h => absurd h.workflowTexts_perm (by decide +kernel)
  · exact fun h => absurd h.workflowTexts_perm (by decide +kernel)

end Arcxa.Workflow
