import Arcxa.Lib.Distinct
import Arcxa.Lib.Neighbours
import Arcxa.Traceability.Artifacts
import Arcxa.Traceability.Store

/-!
# Evidence queries

The controls of an object, and the exceptions and approvals of a program, are looked up by the ids
in the indexes. One helper gathers the ids of all three types and looks each of them up among the
artifacts of one type, whichever object those were ingested for. The answer is the evidence for the
objects in question, each artifact once and in its latest version, exactly when no id is shared
with another type, object or version in a way that shows (`evidence_queries_iff`).
-/

namespace Arcxa.Traceability

variable {S : Schema}

/-! ## Queries -/

/-- The ids that `collect_all_by_ids` looks up. -/
def ObjectIndex.collectedIds (index : ObjectIndex) : List String :=
  sortedIds (index.objectLevelControlIds ++ index.valueKeyControlIds.values.flatten ++
    index.objectLevelExceptionIds ++ index.valueKeyExceptionIds.values.flatten ++
    index.objectLevelApprovalIds ++ index.valueKeyApprovalIds.values.flatten)

def collectAllByIds {T : Type} (store : BTreeMap String T) (index : ObjectIndex) : List T :=
  index.collectedIds.filterMap store.get

def controlsForObject (models : ReadModels S) (objectId : String) :
    Except String (List S.Control) :=
  match models.objectIndexes.get objectId with
  | none => .error s!"no controls found for object '{objectId}'"
  | some index => .ok (collectAllByIds models.controls index)

def collectForProgram {T : Type} (models : ReadModels S) (store : BTreeMap String T)
    (programId : String) : List T :=
  (models.linkedObjects programId).flatMap fun objectId =>
    match models.objectIndexes.get objectId with
    | none => []
    | some index => collectAllByIds store index

def exceptionsForProgram (detectedAt : S.Exception → Time) (models : ReadModels S)
    (programId : String) : List S.Exception :=
  sortByKey detectedAt (collectForProgram models models.exceptions programId)

def approvalsForProgram (approvedAt : S.Approval → Time) (models : ReadModels S)
    (programId : String) : List S.Approval :=
  sortByKey approvedAt (collectForProgram models models.approvals programId)

/-! ## What was ingested -/

def ingestedEvents (calls : List (Call S)) : List (Event S) :=
  (accept .empty (calls.flatMap (·.events))).2

def about (objects : List String) (events : List (Event S)) : List (Event S) :=
  events.filter fun event => event.isIndexed && event.objectId ∈ objects

def artifacts (k : ArtifactType) (events : List (Event S)) : List (k.Artifact S) :=
  events.filterMap (·.artifact k)

def latest (k : ArtifactType) (events : List (Event S)) : List (k.Artifact S) :=
  firsts k.artifactId (artifacts k events).reverse

def objectsOf (programId : String) (events : List (Event S)) : List String :=
  (events.filter fun event => event.isIndexed && event.programId = programId).map (·.objectId)

def ControlsExact (models : ReadModels S) (events : List (Event S)) (objectId : String) : Prop :=
  match controlsForObject models objectId with
  | .ok controls => controls.Perm (latest .ControlResult (about [objectId] events))
  | .error _ => about [objectId] events = []

def ProgramExact (k : ArtifactType) (time : k.Artifact S → Time) (events : List (Event S))
    (programId : String) (results : List (k.Artifact S)) : Prop :=
  results.Perm (latest k (about (objectsOf programId events) events)) ∧
    results.Pairwise fun a b => time a ≤ time b

def collectedTypes : List ArtifactType := [.ControlResult, .ExceptionRecord, .ApprovalEvent]

/-- A control, an exception or an approval with this id was ingested for the object. -/
def Noted (events : List (Event S)) (objectId id : String) : Prop :=
  ∃ k ∈ collectedTypes, id ∈ (artifacts k (about [objectId] events)).map k.artifactId

/-- The ids noted for some objects do not mix up the artifacts of a type. -/
structure Separate (k : ArtifactType) (objects : List String) (events : List (Event S)) :
    Prop where
  /-- An id that an artifact of the type has is that of one ingested for the objects. -/
  own : ∀ o ∈ objects, ∀ id, Noted events o id →
    id ∈ (artifacts k events).map k.artifactId →
      id ∈ (artifacts k (about objects events)).map k.artifactId
  /-- And it is noted for one of the objects only. -/
  once : ∀ o ∈ objects, ∀ o' ∈ objects, ∀ id,
    id ∈ (artifacts k (about objects events)).map k.artifactId →
      Noted events o id → Noted events o' id → o = o'
  /-- The latest version of an artifact for the objects is the latest of all. -/
  newest : ∀ a ∈ latest k (about objects events), a ∈ latest k events

/-! ## Ids and artifacts -/

variable {id : String}

theorem mem_sortedIds {ids : List String} : id ∈ sortedIds ids ↔ id ∈ ids := by
  rw [sortedIds, BTreeMap.mem_keys, ← Option.isSome_iff_exists, BTreeMap.isSome_get_ofList,
    List.map_map]
  simp

theorem nodup_sortedIds (ids : List String) : (sortedIds ids).Nodup := BTreeMap.nodup_keys _

theorem mem_flatten_values {m : BTreeMap String (List String)} :
    id ∈ m.values.flatten ↔ ∃ key, id ∈ (m.get key).getD [] := by
  simp only [List.mem_flatten, BTreeMap.mem_values]
  constructor
  · rintro ⟨ids, ⟨key, hkey⟩, hid⟩
    exact ⟨key, by rwa [hkey]⟩
  · rintro ⟨key, hid⟩
    cases hkey : m.get key with
    | none =>
      rw [hkey] at hid
      cases hid
    | some ids => exact ⟨ids, ⟨key, hkey⟩, by rwa [hkey] at hid⟩

theorem mem_collectedIds {index : ObjectIndex} :
    id ∈ index.collectedIds ↔ ∃ k ∈ collectedTypes, ∃ key, id ∈ index.ids k key := by
  have hids : ∀ k, (∃ key, id ∈ index.ids k key) ↔
      id ∈ index.objectLevelIds k ∨ id ∈ (index.valueKeyIds k).values.flatten := by
    intro k
    rw [Option.exists, mem_flatten_values]
    rfl
  simp only [hids, collectedTypes, List.mem_cons, List.not_mem_nil, or_false, exists_eq_or_imp,
    exists_eq_left, ObjectIndex.collectedIds, mem_sortedIds, List.mem_append,
    ObjectIndex.objectLevelIds, ObjectIndex.valueKeyIds, or_assoc]

variable {k : ArtifactType} {events : List (Event S)}

theorem mem_ids_about {objects : List String} : id ∈ (artifacts k (about objects events)).map k.artifactId ↔
      ∃ event ∈ events, (event.isIndexed = true ∧ event.objectId ∈ objects) ∧
        ∃ a, event.artifact k = some a ∧ k.artifactId a = id := by
  simp only [artifacts, about, List.mem_map, List.mem_filterMap, List.mem_filter,
    Bool.and_eq_true, decide_eq_true_eq]
  constructor
  · rintro ⟨a, ⟨event, ⟨hevent, habout⟩, ha⟩, hid⟩
    exact ⟨event, hevent, habout, a, ha, hid⟩
  · rintro ⟨event, hevent, habout, a, ha, hid⟩
    exact ⟨a, ⟨event, ⟨hevent, habout⟩, ha⟩, hid⟩

theorem artifacts_concat (k : ArtifactType) (events : List (Event S)) (event : Event S) :
    artifacts k (events ++ [event]) = artifacts k events ++ (event.artifact k).toList := by
  rw [artifacts, List.filterMap_append]
  cases hartifact : event.artifact k <;> simp [artifacts, hartifact]

theorem mem_latest_iff {a : k.Artifact S} :
    a ∈ latest k events ↔
      (artifacts k events).reverse.find? (fun b => k.artifactId b = k.artifactId a) = some a :=
  mem_firsts_iff

theorem nodup_latest (k : ArtifactType) (events : List (Event S)) : (latest k events).Nodup :=
  (nodup_firsts k.artifactId _).of_map

theorem mem_of_mem_latest {a : k.Artifact S}
    (h : a ∈ latest k events) : a ∈ artifacts k events :=
  List.mem_reverse.mp (mem_of_mem_firsts h)

theorem exists_mem_latest
    (h : id ∈ (artifacts k events).map k.artifactId) :
    ∃ a ∈ latest k events, k.artifactId a = id := by
  obtain ⟨b, hb, rfl⟩ := List.mem_map.mp h
  exact exists_mem_firsts (List.mem_reverse.mpr hb)

def modelsOf (events : List (Event S)) : ReadModels S :=
  events.foldl ReadModels.applyEvent .default

/-- **The store has the latest version of each artifact** under its id. -/
theorem get_store_iff
    {a : k.Artifact S} : (k.store (modelsOf events)).get id = some a ↔
      a ∈ latest k events ∧ k.artifactId a = id := by
  have hget : ∀ id, (k.store (modelsOf events)).get id =
      (artifacts k events).reverse.find? (fun b => k.artifactId b = id) := by
    intro id
    unfold modelsOf
    induction events using List.reverseRecOn with
    | nil =>
      rw [List.foldl_nil, ReadModels.Grown.store_default]
      rfl
    | append_singleton events event ih =>
      rw [List.foldl_append, List.foldl_cons, List.foldl_nil, store_applyEvent, artifacts_concat,
        List.reverse_append]
      cases event.artifact k with
      | none => exact ih
      | some b =>
        dsimp only
        rw [BTreeMap.get_insert, Option.toList_some, List.reverse_singleton, List.singleton_append]
        split_ifs with hid
        · simp [hid]
        · rw [ih]
          simp [Ne.symm hid]
  rw [hget, mem_latest_iff]
  constructor
  · intro h
    have hid : k.artifactId a = id := by simpa using List.find?_some h
    rw [hid]
    exact ⟨h, rfl⟩
  · rintro ⟨h, rfl⟩
    exact h

/-! ## What is collected -/

section Collect

variable {events : List (Event S)} {k : ArtifactType} {objects : List String} {o id : String}

theorem noted_iff_collected : Noted events o id ↔
    id ∈ (((modelsOf events).objectIndexes.get o).getD .default).collectedIds := by
  rw [mem_collectedIds]
  refine exists_congr fun k => and_congr_right fun hk => ?_
  have hnotes : ∀ key, id ∈ (modelsOf events).indexedIds o k key ↔
      ∃ event ∈ events, event.Notes o k key id := by
    intro key
    rw [modelsOf, mem_indexedIds_foldl, ReadModels.Grown.indexedIds_default,
      or_iff_right List.not_mem_nil]
  have hobject : k ≠ .Object := by
    rintro rfl
    revert hk
    decide
  rw [mem_ids_about]
  constructor
  · rintro ⟨event, hevent, ⟨hindexed, hmem⟩, a, ha, hid⟩
    exact ⟨_, (hnotes _).mpr ⟨event, hevent, hindexed, List.mem_singleton.mp hmem, hobject, a, ha,
      rfl, hid⟩⟩
  · rintro ⟨key, hmem⟩
    obtain ⟨event, hevent, hindexed, hobject', -, a, ha, -, hid⟩ := (hnotes key).mp hmem
    exact ⟨event, hevent, ⟨hindexed, List.mem_singleton.mpr hobject'⟩, a, ha, hid⟩

def collected (k : ArtifactType) (events : List (Event S)) (o : String) : List (k.Artifact S) :=
  collectAllByIds (k.store (modelsOf events))
    (((modelsOf events).objectIndexes.get o).getD .default)

theorem mem_collected {a : k.Artifact S} : a ∈ collected k events o ↔
    Noted events o (k.artifactId a) ∧ a ∈ latest k events := by
  simp only [collected, collectAllByIds, List.mem_filterMap, get_store_iff, ← noted_iff_collected]
  constructor
  · rintro ⟨id, hnoted, ha, rfl⟩
    exact ⟨hnoted, ha⟩
  · rintro ⟨hnoted, ha⟩
    exact ⟨_, hnoted, ha, rfl⟩

theorem nodup_collected : (collected k events o).Nodup := by
  refine (nodup_sortedIds _).filterMap ?_
  intro id id' a ha ha'
  rw [Option.mem_def, get_store_iff] at ha ha'
  exact ha.2.symm.trans ha'.2

theorem ids_about_subset (h : id ∈ (artifacts k (about objects events)).map k.artifactId) :
    id ∈ (artifacts k events).map k.artifactId := by
  obtain ⟨a, ha, hid⟩ := List.mem_map.mp h
  obtain ⟨event, hevent, hartifact⟩ := List.mem_filterMap.mp ha
  exact List.mem_map.mpr
    ⟨a, List.mem_filterMap.mpr ⟨event, List.mem_of_mem_filter hevent, hartifact⟩, hid⟩

theorem noted_of_ids (hk : k ∈ collectedTypes)
    (h : id ∈ (artifacts k (about objects events)).map k.artifactId) :
    ∃ o ∈ objects, Noted events o id := by
  obtain ⟨event, hevent, ⟨hindexed, hobject⟩, a, ha, hid⟩ := mem_ids_about.mp h
  exact ⟨event.objectId, hobject, k, hk, mem_ids_about.mpr
    ⟨event, hevent, ⟨hindexed, List.mem_singleton_self _⟩, a, ha, hid⟩⟩

/-- **What is collected for some objects is their evidence**, exactly when the ids do not mix up
artifacts. -/
theorem collected_perm_iff (hk : k ∈ collectedTypes) (hnodup : objects.Nodup) :
    (objects.flatMap (collected k events)).Perm (latest k (about objects events)) ↔
      Separate k objects events := by
  constructor
  · intro h
    have hmem : ∀ a, (∃ o ∈ objects, Noted events o (k.artifactId a) ∧ a ∈ latest k events) ↔
        a ∈ latest k (about objects events) := by
      intro a
      rw [← h.mem_iff, List.mem_flatMap]
      simp only [mem_collected]
    constructor
    · intro o ho id hnoted hid
      obtain ⟨a, ha, rfl⟩ := exists_mem_latest hid
      exact List.mem_map_of_mem (mem_of_mem_latest ((hmem a).mp ⟨o, ho, hnoted, ha⟩))
    · intro o ho o' ho' id hid hnoted hnoted'
      obtain ⟨a, ha, rfl⟩ := exists_mem_latest (ids_about_subset hid)
      have hdisjoint := (List.nodup_flatMap.mp (h.nodup_iff.mpr (nodup_latest _ _))).2
      have hsymm : Std.Symm (Function.onFun List.Disjoint (collected k events)) :=
        ⟨fun _ _ hd => List.Disjoint.symm hd⟩
      by_contra hne
      exact hdisjoint.forall ho ho' hne (mem_collected.mpr ⟨hnoted, ha⟩)
        (mem_collected.mpr ⟨hnoted', ha⟩)
    · intro a ha
      obtain ⟨-, -, -, hlatest⟩ := (hmem a).mpr ha
      exact hlatest
  · intro h
    have hids : ∀ o ∈ objects, ∀ a ∈ collected k events o,
        k.artifactId a ∈ (artifacts k (about objects events)).map k.artifactId := by
      intro o ho a ha
      obtain ⟨hnoted, hlatest⟩ := mem_collected.mp ha
      exact h.own o ho _ hnoted (List.mem_map_of_mem (mem_of_mem_latest hlatest))
    have hdisjoint : objects.Pairwise (Function.onFun List.Disjoint (collected k events)) := by
      refine hnodup.imp_of_mem ?_
      intro o o' ho ho' hne a ha ha'
      exact hne (h.once o ho o' ho' _ (hids o ho a ha) (mem_collected.mp ha).1
        (mem_collected.mp ha').1)
    have hflat : (objects.flatMap (collected k events)).Nodup :=
      List.nodup_flatMap.mpr ⟨fun _ _ => nodup_collected, hdisjoint⟩
    rw [List.perm_ext_iff_of_nodup hflat (nodup_latest _ _)]
    intro a
    rw [List.mem_flatMap]
    constructor
    · rintro ⟨o, ho, ha⟩
      -- the version for the objects is the latest one, and so is this one
      obtain ⟨b, hb, hba⟩ := exists_mem_latest (hids o ho a ha)
      have hsame := get_store_iff.mpr ⟨h.newest b hb, hba⟩
      rw [get_store_iff.mpr ⟨(mem_collected.mp ha).2, rfl⟩] at hsame
      cases hsame
      exact hb
    · intro ha
      obtain ⟨o, ho, hnoted⟩ := noted_of_ids hk (List.mem_map_of_mem (mem_of_mem_latest ha))
      exact ⟨o, ho, mem_collected.mpr ⟨hnoted, h.newest a ha⟩⟩

end Collect

/-! ## Exact answers -/

section Exact

variable {events : List (Event S)}

theorem about_congr {objects objects' : List String} (h : ∀ o, o ∈ objects ↔ o ∈ objects') :
    about objects events = about objects' events := by
  simp only [about, h]

theorem separate_congr {objects objects' : List String}
    (h : ∀ o, o ∈ objects ↔ o ∈ objects') :
    Separate k objects events ↔ Separate k objects' events := by
  have habout : about objects events = about objects' events := about_congr h
  constructor
  · rintro ⟨hown, honce, hnewest⟩
    rw [habout] at hown honce hnewest
    simp only [h] at hown honce
    exact ⟨hown, honce, hnewest⟩
  · rintro ⟨hown, honce, hnewest⟩
    rw [← habout] at hown honce hnewest
    simp only [← h] at hown honce
    exact ⟨hown, honce, hnewest⟩

theorem controlsExact_iff (o : String) :
    ControlsExact (modelsOf events) events o ↔ Separate .ControlResult [o] events := by
  have hcollected : ([o].flatMap (collected .ControlResult events)).Perm
      (latest .ControlResult (about [o] events)) ↔ Separate .ControlResult [o] events :=
    collected_perm_iff (by decide) (List.nodup_singleton o)
  rw [List.flatMap_singleton] at hcollected
  unfold ControlsExact controlsForObject
  cases hindex : (modelsOf events).objectIndexes.get o with
  | none =>
    have hnone : about [o] events = [] := by
      rw [about, List.filter_eq_nil_iff]
      intro event hevent habout
      simp only [Bool.and_eq_true, List.mem_singleton, decide_eq_true_eq] at habout
      have hsome := (isSome_index_foldl .default events o).mpr (.inr ⟨event, hevent, habout⟩)
      rw [← modelsOf, hindex] at hsome
      cases hsome
    refine iff_of_true hnone (hcollected.mp ?_)
    rw [collected, hindex, hnone]
    exact .refl _
  | some index =>
    rw [← hcollected, collected, hindex]
    rfl

theorem mem_objectsOf {programId o : String} : o ∈ objectsOf programId events ↔
    o ∈ (modelsOf events).linkedObjects programId := by
  have hnone : o ∉ (ReadModels.default : ReadModels S).linkedObjects programId := List.not_mem_nil
  rw [modelsOf, mem_linkedObjects_foldl, or_iff_right hnone]
  simp only [objectsOf, List.mem_map, List.mem_filter, Bool.and_eq_true, decide_eq_true_eq]
  constructor
  · rintro ⟨event, ⟨hevent, hindexed, hprogram⟩, hobject⟩
    exact ⟨event, hevent, hindexed, hprogram, hobject⟩
  · rintro ⟨event, hevent, hindexed, hprogram, hobject⟩
    exact ⟨event, ⟨hevent, hindexed, hprogram⟩, hobject⟩

theorem programExact_iff (hk : k ∈ collectedTypes) (time : k.Artifact S → Time)
    (programId : String) :
    ProgramExact k time events programId (sortByKey time
        (collectForProgram (modelsOf events) (k.store (modelsOf events)) programId)) ↔
      Separate k (objectsOf programId events) events := by
  have hsame : ∀ o, o ∈ (modelsOf events).linkedObjects programId ↔
      o ∈ objectsOf programId events := fun o => mem_objectsOf.symm
  have hnodup : ((modelsOf events).linkedObjects programId).Nodup :=
    nodup_linkedObjects_foldl .default events List.nodup_nil
  have hcollect : collectForProgram (modelsOf events) (k.store (modelsOf events)) programId =
      ((modelsOf events).linkedObjects programId).flatMap (collected k events) := by
    refine List.flatMap_congr fun o _ => ?_
    rw [collected]
    cases (modelsOf events).objectIndexes.get o <;> rfl
  rw [ProgramExact, and_iff_left (pairwise_sortByKey _), (perm_sortByKey _).congr_left, hcollect,
    ← about_congr hsame, collected_perm_iff hk hnodup]
  exact separate_congr hsame

end Exact

/-! ## Read models of calls -/

theorem memory_ingestAll [TextCodec (LoggedEvent S)] (now : Time) (calls : List (Call S)) :
    (ingestAll now calls).memory.toReadModels = modelsOf (ingestedEvents calls) ∧
      (ingestAll now calls).memory.processedEventIds =
        (accept .empty (calls.flatMap (·.events))).1 := by
  induction calls using List.reverseRecOn with
  | nil => exact ⟨rfl, rfl⟩
  | append_singleton calls call ih =>
    obtain ⟨hmodels, hprocessed⟩ := ih
    have hlast : (ingestAll now (calls ++ [call])).memory =
        memoryAfter (ingestAll now calls) call := by
      rw [ingestAll, List.foldl_append]
      exact memory_ingestStep
    rw [hlast, memoryAfter, ingestedEvents, List.flatMap_append, List.flatMap_singleton,
      accept_append, hprocessed, hmodels, modelsOf, ingestedEvents, modelsOf, List.foldl_append]
    exact ⟨rfl, rfl⟩

/-- **When evidence queries return the evidence that was asked for.** -/
theorem evidence_queries_iff [TextCodec (LoggedEvent S)] (detectedAt : S.Exception → Time)
    (approvedAt : S.Approval → Time) (now : Time) (calls : List (Call S)) :
    let models := (ingestAll now calls).memory.toReadModels
    let events := ingestedEvents calls
    ((∀ o, ControlsExact models events o) ∧
      ∀ p, ProgramExact .ExceptionRecord detectedAt events p
          (exceptionsForProgram detectedAt models p) ∧
        ProgramExact .ApprovalEvent approvedAt events p
          (approvalsForProgram approvedAt models p)) ↔
      (∀ o, Separate .ControlResult [o] events) ∧
        ∀ p, Separate .ExceptionRecord (objectsOf p events) events ∧
          Separate .ApprovalEvent (objectsOf p events) events := by
  intro models events
  have hmodels : models = modelsOf events := (memory_ingestAll now calls).1
  rw [hmodels]
  refine and_congr (forall_congr' controlsExact_iff) (forall_congr' fun p => and_congr ?_ ?_)
  · exact programExact_iff (k := .ExceptionRecord) (by decide) detectedAt p
  · exact programExact_iff (k := .ApprovalEvent) (by decide) approvedAt p

def exceptionOfFirst : Event idsOnly :=
  ⟨"event-1", "program-1", "object-1", .ExceptionRecord, none, "x"⟩

def controlOfSecond : Event idsOnly :=
  ⟨"event-2", "program-1", "object-2", .ControlResult, none, "x"⟩

/-- An exception of the one object and a control of the other have one id: the control is returned
for the object of the exception. -/
theorem control_of_other_object :
    ¬ ∀ (S : Schema) [TextCodec (LoggedEvent S)] (detectedAt : S.Exception → Time)
      (approvedAt : S.Approval → Time) (now : Time) (calls : List (Call S)),
      let models := (ingestAll now calls).memory.toReadModels
      let events := ingestedEvents calls
      (∀ o, ControlsExact models events o) ∧
        ∀ p, ProgramExact .ExceptionRecord detectedAt events p
            (exceptionsForProgram detectedAt models p) ∧
          ProgramExact .ApprovalEvent approvedAt events p
            (approvalsForProgram approvedAt models p) := by
  intro h
  have hcontrols := (h idsOnly (fun _ => 0) (fun _ => 0) 0
    [⟨[exceptionOfFirst, controlOfSecond], fun _ => 0, 0, true⟩]).1 "object-1"
  have hperm : ["x"].Perm ([] : List String) := hcontrols
  cases hperm.length_eq

end Arcxa.Traceability
