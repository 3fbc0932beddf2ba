import Arcxa.Lib.SipHash
import Arcxa.Governance.Owners
import Arcxa.Governance.Rdf

/-!
# Where a subject lives

A triple is sent to the shard that owns the hash of its subject. The hash is that of the text as
it was given, the shard gets the text as it was parsed: the same subject written with blanks
around it, or with the angle brackets that a query leaves out, has another hash. `INSERT DATA` does
not hash at all, it sends every triple to every active shard (`on_one_shard_iff`).
-/

namespace Arcxa.Governance

open Arcxa.Workflow (isWhitespace)
open ClusterTopology

/-! ## Routing -/

/-- `DefaultHasher` on a `str`: SipHash-1-3 with the key 0, of the bytes and `0xff`. -/
def calculateHash (subject : String) : UInt64 :=
  SipHash.hash 1 3 0 0 (subject.toUTF8.data.toList ++ [0xff])

def routeTriple (order : List ShardMetadata) (subject : String) : Except Failure ShardMetadata :=
  match ClusterTopology.findShardForHash order (calculateHash subject) with
  | some shard => .ok shard
  | none => bail ("No shard found for subject hash: " ++ toString (calculateHash subject).toNat)

abbrev RawTriple := String × String × String

def routeBatch (order : List ShardMetadata) (triples : List RawTriple) :
    Except Failure (List (Nat × List RawTriple)) :=
  triples.foldlM (fun groups triple =>
    (routeTriple order triple.1).map fun shard => pushGroup groups shard.shardId triple) []

/-! ## Inserting -/

def insertTriple (u : Unicode) (order : List ShardMetadata) (triple : RawTriple)
    (graph : Option String) : Except Failure (ShardMetadata × Triple) := do
  let shard ← withContext ("Failed to route triple: " ++ triple.1) (routeTriple order triple.1)
  let sent ← withContext ("Failed to build triple: " ++ triple.1 ++ " " ++ triple.2.1 ++ " " ++
    triple.2.2) (buildValidatedTriple u triple.1 triple.2.1 triple.2.2 graph)
  pure (shard, sent)

/-- The task for one shard of a batch. An empty graph counts as none. -/
def insertGroup (u : Unicode) (t : ClusterTopology) (graphUri : String)
    (group : Nat × List RawTriple) : Except Failure (ShardMetadata × List Triple) :=
  match t.getShard group.1 with
  | none => bail ("Shard not found: ShardId(" ++ toString group.1 ++ ")")
  | some shard =>
    (group.2.mapM fun triple =>
      withContext ("Failed to build triple: " ++ triple.1 ++ " " ++ triple.2.1 ++ " " ++ triple.2.2)
        (buildValidatedTriple u triple.1 triple.2.1 triple.2.2
          (if graphUri.isEmpty then none else some graphUri))).map fun sent => (shard, sent)

def insertBatch (u : Unicode) (t : ClusterTopology) (order : List ShardMetadata)
    (triples : List RawTriple) (graph : Option String) :
    Except Failure (List (Except Failure (ShardMetadata × List Triple))) :=
  (withContext "Failed to route batch" (routeBatch order triples)).map fun groups =>
    groups.map (insertGroup u t (graph.getD ""))

/-- `execute_insert_data` after the triples have been extracted: the shards, and what each of them
is sent. -/
def executeInsertData (u : Unicode) (order : List ShardMetadata) (rawTriples : List RawTriple) :
    Except Failure (List ShardMetadata × List Triple) := do
  let sent ← rawTriples.mapM fun triple =>
    withContext ("Failed to build triple: (" ++ triple.1 ++ ", " ++ triple.2.1 ++ ", " ++
      triple.2.2 ++ ")") (buildValidatedTriple u triple.1 triple.2.1 triple.2.2 none)
  let shards := ClusterTopology.activeShards order
  if shards.isEmpty then bail "No active shards available for INSERT DATA"
  else pure (shards, sent)

/-! ## Looking up -/

/-- `str::find`, in bytes. -/
def findBytes (pattern : List Char) : List Char → Option Nat
  | [] => if pattern.isEmpty then some 0 else none
  | c :: cs =>
    if pattern.isPrefixOf (c :: cs) then some 0
    else (findBytes pattern cs).map (· + c.utf8Size)

/-- A slice from a byte on; `none` is a panic, past the end or inside a character. -/
def sliceFrom : Nat → List Char → Option (List Char)
  | 0, cs => some cs
  | _ + 1, [] => none
  | n + 1, c :: cs => if c.utf8Size ≤ n + 1 then sliceFrom (n + 1 - c.utf8Size) cs else none

/-- The place of `WHERE` is that in the upper-case text, the slice is one of the text itself. -/
def extractBoundSubject (u : Unicode) (sparql : String) : Except Failure (Option String) :=
  match findBytes "WHERE".toList (sparql.toList.flatMap u.toUppercase) with
  | none => .ok none
  | some whereIdx =>
    match sliceFrom whereIdx sparql.toList with
    | none => .error .panicked
    | some afterWhere =>
      .ok do
        let (_, inPattern) ← splitOnce '\x7b' afterWhere
        let (_, afterOpen) ← splitOnce '<' inPattern
        let (subject, _) ← splitOnce '>' afterOpen
        pure (String.ofList (trimmed subject))

/-- The shard that `execute_single_shard` asks, for a query with a bound subject. -/
def singleShard (u : Unicode) (order : List ShardMetadata) (sparql : String) :
    Except Failure (Option ShardMetadata) :=
  match extractBoundSubject u sparql with
  | .error e => .error e
  | .ok none => .ok none
  | .ok (some subject) => (routeTriple order subject).map some

/-! ## One shard for a subject -/

/-- The ranges tile the hash space, as far as ranges can: shards are registered, and every hash
but `u64::MAX` has one owner. -/
structure Tiles (t : ClusterTopology) : Prop where
  keyed : Keyed t
  registered : t.shards.keys ≠ []
  covers : Covers (· ≠ maxHash) t

section Router

variable {t : ClusterTopology} {order : List ShardMetadata} {subject : String}
  {shard : ShardMetadata}

theorem contains_of_routeTriple (h : routeTriple order subject = .ok shard) :
    shard ∈ order ∧ shard.hashRange.contains (calculateHash subject) = true := by
  unfold routeTriple at h
  cases hfind : findShardForHash order (calculateHash subject) with
  | none =>
    rw [hfind] at h
    cases h
  | some found =>
    rw [hfind] at h
    cases h
    exact ⟨List.mem_of_find?_eq_some hfind, by simpa using List.find?_some hfind⟩

theorem ne_maxHash_of_contains {range : HashRange} {hash : UInt64}
    (h : range.contains hash = true) : hash ≠ maxHash := by
  rintro rfl
  rw [not_contains_maxHash] at h
  cases h

theorem Tiles.routeTriple_eq (h : Tiles t) (horder : order.Perm t.shards.values)
    (hmem : shard ∈ order)
    (hcontains : shard.hashRange.contains (calculateHash subject) = true) :
    routeTriple order subject = .ok shard := by
  have howned := h.covers h.registered _ (ne_maxHash_of_contains hcontains)
  have hsome : (findShardForHash order (calculateHash subject)).isSome = true :=
    List.find?_isSome.mpr ⟨shard, hmem, hcontains⟩
  obtain ⟨found, hfind⟩ := Option.isSome_iff_exists.mp hsome
  have hroute : routeTriple order subject = .ok found := by
    rw [routeTriple, hfind]
  obtain ⟨hfound, hfoundContains⟩ := contains_of_routeTriple hroute
  obtain ⟨k, hk⟩ := BTreeMap.mem_values.mp (horder.mem_iff.mp hmem)
  obtain ⟨k', hk'⟩ := BTreeMap.mem_values.mp (horder.mem_iff.mp hfound)
  -- both are owners, and there is one
  have hkk : k' = k := howned.unique ⟨found, hk', hfoundContains⟩ ⟨shard, hk, hcontains⟩
  rw [hkk, hk] at hk'
  rw [hroute, Option.some.inj hk']

theorem Tiles.getShard_eq (h : Tiles t) (horder : order.Perm t.shards.values)
    (hmem : shard ∈ order) : t.getShard shard.shardId = some shard := by
  obtain ⟨k, hk⟩ := BTreeMap.mem_values.mp (horder.mem_iff.mp hmem)
  rw [h.keyed.shardId_eq k shard hk]
  exact hk

end Router

theorem buildValidatedTriple_graph (u : Unicode) (subject predicate object : String)
    (graph : Option String) :
    buildValidatedTriple u subject predicate object graph =
      (buildValidatedTriple u subject predicate object none).map
        ({ · with graph := graph.getD "" }) := by
  unfold buildValidatedTriple
  simp only [bind, Except.bind]
  repeat' split
  all_goals rfl

section Paths

variable {u : Unicode} {t : ClusterTopology} {order : List ShardMetadata} {graph : Option String}
  {raw₁ raw₂ : RawTriple} {sent₁ sent₂ : Triple} {shard : ShardMetadata}

theorem insertTriple_eq (hroute : routeTriple order raw₁.1 = .ok shard)
    (hbuild : buildValidatedTriple u raw₁.1 raw₁.2.1 raw₁.2.2 graph = .ok sent₁) :
    insertTriple u order raw₁ graph = .ok (shard, sent₁) := by
  simp only [insertTriple, hroute, hbuild, withContext, bind, Except.bind, pure, Except.pure]

theorem routeTriple_of_insertTriple (h : insertTriple u order raw₁ graph = .ok (shard, sent₁)) :
    routeTriple order raw₁.1 = .ok shard := by
  unfold insertTriple at h
  cases hroute : routeTriple order raw₁.1 with
  | error e =>
    rw [hroute] at h
    cases e <;> cases h
  | ok found =>
    rw [hroute] at h
    simp only [withContext, bind, Except.bind] at h
    split at h
    · cases h
    · cases h
      rfl

theorem insertBatch_pair (hroute₁ : routeTriple order raw₁.1 = .ok shard)
    (hroute₂ : routeTriple order raw₂.1 = .ok shard)
    (hget : t.getShard shard.shardId = some shard)
    (hbuild₁ : buildValidatedTriple u raw₁.1 raw₁.2.1 raw₁.2.2 graph = .ok sent₁)
    (hbuild₂ : buildValidatedTriple u raw₂.1 raw₂.2.1 raw₂.2.2 graph = .ok sent₂) :
    insertBatch u t order [raw₁, raw₂] graph = .ok [.ok (shard, [sent₁, sent₂])] := by
  have hgroups : routeBatch order [raw₁, raw₂] = .ok [(shard.shardId, [raw₁, raw₂])] := by
    simp [routeBatch, hroute₁, hroute₂, Except.map, pushGroup, bind, Except.bind, pure, Except.pure]
  -- an empty graph and none are sent alike
  have hgraph : (if (graph.getD "").isEmpty then none else some (graph.getD "")).getD "" =
      graph.getD "" := by
    split_ifs with hempty
    · exact (String.isEmpty_iff.mp hempty).symm
    · rfl
  rw [buildValidatedTriple_graph, ← hgraph, ← buildValidatedTriple_graph] at hbuild₁ hbuild₂
  simp only [insertBatch, hgroups, withContext, Except.map, List.map_cons, List.map_nil,
    insertGroup, hget, List.mapM_cons, List.mapM_nil, hbuild₁, hbuild₂, bind, Except.bind, pure,
    Except.pure]

theorem exists_build_none
    (hbuild : buildValidatedTriple u raw₁.1 raw₁.2.1 raw₁.2.2 graph = .ok sent₁) :
    ∃ plain, buildValidatedTriple u raw₁.1 raw₁.2.1 raw₁.2.2 none = .ok plain := by
  rw [buildValidatedTriple_graph] at hbuild
  cases h : buildValidatedTriple u raw₁.1 raw₁.2.1 raw₁.2.2 none with
  | error e =>
    rw [h] at hbuild
    cases hbuild
  | ok plain => exact ⟨plain, rfl⟩

theorem executeInsertData_pair
    (hbuild₁ : buildValidatedTriple u raw₁.1 raw₁.2.1 raw₁.2.2 graph = .ok sent₁)
    (hbuild₂ : buildValidatedTriple u raw₂.1 raw₂.2.1 raw₂.2.2 graph = .ok sent₂) :
    (∃ sent, executeInsertData u order [raw₁, raw₂] = .ok ([shard], sent)) ↔
      ClusterTopology.activeShards order = [shard] := by
  obtain ⟨plain₁, hplain₁⟩ := exists_build_none hbuild₁
  obtain ⟨plain₂, hplain₂⟩ := exists_build_none hbuild₂
  have hsent : executeInsertData u order [raw₁, raw₂] =
      if (activeShards order).isEmpty then
        bail "No active shards available for INSERT DATA"
      else .ok (activeShards order, [plain₁, plain₂]) := by
    simp [executeInsertData, hplain₁, hplain₂, withContext, bind, Except.bind, pure, Except.pure]
  rw [hsent]
  constructor
  · rintro ⟨sent, h⟩
    split_ifs at h
    · cases h
    · exact congrArg Prod.fst (Except.ok.inj h)
  · intro h
    rw [h]
    exact ⟨[plain₁, plain₂], rfl⟩

end Paths

/-! ## Topologies that tell hashes apart -/

def halfShard (i : Nat) (start stop : UInt64) : ShardMetadata :=
  { ShardMetadata.new i ⟨start, stop⟩ "localhost:9090" [] 0 with status := .Active }

def cutTopology (m : UInt64) : ClusterTopology :=
  ((ClusterTopology.new 1 0).addShard (halfShard 0 0 m) 0).addShard (halfShard 1 m maxHash) 0

theorem values_cutTopology (m : UInt64) :
    (cutTopology m).shards.values = [halfShard 0 0 m, halfShard 1 m maxHash] := rfl

theorem get_cutTopology (m : UInt64) (k : Nat) :
    (cutTopology m).shards.get k =
      if k = 1 then some (halfShard 1 m maxHash)
      else if k = 0 then some (halfShard 0 0 m) else none := by
  show (((BTreeMap.empty.insert 0 (halfShard 0 0 m)).insert 1 (halfShard 1 m maxHash)).get k) = _
  rw [BTreeMap.get_insert, BTreeMap.get_insert]
  rfl

theorem tiles_cutTopology (m : UInt64) : Tiles (cutTopology m) := by
  have hempty : Keyed (new 1 0) := by
    refine ⟨?_, rfl⟩
    intro k shard hshard
    cases hshard
  have hmax : m.toNat ≤ 2 ^ 64 - 1 := Nat.le_pred_of_lt m.toNat_lt
  refine ⟨keyed_addShard (keyed_addShard hempty _ 0) _ 0, List.cons_ne_nil 0 [1], ?_⟩
  intro _ hash hhash
  refine @ownedOnce_of_pieces _ [0, 1]
    (fun i => if i = 0 then 0 else if i = 1 then m.toNat else 2 ^ 64 - 1) ?_ ?_ ?_ hash ?_ ?_
  · intro i j hij
    simp only
    split_ifs <;> omega
  · intro k
    simp only [get_cutTopology, List.mem_cons, List.not_mem_nil, or_false]
    split_ifs with h1 h0
    · simp [h1]
    · simp [h0]
    · simp [h1, h0]
  · intro i k shard hi hshard
    rw [get_cutTopology] at hshard
    match i, hi with
    | 0, hi =>
      cases hi
      cases hshard
      exact ⟨rfl, rfl⟩
    | 1, hi =>
      cases hi
      cases hshard
      exact ⟨rfl, rfl⟩
  · exact Nat.zero_le _
  · exact toNat_lt_of_ne_maxHash hhash

theorem hash_eq_of_forall_route {a b : String}
    (h : ∀ t order, Tiles t → order.Perm t.shards.values →
      ∃ shard, routeTriple order a = .ok shard ∧ routeTriple order b = .ok shard) :
    calculateHash a = calculateHash b := by
  by_contra hne
  -- cut at the greater one of the two
  have hmax : (UInt64.ofNat (max (calculateHash a).toNat (calculateHash b).toNat)).toNat =
      max (calculateHash a).toNat (calculateHash b).toNat :=
    UInt64.toNat_ofNat_of_lt' (max_lt (calculateHash a).toNat_lt (calculateHash b).toNat_lt)
  generalize UInt64.ofNat (max (calculateHash a).toNat (calculateHash b).toNat) = m at hmax
  obtain ⟨shard, hrouteA, hrouteB⟩ := h (cutTopology m) _ (tiles_cutTopology m) (List.Perm.refl _)
  obtain ⟨hmem, hcontainsA⟩ := contains_of_routeTriple hrouteA
  obtain ⟨-, hcontainsB⟩ := contains_of_routeTriple hrouteB
  rw [contains_iff] at hcontainsA hcontainsB
  have hneNat : (calculateHash a).toNat ≠ (calculateHash b).toNat :=
    fun heq => hne (UInt64.toNat_inj.mp heq)
  rw [values_cutTopology, List.mem_cons, List.mem_singleton] at hmem
  rcases hmem with rfl | rfl
  · simp only [halfShard, ShardMetadata.new] at hcontainsA hcontainsB
    omega
  · simp only [halfShard, ShardMetadata.new] at hcontainsA hcontainsB
    omega

theorem length_trimmed_le (cs : List Char) : (trimmed cs).length ≤ cs.length := by
  rw [trimmed, List.length_reverse]
  calc _ ≤ ((cs.dropWhile isWhitespace).reverse).length := (List.dropWhile_suffix _).length_le
    _ ≤ cs.length := by
      rw [List.length_reverse]
      exact (List.dropWhile_suffix _).length_le

theorem raw_ne_subject {u : Unicode} {raw : RawTriple} {graph : Option String} {sent : Triple}
    (h : buildValidatedTriple u raw.1 raw.2.1 raw.2.2 graph = .ok sent)
    (huri : ¬ ['_', ':'] <+: sent.subject.toList) : raw.1 ≠ sent.subject := by
  intro heq
  rcases subject_of_buildValidatedTriple h with htrim | ⟨-, hblank⟩
  · have hle := length_trimmed_le raw.1.toList
    rw [htrim, heq, List.length_append, List.length_cons] at hle
    simp at hle
  · exact huri hblank

theorem singleShard_eq_iff {u : Unicode} {sparql bound : String}
    (hbound : extractBoundSubject u sparql = .ok (some bound)) (order : List ShardMetadata)
    (shard : ShardMetadata) :
    singleShard u order sparql = .ok (some shard) ↔ routeTriple order bound = .ok shard := by
  simp only [singleShard, hbound]
  cases routeTriple order bound with
  | error e => exact iff_of_false (fun h => by cases h) (fun h => by cases h)
  | ok found => simp [Except.map]

theorem paths_of_contains {u : Unicode} {raw₁ raw₂ : RawTriple} {graph : Option String}
    {sent₁ sent₂ : Triple} {sparql bound : String}
    (hbuild₁ : buildValidatedTriple u raw₁.1 raw₁.2.1 raw₁.2.2 graph = .ok sent₁)
    (hbuild₂ : buildValidatedTriple u raw₂.1 raw₂.2.1 raw₂.2.2 graph = .ok sent₂)
    (hbound : extractBoundSubject u sparql = .ok (some bound)) {t : ClusterTopology}
    {order : List ShardMetadata} {shard : ShardMetadata} (htiles : Tiles t)
    (horder : order.Perm t.shards.values) (hmem : shard ∈ order)
    (hcontains : ∀ text ∈ [raw₁.1, raw₂.1, bound],
      shard.hashRange.contains (calculateHash text) = true) :
    insertTriple u order raw₁ graph = .ok (shard, sent₁) ∧
      insertTriple u order raw₂ graph = .ok (shard, sent₂) ∧
      insertBatch u t order [raw₁, raw₂] graph = .ok [.ok (shard, [sent₁, sent₂])] ∧
      singleShard u order sparql = .ok (some shard) := by
  have hroute : ∀ text ∈ [raw₁.1, raw₂.1, bound], routeTriple order text = .ok shard :=
    fun text htext => htiles.routeTriple_eq horder hmem (hcontains text htext)
  have hroute₁ := hroute raw₁.1 (by simp)
  have hroute₂ := hroute raw₂.1 (by simp)
  exact ⟨insertTriple_eq hroute₁ hbuild₁, insertTriple_eq hroute₂ hbuild₂,
    insertBatch_pair hroute₁ hroute₂ (htiles.getShard_eq horder hmem) hbuild₁ hbuild₂,
    (singleShard_eq_iff hbound order shard).mpr (hroute bound (by simp))⟩

/-- **When a subject lives on one shard.** Two triples that are accepted, and a query with a bound
subject: single insert, batch insert, query and `INSERT DATA` all go to the same shard if and only
if it is the only active one and owns the hashes of the three texts. Without `INSERT DATA`, every
topology keeps them together if and only if the texts have the same hash, other than `u64::MAX`.
For a URI the text that was inserted and the one a query asks for are never the same. -/
theorem on_one_shard_iff (u : Unicode) (raw₁ raw₂ : RawTriple) (graph : Option String)
    (sent₁ sent₂ : Triple)
    (hbuild₁ : buildValidatedTriple u raw₁.1 raw₁.2.1 raw₁.2.2 graph = .ok sent₁)
    (hbuild₂ : buildValidatedTriple u raw₂.1 raw₂.2.1 raw₂.2.2 graph = .ok sent₂)
    (sparql bound : String) (hbound : extractBoundSubject u sparql = .ok (some bound)) :
    (∀ t order, Tiles t → order.Perm t.shards.values →
      ((∃ shard, insertTriple u order raw₁ graph = .ok (shard, sent₁) ∧
          insertTriple u order raw₂ graph = .ok (shard, sent₂) ∧
          insertBatch u t order [raw₁, raw₂] graph = .ok [.ok (shard, [sent₁, sent₂])] ∧
          singleShard u order sparql = .ok (some shard) ∧
          ∃ sent, executeInsertData u order [raw₁, raw₂] = .ok ([shard], sent)) ↔
        ∃ shard, ClusterTopology.activeShards order = [shard] ∧
          ∀ text ∈ [raw₁.1, raw₂.1, bound], shard.hashRange.contains (calculateHash text))) ∧
    ((∀ t order, Tiles t → order.Perm t.shards.values →
        ∃ shard, insertTriple u order raw₁ graph = .ok (shard, sent₁) ∧
          insertTriple u order raw₂ graph = .ok (shard, sent₂) ∧
          insertBatch u t order [raw₁, raw₂] graph = .ok [.ok (shard, [sent₁, sent₂])] ∧
          singleShard u order sparql = .ok (some shard)) ↔
      calculateHash raw₁.1 = calculateHash raw₂.1 ∧ calculateHash raw₂.1 = calculateHash bound ∧
        calculateHash raw₁.1 ≠ maxHash) ∧
    (¬ ['_', ':'] <+: sent₁.subject.toList → raw₁.1 ≠ sent₁.subject) := by
  refine ⟨?_, ⟨?_, ?_⟩, raw_ne_subject hbuild₁⟩
  · intro t order htiles horder
    constructor
    · rintro ⟨shard, hinsert₁, hinsert₂, -, hquery, hdata⟩
      refine ⟨shard, (executeInsertData_pair hbuild₁ hbuild₂).mp hdata, ?_⟩
      intro text htext
      simp only [List.mem_cons, List.not_mem_nil, or_false] at htext
      rcases htext with rfl | rfl | rfl
      · exact (contains_of_routeTriple (routeTriple_of_insertTriple hinsert₁)).2
      · exact (contains_of_routeTriple (routeTriple_of_insertTriple hinsert₂)).2
      · exact (contains_of_routeTriple ((singleShard_eq_iff hbound order shard).mp hquery)).2
    · rintro ⟨shard, hactive, hcontains⟩
      have hmem : shard ∈ order := by
        have hmem : shard ∈ activeShards order := by
          rw [hactive]
          exact List.mem_singleton_self shard
        exact (List.mem_filter.mp hmem).1
      obtain ⟨h₁, h₂, hbatch, hquery⟩ := paths_of_contains hbuild₁ hbuild₂ hbound htiles horder hmem
        hcontains
      exact ⟨shard, h₁, h₂, hbatch, hquery, (executeInsertData_pair hbuild₁ hbuild₂).mpr hactive⟩
  · intro h
    refine ⟨hash_eq_of_forall_route ?_, hash_eq_of_forall_route ?_, ?_⟩
    · intro t order htiles horder
      obtain ⟨shard, h₁, h₂, -, -⟩ := h t order htiles horder
      exact ⟨shard, routeTriple_of_insertTriple h₁, routeTriple_of_insertTriple h₂⟩
    · intro t order htiles horder
      obtain ⟨shard, -, h₂, -, hquery⟩ := h t order htiles horder
      exact ⟨shard, routeTriple_of_insertTriple h₂,
        (singleShard_eq_iff hbound order shard).mp hquery⟩
    · obtain ⟨shard, h₁, -⟩ := h _ _ (tiles_cutTopology 1) (List.Perm.refl _)
      exact ne_maxHash_of_contains (contains_of_routeTriple (routeTriple_of_insertTriple h₁)).2
  · rintro ⟨hab, hbc, hne⟩ t order htiles horder
    -- the owner of the one hash
    obtain ⟨k, ⟨shard, hshard, hcontains⟩, -⟩ := htiles.covers htiles.registered _ hne
    refine ⟨shard, paths_of_contains hbuild₁ hbuild₂ hbound htiles horder
      (horder.mem_iff.mpr (BTreeMap.mem_values.mpr ⟨k, hshard⟩)) ?_⟩
    intro text htext
    simp only [List.mem_cons, List.not_mem_nil, or_false] at htext
    rcases htext with rfl | rfl | rfl
    · exact hcontains
    · rw [← hab]
      exact hcontains
    · rw [← hbc, ← hab]
      exact hcontains

def asciiTables : Unicode := ⟨Char.isAlphanum, fun c => [c.toUpper]⟩

def sampleRaw₁ : RawTriple := ("<http://example.com/a>", "<http://example.com/p>", "\"x\"")
def sampleRaw₂ : RawTriple := (" <http://example.com/a>", "<http://example.com/p>", "\"y\"")
def sampleQuery : String := "SELECT * WHERE \x7b <http://example.com/a> ?p ?o \x7d"

def sampleSent (object : String) : Triple :=
  ⟨"http://example.com/a", "http://example.com/p", object, "", "", ""⟩

/-- The first triple is on shard 1, the second on shard 0, where the query looks as well, and
`INSERT DATA` sends them to both. -/
theorem subject_on_two_shards :
    Tiles (cutTopology 0x8000000000000000) ∧
    buildValidatedTriple asciiTables sampleRaw₁.1 sampleRaw₁.2.1 sampleRaw₁.2.2 none =
      .ok (sampleSent "x") ∧
    buildValidatedTriple asciiTables sampleRaw₂.1 sampleRaw₂.2.1 sampleRaw₂.2.2 none =
      .ok (sampleSent "y") ∧
    extractBoundSubject asciiTables sampleQuery = .ok (some (sampleSent "x").subject) ∧
    (insertTriple asciiTables (cutTopology 0x8000000000000000).shards.values sampleRaw₁ none
      ).toOption.map (·.1.shardId) = some 1 ∧
    (insertTriple asciiTables (cutTopology 0x8000000000000000).shards.values sampleRaw₂ none
      ).toOption.map (·.1.shardId) = some 0 ∧
    (singleShard asciiTables (cutTopology 0x8000000000000000).shards.values sampleQuery
      ).toOption.join.map (·.shardId) = some 0 ∧
    (executeInsertData asciiTables (cutTopology 0x8000000000000000).shards.values
      [sampleRaw₁, sampleRaw₂]).toOption.map (fun p => p.1.map (·.shardId)) = some [0, 1] := by
  refine ⟨tiles_cutTopology _, ?_⟩
  decide +kernel

theorem on_one_shard_iff_sample :
    ¬ ∀ t order, Tiles t → order.Perm t.shards.values →
      ∃ shard, insertTriple asciiTables order sampleRaw₁ none = .ok (shard, sampleSent "x") ∧
        insertTriple asciiTables order sampleRaw₂ none = .ok (shard, sampleSent "y") ∧
        insertBatch asciiTables t order [sampleRaw₁, sampleRaw₂] none =
          .ok [.ok (shard, [sampleSent "x", sampleSent "y"])] ∧
        singleShard asciiTables order sampleQuery = .ok (some shard) := by
  have hiff := (on_one_shard_iff asciiTables sampleRaw₁ sampleRaw₂ none (sampleSent "x")
    (sampleSent "y") (by decide +kernel) (by decide +kernel) sampleQuery "http://example.com/a"
    (by decide +kernel)).2.1
  have hne : calculateHash sampleRaw₁.1 ≠ calculateHash sampleRaw₂.1 := by decide +kernel
  exact fun h => hne (hiff.mp h).1

end Arcxa.Governance
