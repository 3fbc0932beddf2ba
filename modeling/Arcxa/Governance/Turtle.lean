import Arcxa.Governance.Routing

/-!
# Loading Turtle

The triples that the Turtle parser yields are handed over as three bare texts each: a URI without
its angle brackets, a literal without its quotes, its datatype and its language. On the other side
a text is a URI only in angle brackets, so that no predicate is one: nothing that is loaded gets to
a shard (`loads_iff`). Quoted triples in the place of a subject or object are left out from the
start.
-/

namespace Arcxa.Governance

/-! ## What the parser yields -/

namespace Rio

inductive Literal where
  | Simple (value : String)
  | LanguageTaggedString (value language : String)
  | Typed (value datatype : String)
  deriving DecidableEq

inductive Subject where
  | NamedNode (iri : String)
  | BlankNode (id : String)
  /-- A quoted triple; what it quotes is not looked at. -/
  | Triple
  deriving DecidableEq

inductive Term where
  | NamedNode (iri : String)
  | BlankNode (id : String)
  | Literal (literal : Literal)
  /-- A quoted triple. -/
  | Triple
  deriving DecidableEq

structure Triple where
  subject : Subject
  /-- Its IRI. -/
  predicate : String
  object : Term
  deriving DecidableEq

end Rio

/-- One round of `parse_turtle`; `none` is a triple that is skipped. -/
def renderTriple (t : Rio.Triple) : Option RawTriple :=
  let subject? := match t.subject with
    | .NamedNode iri => some iri
    | .BlankNode id => some ("_:" ++ id)
    | .Triple => none
  let object? := match t.object with
    | .NamedNode iri => some iri
    | .BlankNode id => some ("_:" ++ id)
    | .Literal (.Simple value) => some value
    | .Literal (.LanguageTaggedString value _) => some value
    | .Literal (.Typed value _) => some value
    | .Triple => none
  subject?.bind fun subject => object?.map fun object => (subject, t.predicate, object)

/-- `parse_turtle`, of what the parser yields. -/
def parseTurtle (triples : List Rio.Triple) : List RawTriple := triples.filterMap renderTriple

/-! ## What is to be sent -/

/-- The message for a triple: URIs as URIs, blank nodes with their marks, literals with value,
datatype and language. -/
def messageOf (graph : Option String) (t : Rio.Triple) : Option Triple :=
  let subject? := match t.subject with
    | .NamedNode iri => some iri
    | .BlankNode id => some ("_:" ++ id)
    | .Triple => none
  let object? := match t.object with
    | .NamedNode iri => some (iri, "", "")
    | .BlankNode id => some ("_:" ++ id, "", "")
    | .Literal (.Simple value) => some (value, "", "")
    | .Literal (.LanguageTaggedString value language) => some (value, "", language)
    | .Literal (.Typed value datatype) => some (value, datatype, "")
    | .Triple => none
  subject?.bind fun subject => object?.map fun object =>
    { subject
      predicate := t.predicate
      object := object.1
      objectDatatype := object.2.1
      objectLanguage := object.2.2
      graph := graph.getD "" }

def LoadsExactly (u : Unicode) (t : ClusterTopology) (order : List ShardMetadata)
    (graph : Option String) (triples : List Rio.Triple) : Prop :=
  ∃ sent : List (ShardMetadata × List Triple),
    insertBatch u t order (parseTurtle triples) graph = .ok (sent.map .ok) ∧
      (sent.flatMap (·.2)).Perm (triples.filterMap (messageOf graph))

/-! ## Predicates -/

theorem eq_of_parse_uri {u : Unicode} {input uri : List Char}
    (h : RdfTerm.parse u input = .ok (.Uri uri)) : trimmed input = '<' :: uri ++ ['>'] := by
  refine (asSubject_of_parse h rfl).resolve_right ?_
  rintro ⟨htext, cs, rfl⟩
  have htrim : trimmed input = '_' :: ':' :: cs := htext
  -- such a text is parsed as a blank node
  unfold RdfTerm.parse at h
  split at h
  · cases h
  · rename_i parsed hobject
    rw [withContext_eq_ok, parseRdfObject, htrim] at hobject
    obtain rfl := eq_of_parseBlankNode hobject
    have hblank : ['_', ':'].isPrefixOf ('_' :: ':' :: cs) = true := by simp
    simp only [RdfTerm.ofParsed] at h
    rw [if_neg (by simp), if_pos hblank] at h
    cases h

theorem predicate_of_buildValidatedTriple {u : Unicode} {subject predicate object : String}
    {graph : Option String} {sent : Triple}
    (h : buildValidatedTriple u subject predicate object graph = .ok sent) :
    sent.predicate.length < predicate.length := by
  obtain ⟨_, term, -, hterm, hvalue⟩ := of_buildValidatedTriple h
  cases term with
  | Literal value datatype language => cases hvalue
  | BlankNode label => cases hvalue
  | Uri uri =>
    have huri : uri = sent.predicate.toList := Except.ok.inj hvalue
    have htrim := eq_of_parse_uri hterm
    have hle := length_trimmed_le predicate.toList
    rw [htrim, huri, String.length_toList] at hle
    simp only [List.length_append, List.length_cons, List.length_nil, String.length_toList] at hle
    omega

/-! ## Batches -/

section Batch

variable {u : Unicode} {t : ClusterTopology} {order : List ShardMetadata} {graph : Option String}
  {triples : List RawTriple}

theorem exists_of_map_eq_ok {α β : Type} {x : Except Failure α} {f : α → β} {b : β}
    (h : x.map f = .ok b) : ∃ a, x = .ok a ∧ f a = b := by
  cases x with
  | error e => cases h
  | ok a => exact ⟨a, rfl, Except.ok.inj h⟩

theorem foldlM_pushGroup_perm {groups groups' : List (Nat × List RawTriple)}
    (h : triples.foldlM (fun groups triple => (routeTriple order triple.1).map
      fun shard => pushGroup groups shard.shardId triple) groups = .ok groups') :
    (groups'.flatMap Prod.snd).Perm (groups.flatMap Prod.snd ++ triples) := by
  induction triples generalizing groups with
  | nil =>
    cases h
    rw [List.append_nil]
  | cons triple triples ih =>
    obtain ⟨next, hnext, hrest⟩ := exists_of_bind_eq_ok h
    dsimp only at hnext
    cases hroute : routeTriple order triple.1 with
    | error e =>
      rw [hroute] at hnext
      cases hnext
    | ok shard =>
      rw [hroute] at hnext
      cases hnext
      refine (ih hrest).trans ?_
      rw [← List.singleton_append, ← List.append_assoc]
      exact (perm_pushGroup groups shard.shardId triple).append_right triples

theorem exists_of_mem_sent {f : RawTriple → Except Failure Triple} {sent : List Triple}
    (h : triples.mapM f = .ok sent) {message : Triple} (hmem : message ∈ sent) :
    ∃ raw ∈ triples, f raw = .ok message := by
  induction triples generalizing sent with
  | nil =>
    cases h
    cases hmem
  | cons raw triples ih =>
    obtain ⟨first, rest, hfirst, hrest, rfl⟩ := Workflow.mapM_cons_eq_ok h
    rcases List.mem_cons.mp hmem with rfl | hmem
    · exact ⟨raw, List.mem_cons_self, hfirst⟩
    · obtain ⟨raw', hraw', heq⟩ := ih hrest hmem
      exact ⟨raw', List.mem_cons_of_mem _ hraw', heq⟩

theorem exists_of_insertGroup {graphUri : String} {group : Nat × List RawTriple}
    {task : ShardMetadata × List Triple} (h : insertGroup u t graphUri group = .ok task)
    {message : Triple} (hmem : message ∈ task.2) :
    ∃ raw ∈ group.2, message.predicate.length < raw.2.1.length := by
  unfold insertGroup at h
  split at h
  · cases h
  · obtain ⟨messages, hall, rfl⟩ := exists_of_map_eq_ok h
    obtain ⟨raw, hraw, hbuild⟩ := exists_of_mem_sent hall hmem
    exact ⟨raw, hraw, predicate_of_buildValidatedTriple (withContext_eq_ok.mp hbuild)⟩

theorem exists_longer_of_insertBatch {sent : List (ShardMetadata × List Triple)}
    (h : insertBatch u t order triples graph = .ok (sent.map .ok)) {message : Triple}
    (hmem : message ∈ sent.flatMap (·.2)) :
    ∃ raw ∈ triples, message.predicate.length < raw.2.1.length := by
  obtain ⟨groups, hroute, hgroups⟩ := exists_of_map_eq_ok h
  obtain ⟨task, htask, hmessage⟩ := List.mem_flatMap.mp hmem
  have hok : (.ok task : Except Failure (ShardMetadata × List Triple)) ∈
      groups.map (insertGroup u t (graph.getD "")) := by
    rw [hgroups]
    exact List.mem_map_of_mem htask
  obtain ⟨group, hgroup, heq⟩ := List.mem_map.mp hok
  obtain ⟨raw, hraw, hlt⟩ := exists_of_insertGroup heq hmessage
  have hperm := foldlM_pushGroup_perm (withContext_eq_ok.mp hroute)
  exact ⟨raw, hperm.subset (List.mem_flatMap.mpr ⟨group, hgroup, hraw⟩), hlt⟩

end Batch

/-! ## Loading -/

theorem predicate_of_render {graph : Option String} {t : Rio.Triple} {raw : RawTriple}
    (h : renderTriple t = some raw) :
    ∃ message, messageOf graph t = some message ∧ message.predicate = raw.2.1 := by
  obtain ⟨subject, predicate, object⟩ := t
  cases subject <;> cases object <;> try cases ‹Rio.Literal›
  all_goals first | cases h; exact ⟨_, rfl, rfl⟩ | cases h

theorem messageOf_eq_none {graph : Option String} {t : Rio.Triple} (h : renderTriple t = none) :
    messageOf graph t = none := by
  obtain ⟨subject, predicate, object⟩ := t
  cases subject <;> cases object <;> try cases ‹Rio.Literal›
  all_goals first | rfl | cases h

theorem renderTriple_eq_none {t : Rio.Triple} :
    renderTriple t = none ↔ t.subject = .Triple ∨ t.object = .Triple := by
  obtain ⟨subject, predicate, object⟩ := t
  cases subject <;> cases object <;> try cases ‹Rio.Literal›
  all_goals simp [renderTriple]

theorem LoadsExactly.skipped {u : Unicode} {t : ClusterTopology} {order : List ShardMetadata}
    {graph : Option String} {triples : List Rio.Triple} (h : LoadsExactly u t order graph triples) :
    ∀ triple ∈ triples, renderTriple triple = none := by
  obtain ⟨sent, hbatch, hperm⟩ := h
  by_contra hsome
  push Not at hsome
  obtain ⟨triple, htriple, hne⟩ := hsome
  obtain ⟨raw, hraw⟩ := Option.ne_none_iff_exists'.mp hne
  -- every predicate would be shorter than another one
  have hlonger : ∀ n, ∃ raw ∈ parseTurtle triples, n ≤ raw.2.1.length := by
    intro n
    induction n with
    | zero => exact ⟨raw, List.mem_filterMap.mpr ⟨triple, htriple, hraw⟩, Nat.zero_le _⟩
    | succ n ih =>
      obtain ⟨raw, hmem, hn⟩ := ih
      obtain ⟨triple, htriple, hrender⟩ := List.mem_filterMap.mp hmem
      obtain ⟨message, hmessage, hpredicate⟩ := predicate_of_render hrender
      have hin : message ∈ sent.flatMap (·.2) :=
        hperm.symm.subset (List.mem_filterMap.mpr ⟨triple, htriple, hmessage⟩)
      obtain ⟨longer, hlonger, hlt⟩ := exists_longer_of_insertBatch hbatch hin
      refine ⟨longer, hlonger, ?_⟩
      rw [hpredicate] at hlt
      omega
  obtain ⟨longest, hmem, hle⟩ :=
    hlonger (((parseTurtle triples).map fun raw => raw.2.1.length).sum + 1)
  have hsum := List.le_sum_of_mem (List.mem_map_of_mem (f := fun raw => raw.2.1.length) hmem)
  omega

/-- **Loading Turtle stores the terms it parsed** only when there are none: every triple of the
list is one that is skipped. -/
theorem loads_iff (u : Unicode) (t : ClusterTopology) (order : List ShardMetadata)
    (graph : Option String) (triples : List Rio.Triple) :
    LoadsExactly u t order graph triples ↔
      ∀ triple ∈ triples, triple.subject = .Triple ∨ triple.object = .Triple := by
  simp only [← renderTriple_eq_none]
  refine ⟨LoadsExactly.skipped, fun hall => ⟨[], ?_, ?_⟩⟩
  · have hraw : parseTurtle triples = [] := List.filterMap_eq_nil_iff.mpr hall
    rw [hraw]
    rfl
  · have hmessages : triples.filterMap (messageOf graph) = [] :=
      List.filterMap_eq_nil_iff.mpr fun triple h => messageOf_eq_none (hall triple h)
    rw [hmessages]
    exact .rfl

/-- One triple, with a literal for an object. -/
theorem turtle_not_loaded : ¬ ∀ (u : Unicode) (t : ClusterTopology) (order : List ShardMetadata)
    (graph : Option String) (triples : List Rio.Triple), Tiles t → order.Perm t.shards.values →
    (∀ triple ∈ triples, triple.subject ≠ .Triple ∧ triple.object ≠ .Triple) →
      LoadsExactly u t order graph triples := by
  intro h
  have hload := h asciiTables (cutTopology 1) _ none
    [⟨.NamedNode "http://example.com/subject", "http://example.com/predicate",
      .Literal (.Simple "value")⟩] (tiles_cutTopology 1) .rfl (by simp)
  have hskipped := hload.skipped _ List.mem_cons_self
  cases hskipped

end Arcxa.Governance
