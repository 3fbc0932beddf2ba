import Arcxa.Lib.Distinct
import Arcxa.Governance.Rdf
import Arcxa.Governance.Topology

/-!
# Queries over all shards

A query is sent to every active shard; the rows that come back are put together, rows that print
the same are kept once, and what failed is held against the failure mode of the configuration. A
`COUNT` query adds up the column `count` of what is left. The network is a function that says what
each shard sends back.

A shard that failed is left out in the default mode, `BestEffort`. Rows are compared as a whole and
a binding is never a JSON number, so that `execute_count` is the sum of what the other shards
counted where the counts differ and come as plain strings (`executeCount_eq_sum`).
-/

namespace Arcxa.Governance

open Arcxa.Workflow (Value Float64)

/-! ## Configuration -/

inductive FailureMode where
  | FailFast
  | BestEffort
  | Majority
  | Quorum (minShards : Nat)

structure QueryConfig where
  failureMode : FailureMode
  enableDeduplication : Bool
  resultLimit : Option Nat

/-- `QueryConfig::default`. -/
def QueryConfig.default : QueryConfig := ⟨.BestEffort, true, none⟩

/-- What the messages of `validate_results` are made of. -/
inductive ValidationError where
  | FailFast (failed totalShards : Nat) (errors : List String)
  | Majority (successfulShards totalShards required : Nat) (errors : List String)
  | Quorum (successfulShards totalShards minShards : Nat) (errors : List String)
  deriving DecidableEq

def QueryConfig.validateResults (config : QueryConfig) (totalShards successfulShards : Nat)
    (errors : List String) : Except ValidationError Unit :=
  match config.failureMode with
  | .FailFast =>
    if !errors.isEmpty then .error (.FailFast errors.length totalShards errors) else .ok ()
  | .BestEffort => .ok ()
  | .Majority =>
    if successfulShards * 2 ≤ totalShards then
      .error (.Majority successfulShards totalShards (totalShards / 2 + 1) errors)
    else .ok ()
  | .Quorum minShards =>
    if successfulShards < minShards then
      .error (.Quorum successfulShards totalShards minShards errors)
    else .ok ()

inductive QueryError where
  | message (text : String)
  /-- "Query failed due to insufficient successful shards". -/
  | insufficient (cause : ValidationError)
  deriving DecidableEq

/-! ## What a shard sends back -/

inductive BindingValue where
  | Uri (uri : String)
  | Literal (value datatype language : String)
  | BlankNode (bn : String)

inductive Response where
  | Binding (bindings : BTreeMap String (Option BindingValue))
  | TripleBatch (triples : List Triple)
  | End
  | Error (message : String)

/-- A stream ends by itself, or with what makes the call fail. -/
inductive ShardReply where
  /-- No connection, or the call itself failed. -/
  | refused (e : String)
  | stream (items : List (Except String (Option Response)))
  | panicked (e : String)

section Rows

variable {F : Type}

def bindingValueToJson : Option BindingValue → Value F
  | some (.Uri uri) => .string uri
  | some (.Literal value datatype language) =>
    .object [("datatype", .string datatype), ("language", .string language),
      ("value", .string value)]
  | some (.BlankNode bn) => .string bn
  | none => .null

def protoBindingToJson (bindings : BTreeMap String (Option BindingValue)) : Value F :=
  .object (bindings.entries.map fun p => (p.1, bindingValueToJson p.2))

def protoTripleToJson (triple : Triple) : Value F :=
  .object [("datatype", .string triple.objectDatatype), ("graph", .string triple.graph),
    ("language", .string triple.objectLanguage), ("object", .string triple.object),
    ("predicate", .string triple.predicate), ("subject", .string triple.subject)]

def collectResults (shardId : Nat) :
    List (Value F) → List (Except String (Option Response)) → Except String (List (Value F))
  | results, [] => .ok results
  | _, .error e :: _ => .error e
  | results, .ok (some (.Binding bindings)) :: rest =>
    collectResults shardId (results ++ [protoBindingToJson bindings]) rest
  | results, .ok (some (.TripleBatch triples)) :: rest =>
    collectResults shardId (results ++ triples.map protoTripleToJson) rest
  | results, .ok (some .End) :: _ => .ok results
  | _, .ok (some (.Error message)) :: _ =>
    .error ("Query error on shard shard-" ++ toString shardId ++ ": " ++ message)
  | results, .ok none :: rest => collectResults shardId results rest

/-- One task of the scatter, at its index; an error is the text that is put on the list. -/
def taskResult (shardId idx : Nat) : ShardReply → Except String (List (Value F))
  | .refused e => .error ("Shard " ++ toString idx ++ ": " ++ e)
  | .stream items =>
    match collectResults shardId [] items with
    | .ok results => .ok results
    | .error e => .error ("Shard " ++ toString idx ++ ": " ++ e)
  | .panicked e => .error ("Task " ++ toString idx ++ " panicked: " ++ e)

def aggregate (state : List (Value F) × List String) (result : Except String (List (Value F))) :
    List (Value F) × List String :=
  match result with
  | .ok results => (state.1 ++ results, state.2)
  | .error e => (state.1, state.2 ++ [e])

variable [Float64 F]

def deduplicateResults (results : List (Value F)) : List (Value F) :=
  (results.foldl (insertUnseen Value.toString) ([], [])).2

/-- `shards` are the active ones, in the order in which the map is walked. -/
def executeScatterGather (config : QueryConfig) (query : ShardMetadata → ShardReply)
    (shards : List ShardMetadata) : Except QueryError (List (Value F)) :=
  if shards.isEmpty then .error (.message "No active shards available for query execution")
  else
    let results := shards.zipIdx.map fun p => taskResult p.1.shardId p.2 (query p.1)
    let (rows, errors) := results.foldl aggregate ([], [])
    match config.validateResults shards.length (shards.length - errors.length) errors with
    | .error cause => .error (.insufficient cause)
    | .ok () =>
      let rows := if config.enableDeduplication then deduplicateResults rows else rows
      match config.resultLimit with
      | some limit => .ok (rows.take limit)
      | none => .ok rows

end Rows

/-- The text contains `COUNT(` in any case. No other letter has a `C`, `O`, `U`, `N` or `T` next
to the one after it as its upper case, so that of ASCII is enough. -/
def isCountQuery (sparql : String) : Bool :=
  decide ("COUNT(".toList <:+: sparql.toList.map Char.toUpper)

/-- `parse::<u64>().unwrap_or(0)`. -/
def parseOrZero (s : String) : UInt64 :=
  match parseUnsigned (2 ^ 64 - 1) s.toList with
  | .ok n => UInt64.ofNat n
  | .error _ => 0

def countOf {F : Type} (row : Value F) : UInt64 :=
  match row.get "count" with
  | some (.number n) => n.asU64.getD 0
  | some (.string s) => parseOrZero s
  | _ => 0

/-- The total is an `u64` and wraps, as in a release build. -/
def executeCount (F : Type) [Float64 F] (config : QueryConfig) (sparql : String)
    (query : ShardMetadata → ShardReply) (shards : List ShardMetadata) :
    Except QueryError UInt64 :=
  if !isCountQuery sparql then .error (.message ("Not a COUNT query: " ++ sparql))
  else
    match executeScatterGather (F := F) config query shards with
    | .error e => .error e
    | .ok results => .ok (results.foldl (fun total row => total + countOf row) 0)

/-! ## Counting -/

section Count

variable {F : Type}

def countRow (n : UInt64) : Value F :=
  .object [("count", .string (String.ofList (Nat.toDigits 10 n.toNat)))]

theorem escapeChar_of_isDigit {c : Char} (h : c.isDigit = true) :
    Workflow.escapeChar c = String.singleton c := by
  have hrange : 48 ≤ c.toNat ∧ c.toNat ≤ 57 := by
    rw [Char.isDigit, Bool.and_eq_true, decide_eq_true_eq, decide_eq_true_eq] at h
    exact ⟨UInt32.le_iff_toNat_le.mp h.1, UInt32.le_iff_toNat_le.mp h.2⟩
  unfold Workflow.escapeChar
  split <;> first | omega | rw [if_neg (by omega)]

theorem quote_digits (n : Nat) :
    (Workflow.quote (String.ofList (Nat.toDigits 10 n))).toList =
      '"' :: Nat.toDigits 10 n ++ ['"'] := by
  have hescape : (Nat.toDigits 10 n).map Workflow.escapeChar =
      (Nat.toDigits 10 n).map String.singleton :=
    List.map_congr_left fun c hc => escapeChar_of_isDigit (isDigit_of_mem_toDigits hc)
  simp [Workflow.quote, hescape, String.toList_join, List.flatMap_map]

theorem toString_countRow_injective [Float64 F] :
    Function.Injective (fun n => (countRow n : Value F).toString) := by
  intro n m h
  have hquote : Workflow.quote (String.ofList (Nat.toDigits 10 n.toNat)) =
      Workflow.quote (String.ofList (Nat.toDigits 10 m.toNat)) := by
    simp only [countRow, Value.toString, Value.fieldsToString] at h
    simpa using h
  have hdigits : Nat.toDigits 10 n.toNat = Nat.toDigits 10 m.toNat := by
    have hlist := congrArg String.toList hquote
    rw [quote_digits, quote_digits] at hlist
    simpa using hlist
  exact UInt64.toNat_inj.mp (toDigits_inj hdigits)

theorem countOf_countRow (n : UInt64) : countOf (countRow n : Value F) = n := by
  have hle : n.toNat ≤ 2 ^ 64 - 1 := Nat.le_pred_of_lt n.toNat_lt
  show parseOrZero (String.ofList (Nat.toDigits 10 n.toNat)) = n
  rw [parseOrZero, String.toList_ofList, parseUnsigned_toDigits hle]
  exact UInt64.ofNat_toNat

theorem toNat_foldl_countOf (rows : List (Value F)) (total : UInt64) :
    (rows.foldl (fun total row => total + countOf row) total).toNat =
      (total.toNat + (rows.map fun row => (countOf row).toNat).sum) % 2 ^ 64 := by
  induction rows generalizing total with
  | nil => simp [Nat.mod_eq_of_lt total.toNat_lt]
  | cons row rows ih =>
    rw [List.foldl_cons, ih, UInt64.toNat_add, List.map_cons, List.sum_cons, Nat.mod_add_mod,
      Nat.add_assoc]

def okRows : Except String (List (Value F)) → List (Value F)
  | .ok rows => rows
  | .error _ => []

theorem foldl_aggregate (results : List (Except String (List (Value F))))
    (state : List (Value F) × List String) :
    (results.foldl aggregate state).1 = state.1 ++ results.flatMap okRows := by
  induction results generalizing state with
  | nil => simp
  | cons result results ih =>
    rw [List.foldl_cons, ih, List.flatMap_cons, ← List.append_assoc]
    cases result with
    | ok rows => rfl
    | error e => simp [aggregate, okRows]

def AnswersCount (F : Type) (shard : ShardMetadata) (n : UInt64) (reply : ShardReply) : Prop :=
  ∃ items value sorted, reply = .stream items ∧
    (value = .Uri (String.ofList (Nat.toDigits 10 n.toNat)) ∨
      value = .BlankNode (String.ofList (Nat.toDigits 10 n.toNat))) ∧
    collectResults (F := F) shard.shardId [] items =
      .ok [protoBindingToJson ⟨[("count", some value)], sorted⟩]

def Fails (F : Type) (shard : ShardMetadata) : ShardReply → Prop
  | .refused _ => True
  | .stream items => ∃ e, collectResults (F := F) shard.shardId [] items = .error e
  | .panicked _ => True

theorem AnswersCount.taskResult_eq {shard : ShardMetadata} {n : UInt64} {reply : ShardReply}
    (h : AnswersCount F shard n reply) (idx : Nat) :
    taskResult (F := F) shard.shardId idx reply = .ok [countRow n] := by
  obtain ⟨items, value, sorted, rfl, hvalue, hcollect⟩ := h
  simp only [taskResult, hcollect]
  rcases hvalue with rfl | rfl <;> rfl

theorem Fails.okRows_eq {shard : ShardMetadata} {reply : ShardReply} (h : Fails F shard reply)
    (idx : Nat) : okRows (taskResult (F := F) shard.shardId idx reply) = [] := by
  cases reply with
  | refused e => rfl
  | panicked e => rfl
  | stream items =>
    obtain ⟨e, hcollect⟩ := h
    simp only [taskResult, hcollect, okRows]

def Replies (F : Type) (query : ShardMetadata → ShardReply)
    (count : ShardMetadata → Option UInt64) (shard : ShardMetadata) : Prop :=
  match count shard with
  | some n => AnswersCount F shard n (query shard)
  | none => Fails F shard (query shard)

theorem flatMap_okRows {query : ShardMetadata → ShardReply} {count : ShardMetadata → Option UInt64}
    {shards : List ShardMetadata} (h : ∀ shard ∈ shards, Replies F query count shard) (k : Nat) :
    ((shards.zipIdx k).map fun p => taskResult (F := F) p.1.shardId p.2 (query p.1)).flatMap
      okRows = (shards.filterMap count).map countRow := by
  induction shards generalizing k with
  | nil => rfl
  | cons shard shards ih =>
    rw [List.forall_mem_cons] at h
    rw [List.zipIdx_cons, List.map_cons, List.flatMap_cons, ih h.2]
    have hreply := h.1
    unfold Replies at hreply
    cases hcount : count shard with
    | some n =>
      rw [hcount] at hreply
      rw [hreply.taskResult_eq, List.filterMap_cons_some hcount]
      rfl
    | none =>
      rw [hcount] at hreply
      rw [Fails.okRows_eq hreply, List.filterMap_cons_none hcount]
      rfl

end Count

/-- **A count over all shards.** Each shard counts, as a plain string, or fails; two that count the
same count nothing. The result is the sum of the counts. -/
theorem executeCount_eq_sum (F : Type) [Float64 F] (sparql : String)
    (hsparql : isCountQuery sparql = true) (query : ShardMetadata → ShardReply)
    (count : ShardMetadata → Option UInt64) (shards : List ShardMetadata) (hne : shards ≠ [])
    (hreplies : ∀ shard ∈ shards, Replies F query count shard)
    (hdistinct : ((shards.filterMap count).filter (· ≠ 0)).Nodup) :
    ∃ total, executeCount F .default sparql query shards = .ok total ∧
      total.toNat = ((shards.filterMap count).map (·.toNat)).sum % 2 ^ 64 := by
  have hempty : shards.isEmpty = false := by
    rw [List.isEmpty_eq_false_iff]
    exact hne
  -- the rows that are added up
  have hgather : executeScatterGather (F := F) .default query shards =
      .ok ((firsts (fun n => (countRow n : Value F).toString) (shards.filterMap count)).map
        countRow) := by
    rw [executeScatterGather, hempty, if_neg (by decide)]
    show Except.ok (deduplicateResults (List.foldl aggregate ([], [])
      ((shards.zipIdx).map fun p => taskResult p.1.shardId p.2 (query p.1))).1) = _
    rw [foldl_aggregate, List.nil_append, flatMap_okRows hreplies, deduplicateResults,
      foldl_insertUnseen_nil, firsts_map]
    rfl
  refine ⟨_, by rw [executeCount, hsparql, hgather]; rfl, ?_⟩
  rw [toNat_foldl_countOf, List.map_map]
  have hcounts : ((fun row => (countOf row).toNat) ∘ (countRow : UInt64 → Value F)) =
      UInt64.toNat := by
    funext n
    exact congrArg UInt64.toNat (countOf_countRow n)
  have hfilter : (shards.filterMap count).filter (fun n => n.toNat ≠ 0) =
      (shards.filterMap count).filter (· ≠ 0) := by
    apply List.filter_congr
    intro n _
    have hzero : n.toNat = 0 ↔ n = 0 := UInt64.toNat_inj (b := 0)
    simp [hzero]
  rw [hcounts, sum_map_firsts toString_countRow_injective UInt64.toNat (by rw [hfilter]; exact hdistinct)]
  simp

/-- Shard `i` of the samples. -/
def countingShard (i : Nat) : ShardMetadata := .new i (.share 3 i) "localhost:9090" [] 0

def countingReply (shard : ShardMetadata) : ShardReply :=
  if shard.shardId = 0 then
    .stream [.ok (some (.Binding ⟨[("count", some (.Uri "3"))], by decide⟩)), .ok (some .End)]
  else if shard.shardId = 2 then
    .stream [.ok (some (.Binding ⟨[("count", some (.BlankNode "5"))], by decide⟩))]
  else .refused "connection refused"

theorem executeCount_eq_sum_sample :
    ∃ total, executeCount Int .default "SELECT (COUNT(*) AS ?count) WHERE \x7b ?s ?p ?o \x7d"
        countingReply [countingShard 0, countingShard 1, countingShard 2] = .ok total ∧
      total.toNat = 8 := by
  refine executeCount_eq_sum Int _ (by decide +kernel) countingReply
    (fun shard => if shard.shardId = 0 then some 3 else if shard.shardId = 2 then some 5 else none)
    [countingShard 0, countingShard 1, countingShard 2] (by simp) ?_ (by decide +kernel)
  intro shard hshard
  simp only [List.mem_cons, List.not_mem_nil, or_false] at hshard
  rcases hshard with rfl | rfl | rfl
  · exact ⟨_, _, by decide, rfl, .inl rfl, rfl⟩
  · exact trivial
  · exact ⟨_, _, by decide, rfl, .inr rfl, rfl⟩

/-- Shard 0 counts 3 and shard 1 cannot be reached: the count is 3, not an error. -/
theorem failed_shard_left_out :
    Fails Int (countingShard 1) (countingReply (countingShard 1)) ∧
    AnswersCount Int (countingShard 0) 3 (countingReply (countingShard 0)) ∧
    executeCount Int .default "SELECT (COUNT(*) AS ?count) WHERE \x7b ?s ?p ?o \x7d" countingReply
      [countingShard 0, countingShard 1] = .ok 3 :=
  ⟨trivial, ⟨_, _, by decide, rfl, .inl rfl, rfl⟩, by decide +kernel⟩

end Arcxa.Governance
