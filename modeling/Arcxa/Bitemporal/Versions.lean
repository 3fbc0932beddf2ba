import Arcxa.Bitemporal.History
import Arcxa.Lib.Timeline
import Arcxa.Lib.Transition

/-!
# Inserting versions

An insert looks up the current version, closes it if it has another object, and indexes the new
one. A current version with the same object is not closed, so it stays open beside the new one; and
if the new triple has no valid time, the current version is closed and nothing takes its place.
Where neither happens, every history is a timeline, and only there (`chronicle_iff`).
-/

namespace Arcxa.Bitemporal

/-- One insert. `storeOk` says whether the RDF store accepts the update that closes a version. -/
structure Insert where
  triple : AnnotatedTriple
  versionId : String
  txId : TransactionId
  storeOk : Bool

def Insert.key (ins : Insert) : String := spKey ins.triple.subject ins.triple.predicate

variable (parse : String → Except String Time)

namespace TemporalIndexes

variable (ix : TemporalIndexes)

/-- `check_supersedes`, then `close_version` for what it found, then `index_version`. -/
def insert (ins : Insert) : TemporalIndexes × Except String Unit :=
  match ix.checkSupersedes ins.triple with
  | (ix, none) => ix.indexVersion parse ins.triple ins.versionId ins.txId
  | (ix, some existing) =>
    match ix.closeVersion existing ins.txId ins.storeOk with
    -- nothing is indexed if the old version could not be closed
    | (ix, .error e) => (ix, .error e)
    | (ix, .ok ()) => ix.indexVersion parse ins.triple ins.versionId ins.txId

def insertAll (inserts : List Insert) : TemporalIndexes :=
  inserts.foldl (fun ix ins => (ix.insert parse ins).1) ix

def lastIndexed (subject predicate : String) : Option VersionRef :=
  (ix.db.chain (spKey subject predicate)).getLast?.bind ix.db.getVersionById

end TemporalIndexes

/-- At any system time there is at most one version, the last one indexed is the only current one,
and a lookup at a system time finds the version of that time. -/
structure Chronicle (ix : TemporalIndexes) : Prop where
  at_most_one : ∀ subject predicate time,
    ((ix.getVersionChain subject predicate).filter (·.existedAt time)).length ≤ 1
  current : ∀ subject predicate,
    (ix.getVersionChain subject predicate).filter (·.isCurrent) =
      (ix.lastIndexed subject predicate).toList
  find : ∀ subject predicate validTime systemTime, ∀ v ∈ ix.getVersionChain subject predicate,
    v.existedAt systemTime = true → v.isValidAt validTime = true →
      ix.findVersionAt subject predicate validTime systemTime = some v

/-- A current version is closed exactly if a new one takes its place. -/
def OkFor (ins : Insert) : Option VersionRef → Prop
  | none => True
  | some current =>
    match extractValidTime parse ins.triple with
    -- the new version is indexed: the old one has to go
    | .ok _ => current.object ≠ ins.triple.object
    -- no new version: the old one has to stay
    | .error _ => current.object = ins.triple.object ∨ ins.storeOk = false

instance (ins : Insert) : DecidablePred (OkFor parse ins)
  | none => isTrue trivial
  | some current =>
    match hvalid : extractValidTime parse ins.triple with
    | .ok _ => decidable_of_iff (current.object ≠ ins.triple.object) (by simp only [OkFor, hvalid])
    | .error _ =>
      decidable_of_iff (current.object = ins.triple.object ∨ ins.storeOk = false)
        (by simp only [OkFor, hvalid])

def OkInsert (ix : TemporalIndexes) (ins : Insert) : Prop :=
  OkFor parse ins (ix.findCurrentVersion ins.triple.subject ins.triple.predicate).2

instance (ix : TemporalIndexes) (ins : Insert) : Decidable (OkInsert parse ix ins) :=
  inferInstanceAs (Decidable (OkFor parse ins _))

def Insert.Before (ins ins' : Insert) : Prop :=
  ins.txId.seq < ins'.txId.seq ∧ ins.txId.timestamp < ins'.txId.timestamp

instance : DecidableRel Insert.Before := fun _ _ => inferInstanceAs (Decidable (_ ∧ _))

/-! ## Inserting into a history -/

/-- The history before the new version is appended; none if the store refuses to close. -/
def closeFor (ins : Insert) (l : List VersionRef) : Option (List VersionRef) :=
  match l.getLast? with
  | none => some l
  | some last =>
    if last.object = ins.triple.object then some l
    else if ins.storeOk then some (closeLast ins.txId.timestamp l)
    else none

def appendFor (ins : Insert) (l : List VersionRef) : List VersionRef :=
  match extractValidTime parse ins.triple with
  | .error _ => l
  | .ok valid => l ++ [newVersion ins.triple ins.versionId ins.txId valid]

def insertHistory (ins : Insert) (l : List VersionRef) : List VersionRef :=
  match closeFor ins l with
  | none => l
  | some l => appendFor parse ins l

def insertHistories (h : Histories) (ins : Insert) : Histories :=
  Function.update h ins.key (insertHistory parse ins (h ins.key))

/-- The transaction of the insert comes after the version, and its version id is another. -/
def Follows (ins : Insert) (v : VersionRef) : Prop :=
  v.txSeq < ins.txId.seq ∧ v.txFrom < ins.txId.timestamp ∧ v.versionId ≠ ins.versionId

variable {ins : Insert}

variable {l : List VersionRef}

theorem follows_closeLast {time : Time} (hl : ∀ v ∈ l, Follows ins v) :
    ∀ v ∈ closeLast time l, Follows ins v := by
  rcases List.eq_nil_or_concat l with rfl | ⟨front, last, rfl⟩
  · exact hl
  · rw [List.concat_eq_append] at hl ⊢
    rw [closeLast_concat]
    intro v hv
    rw [List.mem_append, List.mem_singleton] at hv
    rcases hv with hv | rfl
    · exact hl v (List.mem_append_left _ hv)
    · exact hl last (by simp)

theorem follows_insertHistory {ins next : Insert} (hl : ∀ v ∈ l, Follows next v)
    (hbefore : ins.Before next) (hid : ins.versionId ≠ next.versionId) :
    ∀ v ∈ insertHistory parse ins l, Follows next v := by
  have happend : ∀ l : List VersionRef, (∀ v ∈ l, Follows next v) →
      ∀ v ∈ appendFor parse ins l, Follows next v := by
    intro l hl v hv
    rw [appendFor] at hv
    split at hv
    · exact hl v hv
    · rw [List.mem_append, List.mem_singleton] at hv
      rcases hv with hv | rfl
      · exact hl v hv
      · exact ⟨hbefore.1, hbefore.2, hid⟩
  rw [insertHistory]
  unfold closeFor
  cases l.getLast? with
  | none => exact happend l hl
  | some last =>
    show ∀ v ∈ (match (if last.object = ins.triple.object then some l
      else if ins.storeOk then some (closeLast ins.txId.timestamp l) else none) with
      | none => l
      | some l => appendFor parse ins l), Follows next v
    split_ifs
    · exact happend l hl
    · exact happend _ (follows_closeLast hl)
    · exact hl

/-! ## The indexes hold the histories -/

variable {ix : TemporalIndexes} {h : Histories}

theorem Represents.indexVersion (hr : Represents ix h)
    (hfollows : ∀ key, ∀ v ∈ h key, Follows ins v) :
    Represents (ix.indexVersion parse ins.triple ins.versionId ins.txId).1
      (Function.update h ins.key (appendFor parse ins (h ins.key))) := by
  rw [TemporalIndexes.indexVersion, appendFor]
  cases extractValidTime parse ins.triple with
  | error e =>
    simp only [Function.update_eq_self]
    exact hr
  | ok valid =>
    exact hr.writeVersion (v := newVersion ins.triple ins.versionId ins.txId valid) ins.txId
      (fun w hw => (hfollows _ w hw).1) (fun key w hw => (hfollows key w hw).2.2)

theorem Represents.insert (hr : Represents ix h)
    (hfollows : ∀ key, ∀ v ∈ h key, Follows ins v) :
    Represents (ix.insert parse ins).1 (insertHistories parse h ins) := by
  obtain ⟨hcurrent, hfind⟩ := hr.findCurrentVersion ins.triple.subject ins.triple.predicate
  simp only [TemporalIndexes.insert, TemporalIndexes.checkSupersedes, insertHistories,
    insertHistory, closeFor]
  generalize hresult : ix.findCurrentVersion ins.triple.subject ins.triple.predicate = result at *
  obtain ⟨ix₁, current⟩ := result
  have hlast : (h ins.key).getLast? = current := hcurrent.symm
  rw [hlast]
  -- nothing there, the same object, or another one that is closed first
  cases current with
  | none => exact hfind.indexVersion parse hfollows
  | some current =>
    by_cases hobject : current.object = ins.triple.object
    · simp only [hobject, ne_eq, not_true_eq_false, if_false, if_true]
      exact hfind.indexVersion parse hfollows
    · obtain ⟨front, hfront⟩ := List.getLast?_eq_some_iff.mp hlast
      simp only [ne_eq, hobject, not_false_eq_true, if_true, if_false]
      cases hstore : ins.storeOk with
      | false =>
        simp only [TemporalIndexes.closeVersion, Bool.not_false, if_true, Bool.false_eq_true,
          if_false, Function.update_eq_self]
        exact hfind
      | true =>
        obtain ⟨ix₂, hclose, hclosed⟩ := hfind.closeVersion hfront ins.txId
        have hfollows₂ : ∀ key, ∀ v ∈ Function.update h ins.key
            (closeLast ins.txId.timestamp (h ins.key)) key, Follows ins v := by
          intro key v hv
          rw [Function.update_apply] at hv
          split_ifs at hv
          · exact follows_closeLast (hfollows ins.key) v hv
          · exact hfollows key v hv
        have hindexed := hclosed.indexVersion parse hfollows₂
        rw [Function.update_idem, Function.update_self] at hindexed
        simp only [hclose, if_true]
        exact hindexed

theorem follows_insertHistories {ins next : Insert} (hfollows : ∀ key, ∀ v ∈ h key, Follows next v)
    (hbefore : ins.Before next) (hid : ins.versionId ≠ next.versionId) :
    ∀ key, ∀ v ∈ insertHistories parse h ins key, Follows next v := by
  intro key v hv
  rw [insertHistories, Function.update_apply] at hv
  split_ifs at hv
  · exact follows_insertHistory parse (hfollows ins.key) hbefore hid v hv
  · exact hfollows key v hv

theorem follows_rest {rest : List Insert}
    (horder : (ins :: rest).Pairwise Insert.Before)
    (hids : ((ins :: rest).map (·.versionId)).Nodup)
    (hfollows : ∀ next ∈ rest, ∀ key, ∀ v ∈ h key, Follows next v) :
    ∀ next ∈ rest, ∀ key, ∀ v ∈ insertHistories parse h ins key, Follows next v := by
  intro next hnext
  rw [List.map_cons, List.nodup_cons] at hids
  refine follows_insertHistories parse (hfollows next hnext)
    ((List.pairwise_cons.mp horder).1 next hnext) ?_
  intro heq
  exact hids.1 (heq ▸ List.mem_map_of_mem hnext)

theorem Represents.insertAll {inserts : List Insert} (hr : Represents ix h)
    (horder : inserts.Pairwise Insert.Before) (hids : (inserts.map (·.versionId)).Nodup)
    (hfollows : ∀ ins ∈ inserts, ∀ key, ∀ v ∈ h key, Follows ins v) :
    Represents (ix.insertAll parse inserts) (inserts.foldl (insertHistories parse) h) := by
  induction inserts generalizing ix h with
  | nil => exact hr
  | cons ins rest ih =>
    rw [List.forall_mem_cons] at hfollows
    exact ih (hr.insert parse hfollows.1) (List.pairwise_cons.mp horder).2
      (List.nodup_cons.mp hids).2 (follows_rest parse horder hids hfollows.2)

/-! ## Timelines -/

/-- The versions of a history follow each other without gap or overlap. -/
abbrev Timed (l : List VersionRef) : Prop := Timeline VersionRef.txFrom VersionRef.txTo l

theorem VersionRef.covers_of_existedAt {v : VersionRef} {time : Time}
    (h : v.existedAt time = true) : Covers VersionRef.txFrom VersionRef.txTo time v := by
  rw [VersionRef.existedAt, Bool.and_eq_true, decide_eq_true_iff] at h
  refine ⟨h.1, ?_⟩
  intro e he
  have hall := h.2
  rw [Option.mem_def.mp he] at hall
  exact of_decide_eq_true hall

theorem Represents.lastIndexed (hr : Represents ix h) (subject predicate : String) :
    ix.lastIndexed subject predicate = (h (spKey subject predicate)).getLast? := by
  rw [TemporalIndexes.lastIndexed, (hr.shown _).chain, List.getLast?_map, ← (hr.shown _).current]
  exact hr.db_current _

theorem maxByTxSeq_singleton (v : VersionRef) : TemporalIndexes.maxByTxSeq [v] = some v := rfl

theorem Represents.chronicle (hr : Represents ix h) (htimed : ∀ key, Timed (h key)) :
    Chronicle ix := by
  have hone : ∀ subject predicate time,
      ((ix.getVersionChain subject predicate).filter (·.existedAt time)).length ≤ 1 := by
    intro subject predicate time
    rw [hr.getVersionChain]
    exact (htimed _).length_filter_le_one _ (fun v hv => VersionRef.covers_of_existedAt hv)
  refine ⟨hone, ?_, ?_⟩
  · intro subject predicate
    rw [hr.getVersionChain, hr.lastIndexed]
    exact (htimed _).filter_open
  · intro subject predicate validTime systemTime v hv hexisted hvalid
    -- the filter of the lookup keeps this version and has room for one
    have hmem : v ∈ (ix.getVersionChain subject predicate).filter
        (fun v => v.isValidAt validTime && v.existedAt systemTime) := by
      rw [List.mem_filter, hexisted, hvalid]
      exact ⟨hv, rfl⟩
    have hle : ((ix.getVersionChain subject predicate).filter
        (fun v => v.isValidAt validTime && v.existedAt systemTime)).length ≤ 1 := by
      rw [← List.filter_filter]
      exact (List.length_filter_le _ _).trans (hone subject predicate systemTime)
    rw [TemporalIndexes.findVersionAt]
    match hfilter : (ix.getVersionChain subject predicate).filter
        (fun v => v.isValidAt validTime && v.existedAt systemTime) with
    | [] =>
      rw [hfilter] at hmem
      cases hmem
    | [w] =>
      rw [hfilter, List.mem_singleton] at hmem
      rw [hfilter, hmem, maxByTxSeq_singleton]
    | _ :: _ :: _ =>
      rw [hfilter] at hle
      simp at hle

theorem timed_insertHistory (htimed : Timed l) (hfollows : ∀ v ∈ l, Follows ins v)
    (hok : OkFor parse ins l.getLast?) : Timed (insertHistory parse ins l) := by
  unfold insertHistory closeFor appendFor
  unfold OkFor at hok
  rcases List.eq_nil_or_concat l with rfl | ⟨front, last, rfl⟩
  · -- the first version of its history
    cases extractValidTime parse ins.triple with
    | error e => exact .nil
    | ok valid => exact .singleton rfl
  · rw [List.concat_eq_append] at *
    rw [List.getLast?_concat] at hok
    simp only [List.getLast?_concat]
    cases hvalid : extractValidTime parse ins.triple with
    | error e =>
      simp only [hvalid] at hok ⊢
      rcases hok with hobject | hstore
      · rw [if_pos hobject]
        exact htimed
      · simp only [hstore, Bool.false_eq_true, if_false]
        split_ifs <;> exact htimed
    | ok valid =>
      simp only [hvalid] at hok ⊢
      rw [if_neg hok]
      cases ins.storeOk with
      -- the store refuses, and the insert ends there
      | false => exact htimed
      | true =>
        simp only [if_true, closeLast_concat, List.append_assoc]
        exact htimed.concat rfl rfl (hfollows last (by simp)).2.1 rfl

theorem filter_current_insertHistory_ne (htimed : Timed l) (hok : ¬ OkFor parse ins l.getLast?) :
    (insertHistory parse ins l).filter (·.isCurrent) ≠
      (insertHistory parse ins l).getLast?.toList := by
  have hopen : l.filter (·.isCurrent) = l.getLast?.toList := htimed.filter_open
  unfold insertHistory closeFor appendFor
  unfold OkFor at hok
  rcases List.eq_nil_or_concat l with rfl | ⟨front, last, rfl⟩
  · exact absurd trivial hok
  · rw [List.concat_eq_append] at *
    rw [List.getLast?_concat] at hok hopen
    simp only [List.getLast?_concat]
    -- the last version is open and the ones before it are not
    have hlast : last.isCurrent = true := by
      have hmem : last ∈ (front ++ [last]).filter (·.isCurrent) := by
        rw [hopen]
        simp
      exact List.of_mem_filter hmem
    have hfront : front.filter (·.isCurrent) = [] := by
      rw [List.filter_append, List.filter_singleton, hlast] at hopen
      simpa using hopen
    cases hvalid : extractValidTime parse ins.triple with
    | error e =>
      simp only [hvalid, not_or] at hok ⊢
      -- closed, with nothing in its place
      have hstore : ins.storeOk = true := by simpa using hok.2
      simp only [hok.1, hstore, if_false, if_true, closeLast_concat, List.filter_append, hfront,
        List.getLast?_concat]
      simp [VersionRef.close, VersionRef.isCurrent]
    | ok valid =>
      simp only [hvalid, not_not] at hok ⊢
      simp only [hok, if_true, List.filter_append, hfront, List.getLast?_concat]
      -- two open versions
      have hnone : last.txTo = none := Option.isNone_iff_eq_none.mp hlast
      simp [hnone, newVersion, VersionRef.isCurrent]

/-! ## Runs of inserts -/

theorem OkInsert.iff_okFor (hr : Represents ix h) (ins : Insert) :
    OkInsert parse ix ins ↔ OkFor parse ins (h ins.key).getLast? := by
  rw [OkInsert, (hr.findCurrentVersion ins.triple.subject ins.triple.predicate).1]
  rfl

theorem chronicle_insert_iff (hr : Represents ix h) (htimed : ∀ key, Timed (h key))
    (hfollows : ∀ key, ∀ v ∈ h key, Follows ins v) :
    (Chronicle (ix.insert parse ins).1 ↔ OkInsert parse ix ins) ∧
      (OkInsert parse ix ins → ∀ key, Timed (insertHistories parse h ins key)) := by
  have hnext := hr.insert parse hfollows
  have hkeep : OkInsert parse ix ins → ∀ key, Timed (insertHistories parse h ins key) := by
    intro hok key
    rw [insertHistories, Function.update_apply]
    split_ifs
    · exact timed_insertHistory parse (htimed ins.key) (hfollows ins.key)
        ((OkInsert.iff_okFor parse hr ins).mp hok)
    · exact htimed key
  refine ⟨⟨?_, fun hok => hnext.chronicle (hkeep hok)⟩, hkeep⟩
  intro hchronicle
  by_contra hok
  rw [OkInsert.iff_okFor parse hr] at hok
  have hcurrent := hchronicle.current ins.triple.subject ins.triple.predicate
  rw [hnext.getVersionChain, hnext.lastIndexed, ← Insert.key, insertHistories,
    Function.update_self] at hcurrent
  exact filter_current_insertHistory_ne parse (htimed ins.key) hok hcurrent

theorem chronicle_along_iff {inserts : List Insert} (horder : inserts.Pairwise Insert.Before)
    (hids : (inserts.map (·.versionId)).Nodup) (hr : Represents ix h)
    (htimed : ∀ key, Timed (h key))
    (hfollows : ∀ ins ∈ inserts, ∀ key, ∀ v ∈ h key, Follows ins v) :
    OkAlong (fun ix ins => some (ix.insert parse ins).1)
        (fun ix ins => Chronicle (ix.insert parse ins).1) ix inserts ↔
      OkAlong (fun ix ins => some (ix.insert parse ins).1) (OkInsert parse) ix inserts := by
  induction inserts generalizing ix h with
  | nil => exact Iff.rfl
  | cons ins rest ih =>
    rw [okAlong_cons_total, okAlong_cons_total]
    rw [List.forall_mem_cons] at hfollows
    obtain ⟨hiff, hkeep⟩ := chronicle_insert_iff parse hr htimed hfollows.1
    rw [hiff]
    -- after an insert that is all right, the rest is a run of its own
    refine and_congr_right fun hok => ?_
    exact ih (List.pairwise_cons.mp horder).2 (List.nodup_cons.mp hids).2
      (hr.insert parse hfollows.1) (hkeep hok) (follows_rest parse horder hids hfollows.2)

/-- **Histories are timelines.** Inserts in the order of their transactions, under version ids of
their own, keep at most one version at any system time in every state they go through if and only
if each one that finds a current version closes it exactly if it has a version to take its place. -/
theorem chronicle_iff (inserts : List Insert) (horder : inserts.Pairwise Insert.Before)
    (hids : (inserts.map (·.versionId)).Nodup) :
    (∀ done, done <+: inserts → Chronicle (TemporalIndexes.insertAll parse .new done)) ↔
      OkAlong (fun ix ins => some (ix.insert parse ins).1) (OkInsert parse) .new inserts := by
  have hnew : Chronicle .new := represents_new.chronicle (fun _ => .nil)
  rw [← chronicle_along_iff parse horder hids represents_new (fun _ => .nil) nofun]
  refine (forall_prefix_iff_okAlong (fun ix ins => (ix.insert parse ins).1) Chronicle .new
    inserts).trans ?_
  exact and_iff_right hnew

/-- `DateTime::parse_from_rfc3339` on one date. -/
def parseNewYear (text : String) : Except String Time :=
  if text = "2024-01-01T00:00:00Z" then .ok 1704067200000000000 else .error "premature end of input"

def balanceInsert (versionId object : String) (seq : UInt64) : Insert where
  triple :=
    { subject := "http://example.org/entity/123"
      predicate := "http://example.org/prop/balance"
      object
      annotations := [⟨"http://graphica.io/ontology#validFrom",
        .TypedLiteral "2024-01-01T00:00:00Z" "http://www.w3.org/2001/XMLSchema#dateTime"⟩] }
  versionId
  txId := ⟨seq, 1704067200000000000 + 1000 * seq.toNat, 1⟩
  storeOk := true

/-- A balance and another one, in every state on the way. -/
theorem chronicle_two_balances :
    [balanceInsert "v1" "50000" 1, balanceInsert "v2" "60000" 2].Pairwise Insert.Before ∧
      ∀ done, done <+: [balanceInsert "v1" "50000" 1, balanceInsert "v2" "60000" 2] →
        Chronicle (TemporalIndexes.insertAll parseNewYear .new done) := by
  have horder : [balanceInsert "v1" "50000" 1, balanceInsert "v2" "60000" 2].Pairwise
      Insert.Before := by decide +kernel
  refine ⟨horder, (chronicle_iff parseNewYear _ horder (by decide +kernel)).mpr ?_⟩
  decide +kernel

/-- A balance, the same balance again and another one: the first version is never closed. -/
theorem not_chronicle_same_balance :
    ∃ inserts : List Insert, inserts.Pairwise Insert.Before ∧
      (inserts.map (·.versionId)).Nodup ∧
      ¬ Chronicle (TemporalIndexes.insertAll parseNewYear .new inserts) := by
  refine ⟨[balanceInsert "v1" "50000" 1, balanceInsert "v2" "50000" 2,
    balanceInsert "v3" "60000" 3], by decide +kernel, by decide +kernel, ?_⟩
  intro hchronicle
  have hone := hchronicle.at_most_one "http://example.org/entity/123"
    "http://example.org/prop/balance" 1704067200000003000
  rw [(represents_new.insertAll parseNewYear (by decide +kernel) (by decide +kernel)
    nofun).getVersionChain] at hone
  revert hone
  decide +kernel

end Arcxa.Bitemporal
