import Arcxa.Lib.Calls
import Arcxa.Bitemporal.Indexes

/-!
# Lookups and writes at the same time

The calls of `TemporalIndexes` cut into single reads and writes of a column family and single uses
of the cache. Nothing holds from one to the next: a lookup reads the database and fills the cache
later, a write changes the database and empties the cache later. If a write empties the cache while
a lookup still holds what it read before, the lookup puts back what has gone. In the runs where no
write does that (`Careful`), every entry of the cache is the current version of its key unless a
write has still to take it out (`coherent_of_careful`).
-/

namespace Arcxa.Bitemporal

open TemporalIndexes BTreeMap

/-! ## Calls -/

/-- What `find_current_version` does next. -/
inductive FindStage where
  | checkCache
  | readCurrent
  | readReverse (versionId : String)
  | readTx (txKey : String)
  | fill (version : VersionRef)

/-- What `index_version` does next. -/
inductive IndexStage where
  | putTx
  | putReverse
  | readChain
  | putChain (chain : List String)
  | putCurrent
  | invalidate

/-- What `supersede_version` does next. -/
inductive SupersedeStage where
  | readReverse
  | readTx (txKey : String)
  | putTx (txKey : String) (version : VersionRef)
  | invalidate (key : String)

/-- A call in progress. Indexing begins with the valid time that was extracted from the triple. -/
inductive Call where
  | find (subject predicate : String) (stage : FindStage)
  | index (triple : AnnotatedTriple) (versionId : String) (txId : TransactionId)
      (valid : Time × Option Time) (stage : IndexStage)
  | supersede (versionId : String) (supersededAt : Time) (stage : SupersedeStage)

namespace TemporalIndexes

variable (ix : TemporalIndexes)

def withDb (db : IndexDb) : TemporalIndexes := { ix with db }

/-- One step of `find_current_version`; a call that is at its end has no next stage. -/
def advanceFind (key : String) : FindStage → TemporalIndexes × Option FindStage
  | .checkCache =>
    match ix.cache.lookup key with
    -- a hit makes the entry the most recently used and ends the call
    | some _ => ({ ix with cache := ix.cache.modify key id }, none)
    | none => (ix, some .readCurrent)
  | .readCurrent => (ix, (ix.db.currentVersion.get key).map .readReverse)
  | .readReverse versionId => (ix, (ix.db.reverseIndex.get versionId).map .readTx)
  | .readTx txKey => (ix, (ix.db.txIndex.get txKey).map .fill)
  | .fill version => ({ ix with cache := ix.cache.put key version }, none)

/-- One step of `index_version`. -/
def advanceIndex (triple : AnnotatedTriple) (versionId : String) (txId : TransactionId)
    (valid : Time × Option Time) : IndexStage → TemporalIndexes × Option IndexStage
  | .putTx =>
    (ix.withDb (ix.db.putTx (txKey txId versionId) (newVersion triple versionId txId valid)),
      some .putReverse)
  | .putReverse =>
    (ix.withDb (ix.db.putReverse versionId (txKey txId versionId)), some .readChain)
  | .readChain =>
    (ix, some (.putChain (ix.db.chain (spKey triple.subject triple.predicate) ++ [versionId])))
  | .putChain chain =>
    (ix.withDb (ix.db.putChain (spKey triple.subject triple.predicate) chain), some .putCurrent)
  | .putCurrent =>
    (ix.withDb (ix.db.putCurrent (spKey triple.subject triple.predicate) versionId),
      some .invalidate)
  | .invalidate => (ix.invalidate (spKey triple.subject triple.predicate), none)

/-- One step of `supersede_version`; a version that is not found ends the call. -/
def advanceSupersede (versionId : String) (supersededAt : Time) :
    SupersedeStage → TemporalIndexes × Option SupersedeStage
  | .readReverse => (ix, (ix.db.reverseIndex.get versionId).map .readTx)
  | .readTx txKey =>
    (ix, (ix.db.txIndex.get txKey).map fun v =>
      .putTx txKey { v with txTo := some supersededAt })
  | .putTx txKey version => (ix.withDb (ix.db.putTx txKey version), some (.invalidate version.key))
  | .invalidate key => (ix.invalidate key, none)

def advance (call : Call) (_ : Unit) : Option (TemporalIndexes × Option Call) :=
  match call with
  | .find subject predicate stage =>
    let (ix, stage) := ix.advanceFind (spKey subject predicate) stage
    some (ix, stage.map (.find subject predicate))
  | .index triple versionId txId valid stage =>
    let (ix, stage) := ix.advanceIndex triple versionId txId valid stage
    some (ix, stage.map (.index triple versionId txId valid))
  | .supersede versionId supersededAt stage =>
    let (ix, stage) := ix.advanceSupersede versionId supersededAt stage
    some (ix, stage.map (.supersede versionId supersededAt))

end TemporalIndexes

/-- The call is about to make its first step. A triple without valid time ends `index_version`
before that. -/
def Call.isFirst (parse : String → Except String Time) : Call → Bool
  | .find _ _ .checkCache => true
  | .index triple _ _ valid .putTx =>
    match extractValidTime parse triple with
    | .ok extracted => extracted = valid
    | .error _ => false
  | .supersede _ _ .readReverse => true
  | _ => false

abbrev Lookups := Pool TemporalIndexes Call

def lookupsStep (parse : String → Except String Time) :
    Lookups → CallAction Call Unit → Option Lookups :=
  Pool.step (fun _ call => call.isFirst parse) TemporalIndexes.advance

def Lookups.new : Lookups := ⟨.new, .empty⟩

def Coherent (ix : TemporalIndexes) : Prop :=
  ∀ key v, ix.cache.lookup key = some v → ix.db.current key = some v

/-! ## Careful runs -/

def Call.pending : Call → Option String
  | .index triple _ _ _ _ => some (spKey triple.subject triple.predicate)
  | .supersede _ _ (.putTx _ version) => some version.key
  | .supersede _ _ (.invalidate key) => some key
  | _ => none

def Call.invalidating : Call → Option String
  | .index triple _ _ _ .invalidate => some (spKey triple.subject triple.predicate)
  | .supersede _ _ (.invalidate key) => some key
  | _ => none

def Call.introduces : Call → Option String
  | .index _ versionId _ _ _ => some versionId
  | _ => none

def FindStage.upToDate (db : IndexDb) (key : String) : FindStage → Bool
  | .checkCache | .readCurrent => true
  | .readReverse versionId => db.currentVersion.get key = some versionId
  | .readTx txKey => (db.currentVersion.get key).bind db.reverseIndex.get = some txKey
  | .fill version => db.current key = some version

def Call.upToDate (db : IndexDb) (key : String) : Call → Bool
  | .find subject predicate stage =>
    spKey subject predicate ≠ key || stage.upToDate db key
  | _ => true

def Lookups.pendingBeside (p : Lookups) (c : Nat) (key : String) : Bool :=
  p.calls.entries.any fun e => e.1 ≠ c && e.2.pending = some key

/-- A new version has an id of its own, and a key is taken out of the cache only when no lookup of
it holds what is out of date, or when another call will take it out once more. -/
def Careful (p : Lookups) : CallAction Call Unit → Bool
  | .start _ call =>
    call.introduces.all fun versionId =>
      (p.shared.db.reverseIndex.get versionId).isNone &&
        p.calls.values.all fun other => other.introduces ≠ some versionId
  | .advance c _ =>
    ((p.calls.get c).bind Call.invalidating).all fun key =>
      (p.calls.values.all fun other => other.upToDate p.shared.db key) || p.pendingBeside c key

/-! ## The database under the calls -/

/-- What the stage of a call relies on. -/
def Call.Holds (db : IndexDb) : Call → Prop
  | .find _ _ _ => True
  | .index triple versionId txId valid stage =>
    match stage with
    | .putTx => db.reverseIndex.get versionId = none
    | .putReverse =>
      db.reverseIndex.get versionId = none ∧
        db.txIndex.get (txKey txId versionId) = some (newVersion triple versionId txId valid)
    | .readChain | .putChain _ | .putCurrent =>
      ∃ v, db.getVersionById versionId = some v ∧ v.key = spKey triple.subject triple.predicate
    | .invalidate => True
  | .supersede versionId _ stage =>
    match stage with
    | .readTx txKey => db.reverseIndex.get versionId = some txKey
    | .putTx txKey version =>
      db.reverseIndex.get versionId = some txKey ∧ version.versionId = versionId ∧
        ∃ w, db.txIndex.get txKey = some w ∧ w.key = version.key
    | .readReverse | .invalidate _ => True

def IndexDb.Keyed (db : IndexDb) : Prop :=
  ∀ key id, db.currentVersion.get key = some id →
    ∃ v, db.getVersionById id = some v ∧ v.key = key

/-- A step that writes for one version id: the entries of the others stay, its own entry is never
moved, and its version never gets another key. -/
structure DbStep (own : String) (db db' : IndexDb) : Prop where
  reverse : ∀ id, id ≠ own → db'.reverseIndex.get id = db.reverseIndex.get id
  kept : ∀ k, db.reverseIndex.get own = some k → db'.reverseIndex.get own = some k
  tx : ∀ id txId, id ≠ own →
    db'.txIndex.get (txKey txId id) = db.txIndex.get (txKey txId id)
  key : ∀ v, db.getVersionById own = some v →
    ∃ w, db'.getVersionById own = some w ∧ w.key = v.key

variable {db db' : IndexDb} {own : String}

theorem DbStep.getVersionById (hstep : DbStep own db db') (hlinked : db.Linked) {id : String}
    {v : VersionRef} (hv : db.getVersionById id = some v) :
    ∃ w, db'.getVersionById id = some w ∧ w.key = v.key := by
  by_cases hid : id = own
  · rw [hid] at hv ⊢
    exact hstep.key v hv
  · obtain ⟨k, hk, htx⟩ := Option.bind_eq_some_iff.mp hv
    obtain ⟨txId, rfl⟩ := hlinked.key id k hk
    refine ⟨v, ?_, rfl⟩
    rw [IndexDb.getVersionById, hstep.reverse id hid, hk]
    exact (hstep.tx id txId hid).trans htx

theorem DbStep.reverse_of_some (hstep : DbStep own db db') {id k : String}
    (hid : db.reverseIndex.get id = some k) : db'.reverseIndex.get id = some k := by
  by_cases hown : id = own
  · rw [hown] at hid ⊢
    exact hstep.kept k hid
  · exact (hstep.reverse id hown).trans hid

variable {call : Call}

/-- A call still holds what it relies on after a step for another version id, or for one that is
already there. -/
theorem Call.Holds.mono (h : call.Holds db) (hlinked : db.Linked)
    (hstep : DbStep own db db')
    (hown : call.introduces ≠ some own ∨ db.reverseIndex.get own ≠ none) : call.Holds db' := by
  -- an id that is not there yet is not the one that is written
  have hnone : ∀ {id : String}, call.introduces = some id → db.reverseIndex.get id = none →
      id ≠ own := by
    rintro id hid hget rfl
    rcases hown with hne | hsome
    · exact hne hid
    · exact hsome hget
  cases call with
  | find subject predicate stage => trivial
  | index triple versionId txId valid stage =>
    cases stage with
    | putTx =>
      have hne := hnone rfl h
      exact (hstep.reverse versionId hne).trans h
    | putReverse =>
      have hne := hnone rfl h.1
      exact ⟨(hstep.reverse versionId hne).trans h.1, (hstep.tx versionId txId hne).trans h.2⟩
    | readChain | putChain chain | putCurrent =>
      -- the version may have been superseded meanwhile, under the same key
      obtain ⟨v, hv, hkey⟩ := h
      obtain ⟨w, hw, hwkey⟩ := hstep.getVersionById hlinked hv
      exact ⟨w, hw, hwkey.trans hkey⟩
    | invalidate => trivial
  | supersede versionId supersededAt stage =>
    cases stage with
    | readReverse => trivial
    | readTx k => exact hstep.reverse_of_some h
    | putTx k version =>
      obtain ⟨hid, hversion, v, hv, hkey⟩ := h
      have hid' := hstep.reverse_of_some hid
      obtain ⟨w, hw, hwkey⟩ := hstep.getVersionById hlinked
        (Option.bind_eq_some_iff.mpr ⟨k, hid, hv⟩)
      rw [IndexDb.getVersionById, hid'] at hw
      exact ⟨hid', hversion, w, hw, hwkey.trans hkey⟩
    | invalidate key => trivial

theorem Call.Holds.congr (h : call.Holds db)
    (hreverse : db'.reverseIndex = db.reverseIndex) (htx : db'.txIndex = db.txIndex) :
    call.Holds db' := by
  obtain ⟨tx, reverse, chains, current⟩ := db
  obtain ⟨tx', reverse', chains', current'⟩ := db'
  simp only at hreverse htx
  subst hreverse htx
  cases call with
  | find subject predicate stage => trivial
  | index triple versionId txId valid stage => cases stage <;> exact h
  | supersede versionId supersededAt stage => cases stage <;> exact h

/-- A lookup of the key reads the same at each of its stages. -/
structure SameView (key : String) (db db' : IndexDb) : Prop where
  current : db'.currentVersion.get key = db.currentVersion.get key
  reverse : (db'.currentVersion.get key).bind db'.reverseIndex.get =
    (db.currentVersion.get key).bind db.reverseIndex.get
  version : db'.current key = db.current key

theorem SameView.refl (key : String) (db : IndexDb) : SameView key db db := ⟨rfl, rfl, rfl⟩

/-- What a step does to the database, as far as the calls and the lookups can tell. -/
structure Sound (call : Call) (next : Option Call) (db db' : IndexDb) : Prop where
  linked : db'.Linked
  keyed : db'.Keyed
  others : ∀ other : Call, other.Holds db →
    (∀ id, call.introduces = some id → other.introduces ≠ some id) → other.Holds db'
  next : ∀ call' ∈ next, call'.Holds db'
  view : ∀ key, SameView key db db' ∨ call.pending = some key

variable {next : Option Call}

variable (hlinked : db.Linked) (hkeyed : db.Keyed)

include hlinked hkeyed

theorem Sound.of_read (hnext : ∀ call' ∈ next, call'.Holds db) : Sound call next db db where
  linked := hlinked
  keyed := hkeyed
  others _ hother _ := hother
  next := hnext
  view key := .inl (.refl key db)

variable {triple : AnnotatedTriple} {versionId : String} {txId : TransactionId}
  {valid : Time × Option Time}

theorem sound_putTx (hnew : db.reverseIndex.get versionId = none) :
    Sound (.index triple versionId txId valid .putTx)
      (some (.index triple versionId txId valid .putReverse)) db
      (db.putTx (txKey txId versionId) (newVersion triple versionId txId valid)) := by
  have hother : ∀ {id : String}, db.reverseIndex.get id = some (txKey txId versionId) → False := by
    intro id hid
    obtain ⟨txId', hk⟩ := hlinked.key _ _ hid
    rw [← txKey_inj hk, hnew] at hid
    cases hid
  have hget : ∀ id, (db.putTx (txKey txId versionId)
      (newVersion triple versionId txId valid)).getVersionById id = db.getVersionById id := by
    intro id
    rw [IndexDb.getVersionById_putTx]
    exact if_neg hother
  have hstep : DbStep versionId db (db.putTx (txKey txId versionId)
      (newVersion triple versionId txId valid)) := by
    refine ⟨fun _ _ => rfl, fun _ hk => hk, ?_, fun v hv => ⟨v, (hget versionId).trans hv, rfl⟩⟩
    intro id txId' hid
    refine (get_insert ..).trans (if_neg ?_)
    exact fun hk => hid (txKey_inj hk)
  refine ⟨hlinked.putTx fun id hid => (hother hid).elim, ?_, ?_, ?_, ?_⟩
  · intro key id hid
    rw [hget]
    exact hkeyed key id hid
  · intro other hholds hne
    exact hholds.mono hlinked hstep (.inl (hne versionId rfl))
  · rintro _ ⟨⟩
    exact ⟨hnew, (get_insert ..).trans (if_pos rfl)⟩
  · intro key
    refine .inl ⟨rfl, rfl, ?_⟩
    exact Option.bind_congr fun id _ => hget id

theorem sound_putReverse (hnew : db.reverseIndex.get versionId = none)
    (htx : db.txIndex.get (txKey txId versionId) = some (newVersion triple versionId txId valid)) :
    Sound (.index triple versionId txId valid .putReverse)
      (some (.index triple versionId txId valid .readChain)) db
      (db.putReverse versionId (txKey txId versionId)) := by
  have hget := db.getVersionById_putReverse versionId (txKey txId versionId)
  have hreverse : ∀ id, (db.putReverse versionId (txKey txId versionId)).reverseIndex.get id =
      if id = versionId then some (txKey txId versionId) else db.reverseIndex.get id :=
    fun id => get_insert ..
  -- no key has this id as its current version yet
  have hcurrent : ∀ {key id : String}, db.currentVersion.get key = some id → id ≠ versionId := by
    rintro key id hid rfl
    obtain ⟨v, hv, -⟩ := hkeyed key id hid
    rw [IndexDb.getVersionById, hnew] at hv
    cases hv
  have hstep : DbStep versionId db (db.putReverse versionId (txKey txId versionId)) := by
    refine ⟨fun id hid => (hreverse id).trans (if_neg hid), ?_, fun _ _ _ => rfl, ?_⟩
    · intro k hk
      rw [hnew] at hk
      cases hk
    · intro v hv
      rw [IndexDb.getVersionById, hnew] at hv
      cases hv
  refine ⟨hlinked.putReverse htx rfl, ?_, ?_, ?_, ?_⟩
  · intro key id hid
    rw [hget, if_neg (hcurrent hid)]
    exact hkeyed key id hid
  · intro other hholds hne
    exact hholds.mono hlinked hstep (.inl (hne versionId rfl))
  · rintro _ ⟨⟩
    exact ⟨_, (hget versionId).trans ((if_pos rfl).trans htx), rfl⟩
  · intro key
    refine .inl ⟨rfl, ?_, ?_⟩
    · exact Option.bind_congr fun id hid => (hreverse id).trans (if_neg (hcurrent hid))
    · exact Option.bind_congr fun id hid => (hget id).trans (if_neg (hcurrent hid))

theorem sound_putCurrent {v : VersionRef} (hv : db.getVersionById versionId = some v)
    (hkey : v.key = spKey triple.subject triple.predicate) :
    Sound (.index triple versionId txId valid .putCurrent)
      (some (.index triple versionId txId valid .invalidate)) db
      (db.putCurrent (spKey triple.subject triple.predicate) versionId) := by
  have hcurrent : ∀ key, (db.putCurrent (spKey triple.subject triple.predicate)
      versionId).currentVersion.get key =
        if key = spKey triple.subject triple.predicate then some versionId
        else db.currentVersion.get key :=
    fun key => get_insert ..
  refine ⟨⟨hlinked.key, hlinked.version⟩, ?_, ?_, ?_, ?_⟩
  · intro key id hid
    rw [hcurrent] at hid
    split_ifs at hid with heq
    · obtain rfl := Option.some.inj hid
      exact ⟨v, hv, hkey.trans heq.symm⟩
    · exact hkeyed key id hid
  · intro other hother _
    exact hother.congr rfl rfl
  · rintro _ ⟨⟩
    trivial
  · intro key
    by_cases heq : key = spKey triple.subject triple.predicate
    · exact .inr (congrArg some heq.symm)
    · have hsame := (hcurrent key).trans (if_neg heq)
      refine .inl ⟨hsame, ?_, ?_⟩
      · rw [hsame]
        rfl
      · rw [IndexDb.current, hsame]
        rfl

theorem sound_rewrite {versionId k : String} {supersededAt : Time} {version w : VersionRef}
    (hid : db.reverseIndex.get versionId = some k) (hversion : version.versionId = versionId)
    (hw : db.txIndex.get k = some w) (hkey : w.key = version.key) :
    Sound (.supersede versionId supersededAt (.putTx k version))
      (some (.supersede versionId supersededAt (.invalidate version.key))) db
      (db.putTx k version) := by
  have hold : db.getVersionById versionId = some w := Option.bind_eq_some_iff.mpr ⟨k, hid, hw⟩
  have hget := hlinked.getVersionById_rewrite version hid
  have hstep : DbStep versionId db (db.putTx k version) := by
    refine ⟨fun _ _ => rfl, fun _ hk => hk, ?_, ?_⟩
    · intro id txId hne
      refine (get_insert ..).trans (if_neg ?_)
      rintro rfl
      obtain ⟨txId', hk⟩ := hlinked.key _ _ hid
      exact hne (txKey_inj hk)
    · intro v hv
      obtain rfl := Option.some.inj (hold.symm.trans hv)
      exact ⟨version, (hget versionId).trans (if_pos rfl), hkey.symm⟩
  refine ⟨hlinked.putTx fun id hid' => hversion.trans (hlinked.inj hid hid'), ?_, ?_, ?_, ?_⟩
  · intro key id hcurrent
    obtain ⟨v, hv, hvkey⟩ := hkeyed key id hcurrent
    obtain ⟨v', hv', hv'key⟩ := hstep.getVersionById hlinked hv
    exact ⟨v', hv', hv'key.trans hvkey⟩
  · intro other hholds _
    exact hholds.mono hlinked hstep (.inr (by simp [hid]))
  · rintro _ ⟨⟩
    trivial
  · intro key
    -- only the key whose current version is written again reads something else
    by_cases hcurrent : db.currentVersion.get key = some versionId
    · obtain ⟨v, hv, hvkey⟩ := hkeyed key versionId hcurrent
      obtain rfl := Option.some.inj (hold.symm.trans hv)
      exact .inr (congrArg some (hkey.symm.trans hvkey))
    · refine .inl ⟨rfl, rfl, ?_⟩
      refine Option.bind_congr fun id hid' => (hget id).trans (if_neg ?_)
      rintro rfl
      exact hcurrent hid'

omit hlinked hkeyed

/-- Every step keeps the database in order. -/
theorem advance_sound {ix ix' : TemporalIndexes}
    (hlinked : ix.db.Linked) (hkeyed : ix.db.Keyed) (hholds : call.Holds ix.db)
    (hadvance : ix.advance call () = some (ix', next)) : Sound call next ix.db ix'.db := by
  cases call with
  | find subject predicate stage =>
    have hdb : ix'.db = ix.db := by
      cases stage <;> simp only [advance, advanceFind] at hadvance
      case checkCache =>
        split at hadvance <;> cases hadvance <;> rfl
      all_goals
        cases hadvance
        rfl
    have hnext : ∀ call' ∈ next, call'.Holds ix.db := by
      intro call' hcall'
      obtain ⟨stage', rfl⟩ : ∃ stage', call' = .find subject predicate stage' := by
        simp only [advance] at hadvance
        cases hadvance
        obtain ⟨stage', -, rfl⟩ := Option.map_eq_some_iff.mp hcall'
        exact ⟨stage', rfl⟩
      trivial
    rw [hdb]
    exact .of_read hlinked hkeyed hnext
  | index triple versionId txId valid stage =>
    cases stage with
    | putTx =>
      cases hadvance
      exact sound_putTx hlinked hkeyed hholds
    | putReverse =>
      cases hadvance
      exact sound_putReverse hlinked hkeyed hholds.1 hholds.2
    | readChain =>
      cases hadvance
      refine .of_read hlinked hkeyed ?_
      rintro _ ⟨⟩
      exact hholds
    | putChain chain =>
      cases hadvance
      refine ⟨⟨hlinked.key, hlinked.version⟩, hkeyed, ?_, ?_, fun key => .inl ⟨rfl, rfl, rfl⟩⟩
      · intro other hother _
        exact hother.congr rfl rfl
      · rintro _ ⟨⟩
        exact hholds
    | putCurrent =>
      cases hadvance
      obtain ⟨v, hv, hkey⟩ := hholds
      exact sound_putCurrent hlinked hkeyed hv hkey
    | invalidate =>
      cases hadvance
      exact .of_read hlinked hkeyed fun call' hcall' => absurd hcall' (Option.not_mem_none call')
  | supersede versionId supersededAt stage =>
    cases stage with
    | readReverse =>
      cases hadvance
      refine .of_read hlinked hkeyed ?_
      intro call' hcall'
      obtain ⟨stage', hstage', rfl⟩ := Option.map_eq_some_iff.mp hcall'
      obtain ⟨k, hk, rfl⟩ := Option.map_eq_some_iff.mp hstage'
      exact hk
    | readTx k =>
      cases hadvance
      refine .of_read hlinked hkeyed ?_
      intro call' hcall'
      obtain ⟨stage', hstage', rfl⟩ := Option.map_eq_some_iff.mp hcall'
      obtain ⟨v, hv, rfl⟩ := Option.map_eq_some_iff.mp hstage'
      -- what is read is the version of the id, and only its end is changed
      obtain ⟨w, hw, hwid⟩ := hlinked.version _ _ hholds
      obtain rfl := Option.some.inj (hw.symm.trans hv)
      exact ⟨hholds, hwid, w, hw, rfl⟩
    | putTx k version =>
      cases hadvance
      obtain ⟨hid, hversion, w, hw, hkey⟩ := hholds
      exact sound_rewrite hlinked hkeyed hid hversion hw hkey
    | invalidate key =>
      cases hadvance
      exact .of_read hlinked hkeyed fun call' hcall' => absurd hcall' (Option.not_mem_none call')

/-! ## The cache under the calls -/

section Advance

variable {ix ix' : TemporalIndexes} {call : Call} {next : Option Call} {key : String}

variable (hadvance : ix.advance call () = some (ix', next))

include hadvance

theorem advance_invalidating (hkey : call.invalidating = some key) :
    ix' = ix.invalidate key ∧ next = none ∧ call.pending = some key := by
  cases call with
  | find subject predicate stage => cases hkey
  | index triple versionId txId valid stage =>
    cases stage <;> cases hkey
    cases hadvance
    exact ⟨rfl, rfl, rfl⟩
  | supersede versionId supersededAt stage =>
    cases stage <;> cases hkey
    cases hadvance
    exact ⟨rfl, rfl, rfl⟩

theorem advance_pending (hpending : call.pending = some key) (hnot : call.invalidating = none) :
    ∃ call', next = some call' ∧ call'.pending = some key := by
  cases call with
  | find subject predicate stage => cases hpending
  | index triple versionId txId valid stage =>
    cases stage <;> cases hnot <;> cases hadvance <;> exact ⟨_, rfl, hpending⟩
  | supersede versionId supersededAt stage =>
    cases stage with
    | readReverse | readTx k => cases hpending
    | putTx k version =>
      cases hadvance
      exact ⟨_, rfl, hpending⟩
    | invalidate key => cases hnot

theorem lookup_of_advance (hnot : call.invalidating = none) {v : VersionRef}
    (hv : ix'.cache.lookup key = some v) :
    ix.cache.lookup key = some v ∨
      ∃ subject predicate, call = .find subject predicate (.fill v) ∧
        spKey subject predicate = key := by
  cases call with
  | find subject predicate stage =>
    simp only [advance] at hadvance
    cases hadvance
    cases stage with
    | checkCache =>
      simp only [advanceFind] at hv
      -- a hit changes the order of the entries and none of them
      split at hv
      · rw [Lru.lookup_modify] at hv
        split_ifs at hv with hkey
        · left
          rw [hkey]
          simpa using hv
        · exact .inl hv
      · exact .inl hv
    | readCurrent | readReverse id | readTx k => exact .inl hv
    | fill version =>
      simp only [advanceFind, Lru.lookup_put] at hv
      split_ifs at hv with hkey
      · exact .inr ⟨subject, predicate, by rw [Option.some.inj hv], hkey.symm⟩
      · exact .inl hv
  | index triple versionId txId valid stage =>
    cases stage <;> cases hnot <;> cases hadvance <;> exact .inl hv
  | supersede versionId supersededAt stage =>
    cases stage <;> cases hnot <;> cases hadvance <;> exact .inl hv

omit hadvance

theorem upToDate_advance {subject predicate : String} {stage stage' : FindStage}
    (hadvance : ix.advance (.find subject predicate stage) () =
      some (ix', some (.find subject predicate stage')))
    (hstage : stage.upToDate ix.db (spKey subject predicate) = true) :
    stage'.upToDate ix.db (spKey subject predicate) = true := by
  have hnext : (ix.advanceFind (spKey subject predicate) stage).2 = some stage' := by
    simp only [advance, Option.some.injEq, Prod.mk.injEq] at hadvance
    obtain ⟨stage'', hstage'', heq⟩ := Option.map_eq_some_iff.mp hadvance.2
    cases heq
    exact hstage''
  cases stage with
  | checkCache =>
    simp only [advanceFind] at hnext
    split at hnext <;> cases hnext
    rfl
  | readCurrent =>
    obtain ⟨id, hid, rfl⟩ := Option.map_eq_some_iff.mp hnext
    exact decide_eq_true hid
  | readReverse id =>
    obtain ⟨k, hk, rfl⟩ := Option.map_eq_some_iff.mp hnext
    have hcurrent := of_decide_eq_true hstage
    apply decide_eq_true
    rw [hcurrent]
    exact hk
  | readTx k =>
    obtain ⟨v, hv, rfl⟩ := Option.map_eq_some_iff.mp hnext
    obtain ⟨id, hid, hk⟩ := Option.bind_eq_some_iff.mp (of_decide_eq_true hstage)
    apply decide_eq_true
    rw [IndexDb.current, hid]
    show ix.db.getVersionById id = some v
    exact Option.bind_eq_some_iff.mpr ⟨k, hk, hv⟩
  | fill version => cases hnext

theorem introduces_of_advance (hadvance : ix.advance call () = some (ix', next)) {call' : Call}
    (hnext : next = some call') : call'.introduces = call.introduces := by
  subst hnext
  cases call with
  | find subject predicate stage | index triple versionId txId valid stage
  | supersede versionId supersededAt stage =>
    simp only [advance, Option.some.injEq, Prod.mk.injEq] at hadvance
    obtain ⟨stage', -, rfl⟩ := Option.map_eq_some_iff.mp hadvance.2
    rfl

theorem find_of_advance {subject predicate : String} {stage' : FindStage}
    (hadvance : ix.advance call () = some (ix', some (.find subject predicate stage'))) :
    ∃ stage, call = .find subject predicate stage := by
  cases call with
  | find subject₀ predicate₀ stage =>
    simp only [advance, Option.some.injEq, Prod.mk.injEq] at hadvance
    obtain ⟨stage'', -, heq⟩ := Option.map_eq_some_iff.mp hadvance.2
    cases heq
    exact ⟨stage, rfl⟩
  | index triple versionId txId valid stage | supersede versionId supersededAt stage =>
    simp only [advance, Option.some.injEq, Prod.mk.injEq] at hadvance
    obtain ⟨stage'', -, heq⟩ := Option.map_eq_some_iff.mp hadvance.2
    cases heq

end Advance

theorem upToDate_congr {key : String} (hview : SameView key db db') (stage : FindStage) :
    stage.upToDate db' key = stage.upToDate db key := by
  cases stage <;>
    simp only [FindStage.upToDate, hview.current, hview.version, ← hview.current ▸ hview.reverse]

/-! ## Runs -/

def Lookups.Pending (p : Lookups) (key : String) : Prop :=
  ∃ c call, p.calls.get c = some call ∧ call.pending = some key

variable {c : Nat}

theorem Lookups.pendingBeside_iff {p : Lookups} {key : String} :
    p.pendingBeside c key = true ↔
      ∃ c' call, c' ≠ c ∧ p.calls.get c' = some call ∧ call.pending = some key := by
  simp only [Lookups.pendingBeside, List.any_eq_true, Prod.exists, Bool.and_eq_true,
    decide_eq_true_iff, mem_entries_iff]
  constructor
  · rintro ⟨c', call, hcall, hne, hpending⟩
    exact ⟨c', call, hne, hcall, hpending⟩
  · rintro ⟨c', call, hne, hcall, hpending⟩
    exact ⟨c', call, hcall, hne, hpending⟩

/-- Between the steps: an entry of the cache or what a lookup holds is out of date only for a key
that a call has still to take out. -/
structure InStep (p : Lookups) : Prop where
  linked : p.shared.db.Linked
  keyed : p.shared.db.Keyed
  holds : ∀ c call, p.calls.get c = some call → call.Holds p.shared.db
  own : ∀ c c' call call' id, p.calls.get c = some call → p.calls.get c' = some call' →
    call.introduces = some id → call'.introduces = some id → c = c'
  cached : ∀ key v, p.shared.cache.lookup key = some v →
    p.shared.db.current key = some v ∨ p.Pending key
  reads : ∀ c subject predicate stage, p.calls.get c = some (.find subject predicate stage) →
    stage.upToDate p.shared.db (spKey subject predicate) = true ∨
      p.Pending (spKey subject predicate)

theorem inStep_new : InStep .new := by
  have hcalls : ∀ {c : Nat} {call : Call}, Lookups.new.calls.get c ≠ some call := by
    intro c call hcall
    cases hcall
  refine ⟨⟨nofun, nofun⟩, nofun, ?_, ?_, ?_, ?_⟩
  · intro c call hcall
    exact absurd hcall hcalls
  · intro c c' call call' id hcall
    exact absurd hcall hcalls
  · intro key v hv
    cases hv
  · intro c subject predicate stage hcall
    exact absurd hcall hcalls

variable {parse : String → Except String Time} {p p' : Lookups}

theorem Call.holds_of_isFirst (hfirst : call.isFirst parse = true)
    (hnew : ∀ id, call.introduces = some id → db.reverseIndex.get id = none) : call.Holds db := by
  cases call with
  | find subject predicate stage => trivial
  | index triple versionId txId valid stage =>
    cases stage with
    | putTx => exact hnew versionId rfl
    | putReverse | readChain | putChain chain | putCurrent | invalidate =>
      exact Bool.noConfusion hfirst
  | supersede versionId supersededAt stage =>
    cases stage with
    | readReverse => trivial
    | readTx k | putTx k version | invalidate key => exact Bool.noConfusion hfirst

theorem FindStage.upToDate_of_isFirst {subject predicate : String} {stage : FindStage}
    (hfirst : (Call.find subject predicate stage).isFirst parse = true) (db : IndexDb)
    (key : String) : stage.upToDate db key = true := by
  cases stage with
  | checkCache => rfl
  | readCurrent | readReverse id | readTx k | fill version => exact Bool.noConfusion hfirst

variable (h : InStep p)

include h

theorem InStep.start (hcareful : Careful p (.start c call) = true)
    (hstep : lookupsStep parse p (.start c call) = some p') : InStep p' := by
  obtain ⟨hfree, hfirst, rfl⟩ := Pool.step_start hstep
  have hget : ∀ {c' : Nat} {call' : Call}, (p.calls.insert c call).get c' = some call' →
      c' = c ∧ call' = call ∨ c' ≠ c ∧ p.calls.get c' = some call' := by
    intro c' call' hcall'
    rw [get_insert] at hcall'
    split_ifs at hcall' with hc
    · exact .inl ⟨hc, (Option.some.inj hcall').symm⟩
    · exact .inr ⟨hc, hcall'⟩
  have hmore : ∀ {key : String}, p.Pending key →
      Lookups.Pending { p with calls := p.calls.insert c call } key := by
    rintro key ⟨c', call', hcall', hpending⟩
    refine ⟨c', call', ?_, hpending⟩
    have hne : c' ≠ c := by
      rintro rfl
      rw [hfree] at hcall'
      cases hcall'
    exact (get_insert ..).trans ((if_neg hne).trans hcall')
  have hnew : ∀ id, call.introduces = some id → p.shared.db.reverseIndex.get id = none ∧
      ∀ c' call', p.calls.get c' = some call' → call'.introduces ≠ some id := by
    intro id hid
    simp only [Careful, hid, Option.all_some, Bool.and_eq_true, Option.isNone_iff_eq_none,
      List.all_eq_true, decide_eq_true_iff] at hcareful
    exact ⟨hcareful.1, fun c' call' hcall' =>
      hcareful.2 call' (mem_values.mpr ⟨c', hcall'⟩)⟩
  constructor
  case linked => exact h.linked
  case keyed => exact h.keyed
  case holds =>
    intro c' call' hcall'
    rcases hget hcall' with ⟨-, rfl⟩ | ⟨-, hold⟩
    · exact call'.holds_of_isFirst hfirst fun id hid => (hnew id hid).1
    · exact h.holds c' call' hold
  case own =>
    intro c₁ c₂ call₁ call₂ id h₁ h₂ hid₁ hid₂
    rcases hget h₁ with ⟨rfl, rfl⟩ | ⟨-, hold₁⟩ <;> rcases hget h₂ with ⟨rfl, rfl⟩ | ⟨-, hold₂⟩
    · rfl
    · exact absurd hid₂ ((hnew id hid₁).2 c₂ call₂ hold₂)
    · exact absurd hid₁ ((hnew id hid₂).2 c₁ call₁ hold₁)
    · exact h.own c₁ c₂ call₁ call₂ id hold₁ hold₂ hid₁ hid₂
  case cached =>
    intro key v hv
    exact (h.cached key v hv).imp_right hmore
  case reads =>
    intro c' subject predicate stage hcall'
    rcases hget hcall' with ⟨-, rfl⟩ | ⟨-, hold⟩
    · exact .inl (FindStage.upToDate_of_isFirst hfirst _ _)
    · exact (h.reads c' subject predicate stage hold).imp_right hmore

variable (hcall : p.calls.get c = some call)

include hcall

theorem InStep.own_advance
    (hintroduces : ∀ call', next = some call' → call'.introduces = call.introduces) (c₁ c₂ : Nat)
    (call₁ call₂ : Call) (id : String) (h₁ : (Pool.setCall p.calls c next).get c₁ = some call₁)
    (h₂ : (Pool.setCall p.calls c next).get c₂ = some call₂) (hid₁ : call₁.introduces = some id)
    (hid₂ : call₂.introduces = some id) : c₁ = c₂ := by
  have hbefore : ∀ c' call', (Pool.setCall p.calls c next).get c' = some call' →
      call'.introduces = some id → ∃ old, p.calls.get c' = some old ∧ old.introduces = some id := by
    intro c' call' hget hid
    rw [Pool.get_setCall] at hget
    split_ifs at hget with hc
    · exact ⟨call, hc ▸ hcall, (hintroduces call' hget).symm.trans hid⟩
    · exact ⟨call', hget, hid⟩
  obtain ⟨old₁, hold₁, hold₁id⟩ := hbefore c₁ call₁ h₁ hid₁
  obtain ⟨old₂, hold₂, hold₂id⟩ := hbefore c₂ call₂ h₂ hid₂
  exact h.own c₁ c₂ old₁ old₂ id hold₁ hold₂ hold₁id hold₂id

theorem InStep.holds_advance (hsound : Sound call next p.shared.db db) : ∀ c' call',
    (Pool.setCall p.calls c next).get c' = some call' → call'.Holds db := by
  refine Pool.forall_setCall hsound.next fun c' call' hc hget => ?_
  refine hsound.others call' (h.holds c' call' hget) ?_
  intro id hid hid'
  exact hc (h.own c' c call' call id hget hcall hid' hid)

theorem InStep.invalidate {key : String} (hkey : call.invalidating = some key)
    (hpending : call.pending = some key) (hcareful : Careful p (.advance c ()) = true)
    (hsound : Sound call none p.shared.db (p.shared.invalidate key).db) :
    InStep ⟨p.shared.invalidate key, Pool.setCall p.calls c none⟩ := by
  have hget := Pool.get_setCall p.calls c none
  have hbeside : ∀ {c' : Nat} {call' : Call} {key' : String}, c' ≠ c →
      p.calls.get c' = some call' → call'.pending = some key' →
      Lookups.Pending ⟨p.shared.invalidate key, Pool.setCall p.calls c none⟩ key' := by
    intro c' call' key' hne hcall' hpending'
    exact ⟨c', call', (hget c').trans ((if_neg hne).trans hcall'), hpending'⟩
  -- the call itself waited for its own key only
  have hother : ∀ {key' : String}, key' ≠ key → p.Pending key' →
      Lookups.Pending ⟨p.shared.invalidate key, Pool.setCall p.calls c none⟩ key' := by
    rintro key' hne ⟨c', call', hcall', hpending'⟩
    refine hbeside ?_ hcall' hpending'
    rintro rfl
    obtain rfl := Option.some.inj (hcall.symm.trans hcall')
    exact hne (Option.some.inj (hpending'.symm.trans hpending))
  refine ⟨hsound.linked, hsound.keyed, h.holds_advance hcall hsound,
    h.own_advance hcall (fun call' hcall' => absurd hcall' (Option.not_mem_none call')), ?_, ?_⟩
  · intro key' v hv
    have hpop : (p.shared.cache.pop key).lookup key' = some v := hv
    rw [Lru.lookup_pop] at hpop
    split_ifs at hpop with hne
    exact (h.cached key' v hpop).imp_right (hother hne)
  · intro c' subject predicate stage hcall'
    have hold := (hget c').symm.trans hcall'
    split_ifs at hold with hc
    -- for the key that is taken out the condition on the step says what the lookup holds
    by_cases hne : spKey subject predicate = key
    · subst hne
      simp only [Careful, hcall, Option.bind_some, hkey, Option.all_some, Bool.or_eq_true,
        List.all_eq_true] at hcareful
      rcases hcareful with hall | hmore
      · left
        show stage.upToDate p.shared.db (spKey subject predicate) = true
        have hdate := hall _ (mem_values.mpr ⟨c', hold⟩)
        simpa [Call.upToDate] using hdate
      · obtain ⟨c'', call'', hc'', hcall'', hpending''⟩ := Lookups.pendingBeside_iff.mp hmore
        exact .inr (hbeside hc'' hcall'' hpending'')
    · exact (h.reads c' subject predicate stage hold).imp_right (hother hne)

theorem InStep.keep {ix' : TemporalIndexes} (hnot : call.invalidating = none)
    (hadvance : p.shared.advance call () = some (ix', next)) :
    InStep ⟨ix', Pool.setCall p.calls c next⟩ := by
  have hget := Pool.get_setCall p.calls c next
  have hsound := advance_sound h.linked h.keyed (h.holds c call hcall) hadvance
  have hmore : ∀ {key : String}, p.Pending key →
      Lookups.Pending ⟨ix', Pool.setCall p.calls c next⟩ key := by
    rintro key ⟨c', call', hcall', hpending⟩
    -- the call itself still has its last step before it
    by_cases hc : c' = c
    · rw [hc, hcall] at hcall'
      obtain rfl := Option.some.inj hcall'
      obtain ⟨call'', hnext, hpending''⟩ := advance_pending hadvance hpending hnot
      exact ⟨c, call'', (hget c).trans ((if_pos rfl).trans hnext), hpending''⟩
    · exact ⟨c', call', (hget c').trans ((if_neg hc).trans hcall'), hpending⟩
  have hview : ∀ key, SameView key p.shared.db ix'.db ∨
      Lookups.Pending ⟨ix', Pool.setCall p.calls c next⟩ key := by
    intro key
    exact (hsound.view key).imp_right fun hpending => hmore ⟨c, call, hcall, hpending⟩
  -- what was up to date is so still, or the call that changed it will take the key out
  have hdate : ∀ {subject predicate : String} {stage : FindStage},
      stage.upToDate p.shared.db (spKey subject predicate) = true ∨
        p.Pending (spKey subject predicate) →
      stage.upToDate ix'.db (spKey subject predicate) = true ∨
        Lookups.Pending ⟨ix', Pool.setCall p.calls c next⟩ (spKey subject predicate) := by
    intro subject predicate stage hstage
    rcases hview (spKey subject predicate) with hsame | hpending
    · rw [upToDate_congr hsame]
      exact hstage.imp_right hmore
    · exact .inr hpending
  refine ⟨hsound.linked, hsound.keyed, h.holds_advance hcall hsound,
    h.own_advance hcall fun call' hnext => introduces_of_advance hadvance hnext, ?_, ?_⟩
  · intro key v hv
    rcases lookup_of_advance hadvance hnot hv with hold | ⟨subject, predicate, rfl, rfl⟩
    · rcases hview key with hsame | hpending
      · exact (h.cached key v hold).imp (hsame.version.trans ·) hmore
      · exact .inr hpending
    · exact (hdate (h.reads c subject predicate (.fill v) hcall)).imp_left of_decide_eq_true
  · intro c' subject predicate stage hcall'
    have hold := (hget c').symm.trans hcall'
    split_ifs at hold with hc
    · subst hold
      obtain ⟨before, rfl⟩ := find_of_advance hadvance
      exact hdate ((h.reads c subject predicate before hcall).imp_left (upToDate_advance hadvance))
    · exact hdate (h.reads c' subject predicate stage hold)

omit hcall

theorem InStep.advance (hcareful : Careful p (.advance c ()) = true)
    (hstep : lookupsStep parse p (.advance c ()) = some p') : InStep p' := by
  obtain ⟨call, next, hcall, hadvance, hcalls⟩ := Pool.step_advance hstep
  obtain ⟨ix', calls'⟩ := p'
  simp only at hadvance hcalls
  subst hcalls
  cases hkey : call.invalidating with
  | none => exact h.keep hcall hkey hadvance
  | some key =>
    have hsound := advance_sound h.linked h.keyed (h.holds c call hcall) hadvance
    obtain ⟨rfl, rfl, hpending⟩ := advance_invalidating hadvance hkey
    exact h.invalidate hcall hkey hpending hcareful hsound

omit h

/-- **The cache is coherent.** In every careful run, whenever no call is in progress, every entry
of the cache is the current version that the database has for its key. -/
theorem coherent_of_careful {p : Lookups}
    (hreach : Reaches (lookupsStep parse) (fun p action => Careful p action = true) .new p)
    (hidle : p.calls = .empty) : Coherent p.shared := by
  have hin : InStep p := by
    refine hreach.invariant inStep_new ?_
    intro p action p' hin hcareful hstep
    cases action with
    | start c call => exact hin.start hcareful hstep
    | advance c input => exact hin.advance hcareful hstep
  intro key v hv
  rcases hin.cached key v hv with hcurrent | ⟨c, call, hcall, -⟩
  · exact hcurrent
  · rw [hidle] at hcall
    cases hcall

/-- `DateTime::parse_from_rfc3339` on one date. -/
def parseEpoch (text : String) : Except String Time :=
  if text = "1970-01-01T00:00:00Z" then .ok 0 else .error "premature end of input"

def indexRevenue (versionId object : String) (seq : UInt64) : Call :=
  .index
    { subject := "http://example.org/entity/customer_123"
      predicate := "http://example.org/prop/revenue"
      object
      annotations := [⟨"http://graphica.io/ontology#validFrom",
        .TypedLiteral "1970-01-01T00:00:00Z" "http://www.w3.org/2001/XMLSchema#dateTime"⟩] }
    versionId ⟨seq, seq.toNat, 1⟩ (0, none) .putTx

def findRevenue : Call :=
  .find "http://example.org/entity/customer_123" "http://example.org/prop/revenue" .checkCache

def advances (c n : Nat) : List (CallAction Call Unit) := List.replicate n (.advance c ())

/-- A lookup fills in the first version after the second one is current, and the write of the
second one takes it out; the next lookup fills in the second one. -/
theorem coherent_late_fill :
    ∃ p, exec (lookupsStep parseEpoch) .new
        (.start 1 (indexRevenue "v1" "100000" 1) :: advances 1 6 ++
          .start 2 findRevenue :: advances 2 4 ++
          .start 1 (indexRevenue "v2" "200000" 2) :: advances 1 5 ++ advances 2 1 ++
          advances 1 1 ++ .start 2 findRevenue :: advances 2 5) = some p ∧
      p.shared.cache.entries.length = 1 ∧ Coherent p.shared := by
  refine exists_exec (fun p => p.shared.cache.entries.length = 1 ∧ p.calls.entries = [])
    (by decide +kernel) ?_
  intro p hexec hp
  exact ⟨hp.1, coherent_of_careful (.of_exec (by decide +kernel) hexec) (ext hp.2)⟩

/-- A lookup has read the first version when the second one is indexed, and fills it in after. -/
theorem not_coherent_overtaken :
    ∃ p, exec (lookupsStep parseEpoch) .new
        (.start 1 (indexRevenue "v1" "100000" 1) :: advances 1 6 ++
          .start 2 findRevenue :: advances 2 4 ++
          .start 1 (indexRevenue "v2" "200000" 2) :: advances 1 6 ++ advances 2 1) = some p ∧
      p.calls = .empty ∧ ¬ Coherent p.shared := by
  refine exists_exec (fun p => p.calls.entries = [] ∧
    (p.shared.cache.lookup "http://example.org/entity/customer_123|http://example.org/prop/revenue").map
      (·.versionId) = some "v1" ∧
    (p.shared.db.current "http://example.org/entity/customer_123|http://example.org/prop/revenue").map
      (·.versionId) = some "v2") (by decide +kernel) ?_
  rintro p - ⟨hcalls, hcached, hcurrent⟩
  refine ⟨ext hcalls, ?_⟩
  intro hcoherent
  obtain ⟨v, hv, hv1⟩ := Option.map_eq_some_iff.mp hcached
  rw [hcoherent _ v hv, Option.map_some, hv1] at hcurrent
  exact absurd hcurrent (by decide)

end Arcxa.Bitemporal
