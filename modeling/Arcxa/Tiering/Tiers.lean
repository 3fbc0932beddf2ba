import Arcxa.Lib.Neighbours
import Arcxa.Lib.Transition
import Arcxa.Tiering.Event

/-!
# Moving events between the tiers

`LineageStorage` writes events to the hot tier and moves old ones to the warm tier, in steps between
which other writers run. The hot tier is a set of events that lists them in any order; the warm tier is
a list that events are appended to. `kept_iff`: along any run no event is lost and every query gives each
event once exactly when every step meets its condition.
-/

namespace Arcxa.Tiering

def day : Int := 86400 * 10 ^ 9

/-- `Duration::num_days`, rounded towards zero. -/
def numDays (duration : Int) : Int := duration.tdiv day

def year : Int := 365 * day

/-- Where a call of `archive_old_data` stands: it has events left to write to the warm tier, or has
flushed it. -/
inductive ArchiveRun (P : Type) where
  | copying (cutoff : Time) (rest : List (LineageEvent P))
  | flushed (cutoff : Time)

/-- The tiers; old events that were written to the hot tier and not yet to the warm one; all events
that were ever written. -/
structure LineageStorage (P : Type) where
  clock : Time
  hot : List (LineageEvent P)
  warm : List (LineageEvent P)
  pending : List (LineageEvent P)
  archive : Option (ArchiveRun P)
  written : List (LineageEvent P)

inductive TierStep (P : Type) where
  | tick (now : Time)
  | write (event : LineageEvent P)
  | mirror (event : LineageEvent P)
  | archiveQuery (cutoff : Time) (listing : List (LineageEvent P))
  | archiveCopy
  | archiveFlush
  | archiveDelete

variable {P : Type} [DecidableEq P]

namespace LineageStorage

def new (clock : Time) : LineageStorage P := ⟨clock, [], [], [], none, []⟩

variable (storage : LineageStorage P)

def hotRange (start stop : Time) : LineageEvent P → Bool := fun event =>
  seconds start ≤ seconds event.ts ∧ seconds event.ts ≤ seconds stop

/-- The warm tier scans the files of the days from `start` to `stop`. -/
def scanned (start stop : Time) : LineageEvent P → Bool := fun event =>
  dayOf start ≤ dayOf event.ts ∧ dayOf event.ts ≤ dayOf stop

def step : TierStep P → Option (LineageStorage P)
  | .tick now => if storage.clock ≤ now then some { storage with clock := now } else none
  -- the first half of `write_all_internal`, for an event with a new id
  | .write event =>
    if ∀ other ∈ storage.written, other.id ≠ event.id then
      some
        { storage with
          hot := storage.hot ++ [event]
          pending :=
            if 30 < numDays (storage.clock - event.ts) then storage.pending ++ [event]
            else storage.pending
          written := storage.written ++ [event] }
    else none
  -- its second half, for an event that is older than 30 days
  | .mirror event =>
    if event ∈ storage.pending then
      some
        { storage with
          warm := storage.warm ++ [event]
          pending := storage.pending.erase event }
    else none
  | .archiveQuery cutoff listing =>
    if storage.archive.isNone ∧ listing.Perm (storage.hot.filter (hotRange 0 cutoff)) then
      some { storage with archive := some (.copying cutoff listing) }
    else none
  | .archiveCopy =>
    match storage.archive with
    | some (.copying cutoff (event :: rest)) =>
      some { storage with warm := storage.warm ++ [event], archive := some (.copying cutoff rest) }
    | _ => none
  | .archiveFlush =>
    match storage.archive with
    | some (.copying cutoff []) => some { storage with archive := some (.flushed cutoff) }
    | _ => none
  | .archiveDelete =>
    match storage.archive with
    | some (.flushed cutoff) =>
      some
        { storage with
          hot := storage.hot.filter fun event => ¬ seconds event.ts < seconds cutoff
          archive := none }
    | _ => none

/-- What both tiers gave: `sort_by_key` by the timestamp, `dedup_by_key` by the id. -/
def merged (hot warm : List (LineageEvent P)) : List (LineageEvent P) :=
  (sortByKey LineageEvent.ts (hot ++ warm)).destutter fun a b => a.id ≠ b.id

variable (order : List (LineageEvent P) → List (LineageEvent P))

def queryAll (now start stop : Time) : List (LineageEvent P) :=
  merged (order (storage.hot.filter (hotRange start stop)))
    (if 30 < numDays (now - start) then
      storage.warm.filter fun event =>
        scanned start stop event ∧ start ≤ event.ts ∧ event.ts ≤ stop
    else [])

def getRecordLineage (now : Time) (recordId : String) : List (LineageEvent P) :=
  merged (order (storage.hot.filter fun event => event.recordId = recordId))
    (storage.warm.filter fun event => scanned (now - year) now event ∧ event.recordId = recordId)

def getRunLineage (now : Time) (runId : String) : List (LineageEvent P) :=
  merged (order (storage.hot.filter fun event => event.runId = runId))
    (storage.warm.filter fun event => scanned (now - year) now event ∧ event.runId = runId)

def getLineageAsOf (recordId : String) (asOf : Time) : List (LineageEvent P) :=
  merged
    (order (storage.hot.filter fun event =>
      event.recordId = recordId ∧ seconds event.ts ≤ seconds asOf))
    (storage.warm.filter fun event =>
      scanned (asOf - year) asOf event ∧ event.recordId = recordId ∧ event.ts ≤ asOf)

/-- The result is in order, and has each matching event that is no older than a year once. -/
def Exact (now : Time) (result : List (LineageEvent P)) (hits : LineageEvent P → Prop) : Prop :=
  result.Pairwise (fun a b => a.ts ≤ b.ts) ∧ (∀ event ∈ result, event ∈ storage.written) ∧
    ∀ event ∈ storage.written, hits event → now - event.ts ≤ year → result.count event = 1

/-- No event is lost, and from now on every query is exact, in whatever order the hot tier lists its
events. -/
structure Kept : Prop where
  stored : ∀ event ∈ storage.written, event ∈ storage.hot ∨ event ∈ storage.warm
  all : ∀ order, (∀ events, (order events).Perm events) → ∀ now, storage.clock ≤ now → ∀ start stop,
    storage.Exact now (storage.queryAll order now start stop) fun event =>
      start ≤ event.ts ∧ event.ts ≤ stop
  ofRecord : ∀ order, (∀ events, (order events).Perm events) → ∀ now, storage.clock ≤ now →
    ∀ recordId, storage.Exact now (storage.getRecordLineage order now recordId) fun event =>
      event.recordId = recordId ∧ event.ts ≤ now
  ofRun : ∀ order, (∀ events, (order events).Perm events) → ∀ now, storage.clock ≤ now → ∀ runId,
    storage.Exact now (storage.getRunLineage order now runId) fun event =>
      event.runId = runId ∧ event.ts ≤ now
  asOf : ∀ order, (∀ events, (order events).Perm events) → ∀ now, storage.clock ≤ now →
    ∀ recordId asOf, storage.Exact now (storage.getLineageAsOf order recordId asOf) fun event =>
      event.recordId = recordId ∧ event.ts ≤ asOf ∧ asOf - event.ts ≤ year

/-- An event may be appended to the warm tier: while it is in the hot tier, neither tier has another
event with its timestamp; otherwise none follows an earlier copy of it. -/
def Lands (event : LineageEvent P) : Prop :=
  storage.clock - event.ts ≤ year → ∀ other, other ≠ event → other.ts = event.ts →
    ¬ (event ∈ storage.hot ∧ (other ∈ storage.hot ∨ other ∈ storage.warm)) ∧
      ¬ [event, other].Sublist storage.warm

def FitsCopy : Option (ArchiveRun P) → Prop
  | some (.copying _ (event :: _)) => storage.Lands event
  | _ => True

def FitsDelete : Option (ArchiveRun P) → Prop
  | some (.flushed cutoff) => ∀ event ∈ storage.hot, seconds event.ts < seconds cutoff →
    event ∈ storage.warm ∧ 30 < numDays (storage.clock - event.ts)
  | _ => True

def Fits : TierStep P → Prop
  | .write event => storage.clock - event.ts ≤ year →
    ∀ other ∈ storage.hot, other ∈ storage.warm → other.ts ≠ event.ts
  | .mirror event => storage.Lands event
  | .archiveCopy => storage.FitsCopy storage.archive
  | .archiveDelete => storage.FitsDelete storage.archive
  | _ => True

/-- Only events of the tiers can be in the way. -/
instance (event : LineageEvent P) : Decidable (storage.Lands event) :=
  decidable_of_iff (storage.clock - event.ts ≤ year → ∀ other ∈ storage.hot ++ storage.warm,
      other ≠ event → other.ts = event.ts →
        ¬ (event ∈ storage.hot ∧ (other ∈ storage.hot ∨ other ∈ storage.warm)) ∧
          ¬ [event, other].Sublist storage.warm) <| by
    refine imp_congr_right fun _ => ⟨fun h other hother hts => ⟨fun hmem => ?_, fun hsub => ?_⟩,
      fun h other _ => h other⟩
    · exact (h other (List.mem_append.mpr hmem.2) hother hts).1 hmem
    · exact (h other (List.mem_append_right _ (hsub.subset (by simp))) hother hts).2 hsub

instance : ∀ archive, Decidable (storage.FitsCopy archive)
  | some (.copying _ (event :: _)) => inferInstanceAs (Decidable (storage.Lands event))
  | some (.copying _ []) | some (.flushed _) | none => inferInstanceAs (Decidable True)

instance : ∀ archive, Decidable (storage.FitsDelete archive)
  | some (.flushed _) =>
    inferInstanceAs (Decidable (∀ event ∈ storage.hot, _ → event ∈ storage.warm ∧ _))
  | some (.copying _ _) | none => inferInstanceAs (Decidable True)

instance : ∀ action, Decidable (storage.Fits action)
  | .write _ => inferInstanceAs (Decidable (_ → ∀ other ∈ storage.hot, other ∈ storage.warm → _))
  | .mirror event => inferInstanceAs (Decidable (storage.Lands event))
  | .archiveCopy => inferInstanceAs (Decidable (storage.FitsCopy _))
  | .archiveDelete => inferInstanceAs (Decidable (storage.FitsDelete _))
  | .tick _ | .archiveQuery _ _ | .archiveFlush => inferInstanceAs (Decidable True)

/-- Another event stands between two copies of an event, in some order of the hot tier. -/
def Split (event other : LineageEvent P) : Prop :=
  event ∈ storage.hot ∧ [other, event].Sublist storage.warm ∨
    event ∈ storage.hot ∧ other ∈ storage.hot ∧ event ∈ storage.warm ∨
    [event, other, event].Sublist storage.warm

/-- What every step keeps. -/
structure Base : Prop where
  nodup : storage.hot.Nodup
  ids : ∀ a ∈ storage.written, ∀ b ∈ storage.written, a.id = b.id → a = b
  hot : ∀ event ∈ storage.hot, event ∈ storage.written
  warm : ∀ event ∈ storage.warm, event ∈ storage.written
  pending : ∀ event ∈ storage.pending, event ∈ storage.written
  archive : ∀ cutoff rest, storage.archive = some (.copying cutoff rest) →
    ∀ event ∈ rest, event ∈ storage.written

/-- What fitting steps keep. -/
structure Inv : Prop extends storage.Base where
  stored : ∀ event ∈ storage.written, event ∈ storage.hot ∨
    event ∈ storage.warm ∧ 30 < numDays (storage.clock - event.ts)
  tidy : ∀ event other, storage.clock - event.ts ≤ year → other ≠ event → other.ts = event.ts →
    ¬ storage.Split event other

end LineageStorage

/-! ## Days -/

theorem lt_numDays_iff {duration : Int} : 30 < numDays duration ↔ 31 * day ≤ duration := by
  unfold numDays day
  obtain hpos | hneg := le_total 0 duration
  · rw [Int.tdiv_eq_ediv_of_nonneg hpos]
    omega
  · have hneg' := Int.neg_tdiv (-duration) (86400 * 10 ^ 9)
    have hquot : (-duration).tdiv (86400 * 10 ^ 9) = -duration / (86400 * 10 ^ 9) :=
      Int.tdiv_eq_ediv_of_nonneg (neg_nonneg.mpr hneg)
    rw [neg_neg, hquot] at hneg'
    rw [hneg']
    omega

theorem seconds_mono {s t : Time} (h : s ≤ t) : seconds s ≤ seconds t :=
  Int.ediv_le_ediv (by decide) h

open LineageStorage

variable {storage storage' : LineageStorage P}

/-! ## Queries -/

theorem merged_eq (hbase : storage.Base) {hot warm : List (LineageEvent P)}
    (hhot : ∀ event ∈ hot, event ∈ storage.written) (hwarm : ∀ event ∈ warm, event ∈ storage.written) :
    merged hot warm = (sortByKey LineageEvent.ts (hot ++ warm)).destutter (· ≠ ·) := by
  refine destutter_key fun a ha b hb => hbase.ids a ?_ b ?_
  · exact (List.mem_append.mp ((perm_sortByKey _).mem_iff.mp ha)).elim (hhot a) (hwarm a)
  · exact (List.mem_append.mp ((perm_sortByKey _).mem_iff.mp hb)).elim (hhot b) (hwarm b)

variable {event other : LineageEvent P}

omit [DecidableEq P] in
theorem sandwich_append {hot warm : List (LineageEvent P)} (hnodup : hot.Nodup)
    (h : [event, other, event].Sublist (hot ++ warm)) :
    event ∈ hot ∧ [other, event].Sublist warm ∨ event ∈ hot ∧ other ∈ hot ∧ event ∈ warm ∨
      [event, other, event].Sublist warm := by
  obtain ⟨front, back, heq, hfront, hback⟩ := List.sublist_append_iff.mp h
  match front, heq with
  | [], heq =>
    subst heq
    exact .inr (.inr hback)
  | [_], heq =>
    cases heq
    exact .inl ⟨hfront.subset (List.mem_singleton_self _), hback⟩
  | [_, _], heq =>
    cases heq
    exact .inr (.inl ⟨hfront.subset (by simp), hfront.subset (by simp), hback.subset (by simp)⟩)
  | _ :: _ :: _ :: _, heq =>
    simp only [List.cons_append, List.cons.injEq] at heq
    obtain ⟨rfl, rfl, rfl, -⟩ := heq
    exact absurd (hnodup.sublist hfront) (by simp)

theorem exact_merged (hinv : storage.Inv) {order : List (LineageEvent P) → List (LineageEvent P)}
    (horder : ∀ events, (order events).Perm events) {now : Time} (hnow : storage.clock ≤ now)
    {hotHit : LineageEvent P → Bool} {warmPart : List (LineageEvent P)}
    {hits : LineageEvent P → Prop}
    (hwarmPart : warmPart.Sublist storage.warm) (hhot : ∀ event, hits event → hotHit event)
    (hwarm : ∀ event ∈ storage.warm, hits event → now - event.ts ≤ year →
      31 * day ≤ now - event.ts → event ∈ warmPart) :
    storage.Exact now (merged (order (storage.hot.filter hotHit)) warmPart) hits := by
  have hhotPart : ∀ event ∈ order (storage.hot.filter hotHit), event ∈ storage.hot :=
    fun event hmem => (List.mem_filter.mp ((horder _).mem_iff.mp hmem)).1
  have hhotWritten := fun event hmem => hinv.hot event (hhotPart event hmem)
  have hwarmWritten := fun event hmem => hinv.warm event (hwarmPart.subset hmem)
  rw [merged_eq hinv.toBase hhotWritten hwarmWritten]
  refine ⟨(pairwise_sortByKey _).sublist (List.destutter_sublist _ _), fun event hmem => ?_,
    fun event hwritten hhit hrecent => ?_⟩
  · have hsource := (perm_sortByKey _).mem_iff.mp ((List.destutter_sublist _ _).subset hmem)
    exact (List.mem_append.mp hsource).elim (hhotWritten event) (hwarmWritten event)
  · have hmem : event ∈ sortByKey LineageEvent.ts (order (storage.hot.filter hotHit) ++ warmPart) := by
      rw [(perm_sortByKey _).mem_iff, List.mem_append]
      obtain hmem | ⟨hmem, haged⟩ := hinv.stored event hwritten
      · exact .inl ((horder _).mem_iff.mpr (List.mem_filter.mpr ⟨hmem, hhot event hhit⟩))
      · have haged := (lt_numDays_iff.mp haged).trans (Int.sub_le_sub_right hnow event.ts)
        exact .inr (hwarm event hmem hhit hrecent haged)
    rw [count_destutter_eq_one_iff hmem]
    intro other hother hsub
    have hpairwise := (pairwise_sortByKey _).sublist hsub
    have hts : other.ts = event.ts := by
      simp only [List.pairwise_cons, List.mem_cons, forall_eq_or_imp] at hpairwise
      exact le_antisymm hpairwise.2.1.1 hpairwise.1.1
    have hsub := (sublist_sortByKey_iff (t := event.ts) (by simp [hts])).mp hsub
    have hnodup : (order (storage.hot.filter hotHit)).Nodup :=
      (horder _).nodup_iff.mpr (hinv.nodup.filter _)
    have hrecent := (Int.sub_le_sub_right hnow event.ts).trans hrecent
    refine hinv.tidy event other hrecent hother hts ?_
    obtain ⟨hmem, hwarm⟩ | ⟨hmem, hmem', hwarm⟩ | hwarm := sandwich_append hnodup hsub
    · exact .inl ⟨hhotPart _ hmem, hwarm.trans hwarmPart⟩
    · exact .inr (.inl ⟨hhotPart _ hmem, hhotPart _ hmem', hwarmPart.subset hwarm⟩)
    · exact .inr (.inr (hwarm.trans hwarmPart))

theorem LineageStorage.Inv.kept (hinv : storage.Inv) : storage.Kept where
  stored event hmem := (hinv.stored event hmem).imp_right And.left
  all order horder now hnow start stop := by
    refine exact_merged hinv horder hnow ?_ (fun event hhit => ?_) fun event hmem hhit hrecent haged => ?_
    · split_ifs
      · exact List.filter_sublist
      · exact List.nil_sublist _
    · exact decide_eq_true ⟨seconds_mono hhit.1, seconds_mono hhit.2⟩
    · have hold : 30 < numDays (now - start) :=
        lt_numDays_iff.mpr (haged.trans (Int.sub_le_sub_left hhit.1 now))
      rw [if_pos hold]
      refine List.mem_filter.mpr ⟨hmem, decide_eq_true ⟨?_, hhit⟩⟩
      exact decide_eq_true ⟨dayOf_mono hhit.1, dayOf_mono hhit.2⟩
  ofRecord order horder now hnow recordId := by
    refine exact_merged hinv horder hnow List.filter_sublist (fun event hhit => ?_)
      fun event hmem hhit hrecent _ => ?_
    · exact decide_eq_true hhit.1
    · refine List.mem_filter.mpr ⟨hmem, decide_eq_true ⟨?_, hhit.1⟩⟩
      exact decide_eq_true ⟨dayOf_mono (Int.sub_le_of_sub_le hrecent), dayOf_mono hhit.2⟩
  ofRun order horder now hnow runId := by
    refine exact_merged hinv horder hnow List.filter_sublist (fun event hhit => ?_)
      fun event hmem hhit hrecent _ => ?_
    · exact decide_eq_true hhit.1
    · refine List.mem_filter.mpr ⟨hmem, decide_eq_true ⟨?_, hhit.1⟩⟩
      exact decide_eq_true ⟨dayOf_mono (Int.sub_le_of_sub_le hrecent), dayOf_mono hhit.2⟩
  asOf order horder now hnow recordId asOf := by
    refine exact_merged hinv horder hnow List.filter_sublist (fun event hhit => ?_)
      fun event hmem hhit _ _ => ?_
    · exact decide_eq_true ⟨hhit.1, seconds_mono hhit.2.1⟩
    · refine List.mem_filter.mpr ⟨hmem, decide_eq_true ⟨?_, hhit.1, hhit.2.1⟩⟩
      exact decide_eq_true ⟨dayOf_mono (Int.sub_le_of_sub_le hhit.2.2), dayOf_mono hhit.2.1⟩

/-! ## A split event -/

def startingWith (event : LineageEvent P) (events : List (LineageEvent P)) : List (LineageEvent P) :=
  if event ∈ events then event :: events.erase event else events

theorem perm_startingWith (event : LineageEvent P) (events : List (LineageEvent P)) :
    (startingWith event events).Perm events := by
  unfold startingWith
  split_ifs with hmem
  · exact (List.perm_cons_erase hmem).symm
  · exact List.Perm.refl _

theorem pair_startingWith {events : List (LineageEvent P)} (hevent : event ∈ events)
    (hother : other ∈ events) (hne : other ≠ event) :
    [event, other].Sublist (startingWith event events) := by
  rw [startingWith, if_pos hevent]
  exact (List.singleton_sublist.mpr ((List.mem_erase_of_ne hne).mpr hother)).cons_cons event

omit [DecidableEq P] in
theorem sublist_filter {c l : List (LineageEvent P)} {p : LineageEvent P → Bool} (h : c.Sublist l)
    (hp : ∀ event ∈ c, p event) : c.Sublist (l.filter p) := by
  have hfilter := h.filter p
  rwa [List.filter_eq_self.mpr hp] at hfilter

theorem not_kept_of_split (hbase : storage.Base) (hrecent : storage.clock - event.ts ≤ year)
    (hother : other ≠ event) (hts : other.ts = event.ts) (hsplit : storage.Split event other) :
    ¬ storage.Kept := by
  intro hkept
  -- a range that ends with the event and starts early enough for the warm tier to be read
  obtain ⟨start, hstart, hold⟩ :
      ∃ start, start ≤ event.ts ∧ 30 < numDays (storage.clock - start) := by
    refine ⟨min event.ts (storage.clock - 31 * day), min_le_left _ _, lt_numDays_iff.mpr ?_⟩
    exact Int.le_sub_left_of_add_le (Int.add_le_of_le_sub_right (min_le_right _ _))
  have hwritten : event ∈ storage.written := by
    obtain ⟨hmem, -⟩ | ⟨hmem, -⟩ | hsub := hsplit
    · exact hbase.hot _ hmem
    · exact hbase.hot _ hmem
    · exact hbase.warm _ (hsub.subset (List.mem_cons_self ..))
  have hcount := (hkept.all (startingWith event) (perm_startingWith event) storage.clock le_rfl start
    event.ts).2.2 event hwritten ⟨hstart, le_rfl⟩ hrecent
  have hhotPart : ∀ a ∈ storage.hot, a.ts = event.ts →
      a ∈ storage.hot.filter (hotRange start event.ts) := fun a hmem ha =>
    List.mem_filter.mpr ⟨hmem, decide_eq_true ⟨ha ▸ seconds_mono hstart, ha ▸ le_rfl⟩⟩
  have hwarmPart : ∀ c : List (LineageEvent P), c.Sublist storage.warm → (∀ a ∈ c, a.ts = event.ts) →
      c.Sublist (storage.warm.filter fun a =>
        scanned start event.ts a ∧ start ≤ a.ts ∧ a.ts ≤ event.ts) := fun c hsub hc =>
    sublist_filter hsub fun a ha => decide_eq_true
      ⟨decide_eq_true ⟨hc a ha ▸ dayOf_mono hstart, hc a ha ▸ le_rfl⟩, hc a ha ▸ hstart,
        hc a ha ▸ le_rfl⟩
  have hfront := (perm_startingWith event (storage.hot.filter (hotRange start event.ts)))
  rw [queryAll, if_pos hold, merged_eq hbase
    (fun a ha => hbase.hot a (List.mem_filter.mp (hfront.mem_iff.mp ha)).1)
    (fun a ha => hbase.warm a (List.mem_filter.mp ha).1)] at hcount
  have hmem := (List.destutter_sublist _ _).subset
    (List.count_pos_iff.mp (Nat.lt_of_lt_of_eq Nat.one_pos hcount.symm))
  refine (count_destutter_eq_one_iff hmem).mp hcount other hother ?_
  rw [sublist_sortByKey_iff (t := event.ts) (by simp [hts])]
  obtain ⟨hhot, hwarm⟩ | ⟨hhot, hhot', hwarm⟩ | hwarm := hsplit
  · have hevent := hfront.mem_iff.mpr (hhotPart event hhot rfl)
    exact (List.singleton_sublist.mpr hevent).append (hwarmPart _ hwarm (by simp [hts]))
  · have hpair := pair_startingWith (hhotPart event hhot rfl) (hhotPart other hhot' hts) hother
    exact hpair.append (hwarmPart [event] (List.singleton_sublist.mpr hwarm) (by simp))
  · exact (List.nil_sublist _).append (hwarmPart _ hwarm (by simp [hts]))

/-! ## Steps -/

omit [DecidableEq P] in
theorem sublist_append_singleton {c l : List (LineageEvent P)} {a event : LineageEvent P}
    (h : (c ++ [a]).Sublist (l ++ [event])) :
    (c ++ [a]).Sublist l ∨ a = event ∧ c.Sublist l := by
  have hreverse := h.reverse
  rw [List.reverse_append, List.reverse_append, List.reverse_singleton, List.reverse_singleton,
    List.singleton_append, List.singleton_append] at hreverse
  cases hreverse with
  | cons _ h =>
    refine .inl ?_
    rw [← List.reverse_sublist, List.reverse_append]
    exact h
  | cons_cons _ h => exact .inr ⟨rfl, List.reverse_sublist.mp h⟩

variable (hinv : storage.Inv) (hbase : storage'.Base)

include hbase hinv

theorem land_spec {event : LineageEvent P} (hclock : storage'.clock = storage.clock)
    (hhot : storage'.hot = storage.hot) (hwarm : storage'.warm = storage.warm ++ [event])
    (hwritten : storage'.written = storage.written) :
    (storage'.Kept → storage.Lands event) ∧ (storage.Lands event → storage'.Inv) := by
  constructor
  · intro hkept hrecent other hother hts
    have hsplit : ¬ storage'.Split event other := fun hsplit =>
      not_kept_of_split hbase (hclock ▸ hrecent) hother hts hsplit hkept
    unfold Split at hsplit
    rw [hhot, hwarm] at hsplit
    refine ⟨fun ⟨hevent, hmem⟩ => hsplit ?_, fun hsub => hsplit (.inr (.inr ?_))⟩
    · obtain hmem | hmem := hmem
      · exact .inr (.inl ⟨hevent, hmem, List.mem_append_right _ (List.mem_singleton_self _)⟩)
      · exact .inl ⟨hevent, (List.singleton_sublist.mpr hmem).append (List.Sublist.refl [event])⟩
    · exact hsub.append (List.Sublist.refl [event])
  · intro hlands
    refine ⟨hbase, fun a ha => ?_, fun a other hrecent hother hts hsplit => ?_⟩
    · rw [hwritten] at ha
      rw [hhot, hwarm, hclock]
      exact (hinv.stored a ha).imp_right (And.imp_left (List.mem_append_left _))
    · rw [hclock] at hrecent
      have htidy := hinv.tidy a other hrecent hother hts
      unfold Split at hsplit
      rw [hhot, hwarm] at hsplit
      obtain ⟨hmem, hsub⟩ | ⟨hmem, hmem', hsub⟩ | hsub := hsplit
      · obtain hbefore | ⟨rfl, hbefore⟩ := sublist_append_singleton (c := [other]) hsub
        · exact htidy (.inl ⟨hmem, hbefore⟩)
        · exact (hlands hrecent other hother hts).1 ⟨hmem, .inr (List.singleton_sublist.mp hbefore)⟩
      · obtain hsub | hsub := List.mem_append.mp hsub
        · exact htidy (.inr (.inl ⟨hmem, hmem', hsub⟩))
        · have heq := List.mem_singleton.mp hsub
          subst heq
          exact (hlands hrecent other hother hts).1 ⟨hmem, .inl hmem'⟩
      · obtain hbefore | ⟨rfl, hbefore⟩ := sublist_append_singleton (c := [a, other]) hsub
        · exact htidy (.inr (.inr hbefore))
        · exact (hlands hrecent other hother hts).2 hbefore

omit [DecidableEq P] in
theorem frame_inv (hclock : storage.clock ≤ storage'.clock) (hhot : storage'.hot = storage.hot)
    (hwarm : storage'.warm = storage.warm) (hwritten : storage'.written = storage.written) :
    storage'.Inv := by
  refine ⟨hbase, fun event hmem => ?_, fun event other hrecent hother hts hsplit => ?_⟩
  · rw [hwritten] at hmem
    rw [hhot, hwarm]
    refine (hinv.stored event hmem).imp_right (And.imp_right fun hold => ?_)
    exact lt_numDays_iff.mpr ((lt_numDays_iff.mp hold).trans (Int.sub_le_sub_right hclock _))
  · unfold Split at hsplit
    rw [hhot, hwarm] at hsplit
    exact hinv.tidy event other ((Int.sub_le_sub_right hclock _).trans hrecent) hother hts hsplit

theorem write_spec {event : LineageEvent P} (hfresh : event ∉ storage.written)
    (hclock : storage'.clock = storage.clock) (hhot : storage'.hot = storage.hot ++ [event])
    (hwarm : storage'.warm = storage.warm)
    (hwritten : storage'.written = storage.written ++ [event]) :
    (storage'.Kept → storage.Fits (.write event)) ∧
      (storage.Fits (.write event) → storage'.Inv) := by
  constructor
  · intro hkept hrecent other hmem hmem' hts
    have hne : event ≠ other := fun heq => hfresh (heq ▸ hinv.hot other hmem)
    refine not_kept_of_split hbase (hclock ▸ hts ▸ hrecent) hne hts.symm ?_ hkept
    unfold Split
    rw [hhot, hwarm]
    exact .inr (.inl ⟨List.mem_append_left _ hmem,
      List.mem_append_right _ (List.mem_singleton_self _), hmem'⟩)
  · intro hfits
    have hnew : event ∉ storage.warm := fun hmem => hfresh (hinv.warm event hmem)
    have hback : ∀ a ∈ storage.hot ++ [event], a ∈ storage.warm → a ∈ storage.hot := by
      intro a ha hmem
      refine (List.mem_append.mp ha).resolve_right fun heq => hnew ?_
      exact List.mem_singleton.mp heq ▸ hmem
    refine ⟨hbase, fun a ha => ?_, fun a other hrecent hother hts hsplit => ?_⟩
    · rw [hwritten] at ha
      rw [hhot, hwarm, hclock]
      obtain ha | ha := List.mem_append.mp ha
      · exact (hinv.stored a ha).imp_left (List.mem_append_left _)
      · exact .inl (List.mem_append_right _ ha)
    · rw [hclock] at hrecent
      have htidy := hinv.tidy a other hrecent hother hts
      unfold Split at hsplit
      rw [hhot, hwarm] at hsplit
      obtain ⟨hmem, hsub⟩ | ⟨hmem, hmem', hsub⟩ | hsub := hsplit
      · exact htidy (.inl ⟨hback a hmem (hsub.subset (by simp)), hsub⟩)
      · have ha := hback a hmem hsub
        obtain hmem' | heq := List.mem_append.mp hmem'
        · exact htidy (.inr (.inl ⟨ha, hmem', hsub⟩))
        · have heq := List.mem_singleton.mp heq
          subst heq
          exact hfits (hts ▸ hrecent) a ha hsub hts.symm
      · exact htidy (.inr (.inr hsub))

theorem delete_spec {cutoff : Time} (harchive : storage.archive = some (.flushed cutoff))
    (hclock : storage'.clock = storage.clock)
    (hhot : storage'.hot = storage.hot.filter fun event => ¬ seconds event.ts < seconds cutoff)
    (hwarm : storage'.warm = storage.warm) (hwritten : storage'.written = storage.written) :
    (storage'.Kept → storage.Fits .archiveDelete) ∧
      (storage.Fits .archiveDelete → storage'.Inv) := by
  have hkeptHot : ∀ event, event ∈ storage'.hot ↔
      event ∈ storage.hot ∧ ¬ seconds event.ts < seconds cutoff := by
    intro event
    rw [hhot, List.mem_filter, decide_eq_true_iff]
  rw [Fits, harchive, FitsDelete]
  constructor
  · intro hkept event hmem hbefore
    have hgone : event ∉ storage'.hot := fun h => ((hkeptHot event).mp h).2 hbefore
    have hwritten' : event ∈ storage'.written := hwritten ▸ hinv.hot event hmem
    have hstored := (hkept.stored event hwritten').resolve_left hgone
    refine ⟨hwarm ▸ hstored, ?_⟩
    -- otherwise the warm tier is not read for the event's own timestamp
    by_contra hyoung
    have hcount := (hkept.all id (fun _ => List.Perm.refl _) storage'.clock le_rfl event.ts
      event.ts).2.2 event hwritten' ⟨le_rfl, le_rfl⟩ ?_
    · rw [hclock] at hcount
      rw [queryAll, if_neg hyoung, id_eq, merged_eq hbase
        (fun a ha => hbase.hot a (List.mem_filter.mp ha).1) fun _ h => absurd h List.not_mem_nil]
        at hcount
      have hresult := List.count_pos_iff.mp (Nat.lt_of_lt_of_eq Nat.one_pos hcount.symm)
      have hsource := (perm_sortByKey _).mem_iff.mp ((List.destutter_sublist _ _).subset hresult)
      rw [List.append_nil] at hsource
      exact hgone (List.mem_filter.mp hsource).1
    · rw [hclock]
      have hspan := mt lt_numDays_iff.mpr hyoung
      rw [not_le] at hspan
      exact hspan.le.trans (by decide)
  · intro hfits
    refine ⟨hbase, fun event hmem => ?_, fun event other hrecent hother hts hsplit => ?_⟩
    · rw [hwritten] at hmem
      rw [hkeptHot, hwarm, hclock]
      obtain hhot' | hstored := hinv.stored event hmem
      · by_cases hbefore : seconds event.ts < seconds cutoff
        · exact .inr (hfits event hhot' hbefore)
        · exact .inl ⟨hhot', hbefore⟩
      · exact .inr hstored
    · rw [hclock] at hrecent
      refine hinv.tidy event other hrecent hother hts ?_
      unfold Split at hsplit ⊢
      rw [hkeptHot, hkeptHot, hwarm] at hsplit
      exact hsplit.imp (And.imp_left And.left)
        (Or.imp_left (And.imp And.left (And.imp_left And.left)))

omit hbase hinv

/-- Every step keeps what is asked of the state as such. -/
theorem base_step (hbase : storage.Base) {action : TierStep P}
    (hstep : storage.step action = some storage') : storage'.Base := by
  obtain ⟨hnodup, hids, hhot, hwarm, hpending, harchive⟩ := hbase
  cases action with
  | tick now =>
    rw [step] at hstep
    split_ifs at hstep
    cases hstep
    exact ⟨hnodup, hids, hhot, hwarm, hpending, harchive⟩
  | write event =>
    rw [step] at hstep
    obtain ⟨hfresh, hstep⟩ := Option.ite_none_right_eq_some.mp hstep
    cases hstep
    have hold : ∀ l : List (LineageEvent P), (∀ a ∈ l, a ∈ storage.written) →
        ∀ a ∈ l, a ∈ storage.written ++ [event] := fun l h a ha => List.mem_append_left _ (h a ha)
    have hnew : event ∈ storage.written ++ [event] :=
      List.mem_append_right _ (List.mem_singleton_self _)
    refine ⟨?_, ?_, ?_, hold _ hwarm, ?_, fun cutoff rest h => hold _ (harchive cutoff rest h)⟩
    · refine List.nodup_append.mpr ⟨hnodup, List.nodup_singleton _, fun a ha b hb heq => ?_⟩
      rw [List.mem_singleton.mp hb] at heq
      exact hfresh a (hhot a ha) (congrArg LineageEvent.id heq)
    · intro a ha b hb hid
      obtain ha | ha := List.mem_append.mp ha
      · obtain hb | hb := List.mem_append.mp hb
        · exact hids a ha b hb hid
        · exact absurd (hid.trans (congrArg LineageEvent.id (List.mem_singleton.mp hb))) (hfresh a ha)
      · obtain hb | hb := List.mem_append.mp hb
        · exact absurd (hid.symm.trans (congrArg LineageEvent.id (List.mem_singleton.mp ha)))
            (hfresh b hb)
        · rw [List.mem_singleton.mp ha, List.mem_singleton.mp hb]
    · exact List.forall_mem_append.mpr ⟨hold _ hhot, List.forall_mem_singleton.mpr hnew⟩
    · dsimp only
      split_ifs
      · exact List.forall_mem_append.mpr ⟨hold _ hpending, List.forall_mem_singleton.mpr hnew⟩
      · exact hold _ hpending
  | mirror event =>
    rw [step] at hstep
    split_ifs at hstep with hmem
    cases hstep
    refine ⟨hnodup, hids, hhot, ?_, fun a ha => hpending a (List.mem_of_mem_erase ha), harchive⟩
    exact List.forall_mem_append.mpr ⟨hwarm, List.forall_mem_singleton.mpr (hpending event hmem)⟩
  | archiveQuery cutoff listing =>
    rw [step] at hstep
    split_ifs at hstep with hquery
    cases hstep
    refine ⟨hnodup, hids, hhot, hwarm, hpending, fun c rest h event hmem => ?_⟩
    cases h
    exact hhot event (List.mem_filter.mp (hquery.2.mem_iff.mp hmem)).1
  | archiveCopy =>
    rw [step] at hstep
    split at hstep
    next cutoff event rest heq =>
      cases hstep
      obtain ⟨hevent, hrest⟩ := List.forall_mem_cons.mp (harchive _ _ heq)
      refine ⟨hnodup, hids, hhot, ?_, hpending, fun c rest h => ?_⟩
      · exact List.forall_mem_append.mpr ⟨hwarm, List.forall_mem_singleton.mpr hevent⟩
      · cases h
        exact hrest
    next => exact nomatch hstep
  | archiveFlush =>
    rw [step] at hstep
    split at hstep
    next cutoff heq =>
      cases hstep
      exact ⟨hnodup, hids, hhot, hwarm, hpending, nofun⟩
    next => exact nomatch hstep
  | archiveDelete =>
    rw [step] at hstep
    split at hstep
    next cutoff heq =>
      cases hstep
      refine ⟨hnodup.filter _, hids, fun event hmem => ?_, hwarm, hpending, nofun⟩
      exact hhot event (List.mem_filter.mp hmem).1
    next => exact nomatch hstep

theorem LineageStorage.step_spec (hinv : storage.Inv) {action : TierStep P}
    (hstep : storage.step action = some storage') :
    (storage'.Kept → storage.Fits action) ∧ (storage.Fits action → storage'.Inv) := by
  have hbase := base_step hinv.toBase hstep
  cases action with
  | tick now =>
    rw [step] at hstep
    split_ifs at hstep with hclock
    cases hstep
    exact ⟨fun _ => trivial, fun _ => frame_inv hinv hbase hclock rfl rfl rfl⟩
  | write event =>
    rw [step] at hstep
    obtain ⟨hfresh, hstep⟩ := Option.ite_none_right_eq_some.mp hstep
    cases hstep
    exact write_spec hinv hbase (fun hmem => hfresh event hmem rfl) rfl rfl rfl rfl
  | mirror event =>
    rw [step] at hstep
    split_ifs at hstep
    cases hstep
    exact land_spec hinv hbase rfl rfl rfl rfl
  | archiveQuery cutoff listing =>
    rw [step] at hstep
    split_ifs at hstep
    cases hstep
    exact ⟨fun _ => trivial, fun _ => frame_inv hinv hbase le_rfl rfl rfl rfl⟩
  | archiveCopy =>
    rw [step] at hstep
    split at hstep
    next cutoff event rest heq =>
      cases hstep
      rw [Fits, heq, FitsCopy]
      exact land_spec hinv hbase rfl rfl rfl rfl
    next => exact nomatch hstep
  | archiveFlush =>
    rw [step] at hstep
    split at hstep
    next cutoff heq =>
      cases hstep
      exact ⟨fun _ => trivial, fun _ => frame_inv hinv hbase le_rfl rfl rfl rfl⟩
    next => exact nomatch hstep
  | archiveDelete =>
    rw [step] at hstep
    split at hstep
    next cutoff heq =>
      cases hstep
      exact delete_spec hinv hbase heq rfl rfl rfl rfl
    next => exact nomatch hstep

/-- Along every run of writes, archive steps and the clock, from empty tiers at any time: no event is
lost and every query is exact in every state exactly when every step fits. -/
theorem kept_iff (clock : Time) (actions : List (TierStep P)) (last : LineageStorage P)
    (hrun : exec step (.new clock) actions = some last) :
    (∀ pre, pre <+: actions → ∀ storage, exec step (.new clock) pre = some storage → storage.Kept) ↔
      OkAlong step Fits (.new clock) actions := by
  refine safety_iff_okAlong (I := Inv) (fun _ h => h.kept) (fun _ _ _ hinv hstep => step_spec hinv hstep)
    ⟨⟨List.nodup_nil, nofun, nofun, nofun, nofun, nofun⟩, nofun, ?_⟩ hrun
  rintro event other - - - (⟨hmem, -⟩ | ⟨hmem, -⟩ | hsub)
  · exact nomatch hmem
  · exact nomatch hmem
  · exact nomatch hsub

def eventAt (id : String) (ts : Time) : LineageEvent Unit := ⟨id, "r", "q", "t", [], ts, ()⟩

/-- Two events of one time wait until they are older than a year. -/
def archivedAfterFortyDays : List (TierStep Unit) :=
  [.write (eventAt "a" 0), .write (eventAt "b" 0), .tick (360 * day),
    .write (eventAt "c" (360 * day)), .tick (400 * day),
    .archiveQuery (361 * day) [eventAt "a" 0, eventAt "b" 0, eventAt "c" (360 * day)],
    .archiveCopy, .archiveCopy, .archiveCopy, .archiveFlush, .archiveDelete]

theorem forty_days_kept :
    ∃ last, exec step (.new 0) archivedAfterFortyDays = some last ∧
      ∀ pre, pre <+: archivedAfterFortyDays → ∀ storage, exec step (.new 0) pre = some storage →
        storage.Kept :=
  ⟨_, rfl, (kept_iff 0 archivedAfterFortyDays _ rfl).mpr (by decide)⟩

def lateArrival : List (TierStep Unit) :=
  [.archiveQuery (10 * day) [], .write (eventAt "a" (5 * day)), .archiveFlush, .archiveDelete]

/-- It is deleted and in no tier. -/
theorem late_arrival_lost :
    ¬ ∀ (clock : Time) (actions : List (TierStep Unit)) (last : LineageStorage Unit),
      exec step (.new clock) actions = some last →
        ∀ pre, pre <+: actions → ∀ storage, exec step (.new clock) pre = some storage →
          storage.Kept := by
  intro h
  have hkept := h (20 * day) lateArrival _ rfl lateArrival List.prefix_rfl _ rfl
  exact absurd (hkept.stored (eventAt "a" (5 * day)) (by decide)) (by decide)

end Arcxa.Tiering
