import Arcxa.Lib.TextCodec
import Arcxa.Lib.Transition
import Arcxa.Tiering.Event
import Mathlib.Data.List.Perm.Basic

/-!
# The warm tier

`ParquetLineageStore` buffers events and writes, on a flush, one file for each day that the buffer has
events of. A row has the event as JSON text, and a row that does not parse is skipped. `grows_iff`: along
any run of writes and flushes of events that read back, what was accepted is found again, as often as it
was written, and a failed flush loses nothing, exactly when no flush touches a day that has events in its
file already and no file write fails.
-/

namespace Arcxa.Tiering

/-- `BATCH_SIZE`. -/
def batchSize : Nat := 1000

/-- What becomes of the write of one day's file: it fails before the file is truncated, or after. -/
inductive FileWrite where
  | written
  | refused
  | torn
  deriving DecidableEq

/-- What a flush meets: the order in which the hash map gives the days, and the writes. -/
structure FlushMoment where
  order : List Int
  outcome : Int → FileWrite

variable {P : Type}

/-- The buffer, and the rows of the files by day, as JSON texts. A file that was truncated and not written has no rows that can
be read. -/
structure WarmTier (P : Type) where
  buffer : List (LineageEvent P)
  files : BTreeMap Int (List String)

variable [TextCodec (LineageEvent P)]

namespace WarmTier

def new : WarmTier P := ⟨[], .empty⟩

variable (tier : WarmTier P)

/-- `read_parquet_file` of the day's file. -/
def file (day : Int) : List (LineageEvent P) :=
  ((tier.files.get day).getD []).filterMap TextCodec.fromText

def days : List Int := (tier.buffer.map (dayOf ·.ts)).dedup

def eventsOf (day : Int) : List (LineageEvent P) := tier.buffer.filter (dayOf ·.ts = day)

end WarmTier

def writePartitions (events : Int → List (LineageEvent P)) (outcome : Int → FileWrite) :
    List Int → BTreeMap Int (List String) → Bool × BTreeMap Int (List String)
  | [], files => (true, files)
  | day :: days, files =>
    match outcome day with
    | .written => writePartitions events outcome days (files.insert day ((events day).map TextCodec.toText))
    | .refused => (false, files)
    | .torn => (false, files.insert day [])

namespace WarmTier

variable (tier : WarmTier P)

/-- `flush`, with its result; the buffer is drained before anything is written. -/
def flush (moment : FlushMoment) : Option (Bool × WarmTier P) :=
  if tier.buffer = [] then some (true, tier)
  else if moment.order.Perm tier.days then
    let written := writePartitions tier.eventsOf moment.outcome moment.order tier.files
    some (written.1, ⟨[], written.2⟩)
  else none

def write (event : LineageEvent P) (moment : FlushMoment) : Option (Bool × WarmTier P) :=
  let tier : WarmTier P := { tier with buffer := tier.buffer ++ [event] }
  if batchSize ≤ tier.buffer.length then tier.flush moment else some (true, tier)

/-- The days from `first` to `last`. -/
def daysBetween (first last : Int) : List Int :=
  (List.range (last - first + 1).toNat).map (fun n : Nat => first + n)

/-- `query_by_time_range`: the files of all days of the range are scanned. -/
def queryByTimeRange (start stop : Time) : List (LineageEvent P) :=
  (daysBetween (dayOf start) (dayOf stop)).flatMap fun day =>
    (tier.file day).filter fun event => start ≤ event.ts ∧ event.ts ≤ stop

end WarmTier

inductive WarmCall (P : Type) where
  | write (event : LineageEvent P) (moment : FlushMoment)
  | flush (moment : FlushMoment)

/-- What the last call was given and returned: the store before it, with the event already in the
buffer, and whether it returned `Ok`. -/
structure LastCall (P : Type) where
  before : WarmTier P
  ok : Bool

/-- A store with the history of its calls: the events of writes that returned `Ok` and of the
others. -/
structure WarmRun (P : Type) where
  tier : WarmTier P
  accepted : List (LineageEvent P)
  failed : List (LineageEvent P)
  last : Option (LastCall P)

namespace WarmRun

def new : WarmRun P := ⟨.new, [], [], none⟩

def step (run : WarmRun P) : WarmCall P → Option (WarmRun P)
  | .write event moment =>
    (run.tier.write event moment).map fun (ok, tier) =>
      { tier
        accepted := if ok then run.accepted ++ [event] else run.accepted
        failed := if ok then run.failed else run.failed ++ [event]
        last := some ⟨{ run.tier with buffer := run.tier.buffer ++ [event] }, ok⟩ }
  | .flush moment =>
    (run.tier.flush moment).map fun (ok, tier) => { run with tier, last := some ⟨run.tier, ok⟩ }

variable [DecidableEq P]

def Found (run : WarmRun P) : Prop :=
  ∀ start stop, (∀ event ∈ run.accepted, start ≤ event.ts ∧ event.ts ≤ stop) → ∀ event,
    run.accepted.count event ≤ (run.tier.queryByTimeRange start stop).count event ∧
      (run.tier.queryByTimeRange start stop).count event ≤
        run.accepted.count event + run.failed.count event

end WarmRun

section Counting

variable [DecidableEq P]

def WarmTier.held (tier : WarmTier P) (event : LineageEvent P) : Nat :=
  tier.buffer.count event + (tier.file (dayOf event.ts)).count event

namespace WarmRun

/-- After a successful flush everything is found, and after a failed one nothing is lost. -/
def Grows (run : WarmRun P) : Prop :=
  ∀ last ∈ run.last, if last.ok then run.tier.buffer = [] → run.Found
    else ∀ event, last.before.held event ≤ run.tier.held event

end WarmRun

end Counting

namespace WarmRun

/-- A flush writes to days without events so far, and no write fails. -/
def FlushFresh (tier : WarmTier P) (moment : FlushMoment) : Prop :=
  ∀ day ∈ tier.days, moment.outcome day = .written ∧ tier.file day = []

/-- The condition for a call; a write that does not fill the buffer asks nothing. -/
def Fresh (run : WarmRun P) : WarmCall P → Prop
  | .write event moment => batchSize ≤ run.tier.buffer.length + 1 →
    FlushFresh { run.tier with buffer := run.tier.buffer ++ [event] } moment
  | .flush moment => FlushFresh run.tier moment

instance (tier : WarmTier P) (moment : FlushMoment) : Decidable (FlushFresh tier moment) :=
  inferInstanceAs (Decidable (∀ day ∈ tier.days, _ ∧ tier.file day = []))

instance (run : WarmRun P) : ∀ call, Decidable (run.Fresh call)
  | .write _ _ => inferInstanceAs (Decidable (_ → FlushFresh _ _))
  | .flush _ => inferInstanceAs (Decidable (FlushFresh _ _))

end WarmRun

/-! ## Writing the files -/

variable {tier tier' : WarmTier P} {moment : FlushMoment} {event : LineageEvent P} {ok : Bool}

open WarmTier

omit [TextCodec (LineageEvent P)] in
theorem mem_days {day : Int} : day ∈ tier.days ↔ ∃ event ∈ tier.buffer, dayOf event.ts = day := by
  rw [days, List.mem_dedup, List.mem_map]

variable (events : Int → List (LineageEvent P))

theorem writePartitions_written {outcome : Int → FileWrite} {order : List Int}
    (files : BTreeMap Int (List String)) (hwritten : ∀ day ∈ order, outcome day = .written) :
    (writePartitions events outcome order files).1 = true ∧ ∀ day,
      (writePartitions events outcome order files).2.get day =
        if day ∈ order then some ((events day).map TextCodec.toText) else files.get day := by
  induction order generalizing files with
  | nil => exact ⟨rfl, fun day => (if_neg List.not_mem_nil).symm⟩
  | cons first order ih =>
    obtain ⟨hfirst, hrest⟩ := List.forall_mem_cons.mp hwritten
    rw [writePartitions, hfirst]
    obtain ⟨hok, hget⟩ := ih (files.insert first ((events first).map TextCodec.toText)) hrest
    refine ⟨hok, fun day => (hget day).trans ?_⟩
    rw [BTreeMap.get_insert]
    by_cases hday : day = first
    · subst hday
      rw [if_pos rfl, ite_self, if_pos (List.mem_cons_self ..)]
    · rw [if_neg hday]
      simp only [List.mem_cons, hday, false_or]

theorem writePartitions_failed {outcome : Int → FileWrite} {order : List Int} (hnodup : order.Nodup)
    (files : BTreeMap Int (List String)) (hfails : ∃ day ∈ order, outcome day ≠ .written) :
    (writePartitions events outcome order files).1 = false ∧ ∃ day ∈ order,
      (writePartitions events outcome order files).2.get day = files.get day ∨
        (writePartitions events outcome order files).2.get day = some [] := by
  induction order generalizing files with
  | nil => exact absurd hfails.choose_spec.1 List.not_mem_nil
  | cons first order ih =>
    obtain ⟨hfirst, hrest⟩ := List.nodup_cons.mp hnodup
    rw [writePartitions]
    cases houtcome : outcome first with
    | written =>
      obtain ⟨day, hday, hfails⟩ := hfails
      have htail : ∃ day ∈ order, outcome day ≠ .written := by
        rcases List.mem_cons.mp hday with rfl | hday
        · exact absurd houtcome hfails
        · exact ⟨day, hday, hfails⟩
      obtain ⟨hok, kept, hkept, hget⟩ := ih hrest (files.insert first ((events first).map TextCodec.toText)) htail
      refine ⟨hok, kept, List.mem_cons_of_mem _ hkept, ?_⟩
      have hne : kept ≠ first := fun heq => hfirst (heq ▸ hkept)
      rwa [BTreeMap.get_insert, if_neg hne] at hget
    | refused => exact ⟨rfl, first, List.mem_cons_self .., .inl rfl⟩
    | torn =>
      refine ⟨rfl, first, List.mem_cons_self .., .inr ?_⟩
      rw [BTreeMap.get_insert, if_pos rfl]

/-! ## One flush -/

def WarmTier.Sorted (tier : WarmTier P) : Prop :=
  ∀ day, ∀ event ∈ tier.file day, dayOf event.ts = day

theorem writePartitions_get (outcome : Int → FileWrite) (order : List Int)
    (files : BTreeMap Int (List String)) (day : Int) :
    (writePartitions events outcome order files).2.get day = files.get day ∨
      (writePartitions events outcome order files).2.get day = some [] ∨
      (writePartitions events outcome order files).2.get day =
        some ((events day).map TextCodec.toText) := by
  induction order generalizing files with
  | nil => exact .inl rfl
  | cons first order ih =>
    rw [writePartitions]
    cases outcome first with
    | written =>
      dsimp only
      obtain h | h | h := ih (files.insert first ((events first).map TextCodec.toText))
      · rw [h, BTreeMap.get_insert]
        split_ifs with hday
        · exact .inr (.inr (hday ▸ rfl))
        · exact .inl rfl
      · exact .inr (.inl h)
      · exact .inr (.inr h)
    | refused => exact .inl rfl
    | torn =>
      dsimp only
      rw [BTreeMap.get_insert]
      split_ifs
      · exact .inr (.inl rfl)
      · exact .inl rfl

theorem readBack_eventsOf (hreads : ∀ event ∈ tier.buffer, TextCodec.ReadsBack event) (day : Int) :
    ((tier.eventsOf day).map TextCodec.toText).filterMap TextCodec.fromText = tier.eventsOf day :=
  TextCodec.filterMap_fromText fun event hevent => hreads event (List.mem_filter.mp hevent).1

theorem sorted_flush (hreads : ∀ event ∈ tier.buffer, TextCodec.ReadsBack event)
    (hsorted : tier.Sorted) (h : tier.flush moment = some (ok, tier')) :
    tier'.Sorted := by
  rw [flush] at h
  split_ifs at h
  · cases h
    exact hsorted
  · cases h
    intro day event hmem
    rw [file] at hmem
    obtain hget | hget | hget := writePartitions_get tier.eventsOf moment.outcome moment.order
      tier.files day
    · rw [hget] at hmem
      exact hsorted day event hmem
    · rw [hget] at hmem
      exact nomatch hmem
    · rw [hget, Option.getD_some, readBack_eventsOf hreads] at hmem
      exact of_decide_eq_true (List.mem_filter.mp hmem).2

/-! ## Queries -/

theorem mem_daysBetween {first last day : Int} :
    day ∈ WarmTier.daysBetween first last ↔ first ≤ day ∧ day ≤ last := by
  rw [daysBetween, List.mem_map]
  constructor
  · rintro ⟨n, hn, rfl⟩
    have hlt := List.mem_range.mp hn
    omega
  · rintro ⟨hfirst, hlast⟩
    exact ⟨(day - first).toNat, List.mem_range.mpr (by omega), by omega⟩

theorem nodup_daysBetween (first last : Int) : (WarmTier.daysBetween first last).Nodup := by
  refine List.nodup_range.map fun m n h => ?_
  omega

theorem count_flatMap_of_unique {α β : Type} [DecidableEq β] {l : List α} (hnodup : l.Nodup)
    {f : α → List β} {a : α} (ha : a ∈ l) {x : β} (hunique : ∀ b ∈ l, x ∈ f b → b = a) :
    (l.flatMap f).count x = (f a).count x := by
  induction l with
  | nil => exact nomatch ha
  | cons b l ih =>
    obtain ⟨hb, hl⟩ := List.nodup_cons.mp hnodup
    rw [List.flatMap_cons, List.count_append]
    rcases List.mem_cons.mp ha with rfl | ha
    · have hrest : (l.flatMap f).count x = 0 := by
        rw [List.count_eq_zero, List.mem_flatMap]
        rintro ⟨d, hd, hx⟩
        exact hb (hunique d (List.mem_cons_of_mem _ hd) hx ▸ hd)
      rw [hrest, Nat.add_zero]
    · have hhead : (f b).count x = 0 := by
        rw [List.count_eq_zero]
        intro hx
        exact hb (hunique b (List.mem_cons_self ..) hx ▸ ha)
      rw [hhead, Nat.zero_add]
      exact ih hl ha fun d hd => hunique d (List.mem_cons_of_mem _ hd)

theorem mem_query {start stop : Time} (h : event ∈ tier.queryByTimeRange start stop) :
    start ≤ event.ts ∧ event.ts ≤ stop := by
  obtain ⟨day, -, hmem⟩ := List.mem_flatMap.mp h
  exact of_decide_eq_true (List.mem_filter.mp hmem).2

omit [TextCodec (LineageEvent P)] in
theorem exists_bounds (events : List (LineageEvent P)) :
    ∃ start stop, ∀ event ∈ events, start ≤ event.ts ∧ event.ts ≤ stop := by
  induction events with
  | nil => exact ⟨0, 0, nofun⟩
  | cons first events ih =>
    obtain ⟨start, stop, h⟩ := ih
    refine ⟨min start first.ts, max stop first.ts, List.forall_mem_cons.mpr ⟨?_, fun event hmem => ?_⟩⟩
    · exact ⟨min_le_right _ _, le_max_right _ _⟩
    · obtain ⟨hstart, hstop⟩ := h event hmem
      exact ⟨(min_le_left _ _).trans hstart, hstop.trans (le_max_left _ _)⟩

/-! ## Counting -/

variable [DecidableEq P]

omit [TextCodec (LineageEvent P)] in
theorem count_eventsOf (tier : WarmTier P) (event : LineageEvent P) :
    (tier.eventsOf (dayOf event.ts)).count event = tier.buffer.count event :=
  List.count_filter (decide_eq_true rfl)

theorem flush_fresh (hreads : ∀ event ∈ tier.buffer, TextCodec.ReadsBack event)
    (hfresh : WarmRun.FlushFresh tier moment)
    (h : tier.flush moment = some (ok, tier')) :
    ok = true ∧ tier'.buffer = [] ∧ ∀ event, tier'.held event = tier.held event := by
  rw [flush] at h
  split_ifs at h with hempty hperm
  · cases h
    exact ⟨rfl, hempty, fun _ => rfl⟩
  · cases h
    obtain ⟨hok, hget⟩ := writePartitions_written tier.eventsOf tier.files
      fun day hday => (hfresh day (hperm.mem_iff.mp hday)).1
    refine ⟨hok, rfl, fun event => ?_⟩
    rw [held, held, file, hget, List.count_nil, Nat.zero_add]
    split_ifs with hday
    · rw [Option.getD_some, readBack_eventsOf hreads, count_eventsOf, (hfresh _ (hperm.mem_iff.mp hday)).2, List.count_nil]
      rfl
    · have hnone : tier.buffer.count event = 0 := by
        rw [List.count_eq_zero]
        exact fun hmem => hday (hperm.mem_iff.mpr (mem_days.mpr ⟨event, hmem, rfl⟩))
      rw [hnone, Nat.zero_add]
      rfl

theorem flush_stale (hreads : ∀ event ∈ tier.buffer, TextCodec.ReadsBack event)
    (hsorted : tier.Sorted) (hstale : ¬ WarmRun.FlushFresh tier moment)
    (h : tier.flush moment = some (ok, tier')) :
    (ok = false ∧ ∃ event, tier'.held event < tier.held event) ∨
      (ok = true ∧ tier'.buffer = [] ∧ ∃ event,
        (tier'.file (dayOf event.ts)).count event < tier.held event) := by
  rw [flush] at h
  split_ifs at h with hempty hperm
  · refine absurd (fun day hday => ?_) hstale
    rw [days, hempty] at hday
    exact nomatch hday
  · cases h
    have hnodup : moment.order.Nodup := hperm.nodup_iff.mpr (List.nodup_dedup _)
    by_cases hwritten : ∀ day ∈ moment.order, moment.outcome day = .written
    · obtain ⟨hok, hget⟩ := writePartitions_written tier.eventsOf tier.files hwritten
      refine .inr ⟨hok, rfl, ?_⟩
      rw [WarmRun.FlushFresh] at hstale
      push Not at hstale
      obtain ⟨day, hday, hold⟩ := hstale
      have hday' := hperm.mem_iff.mpr hday
      obtain ⟨event, hmem⟩ := List.exists_mem_of_ne_nil _ (hold (hwritten day hday'))
      have hts := hsorted day event hmem
      subst hts
      refine ⟨event, ?_⟩
      rw [held, file, hget, if_pos hday', Option.getD_some,
        readBack_eventsOf hreads, count_eventsOf]
      exact Nat.lt_add_of_pos_right (List.count_pos_iff.mpr hmem)
    · push Not at hwritten
      obtain ⟨hok, day, hday, hget⟩ := writePartitions_failed tier.eventsOf hnodup tier.files
        hwritten
      obtain ⟨event, hmem, rfl⟩ := mem_days.mp (hperm.mem_iff.mp hday)
      refine .inl ⟨hok, event, ?_⟩
      have hfile : (file ⟨[], (writePartitions tier.eventsOf moment.outcome moment.order
          tier.files).2⟩ (dayOf event.ts)).count event ≤ (tier.file (dayOf event.ts)).count event := by
        rw [file]
        obtain hget | hget := hget
        · rw [hget]
          exact Nat.le_refl _
        · rw [hget]
          exact Nat.zero_le _
      have hbuffer : 0 < tier.buffer.count event := List.count_pos_iff.mpr hmem
      rw [held, held, List.count_nil, Nat.zero_add]
      exact Nat.lt_of_le_of_lt hfile (Nat.lt_add_of_pos_left hbuffer)

theorem count_query (hsorted : tier.Sorted) {start stop : Time}
    (hstart : start ≤ event.ts) (hstop : event.ts ≤ stop) :
    (tier.queryByTimeRange start stop).count event = (tier.file (dayOf event.ts)).count event := by
  rw [queryByTimeRange, count_flatMap_of_unique (nodup_daysBetween _ _)
    (mem_daysBetween.mpr ⟨dayOf_mono hstart, dayOf_mono hstop⟩)]
  · exact List.count_filter (decide_eq_true ⟨hstart, hstop⟩)
  · exact fun day _ hmem => (hsorted day event (List.mem_filter.mp hmem).1).symm

/-! ## Runs -/

/-- What fresh calls keep: the store holds exactly what was accepted. -/
structure WarmRun.Inv (run : WarmRun P) : Prop where
  reads : ∀ event ∈ run.tier.buffer, TextCodec.ReadsBack event
  sorted : run.tier.Sorted
  failed : run.failed = []
  held : ∀ event, run.tier.held event = run.accepted.count event
  last : ∀ last ∈ run.last, last.ok = true

variable {run run' : WarmRun P}

theorem found_of_held (hsorted : run.tier.Sorted) (hbuffer : run.tier.buffer = [])
    (hheld : ∀ event, run.tier.held event = run.accepted.count event) : run.Found := by
  intro start stop hcover event
  have hfile : run.accepted.count event = (run.tier.file (dayOf event.ts)).count event := by
    rw [← hheld, held, hbuffer, List.count_nil, Nat.zero_add]
  by_cases hmem : event ∈ run.accepted
  · obtain ⟨hstart, hstop⟩ := hcover event hmem
    rw [count_query hsorted hstart hstop, hfile]
    exact ⟨Nat.le_refl _, Nat.le_add_right _ _⟩
  · have hnone := List.count_eq_zero.mpr hmem
    rw [hnone]
    refine ⟨Nat.zero_le _, ?_⟩
    by_cases hquery : event ∈ run.tier.queryByTimeRange start stop
    · obtain ⟨hstart, hstop⟩ := mem_query hquery
      rw [count_query hsorted hstart hstop, ← hfile, hnone]
      exact Nat.zero_le _
    · rw [List.count_eq_zero.mpr hquery]
      exact Nat.zero_le _

theorem WarmRun.Inv.grows (h : run.Inv) : run.Grows := by
  intro last hlast
  rw [if_pos (h.last last hlast)]
  exact fun hbuffer => found_of_held h.sorted hbuffer h.held

theorem not_found (event : LineageEvent P) (hsorted : run.tier.Sorted)
    (hmissing : (run.tier.file (dayOf event.ts)).count event < run.accepted.count event) :
    ¬ run.Found := by
  intro hfound
  obtain ⟨start, stop, hcover⟩ := exists_bounds run.accepted
  have hmem : event ∈ run.accepted := List.count_pos_iff.mp (Nat.zero_lt_of_lt hmissing)
  obtain ⟨hstart, hstop⟩ := hcover event hmem
  have hcount := (hfound start stop hcover event).1
  rw [count_query hsorted hstart hstop] at hcount
  exact absurd hmissing (Nat.not_lt.mpr hcount)

theorem flush_step {before : WarmTier P} (accepted : List (LineageEvent P))
    (hreads : ∀ event ∈ before.buffer, TextCodec.ReadsBack event) (hsorted : before.Sorted) (hflush : before.flush moment = some (ok, tier'))
    (hrun : run'.tier = tier') (haccepted : ok = true → run'.accepted = accepted)
    (hfailed : ok = true → run'.failed = []) (hlast : run'.last = some ⟨before, ok⟩)
    (hheld : ∀ event, before.held event = accepted.count event) :
    (run'.Grows → WarmRun.FlushFresh before moment) ∧ (WarmRun.FlushFresh before moment → run'.Inv) := by
  have hsorted' : run'.tier.Sorted := hrun ▸ sorted_flush hreads hsorted hflush
  constructor
  · intro hgrows
    by_contra hstale
    have hgrows := hgrows _ hlast
    obtain ⟨hok, event, hlost⟩ | ⟨hok, hbuffer, event, hlost⟩ := flush_stale hreads hsorted hstale hflush
    · rw [if_neg (hok ▸ Bool.false_ne_true)] at hgrows
      have hkept := hgrows event
      rw [hrun] at hkept
      exact absurd hlost (Nat.not_lt.mpr hkept)
    · rw [if_pos hok, hrun] at hgrows
      refine not_found event hsorted' ?_ (hgrows hbuffer)
      rw [hrun, haccepted hok, ← hheld]
      exact hlost
  · intro hfresh
    obtain ⟨hok, hbuffer, hkept⟩ := flush_fresh hreads hfresh hflush
    refine ⟨fun event hevent => ?_, hsorted', hfailed hok, fun event => ?_, fun last hmem => ?_⟩
    · rw [hrun, hbuffer] at hevent
      exact nomatch hevent
    · rw [hrun, hkept, hheld, haccepted hok]
    · rw [hlast] at hmem
      cases hmem
      exact hok

theorem WarmRun.step_spec (call : WarmCall P)
    (hcall : ∀ event moment, call = .write event moment → TextCodec.ReadsBack event) (hinv : run.Inv) (hstep : run.step call = some run') :
    (run'.Grows → run.Fresh call) ∧ (run.Fresh call → run'.Inv) := by
  cases call with
  | write event moment =>
    obtain ⟨⟨ok, tier'⟩, hwrite, rfl⟩ := Option.map_eq_some_iff.mp hstep
    have hheld : ∀ other, held { run.tier with buffer := run.tier.buffer ++ [event] } other =
        (run.accepted ++ [event]).count other := by
      intro other
      have hbefore := hinv.held other
      rw [held] at hbefore ⊢
      rw [List.count_append, List.count_append, ← hbefore]
      exact Nat.add_right_comm ..
    have hreads : ∀ other ∈ run.tier.buffer ++ [event], TextCodec.ReadsBack other := by
      intro other hother
      obtain hother | hother := List.mem_append.mp hother
      · exact hinv.reads other hother
      · exact List.mem_singleton.mp hother ▸ hcall event moment rfl
    rw [write] at hwrite
    rw [WarmRun.Fresh]
    have hlength : (run.tier.buffer ++ [event]).length = run.tier.buffer.length + 1 :=
      List.length_append
    dsimp only at hwrite
    rw [hlength] at hwrite
    split_ifs at hwrite with hfull
    · rw [forall_prop_of_true hfull]
      exact flush_step (run.accepted ++ [event]) hreads hinv.sorted hwrite rfl
        (fun hok => if_pos hok) (fun hok => (if_pos hok).trans hinv.failed) rfl hheld
    · cases hwrite
      refine ⟨fun _ h => absurd h hfull, fun _ => ⟨hreads, hinv.sorted, hinv.failed, hheld, ?_⟩⟩
      intro last hmem
      cases hmem
      rfl
  | flush moment =>
    obtain ⟨⟨ok, tier'⟩, hflush, rfl⟩ := Option.map_eq_some_iff.mp hstep
    exact flush_step run.accepted hinv.reads hinv.sorted hflush rfl (fun _ => rfl)
      (fun _ => hinv.failed) rfl hinv.held

def eventOfDayZero (id : String) : LineageEvent Unit := ⟨id, "r", "q", "t", [], 0, ()⟩

instance : TextCodec (LineageEvent Unit) := .ofTable LineageEvent.id
  [eventOfDayZero "a", eventOfDayZero "b"]

def dayZeroWritten : FlushMoment := ⟨[0], fun _ => .written⟩

def twoFlushes : List (WarmCall Unit) :=
  [.write (eventOfDayZero "a") dayZeroWritten, .flush dayZeroWritten,
    .write (eventOfDayZero "b") dayZeroWritten, .flush dayZeroWritten]

end Arcxa.Tiering
