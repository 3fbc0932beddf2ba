import Mathlib.Logic.Relation
import Arcxa.Governance.InsertPrologue

/-!
# The slices of the INSERT DATA parser

A slice is taken at a byte, and it is in order exactly if some beginning of the text is so many
bytes long. The places of keywords are places in the upper-case text, which may have more bytes or
fewer. The prefix loop goes from place to place (`NextPlace`): behind a declaration, counted from
the white space before it, or one byte on. It ends in every case, and panics exactly if it comes to
a place with text left from which there is no next one (`prefixRounds_panics_iff`).
-/

namespace Arcxa.Governance

open Sparql (byteLen_nil byteLen_cons byteLen_append sliceFrom_append
  sliceTo_append depth depth_cons)
open Arcxa.Workflow (isWhitespace)
open InsertParser

def IsBoundary (text : List Char) (place : Nat) : Prop :=
  ∃ pre, pre <+: text ∧ byteLen pre = place

def IsBefore (keyword text before : List Char) : Prop :=
  before ++ keyword <+: text ∧ ∀ other, other ++ keyword <+: text → before.length ≤ other.length

/-! ## Places of the prefix loop -/

def HasKeyword (u : Unicode) (text : List Char) : Prop :=
  "PREFIX".toList <+: toUppercase u text

/-- Six bytes, then a name up to the first colon and a URI between the first brackets behind it. -/
def IsDeclaration (text : List Char) : Prop :=
  ∃ keyword name before uri, byteLen keyword = 6 ∧
    text = keyword ++ (name ++ ':' :: (before ++ '<' :: (uri ++ ['>']))) ∧
    ':' ∉ name ∧ '<' ∉ before ∧ '>' ∉ before ∧ '>' ∉ uri

/-- There is no keyword, or behind its six bytes there is no colon or not both brackets. -/
def HasNoDeclaration (u : Unicode) (text : List Char) : Prop :=
  ¬ HasKeyword u text ∨
    ∃ keyword rest, byteLen keyword = 6 ∧ text = keyword ++ rest ∧
      ∀ name after, rest = name ++ ':' :: after → ':' ∉ name → '<' ∉ after ∨ '>' ∉ after

/-- Where the loop goes from a place, which is given by the text from there on. -/
inductive NextPlace (u : Unicode) (place next : List Char) : Prop where
  | declaration {text tail skipped : List Char} (hkeyword : HasKeyword u (trimStart place))
      (htext : IsDeclaration text) (hstart : trimStart place = text ++ tail)
      (hplace : place = skipped ++ next) (hlen : byteLen skipped = byteLen text)
  | character {c : Char} (hleft : trimStart place ≠ [])
      (hnone : HasNoDeclaration u (trimStart place)) (hplace : place = c :: next)
      (hc : c.utf8Size = 1)

/-- From every place with text left that the loop comes to, it can go on. -/
def LoopGoesOn (u : Unicode) (prefixSection : List Char) : Prop :=
  ∀ place, Relation.ReflTransGen (NextPlace u) prefixSection place → trimStart place ≠ [] →
    ∃ next, NextPlace u place next

/-- No brace closes the block, and the braces that are open are a multiple of `2^32`. -/
def OpenToTheEnd (text : List Char) : Prop :=
  (∀ pre, pre ++ ['\x7d'] <+: text → depth pre ≠ 0) ∧ 1 + depth text = 0

/-! ## Slices -/

theorem sliceFrom_eq_some {n : Nat} {cs rest : List Char} :
    sliceFrom n cs = some rest ↔ ∃ pre, cs = pre ++ rest ∧ byteLen pre = n := by
  constructor
  · intro h
    induction cs generalizing n with
    | nil =>
      cases n with
      | zero => exact ⟨[], Option.some.inj h, rfl⟩
      | succ n => cases h
    | cons c cs ih =>
      cases n with
      | zero => exact ⟨[], Option.some.inj h, rfl⟩
      | succ n =>
        rw [sliceFrom] at h
        split_ifs at h with hle
        obtain ⟨pre, hcs, hlen⟩ := ih h
        refine ⟨c :: pre, by rw [hcs]; rfl, ?_⟩
        rw [byteLen_cons]
        omega
  · rintro ⟨pre, rfl, rfl⟩
    exact sliceFrom_append pre rest

theorem sliceTo_eq_some {n : Nat} {cs pre : List Char} :
    sliceTo n cs = some pre ↔ pre <+: cs ∧ byteLen pre = n := by
  constructor
  · intro h
    induction cs generalizing n pre with
    | nil =>
      cases n with
      | zero =>
        cases h
        exact ⟨List.nil_prefix, rfl⟩
      | succ n => cases h
    | cons c cs ih =>
      cases n with
      | zero =>
        cases h
        exact ⟨List.nil_prefix, rfl⟩
      | succ n =>
        rw [sliceTo] at h
        split_ifs at h with hle
        obtain ⟨rest, hrest, rfl⟩ := Option.map_eq_some_iff.mp h
        obtain ⟨hpre, hlen⟩ := ih hrest
        refine ⟨List.cons_prefix_cons.mpr ⟨rfl, hpre⟩, ?_⟩
        rw [byteLen_cons]
        omega
  · rintro ⟨⟨rest, rfl⟩, rfl⟩
    exact sliceTo_append pre rest

variable {cs : List Char}

theorem sliceFrom_eq_none {n : Nat} : sliceFrom n cs = none ↔ ¬ IsBoundary cs n := by
  rw [Option.eq_none_iff_forall_ne_some]
  constructor
  · rintro h ⟨pre, ⟨rest, hcs⟩, hlen⟩
    exact h rest (sliceFrom_eq_some.mpr ⟨pre, hcs.symm, hlen⟩)
  · intro h rest hslice
    obtain ⟨pre, rfl, hlen⟩ := sliceFrom_eq_some.mp hslice
    exact h ⟨pre, List.prefix_append pre rest, hlen⟩

theorem findBytes_of_isBefore {keyword text before : List Char} (h : IsBefore keyword text before) :
    findBytes keyword text = some (byteLen before) := by
  obtain ⟨hoccurs, hfirst⟩ := h
  induction before generalizing text with
  | nil =>
    cases text with
    | nil =>
      rw [List.nil_append, List.prefix_nil] at hoccurs
      rw [hoccurs]
      rfl
    | cons c text =>
      rw [List.nil_append] at hoccurs
      rw [findBytes, if_pos (List.isPrefixOf_iff_prefix.mpr hoccurs)]
      rfl
  | cons b before ih =>
    cases text with
    | nil => cases List.prefix_nil.mp hoccurs
    | cons c text =>
      obtain ⟨rfl, hrest⟩ := List.cons_prefix_cons.mp hoccurs
      have hnot : ¬ keyword.isPrefixOf (b :: text) = true := by
        intro hpre
        have hle := hfirst [] (List.isPrefixOf_iff_prefix.mp hpre)
        cases hle
      have hlater : ∀ other, other ++ keyword <+: text → before.length ≤ other.length := by
        intro other hother
        have hle := hfirst (b :: other) (List.cons_prefix_cons.mpr ⟨rfl, hother⟩)
        simpa using hle
      rw [findBytes, if_neg hnot, ih hrest hlater, Option.map_some, byteLen_cons, Nat.add_comm]

theorem exists_isBefore {keyword text : List Char} {n : Nat} (h : findBytes keyword text = some n) :
    ∃ before, IsBefore keyword text before ∧ byteLen before = n := by
  induction text generalizing n with
  | nil =>
    rw [findBytes] at h
    split_ifs at h with hempty
    cases h
    rw [List.isEmpty_iff.mp hempty]
    exact ⟨[], ⟨List.nil_prefix, fun _ _ => Nat.zero_le _⟩, rfl⟩
  | cons c text ih =>
    rw [findBytes] at h
    split_ifs at h with hpre
    · cases h
      exact ⟨[], ⟨List.isPrefixOf_iff_prefix.mp hpre, fun _ _ => Nat.zero_le _⟩, rfl⟩
    · obtain ⟨m, hm, rfl⟩ := Option.map_eq_some_iff.mp h
      obtain ⟨before, ⟨hoccurs, hfirst⟩, hlen⟩ := ih hm
      refine ⟨c :: before, ⟨List.cons_prefix_cons.mpr ⟨rfl, hoccurs⟩, ?_⟩, ?_⟩
      · intro other hother
        cases other with
        | nil => exact absurd (List.isPrefixOf_iff_prefix.mpr hother) hpre
        | cons d other =>
          obtain ⟨-, hrest⟩ := List.cons_prefix_cons.mp hother
          exact Nat.succ_le_succ (hfirst other hrest)
      · rw [byteLen_cons, hlen, Nat.add_comm]

/-! ## Declarations -/

theorem splitOnce_eq_none {sep : Char} : splitOnce sep cs = none ↔ sep ∉ cs := by
  constructor
  · intro h hmem
    obtain ⟨before, after, hsome⟩ := exists_splitOnce hmem
    rw [h] at hsome
    cases hsome
  · intro h
    cases hsplit : splitOnce sep cs with
    | none => rfl
    | some p =>
      obtain ⟨before, after⟩ := p
      rw [(eq_of_splitOnce hsplit).1] at h
      exact absurd (List.mem_append_right before List.mem_cons_self) h

theorem trimStart_append_cons {c : Char} (hc : isWhitespace c = false) (cs ds : List Char) :
    trimStart (cs ++ c :: ds) = trimStart cs ++ c :: ds := by
  unfold trimStart
  rw [List.dropWhile_append]
  split_ifs with hempty
  · rw [List.isEmpty_iff.mp hempty, List.dropWhile_cons, hc, if_neg (by decide)]
    rfl
  · rfl

theorem exists_gap (cs : List Char) :
    ∃ gap, cs = gap ++ trimStart cs ∧ ∀ c ∈ gap, isWhitespace c = true :=
  ⟨cs.takeWhile isWhitespace, List.takeWhile_append_dropWhile.symm,
    fun _ hc => List.mem_takeWhile_imp hc⟩

theorem not_mem_trimStart {c : Char} (h : c ∉ cs) : c ∉ trimStart cs :=
  fun hmem => h (List.dropWhile_subset _ hmem)

theorem not_mem_gap {gap : List Char} (hgap : ∀ c ∈ gap, isWhitespace c = true) {c : Char}
    (hc : isWhitespace c = false) : c ∉ gap := by
  intro hmem
  rw [hgap c hmem] at hc
  cases hc

section Declarations

variable {u : Unicode}

theorem parsePrefix_of_isDeclaration {text tail : List Char} (h : IsDeclaration text)
    (hkeyword : HasKeyword u (text ++ tail)) :
    ∃ prefixName uri,
      parsePrefix u (text ++ tail) = .ok (some (prefixName, uri, byteLen text)) := by
  obtain ⟨keyword, name, before, uri, hlen, rfl, hname, hopen, hclose, huri⟩ := h
  obtain ⟨gap, hgap, -⟩ := exists_gap before
  have hrest : ∀ tail, keyword ++ (name ++ ':' :: (before ++ '<' :: (uri ++ ['>']))) ++ tail =
      keyword ++ (name ++ ':' :: (before ++ '<' :: (uri ++ '>' :: tail))) := by
    intro tail
    simp
  have hslice : sliceFrom 6 (keyword ++ (name ++ ':' :: (before ++ '<' :: (uri ++ '>' :: tail)))) =
      some (name ++ ':' :: (before ++ '<' :: (uri ++ '>' :: tail))) :=
    sliceFrom_eq_some.mpr ⟨keyword, rfl, hlen⟩
  have hend : trimStart before ++ '<' :: (uri ++ '>' :: tail) =
      (trimStart before ++ '<' :: uri) ++ '>' :: tail := by simp
  have hnot : '>' ∉ trimStart before ++ '<' :: uri := by
    rw [List.mem_append, List.mem_cons, not_or, not_or]
    exact ⟨not_mem_trimStart hclose, by decide, huri⟩
  rw [hrest] at hkeyword ⊢
  rw [parsePrefix, if_pos (List.isPrefixOf_iff_prefix.mpr hkeyword), hslice]
  have hcolon : isWhitespace ':' = false := by decide
  have hbracket : isWhitespace '<' = false := by decide
  simp only [trimStart_append_cons hcolon, splitOnce_append (not_mem_trimStart hname),
    trimStart_append_cons hbracket, splitOnce_append (not_mem_trimStart hopen)]
  rw [hend, splitOnce_append hnot]
  simp only
  rw [if_neg (by rw [byteLen_append]; omega)]
  have hreach : byteLen (keyword ++ (name ++ ':' :: (before ++ '<' :: (uri ++ '>' :: tail)))) -
      byteLen (trimStart before ++ '<' :: uri ++ '>' :: tail) +
        byteLen (trimStart before ++ '<' :: uri) + 1 =
      byteLen (keyword ++ (name ++ ':' :: (before ++ '<' :: (uri ++ ['>'])))) := by
    have hbefore := congrArg byteLen hgap
    have hone : ('>' : Char).utf8Size = 1 := by decide
    simp only [byteLen_append, byteLen_cons, byteLen_nil] at hbefore ⊢
    omega
  rw [hreach]
  exact ⟨_, _, rfl⟩

theorem parsePrefix_of_hasNoDeclaration {text : List Char} (h : HasNoDeclaration u text) :
    parsePrefix u text = .ok none := by
  unfold parsePrefix
  by_cases hkeyword : HasKeyword u text
  · rw [if_pos (List.isPrefixOf_iff_prefix.mpr hkeyword)]
    obtain ⟨keyword, rest, hlen, rfl, hnone⟩ := h.resolve_left (not_not.mpr hkeyword)
    rw [sliceFrom_eq_some.mpr ⟨keyword, rfl, hlen⟩]
    simp only
    cases hcolon : splitOnce ':' (trimStart rest) with
    | none => rfl
    | some p =>
      obtain ⟨name, after⟩ := p
      obtain ⟨heq, hname⟩ := eq_of_splitOnce hcolon
      obtain ⟨gap, hrest, hgap⟩ := exists_gap rest
      have hbrackets := hnone (gap ++ name) after (by rw [hrest, heq, List.append_assoc]) (by
        rw [List.mem_append, not_or]
        exact ⟨not_mem_gap hgap (by decide), hname⟩)
      simp only
      rcases hbrackets with hopen | hclose
      · rw [splitOnce_eq_none.mpr (not_mem_trimStart hopen)]
      · rw [splitOnce_eq_none.mpr (not_mem_trimStart hclose)]
        cases splitOnce '<' (trimStart after) <;> rfl
  · rw [if_neg fun hpre => hkeyword (List.isPrefixOf_iff_prefix.mp hpre)]

theorem exists_uri {beforeStart afterStart beforeEnd afterEnd : List Char}
    (h : beforeStart ++ '<' :: afterStart = beforeEnd ++ '>' :: afterEnd)
    (hcrossed : ¬ byteLen beforeEnd < byteLen beforeStart) :
    ∃ uri, beforeEnd = beforeStart ++ '<' :: uri ∧ afterStart = uri ++ '>' :: afterEnd := by
  rcases List.append_eq_append_iff.mp h with ⟨between, hbefore, hafter⟩ | ⟨between, hbefore, hafter⟩
  · cases between with
    | nil => exact absurd (List.cons.inj hafter).1 (by decide)
    | cons c uri =>
      obtain ⟨rfl, hrest⟩ := List.cons.inj hafter
      exact ⟨uri, hbefore, hrest⟩
  · cases between with
    | nil => exact absurd (List.cons.inj hafter).1 (by decide)
    | cons c between =>
      -- the closing bracket would come first
      rw [hbefore, byteLen_append, byteLen_cons] at hcrossed
      have hpos := c.utf8Size_pos
      omega

/-- **What one round finds**: a declaration, that there is none, or a slice out of range. -/
theorem parsePrefix_cases (u : Unicode) (text : List Char) :
    (HasKeyword u text ∧ ∃ declared tail, IsDeclaration declared ∧ text = declared ++ tail) ∨
      HasNoDeclaration u text ∨ parsePrefix u text = .error .panicked := by
  unfold parsePrefix
  by_cases hkeyword : HasKeyword u text
  · rw [if_pos (List.isPrefixOf_iff_prefix.mpr hkeyword)]
    cases hslice : sliceFrom 6 text with
    | none => exact .inr (.inr rfl)
    | some rest =>
      obtain ⟨keyword, rfl, hlen⟩ := sliceFrom_eq_some.mp hslice
      obtain ⟨gap, hrest, hgap⟩ := exists_gap rest
      simp only
      cases hcolon : splitOnce ':' (trimStart rest) with
      | none =>
        refine .inr (.inl (.inr ⟨keyword, rest, hlen, rfl, fun name after heq hname => ?_⟩))
        -- the white space in front has no colon
        have hmem : ':' ∈ trimStart rest := by
          have hin : ':' ∈ gap ++ trimStart rest := by
            rw [← hrest, heq]
            exact List.mem_append_right name List.mem_cons_self
          exact (List.mem_append.mp hin).resolve_left (not_mem_gap hgap (by decide))
        exact absurd hmem (splitOnce_eq_none.mp hcolon)
      | some p =>
        obtain ⟨name, after⟩ := p
        obtain ⟨heq, hname⟩ := eq_of_splitOnce hcolon
        have hwhole : rest = (gap ++ name) ++ ':' :: after := by
          rw [hrest, heq, List.append_assoc]
        have hnamed : ':' ∉ gap ++ name := by
          rw [List.mem_append, not_or]
          exact ⟨not_mem_gap hgap (by decide), hname⟩
        have hmissing : '<' ∉ after ∨ '>' ∉ after → HasNoDeclaration u (keyword ++ rest) := by
          intro hbrackets
          refine .inr ⟨keyword, rest, hlen, rfl, fun name' after' heq' hname' => ?_⟩
          have hsplit := splitOnce_append hnamed after
          rw [← hwhole, heq', splitOnce_append hname' after'] at hsplit
          cases hsplit
          exact hbrackets
        obtain ⟨gap', hafter, hgap'⟩ := exists_gap after
        have hinside : ∀ {c : Char}, isWhitespace c = false → c ∉ trimStart after → c ∉ after := by
          intro c hc hnot hmem
          rw [hafter] at hmem
          exact hnot ((List.mem_append.mp hmem).resolve_left (not_mem_gap hgap' hc))
        simp only
        cases hopen : splitOnce '<' (trimStart after) with
        | none =>
          exact .inr (.inl (hmissing (.inl (hinside (by decide) (splitOnce_eq_none.mp hopen)))))
        | some q =>
          cases hclose : splitOnce '>' (trimStart after) with
          | none =>
            exact .inr (.inl (hmissing (.inr (hinside (by decide) (splitOnce_eq_none.mp hclose)))))
          | some r =>
            obtain ⟨beforeStart, afterStart⟩ := q
            obtain ⟨beforeEnd, afterEnd⟩ := r
            simp only
            split_ifs with hcrossed
            · exact .inr (.inr rfl)
            · left
              obtain ⟨hstart, hnotOpen⟩ := eq_of_splitOnce hopen
              obtain ⟨hstop, hnotClose⟩ := eq_of_splitOnce hclose
              obtain ⟨uri, rfl, hafterStart⟩ := exists_uri (hstart.symm.trans hstop) hcrossed
              rw [List.mem_append, List.mem_cons, not_or, not_or] at hnotClose
              have hfree : ∀ {c : Char}, isWhitespace c = false → c ∉ beforeStart →
                  c ∉ gap' ++ beforeStart := by
                intro c hc hnot
                rw [List.mem_append, not_or]
                exact ⟨not_mem_gap hgap' hc, hnot⟩
              refine ⟨hkeyword, _, afterEnd, ⟨keyword, gap ++ name, gap' ++ beforeStart, uri, hlen,
                rfl, hnamed, hfree (by decide) hnotOpen, hfree (by decide) hnotClose.1,
                hnotClose.2.2⟩, ?_⟩
              rw [hwhole, hafter, hstart, hafterStart]
              simp
  · exact .inr (.inl (.inl hkeyword))

/-! ## The loop -/

theorem IsDeclaration.byteLen_pos {text : List Char} (h : IsDeclaration text) :
    0 < byteLen text := by
  obtain ⟨keyword, name, before, uri, hlen, rfl, -⟩ := h
  rw [byteLen_append, hlen]
  omega

theorem nextPlace_iff {place next : List Char} :
    NextPlace u place next ↔ trimStart place ≠ [] ∧
      ((∃ prefixName uri len, parsePrefix u (trimStart place) = .ok (some (prefixName, uri, len)) ∧
          sliceFrom len place = some next) ∨
        parsePrefix u (trimStart place) = .ok none ∧ sliceFrom 1 place = some next) := by
  constructor
  · rintro (⟨hkeyword, htext, hstart, hplace, hlen⟩ | ⟨hleft, hnone, hplace, hc⟩)
    · rw [hstart] at hkeyword ⊢
      refine ⟨?_, .inl ?_⟩
      · intro hnil
        have hpos := htext.byteLen_pos
        rw [(List.append_eq_nil_iff.mp hnil).1] at hpos
        exact lt_irrefl 0 hpos
      · obtain ⟨prefixName, uri, hparse⟩ := parsePrefix_of_isDeclaration htext hkeyword
        exact ⟨prefixName, uri, _, hparse, sliceFrom_eq_some.mpr ⟨_, hplace, hlen⟩⟩
    · refine ⟨hleft, .inr ⟨parsePrefix_of_hasNoDeclaration hnone, ?_⟩⟩
      refine sliceFrom_eq_some.mpr ⟨[_], hplace, ?_⟩
      rw [byteLen_cons, hc]
      rfl
  · rintro ⟨hleft, hround⟩
    rcases parsePrefix_cases u (trimStart place) with
      ⟨hkeyword, text, tail, htext, hstart⟩ | hnone | hpanic
    · have hkeyword' := hkeyword
      rw [hstart] at hkeyword'
      obtain ⟨prefixName, uri, hparse⟩ := parsePrefix_of_isDeclaration htext hkeyword'
      rw [hstart, hparse] at hround
      rcases hround with ⟨_, _, _, heq, hslice⟩ | ⟨heq, -⟩
      · cases heq
        obtain ⟨skipped, hplace, hlen⟩ := sliceFrom_eq_some.mp hslice
        exact .declaration hkeyword htext hstart hplace hlen
      · cases heq
    · rw [parsePrefix_of_hasNoDeclaration hnone] at hround
      rcases hround with ⟨_, _, _, heq, -⟩ | ⟨-, hslice⟩
      · cases heq
      · obtain ⟨skipped, hplace, hlen⟩ := sliceFrom_eq_some.mp hslice
        -- one byte is one character
        cases skipped with
        | nil => cases hlen
        | cons c skipped =>
          rw [byteLen_cons] at hlen
          have hpos := c.utf8Size_pos
          cases skipped with
          | nil => exact .character hleft hnone hplace (by rw [byteLen_nil] at hlen; omega)
          | cons d skipped =>
            rw [byteLen_cons] at hlen
            have hpos' := d.utf8Size_pos
            omega
    · rw [hpanic] at hround
      rcases hround with ⟨_, _, _, heq, -⟩ | ⟨heq, -⟩
      · cases heq
      · cases heq

theorem NextPlace.byteLen_lt {place next : List Char} (h : NextPlace u place next) :
    byteLen next < byteLen place := by
  rcases h with ⟨-, htext, -, rfl, hlen⟩ | ⟨-, -, rfl, hc⟩
  · have hpos := htext.byteLen_pos
    rw [byteLen_append]
    omega
  · rw [byteLen_cons]
    omega

/-- The round panics and there is no next place, or it goes on at the only one. -/
def RoundLeaves (u : Unicode) (place : List Char) : Prop :=
  (∀ rounds prefixes, prefixRounds u (rounds + 1) place prefixes = .error .panicked) ∧
      trimStart place ≠ [] ∧ (∀ next, ¬ NextPlace u place next) ∨
    ∃ next, NextPlace u place next ∧ (∀ next', NextPlace u place next' → next' = next) ∧
      ∃ insert : BTreeMap String String → BTreeMap String String, ∀ rounds prefixes,
        prefixRounds u (rounds + 1) place prefixes = prefixRounds u rounds next (insert prefixes)

/-- What is found decides where the loop goes, if the slice is in order. -/
theorem roundLeaves_of_slice {place : List Char} (len : Nat)
    (insert : BTreeMap String String → BTreeMap String String) (hleft : trimStart place ≠ [])
    (hiff : ∀ next, NextPlace u place next ↔ sliceFrom len place = some next)
    (hround : ∀ rounds prefixes, prefixRounds u (rounds + 1) place prefixes =
      (sliceFrom len place).elim (.error .panicked) fun next =>
        prefixRounds u rounds next (insert prefixes)) : RoundLeaves u place := by
  cases hslice : sliceFrom len place with
  | none =>
    refine .inl ⟨fun rounds prefixes => ?_, hleft, fun next hstep => ?_⟩
    · rw [hround, hslice, Option.elim_none]
    · rw [hiff, hslice] at hstep
      cases hstep
  | some next =>
    refine .inr ⟨next, (hiff next).mpr hslice, fun next' hstep => ?_, insert,
      fun rounds prefixes => ?_⟩
    · rw [hiff, hslice] at hstep
      exact (Option.some.inj hstep).symm
    · rw [hround, hslice, Option.elim_some]

theorem prefixRounds_cases (u : Unicode) (place : List Char) :
    (∀ rounds prefixes, prefixRounds u (rounds + 1) place prefixes = .ok prefixes) ∧
        trimStart place = [] ∨
      RoundLeaves u place := by
  by_cases hleft : trimStart place = []
  · refine .inl ⟨fun rounds prefixes => ?_, hleft⟩
    rw [prefixRounds, if_pos (List.isEmpty_iff.mpr hleft)]
  right
  have hempty : ¬ (trimStart place).isEmpty = true := fun h => hleft (List.isEmpty_iff.mp h)
  have hnext : ∀ next, NextPlace u place next ↔ _ := fun next =>
    (@nextPlace_iff u place next).trans (and_iff_right hleft)
  rcases parsePrefix_cases u (trimStart place) with
    ⟨hkeyword, text, tail, htext, hstart⟩ | hnone | hpanic
  · rw [hstart] at hkeyword
    obtain ⟨prefixName, uri, hparse⟩ := parsePrefix_of_isDeclaration htext hkeyword
    rw [← hstart] at hparse
    refine roundLeaves_of_slice (byteLen text) (·.insert prefixName uri) hleft ?_ ?_
    · intro next
      rw [hnext, hparse]
      constructor
      · rintro (⟨_, _, _, heq, hslice⟩ | ⟨heq, -⟩)
        · cases heq
          exact hslice
        · cases heq
      · exact fun hslice => .inl ⟨_, _, _, rfl, hslice⟩
    · intro rounds prefixes
      rw [prefixRounds, if_neg hempty, hparse]
      cases hslice : sliceFrom (byteLen text) place <;> simp only [hslice] <;> rfl
  · have hparse := parsePrefix_of_hasNoDeclaration hnone
    refine roundLeaves_of_slice 1 id hleft ?_ ?_
    · intro next
      rw [hnext, hparse]
      constructor
      · rintro (⟨_, _, _, heq, -⟩ | ⟨-, hslice⟩)
        · cases heq
        · exact hslice
      · exact fun hslice => .inr ⟨rfl, hslice⟩
    · intro rounds prefixes
      rw [prefixRounds, if_neg hempty, hparse]
      cases sliceFrom 1 place <;> rfl
  · refine .inl ⟨fun rounds prefixes => ?_, hleft, fun next hstep => ?_⟩
    · rw [prefixRounds, if_neg hempty, hpanic]
    · rw [hnext, hpanic] at hstep
      rcases hstep with ⟨_, _, _, heq, -⟩ | ⟨heq, -⟩
      · cases heq
      · cases heq

theorem eq_nil_of_byteLen {cs : List Char} (h : byteLen cs = 0) : cs = [] := by
  cases cs with
  | nil => rfl
  | cons c cs =>
    have hpos := c.utf8Size_pos
    rw [byteLen_cons] at h
    omega

theorem prefixRounds_nil (rounds : Nat) (prefixes : BTreeMap String String) :
    prefixRounds u rounds [] prefixes = .ok prefixes := by
  cases rounds <;> rfl

variable {place : List Char}

/-- **The loop ends**: as many rounds as there are bytes are enough, and more change nothing. -/
theorem prefixRounds_eq {n m : Nat} (hn : byteLen place ≤ n) (hm : byteLen place ≤ m)
    (prefixes : BTreeMap String String) :
    prefixRounds u n place prefixes = prefixRounds u m place prefixes := by
  induction n generalizing place m prefixes with
  | zero => rw [eq_nil_of_byteLen (Nat.le_zero.mp hn), prefixRounds_nil, prefixRounds_nil]
  | succ n ih =>
    cases m with
    | zero => rw [eq_nil_of_byteLen (Nat.le_zero.mp hm), prefixRounds_nil, prefixRounds_nil]
    | succ m =>
      rcases prefixRounds_cases u place with
        ⟨hend, -⟩ | ⟨hpanic, -⟩ | ⟨next, hnext, -, insert, hgoes⟩
      · rw [hend, hend]
      · rw [hpanic, hpanic]
      · have hlt := hnext.byteLen_lt
        rw [hgoes, hgoes]
        exact ih (by omega) (by omega) _

theorem loopGoesOn_of_nil (h : trimStart place = []) : LoopGoesOn u place := by
  intro other hreach hleft
  rcases hreach.cases_head with rfl | ⟨next, hnext, -⟩
  · exact absurd h hleft
  · exact absurd h (nextPlace_iff.mp hnext).1

theorem ok_panics_iff {P : Prop} (hP : P) {r : Except Failure (BTreeMap String String)}
    {prefixes : BTreeMap String String} (h : r = .ok prefixes) :
    (r = .error .panicked ↔ ¬ P) ∧ ∀ e, r = .error e → e = .panicked := by
  subst h
  exact ⟨iff_of_false (fun heq => by cases heq) (not_not.mpr hP), fun e heq => by cases heq⟩

/-- **Where the loop panics**, and that it fails in no other way. -/
theorem prefixRounds_panics_iff {rounds : Nat} (h : byteLen place ≤ rounds)
    (prefixes : BTreeMap String String) :
    (prefixRounds u rounds place prefixes = .error .panicked ↔ ¬ LoopGoesOn u place) ∧
      ∀ e, prefixRounds u rounds place prefixes = .error e → e = .panicked := by
  induction rounds generalizing place prefixes with
  | zero =>
    obtain rfl := eq_nil_of_byteLen (Nat.le_zero.mp h)
    exact ok_panics_iff (loopGoesOn_of_nil rfl) rfl
  | succ rounds ih =>
    rcases prefixRounds_cases u place with
      ⟨hend, hnil⟩ | ⟨hpanic, hleft, hstuck⟩ | ⟨next, hnext, hunique, insert, hgoes⟩
    · exact ok_panics_iff (loopGoesOn_of_nil hnil) (hend rounds prefixes)
    · rw [hpanic]
      refine ⟨iff_of_true rfl fun hgoes => ?_, fun e heq => (Except.error.inj heq).symm⟩
      obtain ⟨next, hnext⟩ := hgoes place .refl hleft
      exact hstuck next hnext
    · have hlt := hnext.byteLen_lt
      -- the places behind this one are those behind the next one
      have hsame : LoopGoesOn u place ↔ LoopGoesOn u next := by
        constructor
        · exact fun hplace other hreach => hplace other (hreach.head hnext)
        · intro hrest other hreach hleft
          rcases hreach.cases_head with rfl | ⟨next', hnext', hreach'⟩
          · exact ⟨next, hnext⟩
          · obtain rfl := hunique next' hnext'
            exact hrest other hreach' hleft
      rw [hgoes, hsame]
      exact ih (by omega) (insert prefixes)

end Declarations

/-! ## The block -/

theorem forall_prefix_cons_iff {c d : Char} {P : List Char → Prop} :
    (∀ pre, pre ++ [d] <+: c :: cs → P pre) ↔
      (c = d → P []) ∧ ∀ pre, pre ++ [d] <+: cs → P (c :: pre) := by
  constructor
  · intro h
    refine ⟨?_, fun pre hpre => h (c :: pre) (List.cons_prefix_cons.mpr ⟨rfl, hpre⟩)⟩
    rintro rfl
    exact h [] (List.cons_prefix_cons.mpr ⟨rfl, List.nil_prefix⟩)
  · rintro ⟨hfirst, hrest⟩ pre hpre
    cases pre with
    | nil => exact hfirst (List.cons_prefix_cons.mp hpre).1.symm
    | cons e pre =>
      obtain ⟨rfl, htail⟩ := List.cons_prefix_cons.mp hpre
      exact hrest pre htail

theorem map_eq_error_iff {α β : Type} {r : Except Failure α} {f : α → β} {e : Failure} :
    r.map f = .error e ↔ r = .error e := by
  cases r with
  | ok a => exact iff_of_false (fun h => by cases h) (fun h => by cases h)
  | error e' => exact ⟨fun h => by cases h; rfl, fun h => by cases h; rfl⟩

theorem matchBrace_panics_iff {braceCount : UInt32} :
    matchBrace braceCount cs = .error .panicked ↔
      (∀ pre, pre ++ ['\x7d'] <+: cs → braceCount - 1 + depth pre ≠ 0) ∧
        braceCount + depth cs = 0 := by
  have hzero : depth [] = 0 := rfl
  induction cs generalizing braceCount with
  | nil =>
    rw [matchBrace, hzero, UInt32.add_zero]
    split_ifs with hcount
    · refine iff_of_true rfl ⟨fun pre hpre => ?_, hcount⟩
      have hnil := (List.append_eq_nil_iff.mp (List.prefix_nil.mp hpre)).2
      cases hnil
    · refine iff_of_false (fun h => ?_) (fun h => hcount h.2)
      cases h
  | cons c cs ih =>
    rw [forall_prefix_cons_iff, matchBrace, hzero, UInt32.add_zero]
    simp only [depth_cons]
    by_cases hopen : c = '\x7b'
    · subst hopen
      rw [if_pos rfl]
      refine map_eq_error_iff.trans (ih.trans ?_)
      simp only [if_pos, if_neg (show ¬ '\x7b' = '\x7d' by decide)]
      grind
    · rw [if_neg hopen]
      by_cases hclose : c = '\x7d'
      · subst hclose
        rw [if_pos rfl]
        by_cases hcount : braceCount - 1 = 0
        · rw [if_pos hcount]
          exact iff_of_false (fun h => by cases h) (fun h => h.1.1 rfl hcount)
        · rw [if_neg hcount]
          refine map_eq_error_iff.trans (ih.trans ?_)
          simp only [if_pos, if_neg hopen]
          grind
      · rw [if_neg hclose]
        refine map_eq_error_iff.trans (ih.trans ?_)
        simp only [if_neg hopen, if_neg hclose]
        grind

/-! ## The parser -/

/-- The place of `INSERT DATA` in the upper-case text is one of the text, and the first brace behind
it is not open to the end. -/
def BlockInOrder (u : Unicode) (text : List Char) : Prop :=
  ∀ before, IsBefore "INSERT DATA".toList (toUppercase u text) before →
    ∃ start block, text = start ++ block ∧ byteLen start = byteLen before ∧
      ∀ head inside, block = head ++ '\x7b' :: inside → '\x7b' ∉ head → ¬ OpenToTheEnd inside

/-- So is the place of `INSERT`, the loop goes on in front of it, and the block behind it is in
order. -/
def QueryInOrder (u : Unicode) (query : List Char) : Prop :=
  ∀ before, IsBefore "INSERT".toList (toUppercase u query) before →
    ∃ prefixSection rest, query = prefixSection ++ rest ∧ byteLen prefixSection = byteLen before ∧
      LoopGoesOn u prefixSection ∧ BlockInOrder u rest

section Parser

variable {u : Unicode}

theorem eq_of_byteLen_eq {a b c d : List Char} (h : a ++ b = c ++ d)
    (hlen : byteLen a = byteLen c) : a = c ∧ b = d := by
  have hfrom := sliceFrom_append a b
  have hto := sliceTo_append a b
  rw [h, hlen] at hfrom hto
  exact ⟨Option.some.inj (hto.symm.trans (sliceTo_append c d)),
    Option.some.inj (hfrom.symm.trans (sliceFrom_append c d))⟩

theorem isBefore_unique {keyword text before before' : List Char} (h : IsBefore keyword text before)
    (h' : IsBefore keyword text before') : byteLen before' = byteLen before :=
  Option.some.inj ((findBytes_of_isBefore h').symm.trans (findBytes_of_isBefore h))

theorem extractDataBlock_panics_iff (text : List Char) :
    extractDataBlock u text = .error .panicked ↔ ¬ BlockInOrder u text := by
  unfold extractDataBlock
  cases hfind : findBytes "INSERT DATA".toList (toUppercase u text) with
  | none =>
    refine iff_of_false (fun h => by cases h) (not_not.mpr fun before hbefore => ?_)
    rw [findBytes_of_isBefore hbefore] at hfind
    cases hfind
  | some place =>
    obtain ⟨before, hbefore, rfl⟩ := exists_isBefore hfind
    simp only
    cases hslice : sliceFrom (byteLen before) text with
    | none =>
      refine iff_of_true rfl fun horder => ?_
      obtain ⟨start, block, htext, hlen, -⟩ := horder before hbefore
      rw [sliceFrom_eq_some.mpr ⟨start, htext, hlen⟩] at hslice
      cases hslice
    | some block =>
      obtain ⟨start, rfl, hlen⟩ := sliceFrom_eq_some.mp hslice
      -- what has to hold is about this block
      have horder : BlockInOrder u (start ++ block) ↔
          ∀ head inside, block = head ++ '\x7b' :: inside → '\x7b' ∉ head →
            ¬ OpenToTheEnd inside := by
        constructor
        · intro h
          obtain ⟨start', block', htext, hlen', hinside⟩ := h before hbefore
          obtain ⟨rfl, rfl⟩ := eq_of_byteLen_eq htext (hlen.trans hlen'.symm)
          exact hinside
        · intro h before' hbefore'
          exact ⟨start, block, rfl, hlen.trans (isBefore_unique hbefore hbefore').symm, h⟩
      simp only
      rw [horder]
      cases hopen : splitOnce '\x7b' block with
      | none =>
        refine iff_of_false (fun h => by cases h) (not_not.mpr fun head inside hblock _ => ?_)
        have hmem : '\x7b' ∈ block := by
          rw [hblock]
          exact List.mem_append_right head List.mem_cons_self
        exact absurd hmem (splitOnce_eq_none.mp hopen)
      | some p =>
        obtain ⟨head, inside⟩ := p
        obtain ⟨rfl, hhead⟩ := eq_of_splitOnce hopen
        have hpanics : matchBrace 1 inside = .error .panicked ↔ OpenToTheEnd inside := by
          refine matchBrace_panics_iff.trans ?_
          rw [OpenToTheEnd, UInt32.sub_self]
          simp only [UInt32.zero_add]
        refine map_eq_error_iff.trans (hpanics.trans ?_)
        constructor
        · exact fun hopenEnd h => h head inside rfl hhead hopenEnd
        · intro h
          by_contra hclosed
          refine h fun head' inside' heq hhead' => ?_
          have hsame := (splitOnce_append hhead inside).symm.trans
            ((congrArg (splitOnce '\x7b') heq).trans (splitOnce_append hhead' inside'))
          cases hsame
          exact hclosed

/-- **Where the parser panics.** -/
theorem new_panics_iff (query : List Char) :
    InsertParser.new u query = .error .panicked ↔ ¬ QueryInOrder u (trimmed query) := by
  unfold InsertParser.new extractPrefixes
  simp only
  cases hfind : findBytes "INSERT".toList (toUppercase u (trimmed query)) with
  | none =>
    refine iff_of_false (fun h => by cases h) (not_not.mpr fun before hbefore => ?_)
    rw [findBytes_of_isBefore hbefore] at hfind
    cases hfind
  | some place =>
    obtain ⟨before, hbefore, rfl⟩ := exists_isBefore hfind
    simp only
    cases hslice : sliceTo (byteLen before) (trimmed query) with
    | none =>
      refine iff_of_true rfl fun horder => ?_
      obtain ⟨prefixSection, rest, htext, hlen, -⟩ := horder before hbefore
      rw [htext, ← hlen, sliceTo_append] at hslice
      cases hslice
    | some prefixSection =>
      obtain ⟨⟨rest, htext⟩, hlen⟩ := sliceTo_eq_some.mp hslice
      have horder : QueryInOrder u (trimmed query) ↔
          LoopGoesOn u prefixSection ∧ BlockInOrder u rest := by
        constructor
        · intro h
          obtain ⟨prefixSection', rest', htext', hlen', hrest⟩ := h before hbefore
          obtain ⟨rfl, rfl⟩ := eq_of_byteLen_eq (htext.trans htext') (hlen.trans hlen'.symm)
          exact hrest
        · intro h before' hbefore'
          exact ⟨prefixSection, rest, htext.symm,
            hlen.trans (isBefore_unique hbefore hbefore').symm, h⟩
      obtain ⟨hloop, honly⟩ :=
        prefixRounds_panics_iff (u := u) (le_refl (byteLen prefixSection)) standardPrefixes
      simp only
      rw [horder, not_and_or, ← hloop]
      cases hrounds : prefixRounds u (byteLen prefixSection) prefixSection standardPrefixes with
      | error e =>
        rw [honly e hrounds]
        exact iff_of_true rfl (.inl rfl)
      | ok prefixes =>
        have hrest : sliceFrom (byteLen before) (trimmed query) = some rest :=
          sliceFrom_eq_some.mpr ⟨prefixSection, htext.symm, hlen⟩
        rw [or_iff_right (fun h => by cases h), ← extractDataBlock_panics_iff]
        simp only [Except.map, bind, Except.bind, hrest]
        cases hblock : extractDataBlock u rest with
        | error e => exact ⟨fun h => by cases h; rfl, fun h => by cases h; rfl⟩
        | ok block => exact iff_of_false (fun h => by cases h) (fun h => by cases h)

end Parser

end Arcxa.Governance
