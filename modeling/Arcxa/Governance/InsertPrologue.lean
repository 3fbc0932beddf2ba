import Mathlib.Data.List.TakeWhile
import Arcxa.Governance.InsertTokens

/-!
# The prologue and the braces

Slices are in bytes and are taken at places that were counted, so that each of them ends where a
part of the query does. The prefix loop skips what a declaration is long from where the white space
before it begins: with white space it reads the end of the declaration again, or all of it, and
comes to the next one all the same when there is nothing in it to be read.
-/

namespace Arcxa.Governance.Sparql

open Arcxa.Workflow (isWhitespace)
open InsertParser
open PrefixDecl

/-! ## Bytes -/

@[simp] theorem byteLen_nil : byteLen [] = 0 := rfl

@[simp] theorem byteLen_cons (c : Char) (cs : List Char) :
    byteLen (c :: cs) = c.utf8Size + byteLen cs := by
  rw [byteLen, List.map_cons, List.sum_cons]
  rfl

@[simp] theorem byteLen_append (cs ds : List Char) :
    byteLen (cs ++ ds) = byteLen cs + byteLen ds := by
  rw [byteLen, List.map_append, List.sum_append]
  rfl

theorem utf8Size_of_lt {c : Char} (h : c.toNat < 128) : c.utf8Size = 1 := by
  have hc : c.val ≤ 127 := by
    show c.val.toNat ≤ 127
    exact Nat.le_of_lt_succ h
  exact Char.utf8Size_eq_one_iff.mpr hc

theorem byteLen_of_forall_lt {cs : List Char} (h : ∀ c ∈ cs, c.toNat < 128) :
    byteLen cs = cs.length := by
  induction cs with
  | nil => rfl
  | cons c cs ih =>
    obtain ⟨hc, hcs⟩ := List.forall_mem_cons.mp h
    rw [byteLen_cons, utf8Size_of_lt hc, ih hcs, List.length_cons, Nat.add_comm]

theorem exists_byteLen_cons (c : Char) (cs : List Char) : ∃ n, byteLen (c :: cs) = n + 1 ∧
    c.utf8Size ≤ n + 1 ∧ n + 1 - c.utf8Size = byteLen cs := by
  have hpos := c.utf8Size_pos
  refine ⟨c.utf8Size - 1 + byteLen cs, ?_⟩
  rw [byteLen_cons]
  omega

theorem sliceFrom_append (cs ds : List Char) : sliceFrom (byteLen cs) (cs ++ ds) = some ds := by
  induction cs with
  | nil =>
    cases ds <;> rfl
  | cons c cs ih =>
    obtain ⟨n, hlen, hle, hrest⟩ := exists_byteLen_cons c cs
    rw [hlen, List.cons_append, sliceFrom, if_pos hle, hrest, ih]

theorem sliceTo_append (cs ds : List Char) : sliceTo (byteLen cs) (cs ++ ds) = some cs := by
  induction cs with
  | nil =>
    cases ds <;> rfl
  | cons c cs ih =>
    obtain ⟨n, hlen, hle, hrest⟩ := exists_byteLen_cons c cs
    rw [hlen, List.cons_append, sliceTo, if_pos hle, hrest, ih]
    rfl

theorem findBytes_append {pattern cs : List Char} (hborder : Borderless pattern)
    (hcs : ¬ pattern <:+: cs) (ds : List Char) :
    findBytes pattern (cs ++ (pattern ++ ds)) = some (byteLen cs) := by
  induction cs with
  | nil =>
    cases pattern with
    | nil =>
      exact absurd List.nil_infix hcs
    | cons p pattern =>
      rw [List.nil_append, List.cons_append, findBytes, if_pos]
      · rfl
      · exact List.isPrefixOf_iff_prefix.mpr ⟨ds, rfl⟩
  | cons c cs ih =>
    have hnot := not_prefix_of_borderless hborder hcs (List.cons_ne_nil c cs) ds
    rw [List.cons_append] at hnot ⊢
    rw [findBytes, if_neg fun h => hnot (List.isPrefixOf_iff_prefix.mp h),
      ih fun h => hcs (h.trans (List.suffix_cons c cs).isInfix), Option.map_some, byteLen_cons,
      Nat.add_comm]

/-! ## Declarations -/

theorem lt_of_isBlank {c : Char} (h : isBlank c = true) : c.toNat < 128 := by
  simp only [isBlank, Bool.or_eq_true, decide_eq_true_eq] at h
  rcases h with ((rfl | rfl) | rfl) | rfl <;> decide

theorem byteLen_of_blank {gap : List Char} (h : ∀ c ∈ gap, isBlank c = true) :
    byteLen gap = gap.length :=
  byteLen_of_forall_lt fun c hc => lt_of_isBlank (h c hc)

theorem trimStart_gap {gap cs : List Char} (h : ∀ c ∈ gap, isBlank c = true)
    (hcs : ∀ c ∈ cs.head?, isWhitespace c = false) : trimStart (gap ++ cs) = cs :=
  dropWhile_append_of_all (fun c hc => isWhitespace_of_isBlank (h c hc)) hcs

section Prologue

variable {u : Unicode} (hu : ∀ c : Char, c.toNat < 128 → u.toUppercase c = [c.toUpper])

theorem toUppercase_append (cs ds : List Char) :
    toUppercase u (cs ++ ds) = toUppercase u cs ++ toUppercase u ds := List.flatMap_append

variable {cs : List Char}

include hu in
theorem toUppercase_ascii (h : ∀ c ∈ cs, c.toNat < 128) :
    toUppercase u cs = cs.map Char.toUpper := by
  induction cs with
  | nil => rfl
  | cons c cs ih =>
    obtain ⟨hc, hcs⟩ := List.forall_mem_cons.mp h
    show u.toUppercase c ++ toUppercase u cs = _
    rw [hu c hc, ih hcs]
    rfl

variable (d : PrefixDecl)

theorem PrefixDecl.text_append (tail : List Char) : d.text ++ tail =
    "PREFIX".toList ++ (d.beforeName.chars ++ (d.label.chars ++ ':' ::
      (d.beforeIri.chars ++ ('<' :: d.iri.chars ++ '>' :: tail)))) := by
  unfold text
  generalize "PREFIX".toList = keyword
  simp

include hu in
/-- **A declaration is read, and how long it is.** -/
theorem parsePrefix_text (tail : List Char) :
    parsePrefix u (d.text ++ tail) =
      .ok (some (String.ofList d.label.chars, String.ofList d.iri.chars, byteLen d.text)) := by
  have hkeyword : toUppercase u "PREFIX".toList = "PREFIX".toList :=
    toUppercase_ascii hu (by simp)
  have hupper : "PREFIX".toList.isPrefixOf (toUppercase u (d.text ++ tail)) = true := by
    rw [d.text_append, toUppercase_append, hkeyword]
    exact List.isPrefixOf_iff_prefix.mpr (List.prefix_append ..)
  have hslice : sliceFrom 6 (d.text ++ tail) = some (d.beforeName.chars ++ (d.label.chars ++ ':' ::
      (d.beforeIri.chars ++ ('<' :: d.iri.chars ++ '>' :: tail)))) := by
    have hsix : byteLen "PREFIX".toList = 6 := by decide
    rw [d.text_append, ← hsix, sliceFrom_append]
  have hname : trimStart (d.beforeName.chars ++ (d.label.chars ++ ':' ::
      (d.beforeIri.chars ++ ('<' :: d.iri.chars ++ '>' :: tail)))) = d.label.chars ++ ':' ::
        (d.beforeIri.chars ++ ('<' :: d.iri.chars ++ '>' :: tail)) := by
    refine trimStart_gap d.beforeName.blank ?_
    intro c hc
    cases hlabel : d.label.chars with
    | nil =>
      rw [hlabel] at hc
      cases hc
      decide
    | cons c' cs =>
      rw [hlabel] at hc
      cases hc
      exact isWhitespace_of_isNameChar (d.label.plain c (hlabel ▸ List.mem_cons_self)).1
  have hcolon : ':' ∉ d.label.chars := fun hmem => (d.label.plain ':' hmem).2 rfl
  have hiri : trimStart (d.beforeIri.chars ++ ('<' :: d.iri.chars ++ '>' :: tail)) =
      '<' :: d.iri.chars ++ '>' :: tail :=
    trimStart_gap d.beforeIri.blank (by rintro _ ⟨⟩; decide)
  have hclose : '>' ∉ '<' :: d.iri.chars := by
    intro hmem
    rcases List.mem_cons.mp hmem with heq | hmem
    · exact absurd heq (by decide)
    · exact absurd (d.iri.plain '>' hmem) (by decide)
  have hopen : splitOnce '<' ('<' :: d.iri.chars ++ '>' :: tail) =
      some ([], d.iri.chars ++ '>' :: tail) := rfl
  have hlabel : trimmed d.label.chars = d.label.chars :=
    trimmed_self
      (fun c hc => isWhitespace_of_isNameChar (d.label.plain c (List.mem_of_head? hc)).1)
      (fun c hc => isWhitespace_of_isNameChar (d.label.plain c (List.mem_of_getLast? hc)).1)
  have hlen : byteLen (d.text ++ tail) - byteLen ('<' :: d.iri.chars ++ '>' :: tail) +
      byteLen ('<' :: d.iri.chars) + 1 = byteLen d.text := by
    have hbracket : ('>' : Char).utf8Size = 1 := rfl
    unfold text
    generalize "PREFIX".toList = keyword
    simp only [byteLen_append, byteLen_cons, byteLen_nil, hbracket]
    omega
  unfold parsePrefix
  rw [if_pos hupper, hslice]
  simp only [hname, splitOnce_append hcolon, hiri, hopen, splitOnce_append hclose]
  rw [if_neg (by simp), hlabel, hlen]
  rfl

theorem PrefixDecl.byteLen_pos : 0 < byteLen d.text := by
  obtain ⟨before, hbefore⟩ : ∃ before, d.text = before ++ ['>'] := ⟨_, rfl⟩
  have hbracket : byteLen ['>'] = 1 := rfl
  rw [hbefore, byteLen_append, hbracket]
  omega

theorem isWhitespace_of_head_text (tail : List Char) :
    ∀ c ∈ (d.text ++ tail).head?, isWhitespace c = false := by
  rw [d.text_append]
  rintro _ ⟨⟩
  decide

include hu in
theorem prefixRounds_text {gap : List Char} (hgap : ∀ c ∈ gap, isBlank c = true)
    {tail left : List Char}
    (hleft : sliceFrom (byteLen d.text) (gap ++ (d.text ++ tail)) = some left) (rounds : Nat)
    (prefixes : BTreeMap String String) :
    prefixRounds u (rounds + 1) (gap ++ (d.text ++ tail)) prefixes = prefixRounds u rounds left
      (prefixes.insert (String.ofList d.label.chars) (String.ofList d.iri.chars)) := by
  have htrim := trimStart_gap hgap (isWhitespace_of_head_text d tail)
  have hne : (d.text ++ tail).isEmpty = false := by
    rw [d.text_append]
    rfl
  rw [prefixRounds, htrim, if_neg (by rw [hne]; decide), parsePrefix_text hu]
  simp only [hleft]

/-- What can be gone over again, a byte at a time, with nothing read. -/
structure Harmless (cs : List Char) : Prop where
  ascii : ∀ c ∈ cs, c.toNat < 128
  plain : ¬ "PREFIX".toList <:+: cs.map Char.toUpper
  close : ∀ c ∈ cs.getLast?, c = '>'

theorem Harmless.of_suffix {cs ds : List Char} (h : Harmless cs) (hsuffix : ds <:+ cs) :
    Harmless ds where
  ascii c hc := h.ascii c (hsuffix.subset hc)
  plain hcopy := h.plain (hcopy.trans (hsuffix.map Char.toUpper).isInfix)
  close c hc := by
    obtain ⟨before, rfl⟩ := hsuffix
    apply h.close
    rw [List.getLast?_append, Option.mem_def.mp hc]
    rfl

theorem Harmless.trimStart_ne_nil (h : Harmless cs) (hne : cs ≠ []) : trimStart cs ≠ [] := by
  intro hnil
  have hlast : cs.getLast hne = '>' := h.close _ (List.getLast?_eq_some_getLast hne)
  have hspace := List.dropWhile_eq_nil_iff.mp hnil (cs.getLast hne) (List.getLast_mem hne)
  rw [hlast] at hspace
  cases hspace

include hu in
theorem Harmless.not_keyword (h : Harmless cs) (hne : cs ≠ []) (tail : List Char) :
    ¬ "PREFIX".toList <+: toUppercase u (cs ++ tail) := by
  rw [toUppercase_append, toUppercase_ascii hu h.ascii]
  intro hpre
  rcases le_or_gt "PREFIX".toList.length (cs.map Char.toUpper).length with hle | hlt
  · exact h.plain ((List.isPrefix_append_of_length hle).mp hpre).isInfix
  · -- the last character would be one of the keyword
    have hstart := List.prefix_of_prefix_length_le (List.prefix_append (cs.map Char.toUpper) _) hpre
      hlt.le
    have hlast : cs.getLast hne = '>' := h.close _ (List.getLast?_eq_some_getLast hne)
    have hmem : Char.toUpper '>' ∈ cs.map Char.toUpper :=
      List.mem_map_of_mem (hlast ▸ List.getLast_mem hne)
    exact absurd (hstart.subset hmem) (by decide)

include hu in
theorem prefixRounds_harmless (h : Harmless cs) (tail : List Char) (rounds : Nat)
    (prefixes : BTreeMap String String) :
    prefixRounds u (rounds + cs.length) (cs ++ tail) prefixes =
      prefixRounds u rounds tail prefixes := by
  induction cs with
  | nil => rfl
  | cons c cs ih =>
    -- white space in front is cut off for the look, but not skipped
    have hne := h.trimStart_ne_nil (List.cons_ne_nil c cs)
    have hempty : (trimStart (c :: cs)).isEmpty = false := List.isEmpty_eq_false_iff.mpr hne
    have hstart : trimStart (c :: cs ++ tail) = trimStart (c :: cs) ++ tail := by
      unfold trimStart at hempty ⊢
      rw [List.dropWhile_append, hempty, if_neg (by decide)]
    have hleft : (trimStart (c :: cs) ++ tail).isEmpty = false :=
      List.isEmpty_eq_false_iff.mpr fun hnil => hne (List.append_eq_nil_iff.mp hnil).1
    have hnone : parsePrefix u (trimStart (c :: cs) ++ tail) = .ok none := by
      have hsuffix : trimStart (c :: cs) <:+ c :: cs := List.dropWhile_suffix _
      have hnot := (h.of_suffix hsuffix).not_keyword hu hne tail
      rw [parsePrefix, if_neg fun hpre => hnot (List.isPrefixOf_iff_prefix.mp hpre)]
    have hslice : sliceFrom 1 (c :: cs ++ tail) = some (cs ++ tail) := by
      have hone : byteLen [c] = 1 := utf8Size_of_lt (h.ascii c (List.mem_cons_self ..))
      rw [← hone]
      exact sliceFrom_append [c] (cs ++ tail)
    rw [List.length_cons, ← Nat.add_assoc, prefixRounds, hstart, hleft,
      if_neg (by decide), hnone]
    simp only [hslice]
    exact ih (h.of_suffix (List.suffix_cons c cs))

theorem PrefixDecl.length_again {d : PrefixDecl} {w : Nat} (hw : w < byteLen d.text)
    (hascii : ∀ c ∈ d.again w, c.toNat < 128) : (d.again w).length = w := by
  rw [again, Nat.mod_eq_of_lt hw] at hascii ⊢
  rw [List.length_drop]
  rcases le_or_gt w d.text.length with hle | hlt
  · omega
  · -- all of the declaration, which then has as many bytes as characters
    rw [Nat.sub_eq_zero_of_le hlt.le, List.drop_zero] at hascii
    have hlen := byteLen_of_forall_lt hascii
    omega

theorem PrefixDecl.harmless_again {d : PrefixDecl} {w : Nat}
    (hascii : ∀ c ∈ d.again w, c.toNat < 128)
    (hplain : ¬ "PREFIX".toList <:+: (d.again w).map Char.toUpper) : Harmless (d.again w) where
  ascii := hascii
  plain := hplain
  close c hc := by
    have hlast : d.text.getLast? = some '>' := List.getLast?_concat
    rw [again, List.getLast?_drop, hlast] at hc
    split_ifs at hc
    · cases hc
    · cases hc
      rfl

theorem sliceFrom_short {gap : List Char} (hgap : ∀ c ∈ gap, isBlank c = true)
    (hlt : gap.length < byteLen d.text) (hascii : ∀ c ∈ d.again gap.length, c.toNat < 128)
    (tail : List Char) : sliceFrom (byteLen d.text) (gap ++ (d.text ++ tail)) =
      some (d.again gap.length ++ tail) := by
  obtain ⟨before, hbefore⟩ : d.again gap.length <:+ d.text := List.drop_suffix _ _
  have hlen : byteLen d.text = byteLen (gap ++ before) := by
    have hagain := byteLen_of_forall_lt hascii
    rw [length_again hlt hascii] at hagain
    have hsum : byteLen d.text = byteLen before + byteLen (d.again gap.length) := by
      rw [← byteLen_append, hbefore]
    rw [byteLen_append, byteLen_of_blank hgap]
    omega
  have hsplit : gap ++ (d.text ++ tail) = gap ++ before ++ (d.again gap.length ++ tail) := by
    rw [← hbefore]
    simp
  rw [hlen, hsplit, sliceFrom_append]

theorem sliceFrom_long {gap : List Char} (hgap : ∀ c ∈ gap, isBlank c = true)
    (hle : byteLen d.text ≤ gap.length) (tail : List Char) :
    sliceFrom (byteLen d.text) (gap ++ (d.text ++ tail)) =
      some (gap.drop (byteLen d.text) ++ (d.text ++ tail)) := by
  have hlen : byteLen (gap.take (byteLen d.text)) = byteLen d.text := by
    rw [byteLen_of_blank fun c hc => hgap c (List.mem_of_mem_take hc), List.length_take,
      min_eq_left hle]
  have hsplit : gap ++ (d.text ++ tail) =
      gap.take (byteLen d.text) ++ (gap.drop (byteLen d.text) ++ (d.text ++ tail)) := by
    rw [← List.append_assoc (gap.take _), List.take_append_drop]
  calc sliceFrom (byteLen d.text) (gap ++ (d.text ++ tail))
      = sliceFrom (byteLen (gap.take (byteLen d.text)))
          (gap.take (byteLen d.text) ++ (gap.drop (byteLen d.text) ++ (d.text ++ tail))) := by
        rw [hlen, ← hsplit]
    _ = some (gap.drop (byteLen d.text) ++ (d.text ++ tail)) := sliceFrom_append _ _

def declare (prefixes : BTreeMap String String) (decls : List PrefixDecl) :
    BTreeMap String String :=
  decls.foldl (fun m d => m.insert (String.ofList d.label.chars) (String.ofList d.iri.chars))
    prefixes

include hu in
/-- **The loop reads every declaration**, however much white space there is between them. -/
theorem prefixRounds_prologue {decls : List PrefixDecl} {gap : List Char}
    (hgap : ∀ c ∈ gap, isBlank c = true) (hagain : AgainPlain gap.length decls) {rounds : Nat}
    (hrounds : byteLen (gap ++ prologue decls) ≤ rounds) (prefixes : BTreeMap String String) :
    prefixRounds u rounds (gap ++ prologue decls) prefixes = .ok (declare prefixes decls) := by
  induction decls generalizing gap rounds prefixes with
  | nil =>
    cases rounds with
    | zero => rfl
    | succ rounds =>
      have htrim : trimStart (gap ++ []) = [] := trimStart_gap hgap nofun
      rw [prologue, List.flatMap_nil, prefixRounds, htrim, if_pos (by decide)]
      rfl
  | cons d decls ih =>
    have hprologue : prologue (d :: decls) = d.text ++ (d.after.chars ++ prologue decls) := by
      rw [prologue, List.flatMap_cons, List.append_assoc]
      rfl
    have hpos : 0 < byteLen d.text := d.byteLen_pos
    -- as long as all of the declaration is read again, there is less white space each time
    induction hw : gap.length using Nat.strong_induction_on generalizing gap rounds prefixes with
    | _ w ihw =>
      obtain ⟨⟨hascii, hplain⟩, hafter⟩ := hagain
      have hlen := byteLen_of_blank hgap
      rw [hprologue, byteLen_append, byteLen_append] at hrounds
      cases rounds with
      | zero => omega
      | succ rounds =>
        rw [hprologue]
        rcases Nat.lt_or_ge w (byteLen d.text) with hlt | hle
        · -- the end of the declaration is read again
          subst hw
          have hharmless := harmless_again hascii hplain
          rw [prefixRounds_text hu d hgap (sliceFrom_short d hgap hlt hascii _)]
          obtain ⟨rounds, rfl⟩ := Nat.exists_eq_add_of_le'
            (show (d.again gap.length).length ≤ rounds by
              rw [length_again hlt hascii]
              omega)
          rw [prefixRounds_harmless hu hharmless]
          apply ih d.after.blank hafter
          rw [length_again hlt hascii] at hrounds
          rw [byteLen_append] at hrounds ⊢
          omega
        · -- the whole declaration is
          subst hw
          have hdrop : (gap.drop (byteLen d.text)).length = gap.length - byteLen d.text :=
            List.length_drop
          have hsame : d.again (gap.drop (byteLen d.text)).length = d.again gap.length := by
            rw [again, again, hdrop, ← Nat.mod_eq_sub_mod hle]
          have hblank : ∀ c ∈ gap.drop (byteLen d.text), isBlank c = true :=
            fun c hc => hgap c (List.mem_of_mem_drop hc)
          have hagain : AgainPlain (gap.drop (byteLen d.text)).length (d :: decls) := by
            refine ⟨?_, hafter⟩
            rw [hsame]
            exact ⟨hascii, hplain⟩
          have hless : (gap.drop (byteLen d.text)).length < gap.length := by omega
          have hrounds' :
              byteLen (gap.drop (byteLen d.text) ++ prologue (d :: decls)) ≤ rounds := by
            rw [hprologue, byteLen_append, byteLen_append, byteLen_of_blank hblank, hdrop]
            omega
          have hrest := ihw _ hless hblank hagain hrounds'
            (prefixes.insert (String.ofList d.label.chars) (String.ofList d.iri.chars)) rfl
          rw [prefixRounds_text hu d hgap (sliceFrom_long d hgap hle _), ← hprologue, hrest,
            declare, List.foldl_cons, BTreeMap.insert_insert]
          rfl

/-- **The map has the last declaration of every prefix**, or a standard one. -/
theorem get_declare (decls : List PrefixDecl) (label : List Char) :
    (declare standardPrefixes decls).get (String.ofList label) = resolve decls label := by
  induction decls using List.reverseRecOn with
  | nil => rfl
  | append_singleton decls d ih =>
    rw [declare, List.foldl_append, List.foldl_cons, List.foldl_nil, BTreeMap.get_insert, resolve,
      List.reverse_append, List.reverse_singleton, List.singleton_append, List.find?_cons]
    by_cases hlabel : d.label.chars = label
    · rw [if_pos (by rw [hlabel])]
      simp [hlabel]
    · rw [if_neg fun heq => hlabel (String.ofList_injective heq).symm]
      rw [decide_eq_false hlabel]
      exact ih

/-! ## The keyword -/

include hu in
theorem toUppercase_keyword (h : ∀ c ∈ cs, c.toNat < 128) (hupper : cs.map Char.toUpper = cs)
    (rest : List Char) : toUppercase u (cs ++ rest) = cs ++ toUppercase u rest := by
  rw [toUppercase_append, toUppercase_ascii hu h, hupper]

include hu in
/-- **The keyword is found where the prologue ends**, and the prologue is read. -/
theorem extractPrefixes_text {decls : List PrefixDecl} (hagain : AgainPlain 0 decls)
    (hlen : byteLen (toUppercase u (prologue decls)) = byteLen (prologue decls))
    (hfirst : ¬ "INSERT".toList <:+: toUppercase u (prologue decls)) (rest : List Char) :
    extractPrefixes u (prologue decls ++ ("INSERT".toList ++ rest)) =
      .ok (declare standardPrefixes decls, byteLen (prologue decls)) := by
  have hfind : findBytes "INSERT".toList
      (toUppercase u (prologue decls ++ ("INSERT".toList ++ rest))) =
        some (byteLen (prologue decls)) := by
    rw [toUppercase_append, toUppercase_keyword hu (by simp) (by simp),
      findBytes_append (by decide) hfirst, hlen]
  have hloop : prefixRounds u (byteLen (prologue decls)) (prologue decls) standardPrefixes =
      .ok (declare standardPrefixes decls) :=
    @prefixRounds_prologue u hu decls [] nofun hagain _ le_rfl standardPrefixes
  unfold extractPrefixes
  rw [hfind]
  simp only [sliceTo_append, hloop]
  rfl

/-! ## Braces -/

theorem depth_cons (c : Char) (cs : List Char) : depth (c :: cs) =
    depth cs + (if c = '\x7b' then 1 else 0) - (if c = '\x7d' then 1 else 0) := by
  simp only [depth, List.count_cons, beq_iff_eq, UInt32.ofNat_add]
  split_ifs <;> grind

theorem matchBrace_text {braceCount : UInt32}
    (hinside : ∀ pre, pre ++ ['\x7d'] <+: cs → braceCount - 1 + depth pre ≠ 0)
    (hend : braceCount - 1 + depth cs = 0) (after : List Char) :
    matchBrace braceCount (cs ++ '\x7d' :: after) = .ok cs := by
  induction cs generalizing braceCount with
  | nil =>
    have hclose : braceCount - 1 = 0 := by
      have hzero : depth [] = 0 := rfl
      rw [← hend, hzero]
      grind
    rw [List.nil_append, matchBrace, if_neg (by decide), if_pos rfl, if_pos hclose]
  | cons c cs ih =>
    have hrest : matchBrace (braceCount + (if c = '\x7b' then 1 else 0) -
        (if c = '\x7d' then 1 else 0)) (cs ++ '\x7d' :: after) = .ok cs := by
      apply ih
      · intro pre hpre
        have hne := hinside (c :: pre) (List.cons_prefix_cons.mpr ⟨rfl, hpre⟩)
        rw [depth_cons] at hne
        grind
      · rw [depth_cons] at hend
        grind
    rw [List.cons_append, matchBrace]
    by_cases hopen : c = '\x7b'
    · subst hopen
      rw [if_pos rfl, if_neg (by decide), UInt32.sub_zero] at hrest
      rw [if_pos rfl, hrest]
      rfl
    · rw [if_neg hopen, UInt32.add_zero] at hrest
      rw [if_neg hopen]
      by_cases hclose : c = '\x7d'
      · subst hclose
        have hne : braceCount - 1 ≠ 0 := by
          have hfirst := hinside [] (List.cons_prefix_cons.mpr ⟨rfl, List.nil_prefix⟩)
          have hzero : depth [] = 0 := rfl
          rwa [hzero, UInt32.add_zero] at hfirst
        rw [if_pos rfl] at hrest
        rw [if_pos rfl, if_neg hne, hrest]
        rfl
      · rw [if_neg hclose, UInt32.sub_zero] at hrest
        rw [if_neg hclose, hrest]
        rfl

theorem matchBrace_block (h : Balanced cs) (after : List Char) :
    matchBrace 1 (cs ++ '\x7d' :: after) = .ok cs := by
  apply matchBrace_text
  · intro pre hpre
    have hmem : pre ∈ cs.inits := (List.mem_inits ..).mpr ((List.prefix_append ..).trans hpre)
    have hne := h.1 pre hmem hpre
    grind
  · have hzero := h.2
    grind

include hu in
/-- **The block is what stands between the braces**, trimmed. -/
theorem extractDataBlock_text {gap block : List Char} (hgap : ∀ c ∈ gap, isBlank c = true)
    (hblock : Balanced block) (after : List Char) :
    extractDataBlock u ("INSERT DATA".toList ++ (gap ++ '\x7b' :: (block ++ '\x7d' :: after))) =
      .ok (trimmed block) := by
  have hfind : findBytes "INSERT DATA".toList (toUppercase u
      ("INSERT DATA".toList ++ (gap ++ '\x7b' :: (block ++ '\x7d' :: after)))) = some 0 := by
    rw [toUppercase_keyword hu (by simp) (by simp)]
    exact @findBytes_append "INSERT DATA".toList [] (by decide) (by decide) _
  have hopen : '\x7b' ∉ "INSERT DATA".toList ++ gap := by
    intro hmem
    rcases List.mem_append.mp hmem with hkeyword | hspace
    · exact absurd hkeyword (by decide)
    · exact absurd (hgap _ hspace) (by decide)
  unfold extractDataBlock
  rw [hfind]
  simp only [sliceFrom]
  rw [← List.append_assoc, splitOnce_append hopen]
  simp only [matchBrace_block hblock]
  rfl

end Prologue

end Arcxa.Governance.Sparql
