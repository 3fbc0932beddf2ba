import Arcxa.Governance.InsertPrologue
import Arcxa.Transformation.Expression

/-!
# LIKE

`match_like_pattern` looks for the parts of a pattern between its `%` from the left, each at its
first place behind the one before. Nothing is lost by taking the first place, because the text left
over only gets longer (`Follows.prepend`). The matcher is exact, and its slices are in order
(`matchLikePattern_exact`).
-/

namespace Arcxa.Transformation

open Governance (byteLen findBytes sliceFrom)
open Governance.Sparql (byteLen_append byteLen_cons sliceFrom_append)

/-! ## The language of a pattern -/

/-- A text is obtained from a pattern by writing something for each `%`. -/
inductive Obtained : List Char → List Char → Prop where
  | nil : Obtained [] []
  | char {c : Char} {pattern text : List Char} (hc : c ≠ '%') (h : Obtained pattern text) :
      Obtained (c :: pattern) (c :: text)
  | wildcard {pattern text : List Char} (fill : List Char) (h : Obtained pattern text) :
      Obtained ('%' :: pattern) (fill ++ text)

/-- The parts follow in the text, each behind something, and the last one ends it. -/
def Follows : List (List Char) → List Char → Prop
  | [], text => text = []
  | part :: parts, text => ∃ fill rest, text = fill ++ (part ++ rest) ∧ Follows parts rest

variable {parts : List (List Char)}

theorem Follows.prepend {text : List Char} (hne : parts ≠ []) (h : Follows parts text)
    (before : List Char) : Follows parts (before ++ text) := by
  cases parts with
  | nil => exact absurd rfl hne
  | cons part parts =>
    obtain ⟨fill, rest, rfl, hrest⟩ := h
    exact ⟨before ++ fill, rest, (List.append_assoc ..).symm, hrest⟩

theorem obtained_iff {pattern text first : List Char}
    (hsplit : pattern.splitOn '%' = first :: parts) :
    Obtained pattern text ↔ ∃ rest, text = first ++ rest ∧ Follows parts rest := by
  induction pattern generalizing text first parts with
  | nil =>
    rw [List.splitOn_nil] at hsplit
    cases hsplit
    constructor
    · rintro ⟨⟩
      exact ⟨[], rfl, rfl⟩
    · rintro ⟨rest, rfl, rfl⟩
      exact .nil
  | cons c pattern ih =>
    obtain ⟨next, others, hrest⟩ := List.exists_cons_of_ne_nil (List.splitOn_ne_nil '%' pattern)
    rw [List.splitOn_cons_eq_if_modifyHead, hrest] at hsplit
    split_ifs at hsplit with hc
    · obtain rfl : c = '%' := beq_iff_eq.mp hc
      cases hsplit
      constructor
      · intro h
        cases h with
        | char hne => exact absurd rfl hne
        | wildcard fill h =>
          obtain ⟨rest, rfl, hfollows⟩ := (ih hrest).mp h
          exact ⟨_, rfl, fill, rest, rfl, hfollows⟩
      · rintro ⟨_, rfl, fill, rest, rfl, hfollows⟩
        exact .wildcard fill ((ih hrest).mpr ⟨rest, rfl, hfollows⟩)
    · have hne : c ≠ '%' := fun heq => hc (beq_iff_eq.mpr heq)
      cases hsplit
      constructor
      · intro h
        cases h with
        | char _ h =>
          obtain ⟨rest, rfl, hfollows⟩ := (ih hrest).mp h
          exact ⟨rest, rfl, hfollows⟩
        | wildcard => exact absurd rfl hne
      · rintro ⟨rest, rfl, hfollows⟩
        exact .char hne ((ih hrest).mpr ⟨rest, rfl, hfollows⟩)

/-! ## The first place of a part -/

theorem afterFirst_spec (part text : List Char) :
    (afterFirst part text = none ∧ findBytes part text = none ∧
      ∀ fill rest, text ≠ fill ++ (part ++ rest)) ∨
    ∃ before after, text = before ++ (part ++ after) ∧ afterFirst part text = some after ∧
      findBytes part text = some (byteLen before) ∧
      ∀ fill rest, text = fill ++ (part ++ rest) → rest <:+ after := by
  induction text with
  | nil =>
    rw [afterFirst, findBytes]
    cases part with
    | nil => exact .inr ⟨[], [], rfl, rfl, rfl, fun fill rest h => by simp_all⟩
    | cons c part => exact .inl ⟨rfl, rfl, fun fill rest h => by simp at h⟩
  | cons c text ih =>
    rw [afterFirst, findBytes]
    by_cases hprefix : part.isPrefixOf (c :: text)
    · obtain ⟨after, hafter⟩ := List.isPrefixOf_iff_prefix.mp hprefix
      refine .inr ⟨[], after, hafter.symm, ?_, if_pos hprefix, fun fill rest h => ?_⟩
      · rw [if_pos hprefix, ← hafter, List.drop_left]
      · -- an occurrence further on leaves less
        have hlength := congrArg List.length (hafter.trans h)
        have hsuffix : rest <:+ part ++ after := by
          rw [hafter, h]
          exact (List.suffix_append part rest).trans (List.suffix_append fill _)
        simp only [List.length_append] at hlength
        exact List.suffix_of_suffix_length_le hsuffix (List.suffix_append part after) (by omega)
    · rw [if_neg hprefix, if_neg hprefix]
      have hlater : ∀ fill rest, c :: text = fill ++ (part ++ rest) →
          ∃ fill', text = fill' ++ (part ++ rest) := by
        intro fill rest h
        cases fill with
        | nil =>
          refine absurd (List.isPrefixOf_iff_prefix.mpr ?_) hprefix
          exact ⟨rest, h.symm⟩
        | cons d fill => exact ⟨fill, (List.cons.inj h).2⟩
      obtain ⟨hafter, hfind, hnone⟩ | ⟨before, after, rfl, hafter, hfind, hfirst⟩ := ih
      · refine .inl ⟨hafter, by rw [hfind]; rfl, fun fill rest h => ?_⟩
        obtain ⟨fill', h'⟩ := hlater fill rest h
        exact hnone fill' rest h'
      · refine .inr ⟨c :: before, after, rfl, hafter, ?_, fun fill rest h => ?_⟩
        · rw [hfind, byteLen_cons, Option.map_some, Nat.add_comm]
        · obtain ⟨fill', h'⟩ := hlater fill rest h
          exact hfirst fill' rest h'

/-! ## The loop -/

theorem matchParts_iff {starts ends : Bool} {text : List Char} {i : Nat}
    (hi : ¬ (i = 0 ∧ (!starts) = true)) (hne : parts ≠ [])
    (hends : ends = true ↔ parts.getLast? = some []) :
    matchParts starts ends i parts text = true ↔ Follows parts text := by
  induction parts generalizing text i with
  | nil => exact absurd rfl hne
  | cons part parts ih =>
    have hi' : ¬ (i + 1 = 0 ∧ (!starts) = true) := fun h => absurd h.1 (Nat.succ_ne_zero i)
    rw [matchParts]
    cases parts with
    | nil =>
      rw [List.getLast?_singleton, Option.some.injEq] at hends
      cases hpart : part.isEmpty with
      | true =>
        obtain rfl := List.isEmpty_iff.mp hpart
        exact iff_of_true rfl ⟨text, [], by simp, rfl⟩
      | false =>
        have hlast : ends = false := by
          rw [← Bool.not_eq_true, hends]
          rintro rfl
          cases hpart
        rw [if_neg Bool.false_ne_true, if_neg hi, if_pos ⟨rfl, by rw [hlast]; rfl⟩,
          List.isSuffixOf_iff_suffix]
        constructor
        · rintro ⟨fill, rfl⟩
          exact ⟨fill, [], by rw [List.append_nil], rfl⟩
        · rintro ⟨fill, rest, rfl, rfl⟩
          exact ⟨fill, by rw [List.append_nil]⟩
    | cons next others =>
      rw [List.getLast?_cons_cons] at hends
      have hothers : ∀ text, matchParts starts ends (i + 1) (next :: others) text = true ↔
          Follows (next :: others) text := fun text => ih hi' (List.cons_ne_nil _ _) hends
      split_ifs with hpart hlast
      · obtain rfl := List.isEmpty_iff.mp hpart
        rw [hothers]
        constructor
        · exact fun h => ⟨[], text, rfl, h⟩
        · rintro ⟨fill, rest, rfl, h⟩
          exact h.prepend (List.cons_ne_nil _ _) fill
      · exact absurd hlast.1 Bool.false_ne_true
      · obtain ⟨hnone, -, hno⟩ | ⟨before, after, rfl, hafter, -, hfirst⟩ :=
          afterFirst_spec part text
        · rw [hnone]
          refine iff_of_false Bool.false_ne_true ?_
          rintro ⟨fill, rest, htext, -⟩
          exact hno fill rest htext
        · rw [hafter]
          dsimp only
          rw [hothers]
          constructor
          · exact fun h => ⟨before, after, rfl, h⟩
          · rintro ⟨fill, rest, htext, h⟩
            -- the first place leaves all that any other place leaves
            obtain ⟨more, rfl⟩ := hfirst fill rest htext
            exact h.prepend (List.cons_ne_nil _ _) more

/-! ## Slices -/

section Slices

variable (startsWithWildcard endsWithWildcard : Bool) (text : List Char)

/-- The loop with its position in bytes; `none` is a panic. -/
def matchPartsFrom : Nat → Nat → List (List Char) → Option Bool
  | _, _, [] => some true
  | i, pos, part :: parts =>
    if part.isEmpty then matchPartsFrom (i + 1) pos parts
    else if i = 0 ∧ !startsWithWildcard then
      if part.isPrefixOf text then matchPartsFrom (i + 1) (byteLen part) parts else some false
    else if parts.isEmpty ∧ !endsWithWildcard then
      (sliceFrom pos text).map fun rest => part.isSuffixOf rest
    else
      (sliceFrom pos text).bind fun rest =>
        match findBytes part rest with
        | some idx => matchPartsFrom (i + 1) (pos + (idx + byteLen part)) parts
        | none => some false

end Slices

/-- `match_like_pattern` with the slices that it takes. -/
def matchLikeSlices (text pattern : String) : Option Bool :=
  if '%' ∈ pattern.toList then
    matchPartsFrom (pattern.toList.head? = some '%') (pattern.toList.getLast? = some '%')
      text.toList 0 0 (pattern.toList.splitOn '%')
  else some (text = pattern)

theorem matchPartsFrom_eq {starts ends : Bool} {text rest before : List Char} {i pos : Nat}
    (htext : text = before ++ rest) (hpos : pos = byteLen before) (hi : i = 0 → before = []) :
    matchPartsFrom starts ends text i pos parts = some (matchParts starts ends i parts rest) := by
  induction parts generalizing i pos before rest with
  | nil => rfl
  | cons part parts ih =>
    have hi' : ∀ before : List Char, i + 1 = 0 → before = [] :=
      fun _ h => absurd h (Nat.succ_ne_zero i)
    have hslice : sliceFrom pos text = some rest := by
      rw [htext, hpos, sliceFrom_append]
    rw [matchPartsFrom, matchParts]
    by_cases hpart : part.isEmpty = true
    · rw [if_pos hpart, if_pos hpart]
      exact ih htext hpos (hi' before)
    rw [if_neg hpart, if_neg hpart]
    by_cases hstart : i = 0 ∧ (!starts) = true
    · obtain rfl := hi hstart.1
      obtain rfl : text = rest := htext
      rw [if_pos hstart, if_pos hstart]
      by_cases hprefix : part.isPrefixOf text = true
      · obtain ⟨after, rfl⟩ := List.isPrefixOf_iff_prefix.mp hprefix
        rw [if_pos hprefix, hprefix, Bool.true_and, List.drop_left]
        exact ih rfl rfl (hi' part)
      · rw [if_neg hprefix, Bool.eq_false_of_not_eq_true hprefix, Bool.false_and]
    rw [if_neg hstart, if_neg hstart]
    by_cases hlast : parts.isEmpty = true ∧ (!ends) = true
    · rw [if_pos hlast, if_pos hlast, hslice]
      rfl
    rw [if_neg hlast, if_neg hlast, hslice, Option.bind_some]
    obtain ⟨hnone, hfind, -⟩ | ⟨skipped, after, rfl, hafter, hfind, -⟩ :=
      afterFirst_spec part rest
    · rw [hnone, hfind]
    · rw [hafter, hfind]
      dsimp only
      have hrest : text = (before ++ (skipped ++ part)) ++ after := by
        rw [htext]
        simp only [List.append_assoc]
      refine ih hrest ?_ (hi' _)
      rw [hpos, byteLen_append, byteLen_append]

theorem splitOn_wildcard {pattern : List Char} (h : '%' ∈ pattern) :
    ∃ first parts, pattern.splitOn '%' = first :: parts ∧ parts ≠ [] ∧
      (pattern.head? = some '%' ↔ first = []) ∧
      (pattern.getLast? = some '%' ↔ parts.getLast? = some []) := by
  obtain ⟨first, after, hcut⟩ := exists_splitOnce h
  obtain ⟨hfirst, hnotFirst⟩ := eq_of_splitOnce hcut
  obtain ⟨before, last, hlast, hnotLast⟩ := exists_last_separator h
  have hsplit : pattern.splitOn '%' = first :: after.splitOn '%' := by
    rw [hfirst, List.splitOn_append_cons_self_of_not_mem hnotFirst]
  have hsplitLast : pattern.splitOn '%' = before.splitOn '%' ++ [last] := by
    rw [hlast, List.splitOn_append_cons_self, List.splitOn_eq_singleton hnotLast]
  have hne : after.splitOn '%' ≠ [] := List.splitOn_ne_nil '%' after
  refine ⟨first, after.splitOn '%', hsplit, hne, ?_, ?_⟩
  · rw [hfirst]
    cases first with
    | nil => exact iff_of_true rfl rfl
    | cons c first =>
      refine iff_of_false (fun hc => ?_) (List.cons_ne_nil c first)
      obtain rfl := Option.some.inj hc
      exact hnotFirst List.mem_cons_self
  · have hparts : (after.splitOn '%').getLast? = some last := by
      rw [← List.getLast?_cons_of_ne_nil hne, ← hsplit, hsplitLast, List.getLast?_concat]
    rw [hparts, hlast, Option.some.injEq]
    rcases List.eq_nil_or_concat last with rfl | ⟨init, c, rfl⟩
    · exact iff_of_true List.getLast?_concat rfl
    · refine iff_of_false (fun hc => ?_) (by simp)
      have hmem : c ∈ init.concat c := by simp
      rw [List.concat_eq_append, ← List.cons_append, ← List.append_assoc,
        List.getLast?_concat] at hc
      obtain rfl := Option.some.inj hc
      exact hnotLast hmem

/-- **LIKE is exact**, and no slice is out of order. -/
theorem matchLikePattern_exact (text pattern : String) :
    matchLikeSlices text pattern = some (matchLikePattern text pattern) ∧
      (matchLikePattern text pattern = true ↔ Obtained pattern.toList text.toList) := by
  constructor
  · unfold matchLikeSlices matchLikePattern
    split_ifs with hwildcard
    · exact matchPartsFrom_eq rfl rfl fun _ => rfl
    · rfl
  rw [matchLikePattern]
  split_ifs with hwildcard
  · obtain ⟨first, parts, hsplit, hne, hstarts, hends⟩ := splitOn_wildcard hwildcard
    have hparts : ∀ rest, matchParts (pattern.toList.head? = some '%')
        (pattern.toList.getLast? = some '%') 1 parts rest = true ↔ Follows parts rest := fun rest =>
      matchParts_iff (fun h => absurd h.1 Nat.one_ne_zero) hne (decide_eq_true_iff.trans hends)
    rw [obtained_iff hsplit, hsplit, matchParts]
    by_cases hfirst : first = []
    · subst hfirst
      rw [if_pos List.isEmpty_nil, hparts]
      simp
    · have hstart : (!decide (pattern.toList.head? = some '%')) = true := by
        rw [Bool.not_eq_true', decide_eq_false_iff_not, hstarts]
        exact hfirst
      rw [if_neg (by simpa using hfirst), if_pos ⟨rfl, hstart⟩, Bool.and_eq_true, hparts,
        List.isPrefixOf_iff_prefix]
      constructor
      · rintro ⟨⟨rest, htext⟩, hfollows⟩
        rw [← htext, List.drop_left] at hfollows
        exact ⟨rest, htext.symm, hfollows⟩
      · rintro ⟨rest, htext, hfollows⟩
        rw [htext, List.drop_left]
        exact ⟨List.prefix_append first rest, hfollows⟩
  · rw [obtained_iff (List.splitOn_eq_singleton hwildcard), decide_eq_true_iff]
    constructor
    · rintro rfl
      exact ⟨[], (List.append_nil _).symm, rfl⟩
    · rintro ⟨rest, htext, rfl⟩
      exact String.toList_inj.mp (htext.trans (List.append_nil _))

end Arcxa.Transformation
