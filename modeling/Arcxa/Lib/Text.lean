import Mathlib.Data.List.DropRight
import Mathlib.Tactic

/-!
# Cutting texts and reading numbers

Texts as lists of characters, cut at the first or at the last separator or where a pattern first
stands, and the integers of a fixed width read from decimal text: an optional sign, then digits, the
value checked against the bounds digit by digit. A number is read back from its own decimal form
when it is within the bounds.
-/

namespace Arcxa

section Split

variable {α : Type} [DecidableEq α]

def splitOnce (sep : α) : List α → Option (List α × List α)
  | [] => none
  | a :: l => if a = sep then some ([], l) else (splitOnce sep l).map fun p => (a :: p.1, p.2)

def rsplitOnce (sep : α) (l : List α) : Option (List α × List α) :=
  (splitOnce sep l.reverse).map fun p => (p.2.reverse, p.1.reverse)

variable {sep : α} {l : List α}

theorem splitOnce_append (h : sep ∉ l) (r : List α) :
    splitOnce sep (l ++ sep :: r) = some (l, r) := by
  induction l with
  | nil => simp [splitOnce]
  | cons a l ih =>
    rw [List.mem_cons, not_or] at h
    rw [List.cons_append, splitOnce, if_neg (Ne.symm h.1), ih h.2]
    rfl

theorem exists_splitOnce (h : sep ∈ l) :
    ∃ before after, splitOnce sep l = some (before, after) := by
  induction l with
  | nil => cases h
  | cons a l ih =>
    rw [splitOnce]
    split_ifs with ha
    · exact ⟨[], l, rfl⟩
    · obtain ⟨before, after, hl⟩ := ih ((List.mem_cons.mp h).resolve_left (Ne.symm ha))
      exact ⟨a :: before, after, by rw [hl]; rfl⟩

theorem eq_of_splitOnce {l before after : List α} (h : splitOnce sep l = some (before, after)) :
    l = before ++ sep :: after ∧ sep ∉ before := by
  induction l generalizing before with
  | nil => cases h
  | cons a l ih =>
    rw [splitOnce] at h
    split_ifs at h with ha
    · cases h
      exact ⟨by rw [ha]; rfl, List.not_mem_nil⟩
    · obtain ⟨⟨before', after'⟩, hl, heq⟩ := Option.map_eq_some_iff.mp h
      cases heq
      obtain ⟨rfl, hnot⟩ := ih hl
      refine ⟨rfl, ?_⟩
      rw [List.mem_cons, not_or]
      exact ⟨Ne.symm ha, hnot⟩

theorem rsplitOnce_append {sep : α} {r : List α} (h : sep ∉ r) (l : List α) :
    rsplitOnce sep (l ++ sep :: r) = some (l, r) := by
  have hreverse : (l ++ sep :: r).reverse = r.reverse ++ sep :: l.reverse := by simp
  rw [rsplitOnce, hreverse, splitOnce_append (by simpa using h)]
  simp

theorem exists_last_separator (h : sep ∈ l) :
    ∃ before after, l = before ++ sep :: after ∧ sep ∉ after := by
  obtain ⟨after, before, hcut⟩ := exists_splitOnce (List.mem_reverse.mpr h)
  obtain ⟨hl, hafter⟩ := eq_of_splitOnce hcut
  refine ⟨before.reverse, after.reverse, ?_, by simpa using hafter⟩
  rw [← List.reverse_reverse l, hl]
  simp

theorem not_mem_of_mem_splitOn {l part : List α} (h : part ∈ l.splitOn sep) : sep ∉ part := by
  induction l generalizing part with
  | nil =>
    rw [List.splitOn_nil] at h
    rw [List.mem_singleton.mp h]
    exact List.not_mem_nil
  | cons a l ih =>
    rw [List.splitOn_cons_eq_if_modifyHead] at h
    split_ifs at h with ha
    · rcases List.mem_cons.mp h with rfl | hpart
      · exact List.not_mem_nil
      · exact ih hpart
    · -- the first part gets `a` in front, the others stay
      cases hparts : l.splitOn sep with
      | nil => exact absurd hparts (List.splitOn_ne_nil sep l)
      | cons first others =>
        rw [hparts] at h
        rcases List.mem_cons.mp h with rfl | hpart
        · rw [List.mem_cons, not_or]
          exact ⟨fun heq => ha (by simp [heq]), ih (by rw [hparts]; exact List.mem_cons_self)⟩
        · exact ih (by rw [hparts]; exact List.mem_cons_of_mem _ hpart)

theorem mem_splitOn_of_mem {sep a : α} (h : a ∈ l) (hsep : a ≠ sep) :
    ∃ part ∈ l.splitOn sep, a ∈ part := by
  induction l with
  | nil => cases h
  | cons b l ih =>
    rw [List.splitOn_cons_eq_if_modifyHead]
    split_ifs with hb
    · have hne : a ≠ b := fun heq => hsep (heq.trans (beq_iff_eq.mp hb))
      obtain ⟨part, hpart, hmem⟩ := ih ((List.mem_cons.mp h).resolve_left hne)
      exact ⟨part, List.mem_cons_of_mem _ hpart, hmem⟩
    · cases hparts : l.splitOn sep with
      | nil => exact absurd hparts (List.splitOn_ne_nil sep l)
      | cons first others =>
        rw [hparts] at ih
        rcases List.mem_cons.mp h with rfl | hl
        · exact ⟨a :: first, List.mem_cons_self, List.mem_cons_self⟩
        · obtain ⟨part, hpart, hmem⟩ := ih hl
          rcases List.mem_cons.mp hpart with rfl | hrest
          · exact ⟨b :: part, List.mem_cons_self, List.mem_cons_of_mem _ hmem⟩
          · exact ⟨part, List.mem_cons_of_mem _ hrest, hmem⟩

theorem splitOn_intercalate_flatMap {parts : List (List α)} (h : parts ≠ []) :
    ([sep].intercalate parts).splitOn sep = parts.flatMap (·.splitOn sep) := by
  induction parts with
  | nil => exact absurd rfl h
  | cons part parts ih =>
    cases parts with
    | nil => rw [List.intercalate_singleton, List.flatMap_singleton]
    | cons next rest =>
      rw [List.intercalate_cons_cons, List.append_assoc, List.singleton_append,
        List.splitOn_append_cons_self, ih (List.cons_ne_nil next rest)]
      exact List.flatMap_cons.symm

theorem intercalate_eq_iff {parts parts' : List (List α)} (hlength : parts.length = parts'.length) :
    [sep].intercalate parts = [sep].intercalate parts' ↔
      parts.flatMap (·.splitOn sep) = parts'.flatMap (·.splitOn sep) := by
  by_cases hnil : parts = []
  · rw [hnil, List.length_nil] at hlength
    rw [hnil, List.eq_nil_of_length_eq_zero hlength.symm]
    exact iff_of_true rfl rfl
  · have hnil' : parts' ≠ [] := by
      rintro rfl
      exact hnil (List.eq_nil_of_length_eq_zero hlength)
    rw [← splitOn_intercalate_flatMap hnil, ← splitOn_intercalate_flatMap hnil']
    constructor
    · exact congrArg (List.splitOn sep)
    · intro heq
      have hjoin := congrArg [sep].intercalate heq
      rwa [List.intercalate_splitOn, List.intercalate_splitOn] at hjoin

theorem flatMap_splitOn_of_not_mem {parts : List (List α)} (h : ∀ part ∈ parts, sep ∉ part) :
    parts.flatMap (·.splitOn sep) = parts := by
  induction parts with
  | nil => rfl
  | cons part parts ih =>
    rw [List.forall_mem_cons] at h
    rw [List.flatMap_cons, ih h.2, List.splitOn_eq_singleton h.1]
    rfl

end Split

section Ends

variable {α : Type}

theorem dropWhile_of_head {p : α → Bool} {cs : List α} (h : ∀ c ∈ cs.head?, p c = false) :
    cs.dropWhile p = cs := by
  cases cs with
  | nil => rfl
  | cons c cs => rw [List.dropWhile_cons, h c rfl, if_neg (by decide)]

theorem dropWhile_append_of_all {p : α → Bool} {gap cs : List α}
    (hgap : ∀ c ∈ gap, p c = true) (h : ∀ c ∈ cs.head?, p c = false) :
    (gap ++ cs).dropWhile p = cs := by
  rw [List.dropWhile_append_of_pos hgap]
  exact dropWhile_of_head h

theorem trim_ends_idempotent (p : α → Bool) (cs : List α) :
    (((cs.dropWhile p).rdropWhile p).dropWhile p).rdropWhile p =
      (cs.dropWhile p).rdropWhile p := by
  have hhead : ∀ c ∈ ((cs.dropWhile p).rdropWhile p).head?, p c = false := by
    intro c hc
    obtain ⟨tail, htail⟩ := List.rdropWhile_prefix (cs.dropWhile p) (p := p)
    have hfirst : (cs.dropWhile p).head? = some c := by
      rw [← htail, List.head?_append, Option.mem_def.mp hc]
      rfl
    have hnot := List.head?_dropWhile_not p cs
    rw [hfirst] at hnot
    exact hnot
  rw [dropWhile_of_head hhead, List.rdropWhile_idempotent]

/-! ## Patterns -/

def Borderless (pattern : List α) : Prop :=
  ∀ k ∈ List.range pattern.length, k ≠ 0 → ¬ pattern.drop k <+: pattern

instance [DecidableEq α] (pattern : List α) : Decidable (Borderless pattern) :=
  inferInstanceAs (Decidable (∀ k ∈ List.range pattern.length, _ → ¬ pattern.drop k <+: pattern))

theorem not_prefix_of_borderless {pattern cs : List α} (hborder : Borderless pattern)
    (hcs : ¬ pattern <:+: cs) (hne : cs ≠ []) (ds : List α) :
    ¬ pattern <+: cs ++ (pattern ++ ds) := by
  intro hpre
  rcases le_or_gt pattern.length cs.length with hle | hlt
  · exact hcs ((List.isPrefix_append_of_length hle).mp hpre).isInfix
  · -- what is left of the pattern behind `cs` would be a start of it
    obtain ⟨left, rfl⟩ := List.prefix_of_prefix_length_le (List.prefix_append cs _) hpre hlt.le
    have hleft : left <+: cs ++ left := by
      have hpre' := (List.prefix_append_right_inj cs).mp hpre
      refine (List.isPrefix_append_of_length ?_).mp hpre'
      rw [List.length_append]
      omega
    refine hborder cs.length (List.mem_range.mpr hlt) (by simpa using hne) ?_
    rwa [List.drop_left]

end Ends

/-! ## Numbers -/

/-- Why a text is no number of the type. -/
inductive IntErrorKind where
  | Empty
  | InvalidDigit
  | PosOverflow
  | NegOverflow
  deriving DecidableEq

def accumulate (limit : Nat) (overflow : IntErrorKind) : Nat → List Char → Except IntErrorKind Nat
  | n, [] => .ok n
  | n, c :: cs =>
    if !c.isDigit then .error .InvalidDigit
    else if limit < 10 * n + (c.toNat - '0'.toNat) then .error overflow
    else accumulate limit overflow (10 * n + (c.toNat - '0'.toNat)) cs

/-- A number of an unsigned type whose greatest value is `limit`. -/
def parseUnsigned (limit : Nat) : List Char → Except IntErrorKind Nat
  | [] => .error .Empty
  | c :: cs =>
    if c = '+' then
      if cs.isEmpty then .error .InvalidDigit else accumulate limit .PosOverflow 0 cs
    else accumulate limit .PosOverflow 0 (c :: cs)

/-- A number of the signed type from `-limit - 1` to `limit`. -/
def parseSigned (limit : Nat) : List Char → Except IntErrorKind Int
  | [] => .error .Empty
  | c :: cs =>
    if c = '+' then
      if cs.isEmpty then .error .InvalidDigit
      else (accumulate limit .PosOverflow 0 cs).map fun n => (n : Int)
    else if c = '-' then
      if cs.isEmpty then .error .InvalidDigit
      else (accumulate (limit + 1) .NegOverflow 0 cs).map fun n => -(n : Int)
    else (accumulate limit .PosOverflow 0 (c :: cs)).map fun n => (n : Int)

variable {limit n : Nat}

theorem accumulate_eq {overflow : IntErrorKind} {cs : List Char}
    (hdigits : ∀ c ∈ cs, c.isDigit = true) (hlimit : Nat.ofDigitChars 10 cs n ≤ limit) :
    accumulate limit overflow n cs = .ok (Nat.ofDigitChars 10 cs n) := by
  induction cs generalizing n with
  | nil => simp [accumulate]
  | cons c cs ih =>
    rw [List.forall_mem_cons] at hdigits
    rw [Nat.ofDigitChars_cons] at hlimit ⊢
    -- the value only grows from here
    have hle : 10 * n + (c.toNat - '0'.toNat) ≤ limit := by
      rw [Nat.ofDigitChars_eq_ofDigitChars_zero] at hlimit
      have hpow : 1 ≤ 10 ^ cs.length := Nat.one_le_pow _ _ (by decide)
      exact le_trans (Nat.le_trans (Nat.le_mul_of_pos_left _ hpow) (Nat.le_add_right _ _)) hlimit
    rw [accumulate, hdigits.1, if_neg (by decide), if_neg (by omega)]
    exact ih hdigits.2 hlimit

theorem isDigit_of_accumulate {limit n m : Nat} {overflow : IntErrorKind} {cs : List Char}
    (h : accumulate limit overflow n cs = .ok m) : ∀ c ∈ cs, c.isDigit = true := by
  induction cs generalizing n with
  | nil => simp
  | cons c cs ih =>
    rw [accumulate] at h
    split_ifs at h with hdigit
    rw [List.forall_mem_cons]
    exact ⟨by simpa using hdigit, ih h⟩

theorem not_mem_of_parseUnsigned {text : List Char} {c : Char} (hdigit : c.isDigit = false)
    (hplus : c ≠ '+') (h : parseUnsigned limit text = .ok n) : c ∉ text := by
  have hnot : ∀ {cs : List Char}, accumulate limit .PosOverflow 0 cs = .ok n → c ∉ cs := by
    intro cs hcs hmem
    rw [isDigit_of_accumulate hcs c hmem] at hdigit
    cases hdigit
  cases text with
  | nil => exact List.not_mem_nil
  | cons d cs =>
    rw [parseUnsigned] at h
    split_ifs at h with hd
    · rw [List.mem_cons, not_or, hd]
      exact ⟨hplus, hnot h⟩
    · exact hnot h

theorem not_mem_of_parseSigned {limit : Nat} {i : Int} {text : List Char} {c : Char}
    (hdigit : c.isDigit = false) (hplus : c ≠ '+') (hminus : c ≠ '-')
    (h : parseSigned limit text = .ok i) : c ∉ text := by
  have hnot : ∀ {limit n : Nat} {overflow : IntErrorKind} {cs : List Char},
      accumulate limit overflow 0 cs = .ok n → c ∉ cs := by
    intro limit n overflow cs hcs hmem
    rw [isDigit_of_accumulate hcs c hmem] at hdigit
    cases hdigit
  cases text with
  | nil => exact List.not_mem_nil
  | cons d cs =>
    rw [parseSigned] at h
    split_ifs at h with hd hempty hd'
    · cases haccumulate : accumulate limit .PosOverflow 0 cs with
      | error e =>
        rw [haccumulate] at h
        cases h
      | ok n =>
        rw [List.mem_cons, not_or, hd]
        exact ⟨hplus, hnot haccumulate⟩
    · cases haccumulate : accumulate (limit + 1) .NegOverflow 0 cs with
      | error e =>
        rw [haccumulate] at h
        cases h
      | ok n =>
        rw [List.mem_cons, not_or, hd']
        exact ⟨hminus, hnot haccumulate⟩
    · cases haccumulate : accumulate limit .PosOverflow 0 (d :: cs) with
      | error e =>
        rw [haccumulate] at h
        cases h
      | ok n => exact hnot haccumulate

theorem toDigits_inj {n m : Nat} (h : Nat.toDigits 10 n = Nat.toDigits 10 m) : n = m := by
  calc n = Nat.ofDigitChars 10 (Nat.toDigits 10 n) 0 := Nat.ofDigitChars_ten_toDigits.symm
    _ = Nat.ofDigitChars 10 (Nat.toDigits 10 m) 0 := by rw [h]
    _ = m := Nat.ofDigitChars_ten_toDigits

theorem natToString_inj {n m : Nat} (h : toString n = toString m) : n = m := by
  rw [Nat.toString_eq_ofList_toDigits, Nat.toString_eq_ofList_toDigits] at h
  exact toDigits_inj (String.ofList_injective h)

theorem isDigit_of_mem_toDigits {n : Nat} {c : Char} (h : c ∈ Nat.toDigits 10 n) :
    c.isDigit = true :=
  Nat.isDigit_of_mem_toDigits (by decide) (by decide) h

theorem not_mem_toDigits {n : Nat} {c : Char} (h : c.isDigit = false) : c ∉ Nat.toDigits 10 n := by
  intro hmem
  rw [isDigit_of_mem_toDigits hmem] at h
  cases h

theorem accumulate_toDigits (overflow : IntErrorKind) (h : n ≤ limit) :
    accumulate limit overflow 0 (Nat.toDigits 10 n) = .ok n := by
  rw [accumulate_eq (fun c hc => isDigit_of_mem_toDigits hc)
    (by rw [Nat.ofDigitChars_ten_toDigits]; exact h), Nat.ofDigitChars_ten_toDigits]

theorem toDigits_cases (n : Nat) : ∃ c cs, Nat.toDigits 10 n = c :: cs ∧ c ≠ '+' ∧ c ≠ '-' := by
  obtain ⟨c, cs, h⟩ := List.exists_cons_of_ne_nil (Nat.toDigits_ne_nil (n := n) (b := 10))
  have hc : c.isDigit = true := isDigit_of_mem_toDigits (h ▸ List.mem_cons_self)
  refine ⟨c, cs, h, ?_, ?_⟩
  · rintro rfl
    revert hc
    decide
  · rintro rfl
    revert hc
    decide

/-- **Unsigned numbers are read back.** -/
theorem parseUnsigned_toDigits (h : n ≤ limit) :
    parseUnsigned limit (Nat.toDigits 10 n) = .ok n := by
  obtain ⟨c, cs, hdigits, hplus, -⟩ := toDigits_cases n
  have haccumulate := accumulate_toDigits .PosOverflow h
  rw [hdigits] at haccumulate ⊢
  rw [parseUnsigned, if_neg hplus]
  exact haccumulate

def intDigits (i : Int) : List Char :=
  if i < 0 then '-' :: Nat.toDigits 10 i.natAbs else Nat.toDigits 10 i.natAbs

/-- **Signed numbers are read back.** -/
theorem parseSigned_intDigits {limit : Nat} {i : Int} (hlow : -(limit : Int) - 1 ≤ i)
    (hhigh : i ≤ limit) : parseSigned limit (intDigits i) = .ok i := by
  obtain ⟨c, cs, hdigits, hplus, hminus⟩ := toDigits_cases i.natAbs
  unfold intDigits
  split_ifs with hneg
  · have hbound : i.natAbs ≤ limit + 1 := by omega
    have hvalue : -((i.natAbs : Nat) : Int) = i := by omega
    rw [parseSigned, if_neg (by decide), if_pos rfl, hdigits, if_neg (by simp), ← hdigits,
      accumulate_toDigits .NegOverflow hbound]
    exact congrArg Except.ok hvalue
  · have hbound : i.natAbs ≤ limit := by omega
    have hvalue : ((i.natAbs : Nat) : Int) = i := by omega
    rw [hdigits, parseSigned, if_neg hplus, if_neg hminus, ← hdigits,
      accumulate_toDigits .PosOverflow hbound]
    exact congrArg Except.ok hvalue

end Arcxa
