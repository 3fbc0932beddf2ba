import Arcxa.Lib.Text
import Arcxa.Workflow.StreamingDedup

/-!
# Conditions to skip an approval

`should_skip_approval` does not parse its condition. It searches the text: for the value of the variable
in quotes, for one of three words after `==`, and for an order before a blank and a number at the
end; the field that it looks at is the first that the text names. So a condition with several comparisons
may be taken for true when it is not; `skipsOnlyWhenTrue_iff` says when it is not taken so for any data.
-/

namespace Arcxa.Engine

open Arcxa.Workflow (Value Number Row Float64 isWhitespace)

variable {F : Type}

/-! ## The code -/

/-- `contains`. -/
def containsText (text pattern : String) : Bool := decide (pattern.toList <:+: text.toList)

/-- The field between the first `data` reference's dot and the next closing brace. -/
def fieldPath (condition : String) : Option String :=
  match condition.toList.tails.find? fun rest => "$\x7bdata.".toList.isPrefixOf rest with
  | none => none
  | some rest =>
    if '\x7d' ∈ rest then some (String.ofList ((rest.takeWhile (· ≠ '\x7d')).drop 7)) else none

/-- Pattern 1, for the value of `ENVIRONMENT` if it is set. -/
def environmentMatches (condition : String) (environment : Option String) : Bool :=
  containsText condition "$\x7benv.ENVIRONMENT\x7d" &&
    environment.any fun value => containsText condition ("\"" ++ value ++ "\"")

def knownWords : List String := ["low", "dev", "staging"]

def wordMatches (condition : String) (value : Value F) : Bool :=
  knownWords.any fun word =>
    containsText condition ("== \"" ++ word ++ "\"") && decide (value.asStr = some word)

/-- The last word of the condition as an `i64`. -/
def threshold (condition : String) : Option Int :=
  match ((condition.toList.splitOnP isWhitespace).filter (· ≠ [])).getLast? with
  | none => none
  | some word => (parseSigned (2 ^ 63 - 1) word).toOption

def orderMatches (condition : String) (value threshold : Int) : Bool :=
  (containsText condition "< " && decide (value < threshold)) ||
    (containsText condition "<= " && decide (value ≤ threshold)) ||
    (containsText condition "> " && decide (threshold < value))

def asI64 : Value F → Option Int64
  | .number n => n.asI64
  | _ => none

def numberMatches (condition : String) (value : Value F) : Bool :=
  (containsText condition "< " || containsText condition "<= " || containsText condition "> ") &&
    (asI64 value).any fun number =>
      (threshold condition).any fun threshold => orderMatches condition number.toInt threshold

def shouldSkipApproval (condition : String) (data : Value F) (environment : Option String) : Bool :=
  environmentMatches condition environment ||
    ((fieldPath condition).bind data.get).any fun value =>
      wordMatches condition value || numberMatches condition value

/-! ## The conditions -/

inductive Operand where
  | environment
  | data (field : String)
  deriving DecidableEq

inductive Operator where
  | eq
  | lt
  | le
  | gt

inductive Literal where
  | string (s : String)
  | int (n : Int64)

structure Comparison where
  operand : Operand
  operator : Operator
  literal : Literal

def Operand.text : Operand → String
  | .environment => "\"$\x7benv.ENVIRONMENT\x7d\""
  | .data field => "\"$\x7bdata." ++ field ++ "\x7d\""

def Operator.text : Operator → String
  | .eq => "=="
  | .lt => "<"
  | .le => "<="
  | .gt => ">"

def Literal.text : Literal → String
  | .string s => "\"" ++ s ++ "\""
  | .int n => String.ofList (intDigits n.toInt)

def Comparison.text (c : Comparison) : String :=
  c.operand.text ++ " " ++ c.operator.text ++ " " ++ c.literal.text

def conditionText (comparisons : List Comparison) : String :=
  " || ".intercalate (comparisons.map Comparison.text)

/-- The relation of an operator in an order that `lt` gives. -/
def Operator.holds {α : Type} (lt : α → α → Bool) : Operator → α → α → Bool
  | .eq, a, b => !lt a b && !lt b a
  | .lt, a, b => lt a b
  | .le, a, b => !lt b a
  | .gt, a, b => lt b a

def textHolds (operator : Operator) (text : String) : Literal → Bool
  | .string s => operator.holds (fun a b => decide (a < b)) text s
  | .int n => (parseSigned (2 ^ 63 - 1) text.toList).toOption.any fun number =>
    operator.holds (fun a b => decide (a < b)) number n.toInt

variable [Float64 F]

def valueHolds (operator : Operator) (literal : Literal) (value : Value F) : Bool :=
  match value, literal with
  | .string text, literal => textHolds operator text literal
  | .number (.int number), .int n => operator.holds (fun a b => decide (a < b)) number.val n.toInt
  | .number (.float x), .int n => operator.holds Float64.lt x (Float64.ofInt n.toInt)
  | _, _ => false

def Comparison.holds (c : Comparison) (data : Value F) (environment : Option String) : Bool :=
  match c.operand with
  | .environment => environment.any fun text => textHolds c.operator text c.literal
  | .data field => (data.get field).any fun value => valueHolds c.operator c.literal value

def SkipsOnlyWhenTrue (F : Type) [Float64 F] (comparisons : List Comparison)
    (environment : Option String) : Prop :=
  ∀ data : Row F, shouldSkipApproval (conditionText comparisons) (.ofRow data) environment = true →
    ∃ c ∈ comparisons, c.holds (.ofRow data) environment = true

def IsCovered (comparisons : List Comparison) (field : String) (value : Value F) : Prop :=
  ∃ c ∈ comparisons, c.operand = .data field ∧ valueHolds c.operator c.literal value = true

/-- What the searches find in the text is what the comparisons say. -/
structure TextAgrees (F : Type) [Float64 F] (comparisons : List Comparison)
    (environment : Option String) : Prop where
  environment : environmentMatches (conditionText comparisons) environment = false
  words : ∀ field, fieldPath (conditionText comparisons) = some field → ∀ word ∈ knownWords,
    containsText (conditionText comparisons) ("== \"" ++ word ++ "\"") = true →
      IsCovered comparisons field (Value.string (F := F) word)
  numbers : ∀ field, fieldPath (conditionText comparisons) = some field →
    ∀ bound, threshold (conditionText comparisons) = some bound → ∀ number : Int64,
      orderMatches (conditionText comparisons) number.toInt bound = true →
        IsCovered comparisons field (Value.number (F := F) (.ofI64 number))

/-! ## What is skipped -/

variable {comparisons : List Comparison} {environment : Option String}

variable {value : Value F}

theorem holds_of_isCovered {field : String} {data : Value F}
    (h : IsCovered comparisons field value) (hget : data.get field = some value) :
    ∃ c ∈ comparisons, c.holds data environment = true := by
  obtain ⟨c, hc, hoperand, hvalue⟩ := h
  refine ⟨c, hc, ?_⟩
  unfold Comparison.holds
  simp only [hoperand, hget]
  exact hvalue

theorem isCovered_of_holds {field : String}
    (hquiet : ¬ ∃ c ∈ comparisons, c.operand = .environment ∧
      c.holds (Value.null (F := F)) environment = true)
    (h : ∃ c ∈ comparisons,
      c.holds (.ofRow ((BTreeMap.empty : Row F).insert field value)) environment = true) :
    IsCovered comparisons field value := by
  obtain ⟨c, hc, hholds⟩ := h
  unfold Comparison.holds at hholds hquiet
  cases hoperand : c.operand with
  | environment =>
    rw [hoperand] at hholds
    exact absurd ⟨c, hc, hoperand, by rw [hoperand]; exact hholds⟩ hquiet
  | data field' =>
    rw [hoperand] at hholds
    simp only [Value.get_ofRow, BTreeMap.get_insert] at hholds
    split_ifs at hholds with hfield
    · subst hfield
      exact ⟨c, hc, hoperand, hholds⟩
    · simp at hholds

omit [Float64 F] in
theorem asI64_ofI64 (number : Int64) : asI64 (Value.number (F := F) (.ofI64 number)) = some number := by
  have hlt := Int64.toInt_lt number
  simp only [asI64, Number.ofI64, Number.asI64, if_pos hlt, Int64.ofInt_toInt]

omit [Float64 F] in
theorem eq_of_asI64 {number : Int64} (h : asI64 value = some number) :
    value = .number (.ofI64 number) := by
  unfold asI64 at h
  split at h
  · next n =>
    cases n with
    | float x => cases h
    | int n =>
      rw [Number.asI64] at h
      split_ifs at h with hlt
      cases h
      have hval : (Int64.ofInt n.val).toInt = n.val := Int64.toInt_ofInt_of_le n.range.1 hlt
      obtain ⟨val, hrange⟩ := n
      simp only [Number.ofI64, hval]
  · cases h

omit [Float64 F] in
theorem shouldSkip_field {condition field : String}
    (hfield : fieldPath condition = some field)
    (h : (wordMatches condition value || numberMatches condition value) = true) :
    shouldSkipApproval condition (.ofRow ((BTreeMap.empty : Row F).insert field value)) environment =
      true := by
  rw [shouldSkipApproval, Bool.or_eq_true, hfield, Option.bind_some, Value.get_ofRow,
    BTreeMap.get_insert, if_pos rfl]
  exact .inr h

omit [Float64 F] in
theorem wordMatches_iff {condition : String} : wordMatches condition value = true ↔
    ∃ word ∈ knownWords, containsText condition ("== \"" ++ word ++ "\"") = true ∧
      value = .string word := by
  have hstr : ∀ word, value.asStr = some word ↔ value = .string word := by
    intro word
    cases value <;> simp [Value.asStr]
  simp only [wordMatches, List.any_eq_true, Bool.and_eq_true, decide_eq_true_eq, hstr]

omit [Float64 F] in
theorem numberMatches_iff {condition : String} :
    numberMatches condition value = true ↔ ∃ number bound, asI64 value = some number ∧
      threshold condition = some bound ∧ orderMatches condition number.toInt bound = true := by
  have horder : ∀ number bound, orderMatches condition number bound = true →
      (containsText condition "< " || containsText condition "<= " || containsText condition "> ") =
        true := by
    intro number bound h
    simp only [orderMatches, Bool.or_eq_true, Bool.and_eq_true] at h ⊢
    exact h.imp (Or.imp And.left And.left) And.left
  rw [numberMatches, Bool.and_eq_true, Option.any_eq_true]
  constructor
  · rintro ⟨-, number, hnumber, h⟩
    obtain ⟨bound, hbound, h⟩ := (Option.any_eq_true _ _).mp h
    exact ⟨number, bound, hnumber, hbound, h⟩
  · rintro ⟨number, bound, hnumber, hbound, h⟩
    exact ⟨horder _ _ h, number, hnumber, (Option.any_eq_true _ _).mpr ⟨bound, hbound, h⟩⟩

/-- **No data has an approval skipped wrongly** exactly when a comparison of the environment is
itself true, or what the searches find in the text is covered by the comparisons of the field that they look at. -/
theorem skipsOnlyWhenTrue_iff (comparisons : List Comparison) (environment : Option String) :
    SkipsOnlyWhenTrue F comparisons environment ↔
      (∃ c ∈ comparisons, c.operand = .environment ∧
        c.holds (Value.null (F := F)) environment = true) ∨
        TextAgrees F comparisons environment := by
  by_cases hquiet : ∃ c ∈ comparisons, c.operand = .environment ∧
      c.holds (Value.null (F := F)) environment = true
  · refine iff_of_true (fun data _ => ?_) (.inl hquiet)
    obtain ⟨c, hc, hoperand, hholds⟩ := hquiet
    refine ⟨c, hc, ?_⟩
    unfold Comparison.holds at hholds ⊢
    rw [hoperand] at hholds ⊢
    exact hholds
  · rw [or_iff_right hquiet]
    constructor
    · intro hskips
      refine ⟨?_, ?_, ?_⟩
      · refine Bool.not_eq_true _ ▸ fun hmatches => hquiet ?_
        obtain ⟨c, hc, hholds⟩ := hskips .empty (by rw [shouldSkipApproval, hmatches, Bool.true_or])
        refine ⟨c, hc, ?_⟩
        unfold Comparison.holds at hholds ⊢
        cases hoperand : c.operand with
        | environment =>
          rw [hoperand] at hholds
          exact ⟨rfl, hholds⟩
        | data field =>
          rw [hoperand] at hholds
          exact nomatch hholds
      · intro field hfield word hword htext
        refine isCovered_of_holds hquiet (hskips _ (shouldSkip_field hfield ?_))
        rw [Bool.or_eq_true]
        exact .inl (wordMatches_iff.mpr ⟨word, hword, htext, rfl⟩)
      · intro field hfield bound hbound number horder
        refine isCovered_of_holds hquiet (hskips _ (shouldSkip_field hfield ?_))
        rw [Bool.or_eq_true]
        exact .inr (numberMatches_iff.mpr ⟨number, bound, asI64_ofI64 number, hbound, horder⟩)
    · rintro ⟨henvironment, hwords, hnumbers⟩ data hskip
      rw [shouldSkipApproval, henvironment, Bool.false_or, Option.any_eq_true] at hskip
      obtain ⟨value, hget, hskip⟩ := hskip
      obtain ⟨field, hfield, hget⟩ := Option.bind_eq_some_iff.mp hget
      rw [Bool.or_eq_true, wordMatches_iff, numberMatches_iff] at hskip
      refine holds_of_isCovered ?_ hget
      obtain ⟨word, hword, htext, rfl⟩ | ⟨number, bound, hnumber, hbound, horder⟩ := hskip
      · exact hwords field hfield word hword htext
      · rw [eq_of_asI64 hnumber]
        exact hnumbers field hfield bound hbound number horder

def fewRows : List Comparison :=
  [⟨.data "new_rows", .lt, .int 10⟩, ⟨.data "old_rows", .lt, .int 1000⟩]

/-- Of 500 new rows it is said that they are less than 1000. -/
theorem fewRows_skipped : ¬ ∀ comparisons environment, SkipsOnlyWhenTrue Int comparisons environment := by
  intro hskips
  have hrows := hskips fewRows none
    ((BTreeMap.empty.insert "new_rows" (.number (.ofI64 500))).insert "old_rows" (.number (.ofI64 5000)))
    (by decide)
  exact absurd hrows (by decide)

end Arcxa.Engine
