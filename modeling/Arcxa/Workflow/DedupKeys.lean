import Arcxa.Workflow.DedupPaths
import Arcxa.Workflow.JsonText

/-!
# When two rows have one deduplication key

A key is the texts of the key fields with `|` between them: a string as it is, any other value as
JSON, and nothing or `null` for a field that is missing. Two rows get one key (`joinKey_eq_iff`) if
their values look alike field by field, or if some text has a separator and the texts of all fields,
cut at every separator, are the same pieces. Keys tell rows apart exactly where neither happens
(`keys_tell_apart_iff`).
-/

namespace Arcxa.Workflow

variable {F : Type} [Float64 F]

/-- The text of a field with `missing` where there is none. -/
def cellText (missing : String) : Option (Value F) → String
  | some (.string s) => s
  | some v => v.toString
  | none => missing

variable (missing : String)

theorem cellText_of_not_string {v : Value F} (h : v.asStr = none) :
    cellText missing (some v) = v.toString := by
  cases v with
  | string s => cases h
  | _ => rfl

theorem streaming_fieldText_eq (row : Value F) :
    StreamingDeduplicator.fieldText row = fun field => cellText "" (row.get field) := by
  funext field
  unfold StreamingDeduplicator.fieldText cellText
  split <;> simp_all

theorem optimized_fieldText_eq (row : Value F) :
    OptimizedStepExecutor.fieldText row = fun field => cellText "null" (row.get field) := by
  funext field
  unfold OptimizedStepExecutor.fieldText
  cases row.get field with
  | none => rfl
  | some v => cases v <;> simp [OptimizedStepExecutor.valueText, cellText, Value.toString]

/-! ## One field -/

/-- Two values of a field have one text; `blank` says which values look like a missing one. -/
inductive LooksLike (blank : Value F → Prop) : Option (Value F) → Option (Value F) → Prop where
  | same (v : Option (Value F)) : LooksLike blank v v
  | text {v : Value F} (hv : v.asStr = none) :
    LooksLike blank (some (.string v.toString)) (some v)
  | value {v : Value F} (hv : v.asStr = none) :
    LooksLike blank (some v) (some (.string v.toString))
  | absent {v : Value F} (hv : blank v) : LooksLike blank none (some v)
  | present {v : Value F} (hv : blank v) : LooksLike blank (some v) none

/-- The streaming deduplicator writes nothing for a missing field, as for an empty string. -/
def looksEmpty (v : Value F) : Prop := v = .string ""

/-- The pass in memory writes `null`. -/
def looksNull (v : Value F) : Prop := v = .null ∨ v = .string "null"

section Decimal

variable [Decimal F]

theorem toString_ne_empty (v : Value F) : v.toString ≠ "" := by
  intro hempty
  obtain ⟨c, rest, hchars, -⟩ := v.exists_chars
  rw [Value.chars, hempty] at hchars
  cases hchars

theorem cellText_eq_empty_iff (v : Value F) : cellText "" (some v) = "" ↔ looksEmpty v := by
  unfold looksEmpty
  cases v with
  | string s => exact ⟨fun h => congrArg Value.string h, fun h => Value.string.inj h⟩
  | _ => exact iff_of_false (toString_ne_empty _) nofun

theorem cellText_eq_null_iff (v : Value F) : cellText "null" (some v) = "null" ↔ looksNull v := by
  have hnull : (Value.null : Value F).toString = "null" := by rw [Value.toString]
  unfold looksNull
  constructor
  · intro htext
    cases v with
    | string s => exact .inr (congrArg Value.string htext)
    | _ => exact .inl (Value.toString_injective (htext.trans hnull.symm))
  · rintro (rfl | rfl)
    · exact hnull
    · rfl

theorem cellText_eq_iff {missing : String} {blank : Value F → Prop}
    (hblank : ∀ v, cellText missing (some v) = missing ↔ blank v) (a b : Option (Value F)) :
    cellText missing a = cellText missing b ↔ LooksLike blank a b := by
  constructor
  · intro htext
    cases a with
    | none =>
      cases b with
      | none => exact .same none
      | some w => exact .absent ((hblank w).mp htext.symm)
    | some v =>
      cases b with
      | none => exact .present ((hblank v).mp htext)
      | some w =>
        cases hv : v.asStr with
        | none =>
          rw [cellText_of_not_string missing hv] at htext
          cases w with
          | string t =>
            obtain rfl : v.toString = t := htext
            exact .value hv
          | _ =>
            obtain rfl := Value.toString_injective htext
            exact .same _
        | some s =>
          cases v with
          | string s' =>
            cases hw : w.asStr with
            | none =>
              rw [cellText_of_not_string missing hw] at htext
              obtain rfl : s' = w.toString := htext
              exact .text hw
            | some t =>
              cases w with
              | string t' =>
                obtain rfl : s' = t' := htext
                exact .same _
              | _ => cases hw
          | _ => cases hv
  · intro hlike
    cases hlike with
    | same => rfl
    | text hv => exact (cellText_of_not_string missing hv).symm
    | value hv => exact cellText_of_not_string missing hv
    | absent hv => exact ((hblank _).mpr hv).symm
    | present hv => exact (hblank _).mpr hv

end Decimal

/-! ## All key fields -/

def SameValues (fields : List String) (row row' : Value F) : Prop :=
  ∀ field ∈ fields, row.get field = row'.get field

def keyTexts (missing : String) (fields : List String) (row : Value F) : List (List Char) :=
  fields.map fun field => (cellText missing (row.get field)).toList

def keyPieces (missing : String) (fields : List String) (row : Value F) : List (List Char) :=
  (keyTexts missing fields row).flatMap (·.splitOn '|')

def HasSeparator (missing : String) (fields : List String) (row : Value F) : Prop :=
  ∃ text ∈ keyTexts missing fields row, '|' ∈ text

def Merged (missing : String) (blank : Value F → Prop) (fields : List String) (row row' : Value F) :
    Prop :=
  (∀ field ∈ fields, LooksLike blank (row.get field) (row'.get field)) ∨
    (HasSeparator missing fields row ∨ HasSeparator missing fields row') ∧
      keyPieces missing fields row = keyPieces missing fields row'

variable (fields : List String)

theorem toList_joinKey (row : Value F) :
    (joinKey (fields.map fun field => cellText missing (row.get field))).toList =
      ['|'].intercalate (keyTexts missing fields row) := by
  rw [joinKey, String.toList_intercalate, List.map_map]
  rfl

theorem joinKey_eq_iff_pieces (row row' : Value F) :
    joinKey (fields.map fun field => cellText missing (row.get field)) =
        joinKey (fields.map fun field => cellText missing (row'.get field)) ↔
      keyPieces missing fields row = keyPieces missing fields row' := by
  have hlength : (keyTexts missing fields row).length = (keyTexts missing fields row').length := by
    rw [keyTexts, keyTexts, List.length_map, List.length_map]
  rw [← String.toList_inj, toList_joinKey, toList_joinKey, intercalate_eq_iff hlength]
  rfl

theorem joinKey_eq_iff [Decimal F] {missing : String} {blank : Value F → Prop}
    (hblank : ∀ v, cellText missing (some v) = missing ↔ blank v) (fields : List String)
    (row row' : Value F) :
    joinKey (fields.map fun field => cellText missing (row.get field)) =
        joinKey (fields.map fun field => cellText missing (row'.get field)) ↔
      Merged missing blank fields row row' := by
  have htexts : keyTexts missing fields row = keyTexts missing fields row' ↔
      ∀ field ∈ fields, LooksLike blank (row.get field) (row'.get field) := by
    rw [keyTexts, keyTexts, List.map_inj_left]
    refine forall_congr' fun field => imp_congr_right fun _ => ?_
    rw [String.toList_inj, cellText_eq_iff hblank]
  rw [joinKey_eq_iff_pieces, Merged, ← htexts]
  constructor
  · intro hpieces
    by_cases hsep : HasSeparator missing fields row ∨ HasSeparator missing fields row'
    · exact .inr ⟨hsep, hpieces⟩
    · -- texts without a separator are their own pieces
      rw [not_or, HasSeparator, HasSeparator] at hsep
      push Not at hsep
      rw [keyPieces, keyPieces, flatMap_splitOn_of_not_mem hsep.1,
        flatMap_splitOn_of_not_mem hsep.2] at hpieces
      exact .inl hpieces
  · rintro (htext | ⟨-, hpieces⟩)
    · rw [keyPieces, keyPieces, htext]
    · exact hpieces

/-! ## Rows -/

theorem buildKeyForRow_eq_iff [Decimal F] (toLowercase : String → String)
    {config : DeduplicatorConfig F} (hexact : config.method = .Exact) (row row' : Value F) :
    StreamingDeduplicator.buildKeyForRow toLowercase config row =
        StreamingDeduplicator.buildKeyForRow toLowercase config row' ↔
      Merged "" looksEmpty config.keyFields row row' := by
  rw [← joinKey_eq_iff cellText_eq_empty_iff, StreamingDeduplicator.buildKeyForRow,
    StreamingDeduplicator.buildKeyForRow, hexact, streaming_fieldText_eq, streaming_fieldText_eq]
  rfl

theorem buildDedupKey_eq_iff [Decimal F] (row row' : Value F) :
    OptimizedStepExecutor.buildDedupKey fields row =
        OptimizedStepExecutor.buildDedupKey fields row' ↔
      Merged "null" looksNull fields row row' := by
  rw [← joinKey_eq_iff cellText_eq_null_iff, OptimizedStepExecutor.buildDedupKey,
    OptimizedStepExecutor.buildDedupKey, optimized_fieldText_eq, optimized_fieldText_eq]

def LeavesOut (key : Value F → String) (before : List (Value F)) (row : Value F) : Prop :=
  ((before ++ [row]).foldl (insertUnseen key) ([], [])).2 =
    (before.foldl (insertUnseen key) ([], [])).2

omit [Float64 F] in
theorem leavesOut_iff (key : Value F → String) (before : List (Value F)) (row : Value F) :
    LeavesOut key before row ↔ ∃ earlier ∈ before, key earlier = key row := by
  have hseen : key row ∈ keysAfter key [] before ↔ ∃ earlier ∈ before, key earlier = key row := by
    rw [mem_keysAfter]
    simp
  rw [← hseen, LeavesOut, foldl_insertUnseen_nil, foldl_insertUnseen_nil, firsts, firsts,
    firstMarks_append, List.reduceOption_append]
  by_cases hmem : key row ∈ keysAfter key [] before
  · simp [firstMarks, hmem]
  · simp [firstMarks, hmem, List.reduceOption_cons_of_some]

def KeysDiffer (toLowercase : String → String) (config : DeduplicatorConfig F)
    (row row' : Value F) : Prop :=
  StreamingDeduplicator.buildKeyForRow toLowercase config row ≠
      StreamingDeduplicator.buildKeyForRow toLowercase config row' ∧
    OptimizedStepExecutor.buildDedupKey config.keyFields row ≠
      OptimizedStepExecutor.buildDedupKey config.keyFields row'

def ToldApart (fields : List String) (row row' : Value F) : Prop :=
  SameValues fields row row' ∨
    ¬ Merged "" looksEmpty fields row row' ∧ ¬ Merged "null" looksNull fields row row'

/-- **Keys tell rows apart exactly where no key merges them**, and among rows like that each one that
is left out has the values of an earlier one. -/
theorem keys_tell_apart_iff [Decimal F] (toLowercase : String → String)
    (config : DeduplicatorConfig F) (hexact : config.method = .Exact) :
    (∀ row row', (¬ SameValues config.keyFields row row' → KeysDiffer toLowercase config row row') ↔
      ToldApart config.keyFields row row') ∧
    ∀ before row, (∀ earlier ∈ before, ToldApart config.keyFields earlier row) →
      (LeavesOut (StreamingDeduplicator.buildKeyForRow toLowercase config) before row →
        ∃ earlier ∈ before, SameValues config.keyFields earlier row) ∧
      (LeavesOut (OptimizedStepExecutor.buildDedupKey config.keyFields) before row →
        ∃ earlier ∈ before, SameValues config.keyFields earlier row) := by
  constructor
  · intro row row'
    rw [KeysDiffer, ne_eq, ne_eq, buildKeyForRow_eq_iff toLowercase hexact, buildDedupKey_eq_iff,
      ToldApart, or_iff_not_imp_left]
  · intro before row htold
    rw [leavesOut_iff, leavesOut_iff]
    constructor
    · rintro ⟨earlier, hmem, hkey⟩
      rcases htold earlier hmem with hsame | hnot
      · exact ⟨earlier, hmem, hsame⟩
      · exact absurd ((buildKeyForRow_eq_iff toLowercase hexact earlier row).mp hkey) hnot.1
    · rintro ⟨earlier, hmem, hkey⟩
      rcases htold earlier hmem with hsame | hnot
      · exact ⟨earlier, hmem, hsame⟩
      · exact absurd ((buildDedupKey_eq_iff config.keyFields earlier row).mp hkey) hnot.2

def byIdAndName : DeduplicatorConfig Int where
  method := .Exact
  keyFields := ["id", "name"]
  threshold := none
  keep := .First

def named (id name : String) : Value Int := .object [("id", .string id), ("name", .string name)]

theorem not_sameValues_named {id id' name name' : String} (h : id ≠ id') :
    ¬ SameValues byIdAndName.keyFields (named id name) (named id' name') := by
  intro hsame
  have hid : some (Value.string id : Value Int) = some (.string id') := hsame "id" (by decide)
  exact h (Value.string.inj (Option.some.inj hid))

/-- A separator in a value does no harm by itself. -/
theorem separated_rows_told_apart :
    KeysDiffer sampleRuntime.toLowercase byIdAndName (named "a|b" "c") (named "a" "c") := by
  refine ((keys_tell_apart_iff sampleRuntime.toLowercase byIdAndName rfl).1 _ _).mpr (.inr ?_)
    (not_sameValues_named (by decide))
  rw [← joinKey_eq_iff cellText_eq_empty_iff, ← joinKey_eq_iff cellText_eq_null_iff]
  decide +kernel

/-- The key of both rows is `a|b|c`. -/
theorem separated_rows_merged : ¬ ∀ (toLowercase : String → String) (config : DeduplicatorConfig Int),
    config.method = .Exact → ∀ row row', ¬ SameValues config.keyFields row row' →
      KeysDiffer toLowercase config row row' := by
  intro h
  have hdiffer := (h sampleRuntime.toLowercase byIdAndName rfl (named "a|b" "c") (named "a" "b|c")
    (not_sameValues_named (by decide))).1
  exact absurd (by decide +kernel) hdiffer

end Arcxa.Workflow
