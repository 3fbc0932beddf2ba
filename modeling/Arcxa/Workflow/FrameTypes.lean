import Arcxa.Workflow.Frame

/-!
# Column types and the values they hold

The type of a column is merged from the values of its field in the order of the rows
(`get_inferArrowSchema`). `merge` is a join on the types without `Boolean` and on those without
`Float64`, but not on all of them: a boolean and an integer make text, a boolean and a float make a
float, and floats hold no booleans. So the order counts exactly for columns with a boolean and a
float and no text; there a frame is built only if a boolean and an integer come before the first
float (`Settles`).
-/

namespace Arcxa.Workflow

variable {F : Type}

open FrameDataType (merge)

/-! ## The type of a column -/

def columnValues (rows : List (Row F)) (k : String) : List (Value F) := rows.filterMap (·.get k)

def columnTypes (rows : List (Row F)) (k : String) : List FrameDataType :=
  (columnValues rows k).map .observeJson

def mergeAll (types : List FrameDataType) : FrameDataType := types.foldl merge .Null

def profileOf (k : String) : List (Value F) → Option FrameFieldProfile
  | [] => none
  | v :: values =>
    some
      { name := k
        dataType := mergeAll ((v :: values).map .observeJson)
        nullable := (v :: values).any Value.isNull }

theorem merge_Null (t : FrameDataType) : merge .Null t = t := by
  cases t <;> rfl

theorem mergeAll_concat (types : List FrameDataType) (t : FrameDataType) :
    mergeAll (types ++ [t]) = (mergeAll types).merge t := by
  rw [mergeAll, List.foldl_append]
  rfl

theorem profileOf_concat (k : String) (values : List (Value F)) (v : Value F) :
    profileOf k (values ++ [v]) = some (observeField (k, v) (profileOf k values)) := by
  cases values with
  | nil =>
    show some (FrameFieldProfile.mk k (merge .Null _) _) = _
    rw [merge_Null]
    simp [profileOf, observeField]
  | cons w values =>
    rw [List.cons_append, profileOf, profileOf, observeField, ← List.cons_append, List.map_append,
      List.map_singleton, mergeAll_concat, List.any_append]
    simp

theorem get_inferArrowSchema (rows : List (Row F)) (k : String) :
    (inferArrowSchema rows).get k = profileOf k (columnValues rows k) := by
  induction rows using List.reverseRecOn with
  | nil => rfl
  | append_singleton rows row ih =>
    rw [inferArrowSchema, List.foldl_append, List.foldl_cons, List.foldl_nil, get_observeRow,
      ← inferArrowSchema, ih, columnValues, columnValues, List.filterMap_append]
    cases hget : row.get k with
    | none => simp [hget]
    | some v =>
      have hone : [row].filterMap (·.get k) = [v] := by simp [hget]
      rw [hone]
      exact (profileOf_concat k _ v).symm

/-! ## Joins -/

def joinTypes (utf8 float64 int64 boolean : Bool) : FrameDataType :=
  if utf8 then .Utf8
  else if float64 then .Float64
  else if int64 then if boolean then .Utf8 else .Int64
  else if boolean then .Boolean
  else .Null

def summary (types : List FrameDataType) : FrameDataType :=
  joinTypes (types.contains .Utf8) (types.contains .Float64) (types.contains .Int64)
    (types.contains .Boolean)

theorem joinTypes_merge (d t : FrameDataType) (u f i b : Bool)
    (h : ((.Boolean == d || (.Boolean == t || b)) && (.Float64 == d || (.Float64 == t || f))) = false) :
    joinTypes (.Utf8 == merge d t || u) (.Float64 == merge d t || f) (.Int64 == merge d t || i)
        (.Boolean == merge d t || b) =
      joinTypes (.Utf8 == d || (.Utf8 == t || u)) (.Float64 == d || (.Float64 == t || f))
        (.Int64 == d || (.Int64 == t || i)) (.Boolean == d || (.Boolean == t || b)) := by
  revert u f i b
  cases d <;> cases t <;> decide

theorem compatible_merge (d t : FrameDataType) (f b : Bool)
    (h : ((.Boolean == d || (.Boolean == t || b)) && (.Float64 == d || (.Float64 == t || f))) = false) :
    ((.Boolean == merge d t || b) && (.Float64 == merge d t || f)) = false := by
  revert f b
  cases d <;> cases t <;> decide

def clash (types : List FrameDataType) : Bool := types.contains .Boolean && types.contains .Float64

variable {types : List FrameDataType}

theorem foldl_merge_eq_summary (d : FrameDataType)
    (h : clash (d :: types) = false) : types.foldl merge d = summary (d :: types) := by
  induction types generalizing d with
  | nil =>
    rw [summary]
    cases d <;> rfl
  | cons t types ih =>
    rw [clash, List.contains_cons, List.contains_cons, List.contains_cons, List.contains_cons] at h
    have hnext : clash (merge d t :: types) = false := by
      rw [clash, List.contains_cons, List.contains_cons]
      exact compatible_merge d t _ _ h
    rw [List.foldl_cons, ih _ hnext]
    simp only [summary, List.contains_cons]
    exact joinTypes_merge d t _ _ _ _ h

theorem mergeAll_eq_summary (h : clash types = false) :
    mergeAll types = summary types := by
  rw [mergeAll, foldl_merge_eq_summary]
  · simp [summary]
  · simpa [clash] using h

theorem foldl_merge_Utf8 (types : List FrameDataType) : types.foldl merge .Utf8 = .Utf8 := by
  induction types with
  | nil => rfl
  | cons t types ih => exact ih

theorem merge_Utf8 (t : FrameDataType) : merge t .Utf8 = .Utf8 := by
  cases t <;> rfl

theorem mergeAll_of_mem (h : .Utf8 ∈ types) :
    mergeAll types = .Utf8 := by
  obtain ⟨before, after, rfl⟩ := List.append_of_mem h
  rw [mergeAll, List.foldl_append, List.foldl_cons, merge_Utf8, foldl_merge_Utf8]

theorem foldl_merge_Float64 (h : .Utf8 ∉ types) :
    types.foldl merge .Float64 = .Float64 := by
  induction types with
  | nil => rfl
  | cons t types ih =>
    rw [List.mem_cons, not_or] at h
    have ht : merge .Float64 t = .Float64 := by
      cases t with
      | Utf8 => exact absurd rfl h.1
      | _ => rfl
    rw [List.foldl_cons, ht, ih h.2]

/-! ## Which values a column holds -/

def FrameDataType.holds : FrameDataType → FrameDataType → Bool
  | Utf8, _ | Null, _ => true
  | _, Null => true
  | Boolean, t => t == Boolean
  | Int64, t | Float64, t => t == Int64 || t == Float64

def beforeFloat (types : List FrameDataType) : List FrameDataType :=
  types.takeWhile (· != .Float64)

/-- A column with a boolean and a float and no text has become text before its first float. -/
def Settles (types : List FrameDataType) : Prop :=
  .Boolean ∈ types → .Float64 ∈ types → .Utf8 ∉ types →
    .Boolean ∈ beforeFloat types ∧ .Int64 ∈ beforeFloat types

instance (types : List FrameDataType) : Decidable (Settles types) :=
  inferInstanceAs (Decidable (_ → _ → _ → _ ∧ _))

def settledType (types : List FrameDataType) : FrameDataType :=
  if clash types then .Utf8 else summary types

theorem clash_iff :
    clash types = true ↔ .Boolean ∈ types ∧ .Float64 ∈ types := by
  rw [clash, Bool.and_eq_true, List.contains_iff_mem, List.contains_iff_mem]

theorem beforeFloat_append (hfloat : .Float64 ∈ types) :
    ∃ rest, types = beforeFloat types ++ .Float64 :: rest ∧ .Float64 ∉ beforeFloat types := by
  induction types with
  | nil => cases hfloat
  | cons t types ih =>
    by_cases ht : t = .Float64
    · subst ht
      exact ⟨types, by simp [beforeFloat]⟩
    · have hcons : beforeFloat (t :: types) = t :: beforeFloat types := by simp [beforeFloat, ht]
      obtain ⟨rest, hrest, hnot⟩ := ih ((List.mem_cons.mp hfloat).resolve_left (Ne.symm ht))
      rw [hcons]
      refine ⟨rest, ?_, by simpa [Ne.symm ht] using hnot⟩
      rw [List.cons_append, ← hrest]

theorem merge_joinTypes_Float64 (i b : Bool) :
    merge (joinTypes false false i b) .Float64 = if b && i then .Utf8 else .Float64 := by
  cases i <;> cases b <;> rfl

theorem mergeAll_of_clash (hfloat : .Float64 ∈ types)
    (htext : .Utf8 ∉ types) : mergeAll types =
      if .Boolean ∈ beforeFloat types ∧ .Int64 ∈ beforeFloat types then .Utf8 else .Float64 := by
  obtain ⟨rest, hsplit, hnot⟩ := beforeFloat_append hfloat
  generalize beforeFloat types = before at hsplit hnot ⊢
  subst hsplit
  rw [List.mem_append, List.mem_cons, not_or, not_or] at htext
  have hclash : clash before = false := by
    rw [← Bool.not_eq_true, clash_iff]
    exact fun hboth => hnot hboth.2
  have hu : before.contains .Utf8 = false := by simpa using htext.1
  have hf : before.contains .Float64 = false := by simpa using hnot
  rw [mergeAll, List.foldl_append, List.foldl_cons, ← mergeAll, mergeAll_eq_summary hclash, summary,
    hu, hf, merge_joinTypes_Float64]
  simp only [Bool.and_eq_true, List.contains_iff_mem]
  split_ifs
  · exact foldl_merge_Utf8 rest
  · exact foldl_merge_Float64 htext.2.2

theorem mergeAll_of_settles (h : Settles types) :
    mergeAll types = settledType types := by
  rw [settledType]
  cases hclash : clash types with
  | false => exact mergeAll_eq_summary hclash
  | true =>
    rw [if_pos rfl]
    obtain ⟨hbool, hfloat⟩ := clash_iff.mp hclash
    by_cases htext : .Utf8 ∈ types
    · exact mergeAll_of_mem htext
    · rw [mergeAll_of_clash hfloat htext, if_pos (h hbool hfloat htext)]

theorem holds_summary (t : FrameDataType) (u f i b : Bool) (hclash : (b && f) = false)
    (h : (t == .Utf8 → u) ∧ (t == .Float64 → f) ∧ (t == .Int64 → i) ∧ (t == .Boolean → b)) :
    (joinTypes u f i b).holds t = true := by
  revert u f i b
  cases t <;> decide

/-- **A column takes all its values exactly if it settles.** -/
theorem holds_iff_settles (types : List FrameDataType) :
    (∀ t ∈ types, (mergeAll types).holds t = true) ↔ Settles types := by
  constructor
  · intro hholds hbool hfloat htext
    by_contra hnot
    have hfalse := hholds .Boolean hbool
    rw [mergeAll_of_clash hfloat htext, if_neg hnot] at hfalse
    cases hfalse
  · intro hsettles t ht
    rw [mergeAll_of_settles hsettles, settledType]
    cases hclash : clash types with
    | true => rfl
    | false =>
      rw [if_neg Bool.false_ne_true, summary]
      refine holds_summary t _ _ _ _ hclash ?_
      simp only [beq_iff_eq, List.contains_iff_mem]
      refine ⟨?_, ?_, ?_, ?_⟩ <;> (rintro rfl; exact ht)

theorem settledType_perm {types types' : List FrameDataType} (h : types.Perm types') :
    settledType types = settledType types' := by
  have hcontains : ∀ t, types.contains t = types'.contains t := by
    intro t
    rw [Bool.eq_iff_iff, List.contains_iff_mem, List.contains_iff_mem, h.mem_iff]
  rw [settledType, settledType, clash, clash, summary, summary]
  simp only [hcontains]

end Arcxa.Workflow
