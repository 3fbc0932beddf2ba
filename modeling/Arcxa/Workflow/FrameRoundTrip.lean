import Arcxa.Workflow.FrameCells

/-!
# Rows through a frame and back

Rows come back from their frame in number and order, and a missing field as `null`. What becomes of a
value is decided by its whole column (`Kept`): a column of one kind gives it back, with floats among
the numbers an integer becomes a float, and with booleans among the numbers every value becomes text.
-/

namespace Arcxa.Workflow

variable {F : Type}

namespace Value

def isBool : Value F → Bool
  | bool _ => true
  | _ => false

def isString : Value F → Bool
  | string _ => true
  | _ => false

def isNumber : Value F → Bool
  | number _ => true
  | _ => false

def isFloat : Value F → Bool
  | number (.float _) => true
  | _ => false

def isScalar : Value F → Bool
  | array _ | object _ => false
  | _ => true

end Value

/-- The value of a number; `num` is that of a float. -/
def Number.value (num : F → ℚ) : Number F → ℚ
  | .int n => n.val
  | .float x => num x

def SameValue (num : F → ℚ) (v w : Value F) : Prop :=
  v = w ∨ ∃ n m, v = .number n ∧ w = .number m ∧ n.value num = m.value num

/-- A column with strings only, or with none and no arrays or objects. -/
def PlainColumn (column : List (Value F)) : Prop :=
  (∀ u ∈ column, u.isNull || u.isString) ∨ ∀ u ∈ column, u.isNull || u.isBool || u.isNumber

variable [Float64 F]

/-- What is read back for a value of a column. -/
structure Kept (num : F → ℚ) (column : List (Value F)) (v w : Value F) : Prop where
  null : v = .null → w = .null
  strings : (∀ u ∈ column, u.isNull || u.isString) → w = v
  booleans : (∀ u ∈ column, u.isNull || u.isBool) → w = v
  integers : (∀ u ∈ column, u.isNull || u.isNumber) → (∀ u ∈ column, u.isFloat = false) →
    ∀ n : JsonInt, v = .number (.int n) → n.val < 2 ^ 63 → w = v
  floats : (∀ u ∈ column, u.isNull || u.isNumber) → ∀ x, v = .number (.float x) → w = v
  rounded : (∀ u ∈ column, u.isNull || u.isNumber) → (∃ u ∈ column, u.isFloat = true) →
    ∀ n : JsonInt, v = .number (.int n) → w = .number (.float (Float64.ofInt n.val)) ∧
      (-2 ^ 53 ≤ n.val → n.val ≤ 2 ^ 53 → SameValue num v w)
  mixed : (∀ u ∈ column, u.isNull || u.isBool || u.isNumber) → (∃ u ∈ column, u.isBool = true) →
    (∃ u ∈ column, u.isNumber = true) → v ≠ .null → w = .string v.toString

/-! ## Columns of one kind -/

section Kinds

variable {rows : List (Row F)} {k : String}

omit [Float64 F] in
theorem contains_columnTypes {t : FrameDataType} :
    (columnTypes rows k).contains t = true ↔
      ∃ u ∈ columnValues rows k, FrameDataType.observeJson u = t := by
  rw [List.contains_iff_mem, columnTypes, List.mem_map]

omit [Float64 F] in
theorem not_contains_columnTypes {t : FrameDataType}
    (h : ∀ u ∈ columnValues rows k, FrameDataType.observeJson u ≠ t) :
    (columnTypes rows k).contains t = false := by
  rw [← Bool.not_eq_true, contains_columnTypes]
  rintro ⟨u, hu, ht⟩
  exact h u hu ht

omit [Float64 F] in
theorem mergeAll_columnTypes (h : (columnTypes rows k).contains .Boolean = false ∨
    (columnTypes rows k).contains .Float64 = false) :
    mergeAll (columnTypes rows k) = summary (columnTypes rows k) := by
  apply mergeAll_eq_summary
  rw [clash, Bool.and_eq_false_iff]
  exact h

variable {v : Value F}

omit [Float64 F] in
theorem mergeAll_of_string (hv : v ∈ columnValues rows k) (hstring : v.isString = true) :
    mergeAll (columnTypes rows k) = .Utf8 := by
  apply mergeAll_of_mem
  rw [← List.contains_iff_mem, contains_columnTypes]
  cases v with
  | string s => exact ⟨_, hv, rfl⟩
  | _ => cases hstring

omit [Float64 F] in
theorem mergeAll_of_booleans (hcolumn : ∀ u ∈ columnValues rows k, u.isNull || u.isBool)
    (hv : v ∈ columnValues rows k) (hbool : v.isBool = true) :
    mergeAll (columnTypes rows k) = .Boolean := by
  have hnot : ∀ t, t ≠ .Null → t ≠ .Boolean → (columnTypes rows k).contains t = false := by
    intro t hnull hne
    apply not_contains_columnTypes
    intro u hu ht
    have hu := hcolumn u hu
    cases u with
    | null => exact hnull ht.symm
    | bool b => exact hne ht.symm
    | _ => cases hu
  have hcontains : (columnTypes rows k).contains .Boolean = true := by
    rw [contains_columnTypes]
    cases v with
    | bool b => exact ⟨_, hv, rfl⟩
    | _ => cases hbool
  rw [mergeAll_columnTypes (.inr (hnot _ (by decide) (by decide))), summary, hcontains,
    hnot .Utf8 (by decide) (by decide), hnot .Float64 (by decide) (by decide),
    hnot .Int64 (by decide) (by decide)]
  rfl

omit [Float64 F] in
theorem mergeAll_of_numbers (hcolumn : ∀ u ∈ columnValues rows k, u.isNull || u.isNumber)
    (hv : v ∈ columnValues rows k) (hnumber : v.isNumber = true) :
    mergeAll (columnTypes rows k) =
      if (columnTypes rows k).contains .Float64 then .Float64 else .Int64 := by
  have hnot : ∀ t, t = .Utf8 ∨ t = .Boolean → (columnTypes rows k).contains t = false := by
    intro t ht
    apply not_contains_columnTypes
    intro u hu htype
    have hu := hcolumn u hu
    cases u with
    | null => rcases ht with rfl | rfl <;> cases htype
    | number n => cases n <;> rcases ht with rfl | rfl <;> cases htype
    | _ => cases hu
  rw [mergeAll_columnTypes (.inl (hnot _ (.inr rfl))), summary, hnot _ (.inl rfl),
    hnot _ (.inr rfl), joinTypes, if_neg Bool.false_ne_true]
  cases hfloat : (columnTypes rows k).contains .Float64 with
  | true => rfl
  | false =>
    have hint : (columnTypes rows k).contains .Int64 = true := by
      rw [contains_columnTypes]
      cases v with
      | number n =>
        cases n with
        | int n => exact ⟨_, hv, rfl⟩
        | float x =>
          have hmem : (columnTypes rows k).contains .Float64 = true :=
            contains_columnTypes.mpr ⟨_, hv, rfl⟩
          rw [hfloat] at hmem
          cases hmem
      | _ => cases hnumber
    rw [hint]
    rfl

omit [Float64 F] in
theorem contains_Float64_iff :
    (columnTypes rows k).contains .Float64 = true ↔ ∃ u ∈ columnValues rows k, u.isFloat = true := by
  rw [contains_columnTypes]
  refine exists_congr fun u => and_congr_right fun _ => ?_
  cases u with
  | number n => cases n <;> simp [FrameDataType.observeJson, Value.isFloat]
  | _ => simp [FrameDataType.observeJson, Value.isFloat]

omit [Float64 F] in
theorem mergeAll_of_mixed (hsettles : Settles (columnTypes rows k))
    (hbool : ∃ u ∈ columnValues rows k, u.isBool = true)
    (hnumber : ∃ u ∈ columnValues rows k, u.isNumber = true) :
    mergeAll (columnTypes rows k) = .Utf8 := by
  have hb : (columnTypes rows k).contains .Boolean = true := by
    obtain ⟨u, hu, hub⟩ := hbool
    rw [contains_columnTypes]
    cases u with
    | bool b => exact ⟨_, hu, rfl⟩
    | _ => cases hub
  rw [mergeAll_of_settles hsettles, settledType, clash, hb, Bool.true_and]
  cases hfloat : (columnTypes rows k).contains .Float64 with
  | true => rfl
  | false =>
    have hi : (columnTypes rows k).contains .Int64 = true := by
      obtain ⟨u, hu, hun⟩ := hnumber
      rw [contains_columnTypes]
      cases u with
      | number n =>
        cases n with
        | int n => exact ⟨_, hu, rfl⟩
        | float x =>
          have hmem : (columnTypes rows k).contains .Float64 = true :=
            contains_columnTypes.mpr ⟨_, hu, rfl⟩
          rw [hfloat] at hmem
          cases hmem
      | _ => cases hun
    rw [if_neg Bool.false_ne_true, summary, hb, hi, hfloat]
    cases (columnTypes rows k).contains .Utf8 <;> rfl

end Kinds

theorem kept_storedAs {num : F → ℚ}
    (hnum : ∀ n : Int, -2 ^ 53 ≤ n → n ≤ 2 ^ 53 → num (Float64.ofInt n) = n) {rows : List (Row F)}
    {k : String} (hsettles : Settles (columnTypes rows k)) {v : Value F}
    (hv : v ∈ columnValues rows k) :
    Kept num (columnValues rows k) v (storedAs (mergeAll (columnTypes rows k)) v) := by
  have hnull : storedAs (mergeAll (columnTypes rows k)) (.null : Value F) = .null := by
    cases mergeAll (columnTypes rows k) <;> rfl
  constructor
  case null =>
    rintro rfl
    exact hnull
  case strings =>
    intro hcolumn
    cases v with
    | null => exact hnull
    | string s =>
      rw [mergeAll_of_string hv rfl]
      rfl
    | _ => cases hcolumn _ hv
  case booleans =>
    intro hcolumn
    cases v with
    | null => exact hnull
    | bool b =>
      rw [mergeAll_of_booleans hcolumn hv rfl]
      rfl
    | _ => cases hcolumn _ hv
  case integers =>
    rintro hcolumn hnofloat n rfl hlt
    have hfloat : (columnTypes rows k).contains .Float64 = false := by
      rw [← Bool.not_eq_true, contains_Float64_iff]
      rintro ⟨u, hu, huf⟩
      rw [hnofloat u hu] at huf
      cases huf
    rw [mergeAll_of_numbers hcolumn hv rfl, hfloat, if_neg Bool.false_ne_true]
    simp only [storedAs, Number.asI64, if_pos hlt, Option.some_or, Option.elim_some]
    rw [ofI64_ofInt n hlt]
  case floats =>
    rintro hcolumn x rfl
    rw [mergeAll_of_numbers hcolumn hv rfl, contains_Float64_iff.mpr ⟨_, hv, rfl⟩, if_pos rfl]
    rfl
  case rounded =>
    rintro hcolumn hfloat n rfl
    rw [mergeAll_of_numbers hcolumn hv rfl, contains_Float64_iff.mpr hfloat, if_pos rfl]
    refine ⟨rfl, fun hle hge => .inr ⟨_, _, rfl, rfl, ?_⟩⟩
    exact (hnum n.val hle hge).symm
  case mixed =>
    intro hcolumn hbool hnumber hne
    rw [mergeAll_of_mixed hsettles hbool hnumber]
    have hkind := hcolumn v hv
    cases v with
    | null => exact absurd rfl hne
    | bool b => rfl
    | number n => rfl
    | _ => cases hkind

/-! ## Rows -/

theorem fromJsonValues_ofRow (rows : List (Row F)) :
    BatchFrame.fromJsonValues (rows.map Value.ofRow) = BatchFrame.fromObjectRows rows := by
  unfold BatchFrame.fromJsonValues
  rw [jsonValuesToObjectRows_ofRow]
  rfl

theorem exists_toJsonValues {rows : List (Row F)} {frame : BatchFrame F}
    (hframe : BatchFrame.fromJsonValues (rows.map Value.ofRow) = .ok frame) :
    (∀ k, Settles (columnTypes rows k)) ∧
      ∃ out : List (Row F), frame.toJsonValues = .ok (out.map Value.ofRow) ∧
        out.length = rows.length ∧
        ∀ (i : Nat) row, rows[i]? = some row → ∃ outRow, out[i]? = some outRow ∧
          ∀ k, outRow.get k =
            ((inferArrowSchema rows).get k).map fun p => readBack p.dataType (row.get k) := by
  rw [fromJsonValues_ofRow] at hframe
  have hsettles := exists_fromObjectRows_iff.mp ⟨frame, hframe⟩
  rw [fromObjectRows_eq_builtFrame hsettles] at hframe
  cases hframe
  obtain ⟨out, hout, hrows⟩ := toObjectRows_builtFrame hsettles
  refine ⟨hsettles, out, ?_, hrows⟩
  rw [BatchFrame.toJsonValues, hout]
  rfl

theorem readBack_of_get {rows : List (Row F)} {row : Row F} (hrow : row ∈ rows) {k : String}
    {v : Value F} (hv : row.get k = some v) :
    ((inferArrowSchema rows).get k).map (fun p => readBack p.dataType (row.get k)) =
      some (storedAs (mergeAll (columnTypes rows k)) v) := by
  obtain ⟨p, hp⟩ := exists_profile (mem_columnValues.mpr ⟨row, hrow, hv⟩)
  rw [hp, hv, ← (get_inferArrowSchema_some hp).2]
  rfl

/-- **What comes back from a frame**: the rows in number and order, nothing but `null` for a missing
field, and every value as its column keeps it. -/
theorem frame_keeps_rows (num : F → ℚ)
    (hnum : ∀ n : Int, -2 ^ 53 ≤ n → n ≤ 2 ^ 53 → num (Float64.ofInt n) = n) (rows : List (Row F))
    {frame : BatchFrame F}
    (hframe : BatchFrame.fromJsonValues (rows.map Value.ofRow) = .ok frame) :
    ∃ out : List (Row F), frame.toJsonValues = .ok (out.map Value.ofRow) ∧
      out.length = rows.length ∧
      ∀ (i : Nat) row, rows[i]? = some row → ∃ outRow, out[i]? = some outRow ∧
        ∀ k, (row.get k = none → (outRow.get k).all Value.isNull = true) ∧
          ∀ v, row.get k = some v → ∃ w, outRow.get k = some w ∧
            Kept num (columnValues rows k) v w := by
  obtain ⟨hsettles, out, hout, hlength, hrows⟩ := exists_toJsonValues hframe
  refine ⟨out, hout, hlength, ?_⟩
  intro i row hrow
  obtain ⟨outRow, houtRow, hget⟩ := hrows i row hrow
  refine ⟨outRow, houtRow, fun k => ⟨?_, ?_⟩⟩
  · intro hnone
    rw [hget, hnone]
    cases (inferArrowSchema rows).get k <;> rfl
  · intro v hv
    have hmem := List.mem_of_getElem? hrow
    exact ⟨_, (hget k).trans (readBack_of_get hmem hv),
      kept_storedAs hnum (hsettles k) (mem_columnValues.mpr ⟨row, hmem, hv⟩)⟩

variable {values : List (Value F)}

omit [Float64 F] in
theorem columnValues_oneField (values : List (Value F)) (k : String) :
    columnValues (values.map oneField) k = if k = "v" then values else [] := by
  rw [columnValues, List.filterMap_map]
  have hget : ((·.get k) ∘ oneField) = fun v : Value F => if k = "v" then some v else none := by
    funext v
    exact BTreeMap.get_insert ..
  rw [hget]
  split_ifs
  · rw [List.filterMap_some]
  · simp

omit [Float64 F] in
theorem columnTypes_oneField (values : List (Value F)) (k : String) :
    columnTypes (values.map oneField) k = if k = "v" then values.map .observeJson else [] := by
  rw [columnTypes, columnValues_oneField]
  split_ifs <;> rfl

omit [Float64 F] in
theorem settles_oneField (h : Settles (values.map .observeJson)) (k : String) :
    Settles (columnTypes (values.map oneField) k) := by
  rw [columnTypes_oneField]
  split_ifs
  · exact h
  · exact nofun

def numberColumn : List (Value Int) := [.number (.int (.ofByte 1)), .number (.float 2), .null]

/-- An integer beside a float comes back as one, and the row without a number as it is. -/
theorem numbers_keep_rows :
    ∃ frame, BatchFrame.fromJsonValues ((numberColumn.map oneField).map Value.ofRow) = .ok frame ∧
      ∃ out : List (Row Int), frame.toJsonValues = .ok (out.map Value.ofRow) ∧
        out.length = 3 ∧ out[0]?.bind (BTreeMap.get · "v") = some (.number (.float 1)) ∧
          out[1]?.bind (BTreeMap.get · "v") = some (.number (.float 2)) ∧
          out[2]?.bind (BTreeMap.get · "v") = some .null := by
  have hframe := fromObjectRows_eq_builtFrame (@settles_oneField _ numberColumn (by decide))
  rw [← fromJsonValues_ofRow] at hframe
  obtain ⟨out, hout, hlength, hrows⟩ := frame_keeps_rows (fun n : Int => (n : ℚ)) (fun _ _ _ => rfl) _
    hframe
  have hcell : ∀ (i : Nat) v, numberColumn[i]? = some v → ∃ w, out[i]?.bind (BTreeMap.get · "v") = some w ∧
      Kept (fun n : Int => (n : ℚ)) numberColumn v w := by
    intro i v hv
    have hrow : (numberColumn.map oneField)[i]? = some (oneField v) := by
      rw [List.getElem?_map, hv, Option.map_some]
    obtain ⟨row, hget, hcells⟩ := hrows i _ hrow
    obtain ⟨w, hw, hkept⟩ := (hcells "v").2 v (BTreeMap.get_insert ..)
    rw [columnValues_oneField, if_pos rfl] at hkept
    exact ⟨w, by rw [hget, Option.bind_some, hw], hkept⟩
  have hnumbers : ∀ u ∈ numberColumn, u.isNull || u.isNumber := by decide
  obtain ⟨one, hone, hkept⟩ := hcell 0 _ rfl
  obtain ⟨two, htwo, hkept₂⟩ := hcell 1 _ rfl
  obtain ⟨three, hthree, hkept₃⟩ := hcell 2 _ rfl
  cases (hkept.rounded hnumbers (by decide) _ rfl).1
  cases hkept₂.floats hnumbers _ rfl
  cases hkept₃.null rfl
  exact ⟨_, hframe, out, hout, hlength, hone, htwo, hthree⟩

def KeepsPlainColumns (num : F → ℚ) (rows : List (Row F)) : Prop :=
  ∀ frame, BatchFrame.fromJsonValues (rows.map Value.ofRow) = .ok frame →
    ∃ out : List (Row F), frame.toJsonValues = .ok (out.map Value.ofRow) ∧
      out.length = rows.length ∧
      ∀ (i : Nat) row, rows[i]? = some row → ∃ outRow, out[i]? = some outRow ∧
        ∀ k, (row.get k = none → (outRow.get k).all Value.isNull = true) ∧
          ∀ v, row.get k = some v → v.isScalar = true → PlainColumn (columnValues rows k) →
            ∃ w, outRow.get k = some w ∧ SameValue num v w

theorem sameValue_of_keeps {num : F → ℚ} (h : KeepsPlainColumns num (values.map oneField))
    (hsettles : Settles (values.map .observeJson)) (hplain : PlainColumn values) {v : Value F}
    (hv : v ∈ values) (hscalar : v.isScalar = true) :
    SameValue num v (storedAs (mergeAll (values.map .observeJson)) v) := by
  have hframe := fromObjectRows_eq_builtFrame (settles_oneField hsettles)
  rw [← fromJsonValues_ofRow] at hframe
  obtain ⟨out, hout, -, hkeeps⟩ := h _ hframe
  obtain ⟨-, out', hout', -, hrows⟩ := exists_toJsonValues hframe
  have hsame : out = out' := by
    rw [hout] at hout'
    refine (List.map_injective_iff.mpr ?_) (Except.ok.inj hout')
    intro row row' heq
    exact BTreeMap.ext (Value.object.inj heq)
  subst hsame
  have hget : (oneField v).get "v" = some v := BTreeMap.get_insert ..
  have hmem : oneField v ∈ values.map oneField := List.mem_map_of_mem hv
  obtain ⟨i, hi⟩ := List.mem_iff_getElem?.mp hmem
  obtain ⟨outRow, houtRow, hcells⟩ := hkeeps i _ hi
  obtain ⟨outRow', houtRow', hread⟩ := hrows i _ hi
  cases houtRow.symm.trans houtRow'
  have hcolumn : PlainColumn (columnValues (values.map oneField) "v") := by
    rwa [columnValues_oneField, if_pos rfl]
  obtain ⟨w, hw, hkept⟩ := (hcells "v").2 v hget hscalar hcolumn
  rw [hread, readBack_of_get hmem hget, columnTypes_oneField, if_pos rfl] at hw
  exact Option.some.inj hw ▸ hkept

def boolBesideInt : List (Value Int) := [.bool true, .number (.int (.ofByte 1))]

/-- Floats that have no odd numbers from `2 ^ 53` on. -/
structure Rounded where
  val : Int

instance : Float64 Rounded where
  ofInt n := ⟨if n.natAbs ≤ 2 ^ 53 then n else n / 2 * 2⟩
  add x _ := x
  div x _ := x
  lt x y := decide (x.val < y.val)
  display x := toString x.val
  fixed _ x := toString x.val
  toBits x := (Int64.ofInt x.val).toUInt64
  ofBits bits := ⟨bits.toInt64.toInt⟩
  toBits_ofBits := by simp

def largeBesideFloat : List (Value Rounded) :=
  [.number (.int ⟨2 ^ 53 + 1, by decide⟩), .number (.float ⟨2⟩)]

/-- A boolean beside an integer comes back as text, and an integer above `2 ^ 53` beside a float as
another number. -/
theorem boolean_beside_integer :
    (¬ ∀ rows : List (Row Int), KeepsPlainColumns (fun n : Int => (n : ℚ)) rows) ∧
      ¬ ∀ rows : List (Row Rounded), KeepsPlainColumns (fun x => (x.val : ℚ)) rows := by
  refine ⟨fun h => ?_, fun h => ?_⟩
  · have hsame := sameValue_of_keeps (h (boolBesideInt.map oneField)) (by decide)
      (.inr (by decide)) (.head _) rfl
    rcases hsame with heq | ⟨n, m, heq, -⟩ <;> cases heq
  · have hsame := sameValue_of_keeps (h (largeBesideFloat.map oneField)) (by decide)
      (.inr (by decide)) (.head _) rfl
    rcases hsame with heq | ⟨n, m, hn, hm, hvalue⟩
    · cases heq
    · cases hn
      cases hm
      exact absurd (Int.cast_injective hvalue) (by decide)

end Arcxa.Workflow
