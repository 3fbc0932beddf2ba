import Arcxa.Workflow.FrameTypes

/-!
# Which rows have a frame, and what it reads back

A frame is built exactly if every column takes all its values (`exists_fromObjectRows_iff`), and it
then reads every value back as its column stores it (`toObjectRows_builtFrame`). So the order of the
rows changes neither the schema nor whether there is a frame exactly where all columns settle in both
orders (`schema_order_iff`).
-/

namespace Arcxa.Workflow

variable {F : Type} [Float64 F]

/-! ## Cells -/

def storedAs : FrameDataType → Value F → Value F
  | _, .null => .null
  | .Int64, .number n =>
    (n.asI64.or (n.asU64.map UInt64.toInt64)).elim .null fun x => .number (.ofI64 x)
  | .Float64, .number n => .number (.float n.asF64)
  | .Utf8, .string s | .Null, .string s => .string s
  | .Utf8, v | .Null, v => .string v.toString
  | _, v => v

/-- A missing value is read back as `null`. -/
def readBack (t : FrameDataType) (o : Option (Value F)) : Value F := o.elim .null (storedAs t)

section Cells

variable (name : String) {v : Value F}

theorem booleanCell_holds (h : FrameDataType.Boolean.holds (.observeJson v) = true) :
    ∃ cell, booleanCell name (some v) = .ok cell ∧ cell.elim .null .bool = storedAs .Boolean v := by
  cases v with
  | null => exact ⟨none, rfl, rfl⟩
  | bool b => exact ⟨some b, rfl, rfl⟩
  | number n => cases n <;> cases h
  | string | array | object => cases h

theorem booleanCell_error (h : FrameDataType.Boolean.holds (.observeJson v) = false) :
    ∃ e, booleanCell name (some v) = .error e := by
  cases v with
  | null | bool => cases h
  | number | string | array | object => exact ⟨_, rfl⟩

theorem int64Cell_holds (h : FrameDataType.Int64.holds (.observeJson v) = true) :
    ∃ cell, int64Cell name (some v) = .ok cell ∧
      cell.elim .null (fun x => Value.number (.ofI64 x)) = storedAs .Int64 v := by
  cases v with
  | null => exact ⟨none, rfl, rfl⟩
  | number n =>
    refine ⟨n.asI64.or (n.asU64.map UInt64.toInt64), ?_, rfl⟩
    rw [int64Cell]
    cases n.asI64 <;> rfl
  | bool | string | array | object => cases h

theorem int64Cell_error (h : FrameDataType.Int64.holds (.observeJson v) = false) :
    ∃ e, int64Cell name (some v) = .error e := by
  cases v with
  | null => cases h
  | number n => cases n <;> cases h
  | bool | string | array | object => exact ⟨_, rfl⟩

theorem float64Cell_holds (h : FrameDataType.Float64.holds (.observeJson v) = true) :
    ∃ cell, float64Cell name (some v) = .ok cell ∧
      cell.elim .null (fun x => Value.number (.float x)) = storedAs .Float64 v := by
  cases v with
  | null => exact ⟨none, rfl, rfl⟩
  | number n => exact ⟨some n.asF64, rfl, rfl⟩
  | bool | string | array | object => cases h

theorem float64Cell_error (h : FrameDataType.Float64.holds (.observeJson v) = false) :
    ∃ e, float64Cell name (some v) = .error e := by
  cases v with
  | null => cases h
  | number n => cases n <;> cases h
  | bool | string | array | object => exact ⟨_, rfl⟩

theorem utf8Cell_eq (v : Value F) :
    ∃ cell, utf8Cell (some v) = .ok cell ∧ cell.elim .null Value.string = storedAs .Utf8 v ∧
      cell.elim .null Value.string = storedAs .Null v := by
  cases v with
  | null => exact ⟨none, rfl, rfl, rfl⟩
  | string s => exact ⟨some s, rfl, rfl, rfl⟩
  | bool | number | array | object => exact ⟨some _, rfl, rfl, rfl⟩

end Cells

/-! ## Columns -/

def Takes (rows : List (Row F)) (p : FrameFieldProfile) : Prop :=
  ∀ row ∈ rows, ∀ v, row.get p.name = some v → p.dataType.holds (.observeJson v) = true

omit [Float64 F] in
theorem exists_cells {β : Type} (name : String) (rows : List (Row F))
    (cell : Option (Value F) → Except WorkflowError β) (stored : Value F → Value F) {read : β → Value F}
    (hnone : ∃ b, cell none = .ok b ∧ read b = .null)
    (hsome : ∀ row ∈ rows, ∀ v, row.get name = some v →
      ∃ b, cell (some v) = .ok b ∧ read b = stored v) :
    ∃ cells, rows.mapM (fun row => cell (row.get name)) = .ok cells ∧
      cells.map read = rows.map fun row => (row.get name).elim .null stored := by
  refine mapM_eq_ok fun row hrow => ?_
  cases hget : row.get name with
  | none => exact hnone
  | some v => exact hsome row hrow v hget

variable {rows : List (Row F)} {p : FrameFieldProfile}

theorem buildArrowColumn_takes (h : Takes rows p) :
    ∃ column, buildArrowColumn rows p = .ok column ∧ column.dataType = p.dataType.toArrow ∧
      column.values = rows.map fun row => readBack p.dataType (row.get p.name) := by
  obtain ⟨name, dataType, nullable⟩ := p
  unfold buildArrowColumn
  cases dataType with
  | Boolean =>
    obtain ⟨cells, hcells, hvalues⟩ := exists_cells name rows (booleanCell name)
      (storedAs .Boolean) ⟨none, rfl, rfl⟩ fun row hrow v hv => booleanCell_holds name (h row hrow v hv)
    exact ⟨.boolean cells, by simp only [buildBooleanArray, hcells]; rfl, rfl, hvalues⟩
  | Int64 =>
    obtain ⟨cells, hcells, hvalues⟩ := exists_cells name rows (int64Cell name)
      (storedAs .Int64) ⟨none, rfl, rfl⟩ fun row hrow v hv => int64Cell_holds name (h row hrow v hv)
    exact ⟨.int64 cells, by simp only [buildInt64Array, hcells]; rfl, rfl, hvalues⟩
  | Float64 =>
    obtain ⟨cells, hcells, hvalues⟩ := exists_cells name rows (float64Cell name)
      (storedAs .Float64) ⟨none, rfl, rfl⟩ fun row hrow v hv => float64Cell_holds name (h row hrow v hv)
    exact ⟨.float64 cells, by simp only [buildFloat64Array, hcells]; rfl, rfl, hvalues⟩
  | Utf8 =>
    obtain ⟨cells, hcells, hvalues⟩ := exists_cells name rows utf8Cell
      (storedAs .Utf8) ⟨none, rfl, rfl⟩ fun row hrow v hv => (utf8Cell_eq v).imp fun cell hcell => ⟨hcell.1, hcell.2.1⟩
    exact ⟨.utf8 cells, by simp only [buildUtf8Array, hcells]; rfl, rfl, hvalues⟩
  | Null =>
    obtain ⟨cells, hcells, hvalues⟩ := exists_cells name rows utf8Cell
      (storedAs .Null) ⟨none, rfl, rfl⟩ fun row hrow v hv => (utf8Cell_eq v).imp fun cell hcell => ⟨hcell.1, hcell.2.2⟩
    exact ⟨.utf8 cells, by simp only [buildUtf8Array, hcells]; rfl, rfl, hvalues⟩

theorem mapM_eq_error {α β ε : Type} {f : α → Except ε β} {l : List α} {a : α} (ha : a ∈ l)
    (h : ∃ e, f a = .error e) : ∃ e, l.mapM f = .error e := by
  induction l with
  | nil => cases ha
  | cons b l ih =>
    rw [List.mapM_cons]
    cases hb : f b with
    | error e => exact ⟨e, rfl⟩
    | ok c =>
      rcases List.mem_cons.mp ha with rfl | hmem
      · obtain ⟨e, he⟩ := h
        rw [hb] at he
        cases he
      · obtain ⟨e, he⟩ := ih hmem
        rw [he]
        exact ⟨e, rfl⟩

theorem buildArrowColumn_error (h : ¬ Takes rows p) :
    ∃ e, buildArrowColumn rows p = .error e := by
  obtain ⟨name, dataType, nullable⟩ := p
  rw [Takes] at h
  push Not at h
  obtain ⟨row, hrow, v, hv, hnot⟩ := h
  replace hnot := eq_false_of_ne_true hnot
  unfold buildArrowColumn
  cases dataType with
  | Boolean =>
    obtain ⟨e, he⟩ := mapM_eq_error (f := fun row : Row F => booleanCell name (row.get name)) hrow
      (hv ▸ booleanCell_error name hnot)
    exact ⟨e, by simp only [buildBooleanArray, he]; rfl⟩
  | Int64 =>
    obtain ⟨e, he⟩ := mapM_eq_error (f := fun row : Row F => int64Cell name (row.get name)) hrow
      (hv ▸ int64Cell_error name hnot)
    exact ⟨e, by simp only [buildInt64Array, he]; rfl⟩
  | Float64 =>
    obtain ⟨e, he⟩ := mapM_eq_error (f := fun row : Row F => float64Cell name (row.get name)) hrow
      (hv ▸ float64Cell_error name hnot)
    exact ⟨e, by simp only [buildFloat64Array, he]; rfl⟩
  | Utf8 | Null => cases hnot

/-! ## Frames -/

variable {k : String}

omit [Float64 F] in
theorem mem_columnValues {v : Value F} :
    v ∈ columnValues rows k ↔ ∃ row ∈ rows, row.get k = some v :=
  List.mem_filterMap

omit [Float64 F] in
theorem get_inferArrowSchema_some (h : (inferArrowSchema rows).get k = some p) :
    p.name = k ∧ p.dataType = mergeAll (columnTypes rows k) := by
  rw [get_inferArrowSchema] at h
  rw [columnTypes]
  cases hvalues : columnValues rows k with
  | nil =>
    rw [hvalues] at h
    cases h
  | cons v values =>
    rw [hvalues] at h
    cases h
    exact ⟨rfl, rfl⟩

omit [Float64 F] in
theorem exists_profile {v : Value F} (h : v ∈ columnValues rows k) :
    ∃ p, (inferArrowSchema rows).get k = some p := by
  rw [get_inferArrowSchema]
  cases hvalues : columnValues rows k with
  | nil =>
    rw [hvalues] at h
    cases h
  | cons w values => exact ⟨_, rfl⟩

omit [Float64 F] in
theorem takes_iff (h : (inferArrowSchema rows).get k = some p) :
    Takes rows p ↔ Settles (columnTypes rows k) := by
  obtain ⟨rfl, htype⟩ := get_inferArrowSchema_some h
  rw [← holds_iff_settles, ← htype, columnTypes, List.forall_mem_map]
  constructor
  · intro htakes v hv
    obtain ⟨row, hrow, hget⟩ := mem_columnValues.mp hv
    exact htakes row hrow v hget
  · intro hall row hrow v hget
    exact hall v (mem_columnValues.mpr ⟨row, hrow, hget⟩)

section Built

variable {rows : List (Row F)}

theorem builtColumn_takes {e : String × FrameFieldProfile} (h : Takes rows e.2) :
    buildArrowColumn rows e.2 = .ok (builtColumn rows e.2) ∧
      (builtColumn rows e.2).dataType = e.2.dataType.toArrow ∧
      (builtColumn rows e.2).values =
        rows.map fun row => readBack e.2.dataType (row.get e.2.name) := by
  obtain ⟨column, hok, htype, hvalues⟩ := buildArrowColumn_takes h
  rw [builtColumn_eq hok]
  exact ⟨hok, htype, hvalues⟩

omit [Float64 F] in
theorem takes_of_mem (h : ∀ k, Settles (columnTypes rows k)) {e : String × FrameFieldProfile}
    (he : e ∈ (inferArrowSchema rows).entries) : Takes rows e.2 :=
  (takes_iff (BTreeMap.mem_entries_iff.mp he)).mpr (h e.1)

theorem fromObjectRows_eq_builtFrame (h : ∀ k, Settles (columnTypes rows k)) :
    BatchFrame.fromObjectRows rows = .ok (builtFrame rows) :=
  fromObjectRows_of_built fun _ he => (builtColumn_takes (takes_of_mem h he)).1

/-- **Rows have a frame exactly if every column settles.** -/
theorem exists_fromObjectRows_iff :
    (∃ frame, BatchFrame.fromObjectRows rows = .ok frame) ↔
      ∀ k, Settles (columnTypes rows k) := by
  constructor
  · rintro ⟨frame, hframe⟩ k
    by_cases hvalues : columnValues rows k = []
    · rw [columnTypes, hvalues]
      exact fun hbool => nomatch hbool
    · obtain ⟨v, hv⟩ := List.exists_mem_of_ne_nil _ hvalues
      obtain ⟨p, hp⟩ := exists_profile hv
      rw [← takes_iff hp]
      by_contra hnot
      have hmem : p ∈ (inferArrowSchema rows).entries.map Prod.snd :=
        List.mem_map.mpr ⟨(k, p), BTreeMap.mem_entries_iff.mpr hp, rfl⟩
      obtain ⟨e, he⟩ := mapM_eq_error hmem (buildArrowColumn_error hnot)
      unfold BatchFrame.fromObjectRows at hframe
      dsimp only at hframe
      rw [he] at hframe
      cases hframe
  · exact fun h => ⟨_, fromObjectRows_eq_builtFrame h⟩

theorem get_rowAt_builtFrame (h : ∀ k, Settles (columnTypes rows k)) {i : Nat} {row : Row F}
    (hrow : rows[i]? = some row) (k : String) :
    (rowAt ((builtFrame rows).schema.zip (builtFrame rows).columns) i).get k =
      ((inferArrowSchema rows).get k).map fun p => readBack p.dataType (row.get k) := by
  have hentries : ((inferArrowSchema rows).entries.map
      (fun e => (e.2.toArrow, builtColumn rows e.2))).map (fun p => (p.1.name, p.2.value i)) =
      (inferArrowSchema rows).entries.map (fun e => (e.1, readBack e.2.dataType (row.get e.1))) := by
    rw [List.map_map]
    refine List.map_congr_left ?_
    intro e he
    have hname := (get_inferArrowSchema_some (BTreeMap.mem_entries_iff.mp he)).1
    show (e.2.name, (builtColumn rows e.2).value i) = _
    rw [Column.value, (builtColumn_takes (takes_of_mem h he)).2.2, List.getElem?_map, hrow, hname]
    rfl
  have hsorted : ((inferArrowSchema rows).entries.map
      (fun e => (e.1, readBack e.2.dataType (row.get e.1)))).Pairwise (fun p q => p.1 < q.1) :=
    List.pairwise_map.mpr (inferArrowSchema rows).sorted
  rw [rowAt, zip_builtFrame, hentries, BTreeMap.get_ofList hsorted,
    BTreeMap.lookupList_map
      (fun e : String × FrameFieldProfile => readBack e.2.dataType (row.get e.1))]
  show Option.map _ ((inferArrowSchema rows).get k) = _
  cases (inferArrowSchema rows).get k <;> rfl

def storedRows (rows : List (Row F)) : List (Row F) :=
  (List.range rows.length).map (rowAt ((builtFrame rows).schema.zip (builtFrame rows).columns))

@[simp] theorem length_storedRows (rows : List (Row F)) : (storedRows rows).length = rows.length := by
  rw [storedRows, List.length_map, List.length_range]

theorem getElem?_storedRows {i : Nat} {row : Row F} (hrow : rows[i]? = some row) :
    (storedRows rows)[i]? =
      some (rowAt ((builtFrame rows).schema.zip (builtFrame rows).columns) i) := by
  rw [storedRows, List.getElem?_map, List.getElem?_range (List.getElem?_eq_some_iff.mp hrow).1]
  rfl

variable (h : ∀ k, Settles (columnTypes rows k))

include h

theorem exists_storedRow {i : Nat} {row : Row F} (hrow : rows[i]? = some row) :
    ∃ stored, (storedRows rows)[i]? = some stored ∧
      ∀ k, stored.get k = ((inferArrowSchema rows).get k).map fun p => readBack p.dataType (row.get k) :=
  ⟨_, getElem?_storedRows hrow, get_rowAt_builtFrame h hrow⟩

theorem types_builtFrame :
    ∀ p ∈ (builtFrame rows).schema.zip (builtFrame rows).columns, p.2.dataType = p.1.dataType := by
  rw [zip_builtFrame]
  intro p hp
  obtain ⟨e, he, rfl⟩ := List.mem_map.mp hp
  exact (builtColumn_takes (takes_of_mem h he)).2.1

theorem toObjectRows_builtFrame :
    ∃ out, (builtFrame rows).toObjectRows = .ok out ∧ out.length = rows.length ∧
      ∀ (i : Nat) row, rows[i]? = some row → ∃ outRow, out[i]? = some outRow ∧
        ∀ k, outRow.get k =
          ((inferArrowSchema rows).get k).map fun p => readBack p.dataType (row.get k) :=
  ⟨storedRows rows, materialize_eq (types_builtFrame h) rows.length, length_storedRows rows,
    fun _ _ hrow => exists_storedRow h hrow⟩

end Built

/-! ## The order of the rows -/

/-- Both lists of rows have a frame, with one schema. -/
structure InfersAlike (rows rows' : List (Row F)) : Prop where
  profile : inferArrowSchema rows' = inferArrowSchema rows
  built : ∃ frame, BatchFrame.fromObjectRows rows = .ok frame
  built' : ∃ frame, BatchFrame.fromObjectRows rows' = .ok frame

omit [Float64 F] in
theorem columnValues_cons {row : Row F} {v : Value F} (h : row.get k = some v) (rows : List (Row F)) :
    columnValues (row :: rows) k = v :: columnValues rows k :=
  List.filterMap_cons_some h

variable {rows rows' : List (Row F)}

omit [Float64 F] in
theorem columnValues_perm (h : rows'.Perm rows) (k : String) :
    (columnValues rows' k).Perm (columnValues rows k) :=
  h.filterMap _

omit [Float64 F] in
theorem columnTypes_perm (h : rows'.Perm rows) (k : String) :
    (columnTypes rows' k).Perm (columnTypes rows k) :=
  (columnValues_perm h k).map _

omit [Float64 F] in
theorem profileOf_perm (k : String) {values values' : List (Value F)} (h : values'.Perm values)
    (htype : mergeAll (values'.map .observeJson) = mergeAll (values.map .observeJson)) :
    profileOf k values' = profileOf k values := by
  cases values with
  | nil => rw [h.eq_nil]
  | cons v values =>
    cases values' with
    | nil => exact absurd h.symm.eq_nil (List.cons_ne_nil v values)
    | cons v' values' =>
      have hany : (v' :: values').any Value.isNull = (v :: values).any Value.isNull := by
        rw [Bool.eq_iff_iff, List.any_eq_true, List.any_eq_true]
        simp only [h.mem_iff]
      rw [profileOf, profileOf, htype, hany]

theorem infersAlike_iff (h : rows'.Perm rows) :
    InfersAlike rows rows' ↔
      ∀ k, Settles (columnTypes rows k) ∧ Settles (columnTypes rows' k) := by
  constructor
  · intro halike k
    exact ⟨exists_fromObjectRows_iff.mp halike.built k,
      exists_fromObjectRows_iff.mp halike.built' k⟩
  · intro hsettles
    refine ⟨BTreeMap.ext_get fun k => ?_, exists_fromObjectRows_iff.mpr fun k => (hsettles k).1,
      exists_fromObjectRows_iff.mpr fun k => (hsettles k).2⟩
    rw [get_inferArrowSchema, get_inferArrowSchema]
    apply profileOf_perm k (columnValues_perm h k)
    calc mergeAll (columnTypes rows' k)
        = settledType (columnTypes rows' k) := mergeAll_of_settles (hsettles k).2
      _ = settledType (columnTypes rows k) := settledType_perm (columnTypes_perm h k)
      _ = mergeAll (columnTypes rows k) := (mergeAll_of_settles (hsettles k).1).symm

/-- **The schema and the frame do not depend on the order of the rows exactly where every column with
a boolean and a float has text.** For two given orders, every column must settle in both. -/
theorem schema_order_iff (rows : List (Row F)) :
    ((∀ rows', rows'.Perm rows → InfersAlike rows rows') ↔
      ∀ k, .Boolean ∈ columnTypes rows k → .Float64 ∈ columnTypes rows k →
        .Utf8 ∈ columnTypes rows k) ∧
    ∀ rows', rows'.Perm rows → (InfersAlike rows rows' ↔
      ∀ k, Settles (columnTypes rows k) ∧ Settles (columnTypes rows' k)) := by
  refine ⟨⟨?_, ?_⟩, fun rows' h => infersAlike_iff h⟩
  · intro hall k hbool hfloat
    by_contra htext
    -- the row of the float comes first
    obtain ⟨v, hv, hobserved⟩ := List.mem_map.mp hfloat
    obtain ⟨row, hrow, hget⟩ := mem_columnValues.mp hv
    obtain ⟨before, after, rfl⟩ := List.append_of_mem hrow
    have hperm : (row :: (before ++ after)).Perm (before ++ row :: after) := List.perm_middle.symm
    have hsettles := ((infersAlike_iff hperm).mp (hall _ hperm) k).2
    have hfirst : columnTypes (row :: (before ++ after)) k =
        .Float64 :: columnTypes (before ++ after) k := by
      rw [columnTypes, columnValues_cons hget, List.map_cons, hobserved]
      rfl
    have hmem := fun t => (columnTypes_perm hperm k).mem_iff (a := t)
    have hnone := (hsettles ((hmem _).mpr hbool) ((hmem _).mpr hfloat)
      (fun h => htext ((hmem _).mp h))).1
    rw [hfirst] at hnone
    simp [beforeFloat] at hnone
  · intro htext rows' hperm
    have hmem := fun k t => (columnTypes_perm hperm k).mem_iff (a := t)
    rw [infersAlike_iff hperm]
    intro k
    constructor
    · exact fun hbool hfloat hnot => absurd (htext k hbool hfloat) hnot
    · intro hbool hfloat hnot
      exact absurd ((hmem k _).mpr (htext k ((hmem k _).mp hbool) ((hmem k _).mp hfloat))) hnot

def oneField (v : Value F) : Row F := BTreeMap.empty.insert "v" v

/-- An integer, a boolean and a string make text in every order. -/
theorem mixed_with_text_alike :
    ∀ rows' : List (Row Int), rows'.Perm [oneField (.number (.int (.ofByte 1))),
        oneField (.bool true), oneField (.string "x")] →
      InfersAlike [oneField (.number (.int (.ofByte 1))), oneField (.bool true),
        oneField (.string "x")] rows' := by
  refine ((schema_order_iff [oneField (.number (.int (.ofByte 1))), oneField (.bool true),
    oneField (.string "x")]).1).mpr ?_
  intro k _ hfloat
  obtain ⟨v, hv, hobserved⟩ := List.mem_map.mp hfloat
  obtain ⟨row, hrow, hget⟩ := mem_columnValues.mp hv
  simp only [List.mem_cons, List.not_mem_nil, or_false] at hrow
  rcases hrow with rfl | rfl | rfl <;>
    (rw [oneField, BTreeMap.get_insert] at hget; split_ifs at hget <;> cases hget; cases hobserved)

/-- The same three values make text in one order and no frame in another. -/
theorem order_of_rows_counts : ¬ ∀ rows rows' : List (Row Int), rows'.Perm rows →
    InfersAlike rows rows' := by
  intro h
  have hperm : [oneField (.number (.float (2 : Int))), oneField (.bool true),
      oneField (.number (.int (.ofByte 1)))].Perm [oneField (.bool true),
        oneField (.number (.int (.ofByte 1))), oneField (.number (.float 2))] :=
    (List.perm_append_singleton _ [_, _]).symm
  have htype := congrArg (fun m => (m.get "v").map (·.dataType)) (h _ _ hperm).profile
  exact absurd htype (by decide +kernel)

end Arcxa.Workflow
