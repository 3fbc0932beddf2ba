import Arcxa.Workflow.Json

/-!
# Batch frames (`runtime/frame`)

A `BatchFrame` holds rows column by column. The column types are inferred from all the
values of a field: integers and floats widen to floats, whatever else is mixed becomes
text, and so do arrays and objects. Reading the rows back is therefore faithful only for
rows whose columns are of one type each: `Lossless` says that, and
`materialize_fromObjectRows` that every slice of such a frame reads back as the same slice
of the rows.
-/

namespace Arcxa.Workflow

open BTreeMap

variable {F : Type}

/-! ## Schema inference -/

inductive FrameDataType where
  | Null | Boolean | Int64 | Float64 | Utf8
  deriving DecidableEq, Repr

/-- The Arrow types a frame uses. -/
inductive DataType where
  | Boolean | Int64 | Float64 | Utf8
  deriving DecidableEq, Repr

namespace FrameDataType

def merge : FrameDataType → FrameDataType → FrameDataType
  | Utf8, _ | _, Utf8 => Utf8
  | Float64, _ | _, Float64 => Float64
  | Int64, Int64 => Int64
  | Boolean, Boolean => Boolean
  | Null, rhs => rhs
  | lhs, Null => lhs
  | _, _ => Utf8

def observeJson : Value F → FrameDataType
  | .null => Null
  | .bool _ => Boolean
  | .number (.int _) => Int64
  | .number (.float _) => Float64
  | .string _ => Utf8
  | .array _ | .object _ => Utf8

def toArrow : FrameDataType → DataType
  | Null => .Utf8
  | Boolean => .Boolean
  | Int64 => .Int64
  | Float64 => .Float64
  | Utf8 => .Utf8

end FrameDataType

structure FrameFieldProfile where
  name : String
  dataType : FrameDataType
  nullable : Bool
  deriving DecidableEq, Repr

structure Field where
  name : String
  dataType : DataType
  isNullable : Bool
  deriving DecidableEq, Repr

/-- The entry of `profiles` after one more value of its field. -/
def observeField (entry : String × Value F) : Option FrameFieldProfile → FrameFieldProfile
  | some field =>
    { field with
      dataType := field.dataType.merge (.observeJson entry.2)
      nullable := field.nullable || entry.2.isNull }
  | none =>
    { name := entry.1, dataType := .observeJson entry.2, nullable := entry.2.isNull }

def observeRow (profiles : BTreeMap String FrameFieldProfile) (row : Row F) :
    BTreeMap String FrameFieldProfile :=
  row.entries.foldl (fun profiles entry => profiles.upsert entry.1 (observeField entry)) profiles

def inferArrowSchema (rows : List (Row F)) : BTreeMap String FrameFieldProfile :=
  rows.foldl observeRow .empty

def FrameFieldProfile.toArrow (field : FrameFieldProfile) : Field where
  name := field.name
  dataType := field.dataType.toArrow
  isNullable := field.nullable

/-! ## Columns -/

inductive Column (F : Type) where
  | boolean (cells : List (Option Bool))
  | int64 (cells : List (Option Int64))
  | float64 (cells : List (Option F))
  | utf8 (cells : List (Option String))

namespace Column

def dataType : Column F → DataType
  | boolean _ => .Boolean
  | int64 _ => .Int64
  | float64 _ => .Float64
  | utf8 _ => .Utf8

def len : Column F → Nat
  | boolean cells => cells.length
  | int64 cells => cells.length
  | float64 cells => cells.length
  | utf8 cells => cells.length

/-- `Array::sliced`. -/
def sliced (offset length : Nat) : Column F → Column F
  | boolean cells => boolean ((cells.drop offset).take length)
  | int64 cells => int64 ((cells.drop offset).take length)
  | float64 cells => float64 ((cells.drop offset).take length)
  | utf8 cells => utf8 ((cells.drop offset).take length)

/-- The column as JSON values; a missing cell is `null`. -/
def values : Column F → List (Value F)
  | boolean cells => cells.map (fun cell => cell.elim .null .bool)
  | int64 cells => cells.map (fun cell => cell.elim .null (fun x => .number (.ofI64 x)))
  | float64 cells => cells.map (fun cell => cell.elim .null (fun x => .number (.float x)))
  | utf8 cells => cells.map (fun cell => cell.elim .null .string)

def value (column : Column F) (i : Nat) : Value F := (column.values[i]?).getD .null

end Column

def unexpectedValue [Float64 F] (columnName expected : String) (other : Value F) : WorkflowError :=
  .InvalidData ("Column '" ++ columnName ++ "' expected " ++ expected ++ " values but found " ++
    other.toString)

section Build

variable [Float64 F]

def booleanCell (columnName : String) : Option (Value F) → Except WorkflowError (Option Bool)
  | none | some .null => .ok none
  | some (.bool b) => .ok (some b)
  | some other => .error (unexpectedValue columnName "boolean" other)

def int64Cell (columnName : String) : Option (Value F) → Except WorkflowError (Option Int64)
  | none | some .null => .ok none
  | some (.number n) =>
    -- an integer above `i64::MAX` wraps around
    .ok (match n.asI64 with
      | some x => some x
      | none => n.asU64.map UInt64.toInt64)
  | some other => .error (unexpectedValue columnName "integer" other)

def float64Cell (columnName : String) : Option (Value F) → Except WorkflowError (Option F)
  | none | some .null => .ok none
  | some (.number n) => .ok (some n.asF64)
  | some other => .error (unexpectedValue columnName "numeric" other)

def utf8Cell : Option (Value F) → Except WorkflowError (Option String)
  | none | some .null => .ok none
  | some (.string s) => .ok (some s)
  | some other => .ok (some other.toString)

def buildBooleanArray (columnName : String) (rows : List (Row F)) :
    Except WorkflowError (Column F) :=
  (rows.mapM (fun row => booleanCell columnName (row.get columnName))).map .boolean

def buildInt64Array (columnName : String) (rows : List (Row F)) :
    Except WorkflowError (Column F) :=
  (rows.mapM (fun row => int64Cell columnName (row.get columnName))).map .int64

def buildFloat64Array (columnName : String) (rows : List (Row F)) :
    Except WorkflowError (Column F) :=
  (rows.mapM (fun row => float64Cell columnName (row.get columnName))).map .float64

def buildUtf8Array (columnName : String) (rows : List (Row F)) :
    Except WorkflowError (Column F) :=
  (rows.mapM (fun row => utf8Cell (row.get columnName))).map .utf8

def buildArrowColumn (rows : List (Row F)) (field : FrameFieldProfile) :
    Except WorkflowError (Column F) :=
  match field.dataType with
  | .Boolean => buildBooleanArray field.name rows
  | .Int64 => buildInt64Array field.name rows
  | .Float64 => buildFloat64Array field.name rows
  | .Utf8 | .Null => buildUtf8Array field.name rows

end Build

/-! ## Frames -/

structure BatchFrame (F : Type) where
  schemaProfile : List FrameFieldProfile
  schema : List Field
  columns : List (Column F)
  rowCount : Nat

def objectRow : Value F → Except WorkflowError (Row F)
  | .object fields => .ok (.ofList fields)
  | _ => .error (.InvalidData "BatchFrame requires JSON object rows")

def jsonValuesToObjectRows (rows : List (Value F)) : Except WorkflowError (List (Row F)) :=
  rows.mapM objectRow

def expectedArray : DataType → String
  | .Boolean => "BooleanArray"
  | .Int64 => "Int64 array"
  | .Float64 => "Float64 array"
  | .Utf8 => "Utf8 array"

def insertColumn (rows : List (Row F)) (p : Field × Column F) :
    Except WorkflowError (List (Row F)) :=
  if p.2.dataType = p.1.dataType then
    .ok (rows.mapIdx (fun i row => row.insert p.1.name (p.2.value i)))
  else
    .error (.InvalidData
      ("Expected " ++ expectedArray p.1.dataType ++ " for column '" ++ p.1.name ++ "'"))

def materialize (schema : List Field) (columns : List (Column F)) (rowCount : Nat) :
    Except WorkflowError (List (Row F)) :=
  (schema.zip columns).foldlM insertColumn (List.replicate rowCount .empty)

namespace BatchFrame

def toObjectRows (frame : BatchFrame F) : Except WorkflowError (List (Row F)) :=
  materialize frame.schema frame.columns frame.rowCount

def toJsonValues (frame : BatchFrame F) : Except WorkflowError (List (Value F)) :=
  frame.toObjectRows.map (fun rows => rows.map Value.ofRow)

variable [Float64 F]

def fromObjectRows (rows : List (Row F)) : Except WorkflowError (BatchFrame F) := do
  let profiles := (inferArrowSchema rows).entries.map Prod.snd
  let columns ← profiles.mapM (buildArrowColumn rows)
  return {
    schemaProfile := profiles
    schema := profiles.map FrameFieldProfile.toArrow
    columns
    rowCount := rows.length }

def fromJsonValues (rows : List (Value F)) : Except WorkflowError (BatchFrame F) := do
  fromObjectRows (← jsonValuesToObjectRows rows)

/-- `select_rows`. -/
def selectRows (frame : BatchFrame F) (rowIndices : List Nat) :
    Except WorkflowError (BatchFrame F) := do
  for rowIndex in rowIndices do
    if rowIndex ≥ frame.rowCount then
      throw (.InvalidData ("BatchFrame row index " ++ toString rowIndex ++
        " is out of bounds for " ++ toString frame.rowCount ++ " rows"))
  let rows ← frame.toJsonValues
  fromJsonValues (rowIndices.filterMap (fun i => rows[i]?))

end BatchFrame

/-! ## Lossless rows -/

/-- The values a column of the type holds without loss. -/
def Fits : DataType → Value F → Prop
  | _, .null => True
  | .Boolean, .bool _ => True
  | .Int64, .number (.int n) => n.val < 2 ^ 63
  | .Float64, .number (.float _) => True
  | .Utf8, .string _ => True
  | _, _ => False

/-- Every row has the same fields, and each field has values of one type, or `null`. -/
def Lossless (rows : List (Row F)) : Prop :=
  ∃ columns : BTreeMap String DataType,
    ∀ row ∈ rows, ∀ k, Option.Rel Fits (columns.get k) (row.get k)

/-! ### The inferred schema -/

def FrameDataType.ofArrow : DataType → FrameDataType
  | .Boolean => Boolean
  | .Int64 => Int64
  | .Float64 => Float64
  | .Utf8 => Utf8

theorem FrameDataType.merge_ofArrow (t : DataType) :
    merge (ofArrow t) (ofArrow t) = ofArrow t ∧ merge Null (ofArrow t) = ofArrow t ∧
      merge (ofArrow t) Null = ofArrow t := by
  cases t <;> decide

theorem Fits.observeJson {t : DataType} {v : Value F} (h : Fits t v) :
    v = .null ∨ FrameDataType.observeJson v = .ofArrow t := by
  unfold Fits at h
  split at h
  · exact .inl rfl
  · exact .inr rfl
  · exact .inr rfl
  · exact .inr rfl
  · exact .inr rfl
  · exact h.elim

/-- What is known of the profiles when the rows of `seen` have been observed. -/
structure Observed (columns : BTreeMap String DataType) (seen : List (Row F))
    (profiles : BTreeMap String FrameFieldProfile) : Prop where
  absent : ∀ k, profiles.get k = none → ∀ row ∈ seen, row.get k = none
  present : ∀ k p, profiles.get k = some p → p.name = k ∧ ∃ t, columns.get k = some t ∧
    (p.dataType = .ofArrow t ∨
      p.dataType = .Null ∧ ∀ row ∈ seen, ∀ v, row.get k = some v → v = .null)

theorem get_observeRow (profiles : BTreeMap String FrameFieldProfile) (row : Row F) (k : String) :
    (observeRow profiles row).get k =
      (row.get k).elim (profiles.get k) (fun v => some (observeField (k, v) (profiles.get k))) :=
  BTreeMap.get_foldl_upsert observeField row.sorted profiles k

/-- The type of a field when one more value that fits is merged in: it is the column's, unless
there has been nothing but `null` and the value is `null` too. -/
theorem Fits.merge_observeJson {t : DataType} {v : Value F} (h : Fits t v) {d : FrameDataType}
    (hd : d = .ofArrow t ∨ d = .Null) :
    d.merge (.observeJson v) = .ofArrow t ∨
      d = .Null ∧ v = .null ∧ d.merge (.observeJson v) = .Null := by
  obtain ⟨hself, hleft, hright⟩ := FrameDataType.merge_ofArrow t
  rcases h.observeJson with rfl | hobserved
  · rcases hd with rfl | rfl
    · exact .inl hright
    · exact .inr ⟨rfl, rfl, rfl⟩
  · left
    rw [hobserved]
    rcases hd with rfl | rfl
    · exact hself
    · exact hleft

theorem exists_column {columns : BTreeMap String DataType} {k : String} {v : Value F}
    (h : Option.Rel Fits (columns.get k) (some v)) : ∃ t, columns.get k = some t ∧ Fits t v := by
  cases hcol : columns.get k with
  | none =>
    rw [hcol] at h
    cases h
  | some t =>
    rw [hcol] at h
    exact ⟨t, rfl, Option.rel_some_some.mp h⟩

section Observed

variable {columns : BTreeMap String DataType} {seen : List (Row F)}
  {profiles : BTreeMap String FrameFieldProfile} {row : Row F} {k : String} {v : Value F}

theorem forall_null_append (h : ∀ row ∈ seen, ∀ w, row.get k = some w → w = .null)
    (hget : row.get k = some .null) :
    ∀ row' ∈ seen ++ [row], ∀ w, row'.get k = some w → w = .null := by
  rw [List.forall_mem_append, List.forall_mem_singleton, hget]
  exact ⟨h, fun w hw => (Option.some.inj hw).symm⟩

theorem Observed.observeField (h : Observed columns seen profiles) {t : DataType}
    (ht : columns.get k = some t) (hv : Fits t v) (hget : row.get k = some v) :
    (Workflow.observeField (k, v) (profiles.get k)).name = k ∧
      ((Workflow.observeField (k, v) (profiles.get k)).dataType = .ofArrow t ∨
        (Workflow.observeField (k, v) (profiles.get k)).dataType = .Null ∧
          ∀ row' ∈ seen ++ [row], ∀ w, row'.get k = some w → w = .null) := by
  cases hold : profiles.get k with
  | none =>
    refine ⟨rfl, ?_⟩
    rcases hv.observeJson with rfl | hobserved
    · refine .inr ⟨rfl, forall_null_append ?_ hget⟩
      intro row' hrow' w hw
      rw [h.absent k hold row' hrow'] at hw
      cases hw
    · exact .inl hobserved
  | some q =>
    obtain ⟨hname, t', ht', htype⟩ := h.present k q hold
    cases ht.symm.trans ht'
    refine ⟨hname, ?_⟩
    rcases hv.merge_observeJson (htype.imp_right And.left) with hmerged | ⟨hnull, rfl, hmerged⟩
    · exact .inl hmerged
    · refine .inr ⟨hmerged, forall_null_append ?_ hget⟩
      rcases htype with htype | ⟨-, hseen⟩
      · -- a column has a type of its own
        rw [hnull] at htype
        cases t <;> cases htype
      · exact hseen

theorem Observed.step (h : Observed columns seen profiles)
    (hrow : ∀ k, Option.Rel Fits (columns.get k) (row.get k)) :
    Observed columns (seen ++ [row]) (observeRow profiles row) := by
  refine ⟨?_, ?_⟩
  · intro k hk
    rw [get_observeRow] at hk
    rw [List.forall_mem_append, List.forall_mem_singleton]
    cases hget : row.get k with
    | some v =>
      rw [hget] at hk
      cases hk
    | none =>
      rw [hget] at hk
      exact ⟨h.absent k hk, rfl⟩
  · intro k p hp
    have hfits := hrow k
    rw [get_observeRow] at hp
    cases hget : row.get k with
    | none =>
      rw [hget] at hp hfits
      obtain ⟨hname, t, ht, -⟩ := h.present k p hp
      rw [ht] at hfits
      cases hfits
    | some v =>
      rw [hget] at hp hfits
      cases hp
      obtain ⟨t, ht, hv⟩ := exists_column hfits
      obtain ⟨hname, htype⟩ := h.observeField ht hv hget
      exact ⟨hname, t, ht, htype⟩

theorem Observed.run (h : Observed columns seen profiles) {more : List (Row F)}
    (hmore : ∀ row ∈ more, ∀ k, Option.Rel Fits (columns.get k) (row.get k)) :
    Observed columns (seen ++ more) (more.foldl observeRow profiles) := by
  induction more generalizing seen profiles with
  | nil =>
    rw [List.append_nil]
    exact h
  | cons row more ih =>
    obtain ⟨hrow, hrest⟩ := List.forall_mem_cons.mp hmore
    have hnext := ih (h.step hrow) hrest
    rw [List.append_assoc] at hnext
    exact hnext

end Observed

theorem toArrow_ofArrow (t : DataType) : (FrameDataType.ofArrow t).toArrow = t := by
  cases t <;> rfl

variable {rows : List (Row F)}

theorem inferArrowSchema_fits (h : Lossless rows) {row : Row F}
    (hrow : row ∈ rows) (k : String) :
    Option.Rel (fun p v => p.name = k ∧ Fits p.dataType.toArrow v)
      ((inferArrowSchema rows).get k) (row.get k) := by
  obtain ⟨columns, hfits⟩ := h
  have hempty : Observed columns ([] : List (Row F)) .empty :=
    ⟨fun _ _ _ h => (nomatch h), fun _ _ h => (nomatch h)⟩
  have hall : Observed columns rows (inferArrowSchema rows) := hempty.run hfits
  have hrel := hfits row hrow k
  cases hp : (inferArrowSchema rows).get k with
  | none =>
    rw [hall.absent k hp row hrow]
    exact .none
  | some p =>
    obtain ⟨hname, t, ht, htype⟩ := hall.present k p hp
    rw [ht] at hrel
    cases hget : row.get k with
    | none =>
      rw [hget] at hrel
      cases hrel
    | some v =>
      rw [hget] at hrel
      cases hrel with
      | some hv =>
        refine .some ⟨hname, ?_⟩
        rcases htype with htype | ⟨htype, hnull⟩
        · rw [htype, toArrow_ofArrow]
          exact hv
        · rw [hnull row hrow v hget, htype]
          trivial

/-! ### The columns -/

theorem mapM_eq_ok {α β γ ε : Type} {f : α → Except ε β} {g : β → γ} {v : α → γ} {l : List α}
    (h : ∀ a ∈ l, ∃ b, f a = .ok b ∧ g b = v a) :
    ∃ bs, l.mapM f = .ok bs ∧ bs.map g = l.map v := by
  induction l with
  | nil => exact ⟨[], rfl, rfl⟩
  | cons a l ih =>
    obtain ⟨b, hb, hgb⟩ := h a List.mem_cons_self
    obtain ⟨bs, hbs, hgbs⟩ := ih (fun a' ha' => h a' (List.mem_cons_of_mem _ ha'))
    refine ⟨b :: bs, ?_, ?_⟩
    · rw [List.mapM_cons, hb, hbs]
      rfl
    · rw [List.map_cons, List.map_cons, hgb, hgbs]

theorem ofI64_ofInt (n : JsonInt) (h : n.val < 2 ^ 63) :
    (Number.ofI64 (Int64.ofInt n.val) : Number F) = .int n := by
  have hval : (Int64.ofInt n.val).toInt = n.val := Int64.toInt_ofInt_of_le n.range.1 h
  obtain ⟨val, range⟩ := n
  unfold Number.ofI64
  congr 1
  exact (JsonInt.mk.injEq ..).mpr hval

section Cells

variable [Float64 F] (name : String) {o : Option (Value F)}

theorem booleanCell_fits (h : ∀ v, o = some v → Fits .Boolean v) :
    ∃ cell, booleanCell name o = .ok cell ∧ cell.elim .null .bool = o.getD .null := by
  cases o with
  | none => exact ⟨none, rfl, rfl⟩
  | some v =>
    have hv := h v rfl
    cases v with
    | null => exact ⟨none, rfl, rfl⟩
    | bool b => exact ⟨some b, rfl, rfl⟩
    | number n => cases n <;> exact hv.elim
    | string | array | object => exact hv.elim

theorem int64Cell_fits (h : ∀ v, o = some v → Fits .Int64 v) :
    ∃ cell, int64Cell name o = .ok cell ∧
      cell.elim .null (fun x => Value.number (.ofI64 x)) = o.getD .null := by
  cases o with
  | none => exact ⟨none, rfl, rfl⟩
  | some v =>
    have hv := h v rfl
    cases v with
    | null => exact ⟨none, rfl, rfl⟩
    | number n =>
      cases n with
      | int n =>
        have hlt : n.val < 2 ^ 63 := hv
        refine ⟨some (Int64.ofInt n.val), ?_, ?_⟩
        · simp only [int64Cell, Number.asI64, if_pos hlt]
        · rw [Option.elim_some, ofI64_ofInt n hlt]
          rfl
      | float x => exact hv.elim
    | bool | string | array | object => exact hv.elim

theorem float64Cell_fits (h : ∀ v, o = some v → Fits .Float64 v) :
    ∃ cell, float64Cell name o = .ok cell ∧
      cell.elim .null (fun x => Value.number (.float x)) = o.getD .null := by
  cases o with
  | none => exact ⟨none, rfl, rfl⟩
  | some v =>
    have hv := h v rfl
    cases v with
    | null => exact ⟨none, rfl, rfl⟩
    | number n =>
      cases n with
      | int n => exact hv.elim
      | float x => exact ⟨some x, rfl, rfl⟩
    | bool | string | array | object => exact hv.elim

theorem utf8Cell_fits (h : ∀ v, o = some v → Fits .Utf8 v) :
    ∃ cell, utf8Cell o = .ok cell ∧ cell.elim .null Value.string = o.getD .null := by
  cases o with
  | none => exact ⟨none, rfl, rfl⟩
  | some v =>
    have hv := h v rfl
    cases v with
    | null => exact ⟨none, rfl, rfl⟩
    | string s => exact ⟨some s, rfl, rfl⟩
    | number n => cases n <;> exact hv.elim
    | bool | array | object => exact hv.elim

end Cells

variable (column : Column F)

theorem Column.length_values : column.values.length = column.len := by
  cases column <;> exact List.length_map _

theorem Column.values_sliced (offset length : Nat) :
    (column.sliced offset length).values = (column.values.drop offset).take length := by
  cases column <;> simp [Column.sliced, Column.values, List.map_take, List.map_drop]

theorem Column.dataType_sliced (offset length : Nat) :
    (column.sliced offset length).dataType = column.dataType := by
  cases column <;> rfl

theorem buildArrowColumn_fits [Float64 F] {field : FrameFieldProfile}
    (h : ∀ row ∈ rows, ∀ v, row.get field.name = some v → Fits field.dataType.toArrow v) :
    ∃ column, buildArrowColumn rows field = .ok column ∧
      column.dataType = field.dataType.toArrow ∧
      column.values = rows.map (fun row => (row.get field.name).getD .null) := by
  obtain ⟨name, dataType, nullable⟩ := field
  unfold buildArrowColumn
  dsimp only at h ⊢
  cases dataType with
  | Boolean =>
    obtain ⟨cells, hcells, hvalues⟩ := mapM_eq_ok (fun row hrow =>
      booleanCell_fits name (h row hrow))
    exact ⟨.boolean cells, by simp only [buildBooleanArray, hcells]; rfl, rfl, hvalues⟩
  | Int64 =>
    obtain ⟨cells, hcells, hvalues⟩ := mapM_eq_ok (fun row hrow =>
      int64Cell_fits name (h row hrow))
    exact ⟨.int64 cells, by simp only [buildInt64Array, hcells]; rfl, rfl, hvalues⟩
  | Float64 =>
    obtain ⟨cells, hcells, hvalues⟩ := mapM_eq_ok (fun row hrow =>
      float64Cell_fits name (h row hrow))
    exact ⟨.float64 cells, by simp only [buildFloat64Array, hcells]; rfl, rfl, hvalues⟩
  | Utf8 | Null =>
    obtain ⟨cells, hcells, hvalues⟩ := mapM_eq_ok (fun row hrow => utf8Cell_fits (h row hrow))
    exact ⟨.utf8 cells, by simp only [buildUtf8Array, hcells]; rfl, rfl, hvalues⟩

/-! ### Reading the rows back -/

/-- The row at `i`, from the columns. -/
def rowAt (columns : List (Field × Column F)) (i : Nat) : Row F :=
  .ofList (columns.map (fun p => (p.1.name, p.2.value i)))

theorem foldlM_insertColumn {columns : List (Field × Column F)}
    (h : ∀ p ∈ columns, p.2.dataType = p.1.dataType) (rows : List (Row F)) :
    columns.foldlM insertColumn rows = .ok (rows.mapIdx (fun i row =>
      columns.foldl (fun row p => row.insert p.1.name (p.2.value i)) row)) := by
  induction columns generalizing rows with
  | nil =>
    show Except.ok rows = _
    congr 1
    exact List.ext_getElem (by simp) (by simp)
  | cons p columns ih =>
    rw [List.foldlM_cons, insertColumn, if_pos (h p List.mem_cons_self)]
    show List.foldlM insertColumn _ columns = _
    rw [ih (fun q hq => h q (List.mem_cons_of_mem _ hq)), List.mapIdx_mapIdx]
    rfl

theorem materialize_eq {schema : List Field} {columns : List (Column F)}
    (h : ∀ p ∈ schema.zip columns, p.2.dataType = p.1.dataType) (n : Nat) :
    materialize schema columns n = .ok ((List.range n).map (rowAt (schema.zip columns))) := by
  unfold materialize
  rw [foldlM_insertColumn h]
  congr 1
  refine List.ext_getElem (by simp) ?_
  intro i _ _
  simp [rowAt, ofList, List.foldl_map]

/-- A frame that holds the rows. -/
structure FrameOf (rows : List (Row F)) (frame : BatchFrame F) : Prop where
  rowCount : frame.rowCount = rows.length
  columns_length : frame.columns.length = frame.schema.length
  types : ∀ p ∈ frame.schema.zip frame.columns, p.2.dataType = p.1.dataType
  len : ∀ column ∈ frame.columns, column.len = rows.length
  row_eq : ∀ (i : Nat) (row : Row F), rows[i]? = some row →
    rowAt (frame.schema.zip frame.columns) i = row
  cell : ∀ (i : Nat) (row : Row F), rows[i]? = some row →
    ∀ p ∈ frame.schema.zip frame.columns, row.get p.1.name = some (p.2.value i)
  fields : ∀ row ∈ rows, ∀ (k : String) (v : Value F), row.get k = some v →
    k ∈ frame.schema.map Field.name

theorem mem_inferArrowSchema (h : Lossless rows) {k : String}
    {p : FrameFieldProfile} (hp : (k, p) ∈ (inferArrowSchema rows).entries) :
    p.name = k ∧ ∀ row ∈ rows, ∃ v, row.get k = some v ∧ Fits p.dataType.toArrow v := by
  have hget := mem_entries_iff.mp hp
  have hrow : ∀ row ∈ rows, p.name = k ∧ ∃ v, row.get k = some v ∧ Fits p.dataType.toArrow v := by
    intro row hrow
    have hrel := inferArrowSchema_fits h hrow k
    rw [hget] at hrel
    cases hv : row.get k with
    | none =>
      rw [hv] at hrel
      cases hrel
    | some v =>
      rw [hv] at hrel
      cases hrel with
      | some hfits => exact ⟨hfits.1, v, rfl, hfits.2⟩
  cases rows with
  | nil => cases hp
  | cons row rows => exact ⟨(hrow row List.mem_cons_self).1, fun row' hrow' => (hrow row' hrow').2⟩

section Built

variable [Float64 F] {rows : List (Row F)}

def builtColumn (rows : List (Row F)) (p : FrameFieldProfile) : Column F :=
  (buildArrowColumn rows p).toOption.getD (.utf8 [])

def builtFrame (rows : List (Row F)) : BatchFrame F where
  schemaProfile := (inferArrowSchema rows).entries.map Prod.snd
  schema := ((inferArrowSchema rows).entries.map Prod.snd).map FrameFieldProfile.toArrow
  columns := (inferArrowSchema rows).entries.map (fun e => builtColumn rows e.2)
  rowCount := rows.length

theorem zip_builtFrame (rows : List (Row F)) :
    (builtFrame rows).schema.zip (builtFrame rows).columns =
      (inferArrowSchema rows).entries.map (fun e => (e.2.toArrow, builtColumn rows e.2)) := by
  unfold builtFrame
  rw [List.map_map, List.zip_map']
  rfl

theorem builtColumn_eq {p : FrameFieldProfile} {column : Column F}
    (h : buildArrowColumn rows p = .ok column) : builtColumn rows p = column := by
  rw [builtColumn, h]
  rfl

theorem fromObjectRows_of_built
    (h : ∀ e ∈ (inferArrowSchema rows).entries,
      buildArrowColumn rows e.2 = .ok (builtColumn rows e.2)) :
    BatchFrame.fromObjectRows rows = .ok (builtFrame rows) := by
  have hok : ∀ p ∈ (inferArrowSchema rows).entries.map Prod.snd,
      ∃ column, buildArrowColumn rows p = .ok column ∧ id column = builtColumn rows p := by
    intro p hp
    obtain ⟨e, he, rfl⟩ := List.mem_map.mp hp
    exact ⟨_, h e he, rfl⟩
  obtain ⟨columns, hmapM, hid⟩ := mapM_eq_ok hok
  rw [List.map_id, List.map_map] at hid
  unfold BatchFrame.fromObjectRows
  dsimp only
  rw [hmapM, hid]
  rfl

variable (h : Lossless rows)

include h

theorem builtColumn_spec {e : String × FrameFieldProfile} (he : e ∈ (inferArrowSchema rows).entries) :
    buildArrowColumn rows e.2 = .ok (builtColumn rows e.2) ∧
      (builtColumn rows e.2).dataType = e.2.dataType.toArrow ∧
      (builtColumn rows e.2).values = rows.map (fun row => (row.get e.1).getD .null) := by
  obtain ⟨k, p⟩ := e
  obtain ⟨rfl, hfits⟩ := mem_inferArrowSchema h he
  have hvals : ∀ row ∈ rows, ∀ v, row.get p.name = some v → Fits p.dataType.toArrow v := by
    intro row hrow v hv
    obtain ⟨w, hw, hfit⟩ := hfits row hrow
    cases hv.symm.trans hw
    exact hfit
  obtain ⟨column, hok, htype, hvalues⟩ := buildArrowColumn_fits hvals
  rw [builtColumn_eq hok]
  exact ⟨hok, htype, hvalues⟩

theorem builtColumn_value {e : String × FrameFieldProfile}
    (he : e ∈ (inferArrowSchema rows).entries) {i : Nat} {row : Row F} (hrow : rows[i]? = some row) :
    row.get e.1 = some ((builtColumn rows e.2).value i) := by
  obtain ⟨v, hv, -⟩ := (mem_inferArrowSchema h he).2 row (List.mem_of_getElem? hrow)
  rw [hv, Column.value, (builtColumn_spec h he).2.2, List.getElem?_map, hrow, Option.map_some,
    Option.getD_some, hv]
  rfl

theorem fromObjectRows_eq : BatchFrame.fromObjectRows rows = .ok (builtFrame rows) :=
  fromObjectRows_of_built fun _ he => (builtColumn_spec h he).1

theorem rowAt_builtFrame {i : Nat} {row : Row F} (hrow : rows[i]? = some row) :
    rowAt ((builtFrame rows).schema.zip (builtFrame rows).columns) i = row := by
  -- the names are the keys, in order
  have hentries : ((inferArrowSchema rows).entries.map
      (fun e => (e.2.toArrow, builtColumn rows e.2))).map (fun p => (p.1.name, p.2.value i)) =
      (inferArrowSchema rows).entries.map (fun e => (e.1, (builtColumn rows e.2).value i)) := by
    rw [List.map_map]
    refine List.map_congr_left ?_
    intro e he
    show (e.2.name, _) = _
    rw [(mem_inferArrowSchema h he).1]
  have hsorted : ((inferArrowSchema rows).entries.map
      (fun e => (e.1, (builtColumn rows e.2).value i))).Pairwise (fun p q => p.1 < q.1) :=
    List.pairwise_map.mpr (inferArrowSchema rows).sorted
  rw [rowAt, zip_builtFrame, hentries]
  refine ext_get ?_
  intro k
  rw [get_ofList hsorted,
    lookupList_map (fun e => (builtColumn rows e.2).value i)]
  show Option.map _ ((inferArrowSchema rows).get k) = _
  have hrel := inferArrowSchema_fits h (List.mem_of_getElem? hrow) k
  cases hp : (inferArrowSchema rows).get k with
  | none =>
    rw [hp] at hrel
    cases hk : row.get k with
    | none => rfl
    | some v =>
      rw [hk] at hrel
      cases hrel
  | some p => exact (builtColumn_value h (mem_entries_iff.mpr hp) hrow).symm

theorem frameOf_builtFrame : FrameOf rows (builtFrame rows) := by
  refine ⟨rfl, ?_, ?_, ?_, fun i row => rowAt_builtFrame h, ?_, ?_⟩
  · show (List.map _ _).length = (List.map _ (List.map _ _)).length
    simp only [List.length_map]
  · rw [zip_builtFrame]
    intro p hp
    obtain ⟨e, he, rfl⟩ := List.mem_map.mp hp
    exact (builtColumn_spec h he).2.1
  · intro column hcolumn
    obtain ⟨e, he, rfl⟩ := List.mem_map.mp hcolumn
    rw [← Column.length_values, (builtColumn_spec h he).2.2, List.length_map]
  · rw [zip_builtFrame]
    intro i row hrow p hp
    obtain ⟨e, he, rfl⟩ := List.mem_map.mp hp
    show row.get e.2.name = _
    rw [(mem_inferArrowSchema h he).1]
    exact builtColumn_value h he hrow
  · intro row hrow k v hv
    have hrel := inferArrowSchema_fits h hrow k
    rw [hv] at hrel
    cases hp : (inferArrowSchema rows).get k with
    | none =>
      rw [hp] at hrel
      cases hrel
    | some p =>
      have he := mem_entries_iff.mpr hp
      show k ∈ List.map _ (List.map _ _)
      rw [List.map_map, List.mem_map]
      exact ⟨p, List.mem_map.mpr ⟨(k, p), he, rfl⟩, (mem_inferArrowSchema h he).1⟩

end Built

namespace FrameOf

variable {rows : List (Row F)} {frame : BatchFrame F}

theorem materialize_sliced (h : FrameOf rows frame) {offset length : Nat}
    (hle : offset + length ≤ rows.length) :
    materialize frame.schema (frame.columns.map (Column.sliced offset length)) length =
      .ok ((rows.drop offset).take length) := by
  have hzip : frame.schema.zip (frame.columns.map (Column.sliced offset length)) =
      (frame.schema.zip frame.columns).map (fun p => (p.1, p.2.sliced offset length)) := by
    rw [List.zip_map_right]
    rfl
  have htypes : ∀ p ∈ frame.schema.zip (frame.columns.map (Column.sliced offset length)),
      p.2.dataType = p.1.dataType := by
    rw [hzip]
    intro p hp
    obtain ⟨q, hq, rfl⟩ := List.mem_map.mp hp
    exact (Column.dataType_sliced _ _ _).trans (h.types q hq)
  rw [materialize_eq htypes, hzip]
  congr 1
  refine List.ext_getElem (by simp; omega) ?_
  intro i hi hi'
  have hlt : i < length := by simpa using hi
  have hrow : rows[offset + i]? = some rows[offset + i] := List.getElem?_eq_getElem (by omega)
  rw [List.getElem_map, List.getElem_range, List.getElem_take, List.getElem_drop,
    ← h.row_eq _ _ hrow]
  unfold rowAt
  rw [List.map_map]
  congr 1
  refine List.map_congr_left ?_
  intro p _
  show (p.1.name, (p.2.sliced offset length).value i) = (p.1.name, p.2.value (offset + i))
  rw [Column.value, Column.value, Column.values_sliced, List.getElem?_take, if_pos hlt,
    List.getElem?_drop]

theorem toObjectRows_eq (h : FrameOf rows frame) : frame.toObjectRows = .ok rows := by
  unfold BatchFrame.toObjectRows
  rw [materialize_eq h.types, h.rowCount]
  congr 1
  refine List.ext_getElem (by simp) ?_
  intro i hi hi'
  rw [List.getElem_map, List.getElem_range]
  exact h.row_eq i _ (List.getElem?_eq_getElem hi')

theorem find?_column {frame : BatchFrame F} (h : FrameOf rows frame) {i : Nat}
    {row : Row F} (hrow : rows[i]? = some row) (field : String) :
    (∃ p, (frame.schema.zip frame.columns).find? (fun p => p.1.name = field) = some p ∧
      p.2.dataType = p.1.dataType ∧ row.get field = some (p.2.value i)) ∨
    (frame.schema.zip frame.columns).find? (fun p => p.1.name = field) = none ∧
      row.get field = none := by
  cases hfind : (frame.schema.zip frame.columns).find? (fun p => p.1.name = field) with
  | some p =>
    have hmem := List.mem_of_find?_eq_some hfind
    have hname : p.1.name = field := by simpa using List.find?_some hfind
    exact .inl ⟨p, rfl, h.types p hmem, hname ▸ h.cell i row hrow p hmem⟩
  | none =>
    refine .inr ⟨rfl, ?_⟩
    by_contra hne
    obtain ⟨v, hv⟩ := Option.ne_none_iff_exists'.mp hne
    have hname := h.fields row (List.mem_of_getElem? hrow) field v hv
    rw [← List.map_fst_zip h.columns_length.ge, List.map_map] at hname
    obtain ⟨p, hp, hpname⟩ := List.mem_map.mp hname
    exact List.find?_eq_none.mp hfind p hp (decide_eq_true hpname)

end FrameOf

@[simp] theorem objectRow_ofRow (row : Row F) : objectRow (.ofRow row) = .ok row := by
  show Except.ok (ofList row.entries) = _
  rw [ofList_entries]

theorem jsonValuesToObjectRows_ofRow (rows : List (Row F)) :
    jsonValuesToObjectRows (rows.map Value.ofRow) = .ok rows := by
  obtain ⟨rows', hmapM, hid⟩ := mapM_eq_ok (f := objectRow ∘ Value.ofRow) (g := id)
    (v := id) (l := rows) (fun row _ => ⟨row, objectRow_ofRow row, rfl⟩)
  rw [List.map_id, List.map_id] at hid
  rw [jsonValuesToObjectRows, List.mapM_map, hmapM, hid]

theorem FrameOf.toJsonValues_eq {frame : BatchFrame F} (h : FrameOf rows frame) :
    frame.toJsonValues = .ok (rows.map Value.ofRow) := by
  unfold BatchFrame.toJsonValues
  rw [h.toObjectRows_eq]
  rfl

/-! ### Selecting rows -/

theorem Lossless.filterMap_getElem? (h : Lossless rows) (rowIndices : List Nat) :
    Lossless (rowIndices.filterMap (rows[·]?)) := by
  obtain ⟨columns, hcolumns⟩ := h
  refine ⟨columns, fun row hrow => ?_⟩
  obtain ⟨i, -, hi⟩ := List.mem_filterMap.mp hrow
  exact hcolumns row (List.mem_of_getElem? hi)

theorem forIn_eq_ok {α ε : Type} {l : List α} {f : α → PUnit → Except ε (ForInStep PUnit)}
    (h : ∀ a ∈ l, f a ⟨⟩ = .ok (.yield ⟨⟩)) : forIn l PUnit.unit f = .ok ⟨⟩ := by
  induction l with
  | nil => rfl
  | cons a l ih =>
    rw [List.forIn_cons, h a List.mem_cons_self]
    exact ih (fun b hb => h b (List.mem_cons_of_mem _ hb))

variable [Float64 F] {rows : List (Row F)}

theorem BatchFrame.fromJsonValues_eq (h : Lossless rows) :
    BatchFrame.fromJsonValues (rows.map Value.ofRow) = .ok (builtFrame rows) := by
  unfold BatchFrame.fromJsonValues
  rw [jsonValuesToObjectRows_ofRow]
  exact fromObjectRows_eq h

theorem selectRows_eq (h : Lossless rows) {rowIndices : List Nat}
    (hindices : ∀ i ∈ rowIndices, i < rows.length) :
    (builtFrame rows).selectRows rowIndices =
      .ok (builtFrame (rowIndices.filterMap (rows[·]?))) := by
  have hselect : rowIndices.filterMap ((rows.map Value.ofRow)[·]?) =
      (rowIndices.filterMap (rows[·]?)).map Value.ofRow := by
    rw [List.map_filterMap]
    simp only [List.getElem?_map]
  unfold BatchFrame.selectRows
  rw [forIn_eq_ok]
  · show (do let values ← (builtFrame rows).toJsonValues; BatchFrame.fromJsonValues _) = _
    rw [(frameOf_builtFrame h).toJsonValues_eq]
    show BatchFrame.fromJsonValues _ = _
    rw [hselect, BatchFrame.fromJsonValues_eq (h.filterMap_getElem? rowIndices)]
  · intro i hi
    rw [if_neg]
    · rfl
    · exact not_le.mpr (hindices i hi)

end Arcxa.Workflow
