import Arcxa.Workflow.Frame

/-!
# Rows up to the conversion to a batch frame

Rows that go through a batch frame come back `converted`: a mixed column as text, an integer in
a column of floats as a float. A second conversion changes nothing
(`converted_of_toJsonValues`), because each column of a frame has one type, and so `SameRows`
holds however often rows are converted.
-/

namespace Arcxa.Workflow

open BatchFrame

variable {F : Type}

/-! ## The types of the columns -/

theorem forall₂_of_mapM {α β ε : Type} {f : α → Except ε β} {l : List α} {l' : List β}
    (h : l.mapM f = .ok l') : List.Forall₂ (fun a b => f a = .ok b) l l' := by
  induction l generalizing l' with
  | nil =>
    cases h
    exact .nil
  | cons a l ih =>
    rw [List.mapM_cons] at h
    cases hhead : f a with
    | error e =>
      rw [hhead] at h
      cases h
    | ok b =>
      cases htail : l.mapM f with
      | error e =>
        rw [hhead, htail] at h
        cases h
      | ok bs =>
        rw [hhead, htail] at h
        cases h
        exact .cons hhead (ih htail)

section Types

variable [Float64 F]

theorem dataType_of_buildArrowColumn {rows : List (Row F)} {field : FrameFieldProfile}
    {column : Column F} (h : buildArrowColumn rows field = .ok column) :
    column.dataType = field.dataType.toArrow := by
  have hmap : ∀ {α : Type} {cells : Except WorkflowError α} {mk : α → Column F} {t : DataType},
      (∀ a, (mk a).dataType = t) → cells.map mk = .ok column → column.dataType = t := by
    intro α cells mk t hmk hok
    cases cells with
    | error e => cases hok
    | ok a =>
      cases hok
      exact hmk a
  unfold buildArrowColumn at h
  split at h
  all_goals
    rename_i htype
    rw [htype]
    exact hmap (fun _ => rfl) h

theorem types_of_fromObjectRows {rows : List (Row F)} {frame : BatchFrame F}
    (h : BatchFrame.fromObjectRows rows = .ok frame) :
    ∀ p ∈ frame.schema.zip frame.columns, p.2.dataType = p.1.dataType := by
  unfold fromObjectRows at h
  dsimp only at h
  cases hcolumns : ((inferArrowSchema rows).entries.map Prod.snd).mapM (buildArrowColumn rows) with
  | error e =>
    rw [hcolumns] at h
    cases h
  | ok columns =>
    rw [hcolumns] at h
    cases h
    intro p hp
    dsimp only at hp
    rw [List.zip_map_left] at hp
    obtain ⟨⟨profile, column⟩, hmem, rfl⟩ := List.mem_map.mp hp
    exact dataType_of_buildArrowColumn ((List.forall₂_iff_zip.mp (forall₂_of_mapM hcolumns)).2 hmem)

theorem toJsonValues_of_fromJsonValues {rows : List (Value F)} {frame : BatchFrame F}
    (h : BatchFrame.fromJsonValues rows = .ok frame) : ∃ rows', frame.toJsonValues = .ok rows' := by
  unfold fromJsonValues at h
  cases hobjects : jsonValuesToObjectRows rows with
  | error e =>
    rw [hobjects] at h
    cases h
  | ok objects =>
    rw [hobjects] at h
    have htypes := types_of_fromObjectRows h
    unfold toJsonValues toObjectRows
    rw [materialize_eq htypes]
    exact ⟨_, rfl⟩

end Types

/-! ## The rows of a frame are lossless -/

theorem types_of_foldlM {columns : List (Field × Column F)} {rows rows' : List (Row F)}
    (h : columns.foldlM insertColumn rows = .ok rows') :
    ∀ p ∈ columns, p.2.dataType = p.1.dataType := by
  induction columns generalizing rows with
  | nil =>
    intro p hp
    cases hp
  | cons p columns ih =>
    rw [List.foldlM_cons, insertColumn] at h
    split_ifs at h with htype
    · intro q hq
      rcases List.mem_cons.mp hq with rfl | hmem
      · exact htype
      · exact ih h q hmem
    · cases h

theorem fits_value (column : Column F) (i : Nat) : Fits column.dataType (column.value i) := by
  have hcell : ∀ v ∈ column.values, Fits column.dataType v := by
    cases column with
    | boolean cells =>
      intro v hv
      obtain ⟨cell, -, rfl⟩ := List.mem_map.mp hv
      cases cell <;> trivial
    | int64 cells =>
      intro v hv
      obtain ⟨cell, -, rfl⟩ := List.mem_map.mp hv
      cases cell with
      | none => trivial
      | some x => exact Int64.toInt_lt x
    | float64 cells =>
      intro v hv
      obtain ⟨cell, -, rfl⟩ := List.mem_map.mp hv
      cases cell <;> trivial
    | utf8 cells =>
      intro v hv
      obtain ⟨cell, -, rfl⟩ := List.mem_map.mp hv
      cases cell <;> trivial
  unfold Column.value
  cases hget : column.values[i]? with
  | none =>
    cases column <;> trivial
  | some v => exact hcell v (List.mem_of_getElem? hget)

theorem lossless_rowAt (columns : List (Field × Column F)) (n : Nat) :
    Lossless ((List.range n).map (rowAt columns)) := by
  refine ⟨.ofList (columns.map (fun p => (p.1.name, p.2.dataType))), ?_⟩
  intro row hrow k
  obtain ⟨i, -, rfl⟩ := List.mem_map.mp hrow
  clear hrow
  -- both maps are filled in the same order: a key has its type and its value from one column
  have hfold : ∀ (types : BTreeMap String DataType) (row : Row F),
      Option.Rel Fits (types.get k) (row.get k) →
      Option.Rel Fits
        ((columns.foldl (fun m p => m.insert p.1.name p.2.dataType) types).get k)
        ((columns.foldl (fun m p => m.insert p.1.name (p.2.value i)) row).get k) := by
    induction columns with
    | nil => exact fun types row h => h
    | cons p columns ih =>
      intro types row h
      apply ih
      rw [BTreeMap.get_insert, BTreeMap.get_insert]
      split_ifs with hk
      · exact .some (fits_value p.2 i)
      · exact h
  unfold rowAt BTreeMap.ofList
  rw [List.foldl_map, List.foldl_map]
  exact hfold .empty .empty .none

/-! ## Conversion -/

variable [Float64 F]

def converted (rows : List (Value F)) : Except WorkflowError (List (Value F)) := do
  (← BatchFrame.fromJsonValues rows).toJsonValues

def SameRows (rows rows' : List (Value F)) : Prop := rows' = rows ∨ converted rows = .ok rows'

theorem converted_of_frame {rows rows' : List (Value F)} {frame : BatchFrame F}
    (hframe : BatchFrame.fromJsonValues rows = .ok frame) (hrows : frame.toJsonValues = .ok rows') :
    converted rows = .ok rows' := by
  unfold converted
  rw [hframe]
  exact hrows

theorem frame_of_converted {rows rows' : List (Value F)} (h : converted rows = .ok rows') :
    ∃ frame, BatchFrame.fromJsonValues rows = .ok frame ∧ frame.toJsonValues = .ok rows' := by
  unfold converted at h
  cases hframe : fromJsonValues rows with
  | error e =>
    rw [hframe] at h
    cases h
  | ok frame =>
    rw [hframe] at h
    exact ⟨frame, rfl, h⟩

theorem converted_of_toJsonValues {frame : BatchFrame F} {rows : List (Value F)}
    (h : frame.toJsonValues = .ok rows) : converted rows = .ok rows := by
  unfold toJsonValues toObjectRows at h
  cases hobjects : materialize frame.schema frame.columns frame.rowCount with
  | error e =>
    rw [hobjects] at h
    cases h
  | ok objects =>
    rw [hobjects] at h
    cases h
    -- the frame may be any that reads back, so its types come from the reading
    have htypes := types_of_foldlM hobjects
    rw [materialize_eq htypes] at hobjects
    cases hobjects
    have hlossless := lossless_rowAt (frame.schema.zip frame.columns) frame.rowCount
    exact converted_of_frame (fromJsonValues_eq hlossless)
      (frameOf_builtFrame hlossless).toJsonValues_eq

theorem SameRows.converted {rows rows' rows₁ : List (Value F)} (h : SameRows rows rows')
    (hconverts : Workflow.converted rows = .ok rows₁) :
    ∃ rows'', Workflow.converted rows' = .ok rows'' ∧ SameRows rows rows'' := by
  rcases h with rfl | hrows'
  · exact ⟨rows₁, hconverts, .inr hconverts⟩
  · obtain ⟨frame, -, hframe⟩ := frame_of_converted hrows'
    exact ⟨rows', converted_of_toJsonValues hframe, .inr hrows'⟩

end Arcxa.Workflow
