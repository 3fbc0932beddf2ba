import Mathlib.Data.List.AList
import Arcxa.Lib.Transition
import Arcxa.Workflow.Conversion

/-!
# The rows in an execution context

The rows that a step leaves for the next one are in the working data under `_rows`, in the
cached batch frame, or in both. An output of more than `largeRowPayloadThreshold` rows that has
a frame is merged without its `_rows`, and an output without a frame makes the frame again from
the working data.

Merging without `_rows` leaves the older `_rows` in the working data, where the readers look
first, and the next output without rows then finds the older rows or none. `SeesLatest` is what
a merge should leave behind, `Careful` the condition under which it does; along every run they
agree (`sees_latest_iff_careful`).
-/

namespace Arcxa.Workflow

open BTreeMap Value

variable {F : Type}

namespace Value

def asArray : Value F → Option (List (Value F))
  | array items => some items
  | _ => none

def asU64 : Value F → Option UInt64
  | number n => n.asU64
  | _ => none

/-- `json!` of a `usize`. -/
def ofUsize (n : Nat) : Value F :=
  .number (.int ⟨(n % 2 ^ 64 : Nat), by omega⟩)

/-- `get("_rows").and_then(as_array)`. -/
def rows (v : Value F) : Option (List (Value F)) := (v.get "_rows").bind asArray

/-- The rows that a value is, or has under `_rows`. -/
def tableRows (v : Value F) : Option (List (Value F)) := v.asArray.or v.rows

/-- An object without its `_rows`. -/
def stripped : Value F → Value F
  | object fields => object (fields.filter (fun p => p.1 ≠ "_rows"))
  | v => v

end Value

/-! ## Step results -/

structure BatchStepExecutionResult (F : Type) where
  success : Bool
  output : Value F
  confidence : F
  batchFrame : Option (BatchFrame F)

def BatchStepExecutionResult.withoutFrame (success : Bool) (output : Value F) (confidence : F) :
    BatchStepExecutionResult F where
  success
  output
  confidence
  batchFrame := none

def rowsOutputFields (rows : List (Value F)) (rowCount : Nat)
    (extraFields : List (String × Value F)) : Row F :=
  extraFields.foldl (fun output p => output.insert p.1 p.2)
    ((BTreeMap.empty.insert "_rows" (.array rows)).insert "_row_count" (.ofUsize rowCount))

def buildRowsOutput (rows : List (Value F)) (rowCount : Nat)
    (extraFields : List (String × Value F)) : Value F :=
  .ofRow (rowsOutputFields rows rowCount extraFields)

def buildBatchRowsStepResult (frame : BatchFrame F) (extraFields : List (String × Value F))
    (success : Bool) (confidence : F) : Except WorkflowError (BatchStepExecutionResult F) := do
  let rows ← frame.toJsonValues
  return {
    success
    output := buildRowsOutput rows frame.rowCount extraFields
    confidence
    batchFrame := some frame }

def buildMaterializedRowsStepResult [Float64 F] (rows : List (Value F))
    (extraFields : List (String × Value F)) (success : Bool) (confidence : F) :
    BatchStepExecutionResult F where
  success
  output := buildRowsOutput rows rows.length extraFields
  confidence
  batchFrame := (BatchFrame.fromJsonValues rows).toOption

/-! ## The context -/

/-- `anyhow::Error`. -/
inductive ContextError where
  | workflow (error : WorkflowError)
  | message (text : String)
  deriving DecidableEq, Repr

structure ExecutionContext (F : Type) where
  workingData : Value F
  stepOutputs : AList (fun _ : String => Value F)
  batchFrame : Option (BatchFrame F)

def largeRowPayloadThreshold : UInt64 := 10000

/-- The `_row_count` of an output is above the threshold. -/
def isLarge (output : Value F) : Bool :=
  ((output.get "_row_count").bind Value.asU64).any (fun n => largeRowPayloadThreshold < n)

def shouldStripRowsFromWorkingData (output : Value F) (batchFrame : Option (BatchFrame F)) : Bool :=
  batchFrame.isSome && isLarge output && output.rows.isSome

def buildWorkingOutputWithBatch (output : Value F) (batchFrame : Option (BatchFrame F)) : Value F :=
  if shouldStripRowsFromWorkingData output batchFrame then output.stripped else output

def mergedWorkingData (workingData workingOutput : Value F) : Value F :=
  match workingData, workingOutput with
  | .object fields, .object output =>
    .object (output.foldl (fun fields p => BTreeMap.upsertList p.1 (fun _ => p.2) fields) fields)
  | .object fields, _ => .object fields
  | _, .object output => .object output
  | other, _ => other

def buildStepOutputForStorage (output : Value F) : Value F :=
  if isLarge output then output.stripped else output

namespace ExecutionContext

def materializeWorkingOutput (ctx : ExecutionContext F) : Except ContextError (Value F) :=
  if ctx.workingData.asArray.isSome || ctx.workingData.rows.isSome then .ok ctx.workingData
  else
    match ctx.batchFrame with
    | none => .ok ctx.workingData
    | some frame => do
      let rows ← frame.toJsonValues.mapError .workflow
      match ctx.workingData with
      | .object fields =>
        let withRows := BTreeMap.upsertList "_rows" (fun _ => .array rows) fields
        return .object (BTreeMap.upsertList "_row_count"
          (fun rowCount => rowCount.getD (.ofUsize frame.rowCount)) withRows)
      | other => return other

/-- `values` are the stored outputs in the order in which the map gives them. -/
def getRowsFromContext (ctx : ExecutionContext F) (values : List (Value F)) :
    Except ContextError (List (Value F)) :=
  match ctx.workingData.rows, ctx.batchFrame with
  -- the working data come before the frame
  | some rows, _ => .ok rows
  | none, some frame => frame.toJsonValues.mapError .workflow
  | none, none =>
    match values.foldl (fun best output => output.rows.or best) none with
    | some rows => .ok rows
    | none => .ok (ctx.workingData.asArray.getD [])

variable [Float64 F]

def inferBatchFrameFromValue (value : Value F) : Option (BatchFrame F) :=
  value.tableRows.bind (fun rows => (BatchFrame.fromJsonValues rows).toOption)

def new (inputData : Value F) : ExecutionContext F where
  workingData := inputData
  stepOutputs := ∅
  batchFrame := inferBatchFrameFromValue inputData

def getBatchFrame (ctx : ExecutionContext F) : Except ContextError (BatchFrame F) :=
  match ctx.batchFrame, ctx.workingData.tableRows with
  | some frame, _ => .ok frame
  | none, some rows => (BatchFrame.fromJsonValues rows).mapError .workflow
  | none, none =>
    .error (.message "ExecutionContext does not currently hold row-oriented JSON data")

def refreshBatchFrameFromWorkingData (ctx : ExecutionContext F) :
    Except ContextError Unit × ExecutionContext F :=
  match ctx.workingData.tableRows with
  | some rows =>
    match BatchFrame.fromJsonValues rows with
    | .ok frame => (.ok (), { ctx with batchFrame := some frame })
    | .error e => (.error (.workflow e), ctx)
  | none => (.ok (), { ctx with batchFrame := none })

def mergeStepOutputWithBatch (ctx : ExecutionContext F) (output : Value F)
    (batchFrame : Option (BatchFrame F)) : Except ContextError Unit × ExecutionContext F :=
  let merged := { ctx with
    workingData := mergedWorkingData ctx.workingData
      (buildWorkingOutputWithBatch output batchFrame) }
  match batchFrame with
  | some frame => (.ok (), { merged with batchFrame := some frame })
  -- the frame of an earlier output is not kept
  | none => merged.refreshBatchFrameFromWorkingData

def mergeAndStoreStepResult (ctx : ExecutionContext F) (stepId : String)
    (result : BatchStepExecutionResult F) : Except ContextError Unit × ExecutionContext F :=
  match ctx.mergeStepOutputWithBatch result.output result.batchFrame with
  | (.ok (), merged) =>
    (.ok (), { merged with
      stepOutputs := merged.stepOutputs.insert stepId (buildStepOutputForStorage result.output) })
  | (.error e, merged) => (.error e, merged)

/-- The three readers give the rows, up to the conversion. -/
structure Sees (ctx : ExecutionContext F) (rows : List (Value F)) : Prop where
  batchFrame : ∃ frame rows', ctx.getBatchFrame = .ok frame ∧ frame.toJsonValues = .ok rows' ∧
    SameRows rows rows'
  rowsFromContext : ∀ values, values.Perm (ctx.stepOutputs.entries.map (fun p => p.2)) →
    ∃ rows', ctx.getRowsFromContext values = .ok rows' ∧ SameRows rows rows'
  workingOutput : ∃ output rows', ctx.materializeWorkingOutput = .ok output ∧
    output.rows = some rows' ∧ SameRows rows rows'

end ExecutionContext

/-! ## Runs -/

section Runs

variable [Float64 F]

/-- The results that are merged, with their rows: built from a frame or from rows, with any
extra fields; or an object without rows and without a frame. -/
inductive Built : BatchStepExecutionResult F → Option (List (Value F)) → Prop where
  | batchRows {frame : BatchFrame F} {extraFields : List (String × Value F)} {success : Bool}
      {confidence : F} {rows : List (Value F)} {result : BatchStepExecutionResult F}
      (hrows : frame.toJsonValues = .ok rows)
      (hresult : buildBatchRowsStepResult frame extraFields success confidence = .ok result) :
      Built result (some rows)
  | materializedRows (rows : List (Value F)) (extraFields : List (String × Value F))
      (success : Bool) (confidence : F) :
      Built (buildMaterializedRowsStepResult rows extraFields success confidence) (some rows)
  | object (success : Bool) (fields : Row F) (confidence : F)
      (hrows : (Value.ofRow fields).rows = none) :
      Built (.withoutFrame success (.ofRow fields) confidence) none

structure StepResult (F : Type) [Float64 F] extends BatchStepExecutionResult F where
  stepId : String
  rows : Option (List (Value F))
  built : Built toBatchStepExecutionResult rows

/-- A context, and the rows of the most recent output that had rows. -/
structure Pipeline (F : Type) where
  context : ExecutionContext F
  latest : Option (List (Value F))

namespace Pipeline

def merge (p : Pipeline F) (a : StepResult F) : Pipeline F where
  context := (p.context.mergeAndStoreStepResult a.stepId a.toBatchStepExecutionResult).2
  latest := a.rows.or p.latest

def SeesLatest (p : Pipeline F) (a : StepResult F) : Prop :=
  ∀ rows ∈ (p.merge a).latest,
    (p.context.mergeAndStoreStepResult a.stepId a.toBatchStepExecutionResult).1 = .ok () ∧
      (p.merge a).context.Sees rows

/-- Rows convert to a frame; if the output keeps its `_rows`, extra fields have not put other
rows there, and if it is stripped, the working data have no other rows. An output without rows
comes, if there have been rows, while these are in the working data, and does not touch
`_rows`. -/
def Careful (p : Pipeline F) (a : StepResult F) : Prop :=
  match a.rows with
  | some rows =>
    (∃ rows', converted rows = .ok rows') ∧
      if shouldStripRowsFromWorkingData a.output a.batchFrame then
        ∀ old ∈ p.context.workingData.rows, SameRows rows old
      else ∀ own ∈ a.output.rows, SameRows rows own
  | none =>
    p.latest ≠ none → a.output.get "_rows" = none ∧ p.context.workingData.rows.isSome = true

end Pipeline

end Runs

/-! ## What is merged -/

theorem get_mergedWorkingData (workingData : Value F) (output : Row F) (k : String) :
    (mergedWorkingData workingData (.ofRow output)).get k =
      (output.get k).or (workingData.get k) := by
  cases workingData with
  | object fields => exact lookupList_foldl_upsertList output.sorted fields k
  | null | bool _ | number _ | string _ | array _ => exact (Option.or_none).symm

theorem rows_stripped (output : Row F) : ∃ row : Row F,
    (Value.ofRow output).stripped = .ofRow row ∧ row.get "_rows" = none := by
  refine ⟨⟨output.entries.filter (fun p => p.1 ≠ "_rows"), output.sorted.filter _⟩, rfl, ?_⟩
  cases hget : lookupList "_rows" (output.entries.filter (fun p => p.1 ≠ "_rows")) with
  | none => exact hget
  | some v =>
    have hmem := (List.mem_filter.mp (mem_of_lookupList hget)).2
    simp at hmem

/-- The working data are an object after every merge of an object, and have the rows of the
output unless it is stripped or has no `_rows`. -/
theorem mergedWorkingData_spec (workingData : Value F) (output : Row F)
    (batchFrame : Option (BatchFrame F)) :
    ∃ fields, mergedWorkingData workingData
        (buildWorkingOutputWithBatch (.ofRow output) batchFrame) = .object fields ∧
      (Value.object fields).get "_rows" =
        if shouldStripRowsFromWorkingData (.ofRow output) batchFrame then workingData.get "_rows"
        else (output.get "_rows").or (workingData.get "_rows") := by
  have hobject : ∀ row : Row F, ∃ fields, mergedWorkingData workingData (.ofRow row) =
      .object fields := by
    intro row
    cases workingData <;> exact ⟨_, rfl⟩
  unfold buildWorkingOutputWithBatch
  split_ifs with hstrip
  · obtain ⟨row, hrow, hnone⟩ := rows_stripped output
    obtain ⟨fields, hfields⟩ := hobject row
    refine ⟨fields, hrow ▸ hfields, ?_⟩
    rw [← hfields, get_mergedWorkingData, hnone, Option.none_or]
  · obtain ⟨fields, hfields⟩ := hobject output
    exact ⟨fields, hfields, by rw [← hfields, get_mergedWorkingData]⟩

theorem get_rowsOutputFields (rows : List (Value F)) (rowCount : Nat)
    (extraFields : List (String × Value F)) :
    ((rowsOutputFields rows rowCount extraFields).get "_rows").isSome = true := by
  have hfold : ∀ row : Row F, (row.get "_rows").isSome = true →
      ((extraFields.foldl (fun output p => output.insert p.1 p.2) row).get "_rows").isSome =
        true := by
    induction extraFields with
    | nil => exact fun row h => h
    | cons p extraFields ih =>
      intro row h
      apply ih
      rw [get_insert]
      split_ifs
      · rfl
      · exact h
  apply hfold
  rw [get_insert, get_insert]
  rfl

section Steps

variable [Float64 F]

variable {rows : List (Value F)}

/-- A result with rows: its output has `_rows`, and it has a frame, of the same rows, exactly when
the rows convert. -/
theorem built_rows {result : BatchStepExecutionResult F}
    (h : Built result (some rows)) :
    ∃ output : Row F, result.output = .ofRow output ∧ (output.get "_rows").isSome = true ∧
      match result.batchFrame with
      | some frame => ∃ rows' converted', frame.toJsonValues = .ok rows' ∧ SameRows rows rows' ∧
          converted rows = .ok converted'
      | none => ∀ rows', converted rows ≠ .ok rows' := by
  cases h with
  | batchRows hrows hresult =>
    unfold buildBatchRowsStepResult at hresult
    rw [hrows] at hresult
    cases hresult
    exact ⟨_, rfl, get_rowsOutputFields _ _ _, rows, rows, hrows, .inl rfl,
      converted_of_toJsonValues hrows⟩
  | materializedRows rows extraFields success confidence =>
    refine ⟨_, rfl, get_rowsOutputFields _ _ _, ?_⟩
    unfold buildMaterializedRowsStepResult
    cases hframe : BatchFrame.fromJsonValues rows with
    | ok frame =>
      obtain ⟨rows', hrows'⟩ := toJsonValues_of_fromJsonValues hframe
      have hconverted := converted_of_frame hframe hrows'
      exact ⟨rows', rows', hrows', .inr hconverted, hconverted⟩
    | error e =>
      intro rows' hrows'
      obtain ⟨frame, hok, -⟩ := frame_of_converted hrows'
      rw [hframe] at hok
      cases hok

theorem built_none {result : BatchStepExecutionResult F} (h : Built result none) :
    result.batchFrame = none ∧ ∃ output : Row F, result.output = .ofRow output ∧
      result.output.rows = none := by
  cases h with
  | object success fields confidence hrows => exact ⟨rfl, fields, rfl, hrows⟩

namespace ExecutionContext

variable {ctx : ExecutionContext F} {rows : List (Value F)} {fields : List (String × Value F)}

theorem Sees.sameRows (h : ctx.Sees rows) {own : List (Value F)}
    (hown : ctx.workingData.rows = some own) : SameRows rows own := by
  obtain ⟨read, hread, hsame⟩ := h.rowsFromContext _ (List.Perm.refl _)
  rw [getRowsFromContext, hown] at hread
  cases hread
  exact hsame

theorem sees_iff_of_frame (hobject : ctx.workingData = .object fields) {frame : BatchFrame F}
    (hframe : ctx.batchFrame = some frame) {rows' : List (Value F)}
    (hrows' : frame.toJsonValues = .ok rows') (hsame : SameRows rows rows') :
    ctx.Sees rows ↔ ∀ own ∈ ctx.workingData.rows, SameRows rows own := by
  constructor
  · exact fun h own hown => h.sameRows hown
  · intro h
    refine ⟨⟨frame, rows', by rw [getBatchFrame, hframe], hrows', hsame⟩, fun values _ => ?_, ?_⟩
    · unfold getRowsFromContext
      cases hown : ctx.workingData.rows with
      | some own => exact ⟨own, rfl, h own hown⟩
      | none =>
        refine ⟨rows', ?_, hsame⟩
        rw [hframe]
        show frame.toJsonValues.mapError _ = _
        rw [hrows']
        rfl
    · unfold materializeWorkingOutput
      cases hown : ctx.workingData.rows with
      | some own => exact ⟨ctx.workingData, own, by simp, hown, h own hown⟩
      | none =>
        refine ⟨.object (upsertList "_row_count"
          (fun rowCount => rowCount.getD (.ofUsize frame.rowCount))
            (upsertList "_rows" (fun _ => .array rows') fields)), rows', ?_, ?_, hsame⟩
        · rw [hobject, hframe]
          simp only [hrows', asArray, Option.isSome_none, Bool.or_self, Bool.false_eq_true,
            if_false]
          rfl
        · show (lookupList "_rows" (upsertList "_row_count" _ _)).bind _ = _
          rw [lookupList_upsertList_of_ne (by decide),
            lookupList_upsertList_self]
          rfl

theorem not_sees_of_none (hobject : ctx.workingData = .object fields)
    (hframe : ctx.batchFrame = none) (hrows : ctx.workingData.rows = none) : ¬ ctx.Sees rows := by
  intro h
  obtain ⟨frame, -, hget, -⟩ := h.batchFrame
  have htable : ctx.workingData.tableRows = none := by
    rw [tableRows, hrows, hobject]
    rfl
  rw [getBatchFrame, hframe, htable] at hget
  cases hget

variable (ctx) (stepId : String) {result : BatchStepExecutionResult F}

theorem merged_with_frame {frame : BatchFrame F} (hframe : result.batchFrame = some frame) :
    (ctx.mergeAndStoreStepResult stepId result).1 = .ok () ∧
      (ctx.mergeAndStoreStepResult stepId result).2.batchFrame = some frame ∧
      (ctx.mergeAndStoreStepResult stepId result).2.workingData =
        mergedWorkingData ctx.workingData
          (buildWorkingOutputWithBatch result.output result.batchFrame) := by
  unfold mergeAndStoreStepResult mergeStepOutputWithBatch
  rw [hframe]
  exact ⟨rfl, rfl, rfl⟩

theorem merged_without_frame (hframe : result.batchFrame = none) :
    (ctx.mergeAndStoreStepResult stepId result).2.workingData =
        mergedWorkingData ctx.workingData result.output ∧
      match (mergedWorkingData ctx.workingData result.output).tableRows with
      | some rows =>
        match BatchFrame.fromJsonValues rows with
        | .ok frame => (ctx.mergeAndStoreStepResult stepId result).1 = .ok () ∧
            (ctx.mergeAndStoreStepResult stepId result).2.batchFrame = some frame
        | .error e => (ctx.mergeAndStoreStepResult stepId result).1 = .error (.workflow e)
      | none => (ctx.mergeAndStoreStepResult stepId result).1 = .ok () ∧
          (ctx.mergeAndStoreStepResult stepId result).2.batchFrame = none := by
  have houtput : buildWorkingOutputWithBatch result.output none = result.output := rfl
  unfold mergeAndStoreStepResult mergeStepOutputWithBatch
  rw [hframe, houtput]
  dsimp only [refreshBatchFrameFromWorkingData]
  cases (mergedWorkingData ctx.workingData result.output).tableRows with
  | none => exact ⟨rfl, rfl, rfl⟩
  | some rows =>
    dsimp only
    cases BatchFrame.fromJsonValues rows with
    | ok frame => exact ⟨rfl, rfl, rfl⟩
    | error e => exact ⟨rfl, rfl⟩

variable (rows) in
theorem sees_iff_without_frame (hframe : result.batchFrame = none)
    (hobject : mergedWorkingData ctx.workingData result.output = .object fields) :
    ((ctx.mergeAndStoreStepResult stepId result).1 = .ok () ∧
        (ctx.mergeAndStoreStepResult stepId result).2.Sees rows) ↔
      ∃ own rows', (Value.object fields).rows = some own ∧ SameRows rows own ∧
        converted own = .ok rows' ∧ SameRows rows rows' := by
  obtain ⟨hdata, hrefresh⟩ := ctx.merged_without_frame stepId hframe
  rw [hobject] at hdata hrefresh
  change match (object fields).rows with | some _ => _ | none => _ at hrefresh
  cases hown : (object fields).rows with
  | none =>
    -- the refresh has dropped the frame
    rw [hown] at hrefresh
    refine iff_of_false (fun h => not_sees_of_none hdata hrefresh.2 (hdata ▸ hown) h.2) ?_
    rintro ⟨own, rows', hnone, -⟩
    cases hnone
  | some own =>
    rw [hown] at hrefresh
    cases hok : BatchFrame.fromJsonValues own with
    | error e =>
      simp only [hok] at hrefresh
      constructor
      · intro h
        rw [hrefresh] at h
        cases h.1
      · rintro ⟨own', rows', heq, -, hconverted, -⟩
        cases heq
        obtain ⟨frame, hframe', -⟩ := frame_of_converted hconverted
        rw [hok] at hframe'
        cases hframe'
    | ok frame =>
      -- the frame is that of `own`: the frame reader has its conversion, the others `own`
      simp only [hok] at hrefresh
      obtain ⟨rows', hrows'⟩ := toJsonValues_of_fromJsonValues hok
      have hconverted := converted_of_frame hok hrows'
      rw [and_iff_right hrefresh.1]
      constructor
      · intro h
        obtain ⟨frame', rows'', hget, hrows'', hsame⟩ := h.batchFrame
        rw [getBatchFrame, hrefresh.2] at hget
        cases hget
        cases hrows'.symm.trans hrows''
        exact ⟨own, rows', rfl, h.sameRows (hdata ▸ hown), hconverted, hsame⟩
      · rintro ⟨own', rows'', heq, hsameOwn, hconverted', hsame⟩
        cases heq
        cases hconverted.symm.trans hconverted'
        apply (sees_iff_of_frame hdata hrefresh.2 hrows' hsame).mpr
        intro own' hown'
        rw [hdata, hown] at hown'
        cases hown'
        exact hsameOwn

end ExecutionContext

namespace Pipeline

variable {p : Pipeline F} {a : StepResult F}

def Inv (p : Pipeline F) : Prop :=
  ∀ rows ∈ p.latest, (∃ rows', converted rows = .ok rows') ∧
    ∀ own ∈ p.context.workingData.rows, SameRows rows own

theorem seesLatest_iff (hlatest : a.rows.or p.latest = some rows) :
    p.SeesLatest a ↔
      (p.context.mergeAndStoreStepResult a.stepId a.toBatchStepExecutionResult).1 = .ok () ∧
        (p.merge a).context.Sees rows := by
  unfold SeesLatest
  show (∀ rows ∈ a.rows.or p.latest, _) ↔ _
  rw [hlatest]
  exact ⟨fun h => h rows rfl, fun h _ hrows => Option.some.inj hrows ▸ h⟩

theorem inv_iff (hlatest : p.latest = some rows) :
    Inv p ↔ (∃ rows', converted rows = .ok rows') ∧
      ∀ own ∈ p.context.workingData.rows, SameRows rows own := by
  unfold Inv
  rw [hlatest]
  exact ⟨fun h => h rows rfl, fun h _ hrows => Option.some.inj hrows ▸ h⟩

theorem rows_merged (hrows : a.rows = some rows) :
    ∃ fields, mergedWorkingData p.context.workingData
        (buildWorkingOutputWithBatch a.output a.batchFrame) = .object fields ∧
      (Value.object fields).rows =
        if shouldStripRowsFromWorkingData a.output a.batchFrame then p.context.workingData.rows
        else a.output.rows := by
  obtain ⟨output, houtput, hkey, -⟩ := built_rows (hrows ▸ a.built)
  obtain ⟨fields, hfields, hget⟩ :=
    mergedWorkingData_spec p.context.workingData output a.batchFrame
  rw [houtput]
  refine ⟨fields, hfields, ?_⟩
  unfold Value.rows
  rw [hget, Option.or_of_isSome hkey]
  split_ifs
  · rfl
  · rfl

theorem careful_rows (hrows : a.rows = some rows) :
    p.Careful a ↔ (∃ rows', converted rows = .ok rows') ∧
      ∀ own ∈ if shouldStripRowsFromWorkingData a.output a.batchFrame then
          p.context.workingData.rows else a.output.rows, SameRows rows own := by
  unfold Careful
  rw [hrows]
  dsimp only
  split_ifs
  · exact Iff.rfl
  · exact Iff.rfl

theorem step_rows (hrows : a.rows = some rows) :
    (p.SeesLatest a ↔ p.Careful a) ∧ (p.Careful a → Inv (p.merge a)) := by
  have hlatest : a.rows.or p.latest = some rows := by rw [hrows, Option.some_or]
  obtain ⟨-, -, -, hframe⟩ := built_rows (hrows ▸ a.built)
  obtain ⟨fields, hfields, hmerged⟩ := rows_merged (p := p) hrows
  rw [seesLatest_iff hlatest, inv_iff (p := p.merge a) hlatest, careful_rows hrows, ← hmerged]
  cases hcase : a.batchFrame with
  | some frame =>
    rw [hcase] at hframe hfields
    obtain ⟨rows', converted', hrows', hsame, hconverts⟩ := hframe
    obtain ⟨hok, hbatch, hdata⟩ := p.context.merged_with_frame a.stepId hcase
    rw [hcase, hfields] at hdata
    have hsees : (p.merge a).context.Sees rows ↔ _ :=
      ExecutionContext.sees_iff_of_frame hdata hbatch hrows' hsame
    have hown : (p.merge a).context.workingData.rows = _ := congrArg Value.rows hdata
    rw [hsees, hown, and_iff_right hok]
    exact ⟨(and_iff_right (Exists.intro converted' hconverts)).symm, id⟩
  | none =>
    -- rows that do not convert can only be seen under `_rows`, and there the refresh fails
    rw [hcase] at hframe hfields
    have hnot : ¬ ∃ rows', converted rows = .ok rows' := fun ⟨rows', h⟩ => hframe rows' h
    have hobject : mergedWorkingData p.context.workingData a.output = .object fields := hfields
    refine ⟨iff_of_false ?_ (fun h => hnot h.1), fun h => absurd h.1 hnot⟩
    intro hsees
    obtain ⟨own, rows', -, hsame, hconverts, -⟩ :=
      (p.context.sees_iff_without_frame rows a.stepId hcase hobject).mp hsees
    rcases hsame with rfl | hconverts'
    · exact hframe rows' hconverts
    · exact hframe own hconverts'

theorem careful_none (hrows : a.rows = none) :
    p.Careful a ↔ (p.latest ≠ none → a.output.get "_rows" = none ∧
      p.context.workingData.rows.isSome = true) := by
  unfold Careful
  rw [hrows]

theorem step_none (hinv : Inv p) (hrows : a.rows = none) :
    (p.SeesLatest a ↔ p.Careful a) ∧ (p.Careful a → Inv (p.merge a)) := by
  obtain ⟨hframe, output, houtput, hnoRows⟩ := built_none (hrows ▸ a.built)
  obtain ⟨fields, hfields, hget⟩ := mergedWorkingData_spec p.context.workingData output none
  have hobject : mergedWorkingData p.context.workingData a.output = .object fields :=
    houtput ▸ hfields
  have hget' : (object fields).get "_rows" =
      (a.output.get "_rows").or (p.context.workingData.get "_rows") := by
    rw [hget, houtput]
    rfl
  have hmerged : (p.merge a).latest = p.latest := by
    show a.rows.or p.latest = p.latest
    rw [hrows, Option.none_or]
  rw [careful_none hrows]
  cases hlatest : p.latest with
  | none =>
    -- nothing to see yet
    rw [hlatest] at hmerged
    refine ⟨iff_of_true ?_ (fun h => absurd rfl h), fun _ rows hmem => ?_⟩
    · intro rows hmem
      rw [hmerged] at hmem
      cases hmem
    · rw [hmerged] at hmem
      cases hmem
  | some rows =>
    rw [hlatest] at hmerged
    obtain ⟨⟨converted', hconverts⟩, hsame⟩ := (inv_iff hlatest).mp hinv
    rw [seesLatest_iff hmerged, inv_iff hmerged]
    have hsees := p.context.sees_iff_without_frame rows a.stepId hframe hobject
    have hdata : (p.merge a).context.workingData = .object fields :=
      (p.context.merged_without_frame a.stepId hframe).1.trans hobject
    rw [hdata]
    cases hkey : a.output.get "_rows" with
    | some v =>
      -- the output puts something else in the place of the rows
      have hgone : (object fields).rows = none := by
        rw [Value.rows, hget', hkey]
        rw [Value.rows, hkey] at hnoRows
        exact hnoRows
      have hnot : ¬ (some rows ≠ none → some v = none ∧
          p.context.workingData.rows.isSome = true) := by
        intro h
        cases (h (Option.some_ne_none rows)).1
      refine ⟨hsees.trans (iff_of_false ?_ hnot), fun h => absurd h hnot⟩
      rintro ⟨own, rows', hown, -⟩
      rw [hgone] at hown
      cases hown
    | none =>
      -- the working data keep their rows, if they have them, and the frame is made from these
      have hkept : (object fields).rows = p.context.workingData.rows := by
        rw [Value.rows, hget', hkey, Option.none_or]
        rfl
      rw [hkept] at hsees ⊢
      refine ⟨hsees.trans ⟨?_, ?_⟩, fun _ => ⟨⟨converted', hconverts⟩, hsame⟩⟩
      · rintro ⟨own, rows', hown, -⟩ -
        rw [hown]
        exact ⟨rfl, rfl⟩
      · intro h
        obtain ⟨own, hown⟩ := Option.isSome_iff_exists.mp (h (Option.some_ne_none rows)).2
        obtain ⟨rows', hrows', hsame'⟩ := (hsame own hown).converted hconverts
        exact ⟨own, rows', hown, hsame own hown, hrows', hsame'⟩

theorem seesLatest_step (hinv : Inv p) :
    (p.SeesLatest a ↔ p.Careful a) ∧ (p.Careful a → Inv (p.merge a)) := by
  cases hrows : a.rows with
  | some rows => exact step_rows hrows
  | none => exact step_none hinv hrows

/-- **The next step sees the latest rows** after every merge of a run exactly when every merge
meets the condition, from every context. -/
theorem sees_latest_iff_careful (context : ExecutionContext F) (results : List (StepResult F)) :
    OkAlong (fun p a => some (merge p a)) SeesLatest ⟨context, none⟩ results ↔
      OkAlong (fun p a => some (merge p a)) Careful ⟨context, none⟩ results := by
  refine okAlong_congr (I := Inv) ?_ (fun rows hrows => by cases hrows)
    (exec_total merge ⟨context, none⟩ results)
  intro p a p' hinv hstep
  obtain ⟨hiff, hkeep⟩ := seesLatest_step hinv
  cases hstep
  exact ⟨hiff, fun hsees => hkeep (hiff.mp hsees)⟩

end Pipeline

end Steps

/-! ## Rows that are lost -/

theorem isLarge_buildRowsOutput (rows : List (Value F)) (rowCount : Nat) :
    isLarge (buildRowsOutput rows rowCount []) = decide (10000 < rowCount % 2 ^ 64) := by
  have hcount : (buildRowsOutput rows rowCount []).get "_row_count" = some (.ofUsize rowCount) := by
    show (rowsOutputFields rows rowCount []).get "_row_count" = _
    rw [rowsOutputFields, List.foldl_nil, get_insert, if_pos rfl]
  have hread : (ofUsize rowCount : Value F).asU64 =
      some (UInt64.ofNat (rowCount % 2 ^ 64)) := by
    show (if (0 : Int) ≤ ((rowCount % 2 ^ 64 : Nat) : Int) then _ else none) = _
    rw [if_pos (Int.natCast_nonneg _)]
    rfl
  have hlt : largeRowPayloadThreshold < UInt64.ofNat (rowCount % 2 ^ 64) ↔
      10000 < rowCount % 2 ^ 64 := by
    rw [UInt64.lt_iff_toNat_lt, UInt64.toNat_ofNat', Nat.mod_mod]
    exact Iff.rfl
  unfold isLarge
  rw [hcount, Option.bind_some, hread, Option.any_some, decide_eq_decide]
  exact hlt

theorem rows_buildRowsOutput (rows : List (Value F)) (rowCount : Nat) :
    (buildRowsOutput rows rowCount []).rows = some rows := by
  show ((rowsOutputFields rows rowCount []).get "_rows").bind _ = _
  rw [rowsOutputFields, List.foldl_nil, get_insert, if_neg (by decide),
    get_insert, if_pos rfl]
  rfl

namespace Pipeline

def sampleRow (id : UInt8) : Row Int := BTreeMap.empty.insert "id" (.number (.int (.ofByte id)))

/-- A step that leaves `n` rows with the same id. -/
def sampleResult (stepId : String) (id : UInt8) (n : Nat) : StepResult Int where
  toBatchStepExecutionResult :=
    buildMaterializedRowsStepResult ((List.replicate n (sampleRow id)).map .ofRow) [] true 1
  stepId
  rows := some ((List.replicate n (sampleRow id)).map .ofRow)
  built := .materializedRows _ _ _ _

def sampleStatus : StepResult Int where
  toBatchStepExecutionResult :=
    .withoutFrame true (.ofRow (BTreeMap.empty.insert "_status" (.string "ok"))) 1
  stepId := "check"
  rows := none
  built := .object _ _ _ (by decide)

theorem lossless_sample (id : UInt8) (n : Nat) : Lossless (List.replicate n (sampleRow id)) := by
  refine ⟨empty.insert "id" .Int64, fun row hrow k => ?_⟩
  rw [List.eq_of_mem_replicate hrow, sampleRow, get_insert, get_insert]
  split_ifs
  · apply Option.Rel.some
    have hlt : id.toNat < 256 := id.toNat_lt
    show (id.toNat : Int) < 2 ^ 63
    omega
  · exact .none

theorem batchFrame_sampleResult (stepId : String) (id : UInt8) (n : Nat) :
    (sampleResult stepId id n).batchFrame = some (builtFrame (List.replicate n (sampleRow id))) := by
  show (BatchFrame.fromJsonValues _).toOption = _
  rw [BatchFrame.fromJsonValues_eq (lossless_sample id n)]
  rfl

theorem shouldStrip_sampleResult (stepId : String) (id : UInt8) (n : Nat) :
    shouldStripRowsFromWorkingData (sampleResult stepId id n).output
      (sampleResult stepId id n).batchFrame = decide (10000 < n % 2 ^ 64) := by
  have hlarge : isLarge (sampleResult stepId id n).output = decide (10000 < n % 2 ^ 64) := by
    show isLarge (buildRowsOutput _ _ _) = _
    rw [isLarge_buildRowsOutput, List.length_map, List.length_replicate]
  have hrows : (sampleResult stepId id n).output.rows.isSome = true := by
    show (buildRowsOutput _ _ _).rows.isSome = true
    rw [rows_buildRowsOutput]
    rfl
  rw [shouldStripRowsFromWorkingData, hlarge, hrows, batchFrame_sampleResult, Bool.and_true]
  rfl

theorem rows_sampleResult (p : Pipeline Int) (stepId : String) (id : UInt8) (n : Nat) :
    (p.merge (sampleResult stepId id n)).context.workingData.rows =
      if 10000 < n % 2 ^ 64 then p.context.workingData.rows
      else some ((List.replicate n (sampleRow id)).map .ofRow) := by
  obtain ⟨fields, hfields, hrows⟩ := rows_merged (p := p) (a := sampleResult stepId id n) rfl
  obtain ⟨-, -, hdata⟩ :=
    p.context.merged_with_frame stepId (batchFrame_sampleResult stepId id n)
  have hown : (p.merge (sampleResult stepId id n)).context.workingData = .object fields :=
    hdata.trans hfields
  have houtput : (sampleResult stepId id n).output.rows =
      some ((List.replicate n (sampleRow id)).map .ofRow) := rows_buildRowsOutput _ _
  rw [hown, hrows, shouldStrip_sampleResult, houtput]
  simp only [decide_eq_true_eq]

theorem getRows_sampleResult {p : Pipeline Int} {old : List (Value Int)}
    (hold : p.context.workingData.rows = some old) (stepId : String) (id : UInt8) {n : Nat}
    (hn : 10000 < n % 2 ^ 64) (values : List (Value Int)) :
    (p.merge (sampleResult stepId id n)).context.getRowsFromContext values = .ok old := by
  rw [ExecutionContext.getRowsFromContext, rows_sampleResult, if_pos hn, hold]

theorem not_seesLatest_sampleResult {p : Pipeline Int} {old : List (Value Int)}
    (hold : p.context.workingData.rows = some old) (stepId : String) (id : UInt8) {n : Nat}
    (hn : 10000 < n % 2 ^ 64) (hlength : old.length ≠ n) :
    ¬ p.SeesLatest (sampleResult stepId id n) := by
  intro h
  obtain ⟨-, hsees⟩ := h _ rfl
  obtain ⟨rows', hrows', hsame⟩ := hsees.rowsFromContext _ (List.Perm.refl _)
  rw [getRows_sampleResult hold stepId id hn] at hrows'
  cases hrows'
  have hlossless := lossless_sample id n
  have hconverted := converted_of_frame (BatchFrame.fromJsonValues_eq hlossless)
    (frameOf_builtFrame hlossless).toJsonValues_eq
  apply hlength
  rcases hsame with heq | hother
  · rw [heq, List.length_map, List.length_replicate]
  · rw [Except.ok.inj (hother.symm.trans hconverted), List.length_map, List.length_replicate]

theorem getBatchFrame_sampleStatus {p : Pipeline Int} (hrows : p.context.workingData.rows = none) :
    (p.merge sampleStatus).context.getBatchFrame =
      .error (.message "ExecutionContext does not currently hold row-oriented JSON data") := by
  obtain ⟨fields, hfields, hget⟩ := mergedWorkingData_spec p.context.workingData
    (empty.insert "_status" (.string "ok")) none
  have htable : (mergedWorkingData p.context.workingData sampleStatus.output).tableRows =
      none := by
    rw [show mergedWorkingData _ sampleStatus.output = .object fields from hfields]
    show ((object fields).get "_rows").bind _ = none
    rw [hget]
    exact hrows
  obtain ⟨hdata, hrefresh⟩ := p.context.merged_without_frame "check"
    (show sampleStatus.batchFrame = none from rfl)
  rw [htable] at hrefresh
  have hframe : (p.merge sampleStatus).context.batchFrame = none := hrefresh.2
  have htable' : (p.merge sampleStatus).context.workingData.tableRows = none :=
    (congrArg tableRows hdata).trans htable
  rw [ExecutionContext.getBatchFrame, hframe, htable']

def sampleStart : Pipeline Int := ⟨.new (.object []), none⟩

/-- One row with id 1 is followed by 10,001 rows with id 2: the row with id 1 is read. And after
10,001 rows, an output without rows leaves none to read. -/
theorem latest_rows_lost :
    (∀ values, ((sampleStart.merge (sampleResult "read" 1 1)).merge
        (sampleResult "join" 2 10001)).context.getRowsFromContext values =
      .ok [.ofRow (sampleRow 1)]) ∧
    ((sampleStart.merge (sampleResult "join" 2 10001)).merge sampleStatus).context.getBatchFrame =
      .error (.message "ExecutionContext does not currently hold row-oriented JSON data") ∧
    ¬ OkAlong (fun p a => some (merge p a)) SeesLatest sampleStart
      [sampleResult "read" 1 1, sampleResult "join" 2 10001] := by
  have hold : (sampleStart.merge (sampleResult "read" 1 1)).context.workingData.rows =
      some [.ofRow (sampleRow 1)] := by
    rw [rows_sampleResult, if_neg (by decide)]
    rfl
  have hlarge : 10000 < 10001 % 2 ^ 64 := by decide
  refine ⟨getRows_sampleResult hold "join" 2 hlarge, ?_, ?_⟩
  · apply getBatchFrame_sampleStatus
    rw [rows_sampleResult, if_pos hlarge]
    rfl
  · rintro ⟨-, hnext⟩
    obtain ⟨hsees, -⟩ := hnext _ rfl
    exact not_seesLatest_sampleResult hold "join" 2 hlarge (by decide) hsees

end Pipeline

end Arcxa.Workflow
