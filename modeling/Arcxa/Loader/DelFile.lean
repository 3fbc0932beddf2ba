import Mathlib.Tactic

/-!
# DEL files

`DelFileGenerator` writes rows as delimited text for the LOAD utility. `means_rows_iff`: a reader of
that format finds the mapped values, and the byte count is right, exactly when no value has an escape
character that the reader takes for one, rows have columns, the delimiter is one byte, and the
separators are told apart.
-/

namespace Arcxa.Loader

structure ColumnMapping where
  sourceIndex : Nat
  targetIndex : Nat
  nullable : Bool
  defaultValue : Option (List Char)

structure DelGeneratorConfig where
  delimiter : Char
  nullIndicator : List Char
  quote : Char
  escape : Char
  columnMappings : List ColumnMapping

structure DelGenerationError where
  rowNumber : Nat
  columnIndex : Nat
  message : String
  isWarning : Bool

/-- The generator, with the text of the file so far. -/
structure DelFileGenerator where
  config : DelGeneratorConfig
  file : List Char
  rowsWritten : Nat
  bytesWritten : Nat
  nullValuesCount : Nat
  escapedCharsCount : Nat
  errors : List DelGenerationError

/-- `String::len`: the length in bytes. -/
def byteLength (text : List Char) : Nat := (text.map Char.utf8Size).sum

namespace DelGeneratorConfig

variable (config : DelGeneratorConfig)

def mappedValue (row : List (List Char)) (mapping : ColumnMapping) : List Char × Bool :=
  match row[mapping.sourceIndex]? with
  | some value =>
    if value = [] ∧ mapping.nullable = false then
      match mapping.defaultValue with
      | some default => (default, false)
      | none => (config.nullIndicator, true)
    else (value, false)
  | none => (mapping.defaultValue.getD config.nullIndicator, false)

def formatChar (c : Char) : List Char :=
  if c = config.quote then [config.escape, c]
  else if c = '\r' then []
  else [c]

def isNull (value : List Char) : Bool := value = [] ∨ value = config.nullIndicator

def formatValue (value : List Char) : List Char :=
  if config.isNull value then config.nullIndicator
  else config.quote :: value.flatMap config.formatChar ++ [config.quote]

end DelGeneratorConfig

namespace DelFileGenerator

variable (generator : DelFileGenerator)

def new (config : DelGeneratorConfig) : DelFileGenerator := ⟨config, [], 0, 0, 0, 0, []⟩

/-- One column; an index out of bounds panics. -/
def mapColumn (row : List (List Char)) (state : List (List Char) × DelFileGenerator)
    (mapping : ColumnMapping) : Option (List (List Char) × DelFileGenerator) :=
  if mapping.targetIndex < state.1.length then
    let mapped := state.2.config.mappedValue row mapping
    some (state.1.set mapping.targetIndex mapped.1,
      if mapped.2 then
        { state.2 with
          errors := state.2.errors ++
            [{ rowNumber := state.2.rowsWritten
               columnIndex := mapping.sourceIndex
               message := "Non-nullable column has empty value"
               isWarning := true }] }
      else state.2)
  else none

def mapRow (row : List (List Char)) : Option (List (List Char) × DelFileGenerator) :=
  if generator.config.columnMappings = [] then some (row, generator)
  else
    generator.config.columnMappings.foldlM (mapColumn row)
      (List.replicate generator.config.columnMappings.length [], generator)

def writeValue (value : List Char) : DelFileGenerator :=
  let formatted := generator.config.formatValue value
  { generator with
    file := generator.file ++ formatted
    bytesWritten := generator.bytesWritten + byteLength formatted
    nullValuesCount := generator.nullValuesCount + (generator.config.isNull value).toNat
    escapedCharsCount := generator.escapedCharsCount +
      if generator.config.isNull value then 0 else value.count generator.config.quote }

def writeDelimiter : DelFileGenerator :=
  { generator with
    file := generator.file ++ [generator.config.delimiter]
    bytesWritten := generator.bytesWritten + 1 }

def writeNewline : DelFileGenerator :=
  { generator with
    file := generator.file ++ ['\n']
    bytesWritten := generator.bytesWritten + 1 }

def writeValues : List (List Char) → DelFileGenerator → DelFileGenerator
  | [], generator => generator
  | [value], generator => generator.writeValue value
  | value :: values, generator => writeValues values (generator.writeValue value).writeDelimiter

def writeRow (row : List (List Char)) : Option DelFileGenerator :=
  ({ generator with rowsWritten := generator.rowsWritten + 1 }.mapRow row).map
    fun (values, generator) => (writeValues values generator).writeNewline

def writeRows (rows : List (List (List Char))) : Option DelFileGenerator :=
  rows.foldlM writeRow generator

end DelFileGenerator

/-! ## The reader of the format -/

namespace DelGeneratorConfig

variable (config : DelGeneratorConfig)

def readQuoted : List Char → Option (List Char × List Char)
  | [] => none
  | [c] => if c = config.quote then some ([], []) else none
  | c :: d :: rest =>
    if c = config.escape ∧ d = config.quote then
      (readQuoted rest).map fun p => (config.quote :: p.1, p.2)
    else if config.escape ≠ config.quote ∧ c = config.escape ∧ d = config.escape then
      (readQuoted rest).map fun p => (config.escape :: p.1, p.2)
    else if c = config.quote then some ([], d :: rest)
    else (readQuoted (d :: rest)).map fun p => (c :: p.1, p.2)

def bare (c : Char) : Bool := c ≠ config.delimiter ∧ c ≠ '\n'

def readField (text : List Char) : Option (Option (List Char) × List Char) :=
  if text.head? = some config.quote ∧ text.head? ≠ some '\n' then
    (config.readQuoted text.tail).map fun p => (some p.1, p.2)
  else if text.takeWhile config.bare = config.nullIndicator then
    some (none, text.dropWhile config.bare)
  else none

def readRow : Nat → List Char → Option (List (Option (List Char)) × List Char)
  | 0, _ => none
  | fuel + 1, text =>
    match config.readField text with
    | some (field, c :: rest) =>
      if c = '\n' then some ([field], rest)
      else if c = config.delimiter then
        (readRow fuel rest).map fun p => (field :: p.1, p.2)
      else none
    | _ => none

def readRows : Nat → List Char → Option (List (List (Option (List Char))))
  | _, [] => some []
  | 0, _ => none
  | fuel + 1, text =>
    match config.readRow (text.length + 1) text with
    | some (row, rest) => (readRows fuel rest).map (row :: ·)
    | none => none

def read (text : List Char) : Option (List (List (Option (List Char)))) :=
  config.readRows text.length text

end DelGeneratorConfig

/-! ## Quoted fields -/

variable {rest : List Char} {text : List Char}

namespace DelGeneratorConfig

variable (config : DelGeneratorConfig)

def escaped (value : List Char) : List Char :=
  value.flatMap fun c => if c = config.quote then [config.escape, c] else [c]

/-- Every escape character is followed by a character that is neither an escape nor a quote. -/
def Readable : List Char → Prop
  | [] => True
  | [c] => c ≠ config.escape
  | c :: d :: rest =>
    (c = config.escape → d ≠ config.escape ∧ d ≠ config.quote) ∧ Readable (d :: rest)

variable {config}

theorem escaped_quote (value : List Char) :
    config.escaped (config.quote :: value) = config.escape :: config.quote :: config.escaped value := by
  rw [escaped, List.flatMap_cons, if_pos rfl]
  rfl

theorem escaped_cons {c : Char} (h : c ≠ config.quote) (value : List Char) :
    config.escaped (c :: value) = c :: config.escaped value := by
  rw [escaped, List.flatMap_cons, if_neg h]
  rfl

theorem readQuoted_escape_quote (text : List Char) :
    config.readQuoted (config.escape :: config.quote :: text) =
      (config.readQuoted text).map fun p => (config.quote :: p.1, p.2) := by
  rw [readQuoted, if_pos ⟨rfl, rfl⟩]

theorem readQuoted_escape_escape (hne : config.escape ≠ config.quote) (text : List Char) :
    config.readQuoted (config.escape :: config.escape :: text) =
      (config.readQuoted text).map fun p => (config.escape :: p.1, p.2) := by
  rw [readQuoted, if_neg fun h => hne h.2, if_pos ⟨hne, rfl, rfl⟩]

theorem readQuoted_escape (hne : config.escape ≠ config.quote) {d : Char} (hd : d ≠ config.escape)
    (hd' : d ≠ config.quote) (text : List Char) :
    config.readQuoted (config.escape :: d :: text) =
      (config.readQuoted (d :: text)).map fun p => (config.escape :: p.1, p.2) := by
  rw [readQuoted, if_neg fun h => hd' h.2, if_neg fun h => hd h.2.2, if_neg hne]

theorem readQuoted_plain {c : Char} (hc : c ≠ config.escape) (hc' : c ≠ config.quote) (htext : text ≠ []) :
    config.readQuoted (c :: text) = (config.readQuoted text).map fun p => (c :: p.1, p.2) := by
  obtain ⟨d, text, rfl⟩ := List.exists_cons_of_ne_nil htext
  rw [readQuoted, if_neg fun h => hc h.1, if_neg fun h => hc h.2.1, if_neg hc']

theorem readQuoted_close
    (h : config.escape = config.quote → rest.head? ≠ some config.quote) :
    config.readQuoted (config.quote :: rest) = some ([], rest) := by
  cases rest with
  | nil => rw [readQuoted, if_pos rfl]
  | cons d rest =>
    have hfirst : ¬ (config.quote = config.escape ∧ d = config.quote) := fun ⟨heq, hd⟩ =>
      h heq.symm (congrArg some hd)
    rw [readQuoted, if_neg hfirst, if_neg fun h => h.1 h.2.1.symm, if_pos rfl]

/-- **A readable value comes back**, and what follows its closing quote is left. -/
theorem readQuoted_escaped (value : List Char)
    (hrest : config.escape = config.quote → rest.head? ≠ some config.quote)
    (hvalue : config.escape = config.quote ∨ config.Readable value) :
    config.readQuoted (config.escaped value ++ config.quote :: rest) = some (value, rest) := by
  induction value with
  | nil => exact readQuoted_close hrest
  | cons c value ih =>
    have hne : config.escaped value ++ config.quote :: rest ≠ [] := by simp
    by_cases hquote : c = config.quote
    · subst hquote
      have htail : config.escape = config.quote ∨ config.Readable value := by
        refine hvalue.imp_right fun h => ?_
        cases value with
        | nil => trivial
        | cons d value => exact h.2
      rw [escaped_quote, List.cons_append, List.cons_append, readQuoted_escape_quote, ih htail]
      rfl
    · rw [escaped_cons hquote, List.cons_append]
      by_cases hescape : c = config.escape
      · subst hescape
        have hreadable := hvalue.resolve_left hquote
        cases value with
        | nil => exact absurd rfl hreadable
        | cons d value =>
          obtain ⟨hd, htail⟩ := hreadable
          obtain ⟨hd, hd'⟩ := hd rfl
          have hread := ih (.inr htail)
          rw [escaped_cons hd', List.cons_append] at hread ⊢
          rw [readQuoted_escape hquote hd hd', hread]
          rfl
      · have htail : config.escape = config.quote ∨ config.Readable value := by
          refine hvalue.imp_right fun h => ?_
          cases value with
          | nil => trivial
          | cons d value => exact h.2
        rw [readQuoted_plain hescape hquote hne, ih htail]
        rfl

/-- What a read of a written value can have done with the value's first character: an escape at the end
takes the closing quote, and one before a quote takes that quote's escape, so that the quote closes the
field. -/
theorem readQuoted_cons_cases (hne : config.escape ≠ config.quote) {c : Char} {value : List Char}
    {p : List Char × List Char}
    (h : config.readQuoted (config.escaped (c :: value) ++ config.quote :: rest) = some p) :
    (∃ p', config.readQuoted (config.escaped value ++ config.quote :: rest) = some p' ∧
      p = (c :: p'.1, p'.2) ∧ (c = config.escape → value ≠ [] ∧
        value.head? ≠ some config.escape ∧ value.head? ≠ some config.quote)) ∨
    (∃ value' p', c = config.escape ∧ value = config.escape :: value' ∧
      config.readQuoted (config.escaped value' ++ config.quote :: rest) = some p' ∧
        p = (config.escape :: p'.1, p'.2)) ∨
    (∃ value', c = config.escape ∧ value = config.quote :: value' ∧
      p = ([config.escape], config.escaped value' ++ config.quote :: rest)) ∨
    c = config.escape ∧ value = [] ∧ config.quote ∈ p.1.head? := by
  by_cases hquote : c = config.quote
  · subst hquote
    rw [escaped_quote, List.cons_append, List.cons_append, readQuoted_escape_quote] at h
    obtain ⟨p', hp', rfl⟩ := Option.map_eq_some_iff.mp h
    exact .inl ⟨p', hp', rfl, fun heq => absurd heq.symm hne⟩
  rw [escaped_cons hquote, List.cons_append] at h
  by_cases hescape : c = config.escape
  · subst hescape
    cases value with
    | nil =>
      rw [show config.escaped [] = [] from rfl, List.nil_append, readQuoted_escape_quote] at h
      obtain ⟨p', -, rfl⟩ := Option.map_eq_some_iff.mp h
      exact .inr (.inr (.inr ⟨rfl, rfl, rfl⟩))
    | cons d value =>
      by_cases hd' : d = config.quote
      · subst hd'
        rw [escaped_quote, List.cons_append, List.cons_append, readQuoted_escape_escape hne,
          readQuoted_close fun h => absurd h hne] at h
        cases h
        exact .inr (.inr (.inl ⟨value, rfl, rfl, rfl⟩))
      · by_cases hd : d = config.escape
        · subst hd
          rw [escaped_cons hquote, List.cons_append, readQuoted_escape_escape hne] at h
          obtain ⟨p', hp', rfl⟩ := Option.map_eq_some_iff.mp h
          exact .inr (.inl ⟨value, p', rfl, rfl, hp', rfl⟩)
        · rw [escaped_cons hd', List.cons_append, readQuoted_escape hne hd hd'] at h
          obtain ⟨p', hp', rfl⟩ := Option.map_eq_some_iff.mp h
          rw [← List.cons_append, ← escaped_cons hd'] at hp'
          exact .inl ⟨p', hp', rfl, fun _ =>
            ⟨List.cons_ne_nil _ _, fun h => hd (Option.some.inj h), fun h => hd' (Option.some.inj h)⟩⟩
  · rw [readQuoted_plain hescape hquote (by simp)] at h
    obtain ⟨p', hp', rfl⟩ := Option.map_eq_some_iff.mp h
    exact .inl ⟨p', hp', rfl, fun heq => absurd heq hescape⟩

theorem readQuoted_ne_replicate (hne : config.escape ≠ config.quote) :
    ∀ (value : List Char) (k : Nat) (p : List Char × List Char),
      config.readQuoted (config.escaped value ++ config.quote :: rest) = some p →
        p.1 ≠ List.replicate (k + 1) config.escape ++ value
  | [], k, p, h => by
    rw [show config.escaped [] = [] from rfl, List.nil_append,
      readQuoted_close fun h => absurd h hne] at h
    cases h
    exact (List.append_ne_nil_of_left_ne_nil (by simp) _).symm
  | c :: value, k, p, h => by
    rcases readQuoted_cons_cases hne h with ⟨p', hp', rfl, -⟩ | ⟨value', p', rfl, rfl, hp', rfl⟩ |
      ⟨value', rfl, rfl, rfl⟩ | ⟨rfl, rfl, hhead⟩ <;> intro heq
    · obtain ⟨rfl, heq⟩ := List.cons.inj heq
      refine readQuoted_ne_replicate hne value k p' hp' (heq.trans ?_)
      rw [List.replicate_succ', List.append_assoc]
      rfl
    · refine readQuoted_ne_replicate hne value' (k + 1) p' hp' ((List.cons.inj heq).2.trans ?_)
      rw [List.replicate_succ', List.replicate_succ', List.append_assoc, List.append_assoc]
      rfl
    · have hlength := congrArg List.length heq
      simp at hlength
      omega
    · rw [heq, List.replicate_succ, List.cons_append] at hhead
      exact hne (Option.some.inj hhead)

/-- **A value that is not readable does not come back.** -/
theorem readQuoted_ne (hne : config.escape ≠ config.quote) :
    ∀ (value : List Char), ¬ config.Readable value → ∀ p : List Char × List Char,
      config.readQuoted (config.escaped value ++ config.quote :: rest) = some p → p.1 ≠ value
  | [], hvalue, _, _ => absurd trivial hvalue
  | c :: value, hvalue, p, h => by
    rcases readQuoted_cons_cases hne h with ⟨p', hp', rfl, hafter⟩ | ⟨value', p', rfl, rfl, hp', rfl⟩ |
      ⟨value', rfl, rfl, rfl⟩ | ⟨rfl, rfl, hhead⟩ <;> intro heq
    · refine readQuoted_ne hne value (fun htail => hvalue ?_) p' hp' (List.cons.inj heq).2
      cases value with
      | nil => exact fun hescape => (hafter hescape).1 rfl
      | cons d value =>
        exact ⟨fun hescape => ⟨fun hd => (hafter hescape).2.1 (congrArg some hd),
          fun hd => (hafter hescape).2.2 (congrArg some hd)⟩, htail⟩
    · exact readQuoted_ne_replicate hne value' 0 p' hp' (List.cons.inj heq).2
    · exact List.cons_ne_nil _ _ (List.cons.inj heq).2.symm
    · rw [heq] at hhead
      exact hne (Option.some.inj hhead)

theorem readable_of_notMem {value : List Char} (h : config.escape ∉ value) :
    config.Readable value := by
  match value with
  | [] => trivial
  | [c] => exact fun heq => h (heq ▸ List.mem_singleton_self c)
  | c :: d :: rest =>
    rw [List.mem_cons, not_or] at h
    exact ⟨fun heq => absurd heq.symm h.1, readable_of_notMem h.2⟩

/-! ## Values with quotes -/

theorem quote_mem_readQuoted (heq : config.escape = config.quote) {value rest : List Char}
    {p : List Char × List Char} (hmem : config.quote ∈ value)
    (h : config.readQuoted (config.escaped value ++ config.quote :: rest) = some p) :
    config.quote ∈ p.1 := by
  induction value generalizing p with
  | nil => exact absurd hmem List.not_mem_nil
  | cons c value ih =>
    by_cases hquote : c = config.quote
    · subst hquote
      rw [escaped_quote, List.cons_append, List.cons_append, readQuoted_escape_quote] at h
      obtain ⟨p', -, rfl⟩ := Option.map_eq_some_iff.mp h
      exact List.mem_cons_self ..
    · have hescape : c ≠ config.escape := fun hc => hquote (hc.trans heq)
      rw [escaped_cons hquote, List.cons_append,
        readQuoted_plain hescape hquote (by simp)] at h
      obtain ⟨p', hp', rfl⟩ := Option.map_eq_some_iff.mp h
      have htail := (List.mem_cons.mp hmem).resolve_left (Ne.symm hquote)
      exact List.mem_cons_of_mem _ (ih htail hp')

theorem readQuoted_early (hne : config.escape ≠ config.quote) :
    ∀ (value : List Char) (p : List Char × List Char), config.quote ∈ value →
      config.readQuoted (config.escaped value ++ config.quote :: rest) = some p →
      config.quote ∉ p.1 → p.2.head? ≠ some config.quote →
      p.1.length < (value.filter (· ≠ config.quote)).length ∨
        ∃ k, p.2 = config.escape :: config.quote ::
          (config.escaped (List.replicate k config.quote) ++ config.quote :: rest)
  | [], _, hmem, _, _, _ => absurd hmem List.not_mem_nil
  | c :: value, p, hmem, h, hread, hhead => by
    rcases readQuoted_cons_cases hne h with ⟨p', hp', rfl, -⟩ | ⟨value', p', rfl, rfl, hp', rfl⟩ |
      ⟨value', rfl, rfl, rfl⟩ | ⟨rfl, rfl, -⟩
    · obtain ⟨hquote, hread⟩ := not_or.mp (mt List.mem_cons.mpr hread)
      have htail := (List.mem_cons.mp hmem).resolve_left hquote
      refine (readQuoted_early hne value p' htail hp' hread hhead).imp_left fun hlt => ?_
      rw [List.filter_cons_of_pos (by simpa using Ne.symm hquote)]
      exact Nat.succ_lt_succ hlt
    · have htail := List.mem_cons.mp ((List.mem_cons.mp hmem).resolve_left hne.symm)
      refine (readQuoted_early hne value' p' (htail.resolve_left hne.symm) hp'
        (fun hmem => hread (List.mem_cons_of_mem _ hmem)) hhead).imp_left fun hlt => ?_
      rw [List.filter_cons_of_pos (by simpa using hne), List.filter_cons_of_pos (by simpa using hne)]
      exact Nat.succ_lt_succ (Nat.lt_succ_of_lt hlt)
    · -- the escape takes the escape of the quote, which closes the field
      rw [List.filter_cons_of_pos (by simpa using hne), List.filter_cons_of_neg (by simp),
        List.length_cons]
      match value' with
      | [] => exact absurd rfl hhead
      | e :: value =>
        by_cases he : e = config.quote
        · subst he
          by_cases hrest : value.filter (· ≠ config.quote) = []
          · refine .inr ⟨value.length, ?_⟩
            have hvalue : value = List.replicate value.length config.quote := by
              refine List.eq_replicate_iff.mpr ⟨rfl, fun b hb => ?_⟩
              simpa using List.filter_eq_nil_iff.mp hrest b hb
            rw [← hvalue, escaped_quote]
            rfl
          · refine .inl (Nat.succ_lt_succ (List.length_pos_iff.mpr ?_))
            rwa [List.filter_cons_of_neg (by simp)]
        · refine .inl (Nat.succ_lt_succ ?_)
          rw [List.filter_cons_of_pos (by simpa using he)]
          exact Nat.succ_pos _
    · exact absurd (List.mem_singleton.mp hmem) hne.symm

end DelGeneratorConfig

/-! ## What is meant -/

variable {values : List (List Char)}

namespace DelGeneratorConfig

variable (config : DelGeneratorConfig)

/-- A configuration of the kind that is asked for. -/
structure Valid : Prop where
  delimiter : config.delimiter ≠ config.quote
  escape : config.escape ≠ config.delimiter
  null : ∀ c ∈ config.nullIndicator, c ≠ config.delimiter ∧ c ≠ config.quote ∧ c ≠ '\n'
  distinct : (config.columnMappings.map ColumnMapping.targetIndex).Nodup
  below : ∀ mapping ∈ config.columnMappings, mapping.targetIndex < config.columnMappings.length

def columns (row : List (List Char)) : List (List Char) :=
  if config.columnMappings = [] then row
  else
    (List.range config.columnMappings.length).map fun target =>
      match config.columnMappings.find? (·.targetIndex = target) with
      | some mapping => (config.mappedValue row mapping).1
      | none => []

def meaning (value : List Char) : Option (List Char) :=
  if config.isNull value then none else some (value.filter (· ≠ '\r'))

def Returns (value : List Char) : Prop :=
  config.isNull value ∨ config.quote ≠ '\n' ∧ (config.quote = '\r' → '\r' ∉ value) ∧
    (config.escape = config.quote ∨ config.Readable (value.filter (· ≠ '\r')))

/-- A row has columns, and its delimiters can be told from newlines. -/
def RowReturns (values : List (List Char)) : Prop :=
  values ≠ [] ∧ (config.delimiter ≠ '\n' ∨ values.length ≤ 1) ∧ ∀ value ∈ values, config.Returns value

/-- The condition for a file. -/
def Clear (rows : List (List (List Char))) : Prop :=
  (∀ row ∈ rows, config.RowReturns (config.columns row)) ∧
    (config.delimiter.utf8Size = 1 ∨ ∀ row ∈ rows, (config.columns row).length ≤ 1)

/-- Reading the file gives the mapped values, and the statistics have its length. -/
def MeansRows (rows : List (List (List Char))) : Prop :=
  ∃ generator, (DelFileGenerator.new config).writeRows rows = some generator ∧
    config.read generator.file = some (rows.map fun row => (config.columns row).map config.meaning) ∧
    generator.bytesWritten = byteLength generator.file

variable {config}

/-! ## Fields -/

variable {value : List Char}

theorem flatMap_formatChar (h : config.quote = '\r' → '\r' ∉ value) :
    value.flatMap config.formatChar = config.escaped (value.filter (· ≠ '\r')) := by
  induction value with
  | nil => rfl
  | cons c value ih =>
    have htail := ih fun hquote hmem => h hquote (List.mem_cons_of_mem _ hmem)
    rw [List.flatMap_cons, htail, formatChar]
    by_cases hc : c = '\r'
    · have hquote : c ≠ config.quote := fun heq => h (heq.symm.trans hc) (hc ▸ List.mem_cons_self ..)
      rw [if_neg hquote, if_pos hc, List.filter_cons_of_neg (by simpa using hc)]
      rfl
    · rw [List.filter_cons_of_pos (by simpa using hc)]
      by_cases hquote : c = config.quote
      · subst hquote
        rw [if_pos rfl, escaped_quote]
        rfl
      · rw [if_neg hquote, if_neg hc, escaped_cons hquote]
        rfl

theorem flatMap_formatChar_return (hquote : config.quote = '\r') (value : List Char) :
    value.flatMap config.formatChar = config.escaped value := by
  refine List.flatMap_congr fun c _ => ?_
  rw [formatChar]
  split_ifs with hc hreturn
  · rfl
  · exact absurd (hreturn.trans hquote.symm) hc
  · rfl

theorem formatValue_null (h : config.isNull value) :
    config.formatValue value = config.nullIndicator := if_pos h

theorem formatValue_quoted (h : ¬ config.isNull value)
    (hquote : config.quote = '\r' → '\r' ∉ value) (rest : List Char) :
    config.formatValue value ++ rest =
      config.quote :: (config.escaped (value.filter (· ≠ '\r')) ++ config.quote :: rest) := by
  rw [formatValue, if_neg h, flatMap_formatChar hquote]
  simp

theorem formatValue_return (h : ¬ config.isNull value)
    (hquote : config.quote = '\r') (rest : List Char) :
    config.formatValue value ++ rest =
      config.quote :: (config.escaped value ++ config.quote :: rest) := by
  rw [formatValue, if_neg h, flatMap_formatChar_return hquote]
  simp

theorem readField_bare (h : ¬ (text.head? = some config.quote ∧ text.head? ≠ some '\n'))
    {p : Option (List Char) × List Char} (hread : config.readField text = some p) : p.1 = none := by
  rw [readField, if_neg h] at hread
  split_ifs at hread
  cases hread
  rfl

theorem readField_null (hvalid : config.Valid) {sep : Char}
    (hsep : sep = config.delimiter ∨ sep = '\n') (rest : List Char) :
    config.readField (config.nullIndicator ++ sep :: rest) = some (none, sep :: rest) := by
  have hhead : ¬ ((config.nullIndicator ++ sep :: rest).head? = some config.quote ∧
      (config.nullIndicator ++ sep :: rest).head? ≠ some '\n') := by
    cases hnull : config.nullIndicator with
    | nil =>
      rintro ⟨hquote, hnewline⟩
      obtain hsep | hsep := hsep
      · exact hvalid.delimiter (hsep.symm.trans (Option.some.inj hquote))
      · exact hnewline (congrArg some hsep)
    | cons c null =>
      rintro ⟨hquote, -⟩
      exact (hvalid.null c (hnull ▸ List.mem_cons_self ..)).2.1 (Option.some.inj hquote)
  have hbare : ∀ c ∈ config.nullIndicator, config.bare c = true :=
    fun c hc => decide_eq_true ⟨(hvalid.null c hc).1, (hvalid.null c hc).2.2⟩
  have hstop : ¬ config.bare sep = true := by
    rw [bare, decide_eq_true_iff]
    exact fun h => hsep.elim h.1 h.2
  rw [readField, if_neg hhead, List.takeWhile_append_of_pos hbare,
    List.takeWhile_cons_of_neg hstop, List.append_nil, if_pos rfl,
    List.dropWhile_append_of_pos hbare, List.dropWhile_cons_of_neg hstop]

theorem readField_quoted (hnewline : config.quote ≠ '\n') (text : List Char) :
    config.readField (config.quote :: text) =
      (config.readQuoted text).map fun p => (some p.1, p.2) := by
  have hhead : (config.quote :: text).head? = some config.quote ∧
      (config.quote :: text).head? ≠ some '\n' := ⟨rfl, fun h => hnewline (Option.some.inj h)⟩
  rw [readField, if_pos hhead]
  rfl

/-- **A value that returns is read as what it means.** -/
theorem readField_formatValue (hvalid : config.Valid) (h : config.Returns value)
    {sep : Char} (hsep : sep = config.delimiter ∨ sep = '\n') (rest : List Char) :
    config.readField (config.formatValue value ++ sep :: rest) =
      some (config.meaning value, sep :: rest) := by
  by_cases hnull : config.isNull value
  · rw [formatValue_null hnull, meaning, if_pos hnull]
    exact readField_null hvalid hsep rest
  · obtain ⟨hnewline, hreturn, hreadable⟩ := h.resolve_left hnull
    rw [formatValue_quoted hnull hreturn, readField_quoted hnewline, meaning, if_neg hnull,
      readQuoted_escaped _ (fun _ hhead => ?_) hreadable]
    · rfl
    · have heq : sep = config.quote := Option.some.inj hhead
      obtain hsep | hsep := hsep
      · exact hvalid.delimiter (hsep.symm.trans heq)
      · exact hnewline (heq.symm.trans hsep)

/-- **Any other value is not**, if it has no carriage return that is the quote. -/
theorem readField_ne (h : ¬ config.Returns value)
    (hreturn : config.quote = '\r' → '\r' ∉ value)
    {p : Option (List Char) × List Char}
    (hread : config.readField (config.formatValue value ++ rest) = some p) :
    p.1 ≠ config.meaning value := by
  have hnull : ¬ config.isNull value := fun hnull => h (.inl hnull)
  rw [formatValue_quoted hnull hreturn] at hread
  rw [meaning, if_neg hnull]
  by_cases hnewline : config.quote = '\n'
  · have hbare := readField_bare (by simp [hnewline]) hread
    rw [hbare]
    exact nofun
  · have hescape : config.escape ≠ config.quote := fun heq =>
      h (.inr ⟨hnewline, hreturn, .inl heq⟩)
    have hreadable : ¬ config.Readable (value.filter (· ≠ '\r')) := fun hreadable =>
      h (.inr ⟨hnewline, hreturn, .inr hreadable⟩)
    rw [readField_quoted hnewline] at hread
    obtain ⟨p', hp', rfl⟩ := Option.map_eq_some_iff.mp hread
    exact fun heq => readQuoted_ne hescape _ hreadable p' hp' (Option.some.inj heq)

/-- What is left of a value with carriage returns, quoted by them, that is read as what it means: it is
closed before its last carriage returns, and the escape after them is taken for the end of the row. -/
def Leftover (config : DelGeneratorConfig) (text rest : List Char) : Prop :=
  config.quote = '\r' ∧ config.escape ≠ config.quote ∧
    ∃ k, text = config.quote ::
      (config.escaped (List.replicate k config.quote) ++ config.quote :: rest)

theorem readField_leftover (hvalid : config.Valid) {value rest rest' : List Char} {sep : Char}
    (h : ¬ config.Returns value)
    (hread : config.readField (config.formatValue value ++ rest) =
      some (config.meaning value, sep :: rest'))
    (hsep : sep = '\n' ∨ sep = config.delimiter) :
    sep = config.escape ∧ config.Leftover rest' rest := by
  have hreturn : ¬ (config.quote = '\r' → '\r' ∉ value) := fun hreturn =>
    readField_ne h hreturn hread rfl
  obtain ⟨hquote, hmem⟩ := Classical.not_imp.mp hreturn
  rw [not_not] at hmem
  have hnewline : config.quote ≠ '\n' := hquote ▸ by decide
  have hnull : ¬ config.isNull value := fun hnull => h (.inl hnull)
  rw [formatValue_return hnull hquote, readField_quoted hnewline, meaning, if_neg hnull] at hread
  obtain ⟨p, hp, heq⟩ := Option.map_eq_some_iff.mp hread
  obtain ⟨hvalue, hrest⟩ := Prod.mk.inj heq
  have hvalue : p.1 = value.filter (· ≠ config.quote) := hquote ▸ Option.some.inj hvalue
  rw [← hquote] at hmem
  have hnone : config.quote ∉ p.1 := by
    rw [hvalue]
    simp
  have hne : config.escape ≠ config.quote := fun heq => hnone (quote_mem_readQuoted heq hmem hp)
  have hhead : p.2.head? ≠ some config.quote := by
    rw [hrest]
    intro heq
    have hsame : sep = config.quote := Option.some.inj heq
    obtain hsep | hsep := hsep
    · exact hnewline (hsame.symm.trans hsep)
    · exact hvalid.delimiter (hsep.symm.trans hsame)
  obtain hlt | ⟨k, hk⟩ := readQuoted_early hne value p hmem hp hnone hhead
  · rw [hvalue] at hlt
    exact absurd hlt (Nat.lt_irrefl _)
  · rw [hrest] at hk
    obtain ⟨hescape, htext⟩ := List.cons.inj hk
    exact ⟨hescape, hquote, hne, k, htext⟩

/-! ## Rows -/

def rowText (config : DelGeneratorConfig) : List (List Char) → List Char
  | [] => []
  | [value] => config.formatValue value
  | value :: values => config.formatValue value ++ config.delimiter :: rowText config values

variable {fuel : Nat}

theorem readRow_head {p : List (Option (List Char)) × List Char}
    (h : config.readRow fuel text = some p) :
    ∃ q, config.readField text = some q ∧ ∃ fields, p.1 = q.1 :: fields := by
  cases fuel with
  | zero => exact nomatch h
  | succ fuel =>
    rw [readRow] at h
    split at h
    next field c rest heq =>
      refine ⟨_, heq, ?_⟩
      split_ifs at h
      · cases h
        exact ⟨[], rfl⟩
      · obtain ⟨p', -, rfl⟩ := Option.map_eq_some_iff.mp h
        exact ⟨p'.1, rfl⟩
    next => exact nomatch h

theorem length_rowText (config : DelGeneratorConfig) (values : List (List Char)) :
    values.length ≤ (config.rowText values).length + 1 := by
  induction values with
  | nil => exact Nat.zero_le _
  | cons value values ih =>
    cases values with
    | nil => exact Nat.le_add_left ..
    | cons next values =>
      rw [rowText]
      · simp only [List.length_append, List.length_cons] at ih ⊢
        omega
      · exact nofun

theorem readRow_rowText (hvalid : config.Valid)
    (hfuel : values.length ≤ fuel) (h : config.RowReturns values) (rest : List Char) :
    config.readRow fuel (config.rowText values ++ '\n' :: rest) =
      some (values.map config.meaning, rest) := by
  induction values generalizing fuel with
  | nil => exact absurd rfl h.1
  | cons value values ih =>
    obtain ⟨-, hdelimiter, hvalues⟩ := h
    obtain ⟨hvalue, hrest⟩ := List.forall_mem_cons.mp hvalues
    obtain ⟨fuel, rfl⟩ := Nat.exists_eq_add_one_of_ne_zero (Nat.ne_zero_of_lt hfuel)
    cases values with
    | nil =>
      rw [rowText, readRow, readField_formatValue hvalid hvalue (.inr rfl)]
      dsimp only
      rw [if_pos rfl]
      rfl
    | cons next values =>
      have hdelimiter : config.delimiter ≠ '\n' := hdelimiter.resolve_right (by simp)
      have htail := ih (Nat.le_of_succ_le_succ hfuel)
        ⟨List.cons_ne_nil _ _, .inl hdelimiter, hrest⟩
      rw [rowText, List.append_assoc, List.cons_append, readRow,
        readField_formatValue hvalid hvalue (.inl rfl)]
      · dsimp only
        rw [if_neg hdelimiter, if_pos rfl, htail]
        rfl
      · exact nofun

/-- **Any other row is not read as what it means**, or it leaves carriage returns behind. -/
theorem readRow_leftover (hvalid : config.Valid)
    (h : ¬ config.RowReturns values)
    {p : List (Option (List Char)) × List Char}
    (hread : config.readRow fuel (config.rowText values ++ '\n' :: rest) = some p)
    (hmeans : p.1 = values.map config.meaning) : config.Leftover p.2 ('\n' :: rest) := by
  induction values generalizing fuel p with
  | nil =>
    obtain ⟨q, -, fields, hfields⟩ := readRow_head hread
    rw [hfields] at hmeans
    exact absurd hmeans (List.cons_ne_nil _ _)
  | cons value values ih =>
    cases fuel with
    | zero => exact nomatch hread
    | succ fuel =>
      by_cases hvalue : config.Returns value
      · cases values with
        | nil =>
          refine absurd ⟨List.cons_ne_nil _ _, .inr (by simp), ?_⟩ h
          exact List.forall_mem_singleton.mpr hvalue
        | cons next values =>
          rw [rowText, List.append_assoc, List.cons_append, readRow,
            readField_formatValue hvalid hvalue (.inl rfl)] at hread
          · dsimp only at hread
            split_ifs at hread with hdelimiter
            · cases hread
              simp at hmeans
            · obtain ⟨p', hp', rfl⟩ := Option.map_eq_some_iff.mp hread
              have htail : ¬ config.RowReturns (next :: values) := fun htail =>
                h ⟨List.cons_ne_nil _ _, .inl hdelimiter,
                  List.forall_mem_cons.mpr ⟨hvalue, htail.2.2⟩⟩
              have hleft := ih htail hp' (List.cons.inj hmeans).2
              exact hleft
          · exact nofun
      · -- the field ends early, at the escape, which can only be a newline
        obtain ⟨tail, htail, hlast⟩ : ∃ tail, config.rowText (value :: values) ++ '\n' :: rest =
            config.formatValue value ++ tail ∧ (values = [] → tail = '\n' :: rest) := by
          cases values with
          | nil => exact ⟨_, rfl, fun _ => rfl⟩
          | cons next values =>
            rw [rowText, List.append_assoc]
            · exact ⟨_, rfl, nofun⟩
            · exact nofun
        rw [htail, readRow] at hread
        split at hread
        next field c rest' hfield =>
          split_ifs at hread with hnewline hdelimiter
          · cases hread
            obtain ⟨hmeaning, hvalues⟩ := List.cons.inj hmeans
            rw [hmeaning] at hfield
            obtain ⟨-, hleft⟩ := readField_leftover hvalid hvalue hfield (.inl hnewline)
            rwa [hlast (List.map_eq_nil_iff.mp hvalues.symm)] at hleft
          · obtain ⟨p', -, rfl⟩ := Option.map_eq_some_iff.mp hread
            rw [(List.cons.inj hmeans).1] at hfield
            obtain ⟨hescape, -⟩ := readField_leftover hvalid hvalue hfield (.inr hdelimiter)
            exact absurd (hescape.symm.trans hdelimiter) hvalid.escape
        next => exact nomatch hread

/-! ## Files -/

def fileText (config : DelGeneratorConfig) (rows : List (List (List Char))) : List Char :=
  rows.flatMap fun values => config.rowText values ++ ['\n']

theorem length_fileText (rows : List (List (List Char))) :
    rows.length ≤ (config.fileText rows).length := by
  induction rows with
  | nil => exact Nat.zero_le _
  | cons values rows ih =>
    rw [fileText, List.flatMap_cons, List.length_append, List.length_append, List.length_cons]
    have htail : rows.length ≤ (rows.flatMap fun values => config.rowText values ++ ['\n']).length := ih
    simp only [List.length_singleton]
    omega

theorem readRows_succ (htext : text ≠ []) (fuel : Nat) :
    config.readRows (fuel + 1) text =
      match config.readRow (text.length + 1) text with
      | some (row, rest) => (config.readRows fuel rest).map (row :: ·)
      | none => none := by
  obtain ⟨c, text, rfl⟩ := List.exists_cons_of_ne_nil htext
  rfl

theorem fileText_cons (values : List (List Char)) (rows : List (List (List Char))) :
    config.fileText (values :: rows) = config.rowText values ++ '\n' :: config.fileText rows := by
  rw [fileText, List.flatMap_cons, List.append_assoc]
  rfl

variable {rows : List (List (List Char))}

theorem readRows_fileText (hvalid : config.Valid) (hfuel : rows.length ≤ fuel)
    (h : ∀ values ∈ rows, config.RowReturns values) :
    config.readRows fuel (config.fileText rows) = some (rows.map (·.map config.meaning)) := by
  induction rows generalizing fuel with
  | nil => cases fuel <;> rfl
  | cons values rows ih =>
    obtain ⟨hvalues, hrest⟩ := List.forall_mem_cons.mp h
    obtain ⟨fuel, rfl⟩ := Nat.exists_eq_add_one_of_ne_zero (Nat.ne_zero_of_lt hfuel)
    rw [fileText_cons, readRows_succ (by simp), readRow_rowText hvalid ?_ hvalues]
    · dsimp only
      rw [ih (Nat.le_of_succ_le_succ hfuel) hrest]
      rfl
    · have hlength := length_rowText config values
      rw [List.length_append]
      omega

theorem readRows_of_leftover {text rest : List Char}
    {result : List (List (Option (List Char)))} (h : config.Leftover text ('\n' :: rest))
    (hread : config.readRows fuel text = some result) :
    ∃ k fuel' others, result = [some (List.replicate k config.quote)] :: others ∧
      config.readRows fuel' rest = some others := by
  obtain ⟨hquote, hne, k, rfl⟩ := h
  have hnewline : config.quote ≠ '\n' := hquote ▸ by decide
  cases fuel with
  | zero => exact nomatch hread
  | succ fuel =>
    have hplain : config.escape ∉ List.replicate k config.quote :=
      fun hmem => hne (List.eq_of_mem_replicate hmem)
    rw [readRows_succ (List.cons_ne_nil _ _), readRow, readField_quoted hnewline,
      readQuoted_escaped _ (fun heq => absurd heq hne) (.inr (readable_of_notMem hplain)),
      Option.map_some] at hread
    dsimp only at hread
    rw [if_pos rfl] at hread
    obtain ⟨others, hothers, rfl⟩ := Option.map_eq_some_iff.mp hread
    exact ⟨k, fuel, others, rfl, hothers⟩

theorem eq_replicate_of_meaning (hquote : config.quote = '\r') {k : Nat}
    (h : config.meaning value = some (List.replicate k config.quote)) :
    ¬ config.isNull value ∧ value = List.replicate value.length config.quote := by
  rw [meaning] at h
  split_ifs at h with hnull
  refine ⟨hnull, ?_⟩
  have hfilter : value.filter (· ≠ config.quote) = List.replicate k config.quote := by
    rw [hquote] at h ⊢
    exact Option.some.inj h
  have hnone : config.quote ∉ List.replicate k config.quote := by
    rw [← hfilter]
    simp
  have hzero : value.filter (· ≠ config.quote) = [] := by
    rw [hfilter, List.replicate_eq_nil_iff]
    by_contra hpos
    exact hnone (List.mem_replicate.mpr ⟨hpos, rfl⟩)
  refine List.eq_replicate_iff.mpr ⟨rfl, fun b hb => ?_⟩
  simpa using List.filter_eq_nil_iff.mp hzero b hb

/-- **What is left of a row cannot be made up for**: no row means it but one that leaves some behind
itself. -/
theorem readRows_leftover (h : config.Leftover text ('\n' :: config.fileText rows)) :
    config.readRows fuel text ≠ some (rows.map (·.map config.meaning)) := by
  induction rows generalizing fuel text with
  | nil =>
    intro hread
    obtain ⟨k, fuel, others, heq, -⟩ := readRows_of_leftover h hread
    exact List.cons_ne_nil _ _ heq.symm
  | cons values rows ih =>
    intro hread
    obtain ⟨k, fuel, others, heq, hothers⟩ := readRows_of_leftover h hread
    obtain ⟨hvalues, htail⟩ := List.cons.inj heq
    obtain ⟨hquote, hne, -⟩ := h
    obtain ⟨value, rfl, hvalue⟩ := List.map_eq_singleton_iff.mp hvalues
    obtain ⟨hnull, hreplicate⟩ := eq_replicate_of_meaning hquote hvalue
    refine ih ⟨hquote, hne, value.length, ?_⟩ (hothers.trans (congrArg some htail.symm))
    rw [← hreplicate, fileText_cons, rowText, formatValue_return hnull hquote]

theorem readRows_ne (hvalid : config.Valid) (h : ¬ ∀ values ∈ rows, config.RowReturns values) :
    config.readRows fuel (config.fileText rows) ≠ some (rows.map (·.map config.meaning)) := by
  induction rows generalizing fuel with
  | nil => exact absurd nofun h
  | cons values rows ih =>
    intro hread
    rw [fileText_cons] at hread
    cases fuel with
    | zero =>
      obtain ⟨c, text, htext⟩ := List.exists_cons_of_ne_nil
        (show config.rowText values ++ '\n' :: config.fileText rows ≠ [] by simp)
      rw [htext] at hread
      exact nomatch hread
    | succ fuel =>
      rw [readRows_succ (by simp)] at hread
      split at hread
      next row rest hrow =>
        obtain ⟨others, hothers, heq⟩ := Option.map_eq_some_iff.mp hread
        obtain ⟨hhead, htail⟩ := List.cons.inj heq
        rw [htail] at hothers
        by_cases hvalues : config.RowReturns values
        · rw [readRow_rowText hvalid ?_ hvalues] at hrow
          · cases hrow
            have hrest : ¬ ∀ values ∈ rows, config.RowReturns values := fun hrest =>
              h (List.forall_mem_cons.mpr ⟨hvalues, hrest⟩)
            exact ih hrest hothers
          · have hlength := length_rowText config values
            rw [List.length_append]
            omega
        · exact readRows_leftover (readRow_leftover hvalid hvalues hrow hhead) hothers
      next => exact nomatch hread

end DelGeneratorConfig

/-! ## Writing -/

theorem byteLength_append (text text' : List Char) :
    byteLength (text ++ text') = byteLength text + byteLength text' := by
  rw [byteLength, List.map_append, List.sum_append]
  rfl

theorem byteLength_cons (c : Char) (text : List Char) :
    byteLength (c :: text) = c.utf8Size + byteLength text := by
  rw [byteLength, List.map_cons, List.sum_cons]
  rfl

namespace DelFileGenerator

variable {generator : DelFileGenerator}

/-- What writing the values of a row leaves alone. -/
structure Frame (generator generator' : DelFileGenerator) : Prop where
  config : generator'.config = generator.config
  file : generator'.file = generator.file
  bytesWritten : generator'.bytesWritten = generator.bytesWritten

theorem mapColumn_spec (generator : DelFileGenerator) (row : List (List Char)) {mapping : ColumnMapping}
    (h : mapping.targetIndex < values.length) :
    ∃ generator', mapColumn row (values, generator) mapping =
        some (values.set mapping.targetIndex (generator.config.mappedValue row mapping).1,
          generator') ∧
      Frame generator generator' := by
  refine ⟨_, if_pos h, ?_⟩
  dsimp only
  split_ifs <;> exact ⟨rfl, rfl, rfl⟩

theorem mapRow_spec (row : List (List Char)) {mappings : List ColumnMapping} (generator : DelFileGenerator)
    (hdistinct : (mappings.map ColumnMapping.targetIndex).Nodup)
    (hbelow : ∀ mapping ∈ mappings, mapping.targetIndex < values.length) :
    ∃ values' generator', mappings.foldlM (mapColumn row) (values, generator) =
        some (values', generator') ∧
      Frame generator generator' ∧ ∀ target, values'[target]? =
        match mappings.find? (·.targetIndex = target) with
        | some mapping => some (generator.config.mappedValue row mapping).1
        | none => values[target]? := by
  induction mappings generalizing values generator with
  | nil => exact ⟨values, generator, rfl, ⟨rfl, rfl, rfl⟩, fun _ => rfl⟩
  | cons mapping mappings ih =>
    rw [List.map_cons, List.nodup_cons] at hdistinct
    obtain ⟨hmapping, hrest⟩ := List.forall_mem_cons.mp hbelow
    obtain ⟨next, hnext, hstep⟩ := mapColumn_spec generator row hmapping
    have hlength : ∀ m ∈ mappings, m.targetIndex <
        (values.set mapping.targetIndex (generator.config.mappedValue row mapping).1).length := by
      intro m hm
      rw [List.length_set]
      exact hrest m hm
    obtain ⟨values', generator', hfold, hframe, hget⟩ := ih next hdistinct.2 hlength
    refine ⟨values', generator', ?_, ⟨hframe.config.trans hstep.config, hframe.file.trans hstep.file,
      hframe.bytesWritten.trans hstep.bytesWritten⟩, fun target => (hget target).trans ?_⟩
    · rw [List.foldlM_cons, hnext]
      exact hfold
    rw [hstep.config]
    by_cases htarget : mapping.targetIndex = target
    · have hnone : mappings.find? (·.targetIndex = target) = none := by
        rw [List.find?_eq_none]
        intro m hm heq
        exact hdistinct.1 (htarget.trans (of_decide_eq_true heq).symm ▸ List.mem_map_of_mem hm)
      have hfirst : (mapping :: mappings).find? (·.targetIndex = target) = some mapping :=
        List.find?_cons_of_pos (decide_eq_true htarget)
      rw [hnone, hfirst, ← htarget]
      exact List.getElem?_set_self hmapping
    · have hother : (mapping :: mappings).find? (·.targetIndex = target) =
          mappings.find? (·.targetIndex = target) :=
        List.find?_cons_of_neg (by simpa using htarget)
      rw [hother]
      cases mappings.find? (·.targetIndex = target) with
      | some m => rfl
      | none => exact List.getElem?_set_ne htarget

theorem mapRow_columns (generator : DelFileGenerator) (hvalid : generator.config.Valid)
    (row : List (List Char)) :
    ∃ generator', generator.mapRow row = some (generator.config.columns row, generator') ∧
      Frame generator generator' := by
  rw [mapRow, DelGeneratorConfig.columns]
  split_ifs with hmappings
  · exact ⟨generator, rfl, rfl, rfl, rfl⟩
  · obtain ⟨values, generator', hfold, hframe, hget⟩ := mapRow_spec row generator hvalid.distinct
      (fun mapping hmem => Nat.lt_of_lt_of_eq (hvalid.below mapping hmem)
        (List.length_replicate (a := ([] : List Char))).symm)
    refine ⟨generator', hfold.trans (congrArg (fun values => some (values, generator')) ?_), hframe⟩
    refine List.ext_getElem? fun target => (hget target).trans ?_
    rw [List.getElem?_map]
    by_cases htarget : target < generator.config.columnMappings.length
    · rw [List.getElem?_range htarget, Option.map_some]
      cases generator.config.columnMappings.find? (·.targetIndex = target) with
      | some mapping => rfl
      | none => exact List.getElem?_replicate_of_lt htarget
    · have hnone : generator.config.columnMappings.find? (·.targetIndex = target) = none := by
        rw [List.find?_eq_none]
        intro mapping hmem heq
        exact htarget (of_decide_eq_true heq ▸ hvalid.below mapping hmem)
      rw [hnone, List.getElem?_eq_none (by simpa using htarget),
        List.getElem?_eq_none (by simpa using htarget)]
      rfl

theorem writeValues_spec (values : List (List Char)) (generator : DelFileGenerator) :
    (writeValues values generator).config = generator.config ∧
      (writeValues values generator).file = generator.file ++ generator.config.rowText values ∧
      (writeValues values generator).bytesWritten +
          (values.length - 1) * generator.config.delimiter.utf8Size =
        generator.bytesWritten + byteLength (generator.config.rowText values) +
          (values.length - 1) := by
  induction values generalizing generator with
  | nil =>
    exact ⟨rfl, (List.append_nil _).symm,
      by simp [writeValues, DelGeneratorConfig.rowText, byteLength]⟩
  | cons value values ih =>
    cases values with
    | nil => exact ⟨rfl, rfl, by simp [writeValues, writeValue, DelGeneratorConfig.rowText]⟩
    | cons next values =>
      obtain ⟨hconfig, hfile, hbytes⟩ := ih (generator.writeValue value).writeDelimiter
      have hrow : generator.config.rowText (value :: next :: values) =
          generator.config.formatValue value ++ generator.config.delimiter ::
            generator.config.rowText (next :: values) := rfl
      rw [writeValues]
      · refine ⟨hconfig, hfile.trans ?_, ?_⟩
        · rw [hrow]
          simp [writeValue, writeDelimiter]
        · rw [hrow, byteLength_append, byteLength_cons]
          simp only [List.length_cons, Nat.add_sub_cancel, writeValue, writeDelimiter] at hbytes ⊢
          rw [Nat.succ_mul]
          omega
      · exact nofun

def delimiters (rows : List (List (List Char))) : Nat := (rows.map fun values => values.length - 1).sum

theorem writeRow_spec (hvalid : generator.config.Valid) (row : List (List Char)) :
    ∃ generator', generator.writeRow row = some generator' ∧
      generator'.config = generator.config ∧
      generator'.file =
        generator.file ++ (generator.config.rowText (generator.config.columns row) ++ ['\n']) ∧
      generator'.bytesWritten +
          ((generator.config.columns row).length - 1) * generator.config.delimiter.utf8Size =
        generator.bytesWritten +
          byteLength (generator.config.rowText (generator.config.columns row) ++ ['\n']) +
            ((generator.config.columns row).length - 1) := by
  obtain ⟨mapped, hmap, hframe⟩ :=
    mapRow_columns { generator with rowsWritten := generator.rowsWritten + 1 } hvalid row
  obtain ⟨hconfig, hfile, hbytes⟩ := writeValues_spec (generator.config.columns row) mapped
  refine ⟨_, congrArg (Option.map _) hmap, hconfig.trans hframe.config, ?_, ?_⟩
  · show (writeValues (generator.config.columns row) mapped).file ++ ['\n'] = _
    rw [hfile, hframe.config, hframe.file, List.append_assoc]
  · rw [hframe.config, hframe.bytesWritten] at hbytes
    show (writeValues (generator.config.columns row) mapped).bytesWritten + 1 + _ = _
    rw [byteLength_append]
    have hnewline : byteLength ['\n'] = 1 := rfl
    rw [hnewline]
    dsimp only at hbytes
    omega

theorem writeRows_spec (generator : DelFileGenerator) (hvalid : generator.config.Valid)
    (rows : List (List (List Char))) :
    ∃ generator', generator.writeRows rows = some generator' ∧
      generator'.file =
        generator.file ++ generator.config.fileText (rows.map generator.config.columns) ∧
      generator'.bytesWritten +
          delimiters (rows.map generator.config.columns) * generator.config.delimiter.utf8Size =
        generator.bytesWritten +
          byteLength (generator.config.fileText (rows.map generator.config.columns)) +
            delimiters (rows.map generator.config.columns) := by
  induction rows generalizing generator with
  | nil =>
    exact ⟨generator, rfl, (List.append_nil _).symm,
      by simp [delimiters, DelGeneratorConfig.fileText, byteLength]⟩
  | cons row rows ih =>
    obtain ⟨first, hfirst, hconfig, hfile, hbytes⟩ := writeRow_spec hvalid row
    obtain ⟨last, hlast, hfile', hbytes'⟩ := ih first (hconfig ▸ hvalid)
    rw [hconfig] at hfile' hbytes'
    have htext : generator.config.fileText ((row :: rows).map generator.config.columns) =
        (generator.config.rowText (generator.config.columns row) ++ ['\n']) ++
          generator.config.fileText (rows.map generator.config.columns) := rfl
    have hcount : delimiters ((row :: rows).map generator.config.columns) =
        ((generator.config.columns row).length - 1) +
          delimiters (rows.map generator.config.columns) := rfl
    refine ⟨last, ?_, ?_, ?_⟩
    · rw [writeRows, List.foldlM_cons, hfirst]
      exact hlast
    · rw [hfile', hfile, htext, List.append_assoc]
    · rw [htext, hcount, byteLength_append, Nat.add_mul]
      omega

theorem delimiters_eq_zero_iff (rows : List (List (List Char))) :
    delimiters rows = 0 ↔ ∀ values ∈ rows, values.length ≤ 1 := by
  rw [delimiters, List.sum_eq_zero_iff, List.forall_mem_map]
  refine forall₂_congr fun values _ => ?_
  omega

end DelFileGenerator

namespace DelGeneratorConfig

variable {config : DelGeneratorConfig}

open DelFileGenerator

theorem meansRows_iff (hvalid : config.Valid) (rows : List (List (List Char))) :
    config.MeansRows rows ↔
      config.read (config.fileText (rows.map config.columns)) =
          some ((rows.map config.columns).map (·.map config.meaning)) ∧
        (config.delimiter.utf8Size = 1 ∨ ∀ row ∈ rows, (config.columns row).length ≤ 1) := by
  obtain ⟨generator, hwrite, hfile, hbytes⟩ :=
    writeRows_spec (.new config) hvalid rows
  have hfile : generator.file = config.fileText (rows.map config.columns) := hfile
  have hbytes : generator.bytesWritten +
      delimiters (rows.map config.columns) * config.delimiter.utf8Size =
      0 + byteLength (config.fileText (rows.map config.columns)) +
        delimiters (rows.map config.columns) := hbytes
  have hcount : generator.bytesWritten = byteLength generator.file ↔
      config.delimiter.utf8Size = 1 ∨ ∀ row ∈ rows, (config.columns row).length ≤ 1 := by
    have hnone := delimiters_eq_zero_iff (rows.map config.columns)
    rw [List.forall_mem_map] at hnone
    rw [← hnone, hfile]
    constructor
    · intro heq
      refine or_iff_not_imp_right.mpr fun hsome => ?_
      have hmul : delimiters (rows.map config.columns) * config.delimiter.utf8Size =
          delimiters (rows.map config.columns) * 1 := by omega
      exact Nat.eq_of_mul_eq_mul_left (Nat.pos_of_ne_zero hsome) hmul
    · rintro (hsize | hzero)
      · rw [hsize] at hbytes
        omega
      · rw [hzero] at hbytes
        omega
  rw [← hcount, MeansRows, List.map_map]
  constructor
  · rintro ⟨generator', hwrite', hread, hlength⟩
    rw [hwrite] at hwrite'
    cases hwrite'
    exact ⟨hfile ▸ hread, hlength⟩
  · rintro ⟨hread, hlength⟩
    exact ⟨generator, hwrite, hfile ▸ hread, hlength⟩

/-- **A file means its rows** exactly when it is clear. -/
theorem means_rows_iff (config : DelGeneratorConfig) (rows : List (List (List Char)))
    (hvalid : config.Valid) : config.MeansRows rows ↔ config.Clear rows := by
  rw [meansRows_iff hvalid, Clear, ← List.forall_mem_map]
  refine and_congr_left fun _ => ⟨fun hread => ?_, fun hrows => ?_⟩
  · by_contra hrows
    exact readRows_ne hvalid hrows hread
  · exact readRows_fileText hvalid (length_fileText _) hrows

/-- A doubled quote, a delimiter in a value and an empty value. -/
theorem doubled_quote_means_rows :
    MeansRows ⟨'|', ['N'], '"', '"', []⟩ [[['a', '"', '|'], []], [['b']]] := by
  have hvalid : Valid ⟨'|', ['N'], '"', '"', []⟩ :=
    ⟨by decide, by decide, List.forall_mem_singleton.mpr (by decide), List.nodup_nil, nofun⟩
  refine (means_rows_iff _ _ hvalid).mpr ⟨fun row hrow => ⟨?_, .inl (by decide), ?_⟩, .inl (by decide)⟩
  · rw [columns, if_pos rfl]
    exact fun hnil => absurd (hnil ▸ hrow) (by decide)
  · rw [columns, if_pos rfl]
    intro value _
    by_cases hnull : isNull ⟨'|', ['N'], '"', '"', []⟩ value
    · exact .inl hnull
    · exact .inr ⟨by decide, fun hquote => absurd hquote (by decide), .inl rfl⟩

/-- A value that ends with the escape character takes the closing quote with it. -/
theorem trailing_escape_misread :
    ¬ ∀ (config : DelGeneratorConfig) (rows : List (List (List Char))), config.Valid →
      config.MeansRows rows := by
  intro h
  have hvalid : Valid ⟨'|', ['N'], '"', '\\', []⟩ :=
    ⟨by decide, by decide, List.forall_mem_singleton.mpr (by decide), List.nodup_nil, nofun⟩
  have hread := ((meansRows_iff hvalid _).mp (h _ [[['a', '\\']]] hvalid)).1
  exact absurd hread (by decide)

end DelGeneratorConfig

end Arcxa.Loader
