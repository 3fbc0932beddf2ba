import Arcxa.Governance.Rdf

/-!
# SQL validation

The validators of identifiers, types and foreign-key actions, which return the text that they accept. What
they accept is inert (`accepted_inert`): it has no character that ends a statement or opens a quote
or a comment. An action is compared in upper case and with its white space collapsed, both as Unicode has
them, but returned as it came.
-/

namespace Arcxa.Security

open Arcxa.Governance (Unicode trimmed)
open Arcxa.Workflow (isWhitespace)

inductive DatabaseType where
  | PostgreSQL
  | MySQL
  | DB2
  | Snowflake
  | Oracle
  deriving DecidableEq

/-! ## Identifiers -/

def isStart (c : Char) : Bool := c.isAlpha || c = '_'

def isWord (c : Char) : Bool := c.isAlphanum || c = '_'

/-- `^[a-zA-Z_][a-zA-Z0-9_]{0,127}$`. -/
def matchesIdentifier : List Char → Bool
  | [] => false
  | c :: cs => isStart c && cs.all isWord && decide (cs.length ≤ 127)

def reservedKeywords : List String :=
  ["SELECT", "INSERT", "UPDATE", "DELETE", "DROP", "CREATE", "ALTER", "TABLE", "DATABASE", "INDEX",
    "VIEW", "PROCEDURE", "FUNCTION", "TRIGGER", "FROM", "WHERE", "JOIN", "UNION", "AND", "OR", "NOT",
    "NULL", "TRUE", "FALSE"]

def isReservedKeyword (word : String) : Bool := reservedKeywords.contains word

variable (u : Unicode)

def toUppercase (s : String) : String := String.ofList (s.toList.flatMap u.toUppercase)

def validateIdentifier (identifier : String) : Except String String :=
  if identifier = "" then .error "SQL identifier cannot be empty"
  else if 128 < identifier.utf8ByteSize then
    .error ("SQL identifier too long (max 128 chars): " ++ identifier)
  else if matchesIdentifier identifier.toList = false then
    .error ("Invalid SQL identifier '" ++ identifier ++
      "': must contain only alphanumeric and underscore")
  else if isReservedKeyword (toUppercase u identifier) then
    .error ("SQL identifier '" ++ identifier ++ "' is a reserved keyword")
  else .ok identifier

def validateQualifiedIdentifier (identifier : String) : Except String String := do
  let parts := (identifier.toList.splitOn '.').map String.ofList
  if parts = [] then .error "Qualified identifier cannot be empty"
  else if 3 < parts.length then
    .error ("Too many parts in qualified identifier (max 3): " ++ identifier)
  else do
    parts.forM fun part => (validateIdentifier u part).map fun _ => ()
    .ok identifier

def quoteIdentifier (identifier : String) (dbType : DatabaseType) : Except String String :=
  (validateIdentifier u identifier).map fun validated =>
    match dbType with
    | .PostgreSQL => "\"" ++ validated ++ "\""
    | .DB2 => "\"" ++ validated ++ "\""
    | .MySQL => "`" ++ validated ++ "`"
    | .Snowflake => toUppercase u validated
    | .Oracle => "\"" ++ validated ++ "\""

/-! ## Types -/

def isTypeChar (c : Char) : Bool := c.isUpper || c.isDigit || c = ' '

/-- `(\([0-9]+(,[0-9]+)?\))?$`. -/
def matchesParameters : List Char → Bool
  | [] => true
  | '(' :: cs =>
    !(cs.takeWhile Char.isDigit).isEmpty &&
      match cs.dropWhile Char.isDigit with
      | [')'] => true
      | ',' :: ds => !(ds.takeWhile Char.isDigit).isEmpty && ds.dropWhile Char.isDigit == [')']
      | _ => false
  | _ => false

/-- `^[A-Z][A-Z0-9 ]*(\([0-9]+(,[0-9]+)?\))?$`. -/
def matchesType : List Char → Bool
  | [] => false
  | c :: cs => c.isUpper && matchesParameters (cs.dropWhile isTypeChar)

def dangerousKeywords : List String :=
  ["DROP", "DELETE", "INSERT", "UPDATE", "UNION", "SELECT", "FROM", "WHERE", "EXEC", "EXECUTE", "ALTER"]

/-- `contains`. -/
def containsText (text pattern : String) : Bool := decide (pattern.toList <:+: text.toList)

def validateSqlType (sqlType : String) : Except String String :=
  if sqlType = "" then .error "SQL type cannot be empty"
  else if 100 < sqlType.utf8ByteSize then
    .error ("SQL type too long (max 100 chars): " ++ sqlType)
  else if containsText sqlType ";" then .error ("SQL type contains semicolon: " ++ sqlType)
  else if containsText sqlType "--" || containsText sqlType "/*" || containsText sqlType "*/" then
    .error ("SQL type contains comment syntax: " ++ sqlType)
  else if matchesType sqlType.toList = false then
    .error ("Invalid SQL type format '" ++ sqlType ++
      "': must be uppercase type with optional numeric parameters")
  else
    match dangerousKeywords.find? fun keyword => containsText (toUppercase u sqlType) keyword with
    | some keyword =>
      .error ("SQL type contains dangerous keyword '" ++ keyword ++ "': " ++ sqlType)
    | none => .ok sqlType

/-! ## Foreign-key actions -/

def validActions : List String := ["CASCADE", "SET NULL", "SET DEFAULT", "RESTRICT", "NO ACTION"]

def splitWhitespace (cs : List Char) : List (List Char) :=
  (cs.splitOnP isWhitespace).filter (· ≠ [])

def normalized (action : String) : String :=
  String.ofList ([' '].intercalate
    (splitWhitespace ((trimmed action.toList).flatMap u.toUppercase)))

def validateFkAction (action : String) : Except String String :=
  if validActions.contains (normalized u action) then .ok action
  else .error ("Invalid foreign key action '" ++ action ++
    "': must be one of [\"CASCADE\", \"SET NULL\", \"SET DEFAULT\", \"RESTRICT\", \"NO ACTION\"]")

/-! ## What the texts are made of -/

def IdentifierText (cs : List Char) : Prop :=
  ∃ c rest, cs = c :: rest ∧ isStart c = true ∧ (∀ d ∈ rest, isWord d = true) ∧ rest.length ≤ 127

def QualifiedText (cs : List Char) : Prop :=
  ∃ parts : List (List Char), parts ≠ [] ∧ parts.length ≤ 3 ∧ (∀ part ∈ parts, IdentifierText part) ∧
    cs = ['.'].intercalate parts

def Digits (cs : List Char) : Prop := cs ≠ [] ∧ ∀ c ∈ cs, c.isDigit = true

def ParametersText (cs : List Char) : Prop :=
  cs = [] ∨ (∃ n, Digits n ∧ cs = '(' :: n ++ [')']) ∨
    ∃ n m, Digits n ∧ Digits m ∧ cs = '(' :: n ++ ',' :: m ++ [')']

def TypeText (cs : List Char) : Prop :=
  ∃ c name parameters, cs = c :: name ++ parameters ∧ c.isUpper = true ∧
    (∀ d ∈ name, isTypeChar d = true) ∧ ParametersText parameters

/-- A text of these words, with white space between them and perhaps around. -/
inductive Spaced : List Char → List (List Char) → Prop where
  | blank {cs : List Char} (h : ∀ c ∈ cs, isWhitespace c = true) : Spaced cs []
  | word {gap w rest : List Char} {words : List (List Char)} (hgap : ∀ c ∈ gap, isWhitespace c = true)
    (hw : w ≠ [] ∧ ∀ c ∈ w, isWhitespace c = false) (hend : ∀ c ∈ rest.head?, isWhitespace c = true)
    (h : Spaced rest words) : Spaced (gap ++ w ++ rest) (w :: words)

/-- One of the actions, up to ASCII case and white space. -/
def ActionText (cs : List Char) : Prop :=
  ∃ words, Spaced cs words ∧
    String.ofList ([' '].intercalate (words.map (·.map Char.toUpper))) ∈ validActions

def specials : List Char := ";'\"`-/*#$\\\x00".toList

/-- Nothing in the text ends the statement or opens a quote or a comment. -/
def Inert (cs : List Char) : Prop := ∀ c ∈ cs, c ∉ specials

/-! ## Words -/

variable {c : Char}

namespace Spaced

variable {cs : List Char} {words : List (List Char)}

theorem append_left {gap : List Char} (h : Spaced cs words) (hgap : ∀ c ∈ gap, isWhitespace c = true) :
    Spaced (gap ++ cs) words := by
  cases h with
  | blank h => exact .blank fun c hc => (List.mem_append.mp hc).elim (hgap c) (h c)
  | word hgap' hw hend h =>
    rw [← List.append_assoc, ← List.append_assoc]
    exact .word (fun c hc => (List.mem_append.mp hc).elim (hgap c) (hgap' c)) hw hend h

theorem append_right {gap : List Char} (h : Spaced cs words) (hgap : ∀ c ∈ gap, isWhitespace c = true) :
    Spaced (cs ++ gap) words := by
  induction h with
  | blank h => exact .blank fun c hc => (List.mem_append.mp hc).elim (h c) (hgap c)
  | @word _ _ rest _ hgap' hw hend _ ih =>
    rw [List.append_assoc]
    refine .word hgap' hw ?_ ih
    cases rest with
    | nil => exact fun c hc => hgap c (List.mem_of_mem_head? hc)
    | cons d rest => exact hend

theorem mem (h : Spaced cs words) (hc : c ∈ cs) :
    isWhitespace c = true ∨ ∃ w ∈ words, c ∈ w := by
  induction h with
  | blank h => exact .inl (h c hc)
  | word hgap _ _ _ ih =>
    obtain hc | hc := List.mem_append.mp hc
    · obtain hc | hc := List.mem_append.mp hc
      · exact .inl (hgap c hc)
      · exact .inr ⟨_, List.mem_cons_self .., hc⟩
    · obtain hwhite | ⟨w, hw, hmem⟩ := ih hc
      · exact .inl hwhite
      · exact .inr ⟨w, List.mem_cons_of_mem _ hw, hmem⟩

theorem of_map {f : Char → Char} (hf : ∀ c ∈ cs, isWhitespace (f c) = isWhitespace c)
    (h : Spaced (cs.map f) words) : ∃ words', Spaced cs words' ∧ words = words'.map (·.map f) := by
  generalize heq : cs.map f = text at h
  induction h generalizing cs with
  | blank h =>
    refine ⟨[], .blank fun c hc => ?_, rfl⟩
    rw [← hf c hc]
    exact h _ (heq ▸ List.mem_map_of_mem hc)
  | word hgap hw hend _ ih =>
    obtain ⟨front, rest, rfl, hfront, rfl⟩ := List.map_eq_append_iff.mp heq
    obtain ⟨gap, w, rfl, rfl, rfl⟩ := List.map_eq_append_iff.mp hfront
    simp only [List.mem_append] at hf
    obtain ⟨words', hspaced, rfl⟩ := ih (fun c hc => hf c (.inr hc)) rfl
    refine ⟨w :: words', .word (fun c hc => ?_) ⟨?_, fun c hc => ?_⟩ (fun c hc => ?_) hspaced, rfl⟩
    · rw [← hf c (.inl (.inl hc))]
      exact hgap _ (List.mem_map_of_mem hc)
    · rintro rfl
      exact hw.1 rfl
    · rw [← hf c (.inl (.inr hc))]
      exact hw.2 _ (List.mem_map_of_mem hc)
    · rw [← hf c (.inr (List.mem_of_mem_head? hc))]
      refine hend _ ?_
      rw [List.head?_map, hc]
      rfl

end Spaced

theorem spaced_splitWhitespace (cs : List Char) : Spaced cs (splitWhitespace cs) := by
  -- the first piece runs up to white space, and what follows it has the other words
  have hpieces : ∃ w rest pieces, cs.splitOnP isWhitespace = w :: pieces ∧ cs = w ++ rest ∧
      (∀ c ∈ w, isWhitespace c = false) ∧ (∀ c ∈ rest.head?, isWhitespace c = true) ∧
      Spaced rest (pieces.filter (· ≠ [])) := by
    induction cs with
    | nil => exact ⟨[], [], [], rfl, rfl, by simp, by simp, .blank (by simp)⟩
    | cons c cs ih =>
      obtain ⟨w, rest, pieces, hsplit, rfl, hw, hend, hspaced⟩ := ih
      rw [List.splitOnP_cons_eq_if_modifyHead, hsplit]
      cases hc : isWhitespace c with
      | false =>
        exact ⟨c :: w, rest, pieces, rfl, rfl, List.forall_mem_cons.mpr ⟨hc, hw⟩, hend, hspaced⟩
      | true =>
        refine ⟨[], c :: (w ++ rest), w :: pieces, rfl, rfl, by simp, by simpa using hc, ?_⟩
        have hgap : ∀ d ∈ [c], isWhitespace d = true := by simpa using hc
        cases w with
        | nil => exact hspaced.append_left hgap
        | cons d w => exact Spaced.word hgap ⟨List.cons_ne_nil _ _, hw⟩ hend hspaced
  obtain ⟨w, rest, pieces, hsplit, rfl, hw, hend, hspaced⟩ := hpieces
  rw [splitWhitespace, hsplit]
  cases w with
  | nil => exact hspaced
  | cons c w =>
    have hgap : ∀ d ∈ ([] : List Char), isWhitespace d = true := fun _ hd => absurd hd List.not_mem_nil
    exact Spaced.word hgap ⟨List.cons_ne_nil _ _, hw⟩ hend hspaced

theorem exists_trimmed (cs : List Char) : ∃ before after, cs = before ++ trimmed cs ++ after ∧
    (∀ c ∈ before, isWhitespace c = true) ∧ ∀ c ∈ after, isWhitespace c = true := by
  have hblank : ∀ (l : List Char), ∀ c ∈ l.takeWhile isWhitespace, isWhitespace c = true :=
    fun l c hc => List.mem_takeWhile_imp hc
  refine ⟨cs.takeWhile isWhitespace,
    ((cs.dropWhile isWhitespace).reverse.takeWhile isWhitespace).reverse, ?_, hblank cs,
    fun c hc => hblank _ c (List.mem_reverse.mp hc)⟩
  rw [trimmed, List.append_assoc, ← List.reverse_append, List.takeWhile_append_dropWhile,
    List.reverse_reverse, List.takeWhile_append_dropWhile]

/-! ## Joined words -/

theorem of_mem_intercalate {sep c : Char} {words : List (List Char)} :
    c ∈ [sep].intercalate words → c = sep ∨ ∃ w ∈ words, c ∈ w := by
  induction words with
  | nil => exact fun hc => absurd hc List.not_mem_nil
  | cons w words ih =>
    intro hc
    cases words with
    | nil =>
      rw [List.intercalate_singleton] at hc
      exact .inr ⟨w, List.mem_singleton_self w, hc⟩
    | cons w' words =>
      rw [List.intercalate_cons_cons, List.mem_append, List.mem_append] at hc
      obtain (hc | hc) | hc := hc
      · exact .inr ⟨w, List.mem_cons_self .., hc⟩
      · exact .inl (List.mem_singleton.mp hc)
      · exact (ih hc).imp_right fun ⟨v, hv, hcv⟩ => ⟨v, List.mem_cons_of_mem _ hv, hcv⟩

theorem mem_intercalate_of_mem {w : List Char} {words : List (List Char)} (hw : w ∈ words)
    (hc : c ∈ w) : c ∈ [' '].intercalate words := by
  induction words with
  | nil => exact absurd hw List.not_mem_nil
  | cons w' words ih =>
    cases words with
    | nil =>
      rw [List.intercalate_singleton]
      exact List.mem_singleton.mp hw ▸ hc
    | cons w'' words =>
      rw [List.intercalate_cons_cons, List.mem_append, List.mem_append]
      obtain rfl | hw := List.mem_cons.mp hw
      · exact .inl (.inl hc)
      · exact .inr (ih hw)

/-! ## ASCII -/

theorem of_ascii {p : Char → Prop} (h : ∀ n < 128, p (Char.ofNat n)) (hc : c.toNat < 128) :
    p c := by
  have hp := h c.toNat hc
  rwa [Char.ofNat_toNat] at hp

theorem isWhitespace_toUpper (hc : c.toNat < 128) :
    isWhitespace c.toUpper = isWhitespace c :=
  of_ascii (p := fun c => isWhitespace c.toUpper = isWhitespace c) (by decide) hc

theorem blank_or_alpha (hc : c.toNat < 128)
    (hupper : c.toUpper.isUpper = true ∨ c.toUpper = ' ') : isWhitespace c = true ∨ c.isAlpha = true :=
  of_ascii (p := fun c => c.toUpper.isUpper = true ∨ c.toUpper = ' ' →
    isWhitespace c = true ∨ c.isAlpha = true) (by decide) hc hupper

theorem isWord_of_isStart (h : isStart c = true) : isWord c = true := by
  rw [isStart, Bool.or_eq_true] at h
  rw [isWord, Bool.or_eq_true, Char.isAlphanum, Bool.or_eq_true]
  exact h.imp_left .inl

theorem toNat_of_isWord (h : isWord c = true) : c.toNat < 128 := by
  rw [isWord, Bool.or_eq_true, decide_eq_true_eq] at h
  obtain h | rfl := h
  · have := Governance.toNat_of_isAlphanum h
    omega
  · decide

theorem quoted_inj {quote a b : String} : quote ++ a ++ quote = quote ++ b ++ quote ↔ a = b := by
  rw [← String.toList_inj, ← String.toList_inj]
  simp

variable {cs : List Char}

theorem inert_of {p : Char → Bool} (hp : specials.any p = false) (h : ∀ c ∈ cs, p c = true) :
    Inert cs := by
  intro c hc hspecial
  exact Bool.false_ne_true (hp.symm.trans (List.any_eq_true.mpr ⟨c, hspecial, h c hc⟩))

/-! ## What is accepted -/

section Accepted

variable {u}

theorem identifierText_of_matches (h : matchesIdentifier cs = true) :
    IdentifierText cs := by
  cases cs with
  | nil => exact nomatch h
  | cons c cs =>
    rw [matchesIdentifier, Bool.and_eq_true, Bool.and_eq_true, List.all_eq_true,
      decide_eq_true_eq] at h
    exact ⟨c, cs, rfl, h.1.1, h.1.2, h.2⟩

theorem validateIdentifier_ok {s r : String} (h : validateIdentifier u s = .ok r) :
    r = s ∧ IdentifierText s.toList := by
  unfold validateIdentifier at h
  split_ifs at h with _ _ hmatches
  cases h
  exact ⟨rfl, identifierText_of_matches (Bool.not_eq_false _ ▸ hmatches)⟩

theorem forM_ok {α : Type} {f : α → Except String Unit} {l : List α} {r : Unit}
    (h : l.forM f = .ok r) : ∀ a ∈ l, f a = .ok () := by
  induction l with
  | nil => exact fun _ ha => absurd ha List.not_mem_nil
  | cons a l ih =>
    rw [show (a :: l).forM f = (f a >>= fun _ => l.forM f) from rfl] at h
    cases ha : f a with
    | error e =>
      rw [ha] at h
      exact nomatch h
    | ok _ =>
      rw [ha] at h
      exact List.forall_mem_cons.mpr ⟨ha, ih h⟩

theorem validateQualifiedIdentifier_ok {s r : String} (h : validateQualifiedIdentifier u s = .ok r) :
    r = s ∧ QualifiedText s.toList := by
  unfold validateQualifiedIdentifier at h
  dsimp only at h
  split_ifs at h with hnil hlength
  cases hparts : ((s.toList.splitOn '.').map String.ofList).forM fun part =>
      (validateIdentifier u part).map fun _ => () with
  | error e =>
    rw [hparts] at h
    exact nomatch h
  | ok _ =>
    rw [hparts] at h
    cases h
    refine ⟨rfl, s.toList.splitOn '.', List.splitOn_ne_nil _ _, ?_, fun part hpart => ?_,
      (List.intercalate_splitOn ..).symm⟩
    · rw [List.length_map] at hlength
      omega
    · have hok := forM_ok hparts _ (List.mem_map_of_mem hpart)
      cases hvalid : validateIdentifier u (String.ofList part) with
      | error e =>
        rw [hvalid] at hok
        exact nomatch hok
      | ok name =>
        have htext := (validateIdentifier_ok hvalid).2
        rwa [String.toList_ofList] at htext

theorem digits_takeWhile (h : (!(cs.takeWhile Char.isDigit).isEmpty) = true) :
    Digits (cs.takeWhile Char.isDigit) := by
  rw [Bool.not_eq_true', List.isEmpty_eq_false_iff] at h
  exact ⟨h, fun c hc => List.mem_takeWhile_imp hc⟩

theorem parametersText_of_matches (h : matchesParameters cs = true) :
    ParametersText cs := by
  unfold matchesParameters at h
  split at h
  · exact .inl rfl
  · next rest =>
    rw [Bool.and_eq_true] at h
    obtain ⟨hfirst, h⟩ := h
    rw [← List.takeWhile_append_dropWhile (p := Char.isDigit) (l := rest)]
    split at h
    · next hclose =>
      rw [hclose]
      exact .inr (.inl ⟨_, digits_takeWhile hfirst, rfl⟩)
    · next ds hcomma =>
      rw [Bool.and_eq_true, beq_iff_eq] at h
      rw [hcomma, ← List.takeWhile_append_dropWhile (p := Char.isDigit) (l := ds), h.2]
      refine .inr (.inr ⟨_, _, digits_takeWhile hfirst, digits_takeWhile h.1, ?_⟩)
      simp
    · exact nomatch h
  · exact nomatch h

theorem validateSqlType_ok {s r : String} (h : validateSqlType u s = .ok r) :
    r = s ∧ TypeText s.toList := by
  unfold validateSqlType at h
  split_ifs at h with _ _ _ _ hmatches
  split at h
  · exact nomatch h
  · cases h
    refine ⟨rfl, ?_⟩
    cases hcs : s.toList with
    | nil =>
      rw [hcs] at hmatches
      exact absurd rfl hmatches
    | cons c cs =>
      rw [hcs, Bool.not_eq_false, matchesType, Bool.and_eq_true] at hmatches
      refine ⟨c, cs.takeWhile isTypeChar, cs.dropWhile isTypeChar, ?_, hmatches.1,
        fun d hd => List.mem_takeWhile_imp hd, parametersText_of_matches hmatches.2⟩
      rw [List.cons_append, List.takeWhile_append_dropWhile]

omit u in
theorem upper_of_mem_validActions {action : String} (h : action ∈ validActions)
    (hc : c ∈ action.toList) : c.isUpper = true ∨ c = ' ' := by
  have hall : (validActions.all (·.toList.all fun c => c.isUpper || c = ' ')) = true := by decide
  simpa using List.all_eq_true.mp (List.all_eq_true.mp hall action h) c hc

/-! ## Inert texts -/

theorem IdentifierText.inert (h : IdentifierText cs) : Inert cs := by
  obtain ⟨c, rest, rfl, hstart, hrest, -⟩ := h
  exact inert_of (p := isWord) (by decide)
    (List.forall_mem_cons.mpr ⟨isWord_of_isStart hstart, hrest⟩)

theorem QualifiedText.inert (h : QualifiedText cs) : Inert cs := by
  obtain ⟨parts, -, -, hparts, rfl⟩ := h
  intro c hc
  obtain hdot | ⟨part, hpart, hmem⟩ := of_mem_intercalate hc
  · exact hdot ▸ by decide
  · exact (hparts part hpart).inert c hmem

theorem ParametersText.chars (h : ParametersText cs) :
    ∀ c ∈ cs, (c.isDigit || "(),".toList.contains c) = true := by
  intro c hc
  have hdigit : c.isDigit = true → (c.isDigit || "(),".toList.contains c) = true := fun hc =>
    Bool.or_eq_true _ _ ▸ .inl hc
  obtain rfl | ⟨n, hn, rfl⟩ | ⟨n, m, hn, hm, rfl⟩ := h
  · exact absurd hc List.not_mem_nil
  · simp only [List.cons_append, List.mem_cons, List.mem_append, List.not_mem_nil, or_false] at hc
    obtain rfl | hc | rfl := hc
    · decide
    · exact hdigit (hn.2 c hc)
    · decide
  · simp only [List.cons_append, List.mem_cons, List.mem_append, List.not_mem_nil, or_false] at hc
    obtain rfl | (hc | rfl | hc) | rfl := hc
    · decide
    · exact hdigit (hn.2 c hc)
    · decide
    · exact hdigit (hm.2 c hc)
    · decide

theorem TypeText.inert (h : TypeText cs) : Inert cs := by
  obtain ⟨c, name, parameters, rfl, hc, hname, hparameters⟩ := h
  intro d hd
  rw [List.mem_append, List.mem_cons] at hd
  obtain (rfl | hd) | hd := hd
  · exact inert_of (p := Char.isUpper) (by decide) (List.forall_mem_singleton.mpr hc) d
      (List.mem_singleton_self d)
  · exact inert_of (p := isTypeChar) (by decide) hname d hd
  · exact inert_of (p := fun d => d.isDigit || "(),".toList.contains d) (by decide)
      hparameters.chars d hd

variable (hu : ∀ c : Char, c.toNat < 128 → u.toUppercase c = [c.toUpper])
include hu

theorem flatMap_toUppercase (h : ∀ c ∈ cs, c.toNat < 128) :
    cs.flatMap u.toUppercase = cs.map Char.toUpper := by
  induction cs with
  | nil => rfl
  | cons c cs ih =>
    obtain ⟨hc, hcs⟩ := List.forall_mem_cons.mp h
    rw [List.flatMap_cons, hu c hc, ih hcs]
    rfl

/-- **An action that is accepted**, up to what is known of its upper case. -/
theorem validateFkAction_ok {s r : String} (h : validateFkAction u s = .ok r) :
    r = s ∧ (∀ c ∈ s.toList, c.toNat < 128 → isWhitespace c = true ∨ c.isAlpha = true) ∧
      ((∀ c ∈ s.toList, c.toNat < 128) → ActionText s.toList) := by
  unfold validateFkAction at h
  split_ifs at h with hvalid
  cases h
  rw [List.contains_iff_mem, normalized] at hvalid
  have hspaced := spaced_splitWhitespace ((trimmed s.toList).flatMap u.toUppercase)
  obtain ⟨before, after, heq, hbefore, hafter⟩ := exists_trimmed s.toList
  refine ⟨rfl, ?_, ?_⟩
  · intro c hc hascii
    rw [heq, List.mem_append, List.mem_append] at hc
    obtain (hc | hc) | hc := hc
    · exact .inl (hbefore c hc)
    · have hmem : c.toUpper ∈ (trimmed s.toList).flatMap u.toUppercase :=
        List.mem_flatMap.mpr ⟨c, hc, by rw [hu c hascii]; exact List.mem_singleton_self _⟩
      obtain hwhite | ⟨w, hw, hcw⟩ := hspaced.mem hmem
      · exact .inl ((isWhitespace_toUpper hascii).symm.trans hwhite)
      · refine blank_or_alpha hascii (upper_of_mem_validActions hvalid ?_)
        rw [String.toList_ofList]
        exact mem_intercalate_of_mem hw hcw
    · exact .inl (hafter c hc)
  · intro hascii
    have htrimmed : ∀ c ∈ trimmed s.toList, c.toNat < 128 := by
      intro c hc
      refine hascii c ?_
      rw [heq, List.mem_append, List.mem_append]
      exact .inl (.inr hc)
    rw [flatMap_toUppercase hu htrimmed] at hspaced hvalid
    obtain ⟨words, hwords, hmap⟩ :=
      hspaced.of_map fun c hc => isWhitespace_toUpper (htrimmed c hc)
    rw [hmap] at hvalid
    refine ⟨words, ?_, hvalid⟩
    rw [heq]
    exact (hwords.append_left hbefore).append_right hafter

/-! ## Quoted names -/

theorem toUppercase_identifier {s : String} (h : IdentifierText s.toList) :
    (toUppercase u s).toList = s.toList.map Char.toUpper := by
  rw [toUppercase, String.toList_ofList]
  obtain ⟨c, rest, hcs, hstart, hrest, -⟩ := h
  refine flatMap_toUppercase hu fun d hd => toNat_of_isWord ?_
  rw [hcs] at hd
  obtain rfl | hd := List.mem_cons.mp hd
  · exact isWord_of_isStart hstart
  · exact hrest d hd

theorem quoteIdentifier_eq_iff {dbType : DatabaseType} {a b name name' : String}
    (ha : quoteIdentifier u a dbType = .ok name) (hb : quoteIdentifier u b dbType = .ok name') :
    name = name' ↔ if dbType = .Snowflake then a.toList.map Char.toUpper = b.toList.map Char.toUpper
      else a = b := by
  unfold quoteIdentifier at ha hb
  cases hva : validateIdentifier u a with
  | error e =>
    rw [hva] at ha
    exact nomatch ha
  | ok va =>
    cases hvb : validateIdentifier u b with
    | error e =>
      rw [hvb] at hb
      exact nomatch hb
    | ok vb =>
      obtain ⟨rfl, hta⟩ := validateIdentifier_ok hva
      obtain ⟨rfl, htb⟩ := validateIdentifier_ok hvb
      rw [hva] at ha
      rw [hvb] at hb
      cases dbType
      case Snowflake =>
        cases ha
        cases hb
        rw [if_pos rfl, ← toUppercase_identifier hu hta, ← toUppercase_identifier hu htb,
          String.toList_inj]
      all_goals
        cases ha
        cases hb
        rw [if_neg (by decide), quoted_inj]

end Accepted

variable {u}

/-- **What is accepted** is returned as it is, has the form that is documented, and is inert. Of an action
this is so for the form if it is ASCII. Quoted names tell identifiers apart, on Snowflake up to case. -/
theorem accepted_inert (hu : ∀ c : Char, c.toNat < 128 → u.toUppercase c = [c.toUpper]) :
    (∀ s r, validateIdentifier u s = .ok r → r = s ∧ IdentifierText s.toList ∧ Inert s.toList) ∧
      (∀ s r, validateQualifiedIdentifier u s = .ok r →
        r = s ∧ QualifiedText s.toList ∧ Inert s.toList) ∧
      (∀ s r, validateSqlType u s = .ok r → r = s ∧ TypeText s.toList ∧ Inert s.toList) ∧
      (∀ s r, validateFkAction u s = .ok r → r = s ∧ Inert s.toList ∧
        ((∀ c ∈ s.toList, c.toNat < 128) → ActionText s.toList)) ∧
      ∀ dbType a b name name', quoteIdentifier u a dbType = .ok name →
        quoteIdentifier u b dbType = .ok name' →
          (name = name' ↔ if dbType = .Snowflake then
            a.toList.map Char.toUpper = b.toList.map Char.toUpper else a = b) := by
  refine ⟨fun s r h => ?_, fun s r h => ?_, fun s r h => ?_, fun s r h => ?_,
    fun dbType a b name name' ha hb => quoteIdentifier_eq_iff hu ha hb⟩
  · have htext := validateIdentifier_ok h
    exact ⟨htext.1, htext.2, htext.2.inert⟩
  · have htext := validateQualifiedIdentifier_ok h
    exact ⟨htext.1, htext.2, htext.2.inert⟩
  · have htext := validateSqlType_ok h
    exact ⟨htext.1, htext.2, htext.2.inert⟩
  · obtain ⟨heq, hchars, htext⟩ := validateFkAction_ok hu h
    refine ⟨heq, fun c hc hspecial => ?_, htext⟩
    -- no special character is a letter or white space
    have hspecials : ∀ c ∈ specials,
        c.toNat < 128 ∧ isWhitespace c = false ∧ c.isAlpha = false :=
      List.forall_iff_forall_mem.mp (by decide)
    obtain ⟨hascii, hblank, halpha⟩ := hspecials c hspecial
    obtain hwhite | hletter := hchars c hc hascii
    · exact Bool.false_ne_true (hblank.symm.trans hwhite)
    · exact Bool.false_ne_true (halpha.symm.trans hletter)

def upperUnicode : Unicode := ⟨Char.isAlphanum, fun c => if c = 'ſ' then ['S'] else [c.toUpper]⟩

theorem customers_inert : Inert "customers".toList ∧ TypeText "DECIMAL(10,2)".toList ∧
    ActionText " set  null".toList := by
  have haccepted := accepted_inert (u := upperUnicode) fun c hc => if_neg fun heq => by
    rw [heq] at hc
    exact absurd hc (by decide)
  obtain ⟨hidentifier, -, htype, haction, -⟩ := haccepted
  exact ⟨(hidentifier "customers" "customers" (by decide)).2.2,
    (htype "DECIMAL(10,2)" "DECIMAL(10,2)" (by decide)).2.1,
    (haction " set  null" " set  null" (by decide)).2.2 (List.forall_iff_forall_mem.mp (by decide))⟩

/-- An action is accepted that is not ASCII, and two identifiers have one name on Snowflake. -/
theorem caseCollision : validateFkAction upperUnicode "caſcade" = .ok "caſcade" ∧
    ¬ ∀ dbType a b name, quoteIdentifier upperUnicode a dbType = .ok name →
      quoteIdentifier upperUnicode b dbType = .ok name → a = b := by
  refine ⟨by decide, fun hquoted => ?_⟩
  exact absurd (hquoted .Snowflake "id" "ID" "ID" (by decide) (by decide)) (by decide)

end Arcxa.Security
