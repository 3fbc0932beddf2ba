import Arcxa.Lib.Text
import Arcxa.Workflow.StreamingDedup

/-!
# RDF terms

The texts of subjects, predicates and objects are parsed before they are sent to a shard: a URI
loses its angle brackets, a literal its quotes and escapes, all of them the blanks around them.
The slices of the source cut at ASCII characters it has looked at before, so that they are lists
of characters here; the one that can be out of range is a panic.
-/

namespace Arcxa.Governance

open Arcxa.Workflow (isWhitespace)

/-- What the standard library knows about characters beyond ASCII. -/
structure Unicode where
  isAlphanumeric : Char → Bool
  toUppercase : Char → List Char

/-- How a call ends that returns no value: an error, its contexts outermost first, or a panic. -/
inductive Failure where
  | error (chain : List String)
  | panicked
  deriving DecidableEq

def bail {α : Type} (text : String) : Except Failure α := .error (.error [text])

/-- `with_context`. -/
def withContext {α : Type} (text : String) : Except Failure α → Except Failure α
  | .ok a => .ok a
  | .error (.error chain) => .error (.error (text :: chain))
  | .error .panicked => .error .panicked

/-- A triple of the protocol. -/
structure Triple where
  subject : String
  predicate : String
  object : String
  objectDatatype : String
  objectLanguage : String
  graph : String
  deriving DecidableEq

/-- `len`, in bytes. -/
def byteLen (cs : List Char) : Nat := (cs.map Char.utf8Size).sum

/-- `str::trim`. -/
def trimmed (cs : List Char) : List Char :=
  ((cs.dropWhile isWhitespace).reverse.dropWhile isWhitespace).reverse

/-- The part between the first and the last character; `none` is a slice out of range. -/
def inner : List Char → Option (List Char)
  | [] => none
  | [_] => none
  | _ :: c :: cs => some (c :: cs).dropLast

/-! ## Parsing -/

def isValidLanguageTag (tag : List Char) : Bool :=
  match tag.splitOn '-' with
  | [] => false
  | primary :: subtags =>
    !tag.isEmpty && decide (2 ≤ byteLen primary ∧ byteLen primary ≤ 3) &&
      primary.all (·.isAlpha) &&
      subtags.all fun subtag =>
        decide (2 ≤ byteLen subtag ∧ byteLen subtag ≤ 8) && subtag.all (·.isAlphanum)

theorem toNat_of_isAlphanum {c : Char} (h : c.isAlphanum = true) :
    ((65 ≤ c.toNat ∧ c.toNat ≤ 90) ∨ 97 ≤ c.toNat ∧ c.toNat ≤ 122) ∨
      48 ≤ c.toNat ∧ c.toNat ≤ 57 := by
  delta Char.isAlphanum Char.isAlpha Char.isUpper Char.isLower Char.isDigit at h
  simp only [Bool.or_eq_true, Bool.and_eq_true, decide_eq_true_eq, ge_iff_le,
    UInt32.le_iff_toNat_le] at h
  exact h

abbrev Parsed := List Char × List Char × List Char

def parseUriReference (input : List Char) : Except Failure Parsed :=
  if input.getLast? ≠ some '>' then bail "Invalid URI reference: missing closing >"
  else
    match inner input with
    | none => .error .panicked
    | some uri =>
      if uri.isEmpty then bail "Empty URI"
      else if uri.contains '<' || uri.contains '>' then
        bail "URI contains illegal < or > characters"
      else if uri.any isWhitespace then bail "URI contains whitespace"
      else .ok (input, [], [])

def parseBlankNode (u : Unicode) (input : List Char) : Except Failure Parsed :=
  if byteLen input < 3 then bail "Invalid blank node: too short"
  else
    let label := input.drop 2
    if label.isEmpty then bail "Blank node label is empty"
    else if !label.all (fun c => u.isAlphanumeric c || c == '_') then
      bail "Invalid characters in blank node label"
    else .ok (input, [], [])

/-- The state machine up to the closing quote: what it read, and what is left. The flag says that
the character before was a backslash. -/
def readQuoted : Bool → List Char → List Char × List Char
  | _, [] => ([], [])
  | true, c :: cs =>
    let (value, remaining) := readQuoted false cs
    (c :: value, remaining)
  | false, c :: cs =>
    if c = '"' then (['"'], cs)
    else
      let (value, remaining) := readQuoted (c == '\\') cs
      (c :: value, remaining)

def parseDatatype (datatypePart : List Char) : Except Failure (List Char) :=
  if datatypePart.head? = some '<' then
    if datatypePart.getLast? ≠ some '>' then bail "Invalid datatype IRI: missing closing >"
    else
      match inner datatypePart with
      | none => .error .panicked
      | some datatype => .ok datatype
  else if datatypePart.isEmpty then bail "Empty datatype after ^^"
  else .ok datatypePart

def parseLiteral (input : List Char) : Except Failure Parsed :=
  match input with
  | '"' :: cs =>
    let (read, remaining) := readQuoted false cs
    let value := '"' :: read
    if value.getLast? ≠ some '"' then bail "Unterminated string literal"
    else
      match remaining with
      | '^' :: '^' :: datatypePart =>
        (parseDatatype datatypePart).map fun datatype => (value, datatype, [])
      | '@' :: language =>
        if language.isEmpty then bail "Empty language tag after @"
        else if !isValidLanguageTag language then
          bail ("Invalid language tag: " ++ String.ofList language ++ " (not BCP 47 compliant)")
        else .ok (value, [], language)
      | [] => .ok (value, [], [])
      | _ => bail ("Unexpected characters after literal: " ++ String.ofList remaining)
  | _ => bail "Literal must start with double quote"

def parseRdfObject (u : Unicode) (input : List Char) : Except Failure Parsed :=
  match trimmed input with
  | [] => bail "Empty RDF object"
  | '<' :: cs => parseUriReference ('<' :: cs)
  | '_' :: ':' :: cs => parseBlankNode u ('_' :: ':' :: cs)
  | '"' :: cs => parseLiteral ('"' :: cs)
  | cs => .ok (cs, [], [])

/-! ## Terms -/

inductive RdfTerm where
  | Uri (uri : List Char)
  | Literal (value datatype language : List Char)
  | BlankNode (label : List Char)
  deriving DecidableEq

namespace RdfTerm

def unescape : List Char → List Char
  | [] => []
  | ['\\'] => ['\\']
  | '\\' :: c :: cs =>
    (match c with
      | '"' => ['"']
      | '\\' => ['\\']
      | 'n' => ['\n']
      | 't' => ['\t']
      | 'r' => ['\r']
      | 'b' => [Char.ofNat 8]
      | 'f' => [Char.ofNat 12]
      | c => ['\\', c]) ++ unescape cs
  | c :: cs => c :: unescape cs

def normalizeLiteralValue (quoted : List Char) : Except Failure (List Char) :=
  if quoted.head? ≠ some '"' ∨ quoted.getLast? ≠ some '"' then
    bail "Literal must be enclosed in quotes"
  else
    match inner quoted with
    | none => .error .panicked
    | some text => .ok (unescape text)

def ofParsed : Parsed → Except Failure RdfTerm
  | (value, datatype, language) =>
    if value.head? = some '<' ∧ value.getLast? = some '>' then
      match inner value with
      | none => .error .panicked
      | some uri => .ok (.Uri uri)
    else if ['_', ':'].isPrefixOf value then .ok (.BlankNode value)
    else if value.head? = some '"' ∧ value.getLast? = some '"' then
      (normalizeLiteralValue value).map fun text => .Literal text datatype language
    else .ok (.Literal value datatype language)

def parse (u : Unicode) (input : List Char) : Except Failure RdfTerm :=
  match withContext ("Failed to parse RDF term: " ++ String.ofList input)
      (parseRdfObject u input) with
  | .error e => .error e
  | .ok parsed => ofParsed parsed

def asProtoObject : RdfTerm → List Char × List Char × List Char
  | Uri uri => (uri, [], [])
  | Literal value datatype language => (value, datatype, language)
  | BlankNode label => (label, [], [])

def validateForGrpc : RdfTerm → Except Failure Unit
  | Uri uri =>
    if uri.isEmpty then bail "Empty URI"
    else if byteLen uri > 65536 then bail "URI exceeds 64KB limit"
    else .ok ()
  | Literal value datatype language =>
    if byteLen value > 1048576 then bail "Literal value exceeds 1MB limit"
    else if byteLen datatype > 1024 then bail "Datatype URI exceeds 1KB limit"
    else if byteLen language > 35 then bail "Language tag exceeds 35 character limit"
    else .ok ()
  | BlankNode label =>
    if byteLen label < 3 then bail "Blank node label too short"
    else if byteLen label > 1024 then bail "Blank node label exceeds 1KB limit"
    else .ok ()

def asSubject : RdfTerm → Except Failure (List Char)
  | Uri uri => .ok uri
  | BlankNode label => .ok label
  | Literal _ _ _ => bail "Subject cannot be a literal"

def asPredicate : RdfTerm → Except Failure (List Char)
  | Uri uri => .ok uri
  | _ => bail "Predicate must be a URI"

end RdfTerm

def buildValidatedTriple (u : Unicode) (subject predicate object : String)
    (graph : Option String) : Except Failure Triple := do
  let subjectTerm ← withContext ("Invalid subject: " ++ subject) (RdfTerm.parse u subject.toList)
  let predicateTerm ← withContext ("Invalid predicate: " ++ predicate)
    (RdfTerm.parse u predicate.toList)
  let objectTerm ← withContext ("Invalid object: " ++ object) (RdfTerm.parse u object.toList)
  withContext ("Subject validation failed: " ++ subject) subjectTerm.validateForGrpc
  withContext ("Predicate validation failed: " ++ predicate) predicateTerm.validateForGrpc
  withContext ("Object validation failed: " ++ object) objectTerm.validateForGrpc
  let subjectValue ← subjectTerm.asSubject
  let predicateValue ← predicateTerm.asPredicate
  let (objectValue, objectDatatype, objectLanguage) := objectTerm.asProtoObject
  pure {
    subject := String.ofList subjectValue
    predicate := String.ofList predicateValue
    object := String.ofList objectValue
    objectDatatype := String.ofList objectDatatype
    objectLanguage := String.ofList objectLanguage
    graph := graph.getD "" }

/-! ## Subjects -/

@[simp] theorem withContext_eq_ok {α : Type} {text : String} {r : Except Failure α} {a : α} :
    withContext text r = .ok a ↔ r = .ok a := by
  cases r with
  | ok b => exact Iff.rfl
  | error e =>
    cases e with
    | error chain => exact iff_of_false (fun h => by cases h) (fun h => by cases h)
    | panicked => exact iff_of_false (fun h => by cases h) (fun h => by cases h)

theorem exists_of_bind_eq_ok {α β : Type} {x : Except Failure α} {f : α → Except Failure β} {b : β}
    (h : x >>= f = .ok b) : ∃ a, x = .ok a ∧ f a = .ok b := by
  cases x with
  | error e => cases h
  | ok a => exact ⟨a, rfl, h⟩

theorem bail_ne_ok {α : Type} {text : String} {a : α} : (bail text : Except Failure α) ≠ .ok a := by
  intro h
  cases h

theorem eq_of_inner {first last : Char} {cs text : List Char} (hinner : inner (first :: cs) = some text)
    (hlast : (first :: cs).getLast? = some last) : first :: cs = first :: text ++ [last] := by
  cases cs with
  | nil => cases hinner
  | cons c cs =>
    cases hinner
    rw [List.getLast?_cons_cons] at hlast
    rw [List.cons_append, List.dropLast_append_getLast? last hlast]

variable {parsed : Parsed}

theorem eq_of_parseUriReference {input : List Char} (h : parseUriReference input = .ok parsed) :
    input.getLast? = some '>' ∧ parsed = (input, [], []) := by
  unfold parseUriReference at h
  split_ifs at h with hlast
  · cases h
  · refine ⟨not_not.mp hlast, ?_⟩
    split at h
    · cases h
    · split_ifs at h
      · cases h
      · cases h
      · cases h
      · cases h
        rfl

variable {u : Unicode}

theorem eq_of_parseBlankNode {input : List Char} (h : parseBlankNode u input = .ok parsed) :
    parsed = (input, [], []) := by
  simp only [parseBlankNode] at h
  split_ifs at h
  · cases h
  · cases h
  · cases h
  · cases h
    rfl

theorem of_parseLiteral {input : List Char} (h : parseLiteral input = .ok parsed) :
    ∃ cs, input = '"' :: cs ∧ parsed.1 = '"' :: (readQuoted false cs).1 ∧
      (parsed.2.2 = [] ∨ isValidLanguageTag parsed.2.2 = true) := by
  unfold parseLiteral at h
  split at h
  · rename_i cs
    simp only at h
    refine ⟨cs, rfl, ?_⟩
    split_ifs at h
    · cases h
    · split at h
      · rename_i datatypePart _
        cases hdatatype : parseDatatype datatypePart with
        | error e =>
          rw [hdatatype] at h
          cases h
        | ok datatype =>
          rw [hdatatype] at h
          cases h
          exact ⟨rfl, .inl rfl⟩
      · split_ifs at h with hempty hvalid
        · cases h
        · cases h
        · cases h
          exact ⟨rfl, .inr (by simpa using hvalid)⟩
      · cases h
        exact ⟨rfl, .inl rfl⟩
      · cases h
  · cases h

theorem asSubject_of_ofParsed {term : RdfTerm} {subject : List Char}
    (huri : parsed.1.head? ≠ some '<') (hblank : ['_', ':'].isPrefixOf parsed.1 = false)
    (hterm : RdfTerm.ofParsed parsed = .ok term) : term.asSubject ≠ .ok subject := by
  obtain ⟨value, datatype, language⟩ := parsed
  simp only [RdfTerm.ofParsed] at hterm
  rw [if_neg (fun h => huri h.1), if_neg (by rw [hblank]; decide)] at hterm
  split_ifs at hterm
  · cases hnormalize : RdfTerm.normalizeLiteralValue value with
    | error e =>
      rw [hnormalize] at hterm
      cases hterm
    | ok text =>
      rw [hnormalize] at hterm
      cases hterm
      exact bail_ne_ok
  · cases hterm
    exact bail_ne_ok

/-- **What a subject looks like**: a URI in angle brackets, or a blank node, with blanks around
it. -/
theorem asSubject_of_parse {input subject : List Char} {term : RdfTerm}
    (hparse : RdfTerm.parse u input = .ok term) (hsubject : term.asSubject = .ok subject) :
    trimmed input = '<' :: subject ++ ['>'] ∨
      trimmed input = subject ∧ ['_', ':'] <+: subject := by
  unfold RdfTerm.parse at hparse
  split at hparse
  · cases hparse
  · rename_i parsed hobject
    rw [withContext_eq_ok] at hobject
    unfold parseRdfObject at hobject
    -- the kinds that end as a literal are no subject
    split at hobject
    · cases hobject
    · rename_i cs htrim
      obtain ⟨hlast, rfl⟩ := eq_of_parseUriReference hobject
      simp only [RdfTerm.ofParsed] at hparse
      rw [if_pos ⟨rfl, hlast⟩] at hparse
      cases hinner : inner ('<' :: cs) with
      | none =>
        rw [hinner] at hparse
        cases hparse
      | some uri =>
        rw [hinner] at hparse
        cases hparse
        cases hsubject
        left
        rw [htrim]
        exact eq_of_inner hinner hlast
    · rename_i cs htrim
      obtain rfl := eq_of_parseBlankNode hobject
      have hblank : ['_', ':'].isPrefixOf ('_' :: ':' :: cs) = true := by simp
      simp only [RdfTerm.ofParsed] at hparse
      rw [if_neg (by simp), if_pos hblank] at hparse
      cases hparse
      cases hsubject
      right
      exact ⟨htrim, List.prefix_append _ cs⟩
    · obtain ⟨cs, -, hvalue, -⟩ := of_parseLiteral hobject
      have hhead : parsed.1.head? = some '"' := congrArg List.head? hvalue
      refine absurd hsubject (asSubject_of_ofParsed ?_ ?_ hparse)
      · rw [hhead]
        decide
      · cases hvalue : parsed.1 with
        | nil => rfl
        | cons c cs =>
          rw [hvalue] at hhead
          cases hhead
          rfl
    · rename_i _ huri hblank _
      cases hobject
      refine absurd hsubject (asSubject_of_ofParsed ?_ ?_ hparse)
      · intro hhead
        obtain ⟨cs, hcs⟩ := List.head?_eq_some_iff.mp hhead
        exact huri cs hcs
      · rw [Bool.eq_false_iff]
        intro hprefix
        obtain ⟨cs, hcs⟩ := List.isPrefixOf_iff_prefix.mp hprefix
        exact hblank cs hcs.symm

theorem of_buildValidatedTriple {subject predicate object : String} {graph : Option String}
    {sent : Triple} (h : buildValidatedTriple u subject predicate object graph = .ok sent) :
    ∃ subjectTerm predicateTerm,
      (RdfTerm.parse u subject.toList = .ok subjectTerm ∧
        subjectTerm.asSubject = .ok sent.subject.toList) ∧
      RdfTerm.parse u predicate.toList = .ok predicateTerm ∧
        predicateTerm.asPredicate = .ok sent.predicate.toList := by
  obtain ⟨subjectTerm, hsubject, h⟩ := exists_of_bind_eq_ok h
  obtain ⟨predicateTerm, hpredicate, h⟩ := exists_of_bind_eq_ok h
  obtain ⟨_, -, h⟩ := exists_of_bind_eq_ok h
  obtain ⟨_, -, h⟩ := exists_of_bind_eq_ok h
  obtain ⟨_, -, h⟩ := exists_of_bind_eq_ok h
  obtain ⟨_, -, h⟩ := exists_of_bind_eq_ok h
  obtain ⟨subjectValue, hsubjectValue, h⟩ := exists_of_bind_eq_ok h
  obtain ⟨predicateValue, hpredicateValue, h⟩ := exists_of_bind_eq_ok h
  cases h
  refine ⟨subjectTerm, predicateTerm, ⟨withContext_eq_ok.mp hsubject, ?_⟩,
    withContext_eq_ok.mp hpredicate, ?_⟩
  · rw [String.toList_ofList]
    exact hsubjectValue
  · rw [String.toList_ofList]
    exact hpredicateValue

theorem subject_of_buildValidatedTriple {subject predicate object : String} {graph : Option String}
    {sent : Triple} (h : buildValidatedTriple u subject predicate object graph = .ok sent) :
    trimmed subject.toList = '<' :: sent.subject.toList ++ ['>'] ∨
      trimmed subject.toList = sent.subject.toList ∧ ['_', ':'] <+: sent.subject.toList := by
  obtain ⟨_, _, ⟨hparse, hvalue⟩, -⟩ := of_buildValidatedTriple h
  exact asSubject_of_parse hparse hvalue

end Arcxa.Governance
