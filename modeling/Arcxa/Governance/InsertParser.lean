import Arcxa.Governance.Routing

/-!
# The INSERT DATA parser

`InsertParser` reads a query in four passes: the prefix declarations before the keyword, the block
between its braces, the tokens of the block, and the triples of the tokens. Texts are lists of
characters, and places in them are bytes: a slice inside a character is a panic.
-/

namespace Arcxa.Governance

open Arcxa.Workflow (isWhitespace)

/-- `str::trim_start`. -/
def trimStart (cs : List Char) : List Char := cs.dropWhile isWhitespace

def toUppercase (u : Unicode) (cs : List Char) : List Char := cs.flatMap u.toUppercase

/-- A slice up to a byte; `none` is a panic. -/
def sliceTo : Nat → List Char → Option (List Char)
  | 0, _ => some []
  | _ + 1, [] => none
  | n + 1, c :: cs =>
    if c.utf8Size ≤ n + 1 then (sliceTo (n + 1 - c.utf8Size) cs).map (c :: ·) else none

structure InsertParser where
  prefixes : BTreeMap String String
  dataBlock : List Char

namespace InsertParser

/-! ## Prefixes -/

def standardPrefixes : BTreeMap String String :=
  .ofList [("owl", "http://www.w3.org/2002/07/owl#"),
    ("rdf", "http://www.w3.org/1999/02/22-rdf-syntax-ns#"),
    ("rdfs", "http://www.w3.org/2000/01/rdf-schema#"),
    ("xsd", "http://www.w3.org/2001/XMLSchema#")]

/-- One round at a text without white space in front: the name and the URI of a declaration, and
how far it reaches. A `>` before the first `<` makes a slice that ends before it starts. -/
def parsePrefix (u : Unicode) (remaining : List Char) :
    Except Failure (Option (String × String × Nat)) :=
  if "PREFIX".toList.isPrefixOf (toUppercase u remaining) then
    match sliceFrom 6 remaining with
    | none => .error .panicked
    | some rest =>
      match splitOnce ':' (trimStart rest) with
      | none => .ok none
      | some (prefixName, afterColon) =>
        match splitOnce '<' (trimStart afterColon), splitOnce '>' (trimStart afterColon) with
        | some (beforeStart, _), some (beforeEnd, _) =>
          if byteLen beforeEnd < byteLen beforeStart then .error .panicked
          else
            .ok (some (String.ofList (trimmed prefixName),
              String.ofList (beforeEnd.drop (beforeStart.length + 1)),
              byteLen remaining - byteLen (trimStart afterColon) + byteLen beforeEnd + 1))
        | _, _ => .ok none
  else .ok none

/-- The loop over the section, of which the part from `current_pos` on is left. The reach of a
declaration counts from where its text starts, `current_pos` from the white space before it. Each
round moves on by a byte or more, so that there are no more rounds than bytes. -/
def prefixRounds (u : Unicode) :
    Nat → List Char → BTreeMap String String → Except Failure (BTreeMap String String)
  | 0, _, prefixes => .ok prefixes
  | rounds + 1, rest, prefixes =>
    if (trimStart rest).isEmpty then .ok prefixes
    else
      match parsePrefix u (trimStart rest) with
      | .error e => .error e
      | .ok (some (prefixName, uri, len)) =>
        match sliceFrom len rest with
        | none => .error .panicked
        | some rest => prefixRounds u rounds rest (prefixes.insert prefixName uri)
      | .ok none =>
        match sliceFrom 1 rest with
        | none => .error .panicked
        | some rest => prefixRounds u rounds rest prefixes

/-- The place of `INSERT` is that in the upper-case text. -/
def extractPrefixes (u : Unicode) (query : List Char) :
    Except Failure (BTreeMap String String × Nat) :=
  match findBytes "INSERT".toList (toUppercase u query) with
  | none => bail "Not an INSERT statement"
  | some insertPos =>
    match sliceTo insertPos query with
    | none => .error .panicked
    | some prefixSection =>
      (prefixRounds u (byteLen prefixSection) prefixSection standardPrefixes).map (·, insertPos)

/-! ## The block -/

/-- The text up to the brace that closes the first one. `brace_count` is an `i32`, of which only
the zero is looked at; a loop that ends at zero without a brace leaves `end` at the first one. -/
def matchBrace : UInt32 → List Char → Except Failure (List Char)
  | braceCount, [] =>
    if braceCount = 0 then .error .panicked else bail "Unbalanced braces in INSERT DATA block"
  | braceCount, ch :: rest =>
    if ch = '\x7b' then (matchBrace (braceCount + 1) rest).map (ch :: ·)
    else if ch = '\x7d' then
      if braceCount - 1 = 0 then .ok [] else (matchBrace (braceCount - 1) rest).map (ch :: ·)
    else (matchBrace braceCount rest).map (ch :: ·)

def extractDataBlock (u : Unicode) (query : List Char) : Except Failure (List Char) :=
  match findBytes "INSERT DATA".toList (toUppercase u query) with
  | none => bail "Not an INSERT DATA statement"
  | some insertPos =>
    match sliceFrom insertPos query with
    | none => .error .panicked
    | some rest =>
      match splitOnce '\x7b' rest with
      | none => bail "Missing opening brace in INSERT DATA"
      | some (_, afterOpen) => (matchBrace 1 afterOpen).map trimmed

/-! ## Tokens -/

structure TokenState where
  current : List Char
  inUri : Bool
  inLiteral : Bool
  escapeNext : Bool

def isBlank (ch : Char) : Bool := ch = ' ' || ch = '\t' || ch = '\n' || ch = '\r'

def isSeparator (ch : Char) : Bool := ch = ';' || ch = ',' || ch = '.'

def flush (current : List Char) : List (List Char) :=
  if current.isEmpty then [] else [trimmed current]

def tokenStep (s : TokenState) (ch : Char) : List (List Char) × TokenState :=
  if s.escapeNext then ([], { s with current := s.current ++ [ch], escapeNext := false })
  else if ch = '\\' && s.inLiteral then
    ([], { s with current := s.current ++ [ch], escapeNext := true })
  else if ch = '<' && !s.inLiteral then (flush s.current, { s with current := [ch], inUri := true })
  else if ch = '>' && s.inUri then
    ([s.current ++ [ch]], { s with current := [], inUri := false })
  else if ch = '"' && !s.inUri then
    if s.inLiteral then ([], { s with current := s.current ++ [ch], inLiteral := false })
    else (flush s.current, { s with current := [ch], inLiteral := true })
  else if isBlank ch && !s.inUri && !s.inLiteral then (flush s.current, { s with current := [] })
  else if isSeparator ch && !s.inUri && !s.inLiteral then
    (flush s.current ++ [[ch]], { s with current := [] })
  else ([], { s with current := s.current ++ [ch] })

def tokenizeFrom : TokenState → List Char → List (List Char)
  | s, [] => flush s.current
  | s, ch :: data => (tokenStep s ch).1 ++ tokenizeFrom (tokenStep s ch).2 data

def tokenize (data : List Char) : List (List Char) := tokenizeFrom ⟨[], false, false, false⟩ data

/-! ## Triples -/

def expandTerm (prefixes : BTreeMap String String) (term : List Char) : Except Failure String :=
  let term := trimmed term
  if term.head? = some '<' ∧ term.getLast? = some '>' then .ok (String.ofList term)
  else if term.head? = some '"' then .ok (String.ofList term)
  else
    match splitOnce ':' term with
    | some (pfx, localName) =>
      match prefixes.get (String.ofList pfx) with
      | some baseUri => .ok ("<" ++ baseUri ++ String.ofList localName ++ ">")
      | none => bail ("Undefined prefix: " ++ String.ofList pfx)
    | none =>
      if "_:".toList.isPrefixOf term then .ok (String.ofList term)
      else bail ("Invalid RDF term: " ++ String.ofList term)

/-- What the loops over the tokens look for next. -/
inductive Expecting where
  | subject
  | predicate (subject : String)
  | object (subject predicate : String)

/-- The three loops of `extract_triples`. Without a separator after an object the subject goes on,
and where a predicate should be, a period ends it. -/
def collectTriples (prefixes : BTreeMap String String) :
    Expecting → List (List Char) → Except Failure (List RawTriple)
  | _, [] => .ok []
  | .subject, token :: tokens =>
    if token = ['.'] then collectTriples prefixes .subject tokens
    else do
      let subject ← expandTerm prefixes token
      collectTriples prefixes (.predicate subject) tokens
  | .predicate subject, token :: tokens =>
    if token = ['.'] then collectTriples prefixes .subject tokens
    else do
      let predicate ← expandTerm prefixes token
      collectTriples prefixes (.object subject predicate) tokens
  | .object subject predicate, [token] =>
    (expandTerm prefixes token).map fun object => [(subject, predicate, object)]
  | .object subject predicate, token :: next :: tokens =>
    match expandTerm prefixes token with
    | .error e => .error e
    | .ok object =>
      (if next = [','] then collectTriples prefixes (.object subject predicate) tokens
      else if next = [';'] then collectTriples prefixes (.predicate subject) tokens
      else if next = ['.'] then collectTriples prefixes .subject tokens
      else collectTriples prefixes (.predicate subject) (next :: tokens)).map
        ((subject, predicate, object) :: ·)

/-! ## The parser -/

def new (u : Unicode) (query : List Char) : Except Failure InsertParser := do
  let query := trimmed query
  let (prefixes, dataStart) ← extractPrefixes u query
  match sliceFrom dataStart query with
  | none => .error .panicked
  | some rest =>
    let dataBlock ← extractDataBlock u rest
    pure { prefixes, dataBlock }

def extractTriples (parser : InsertParser) : Except Failure (List RawTriple) :=
  collectTriples parser.prefixes .subject (tokenize parser.dataBlock)

/-- `new`, followed by `extract_triples`. -/
def parse (u : Unicode) (query : List Char) : Except Failure (List RawTriple) := do
  let parser ← new u query
  parser.extractTriples

end InsertParser

end Arcxa.Governance
