import Arcxa.Governance.InsertParser

/-!
# What an INSERT DATA query means

The queries that the parser supports, as they are built, with the white space between their parts,
and the triples that each of them stands for. A term stands for itself, a prefixed name for the IRI
that its prefix was last declared with.

`Clean` says which queries the parser reads right. Its four passes each look at characters without
regard to what they are part of, and the declaration loop goes back over a text that is as long as
the white space before it.
-/

namespace Arcxa.Governance.Sparql

open Arcxa.Workflow (isWhitespace)
open InsertParser (isBlank standardPrefixes)

/-! ## Terms -/

def isIriChar (c : Char) : Bool :=
  32 < c.toNat && !("<>\"\x7b\x7d|^\\".toList.contains c || c.toNat = 96)

/-- The characters of names; those of `PN_CHARS`, and some more. -/
def isNameChar (c : Char) : Bool := isIriChar c && !isWhitespace c && !(c = ',' || c = ';')

/-- White space, possibly none. -/
structure Gap where
  chars : List Char
  blank : ∀ c ∈ chars, isBlank c = true

structure Iri where
  chars : List Char
  plain : ∀ c ∈ chars, isIriChar c = true

/-- The prefix of a name, which may be empty. -/
structure Label where
  chars : List Char
  plain : ∀ c ∈ chars, isNameChar c = true ∧ c ≠ ':'

/-- The local part of a name, or the label of a blank node. -/
structure LocalName where
  chars : List Char
  plain : ∀ c ∈ chars, isNameChar c = true

structure LangTag where
  chars : List Char
  plain : ∀ c ∈ chars, isNameChar c = true ∧ c ≠ '.'

def isEscaped : List Char → Bool
  | [] => true
  | c :: cs =>
    if c = '\\' then
      match cs with
      | [] => false
      | _ :: cs => isEscaped cs
    else c ≠ '"' && isEscaped cs

/-- What stands behind the closing quote of a literal. -/
inductive Suffix where
  | none
  | lang (tag : LangTag)
  | datatypeIri (iri : Iri)
  | datatypeName (label : Label) (name : LocalName)

def Suffix.text : Suffix → List Char
  | .none => []
  | .lang tag => '@' :: tag.chars
  | .datatypeIri iri => '^' :: '^' :: '<' :: iri.chars ++ ['>']
  | .datatypeName label name => '^' :: '^' :: label.chars ++ ':' :: name.chars

inductive Term where
  | iri (iri : Iri)
  | prefixed (label : Label) (name : LocalName)
  | blank (label : LocalName)
  | literal (content : List Char) (escaped : isEscaped content = true) (suffix : Suffix)

def Term.text : Term → List Char
  | .iri i => '<' :: i.chars ++ ['>']
  | .prefixed label name => label.chars ++ ':' :: name.chars
  | .blank label => '_' :: ':' :: label.chars
  | .literal content _ suffix => '"' :: content ++ '"' :: suffix.text

/-! ## Statements -/

structure Property where
  predicate : Term
  object : Term
  /-- Behind commas. -/
  more : List Term

structure Statement where
  subject : Term
  property : Property
  /-- Behind semicolons. -/
  more : List Property

inductive Token where
  | term (t : Term)
  | comma
  | semicolon
  | dot

def Token.text : Token → List Char
  | .term t => t.text
  | .comma => [',']
  | .semicolon => [';']
  | .dot => ['.']

def Property.tokens (p : Property) : List Token :=
  .term p.predicate :: .term p.object :: p.more.flatMap fun o => [.comma, .term o]

def Statement.tokens (s : Statement) : List Token :=
  .term s.subject :: s.property.tokens ++ s.more.flatMap fun p => .semicolon :: p.tokens

def blockTokens (lastDot : Bool) : List Statement → List Token
  | [] => []
  | [s] => s.tokens ++ if lastDot then [.dot] else []
  | s :: ss => s.tokens ++ .dot :: blockTokens lastDot ss

def Token.touches : Token → Token → Bool
  | .term (.iri _), .term _ => true
  | .term _, .term (.iri _) => true
  | .term _, .term (.literal ..) => true
  | .term _, .term _ => false
  | _, _ => true

/-! ## Queries -/

structure PrefixDecl where
  beforeName : Gap
  beforeName_ne : beforeName.chars ≠ []
  label : Label
  beforeIri : Gap
  iri : Iri
  after : Gap

def PrefixDecl.text (d : PrefixDecl) : List Char :=
  "PREFIX".toList ++ d.beforeName.chars ++ d.label.chars ++ ':' :: d.beforeIri.chars ++
    '<' :: d.iri.chars ++ ['>']

def prologue (decls : List PrefixDecl) : List Char := decls.flatMap fun d => d.text ++ d.after.chars

def resolve (decls : List PrefixDecl) (label : List Char) : Option String :=
  match decls.reverse.find? fun d => d.label.chars = label with
  | some d => some (String.ofList d.iri.chars)
  | none => standardPrefixes.get (String.ofList label)

def Term.prefix? : Term → Option Label
  | .prefixed label _ => some label
  | _ => none

structure InsertData where
  before : Gap
  decls : List PrefixDecl
  /-- Between `INSERT` and `DATA`. -/
  beforeData : Gap
  beforeData_ne : beforeData.chars ≠ []
  beforeBrace : Gap
  statements : List Statement
  lastDot : Bool
  /-- The tokens of the block, each with the white space before it. -/
  pieces : List (Gap × Token)
  spelled : pieces.map (·.2) = blockTokens lastDot statements
  separated : pieces.IsChain fun p q => q.1.chars ≠ [] ∨ p.2.touches q.2 = true
  declared : ∀ p ∈ pieces, ∀ t, p.2 = .term t → ∀ label ∈ t.prefix?,
    (resolve decls label.chars).isSome
  afterLast : Gap
  after : Gap

namespace InsertData

variable (q : InsertData)

def block : List Char :=
  q.pieces.flatMap (fun p => p.1.chars ++ p.2.text) ++ q.afterLast.chars

def text : List Char :=
  q.before.chars ++ prologue q.decls ++ "INSERT".toList ++ q.beforeData.chars ++ "DATA".toList ++
    q.beforeBrace.chars ++ '\x7b' :: q.block ++ '\x7d' :: q.after.chars

end InsertData

/-! ## Meaning -/

def Term.value (decls : List PrefixDecl) : Term → String
  | .prefixed label name =>
    "<" ++ (resolve decls label.chars).getD "" ++ String.ofList name.chars ++ ">"
  | t => String.ofList t.text

def Property.triples (decls : List PrefixDecl) (subject : Term) (p : Property) : List RawTriple :=
  (p.object :: p.more).map fun o => (subject.value decls, p.predicate.value decls, o.value decls)

def Statement.triples (decls : List PrefixDecl) (s : Statement) : List RawTriple :=
  (s.property :: s.more).flatMap (Property.triples decls s.subject)

def InsertData.triples (q : InsertData) : List RawTriple :=
  q.statements.flatMap (Statement.triples q.decls)

/-! ## Clean queries -/

/-- The term is read as one token: it is no blank node, has no datatype in angle brackets, and no
dot in a name. -/
def Term.Whole : Term → Prop
  | .iri _ => True
  | .prefixed label name => '.' ∉ label.chars ∧ '.' ∉ name.chars
  | .blank _ => False
  | .literal _ _ (.datatypeIri _) => False
  | .literal _ _ (.datatypeName label name) => '.' ∉ label.chars ∧ '.' ∉ name.chars
  | .literal .. => True

/-- The end of a declaration that is gone over again: as many bytes as there is white space before
the declaration, less the declaration's own length as often as it fits. -/
def PrefixDecl.again (d : PrefixDecl) (w : Nat) : List Char :=
  d.text.drop (d.text.length - w % byteLen d.text)

/-- What is gone over again is ASCII and has no `PREFIX` in it. -/
def AgainPlain : Nat → List PrefixDecl → Prop
  | _, [] => True
  | w, d :: ds =>
    ((∀ c ∈ d.again w, c.toNat < 128) ∧ ¬ "PREFIX".toList <:+: (d.again w).map Char.toUpper) ∧
      AgainPlain d.after.chars.length ds

instance decidableAgainPlain : ∀ w decls, Decidable (AgainPlain w decls)
  | _, [] => inferInstanceAs (Decidable True)
  | w, d :: ds =>
    -- not by going through all characters
    have : Decidable (∀ c ∈ d.again w, c.toNat < 128) := List.decidableBAll _ _
    have := decidableAgainPlain d.after.chars.length ds
    inferInstanceAs (Decidable (((∀ c ∈ d.again w, c.toNat < 128) ∧ ¬ _) ∧ AgainPlain _ ds))

def depth (cs : List Char) : UInt32 :=
  UInt32.ofNat (cs.count '\x7b') - UInt32.ofNat (cs.count '\x7d')

/-- No closing brace closes more than the text has opened, and all that it has opened is closed. -/
def Balanced (cs : List Char) : Prop :=
  (∀ pre ∈ cs.inits, pre ++ ['\x7d'] <+: cs → depth pre ≠ 0) ∧ depth cs = 0

instance (cs : List Char) : Decidable (Balanced cs) :=
  inferInstanceAs (Decidable ((∀ pre ∈ cs.inits, _ → depth pre ≠ 0) ∧ depth cs = 0))

/-- The queries that no pass cuts at a wrong place. -/
structure InsertData.Clean (u : Unicode) (q : InsertData) : Prop where
  /-- The keyword is at the same byte in upper case, and the first of its kind. -/
  keyword : byteLen (toUppercase u (prologue q.decls)) = byteLen (prologue q.decls) ∧
    ¬ "INSERT".toList <:+: toUppercase u (prologue q.decls)
  oneSpace : q.beforeData.chars = [' ']
  again : AgainPlain 0 q.decls
  balanced : Balanced q.block
  whole : ∀ p ∈ q.pieces, ∀ t, p.2 = .term t → t.Whole

end Arcxa.Governance.Sparql
