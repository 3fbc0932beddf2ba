import Arcxa.Governance.InsertPrologue
import Arcxa.Governance.InsertTriples

/-!
# INSERT DATA is read back

`parse` returns the triples that a clean query stands for (`parse_text`). The keyword and the braces
are found where they are, the prefix loop gives the last declaration of every prefix, the tokens are
those that the block was written from, and the loops over them give the triples of its statements.
Blank nodes are what no query can have: their branch is never reached.
-/

namespace Arcxa.Governance.Sparql

open Arcxa.Workflow (isWhitespace)
open InsertParser

/-! ## The ends of the texts -/

theorem isWhitespace_of_head_token (t : Token) : ∀ c ∈ t.text.head?, isWhitespace c = false := by
  intro c hc
  cases t with
  | term t => exact isWhitespace_of_head_term t c hc
  | _ =>
    cases hc
    decide

theorem isWhitespace_of_last_token (t : Token) : ∀ c ∈ t.text.getLast?, isWhitespace c = false := by
  intro c hc
  cases t with
  | term t => exact isWhitespace_of_last_term t c hc
  | _ =>
    cases hc
    decide

theorem Token.text_ne_nil (t : Token) : t.text ≠ [] := by
  cases t with
  | term t => cases t <;> simp [Token.text, Term.text]
  | _ => exact List.cons_ne_nil _ _

theorem isWhitespace_of_last_pieces (pieces : List (Gap × Token)) :
    ∀ c ∈ (pieces.flatMap fun p => p.1.chars ++ p.2.text).getLast?, isWhitespace c = false := by
  induction pieces with
  | nil => exact nofun
  | cons p pieces ih =>
    intro c hc
    rw [List.flatMap_cons, List.getLast?_append, List.getLast?_append, Option.mem_def,
      Option.or_eq_some_iff, Option.or_eq_some_iff] at hc
    rcases hc with hlast | ⟨-, htoken | ⟨hnone, -⟩⟩
    · exact ih c hlast
    · exact isWhitespace_of_last_token p.2 c htoken
    · exact absurd (List.getLast?_eq_none_iff.mp hnone) p.2.text_ne_nil

def Gap.none : Gap := ⟨[], nofun⟩

/-- **The tokens of a block**, which is trimmed before it is read. -/
theorem tokenize_block {pieces : List (Gap × Token)}
    (hwhole : ∀ p ∈ pieces, ∀ t, p.2 = .term t → t.Whole)
    (hseparated : pieces.IsChain fun p q => q.1.chars ≠ [] ∨ p.2.touches q.2 = true)
    (afterLast : Gap) :
    tokenize (trimmed (pieces.flatMap (fun p => p.1.chars ++ p.2.text) ++ afterLast.chars)) =
      pieces.map (·.2.text) := by
  cases pieces with
  | nil =>
    have htrim : trimmed ([] ++ afterLast.chars) = [] :=
      @trimmed_append [] [] afterLast.chars nofun afterLast.blank nofun nofun
    rw [List.flatMap_nil, htrim]
    rfl
  | cons p pieces =>
    have hhead : ∀ c ∈ (p.2.text ++ pieces.flatMap fun p => p.1.chars ++ p.2.text).head?,
        isWhitespace c = false := by
      intro c hc
      rw [List.head?_append_of_ne_nil _ p.2.text_ne_nil] at hc
      exact isWhitespace_of_head_token p.2 c hc
    have htrim := trimmed_append p.1.blank afterLast.blank hhead
      (isWhitespace_of_last_pieces ((Gap.none, p.2) :: pieces))
    -- without the white space before the first token
    have hread : tokenizeFrom (inHand [])
        (((Gap.none, p.2) :: pieces).flatMap (fun p => p.1.chars ++ p.2.text) ++ Gap.none.chars) =
          flush [] ++ ((Gap.none, p.2) :: pieces).map (·.2.text) := by
      refine tokenizeFrom_pieces ?_ ?_ Gap.none fun _ _ => .inl rfl
      · simpa using hwhole
      · simpa [List.isChain_cons] using hseparated
    have hnone : Gap.none.chars = [] := rfl
    rw [hnone, List.append_nil] at hread
    rw [List.flatMap_cons, List.append_assoc p.1.chars, htrim]
    exact hread

/-! ## The query -/

section Query

variable (q : InsertData)

def InsertData.core : List Char :=
  prologue q.decls ++ ("INSERT".toList ++ (q.beforeData.chars ++ ("DATA".toList ++
    (q.beforeBrace.chars ++ '\x7b' :: (q.block ++ ['\x7d'])))))

theorem isWhitespace_of_head_core : ∀ c ∈ q.core.head?, isWhitespace c = false := by
  intro c hc
  rw [InsertData.core] at hc
  cases hdecls : q.decls with
  | nil =>
    rw [hdecls] at hc
    cases hc
    decide
  | cons d decls =>
    rw [hdecls, prologue, List.flatMap_cons, List.append_assoc, List.append_assoc] at hc
    exact isWhitespace_of_head_text d _ c hc

theorem trimmed_query : trimmed q.text = q.core := by
  have hsplit : q.text = q.before.chars ++ q.core ++ q.after.chars := by
    unfold InsertData.text InsertData.core
    generalize "INSERT".toList = insert
    generalize "DATA".toList = data
    simp
  have hlast : ∀ c ∈ q.core.getLast?, isWhitespace c = false := by
    obtain ⟨before, hbefore⟩ : ∃ before, q.core = before ++ ['\x7d'] := by
      refine ⟨prologue q.decls ++ ("INSERT".toList ++ (q.beforeData.chars ++ ("DATA".toList ++
        (q.beforeBrace.chars ++ '\x7b' :: q.block)))), ?_⟩
      simp only [InsertData.core, List.append_assoc, List.cons_append]
    intro c hc
    rw [hbefore, List.getLast?_concat] at hc
    cases hc
    decide
  rw [hsplit]
  exact trimmed_append q.before.blank q.after.blank (isWhitespace_of_head_core q) hlast

end Query

variable {u : Unicode} {q : InsertData}

theorem new_text (hu : ∀ c : Char, c.toNat < 128 → u.toUppercase c = [c.toUpper])
    (hclean : q.Clean u) :
    InsertParser.new u q.text = .ok ⟨declare standardPrefixes q.decls, trimmed q.block⟩ := by
  have hkeyword : "INSERT".toList ++ ([' '] ++ ("DATA".toList ++
      (q.beforeBrace.chars ++ '\x7b' :: (q.block ++ ['\x7d'])))) =
        "INSERT DATA".toList ++ (q.beforeBrace.chars ++ '\x7b' :: (q.block ++ ['\x7d'])) := by
    have hjoin : "INSERT DATA".toList = "INSERT".toList ++ ([' '] ++ "DATA".toList) := by decide
    rw [hjoin, List.append_assoc, List.append_assoc]
  have hprefixes := extractPrefixes_text hu hclean.again hclean.keyword.1 hclean.keyword.2
    ([' '] ++ ("DATA".toList ++ (q.beforeBrace.chars ++ '\x7b' :: (q.block ++ ['\x7d']))))
  have hblock := extractDataBlock_text hu q.beforeBrace.blank hclean.balanced []
  have hrest : sliceFrom (byteLen (prologue q.decls)) (prologue q.decls ++ ("INSERT".toList ++
      ([' '] ++ ("DATA".toList ++ (q.beforeBrace.chars ++ '\x7b' :: (q.block ++ ['\x7d'])))))) =
        some ("INSERT DATA".toList ++ (q.beforeBrace.chars ++ '\x7b' :: (q.block ++ ['\x7d']))) := by
    rw [sliceFrom_append, hkeyword]
  rw [InsertParser.new, trimmed_query, InsertData.core, hclean.oneSpace, hprefixes]
  simp only [bind, Except.bind, hrest, hblock]
  rfl

/-- **`parse` returns the triples that a clean query stands for**, in order. -/
theorem parse_text (hu : ∀ c : Char, c.toNat < 128 → u.toUppercase c = [c.toUpper])
    (hclean : q.Clean u) : InsertParser.parse u q.text = .ok q.triples := by
  have hresolves : Resolves q.decls (declare standardPrefixes q.decls) := get_declare q.decls
  have hreadable : ∀ t, .term t ∈ blockTokens q.lastDot q.statements → t.Readable q.decls := by
    intro t ht
    rw [← q.spelled] at ht
    obtain ⟨p, hp, hterm⟩ := List.mem_map.mp ht
    exact ⟨hclean.whole p hp t hterm, q.declared p hp t hterm⟩
  have htokens : q.pieces.map (·.2.text) =
      (blockTokens q.lastDot q.statements).map Token.text := by
    rw [← q.spelled, List.map_map]
    rfl
  rw [InsertParser.parse, new_text hu hclean]
  show collectTriples _ .subject (tokenize (trimmed q.block)) = _
  rw [InsertData.block, tokenize_block hclean.whole q.separated, htokens,
    collect_block hresolves hreadable]
  rfl

/-! ## Two queries -/

theorem asciiTables_toUpper (c : Char) (_ : c.toNat < 128) :
    asciiTables.toUppercase c = [c.toUpper] := rfl

theorem forall_mem_of_all {p : Char → Prop} [DecidablePred p] {cs : List Char}
    (h : cs.all (fun c => p c) = true) : ∀ c ∈ cs, p c := by
  intro c hc
  exact of_decide_eq_true (List.all_eq_true.mp h c hc)

def Gap.space : Gap := ⟨[' '], forall_mem_of_all (by decide)⟩

def exampleLabel : Label := ⟨"ex".toList, forall_mem_of_all (by decide)⟩

def exampleIri : Iri := ⟨"http://example.com/".toList, forall_mem_of_all (by decide)⟩

/-- `ex:s <http://example.com/> "{1.0}"@en , "1"^^xsd:int .` -/
def sampleStatement : Statement where
  subject := .prefixed exampleLabel ⟨"s".toList, forall_mem_of_all (by decide)⟩
  property :=
    { predicate := .iri exampleIri
      object := .literal "\x7b1.0\x7d".toList (by decide)
        (.lang ⟨"en".toList, forall_mem_of_all (by decide)⟩)
      more := [.literal "1".toList (by decide)
        (.datatypeName ⟨"xsd".toList, forall_mem_of_all (by decide)⟩
          ⟨"int".toList, forall_mem_of_all (by decide)⟩)] }
  more := []

def sampleInsert : InsertData where
  before := .none
  decls := [⟨.space, by decide, exampleLabel, .space, exampleIri, .space⟩,
    ⟨.space, by decide, ⟨"a".toList, forall_mem_of_all (by decide)⟩, .none, exampleIri, .space⟩]
  beforeData := .space
  beforeData_ne := by decide
  beforeBrace := .space
  statements := [sampleStatement]
  lastDot := true
  pieces := (blockTokens true [sampleStatement]).map (Gap.space, ·)
  spelled := rfl
  separated := by decide
  declared := by
    intro p hp t ht label hlabel
    have hnames : ∀ p ∈ (blockTokens true [sampleStatement]).map (Gap.space, ·), ∀ t,
        p.2 = .term t → ∀ label ∈ t.prefix?, label = exampleLabel := by
      simp [blockTokens, sampleStatement, Statement.tokens, Property.tokens, Term.prefix?]
    rw [hnames p hp t ht label hlabel]
    decide
  afterLast := .space
  after := .none

theorem clean_sampleInsert : sampleInsert.Clean asciiTables where
  keyword := by decide +kernel
  oneSpace := rfl
  again := by decide +kernel
  balanced := by decide +kernel
  whole := by
    simp [sampleInsert, blockTokens, sampleStatement, Statement.tokens, Property.tokens, Term.Whole]
    decide

theorem parse_text_sample :
    InsertParser.parse asciiTables sampleInsert.text = .ok sampleInsert.triples :=
  parse_text asciiTables_toUpper clean_sampleInsert

/-- `_:b <http://example.com/> "v" .` -/
def blankStatement : Statement where
  subject := .blank ⟨"b".toList, forall_mem_of_all (by decide)⟩
  property :=
    { predicate := .iri exampleIri
      object := .literal "v".toList (by decide) .none
      more := [] }
  more := []

def blankInsert : InsertData where
  before := .none
  decls := []
  beforeData := .space
  beforeData_ne := by decide
  beforeBrace := .space
  statements := [blankStatement]
  lastDot := true
  pieces := (blockTokens true [blankStatement]).map (Gap.space, ·)
  spelled := rfl
  separated := by decide
  declared := by
    simp [blockTokens, blankStatement, Statement.tokens, Property.tokens, Term.prefix?]
  afterLast := .space
  after := .none

/-- A blank node is looked up as a name with the prefix `_`. -/
theorem blank_not_parsed : ¬ ∀ u : Unicode,
    (∀ c : Char, c.toNat < 128 → u.toUppercase c = [c.toUpper]) →
      ∀ q : InsertData, InsertParser.parse u q.text = .ok q.triples := by
  intro h
  have hparse := h asciiTables asciiTables_toUpper blankInsert
  have hnone : (InsertParser.parse asciiTables blankInsert.text).toOption = none := by
    decide +kernel
  rw [hparse] at hnone
  cases hnone

end Arcxa.Governance.Sparql
