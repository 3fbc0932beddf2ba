import Arcxa.Governance.InsertTokens

/-!
# Literals, written and read

A literal stands between quotes, with a backslash in front of the characters that would end it or
would not show, and its datatype or its language behind the closing quote. What is written so is
read back (`parse_literalText_iff`). The state machine that looks for the closing quote stops at the
end of the text too, and whether it found one is judged by the last character it has collected: an
escaped quote at the end passes for the closing one, and so does the opening quote on its own.
-/

namespace Arcxa.Governance

open Sparql (isEscaped trimmed_self)
open Arcxa.Workflow (isWhitespace)
open RdfTerm

/-! ## Writing -/

namespace RdfTerm

def escapeChar (c : Char) : List Char :=
  if c = '"' then ['\\', '"']
  else if c = '\\' then ['\\', '\\']
  else if c = '\n' then ['\\', 'n']
  else if c = '\t' then ['\\', 't']
  else if c = '\r' then ['\\', 'r']
  else if c = Char.ofNat 8 then ['\\', 'b']
  else if c = Char.ofNat 12 then ['\\', 'f']
  else [c]

def escape (value : List Char) : List Char := value.flatMap escapeChar

end RdfTerm

/-- What a literal has besides its value. -/
inductive LiteralKind where
  | none
  | datatype (iri : List Char)
  | language (tag : List Char)

namespace LiteralKind

def text : LiteralKind → List Char
  | .none => []
  | .datatype iri => '^' :: '^' :: '<' :: iri ++ ['>']
  | .language tag => '@' :: tag

def datatypeOf : LiteralKind → List Char
  | .datatype iri => iri
  | _ => []

def languageOf : LiteralKind → List Char
  | .language tag => tag
  | _ => []

def Valid : LiteralKind → Prop
  | .language tag => isValidLanguageTag tag = true
  | _ => True

end LiteralKind

def literalText (value : List Char) (kind : LiteralKind) : List Char :=
  '"' :: RdfTerm.escape value ++ '"' :: kind.text

def HasClosingQuote (input : List Char) : Prop :=
  ∃ body rest, isEscaped body = true ∧ input = '"' :: body ++ '"' :: rest

def EndsInOtherQuote (input : List Char) : Prop :=
  input = ['"'] ∨ ∃ body, isEscaped body = true ∧ input = '"' :: body ++ ['\\', '"']

/-! ## Escapes -/

namespace RdfTerm

theorem unescape_escapeChar (c : Char) (cs : List Char) :
    unescape (escapeChar c ++ cs) = c :: unescape cs := by
  unfold escapeChar
  split_ifs with hquote hbackslash hnewline htab hreturn hbackspace hfeed
  · rw [hquote]
    rfl
  · rw [hbackslash]
    rfl
  · rw [hnewline]
    rfl
  · rw [htab]
    rfl
  · rw [hreturn]
    rfl
  · rw [hbackspace]
    rfl
  · rw [hfeed]
    rfl
  · rw [List.singleton_append, unescape]
    · intro h
      exact absurd h hbackslash
    · intro d ds h
      exact absurd h hbackslash

/-- **Unescaping undoes escaping.** -/
theorem unescape_escape (value : List Char) : unescape (escape value) = value := by
  induction value with
  | nil => rfl
  | cons c value ih =>
    rw [escape, List.flatMap_cons, unescape_escapeChar]
    exact congrArg (c :: ·) ih

end RdfTerm

theorem isEscaped_cons_of_ne {c : Char} (hbackslash : c ≠ '\\') (cs : List Char) :
    isEscaped (c :: cs) = (decide (c ≠ '"') && isEscaped cs) := by
  conv_lhs => unfold isEscaped
  exact if_neg hbackslash

theorem isEscaped_cons {c : Char} (hquote : c ≠ '"') (hbackslash : c ≠ '\\') (cs : List Char) :
    isEscaped (c :: cs) = isEscaped cs := by
  rw [isEscaped_cons_of_ne hbackslash, decide_eq_true hquote, Bool.true_and]

variable {body : List Char}

theorem isEscaped_append (h : isEscaped body = true) (cs : List Char) :
    isEscaped (body ++ cs) = isEscaped cs := by
  induction body using Sparql.isEscaped.induct with
  | case1 => rfl
  | case2 => cases h
  | case3 d body ih => exact ih h
  | case4 c body hc ih =>
    rw [isEscaped_cons_of_ne hc, Bool.and_eq_true, decide_eq_true_eq] at h
    rw [List.cons_append, isEscaped_cons h.1 hc]
    exact ih h.2

variable (value : List Char)

theorem isEscaped_escape : isEscaped (RdfTerm.escape value) = true := by
  induction value with
  | nil => rfl
  | cons c value ih =>
    have hchar : isEscaped (escapeChar c) = true := by
      unfold escapeChar
      split_ifs with hquote hbackslash
      · rfl
      · rfl
      · rfl
      · rfl
      · rfl
      · rfl
      · rfl
      · rw [isEscaped_cons hquote hbackslash]
        rfl
    rw [escape, List.flatMap_cons, isEscaped_append hchar]
    exact ih

/-! ## The state machine -/

theorem readQuoted_append (h : isEscaped body = true) (cs : List Char) :
    readQuoted false (body ++ cs) =
      (body ++ (readQuoted false cs).1, (readQuoted false cs).2) := by
  induction body using Sparql.isEscaped.induct with
  | case1 => rfl
  | case2 => cases h
  | case3 d body ih =>
    have hbody : isEscaped body = true := h
    rw [List.cons_append, List.cons_append, readQuoted, if_neg (by decide)]
    simp only [beq_self_eq_true, readQuoted, ih hbody, List.cons_append]
  | case4 c body hc ih =>
    rw [isEscaped_cons_of_ne hc, Bool.and_eq_true, decide_eq_true_eq] at h
    rw [List.cons_append, readQuoted, if_neg h.1, beq_eq_false_iff_ne.mpr hc]
    simp only [ih h.2, List.cons_append]

theorem readQuoted_closed (h : isEscaped body = true) (rest : List Char) :
    readQuoted false (body ++ '"' :: rest) = (body ++ ['"'], rest) := by
  rw [readQuoted_append h]
  rfl

theorem body_cases (cs : List Char) :
    (∃ body rest, isEscaped body = true ∧ cs = body ++ '"' :: rest) ∨ isEscaped cs = true ∨
      ∃ body, isEscaped body = true ∧ cs = body ++ ['\\'] := by
  induction cs using Sparql.isEscaped.induct with
  | case1 => exact .inr (.inl rfl)
  | case2 => exact .inr (.inr ⟨[], rfl, rfl⟩)
  | case3 d cs ih =>
    rcases ih with ⟨body, rest, hbody, rfl⟩ | hcs | ⟨body, hbody, rfl⟩
    · exact .inl ⟨'\\' :: d :: body, rest, hbody, rfl⟩
    · exact .inr (.inl hcs)
    · exact .inr (.inr ⟨'\\' :: d :: body, hbody, rfl⟩)
  | case4 c cs hc ih =>
    by_cases hquote : c = '"'
    · exact .inl ⟨[], cs, rfl, by rw [hquote]; rfl⟩
    · have hcons := isEscaped_cons hquote hc
      rcases ih with ⟨body, rest, hbody, rfl⟩ | hcs | ⟨body, hbody, rfl⟩
      · exact .inl ⟨c :: body, rest, (hcons body).trans hbody, rfl⟩
      · exact .inr (.inl ((hcons cs).trans hcs))
      · exact .inr (.inr ⟨c :: body, (hcons body).trans hbody, rfl⟩)

theorem eq_append_of_getLast? {cs : List Char} (h : isEscaped cs = true)
    (hlast : cs.getLast? = some '"') :
    ∃ body, isEscaped body = true ∧ cs = body ++ ['\\', '"'] := by
  induction cs using Sparql.isEscaped.induct with
  | case1 => cases hlast
  | case2 => cases h
  | case3 d cs ih =>
    have hcs : isEscaped cs = true := h
    cases cs with
    | nil =>
      cases hlast
      exact ⟨[], rfl, rfl⟩
    | cons e cs =>
      rw [List.getLast?_cons_cons, List.getLast?_cons_cons] at hlast
      obtain ⟨body, hbody, heq⟩ := ih hcs hlast
      exact ⟨'\\' :: d :: body, hbody, by rw [heq]; rfl⟩
  | case4 c cs hc ih =>
    rw [isEscaped_cons_of_ne hc, Bool.and_eq_true, decide_eq_true_eq] at h
    cases cs with
    | nil =>
      cases hlast
      exact absurd rfl h.1
    | cons e cs =>
      rw [List.getLast?_cons_cons] at hlast
      obtain ⟨body, hbody, heq⟩ := ih h.2 hlast
      exact ⟨c :: body, (isEscaped_cons h.1 hc body).trans hbody, by rw [heq]; rfl⟩

theorem not_hasClosingQuote {cs : List Char}
    (h : isEscaped cs = true ∨ ∃ body, isEscaped body = true ∧ cs = body ++ ['\\']) :
    ¬ HasClosingQuote ('"' :: cs) := by
  rintro ⟨body, rest, hbody, heq⟩
  obtain rfl : cs = body ++ '"' :: rest := (List.cons.inj heq).2
  have hquote : isEscaped ('"' :: rest) = false := isEscaped_cons_of_ne (by decide) rest
  rcases h with hcs | ⟨body', hbody', hcs⟩
  · rw [isEscaped_append hbody, hquote] at hcs
    cases hcs
  · -- the machine has read the whole text, and not only up to the quote
    have hread := readQuoted_closed hbody rest
    rw [hcs, readQuoted_append hbody'] at hread
    obtain ⟨hfirst, -⟩ := Prod.mk.inj hread
    have hlast := congrArg List.getLast? hfirst
    rw [List.getLast?_concat, show (readQuoted false ['\\']).1 = ['\\'] from rfl,
      List.getLast?_concat] at hlast
    cases hlast

/-! ## Reading -/

theorem inner_append (first last : Char) (cs : List Char) :
    inner (first :: cs ++ [last]) = some cs := by
  cases cs with
  | nil => rfl
  | cons c cs =>
    show some ((c :: cs ++ [last]).dropLast) = _
    rw [List.dropLast_concat]

theorem isWhitespace_of_isValidLanguageTag {tag : List Char} (h : isValidLanguageTag tag = true)
    {c : Char} (hc : c ∈ tag) : isWhitespace c = false := by
  have hspace : ∀ {d : Char}, d.isAlphanum = true → isWhitespace d = false := by
    intro d hd
    by_contra hwhite
    rw [Bool.not_eq_false] at hwhite
    simp only [isWhitespace, Bool.or_eq_true, Bool.and_eq_true, decide_eq_true_eq] at hwhite
    have := toNat_of_isAlphanum hd
    omega
  by_cases hsep : c = '-'
  · rw [hsep]
    decide
  obtain ⟨part, hpart, hmem⟩ := mem_splitOn_of_mem hc hsep
  unfold isValidLanguageTag at h
  split at h
  · rename_i hnil
    rw [hnil] at hpart
    cases hpart
  · rename_i primary subtags hparts
    rw [hparts] at hpart
    simp only [Bool.and_eq_true] at h
    obtain ⟨⟨-, halpha⟩, hsubtags⟩ := h
    rcases List.mem_cons.mp hpart with rfl | hsub
    · have hletter := List.all_eq_true.mp halpha c hmem
      exact hspace (by rw [Char.isAlphanum, hletter, Bool.true_or])
    · have hsubtag := List.all_eq_true.mp hsubtags part hsub
      rw [Bool.and_eq_true] at hsubtag
      exact hspace (List.all_eq_true.mp hsubtag.2 c hmem)

variable {kind : LiteralKind}

theorem trimmed_literalText (hlast : ∀ c ∈ kind.text.getLast?, isWhitespace c = false) :
    trimmed (literalText value kind) = literalText value kind := by
  apply trimmed_self
  · intro c hc
    cases hc
    decide
  · intro c hc
    rw [literalText, List.getLast?_append, List.getLast?_cons, Option.mem_def, Option.some_or,
      Option.some.injEq] at hc
    cases htext : kind.text.getLast? with
    | none =>
      rw [htext] at hc
      rw [← hc]
      decide
    | some d =>
      rw [htext] at hc
      rw [← hc]
      exact hlast d htext

theorem isWhitespace_of_valid (h : kind.Valid) :
    ∀ c ∈ kind.text.getLast?, isWhitespace c = false := by
  intro c hc
  cases kind with
  | none => cases hc
  | datatype iri =>
    rw [LiteralKind.text, List.getLast?_append] at hc
    cases hc
    decide
  | language tag =>
    rcases List.mem_cons.mp (List.mem_of_getLast? hc) with rfl | hmem
    · decide
    · exact isWhitespace_of_isValidLanguageTag h hmem

theorem parseDatatype_iri (iri : List Char) : parseDatatype ('<' :: iri ++ ['>']) = .ok iri := by
  have hlast : ('<' :: iri ++ ['>']).getLast? = some '>' := List.getLast?_concat
  rw [parseDatatype, if_pos (show ('<' :: iri ++ ['>']).head? = some '<' from rfl),
    if_neg (not_not.mpr hlast), inner_append]

theorem parseLiteral_literalText (h : kind.Valid) : parseLiteral (literalText value kind) =
      .ok ('"' :: RdfTerm.escape value ++ ['"'], kind.datatypeOf, kind.languageOf) := by
  have hread := readQuoted_closed (isEscaped_escape value) kind.text
  have hlast : ('"' :: (escape value ++ ['"'])).getLast? = some '"' :=
    List.getLast?_concat (l := '"' :: escape value)
  show parseLiteral ('"' :: (escape value ++ '"' :: kind.text)) = _
  simp only [parseLiteral, hread, hlast, ne_eq, not_true_eq_false, if_false]
  cases kind with
  | none => rfl
  | datatype iri =>
    show (parseDatatype ('<' :: iri ++ ['>'])).map _ = _
    rw [parseDatatype_iri]
    rfl
  | language tag =>
    have htag : isValidLanguageTag tag = true := h
    have hnonempty : tag.isEmpty = false := by
      cases tag with
      | nil => cases htag
      | cons c tag => rfl
    simp only [LiteralKind.text, hnonempty, htag, Bool.not_true, Bool.false_eq_true, if_false]
    rfl

theorem ofParsed_quoted (value datatype language : List Char) :
    RdfTerm.ofParsed ('"' :: RdfTerm.escape value ++ ['"'], datatype, language) =
      .ok (.Literal value datatype language) := by
  have hlast : ('"' :: escape value ++ ['"']).getLast? = some '"' := List.getLast?_concat
  have hnormalize : normalizeLiteralValue ('"' :: escape value ++ ['"']) =
      .ok value := by
    rw [normalizeLiteralValue, if_neg, inner_append]
    · exact congrArg Except.ok (unescape_escape value)
    · rw [hlast]
      simp
  rw [ofParsed, if_neg, if_neg, if_pos ⟨rfl, hlast⟩, hnormalize]
  · rfl
  · exact Bool.false_ne_true
  · rintro ⟨hhead, -⟩
    cases hhead

theorem language_of_ofParsed {parsed : Parsed} {value datatype language : List Char}
    (h : RdfTerm.ofParsed parsed = .ok (.Literal value datatype language)) :
    parsed.2.2 = language := by
  obtain ⟨text, iri, tag⟩ := parsed
  simp only [ofParsed] at h
  split_ifs at h
  · cases hinner : inner text with
    | none =>
      rw [hinner] at h
      cases h
    | some uri =>
      rw [hinner] at h
      cases h
  · cases h
  · cases hnormalize : normalizeLiteralValue text with
    | error e =>
      rw [hnormalize] at h
      cases h
    | ok normalized =>
      rw [hnormalize] at h
      cases h
      rfl
  · cases h
    rfl

theorem exists_trimmed_quote (cs : List Char) : ∃ ds, trimmed ('"' :: cs) = '"' :: ds := by
  have hstart : ('"' :: cs).dropWhile isWhitespace = '"' :: cs := dropWhile_of_head fun c hc => by
    cases hc
    decide
  obtain ⟨ds, hds⟩ := List.rdropWhile_prefix ('"' :: cs) (p := isWhitespace)
  have htrim : trimmed ('"' :: cs) = ('"' :: cs).rdropWhile isWhitespace := by
    rw [trimmed, hstart]
    rfl
  rw [htrim]
  cases hkept : ('"' :: cs).rdropWhile isWhitespace with
  | nil =>
    have hall := List.rdropWhile_eq_nil_iff.mp hkept '"' List.mem_cons_self
    cases hall
  | cons c kept =>
    rw [hkept, List.cons_append] at hds
    exact ⟨kept, by rw [(List.cons.inj hds).1]⟩

theorem valid_of_parse {u : Unicode} {value tag : List Char}
    (h : RdfTerm.parse u (literalText value (.language tag)) = .ok (.Literal value [] tag)) :
    isValidLanguageTag tag = true := by
  obtain ⟨cs, hcs⟩ := exists_trimmed_quote (escape value ++ '"' :: '@' :: tag)
  have hobject : parseRdfObject u (literalText value (.language tag)) =
      parseLiteral ('"' :: cs) := by
    show parseRdfObject u ('"' :: (escape value ++ '"' :: '@' :: tag)) = _
    unfold parseRdfObject
    rw [hcs]
    rfl
  rw [parse, hobject] at h
  cases hparse : parseLiteral ('"' :: cs) with
  | error e =>
    rw [hparse] at h
    cases e <;> cases h
  | ok parsed =>
    rw [hparse] at h
    have hlanguage : parsed.2.2 = tag := language_of_ofParsed h
    obtain ⟨-, -, -, hnil | hvalid⟩ := of_parseLiteral hparse
    · -- without a tag there is an error
      obtain rfl : tag = [] := hlanguage.symm.trans hnil
      have hself : trimmed (literalText value (.language [])) =
          literalText value (.language []) := by
        apply trimmed_literalText
        intro c hc
        cases hc
        decide
      have hread := readQuoted_closed (isEscaped_escape value) ['@']
      have hlast : ('"' :: (escape value ++ ['"'])).getLast? = some '"' :=
        List.getLast?_concat (l := '"' :: escape value)
      obtain rfl : cs = escape value ++ '"' :: ['@'] :=
        (List.cons.inj (hcs.symm.trans hself)).2
      simp only [parseLiteral, hread, hlast, ne_eq, not_true_eq_false, if_false] at hparse
      cases hparse
    · rw [hlanguage] at hvalid
      exact hvalid

/-- **A literal that is written is read back**, whatever its value, unless its language tag is one
that is not accepted. -/
theorem parse_literalText_iff (u : Unicode) (value : List Char) (kind : LiteralKind) :
    RdfTerm.parse u (literalText value kind) =
        .ok (.Literal value kind.datatypeOf kind.languageOf) ↔ kind.Valid := by
  constructor
  · intro h
    cases kind with
    | none => trivial
    | datatype iri => trivial
    | language tag =>
      exact valid_of_parse h
  · intro h
    have hparse : parseRdfObject u (literalText value kind) =
        .ok ('"' :: escape value ++ ['"'], kind.datatypeOf,
          kind.languageOf) := by
      unfold parseRdfObject
      rw [trimmed_literalText value (isWhitespace_of_valid h)]
      exact parseLiteral_literalText value h
    rw [parse, hparse]
    exact ofParsed_quoted _ _ _

/-! ## The closing quote -/

theorem hasClosingQuote_of_parseLiteral_iff (input : List Char) :
    ((∃ parsed, parseLiteral input = .ok parsed) → HasClosingQuote input) ↔
      ¬ EndsInOtherQuote input := by
  -- without a closing quote the whole text is collected
  have hopen : ∀ {cs : List Char}, isEscaped cs = true → readQuoted false cs = (cs, []) := by
    intro cs hcs
    have hread := readQuoted_append hcs []
    rw [List.append_nil, readQuoted, List.append_nil] at hread
    exact hread
  constructor
  · rintro himplies (rfl | ⟨body, hbody, rfl⟩)
    · exact @not_hasClosingQuote [] (.inl rfl) (himplies ⟨_, rfl⟩)
    · have hescaped : isEscaped (body ++ ['\\', '"']) = true := by
        rw [isEscaped_append hbody]
        rfl
      refine not_hasClosingQuote (.inl hescaped)
        (himplies ⟨('"' :: body ++ ['\\', '"'], [], []), ?_⟩)
      have hlast : ('"' :: (body ++ ['\\', '"'])).getLast? = some '"' := by
        rw [show '"' :: (body ++ ['\\', '"']) = ('"' :: body ++ ['\\']) ++ ['"'] by simp,
          List.getLast?_concat]
      show parseLiteral ('"' :: (body ++ ['\\', '"'])) = _
      simp only [parseLiteral, hopen hescaped, hlast, ne_eq, not_true_eq_false, if_false]
      rfl
  · rintro hnot ⟨parsed, hparse⟩
    unfold parseLiteral at hparse
    split at hparse
    · rename_i cs
      rcases body_cases cs with ⟨body, rest, hbody, rfl⟩ | hcs | ⟨body, hbody, rfl⟩
      · exact ⟨body, rest, hbody, rfl⟩
      · exfalso
        simp only [hopen hcs] at hparse
        split_ifs at hparse with hlast
        · cases hparse
        · rw [ne_eq, not_not] at hlast
          cases cs with
          | nil => exact hnot (.inl rfl)
          | cons c cs =>
            rw [List.getLast?_cons_cons] at hlast
            obtain ⟨body, hbody, heq⟩ := eq_append_of_getLast? hcs hlast
            exact hnot (.inr ⟨body, hbody, by rw [heq]; rfl⟩)
      · -- the last character collected is the backslash
        exfalso
        have hread : readQuoted false (body ++ ['\\']) = (body ++ ['\\'], []) := by
          rw [readQuoted_append hbody]
          rfl
        have hlast : ('"' :: (body ++ ['\\'])).getLast? = some '\\' :=
          List.getLast?_concat (l := '"' :: body)
        simp only [hread, hlast] at hparse
        rw [if_pos (by decide)] at hparse
        cases hparse
    · cases hparse

/-- **Literals.** What is written is read back as it was, with every kind that is valid. A
text is accepted without a closing quote exactly if it is the opening quote alone or ends in an
escaped one. -/
theorem parse_literal_iff (u : Unicode) :
    (∀ value kind, RdfTerm.parse u (literalText value kind) =
        .ok (.Literal value kind.datatypeOf kind.languageOf) ↔ kind.Valid) ∧
      ∀ input, ((∃ parsed, parseLiteral input = .ok parsed) → HasClosingQuote input) ↔
        ¬ EndsInOtherQuote input :=
  ⟨parse_literalText_iff u, hasClosingQuote_of_parseLiteral_iff⟩

/-- A text whose only other quote is escaped is accepted. -/
theorem unterminated_accepted :
    (∃ parsed, parseLiteral "\"abc\\\"".toList = .ok parsed) ∧
      ¬ HasClosingQuote "\"abc\\\"".toList := by
  refine ⟨⟨("\"abc\\\"".toList, [], []), by decide⟩, ?_⟩
  exact @not_hasClosingQuote "abc\\\"".toList (.inl (by decide))

end Arcxa.Governance
