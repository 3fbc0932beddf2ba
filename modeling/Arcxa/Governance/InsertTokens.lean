import Arcxa.Governance.InsertData

/-!
# Reading a block back

The tokens of a block that is written out are the texts it was written from, and the loops over
them return the triples that the statements stand for. A name stays in hand until a character ends
it: `Ends` says that one comes next.
-/

namespace Arcxa.Governance.Sparql

open Arcxa.Workflow (isWhitespace)
open InsertParser

/-! ## Trimming -/

variable {c : Char}

theorem isWhitespace_of_isBlank (h : isBlank c = true) : isWhitespace c = true := by
  simp only [isBlank, Bool.or_eq_true, decide_eq_true_eq] at h
  rcases h with ((rfl | rfl) | rfl) | rfl <;> decide

theorem trimmed_append {gap cs gap' : List Char} (hgap : ∀ c ∈ gap, isBlank c = true)
    (hgap' : ∀ c ∈ gap', isBlank c = true) (hhead : ∀ c ∈ cs.head?, isWhitespace c = false)
    (hlast : ∀ c ∈ cs.getLast?, isWhitespace c = false) : trimmed (gap ++ cs ++ gap') = cs := by
  have hspace : ∀ c ∈ gap, isWhitespace c = true := fun c hc => isWhitespace_of_isBlank (hgap c hc)
  have hspace' : ∀ c ∈ gap'.reverse, isWhitespace c = true := fun c hc =>
    isWhitespace_of_isBlank (hgap' c (List.mem_reverse.mp hc))
  have hend : (gap'.reverse ++ cs.reverse).dropWhile isWhitespace = cs.reverse :=
    dropWhile_append_of_all hspace' (by rwa [List.head?_reverse])
  cases cs with
  | nil =>
    have hall : ∀ c ∈ gap ++ gap', isWhitespace c = true := by
      intro c hc
      rcases List.mem_append.mp hc with hc | hc
      · exact hspace c hc
      · exact isWhitespace_of_isBlank (hgap' c hc)
    have hnil : (gap ++ gap' ++ []).dropWhile isWhitespace = [] :=
      dropWhile_append_of_all hall nofun
    rw [trimmed, List.append_nil, ← List.append_nil (gap ++ gap'), hnil]
    rfl
  | cons c cs =>
    have hstart : (gap ++ (c :: cs ++ gap')).dropWhile isWhitespace = c :: cs ++ gap' :=
      dropWhile_append_of_all hspace hhead
    rw [trimmed, List.append_assoc, hstart, List.reverse_append, hend, List.reverse_reverse]

variable {cs : List Char}

theorem trimmed_self (hhead : ∀ c ∈ cs.head?, isWhitespace c = false)
    (hlast : ∀ c ∈ cs.getLast?, isWhitespace c = false) : trimmed cs = cs := by
  simpa using @trimmed_append [] cs [] nofun nofun hhead hlast

/-! ## Characters -/

theorem not_mem_of_isIriChar {c d : Char} (h : isIriChar c = true) (hd : isIriChar d = false) :
    c ≠ d := by
  rintro rfl
  rw [h] at hd
  cases hd

theorem isIriChar_of_isNameChar (h : isNameChar c = true) : isIriChar c = true := by
  simp only [isNameChar, Bool.and_eq_true] at h
  exact h.1.1

theorem isWhitespace_of_isNameChar (h : isNameChar c = true) : isWhitespace c = false := by
  simp only [isNameChar, Bool.and_eq_true, Bool.not_eq_true'] at h
  exact h.1.2

/-- A character that is only added to what is in hand, outside of IRIs and literals. -/
structure Plain (c : Char) : Prop where
  angle : c ≠ '<'
  quote : c ≠ '"'
  blank : isBlank c = false
  separator : isSeparator c = false

theorem isBlank_of_isWhitespace (h : isWhitespace c = false) : isBlank c = false := by
  cases hblank : isBlank c with
  | false => rfl
  | true =>
    rw [isWhitespace_of_isBlank hblank] at h
    cases h

theorem plain_of_isNameChar (h : isNameChar c = true) (hdot : c ≠ '.') : Plain c := by
  have hiri := isIriChar_of_isNameChar h
  refine ⟨not_mem_of_isIriChar hiri (by decide), not_mem_of_isIriChar hiri (by decide),
    isBlank_of_isWhitespace (isWhitespace_of_isNameChar h), ?_⟩
  simp only [isNameChar, Bool.and_eq_true, Bool.not_eq_true', Bool.or_eq_false_iff] at h
  simp only [isSeparator, h.2.2, h.2.1, hdot, decide_false, Bool.or_false]

/-! ## Tokens -/

abbrev inHand (current : List Char) : TokenState := ⟨current, false, false, false⟩

theorem tokenizeFrom_plain (h : ∀ c ∈ cs, Plain c) (current rest : List Char) :
    tokenizeFrom (inHand current) (cs ++ rest) = tokenizeFrom (inHand (current ++ cs)) rest := by
  induction cs generalizing current with
  | nil => rw [List.append_nil, List.nil_append]
  | cons c cs ih =>
    obtain ⟨hangle, hquote, hblank, hseparator⟩ := h c (List.mem_cons_self ..)
    have hstep : tokenStep (inHand current) c = ([], inHand (current ++ [c])) := by
      simp [tokenStep, hangle, hquote, hblank, hseparator]
    rw [List.cons_append, tokenizeFrom, hstep, ih fun d hd => h d (List.mem_cons_of_mem _ hd),
      List.append_assoc]
    rfl

theorem tokenizeFrom_blank (h : isBlank c = true) (current rest : List Char) :
    tokenizeFrom (inHand current) (c :: rest) = flush current ++ tokenizeFrom (inHand []) rest := by
  have hstep : tokenStep (inHand current) c = (flush current, inHand []) := by
    simp only [isBlank, Bool.or_eq_true, decide_eq_true_eq] at h
    rcases h with ((rfl | rfl) | rfl) | rfl <;> rfl
  rw [tokenizeFrom, hstep]

theorem tokenizeFrom_separator (h : isSeparator c = true) (current rest : List Char) :
    tokenizeFrom (inHand current) (c :: rest) =
      flush current ++ [c] :: tokenizeFrom (inHand []) rest := by
  have hstep : tokenStep (inHand current) c = (flush current ++ [[c]], inHand []) := by
    simp only [isSeparator, Bool.or_eq_true, decide_eq_true_eq] at h
    rcases h with (rfl | rfl) | rfl <;> rfl
  rw [tokenizeFrom, hstep, List.append_assoc]
  rfl

theorem tokenizeFrom_gap {gap : List Char} (h : ∀ c ∈ gap, isBlank c = true) (hne : gap ≠ [])
    (current rest : List Char) : tokenizeFrom (inHand current) (gap ++ rest) =
      flush current ++ tokenizeFrom (inHand []) rest := by
  induction gap generalizing current with
  | nil => exact absurd rfl hne
  | cons c gap ih =>
    obtain ⟨hc, hgap⟩ := List.forall_mem_cons.mp h
    rw [List.cons_append, tokenizeFrom_blank hc]
    cases gap with
    | nil => rfl
    | cons d gap =>
      rw [ih hgap (List.cons_ne_nil d gap)]
      rfl

theorem tokenizeFrom_iri (h : ∀ c ∈ cs, isIriChar c = true) (current rest : List Char) :
    tokenizeFrom (inHand current) ('<' :: cs ++ '>' :: rest) =
      flush current ++ ('<' :: cs ++ ['>']) :: tokenizeFrom (inHand []) rest := by
  have hinside : ∀ read, tokenizeFrom ⟨read, true, false, false⟩ (cs ++ '>' :: rest) =
      (read ++ cs ++ ['>']) :: tokenizeFrom (inHand []) rest := by
    induction cs with
    | nil =>
      intro read
      rw [List.append_nil]
      rfl
    | cons c cs ih =>
      intro read
      obtain ⟨hc, hcs⟩ := List.forall_mem_cons.mp h
      have hstep : tokenStep ⟨read, true, false, false⟩ c =
          ([], ⟨read ++ [c], true, false, false⟩) := by
        have hangle : c ≠ '<' := not_mem_of_isIriChar hc (by decide)
        have hclose : c ≠ '>' := not_mem_of_isIriChar hc (by decide)
        simp [tokenStep, hangle, hclose]
      rw [List.cons_append, tokenizeFrom, hstep, ih hcs, List.append_assoc read [c] cs]
      rfl
  show flush current ++ tokenizeFrom ⟨['<'], true, false, false⟩ (cs ++ '>' :: rest) = _
  rw [hinside]
  rfl

theorem tokenizeFrom_literal (h : isEscaped cs = true) (current rest : List Char) :
    tokenizeFrom (inHand current) ('"' :: cs ++ '"' :: rest) =
      flush current ++ tokenizeFrom (inHand ('"' :: cs ++ ['"'])) rest := by
  have hinside : ∀ read, tokenizeFrom ⟨read, false, true, false⟩ (cs ++ '"' :: rest) =
      tokenizeFrom (inHand (read ++ cs ++ ['"'])) rest := by
    induction cs using isEscaped.induct with
    | case1 =>
      intro read
      rw [List.append_nil]
      rfl
    | case2 =>
      -- a backslash at the end
      simp [isEscaped] at h
    | case3 d cs ih =>
      intro read
      have hcs : isEscaped cs = true := by simpa [isEscaped] using h
      have hsplit : read ++ '\\' :: d :: cs = read ++ ['\\'] ++ [d] ++ cs := by simp
      rw [List.cons_append, List.cons_append, tokenizeFrom, tokenizeFrom, hsplit]
      exact ih hcs (read ++ ['\\'] ++ [d])
    | case4 c cs hc ih =>
      intro read
      unfold isEscaped at h
      rw [if_neg hc, Bool.and_eq_true, decide_eq_true_eq] at h
      have hstep : tokenStep ⟨read, false, true, false⟩ c =
          ([], ⟨read ++ [c], false, true, false⟩) := by
        simp [tokenStep, hc, h.1]
      rw [List.cons_append, tokenizeFrom, hstep, List.nil_append, ih h.2]
      simp
  show flush current ++ tokenizeFrom ⟨['"'], false, true, false⟩ (cs ++ '"' :: rest) = _
  rw [hinside]
  rfl

/-! ## Terms -/

theorem plain_of_label {label : Label} (h : '.' ∉ label.chars) : ∀ c ∈ label.chars, Plain c := by
  intro c hc
  exact plain_of_isNameChar (label.plain c hc).1 (ne_of_mem_of_not_mem hc h)

theorem plain_of_localName {name : LocalName} (h : '.' ∉ name.chars) :
    ∀ c ∈ name.chars, Plain c := by
  intro c hc
  exact plain_of_isNameChar (name.plain c hc) (ne_of_mem_of_not_mem hc h)

theorem plain_name {label : Label} {name : LocalName} (h : '.' ∉ label.chars ∧ '.' ∉ name.chars) :
    ∀ c ∈ label.chars ++ ':' :: name.chars, Plain c := by
  intro c hc
  rcases List.mem_append.mp hc with hlabel | hrest
  · exact plain_of_label h.1 c hlabel
  · rcases List.mem_cons.mp hrest with rfl | hname
    · exact ⟨by decide, by decide, by decide, by decide⟩
    · exact plain_of_localName h.2 c hname

theorem plain_suffix {content : List Char} {escaped : isEscaped content = true} {suffix : Suffix}
    (h : (Term.literal content escaped suffix).Whole) : ∀ c ∈ suffix.text, Plain c := by
  have hplain : ∀ c : Char, c = '@' ∨ c = '^' → Plain c := by
    rintro c (rfl | rfl) <;> exact ⟨by decide, by decide, by decide, by decide⟩
  cases suffix with
  | none => exact nofun
  | lang tag =>
    intro c hc
    rcases List.mem_cons.mp hc with rfl | htag
    · exact hplain _ (.inl rfl)
    · exact plain_of_isNameChar (tag.plain c htag).1 (tag.plain c htag).2
  | datatypeIri iri => exact absurd h id
  | datatypeName label name =>
    intro c hc
    rcases List.mem_cons.mp hc with rfl | hc
    · exact hplain _ (.inr rfl)
    · rcases List.mem_cons.mp hc with rfl | hc
      · exact hplain _ (.inr rfl)
      · exact plain_name h c hc

theorem isWhitespace_of_mem_name {label : Label} {name : LocalName} :
    ∀ c ∈ label.chars ++ ':' :: name.chars, isWhitespace c = false := by
  intro c hc
  rcases List.mem_append.mp hc with hlabel | hrest
  · exact isWhitespace_of_isNameChar (label.plain c hlabel).1
  · rcases List.mem_cons.mp hrest with rfl | hname
    · decide
    · exact isWhitespace_of_isNameChar (name.plain c hname)

theorem isWhitespace_of_mem_suffix {suffix : Suffix} :
    ∀ c ∈ suffix.text.getLast?, isWhitespace c = false := by
  intro c hc
  have hmem := List.mem_of_getLast? hc
  cases suffix with
  | none => cases hmem
  | lang tag =>
    rcases List.mem_cons.mp hmem with rfl | htag
    · decide
    · exact isWhitespace_of_isNameChar (tag.plain c htag).1
  | datatypeIri iri =>
    rw [Suffix.text, List.getLast?_append] at hc
    cases hc
    decide
  | datatypeName label name =>
    rcases List.mem_cons.mp hmem with rfl | hmem
    · decide
    · rcases List.mem_cons.mp hmem with rfl | hmem
      · decide
      · exact isWhitespace_of_mem_name c hmem

theorem isWhitespace_of_head_term (t : Term) : ∀ c ∈ t.text.head?, isWhitespace c = false := by
  intro c hc
  cases t with
  | iri i =>
    cases hc
    decide
  | prefixed label name => exact isWhitespace_of_mem_name c (List.mem_of_head? hc)
  | blank label =>
    cases hc
    decide
  | literal content escaped suffix =>
    cases hc
    decide

theorem isWhitespace_of_last_term (t : Term) : ∀ c ∈ t.text.getLast?, isWhitespace c = false := by
  intro c hc
  cases t with
  | iri i =>
    rw [Term.text, List.getLast?_append] at hc
    cases hc
    decide
  | prefixed label name => exact isWhitespace_of_mem_name c (List.mem_of_getLast? hc)
  | blank label =>
    rcases List.mem_cons.mp (List.mem_of_getLast? hc) with rfl | hmem
    · decide
    · rcases List.mem_cons.mp hmem with rfl | hlabel
      · decide
      · exact isWhitespace_of_isNameChar (label.plain c hlabel)
  | literal content escaped suffix =>
    rw [Term.text, List.getLast?_append, Option.mem_def, Option.or_eq_some_iff,
      List.getLast?_cons] at hc
    rcases hc with hlast | ⟨hnone, -⟩
    · cases hsuffix : suffix.text.getLast? with
      | none =>
        rw [hsuffix] at hlast
        cases hlast
        decide
      | some d =>
        rw [hsuffix] at hlast
        cases hlast
        exact isWhitespace_of_mem_suffix d hsuffix
    · cases hnone

theorem trimmed_text (t : Term) : trimmed t.text = t.text :=
  trimmed_self (isWhitespace_of_head_term t) (isWhitespace_of_last_term t)

/-! ## Blocks -/

def Token.held : Token → List Char
  | .term (.prefixed label name) => (Term.prefixed label name).text
  | .term (.literal content escaped suffix) => (Term.literal content escaped suffix).text
  | _ => []

def Token.done : Token → List (List Char)
  | .term (.prefixed ..) => []
  | .term (.literal ..) => []
  | t => [t.text]

theorem Token.done_append_held (t : Token) : t.done ++ flush t.held = [t.text] := by
  cases t with
  | term t =>
    cases t with
    | iri i => rfl
    | blank label => rfl
    | prefixed label name =>
      have hne : (Term.prefixed label name).text ≠ [] := by simp [Term.text]
      rw [Token.done, Token.held, flush, if_neg (by simpa using hne), trimmed_text]
      rfl
    | literal content escaped suffix =>
      rw [Token.done, Token.held, flush, if_neg (by simp [Term.text]), trimmed_text]
      rfl
  | comma => rfl
  | semicolon => rfl
  | dot => rfl

def Token.opens : Token → Bool
  | .term (.prefixed ..) => false
  | .term (.blank _) => false
  | _ => true

theorem tokenizeFrom_token {t : Token} (hwhole : ∀ term, t = .term term → term.Whole)
    {current : List Char} (hcurrent : current = [] ∨ t.opens = true) (rest : List Char) :
    tokenizeFrom (inHand current) (t.text ++ rest) =
      flush current ++ (t.done ++ tokenizeFrom (inHand t.held) rest) := by
  cases t with
  | term t =>
    have hw := hwhole t rfl
    cases t with
    | iri i =>
      have hread := tokenizeFrom_iri i.plain current rest
      simpa [Token.text, Term.text, Token.done, Token.held] using hread
    | blank label => exact absurd hw id
    | prefixed label name =>
      rcases hcurrent with rfl | hopens
      · exact tokenizeFrom_plain (plain_name hw) [] rest
      · cases hopens
    | literal content escaped suffix =>
      have hread := tokenizeFrom_literal escaped current (suffix.text ++ rest)
      rw [tokenizeFrom_plain (plain_suffix hw)] at hread
      simpa [Token.text, Term.text, Token.done, Token.held] using hread
  | comma => exact tokenizeFrom_separator rfl current rest
  | semicolon => exact tokenizeFrom_separator rfl current rest
  | dot => exact tokenizeFrom_separator rfl current rest

theorem Token.opens_of_touches {t t' : Token} (hwhole : ∀ term, t = .term term → term.Whole)
    (h : t.touches t' = true) : t.held = [] ∨ t'.opens = true := by
  cases t with
  | term t =>
    cases t with
    | iri i => exact .inl rfl
    | blank label => exact absurd (hwhole _ rfl) id
    | prefixed label name =>
      right
      cases t' with
      | term t' => cases t' <;> first | rfl | cases h
      | _ => rfl
    | literal content escaped suffix =>
      right
      cases t' with
      | term t' => cases t' <;> first | rfl | cases h
      | _ => rfl
  | comma => exact .inl rfl
  | semicolon => exact .inl rfl
  | dot => exact .inl rfl

/-- **The tokens of a block are the texts it was written from.** -/
theorem tokenizeFrom_pieces {pieces : List (Gap × Token)}
    (hwhole : ∀ p ∈ pieces, ∀ t, p.2 = .term t → t.Whole)
    (hseparated : pieces.IsChain fun p q => q.1.chars ≠ [] ∨ p.2.touches q.2 = true)
    (afterLast : Gap) {current : List Char}
    (hfirst : ∀ p ∈ pieces.head?, current = [] ∨ p.1.chars ≠ [] ∨ p.2.opens = true) :
    tokenizeFrom (inHand current)
        (pieces.flatMap (fun p => p.1.chars ++ p.2.text) ++ afterLast.chars) =
      flush current ++ pieces.map (·.2.text) := by
  induction pieces generalizing current with
  | nil =>
    rw [List.flatMap_nil, List.nil_append, List.map_nil, List.append_nil]
    by_cases hgap : afterLast.chars = []
    · rw [hgap]
      rfl
    · have hread := tokenizeFrom_gap afterLast.blank hgap current []
      rw [List.append_nil] at hread
      rw [hread]
      exact List.append_nil _
  | cons p pieces ih =>
    obtain ⟨gap, t⟩ := p
    have hw : ∀ term, t = .term term → term.Whole := hwhole (gap, t) (List.mem_cons_self ..)
    -- the token, from where the white space before it has been read
    have htoken : ∀ cur, cur = [] ∨ t.opens = true → tokenizeFrom (inHand cur)
        (t.text ++ (pieces.flatMap (fun p => p.1.chars ++ p.2.text) ++ afterLast.chars)) =
          flush cur ++ (t.text :: pieces.map (·.2.text)) := by
      intro cur hcur
      rw [tokenizeFrom_token hw hcur, ih (fun q hq => hwhole q (List.mem_cons_of_mem _ hq))
        hseparated.tail, ← List.append_assoc t.done, t.done_append_held]
      · rfl
      · intro q hq
        rcases List.isChain_cons.mp hseparated |>.1 q hq with hgap | htouches
        · exact .inr (.inl hgap)
        · exact (Token.opens_of_touches hw htouches).imp_right .inr
    rw [List.flatMap_cons, List.append_assoc, List.append_assoc]
    by_cases hgap : gap.chars = []
    · rw [hgap, List.nil_append]
      apply htoken
      rcases hfirst (gap, t) rfl with hnil | hne | hopens
      · exact .inl hnil
      · exact absurd hgap hne
      · exact .inr hopens
    · rw [tokenizeFrom_gap gap.blank hgap, htoken [] (.inl rfl)]
      rfl

end Arcxa.Governance.Sparql
