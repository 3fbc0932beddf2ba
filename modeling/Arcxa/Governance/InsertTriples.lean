import Arcxa.Governance.InsertTokens

/-!
# The triples of a block

The loops over the tokens of a block give the triples that its statements stand for, when the map
of prefixes has what the declarations say (`collect_block`). Behind an object they go on as `resume`
says.
-/

namespace Arcxa.Governance.Sparql

open InsertParser

variable {decls : List PrefixDecl} {prefixes : BTreeMap String String}

variable (decls) in
/-- A term that is read as one token, with a prefix that is declared. -/
structure Term.Readable (t : Term) : Prop where
  whole : t.Whole
  declared : ∀ label ∈ t.prefix?, (resolve decls label.chars).isSome

variable (decls prefixes) in
def Resolves : Prop := ∀ label, prefixes.get (String.ofList label) = resolve decls label

theorem head?_name {label : Label} {name : LocalName} {d : Char} (hd : isIriChar d = false)
    (hcolon : d ≠ ':') : (label.chars ++ ':' :: name.chars).head? ≠ some d := by
  intro hhead
  have hmem := List.mem_of_head? hhead
  cases hlabel : label.chars with
  | nil =>
    rw [hlabel] at hhead
    cases hhead
    exact hcolon rfl
  | cons c cs =>
    rw [hlabel] at hhead
    cases hhead
    have hc := (label.plain d (hlabel ▸ List.mem_cons_self)).1
    rw [isIriChar_of_isNameChar hc] at hd
    cases hd

/-- **A term expands to its value.** -/
theorem expandTerm_text (hprefixes : Resolves decls prefixes) {t : Term} (h : t.Readable decls) :
    expandTerm prefixes t.text = .ok (t.value decls) := by
  unfold expandTerm
  rw [trimmed_text]
  cases t with
  | iri i =>
    have hlast : ('<' :: i.chars ++ ['>']).getLast? = some '>' := by
      rw [List.getLast?_append]
      rfl
    exact if_pos ⟨rfl, hlast⟩
  | blank label => exact absurd h.whole id
  | prefixed label name =>
    obtain ⟨base, hbase⟩ := Option.isSome_iff_exists.mp (h.declared label rfl)
    have hangle : (Term.prefixed label name).text.head? ≠ some '<' :=
      head?_name (by decide) (by decide)
    have hquote : (Term.prefixed label name).text.head? ≠ some '"' :=
      head?_name (by decide) (by decide)
    have hcolon : ':' ∉ label.chars := fun hmem => (label.plain ':' hmem).2 rfl
    have hsplit : splitOnce ':' (Term.prefixed label name).text = some (label.chars, name.chars) :=
      splitOnce_append hcolon name.chars
    simp only [hangle, hquote, false_and, if_false, hsplit, hprefixes label.chars, hbase,
      Term.value, Option.getD_some]
  | literal content escaped suffix =>
    have hangle : (Term.literal content escaped suffix).text.head? ≠ some '<' := nofun
    have hquote : (Term.literal content escaped suffix).text.head? = some '"' := rfl
    rw [if_neg fun hiri => hangle hiri.1, if_pos hquote]
    rfl

theorem text_ne_dot {t : Term} (h : t.Readable decls) : t.text ≠ ['.'] := by
  cases t with
  | iri i => exact nofun
  | blank label => exact absurd h.whole id
  | prefixed label name =>
    intro heq
    have hmem : ':' ∈ ['.'] := heq ▸ List.mem_append_right _ (List.mem_cons_self ..)
    exact absurd hmem (by decide)
  | literal content escaped suffix => exact nofun

variable (prefixes) in
def resume (subject : String) : List (List Char) → Except Failure (List RawTriple)
  | [] => .ok []
  | next :: tokens =>
    if next = [';'] then collectTriples prefixes (.predicate subject) tokens
    else if next = ['.'] then collectTriples prefixes .subject tokens
    else collectTriples prefixes (.predicate subject) (next :: tokens)

theorem collect_comma {token : List Char} {object : String}
    (h : expandTerm prefixes token = .ok object) (subject predicate : String)
    (rest : List (List Char)) :
    collectTriples prefixes (.object subject predicate) (token :: [','] :: rest) =
      (collectTriples prefixes (.object subject predicate) rest).map
        ((subject, predicate, object) :: ·) := by
  rw [collectTriples, h, if_pos rfl]

variable {rest : List (List Char)}

theorem collect_lastObject {token : List Char} {object : String}
    (h : expandTerm prefixes token = .ok object) (subject predicate : String) (hcomma : rest.head? ≠ some [',']) :
    collectTriples prefixes (.object subject predicate) (token :: rest) =
      (resume prefixes subject rest).map ((subject, predicate, object) :: ·) := by
  cases rest with
  | nil =>
    rw [collectTriples, h]
    rfl
  | cons next tokens =>
    have hnext : next ≠ [','] := fun heq => hcomma (heq ▸ rfl)
    rw [collectTriples, h, if_neg hnext]
    rfl

theorem collect_objects (hprefixes : Resolves decls prefixes) {o : Term} {more : List Term}
    (h : ∀ t ∈ o :: more, t.Readable decls) (subject predicate : String) (hcomma : rest.head? ≠ some [',']) :
    collectTriples prefixes (.object subject predicate)
        (o.text :: (more.flatMap fun o => [[','], o.text]) ++ rest) =
      (resume prefixes subject rest).map
        (((o :: more).map fun o => (subject, predicate, o.value decls)) ++ ·) := by
  induction more generalizing o with
  | nil =>
    have ho := expandTerm_text hprefixes (h o (List.mem_cons_self ..))
    exact collect_lastObject ho subject predicate hcomma
  | cons o' more ih =>
    have ho := expandTerm_text hprefixes (h o (List.mem_cons_self ..))
    have hrest := ih fun t ht => h t (List.mem_cons_of_mem _ ht)
    rw [List.flatMap_cons]
    show collectTriples prefixes (.object subject predicate) (o.text :: [','] ::
      (o'.text :: (more.flatMap fun o => [[','], o.text]) ++ rest)) = _
    rw [collect_comma ho, hrest]
    cases resume prefixes subject rest <;> rfl

theorem map_text_property (p : Property) : p.tokens.map Token.text =
    p.predicate.text :: p.object.text :: p.more.flatMap fun o => [[','], o.text] := by
  simp [Property.tokens, Token.text, List.map_flatMap]

theorem collect_property (hprefixes : Resolves decls prefixes) {p : Property}
    (h : ∀ t, .term t ∈ p.tokens → t.Readable decls) (subject : Term) (hcomma : rest.head? ≠ some [',']) :
    collectTriples prefixes (.predicate (subject.value decls)) (p.tokens.map Token.text ++ rest) =
      (resume prefixes (subject.value decls) rest).map (p.triples decls subject ++ ·) := by
  have hpredicate := h p.predicate (List.mem_cons_self ..)
  have hobjects : ∀ t ∈ p.object :: p.more, t.Readable decls := by
    intro t ht
    apply h
    rcases List.mem_cons.mp ht with rfl | hmore
    · exact List.mem_cons_of_mem _ (List.mem_cons_self ..)
    · refine List.mem_cons_of_mem _ (List.mem_cons_of_mem _ (List.mem_flatMap.mpr ⟨t, hmore, ?_⟩))
      exact List.mem_cons_of_mem _ (List.mem_cons_self ..)
  rw [map_text_property, List.cons_append, collectTriples, if_neg (text_ne_dot hpredicate),
    expandTerm_text hprefixes hpredicate]
  exact collect_objects hprefixes hobjects _ _ hcomma

theorem map_text_statement (s : Statement) : s.tokens.map Token.text =
    s.subject.text :: s.property.tokens.map Token.text ++
      s.more.flatMap fun p => [';'] :: p.tokens.map Token.text := by
  simp [Statement.tokens, Token.text, List.map_flatMap]

theorem collect_properties (hprefixes : Resolves decls prefixes) {p : Property}
    {more : List Property} (h : ∀ p' ∈ p :: more, ∀ t, .term t ∈ p'.tokens → t.Readable decls)
    (subject : Term) (hrest : ∀ next ∈ rest.head?, next = ['.']) :
    collectTriples prefixes (.predicate (subject.value decls))
        (p.tokens.map Token.text ++ (more.flatMap fun p => [';'] :: p.tokens.map Token.text) ++
          rest) =
      (resume prefixes (subject.value decls) rest).map
        ((p :: more).flatMap (Property.triples decls subject) ++ ·) := by
  induction more generalizing p with
  | nil =>
    have hcomma : rest.head? ≠ some [','] := by
      intro heq
      exact absurd (hrest _ heq) (by decide)
    rw [List.flatMap_nil, List.append_nil,
      collect_property hprefixes (h p (List.mem_cons_self ..)) subject hcomma]
    simp
  | cons p' more ih =>
    have hcomma : ((([';'] :: p'.tokens.map Token.text) ++
        more.flatMap fun p => [';'] :: p.tokens.map Token.text) ++ rest).head? ≠ some [','] := by
      intro heq
      cases heq
    have hmore := ih fun q hq => h q (List.mem_cons_of_mem _ hq)
    have hnext : resume prefixes (subject.value decls) ((([';'] :: p'.tokens.map Token.text) ++
        more.flatMap fun p => [';'] :: p.tokens.map Token.text) ++ rest) =
          collectTriples prefixes (.predicate (subject.value decls))
            (p'.tokens.map Token.text ++
              (more.flatMap fun p => [';'] :: p.tokens.map Token.text) ++ rest) := by
      rw [List.cons_append, List.cons_append, resume, if_pos rfl]
    rw [List.flatMap_cons, List.append_assoc,
      collect_property hprefixes (h p (List.mem_cons_self ..)) subject hcomma, hnext, hmore]
    cases resume prefixes (subject.value decls) rest with
    | error e => rfl
    | ok triples => simp [Except.map]

theorem collect_statement (hprefixes : Resolves decls prefixes) {s : Statement}
    (h : ∀ t, .term t ∈ s.tokens → t.Readable decls)
    (hrest : ∀ next ∈ rest.head?, next = ['.']) :
    collectTriples prefixes .subject (s.tokens.map Token.text ++ rest) =
      (collectTriples prefixes .subject rest).map (s.triples decls ++ ·) := by
  have hsubject := h s.subject (List.mem_cons_self ..)
  have hproperties : ∀ p ∈ s.property :: s.more, ∀ t, .term t ∈ p.tokens → t.Readable decls := by
    intro p hp t ht
    apply h
    rcases List.mem_cons.mp hp with rfl | hmore
    · exact List.mem_append_left _ (List.mem_cons_of_mem _ ht)
    · exact List.mem_append_right _ (List.mem_flatMap.mpr ⟨p, hmore, List.mem_cons_of_mem _ ht⟩)
  have hresume : resume prefixes (s.subject.value decls) rest =
      collectTriples prefixes .subject rest := by
    cases rest with
    | nil =>
      rw [resume, collectTriples]
    | cons next tokens =>
      rw [hrest next rfl, resume, collectTriples, if_neg (by decide), if_pos rfl, if_pos rfl]
  rw [map_text_statement, List.append_assoc, List.cons_append, collectTriples,
    if_neg (text_ne_dot hsubject), expandTerm_text hprefixes hsubject, ← List.append_assoc]
  show collectTriples prefixes (.predicate _) _ = _
  rw [collect_properties hprefixes hproperties s.subject hrest, hresume]
  rfl

/-- **The triples of a block.** -/
theorem collect_block (hprefixes : Resolves decls prefixes) {lastDot : Bool}
    {statements : List Statement}
    (h : ∀ t, .term t ∈ blockTokens lastDot statements → t.Readable decls) :
    collectTriples prefixes .subject ((blockTokens lastDot statements).map Token.text) =
      .ok (statements.flatMap (Statement.triples decls)) := by
  induction statements with
  | nil => rw [blockTokens, List.map_nil, collectTriples, List.flatMap_nil]
  | cons s statements ih =>
    cases statements with
    | nil =>
      rw [blockTokens] at h ⊢
      rw [List.map_append, collect_statement hprefixes fun t ht => h t (List.mem_append_left _ ht)]
      · cases lastDot with
        | false =>
          simp only [Bool.false_eq_true, if_false, List.map_nil, collectTriples]
          simp [Except.map]
        | true =>
          simp only [if_true, List.map_cons, List.map_nil, Token.text, collectTriples]
          simp [Except.map]
      · cases lastDot with
        | false =>
          intro w hw
          cases hw
        | true =>
          intro w hw
          cases hw
          rfl
    | cons s' statements =>
      have htokens : blockTokens lastDot (s :: s' :: statements) =
          s.tokens ++ .dot :: blockTokens lastDot (s' :: statements) := rfl
      rw [htokens] at h ⊢
      rw [List.map_append, List.map_cons,
        collect_statement hprefixes (fun t ht => h t (List.mem_append_left _ ht))
          (by intro w hw; cases hw; rfl)]
      show Except.map _ (collectTriples prefixes .subject (['.'] :: _)) = _
      rw [collectTriples, if_pos rfl,
        ih fun t ht => h t (List.mem_append_right _ (List.mem_cons_of_mem _ ht))]
      rfl

end Arcxa.Governance.Sparql
