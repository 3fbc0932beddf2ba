import Arcxa.Lib.Text
import Arcxa.Workflow.Json

/-!
# Compact JSON tells values apart

Two values have the same text only if they are the same. A text is read from its front: its first
character gives the kind of the value, a string ends at the first quote that is not escaped, a
number ends at the first character that no number has, and an array or an object at the bracket
after its last entry. What the decimal forms of floats look like is an assumption (`Decimal`).
-/

namespace Arcxa.Workflow

/-! ## Strings -/

def hexValue (c : Char) : Nat := if c.isDigit then c.toNat - 48 else c.toNat - 87

def unescape : List Char → Option (Char × List Char)
  | '\\' :: '"' :: rest => some ('"', rest)
  | '\\' :: '\\' :: rest => some ('\\', rest)
  | '\\' :: 'b' :: rest => some (Char.ofNat 8, rest)
  | '\\' :: 't' :: rest => some (Char.ofNat 9, rest)
  | '\\' :: 'n' :: rest => some (Char.ofNat 10, rest)
  | '\\' :: 'f' :: rest => some (Char.ofNat 12, rest)
  | '\\' :: 'r' :: rest => some (Char.ofNat 13, rest)
  | '\\' :: 'u' :: '0' :: '0' :: a :: b :: rest =>
    some (Char.ofNat (16 * hexValue a + hexValue b), rest)
  | '\\' :: _ => none
  | '"' :: _ => none
  | c :: rest => some (c, rest)
  | [] => none

def escapeChars (c : Char) : List Char := (escapeChar c).toList

theorem escapeChars_of_plain {c : Char} (hcontrol : ¬ c.toNat < 32) (hquote : c ≠ '"')
    (hbackslash : c ≠ '\\') : escapeChars c = [c] := by
  have hofNat : Char.ofNat c.toNat = c := Char.ofNat_toNat c
  have h34 : c.toNat ≠ 34 := fun h => hquote (by rw [← hofNat, h])
  have h92 : c.toNat ≠ 92 := fun h => hbackslash (by rw [← hofNat, h])
  unfold escapeChars escapeChar
  split
  all_goals first | omega | skip
  rw [if_neg hcontrol, String.toList_singleton]

theorem unescape_escapeChars (c : Char) (rest : List Char) :
    unescape (escapeChars c ++ rest) = some (c, rest) := by
  have hofNat : Char.ofNat c.toNat = c := Char.ofNat_toNat c
  by_cases hcontrol : c.toNat < 32
  · rw [← hofNat]
    generalize c.toNat = n at hcontrol
    interval_cases n <;> rfl
  by_cases hquote : c = '"'
  · rw [hquote]
    rfl
  by_cases hbackslash : c = '\\'
  · rw [hbackslash]
    rfl
  rw [escapeChars_of_plain hcontrol hquote hbackslash, List.singleton_append]
  unfold unescape
  split
  all_goals simp_all

theorem escapeChars_inj {s s' rest rest' : List Char}
    (h : s.flatMap escapeChars ++ '"' :: rest = s'.flatMap escapeChars ++ '"' :: rest') :
    s = s' ∧ rest = rest' := by
  induction s generalizing s' with
  | nil =>
    cases s' with
    | nil => exact ⟨rfl, (List.cons.inj h).2⟩
    | cons c' s' =>
      have hfirst := congrArg unescape h
      rw [List.flatMap_cons, List.append_assoc, unescape_escapeChars] at hfirst
      cases hfirst
  | cons c s ih =>
    have hfirst := congrArg unescape h
    rw [List.flatMap_cons, List.append_assoc, unescape_escapeChars] at hfirst
    cases s' with
    | nil => cases hfirst
    | cons c' s' =>
      rw [List.flatMap_cons, List.append_assoc, unescape_escapeChars] at hfirst
      obtain ⟨rfl, hrest⟩ := Prod.mk.inj (Option.some.inj hfirst)
      obtain ⟨rfl, hend⟩ := ih hrest
      exact ⟨rfl, hend⟩

theorem toList_quote (s : String) :
    (quote s).toList = '"' :: (s.toList.flatMap escapeChars ++ ['"']) := by
  rw [quote, String.toList_append, String.toList_append, String.toList_join, List.flatMap_map]
  rfl

theorem quote_inj {s s' : String} {rest rest' : List Char}
    (h : (quote s).toList ++ rest = (quote s').toList ++ rest') : s = s' ∧ rest = rest' := by
  rw [toList_quote, toList_quote, List.cons_append, List.cons_append, List.append_assoc,
    List.append_assoc] at h
  obtain ⟨hs, hrest⟩ := escapeChars_inj (List.cons.inj h).2
  exact ⟨String.toList_inj.mp hs, hrest⟩

/-! ## Numbers -/

def isNumberChar (c : Char) : Bool :=
  c.isDigit || c == '-' || c == '+' || c == '.' || c == 'e' || c == 'E'

/-- The shortest decimal forms of finite floats. -/
class Decimal (F : Type) [Float64 F] : Prop where
  isNumberChar : ∀ x : F, ∀ c ∈ (Float64.display x).toList, isNumberChar c
  ne_nil : ∀ x : F, (Float64.display x).toList ≠ []
  /-- Different floats have different forms. -/
  injective : ∀ x y : F, Float64.display x = Float64.display y → x = y
  /-- A float of whole value has a point or an exponent. -/
  ne_int : ∀ (x : F) (n : Int), Float64.display x ≠ toString n

theorem isNumberChar_of_mem_toDigits {n : Nat} {c : Char} (h : c ∈ Nat.toDigits 10 n) :
    isNumberChar c := by
  simp [isNumberChar, isDigit_of_mem_toDigits h]

def intChars : Int → List Char
  | .ofNat n => Nat.toDigits 10 n
  | .negSucc n => '-' :: Nat.toDigits 10 (n + 1)

theorem toList_toString_int (n : Int) : (toString n).toList = intChars n := by
  cases n with
  | ofNat n => exact Nat.toList_repr
  | negSucc n =>
    show ("-" ++ Nat.repr (n + 1)).toList = _
    rw [String.toList_append, Nat.toList_repr]
    rfl

theorem isNumberChar_of_mem_intChars {n : Int} {c : Char} (h : c ∈ intChars n) :
    isNumberChar c := by
  cases n with
  | ofNat n => exact isNumberChar_of_mem_toDigits h
  | negSucc n =>
    rcases List.mem_cons.mp h with rfl | hmem
    · rfl
    · exact isNumberChar_of_mem_toDigits hmem

theorem intChars_inj {n m : Int} (h : intChars n = intChars m) : n = m := by
  have hsign (k l : Nat) : Nat.toDigits 10 k ≠ '-' :: Nat.toDigits 10 l := by
    intro heq
    have hmem : '-' ∈ Nat.toDigits 10 k := heq ▸ List.mem_cons_self
    exact absurd (isDigit_of_mem_toDigits hmem) (by decide)
  cases n with
  | ofNat n =>
    cases m with
    | ofNat m => exact congrArg Int.ofNat (toDigits_inj h)
    | negSucc m => exact absurd h (hsign _ _)
  | negSucc n =>
    cases m with
    | ofNat m => exact absurd h.symm (hsign _ _)
    | negSucc m =>
      have hsucc := toDigits_inj (List.cons.inj h).2
      rw [Nat.succ.inj hsucc]

def NumberEnds (rest : List Char) : Prop := ∀ c ∈ rest.head?, isNumberChar c = false

theorem append_numberEnds_inj {a b rest rest' : List Char} (ha : ∀ c ∈ a, isNumberChar c)
    (hb : ∀ c ∈ b, isNumberChar c) (hrest : NumberEnds rest) (hrest' : NumberEnds rest')
    (h : a ++ rest = b ++ rest') : a = b ∧ rest = rest' := by
  induction a generalizing b with
  | nil =>
    cases b with
    | nil => exact ⟨rfl, h⟩
    | cons c b =>
      have hhead : c ∈ rest.head? := by rw [List.nil_append] at h; rw [h]; rfl
      have hnot := hrest c hhead
      rw [hb c List.mem_cons_self] at hnot
      cases hnot
  | cons c a ih =>
    obtain ⟨hc, ha⟩ := List.forall_mem_cons.mp ha
    cases b with
    | nil =>
      have hhead : c ∈ rest'.head? := by rw [List.nil_append] at h; rw [← h]; rfl
      have hnot := hrest' c hhead
      rw [hc] at hnot
      cases hnot
    | cons c' b =>
      rw [List.cons_append, List.cons_append] at h
      obtain ⟨rfl, htail⟩ := List.cons.inj h
      obtain ⟨rfl, hend⟩ := ih ha (List.forall_mem_cons.mp hb).2 htail
      exact ⟨rfl, hend⟩

variable {F : Type}

theorem Value.inductionOn {P : Value F → Prop} (v : Value F) (null : P .null) (bool : ∀ b, P (.bool b))
    (number : ∀ n, P (.number n)) (string : ∀ s, P (.string s))
    (array : ∀ items, (∀ v ∈ items, P v) → P (.array items))
    (object : ∀ fields, (∀ field ∈ fields, P field.2) → P (.object fields)) : P v :=
  Value.rec (motive_1 := P) (motive_2 := fun items => ∀ v ∈ items, P v)
    (motive_3 := fun fields => ∀ field ∈ fields, P field.2) (motive_4 := fun field => P field.2)
    null bool number string (fun items => array items) (fun fields => object fields)
    (fun _ hmem => nomatch hmem)
    (fun _ _ hhead htail => List.forall_mem_cons.mpr ⟨hhead, htail⟩)
    (fun _ hmem => nomatch hmem)
    (fun _ _ hhead htail => List.forall_mem_cons.mpr ⟨hhead, htail⟩)
    (fun _ _ hvalue => hvalue) v

namespace Value

def kindOf (c : Char) : Nat :=
  if c = 'n' then 0
  else if c = 't' then 1
  else if c = 'f' then 2
  else if c = '"' then 3
  else if c = '[' then 4
  else if c = '\x7b' then 5
  else if isNumberChar c then 6
  else 7

def kind : Value F → Nat
  | null => 0
  | bool true => 1
  | bool false => 2
  | string _ => 3
  | array _ => 4
  | object _ => 5
  | number _ => 6

theorem kindOf_of_isNumberChar {c : Char} (h : isNumberChar c) : kindOf c = 6 := by
  have hne (d : Char) (hd : isNumberChar d = false) : c ≠ d := by
    rintro rfl
    rw [hd] at h
    cases h
  unfold kindOf
  rw [if_neg (hne _ (by decide)), if_neg (hne _ (by decide)), if_neg (hne _ (by decide)),
    if_neg (hne _ (by decide)), if_neg (hne _ (by decide)), if_neg (hne _ (by decide)), if_pos h]

theorem kind_lt (v : Value F) : v.kind < 7 := by
  cases v with
  | bool b => cases b <;> exact of_decide_eq_true rfl
  | _ => exact of_decide_eq_true rfl

end Value

variable [Float64 F]

namespace Number

def chars (n : Number F) : List Char := n.toString.toList

theorem chars_int (n : JsonInt) : (int n : Number F).chars = intChars n.val :=
  toList_toString_int n.val

variable [Decimal F]

theorem isNumberChar_of_mem_chars {n : Number F} {c : Char} (h : c ∈ n.chars) : isNumberChar c := by
  cases n with
  | int n => exact isNumberChar_of_mem_intChars (chars_int (F := F) n ▸ h)
  | float x => exact Decimal.isNumberChar x c h

theorem chars_inj {n m : Number F} (h : n.chars = m.chars) : n = m := by
  cases n with
  | int n =>
    cases m with
    | int m =>
      rw [chars_int, chars_int] at h
      have hval := intChars_inj h
      cases n
      cases m
      cases hval
      rfl
    | float y => exact absurd (String.toList_inj.mp h).symm (Decimal.ne_int y n.val)
  | float x =>
    cases m with
    | int m => exact absurd (String.toList_inj.mp h) (Decimal.ne_int x m.val)
    | float y => rw [Decimal.injective x y (String.toList_inj.mp h)]

theorem chars_ne_nil (n : Number F) : n.chars ≠ [] := by
  cases n with
  | int n =>
    rw [chars_int]
    cases n.val with
    | ofNat k => exact Nat.toDigits_ne_nil
    | negSucc k => exact List.cons_ne_nil _ _
  | float x => exact Decimal.ne_nil x

end Number

/-! ## Arrays and objects -/

def separated {A : Type} (f : A → List Char) : List A → List Char
  | [] => []
  | [a] => f a
  | a :: b :: rest => f a ++ ',' :: separated f (b :: rest)

def moreEntries {A : Type} (f : A → List Char) : List A → List Char
  | [] => []
  | a :: rest => ',' :: separated f (a :: rest)

theorem separated_cons {A : Type} (f : A → List Char) (a : A) (rest : List A) :
    separated f (a :: rest) = f a ++ moreEntries f rest := by
  cases rest with
  | nil => exact (List.append_nil (f a)).symm
  | cons b rest => rfl

/-- An entry is told apart from any other when a comma or the closing bracket follows it. -/
def ReadsOff {A : Type} (f : A → List Char) (a : A) : Prop :=
  ∀ b rest rest', NumberEnds rest → NumberEnds rest' → f a ++ rest = f b ++ rest' →
    a = b ∧ rest = rest'

theorem separated_inj {A : Type} {f : A → List Char} {close : Char}
    (hclose : isNumberChar close = false) (hcomma : close ≠ ',')
    (hfirst : ∀ a, ∃ c cs, f a = c :: cs ∧ c ≠ close) {l l' : List A} {rest rest' : List Char}
    (hread : ∀ a ∈ l, ReadsOff f a)
    (h : separated f l ++ close :: rest = separated f l' ++ close :: rest') :
    l = l' ∧ rest = rest' := by
  have hends (more : List A) (rest : List Char) :
      NumberEnds (moreEntries f more ++ close :: rest) := by
    cases more with
    | nil => exact fun c hc => Option.some.inj hc ▸ hclose
    | cons a more => exact fun c hc => Option.some.inj hc ▸ rfl
  induction l generalizing l' with
  | nil =>
    cases l' with
    | nil => exact ⟨rfl, (List.cons.inj h).2⟩
    | cons b l' =>
      obtain ⟨c, cs, hb, hc⟩ := hfirst b
      rw [separated_cons, hb] at h
      exact absurd (List.cons.inj h).1.symm hc
  | cons a l ih =>
    obtain ⟨ha, hl⟩ := List.forall_mem_cons.mp hread
    cases l' with
    | nil =>
      obtain ⟨c, cs, heq, hc⟩ := hfirst a
      rw [separated_cons, heq] at h
      exact absurd (List.cons.inj h).1 hc
    | cons b l' =>
      rw [separated_cons, separated_cons, List.append_assoc, List.append_assoc] at h
      obtain ⟨rfl, htail⟩ := ha b _ _ (hends l rest) (hends l' rest') h
      cases l with
      | nil =>
        cases l' with
        | nil => exact ⟨rfl, (List.cons.inj htail).2⟩
        | cons b l' => exact absurd (List.cons.inj htail).1 hcomma
      | cons b l =>
        cases l' with
        | nil => exact absurd (List.cons.inj htail).1.symm hcomma
        | cons b' l' =>
          obtain ⟨heq, hend⟩ := ih hl (List.cons.inj htail).2
          exact ⟨congrArg _ heq, hend⟩

namespace Value

def chars (v : Value F) : List Char := v.toString.toList

def fieldChars (field : String × Value F) : List Char :=
  (quote field.1).toList ++ ':' :: field.2.chars

theorem toList_itemsToString (items : List (Value F)) :
    (itemsToString items).toList = separated chars items := by
  induction items with
  | nil => rfl
  | cons v rest ih =>
    cases rest with
    | nil => rfl
    | cons w rest =>
      rw [itemsToString, String.toList_append, String.toList_append, ih, List.append_assoc]
      · rfl
      · exact nofun

theorem toList_fieldsToString (fields : List (String × Value F)) :
    (fieldsToString fields).toList = separated fieldChars fields := by
  induction fields with
  | nil => rfl
  | cons field rest ih =>
    cases rest with
    | nil =>
      rw [fieldsToString, String.toList_append, String.toList_append, List.append_assoc]
      rfl
    | cons field' rest =>
      rw [fieldsToString, String.toList_append, String.toList_append, String.toList_append,
        String.toList_append, ih, List.append_assoc, List.append_assoc, List.append_assoc]
      · simp [separated, fieldChars, chars]
      · exact nofun

theorem chars_null : (null : Value F).chars = ['n', 'u', 'l', 'l'] := by
  rw [chars, toString]
  rfl

theorem chars_bool (b : Bool) : (bool b : Value F).chars = (ToString.toString b).toList := by
  rw [chars, toString]

theorem chars_array (items : List (Value F)) :
    (array items).chars = '[' :: (separated chars items ++ [']']) := by
  rw [chars, toString, String.toList_append, String.toList_append, toList_itemsToString]
  rfl

theorem chars_object (fields : List (String × Value F)) :
    (object fields).chars = '\x7b' :: (separated fieldChars fields ++ ['\x7d']) := by
  rw [chars, toString, String.toList_append, String.toList_append, toList_fieldsToString]
  rfl

theorem readsOff_fieldChars {field : String × Value F} (h : ReadsOff chars field.2) :
    ReadsOff fieldChars field := by
  intro field' rest rest' hrest hrest' heq
  rw [fieldChars, fieldChars, List.append_assoc, List.append_assoc] at heq
  obtain ⟨hkey, htail⟩ := quote_inj heq
  obtain ⟨hvalue, hend⟩ := h _ rest rest' hrest hrest' (List.cons.inj htail).2
  exact ⟨Prod.ext hkey hvalue, hend⟩

variable [Decimal F]

theorem exists_chars (v : Value F) : ∃ c rest, v.chars = c :: rest ∧ kindOf c = v.kind := by
  cases v with
  | null => exact ⟨'n', ['u', 'l', 'l'], chars_null, rfl⟩
  | bool b =>
    cases b with
    | false => exact ⟨'f', ['a', 'l', 's', 'e'], chars_bool false, rfl⟩
    | true => exact ⟨'t', ['r', 'u', 'e'], chars_bool true, rfl⟩
  | string s => exact ⟨'"', _, toList_quote s, rfl⟩
  | array items => exact ⟨'[', _, chars_array items, rfl⟩
  | object fields => exact ⟨'\x7b', _, chars_object fields, rfl⟩
  | number n =>
    have hne : (number n).chars ≠ [] := n.chars_ne_nil
    obtain ⟨c, rest, heq⟩ := List.exists_cons_of_ne_nil hne
    have hmem : c ∈ n.chars := (show n.chars = _ from heq) ▸ List.mem_cons_self
    exact ⟨c, rest, heq, kindOf_of_isNumberChar (Number.isNumberChar_of_mem_chars hmem)⟩

theorem kind_eq {v w : Value F} {rest rest' : List Char} (h : v.chars ++ rest = w.chars ++ rest') :
    v.kind = w.kind := by
  obtain ⟨c, cs, hv, hkind⟩ := v.exists_chars
  obtain ⟨d, ds, hw, hkind'⟩ := w.exists_chars
  rw [hv, hw] at h
  rw [← hkind, ← hkind', (List.cons.inj h).1]

theorem append_inj_of_entries {v w : Value F} {rest rest' : List Char} (hnumber : ∀ n, v ≠ number n)
    (hitems : ∀ items, v = array items → ∀ u ∈ items, ReadsOff chars u)
    (hfields : ∀ fields, v = object fields → ∀ field ∈ fields, ReadsOff chars field.2)
    (h : v.chars ++ rest = w.chars ++ rest') : v = w ∧ rest = rest' := by
  have hkind := kind_eq h
  cases v with
  | null =>
    cases w with
    | null => exact ⟨rfl, List.append_cancel_left h⟩
    | bool b => cases b <;> cases hkind
    | _ => cases hkind
  | bool b =>
    cases b <;> cases w with
    | bool b' =>
      cases b' with
      | false => first | exact ⟨rfl, List.append_cancel_left h⟩ | cases hkind
      | true => first | exact ⟨rfl, List.append_cancel_left h⟩ | cases hkind
    | _ => cases hkind
  | number n => exact absurd rfl (hnumber n)
  | string s =>
    cases w with
    | string s' =>
      obtain ⟨hs, hend⟩ := quote_inj h
      exact ⟨congrArg string hs, hend⟩
    | bool b => cases b <;> cases hkind
    | _ => cases hkind
  | array items =>
    cases w with
    | array items' =>
      rw [chars_array, chars_array, List.cons_append, List.cons_append, List.append_assoc,
        List.append_assoc] at h
      have hfirst (v : Value F) : ∃ c cs, v.chars = c :: cs ∧ c ≠ ']' := by
        obtain ⟨c, cs, heq, hc⟩ := v.exists_chars
        refine ⟨c, cs, heq, ?_⟩
        rintro rfl
        exact absurd hc (show 7 ≠ v.kind from v.kind_lt.ne')
      obtain ⟨heq, hend⟩ := separated_inj rfl (by decide) hfirst (hitems items rfl) (List.cons.inj h).2
      exact ⟨congrArg array heq, hend⟩
    | bool b => cases b <;> cases hkind
    | _ => cases hkind
  | object fields =>
    cases w with
    | object fields' =>
      rw [chars_object, chars_object, List.cons_append, List.cons_append, List.append_assoc,
        List.append_assoc] at h
      have hfirst (field : String × Value F) : ∃ c cs, fieldChars field = c :: cs ∧ c ≠ '\x7d' := by
        rw [fieldChars, toList_quote]
        exact ⟨'"', _, rfl, by decide⟩
      obtain ⟨heq, hend⟩ := separated_inj rfl (by decide) hfirst
        (fun field hfield => readsOff_fieldChars (hfields fields rfl field hfield)) (List.cons.inj h).2
      exact ⟨congrArg object heq, hend⟩
    | bool b => cases b <;> cases hkind
    | _ => cases hkind

theorem readsOff_chars (v : Value F) : ReadsOff chars v := by
  induction v using inductionOn with
  | null | bool b | string s =>
    intro w rest rest' _ _ h
    apply append_inj_of_entries _ _ _ h <;> (intro _ heq; cases heq)
  | number n =>
    intro w rest rest' hrest hrest' h
    have hkind := kind_eq h
    cases w with
    | number m =>
      obtain ⟨hchars, hend⟩ := append_numberEnds_inj
        (fun c hc => n.isNumberChar_of_mem_chars hc) (fun c hc => m.isNumberChar_of_mem_chars hc)
        hrest hrest' h
      exact ⟨congrArg number (Number.chars_inj hchars), hend⟩
    | bool b => cases b <;> cases hkind
    | _ => cases hkind
  | array items ih =>
    intro w rest rest' _ _ h
    refine append_inj_of_entries ?_ ?_ ?_ h
    · intro _ heq
      cases heq
    · intro _ heq
      cases heq
      exact ih
    · intro _ heq
      cases heq
  | object fields ih =>
    intro w rest rest' _ _ h
    refine append_inj_of_entries ?_ ?_ ?_ h
    · intro _ heq
      cases heq
    · intro _ heq
      cases heq
    · intro _ heq
      cases heq
      exact ih

theorem toString_injective {v w : Value F} (h : v.toString = w.toString) : v = w :=
  (v.readsOff_chars w [] [] nofun nofun (congrArg (String.toList · ++ []) h)).1

theorem toVec_injective {v w : Value F} (h : v.toVec = w.toVec) : v = w :=
  toString_injective <| String.toByteArray_inj.mp <| ByteArray.ext <| Array.toList_inj.mp h

end Value

/-- Floats of whole value are written with a zero after the point. -/
instance : Decimal Int where
  isNumberChar n c h := by
    have hmem : c ∈ (toString n).toList ++ ".0".toList := String.toList_append ▸ h
    rw [toList_toString_int] at hmem
    rcases List.mem_append.mp hmem with hdigit | hzero
    · exact isNumberChar_of_mem_intChars hdigit
    · have hzeros : ".0".toList.all isNumberChar := by decide
      exact List.all_eq_true.mp hzeros c hzero
  ne_nil n h := by
    have happend : (toString n).toList ++ ".0".toList = [] := String.toList_append ▸ h
    exact absurd (List.append_eq_nil_iff.mp happend).2 (by decide)
  injective n m h := by
    have htext : (toString n).toList = (toString m).toList :=
      List.append_cancel_right (String.toList_append ▸ String.toList_append ▸ congrArg String.toList h)
    rw [toList_toString_int, toList_toString_int] at htext
    exact intChars_inj htext
  ne_int n m h := by
    have hpoint : '.' ∈ intChars m := by
      rw [← toList_toString_int, ← h]
      show '.' ∈ (toString n ++ ".0").toList
      rw [String.toList_append]
      exact List.mem_append_right _ (by decide)
    cases m with
    | ofNat m => exact absurd (isDigit_of_mem_toDigits hpoint) (by decide)
    | negSucc m =>
      have hdigit := (List.mem_cons.mp hpoint).resolve_left (by decide)
      exact absurd (isDigit_of_mem_toDigits hdigit) (by decide)

end Arcxa.Workflow
