import Arcxa.Workflow.JsonText
import Mathlib.Data.List.Sort

/-!
# Records as JSON

How `serde` writes a record as a JSON object and reads it back. A codec (`Serde`) has the two
directions together with what becomes of a value on the way: its maps come out in key order
(`sorted`), and through JSON text its floats come back as they are read (`reread`). Records are put
together field by field (`Record.cons`), with the rules of `skip_serializing_if = "Option::is_none"`
and `default`.

Reading an optional field takes `null` for a missing field, whatever its type. That is why
`Field.optional` does not give back a value that was written as `null`.
-/

namespace Arcxa

open BTreeMap

theorem map_eq_self_iff {A : Type} {f : A → A} {l : List A} :
    l.map f = l ↔ ∀ a ∈ l, f a = a := by
  have hmap : l.map f = l ↔ l.map f = l.map id := by rw [List.map_id]
  rw [hmap, List.map_inj_left]
  rfl

namespace Workflow.Value

variable {F : Type}

/-- The objects of a `serde_json` value are maps: their entries stand in key order. -/
inductive Ordered : Value F → Prop
  | null : Ordered .null
  | bool (b : Bool) : Ordered (.bool b)
  | number (n : Number F) : Ordered (.number n)
  | string (s : String) : Ordered (.string s)
  | array {items : List (Value F)} (hitems : ∀ v ∈ items, Ordered v) : Ordered (.array items)
  | object {fields : List (String × Value F)} (hsorted : fields.Pairwise (·.1 < ·.1))
    (hfields : ∀ field ∈ fields, Ordered field.2) : Ordered (.object fields)

mutual

def reread (r : F → F) : Value F → Value F
  | .number (.float x) => .number (.float (r x))
  | .array items => .array (rereadItems r items)
  | .object fields => .object (rereadFields r fields)
  | v => v

def rereadItems (r : F → F) : List (Value F) → List (Value F)
  | [] => []
  | v :: rest => v.reread r :: rereadItems r rest

def rereadFields (r : F → F) : List (String × Value F) → List (String × Value F)
  | [] => []
  | (k, v) :: rest => (k, v.reread r) :: rereadFields r rest

end

mutual

def depth : Value F → Nat
  | .array items => 1 + itemsDepth items
  | .object fields => 1 + fieldsDepth fields
  | _ => 0

def itemsDepth : List (Value F) → Nat
  | [] => 0
  | v :: rest => max v.depth (itemsDepth rest)

def fieldsDepth : List (String × Value F) → Nat
  | [] => 0
  | (_, v) :: rest => max v.depth (fieldsDepth rest)

end

mutual

def floats : Value F → List F
  | .number (.float x) => [x]
  | .array items => itemsFloats items
  | .object fields => fieldsFloats fields
  | _ => []

def itemsFloats : List (Value F) → List F
  | [] => []
  | v :: rest => v.floats ++ itemsFloats rest

def fieldsFloats : List (String × Value F) → List F
  | [] => []
  | (_, v) :: rest => v.floats ++ fieldsFloats rest

end

variable (r : F → F) (items : List (Value F))

theorem rereadItems_eq : rereadItems r items = items.map (reread r) := by
  induction items with
  | nil => rfl
  | cons v rest ih => rw [rereadItems, ih, List.map_cons]

variable (fields : List (String × Value F))

theorem rereadFields_eq :
    rereadFields r fields = fields.map fun field => (field.1, field.2.reread r) := by
  induction fields with
  | nil => rfl
  | cons field rest ih =>
    rw [rereadFields, ih, List.map_cons]

@[simp] theorem reread_array : (array items).reread r = .array (items.map (reread r)) := by
  rw [reread, rereadItems_eq]

@[simp] theorem reread_object :
    (object fields).reread r = .object (fields.map fun field => (field.1, field.2.reread r)) := by
  rw [reread, rereadFields_eq]

theorem itemsFloats_eq : itemsFloats items = items.flatMap floats := by
  induction items with
  | nil => rfl
  | cons v rest ih => rw [itemsFloats, ih, List.flatMap_cons]

theorem fieldsFloats_eq : fieldsFloats fields = fields.flatMap fun field => field.2.floats := by
  induction fields with
  | nil => rfl
  | cons field rest ih => rw [fieldsFloats, ih, List.flatMap_cons]

@[simp] theorem isNull_reread (v : Value F) : (v.reread r).isNull = v.isNull := by
  cases v with
  | number n => cases n <;> rfl
  | array items => rw [reread_array]; rfl
  | object fields => rw [reread_object]; rfl
  | _ => rfl

/-- A value is reread as it was when its floats are. -/
theorem reread_eq_self_iff (v : Value F) : v.reread r = v ↔ ∀ x ∈ v.floats, r x = x := by
  induction v using inductionOn with
  | null => exact iff_of_true rfl nofun
  | bool b => exact iff_of_true rfl nofun
  | string s => exact iff_of_true rfl nofun
  | number n =>
    cases n with
    | int n => exact iff_of_true rfl nofun
    | float x => simp [reread, floats]
  | array items ih =>
    rw [reread_array, array.injEq, map_eq_self_iff, floats, itemsFloats_eq, List.forall_mem_flatMap]
    exact forall₂_congr ih
  | object fields ih =>
    rw [reread_object, object.injEq, map_eq_self_iff, floats, fieldsFloats_eq,
      List.forall_mem_flatMap]
    refine forall₂_congr fun field hfield => ?_
    rw [Prod.mk.injEq, and_iff_right rfl, ih field hfield]

theorem depth_object_le_iff {fields : List (String × Value F)} {n : Nat} :
    (object fields).depth ≤ n + 1 ↔ ∀ field ∈ fields, field.2.depth ≤ n := by
  have hmax : fieldsDepth fields ≤ n ↔ ∀ field ∈ fields, field.2.depth ≤ n := by
    induction fields with
    | nil => simp [fieldsDepth]
    | cons field rest ih =>
      rw [fieldsDepth, max_le_iff, ih, List.forall_mem_cons]
  rw [depth, ← hmax]
  omega

/-- Rereading leaves the order of the keys. -/
theorem Ordered.reread {v : Value F} (h : v.Ordered) (r : F → F) : (v.reread r).Ordered := by
  induction h with
  | null => exact .null
  | bool b => exact .bool b
  | string s => exact .string s
  | number n => cases n <;> exact .number _
  | array _ ih =>
    rw [reread_array]
    exact .array (List.forall_mem_map.mpr ih)
  | object hsorted _ ih =>
    rw [reread_object]
    exact .object (List.pairwise_map.mpr hsorted) (List.forall_mem_map.mpr ih)

mutual

def canonicalizeValue : Value F → Value F
  | .array items => .array (canonicalizeItems items)
  | .object fields =>
    let canonical := canonicalizeFields fields
    let keys := (fields.map (·.1)).insertionSort (· ≤ ·)
    .object (BTreeMap.ofList (keys.filterMap fun key =>
      (BTreeMap.lookupList key canonical).map (key, ·))).entries
  | other => other

def canonicalizeItems : List (Value F) → List (Value F)
  | [] => []
  | v :: rest => canonicalizeValue v :: canonicalizeItems rest

def canonicalizeFields : List (String × Value F) → List (String × Value F)
  | [] => []
  | (k, v) :: rest => (k, canonicalizeValue v) :: canonicalizeFields rest

end

theorem canonicalizeItems_eq : canonicalizeItems items = items.map canonicalizeValue := by
  induction items with
  | nil => rfl
  | cons v rest ih => rw [canonicalizeItems, ih, List.map_cons]

theorem canonicalizeFields_eq :
    canonicalizeFields fields = fields.map fun field => (field.1, canonicalizeValue field.2) := by
  induction fields with
  | nil => rfl
  | cons field rest ih => rw [canonicalizeFields, ih, List.map_cons]

/-- What is in order is canonical already. -/
theorem canonicalizeValue_of_ordered {v : Value F} (h : v.Ordered) : canonicalizeValue v = v := by
  induction h with
  | null | bool b | number n | string s => rfl
  | array _ ih => rw [canonicalizeValue, canonicalizeItems_eq, map_eq_self_iff.mpr ih]
  | @object fields hsorted _ ih =>
    have hinner : canonicalizeFields fields = fields := by
      rw [canonicalizeFields_eq]
      exact map_eq_self_iff.mpr fun field hfield => by rw [ih field hfield]
    have hkeys : (fields.map (·.1)).insertionSort (· ≤ ·) = fields.map (·.1) :=
      ((List.pairwise_map.mpr hsorted).imp le_of_lt).insertionSort_eq
    have hentries : ((fields.map (·.1)).filterMap fun key =>
        (lookupList key fields).map (key, ·)) = fields := by
      rw [List.filterMap_map]
      refine (List.filterMap_congr fun field hfield => ?_).trans List.filterMap_some
      exact congrArg (Option.map _) (lookupList_of_mem hsorted hfield)
    simp only [canonicalizeValue]
    rw [hinner, hkeys, hentries]
    exact congrArg (fun m : BTreeMap String (Value F) => Value.object m.entries)
      (ofList_entries ⟨fields, hsorted⟩)

/-- A canonical value is in order. -/
theorem ordered_canonicalizeValue (v : Value F) : (canonicalizeValue v).Ordered := by
  induction v using inductionOn with
  | null => exact .null
  | bool b => exact .bool b
  | string s => exact .string s
  | number n => exact .number n
  | array items ih =>
    rw [canonicalizeValue, canonicalizeItems_eq]
    exact .array (List.forall_mem_map.mpr ih)
  | object fields ih =>
    simp only [canonicalizeValue]
    refine .object (sorted _) fun field hfield => ?_
    have hmem := mem_of_get_ofList (mem_entries_iff.mp hfield)
    obtain ⟨key, -, hkey⟩ := List.mem_filterMap.mp hmem
    obtain ⟨inner, hinner, hentry⟩ := Option.map_eq_some_iff.mp hkey
    obtain ⟨-, hvalue⟩ := Prod.mk.inj hentry
    have hcanonical := mem_of_lookupList hinner
    rw [canonicalizeFields_eq] at hcanonical
    obtain ⟨given, hgiven, heq⟩ := List.mem_map.mp hcanonical
    obtain ⟨-, hcanonical⟩ := Prod.mk.inj heq
    rw [← hvalue, ← hcanonical]
    exact ih given hgiven

end Workflow.Value

namespace Traceability

open Workflow (Value Number JsonInt Float64)

variable {F A B S : Type}

/-! ## Codecs -/

/-- How a type is written as JSON and read from it. -/
structure Serde (F A : Type) where
  toValue : A → Value F
  fromValue : Value F → Option A
  /-- The same with every map in key order. -/
  sorted : A → A
  /-- The floats are finite. -/
  Finite : A → Prop
  /-- What comes back through JSON text. -/
  reread : (F → F) → A → A
  ordered : ∀ a, (toValue a).Ordered
  toValue_sorted : ∀ a, toValue (sorted a) = toValue a
  sorted_of_toValue : ∀ a b, Finite a → toValue a = toValue b → sorted a = sorted b
  fromValue_reread : ∀ r a, Finite a → fromValue ((toValue a).reread r) = some (reread r a)

def Serde.plain (toValue : A → Value F) (fromValue : Value F → Option A)
    (ordered : ∀ a, (toValue a).Ordered)
    (fromValue_reread : ∀ r a, fromValue ((toValue a).reread r) = some a)
    (injective : ∀ a b, toValue a = toValue b → a = b) : Serde F A where
  toValue
  fromValue
  sorted a := a
  Finite _ := True
  reread _ a := a
  ordered
  toValue_sorted _ := rfl
  sorted_of_toValue a b _ := injective a b
  fromValue_reread r a _ := fromValue_reread r a

namespace Serde

def string : Serde F String :=
  .plain .string Value.asStr .string (fun _ _ => rfl) (fun _ _ h => Value.string.inj h)

def text (toText : A → String) (ofText : String → Option A)
    (h : ∀ a, ofText (toText a) = some a) : Serde F A :=
  .plain (fun a => .string (toText a)) (fun v => v.asStr.bind ofText) (fun a => .string (toText a))
    (fun _ a => h a) fun a b heq => by
      have htext := congrArg ofText (Value.string.inj heq)
      rw [h, h] at htext
      exact Option.some.inj htext

theorem u64_range (n : UInt64) : -2 ^ 63 ≤ (n.toNat : Int) ∧ (n.toNat : Int) < 2 ^ 64 := by
  have hlt : n.toNat < 2 ^ 64 := n.toNat_lt
  omega

/-- A `u64` is read as it was written. -/
theorem asU64_u64 (n : UInt64) : (Number.int (F := F) ⟨n.toNat, u64_range n⟩).asU64 = some n := by
  simp [Number.asU64]

def u64 : Serde F UInt64 where
  toValue n := .number (.int ⟨n.toNat, u64_range n⟩)
  fromValue
    | .number n => n.asU64
    | _ => none
  sorted n := n
  Finite _ := True
  reread _ n := n
  ordered _ := .number _
  toValue_sorted _ := rfl
  sorted_of_toValue a b _ h := by
    have hval := congrArg JsonInt.val (Number.int.inj (Value.number.inj h))
    exact UInt64.toNat_inj.mp (Int.ofNat_inj.mp hval)
  fromValue_reread _ n _ := asU64_u64 n

section Plain

variable (r : F → F) (toText : A → String) (ofText : String → Option A)
  (h : ∀ a, ofText (toText a) = some a) (a : A) (s : String) (n : UInt64)

@[simp] theorem sorted_string : (string : Serde F String).sorted = id := rfl

@[simp] theorem finite_string : (string : Serde F String).Finite s ↔ True := .rfl

@[simp] theorem reread_string : string.reread r = id := rfl

@[simp] theorem sorted_text : (text toText ofText h : Serde F A).sorted = id := rfl

@[simp] theorem finite_text : (text toText ofText h : Serde F A).Finite a ↔ True := .rfl

@[simp] theorem reread_text : (text toText ofText h).reread r = id := rfl

@[simp] theorem sorted_u64 : (u64 : Serde F UInt64).sorted = id := rfl

@[simp] theorem finite_u64 : (u64 : Serde F UInt64).Finite n ↔ True := .rfl

@[simp] theorem reread_u64 : u64.reread r = id := rfl

end Plain

def list (s : Serde F A) : Serde F (List A) where
  toValue l := .array (l.map s.toValue)
  fromValue
    | .array items => items.mapM s.fromValue
    | _ => none
  sorted l := l.map s.sorted
  Finite l := ∀ a ∈ l, s.Finite a
  reread r l := l.map (s.reread r)
  ordered l := .array (List.forall_mem_map.mpr fun a _ => s.ordered a)
  toValue_sorted l := by
    rw [List.map_map]
    exact congrArg Value.array (List.map_congr_left fun a _ => s.toValue_sorted a)
  sorted_of_toValue l l' hfinite h := by
    have hitems := Value.array.inj h
    induction l generalizing l' with
    | nil => rw [List.map_eq_nil_iff.mp hitems.symm]
    | cons a rest ih =>
      obtain ⟨b, rest', rfl, hhead, htail⟩ := List.map_eq_cons_iff.mp hitems.symm
      obtain ⟨ha, hrest⟩ := List.forall_mem_cons.mp hfinite
      rw [List.map_cons, List.map_cons, s.sorted_of_toValue a b ha hhead.symm,
        ih rest' hrest (congrArg Value.array htail.symm) htail.symm]
  fromValue_reread r l hfinite := by
    rw [Value.reread_array, List.map_map]
    show (l.map _).mapM s.fromValue = _
    induction l with
    | nil => rfl
    | cons a rest ih =>
      obtain ⟨ha, hrest⟩ := List.forall_mem_cons.mp hfinite
      rw [List.map_cons, List.mapM_cons, ih hrest, Function.comp_apply,
        s.fromValue_reread r a ha]
      rfl

@[simp] theorem sorted_list (s : Serde F A) (l : List A) :
    s.list.sorted l = l.map s.sorted := rfl

@[simp] theorem finite_list (s : Serde F A) (l : List A) :
    s.list.Finite l ↔ ∀ a ∈ l, s.Finite a := .rfl

@[simp] theorem reread_list (s : Serde F A) (r : F → F) (l : List A) :
    s.list.reread r l = l.map (s.reread r) := rfl

end Serde

/-- A `serde_json::Value`. -/
structure Json (F : Type) where
  value : Value F
  ordered : value.Ordered

theorem Json.ext {a b : Json F} (h : a.value = b.value) : a = b := by
  cases a
  cases b
  cases h
  rfl

def Json.reread (r : F → F) (json : Json F) : Json F := ⟨json.value.reread r, json.ordered.reread r⟩

def Serde.json : Serde F (Json F) where
  toValue json := json.value
  fromValue v := some ⟨v.canonicalizeValue, v.ordered_canonicalizeValue⟩
  sorted json := json
  Finite _ := True
  reread := Json.reread
  ordered json := json.ordered
  toValue_sorted _ := rfl
  sorted_of_toValue _ _ _ h := Json.ext h
  fromValue_reread r json _ :=
    congrArg some (Json.ext (Value.canonicalizeValue_of_ordered (json.ordered.reread r)))

@[simp] theorem Serde.sorted_json : (Serde.json : Serde F (Json F)).sorted = id := rfl

@[simp] theorem Serde.finite_json (json : Json F) : Serde.json.Finite json ↔ True := .rfl

@[simp] theorem Serde.reread_json (r : F → F) : Serde.json.reread r = Json.reread r := rfl

/-- An `f64`. A JSON number holds a finite one. -/
inductive Double (F : Type) where
  | finite (x : F)
  | nonFinite (bits : UInt64)

namespace Double

def IsFinite : Double F → Prop
  | finite _ => True
  | nonFinite _ => False

def reread (r : F → F) : Double F → Double F
  | finite x => finite (r x)
  | nonFinite bits => nonFinite bits

end Double

/-- Infinities and NaNs are written as `null`. -/
def Serde.double [Float64 F] : Serde F (Double F) where
  toValue
    | .finite x => .number (.float x)
    | .nonFinite _ => .null
  fromValue
    | .number n => some (.finite n.asF64)
    | _ => none
  sorted x := x
  Finite := Double.IsFinite
  reread := Double.reread
  ordered x := by
    cases x with
    | finite x => exact .number _
    | nonFinite bits => exact .null
  toValue_sorted _ := rfl
  sorted_of_toValue x y hfinite h := by
    cases x with
    | finite x =>
      cases y with
      | finite y =>
        cases h
        rfl
      | nonFinite bits => cases h
    | nonFinite bits => cases hfinite
  fromValue_reread r x hfinite := by
    cases x with
    | finite x => rfl
    | nonFinite bits => cases hfinite

@[simp] theorem Serde.sorted_double [Float64 F] :
    (Serde.double : Serde F (Double F)).sorted = id := rfl

@[simp] theorem Serde.finite_double [Float64 F] (x : Double F) :
    Serde.double.Finite x ↔ x.IsFinite := .rfl

@[simp] theorem Serde.reread_double [Float64 F] (r : F → F) :
    Serde.double.reread r = Double.reread r := rfl

/-- `HashMap<String, String>`: the entries in the order in which the map is iterated. -/
structure HashMap where
  entries : List (String × String)
  nodup : (entries.map (·.1)).Nodup

namespace HashMap

def empty : HashMap := ⟨[], List.nodup_nil⟩

def ofMap (m : BTreeMap String String) : HashMap := ⟨m.entries, m.nodup_keys⟩

def sorted (m : HashMap) : HashMap := ofMap (.ofList m.entries)

/-- Two maps sort to one when they have the same entries. -/
theorem sorted_eq_iff {m m' : HashMap} : m.sorted = m'.sorted ↔ m.entries.Perm m'.entries := by
  constructor
  · intro h
    have hperm := perm_entries_ofList m.nodup
    have hentries : (ofList m.entries).entries = (ofList m'.entries).entries :=
      congrArg HashMap.entries h
    rw [hentries] at hperm
    exact hperm.symm.trans (perm_entries_ofList m'.nodup)
  · exact fun h => congrArg ofMap (ofList_eq_of_perm m.nodup h)

/-- `serialize_map`, which inserts the entries as the map is iterated. -/
def toValue (m : HashMap) : Value F :=
  .object (BTreeMap.ofList (m.entries.map fun entry => (entry.1, .string entry.2))).entries

def readEntry (field : String × Value F) : Option (String × String) :=
  field.2.asStr.map (field.1, ·)

def fromValue : Value F → Option HashMap
  | .object fields => (fields.mapM readEntry).map fun entries => ofMap (.ofList entries)
  | _ => none

theorem toValue_eq (m : HashMap) : (m.toValue : Value F) =
    .object (m.sorted.entries.map fun entry => (entry.1, .string entry.2)) := by
  have hkeys : ((m.entries.map fun entry => (entry.1, (Value.string entry.2 : Value F))).map
      (·.1)).Nodup := by
    rw [List.map_map]
    exact m.nodup
  have hperm := (perm_entries_ofList m.nodup).map
    fun entry => (entry.1, (Value.string entry.2 : Value F))
  have hsorted : (m.sorted.entries.map fun entry =>
      (entry.1, (Value.string entry.2 : Value F))).Pairwise (·.1 < ·.1) :=
    List.pairwise_map.mpr (BTreeMap.sorted _)
  rw [toValue, BTreeMap.ofList_eq_of_perm hkeys hperm.symm]
  exact congrArg (fun m : BTreeMap String (Value F) => Value.object m.entries)
    (ofList_entries ⟨_, hsorted⟩)

theorem sorted_sorted (m : HashMap) : m.sorted.sorted = m.sorted :=
  sorted_eq_iff.mpr (BTreeMap.perm_entries_ofList m.nodup)

/-- Maps that are written alike are one map in key order. -/
theorem sorted_of_toValue {m m' : HashMap} (h : (m.toValue : Value F) = m'.toValue) :
    m.sorted = m'.sorted := by
  rw [toValue_eq, toValue_eq] at h
  have hentries : m.sorted.entries = m'.sorted.entries := by
    refine List.map_injective_iff.mpr ?_ (Value.object.inj h)
    intro entry entry' heq
    obtain ⟨hkey, hvalue⟩ := Prod.mk.inj heq
    exact Prod.ext hkey (Value.string.inj hvalue)
  exact sorted_sorted m ▸ sorted_sorted m' ▸ congrArg (fun l => ofMap (.ofList l)) hentries

/-- A map is read back in key order. -/
theorem fromValue_reread (r : F → F) (m : HashMap) :
    fromValue (m.toValue.reread r) = some m.sorted := by
  have hread : ∀ entries : List (String × String),
      (entries.map fun entry => (entry.1, (Value.string entry.2 : Value F))).mapM readEntry =
        some entries := by
    intro entries
    induction entries with
    | nil => rfl
    | cons entry rest ih =>
      rw [List.map_cons, List.mapM_cons, ih]
      rfl
  have hstrings : (fun entry : String × String => (entry.1, (Value.string entry.2 : Value F).reread r)) =
      fun entry => (entry.1, .string entry.2) := rfl
  rw [toValue_eq, Value.reread_object, List.map_map, Function.comp_def, hstrings, fromValue, hread]
  exact congrArg some (sorted_sorted m)

end HashMap

def Serde.map : Serde F HashMap where
  toValue := HashMap.toValue
  fromValue := HashMap.fromValue
  sorted := HashMap.sorted
  Finite _ := True
  reread _ := HashMap.sorted
  ordered m := by
    rw [HashMap.toValue_eq]
    exact .object (List.pairwise_map.mpr (BTreeMap.sorted _))
      (List.forall_mem_map.mpr fun _ _ => .string _)
  toValue_sorted m := by rw [HashMap.toValue_eq, HashMap.toValue_eq, HashMap.sorted_sorted]
  sorted_of_toValue _ _ _ := HashMap.sorted_of_toValue
  fromValue_reread r m _ := HashMap.fromValue_reread r m

@[simp] theorem Serde.sorted_map (m : HashMap) : (Serde.map : Serde F HashMap).sorted m = m.sorted :=
  rfl

@[simp] theorem Serde.finite_map (m : HashMap) : (Serde.map : Serde F HashMap).Finite m ↔ True := .rfl

@[simp] theorem Serde.reread_map (r : F → F) (m : HashMap) : Serde.map.reread r m = m.sorted := rfl

/-! ## Fields -/

/-- How a field of a record is written, if it is, and read, where it may be missing. -/
structure Field (F A : Type) where
  write : A → Option (Value F)
  read : Option (Value F) → Option A
  sorted : A → A
  Finite : A → Prop
  reread : (F → F) → A → A
  ordered : ∀ a, ∀ v ∈ write a, v.Ordered
  write_sorted : ∀ a, write (sorted a) = write a
  sorted_of_write : ∀ a b, Finite a → write a = write b → sorted a = sorted b
  read_reread : ∀ r a, Finite a → read ((write a).map (Value.reread r)) = some (reread r a)

namespace Field

def required (s : Serde F A) : Field F A where
  write a := some (s.toValue a)
  read v := v.bind s.fromValue
  sorted := s.sorted
  Finite := s.Finite
  reread := s.reread
  ordered a _ hv := Option.some.inj hv ▸ s.ordered a
  write_sorted a := congrArg some (s.toValue_sorted a)
  sorted_of_write a b hfinite h := s.sorted_of_toValue a b hfinite (Option.some.inj h)
  read_reread := s.fromValue_reread

/-- `#[serde(default)]`. -/
def default (s : Serde F A) (default : A) : Field F A where
  write a := some (s.toValue a)
  read
    | none => some default
    | some v => s.fromValue v
  sorted := s.sorted
  Finite := s.Finite
  reread := s.reread
  ordered a _ hv := Option.some.inj hv ▸ s.ordered a
  write_sorted a := congrArg some (s.toValue_sorted a)
  sorted_of_write a b hfinite h := s.sorted_of_toValue a b hfinite (Option.some.inj h)
  read_reread := s.fromValue_reread

/-- `#[serde(skip_serializing_if = "Option::is_none")]`. What was written as `null` is not there
when it is read. -/
def optional (s : Serde F A) : Field F (Option A) where
  write a := a.map s.toValue
  read
    | none => some none
    | some v => if v.isNull then some none else (s.fromValue v).map some
  sorted a := a.map s.sorted
  Finite a := ∀ x ∈ a, s.Finite x
  reread r a := a.bind fun x => if (s.toValue x).isNull then none else some (s.reread r x)
  ordered a v hv := by
    obtain ⟨x, -, rfl⟩ := Option.map_eq_some_iff.mp hv
    exact s.ordered x
  write_sorted a := by
    rw [Option.map_map]
    exact congrArg (Option.map · a) (funext s.toValue_sorted)
  sorted_of_write a b hfinite h := by
    cases a with
    | none => rw [Option.map_eq_none_iff.mp h.symm]
    | some x =>
      obtain ⟨y, rfl, hy⟩ := Option.map_eq_some_iff.mp h.symm
      exact congrArg some (s.sorted_of_toValue x y (hfinite x rfl) hy.symm)
  read_reread r a hfinite := by
    cases a with
    | none => rfl
    | some x =>
      simp only [Option.map_some, Option.bind_some, Value.isNull_reread,
        s.fromValue_reread r x (hfinite x rfl)]
      split_ifs <;> rfl

variable (s : Serde F A)

@[simp] theorem sorted_required (a : A) : (required s).sorted a = s.sorted a := rfl

@[simp] theorem sorted_default (d a : A) : (default s d).sorted a = s.sorted a := rfl

@[simp] theorem sorted_optional (a : Option A) :
    (optional s).sorted a = a.map s.sorted := rfl

@[simp] theorem finite_required (a : A) : (required s).Finite a ↔ s.Finite a := .rfl

@[simp] theorem finite_default (d a : A) :
    (default s d).Finite a ↔ s.Finite a := .rfl

@[simp] theorem finite_optional (a : Option A) :
    (optional s).Finite a ↔ ∀ x ∈ a, s.Finite x := .rfl

variable (r : F → F)

@[simp] theorem reread_required (a : A) :
    (required s).reread r a = s.reread r a := rfl

@[simp] theorem reread_default (d a : A) :
    (default s d).reread r a = s.reread r a := rfl

/-- An optional value comes back if its codec never writes `null`. -/
theorem reread_optional {s : Serde F A} (h : ∀ a, (s.toValue a).isNull = false) (r : F → F)
    (a : Option A) : (optional s).reread r a = a.map (s.reread r) := by
  cases a with
  | none => rfl
  | some x =>
    show (if (s.toValue x).isNull then none else some (s.reread r x)) = _
    rw [h]
    rfl

@[simp] theorem reread_optional_string (a : Option String) : (optional .string).reread r a = a := by
  rw [reread_optional fun _ => rfl, Serde.reread_string, Option.map_id_fun, id]

@[simp] theorem reread_optional_text (toText : A → String) (ofText : String → Option A)
    (h : ∀ a, ofText (toText a) = some a) (r : F → F) (a : Option A) :
    (optional (.text toText ofText h)).reread r a = a := by
  rw [reread_optional fun _ => rfl, Serde.reread_text, Option.map_id_fun, id]

@[simp] theorem reread_optional_u64 (a : Option UInt64) : (optional .u64).reread r a = a := by
  rw [reread_optional fun _ => rfl, Serde.reread_u64, Option.map_id_fun, id]

end Field

/-! ## Records -/

/-- The fields of a record in their order. -/
structure Record (F A : Type) where
  names : List String
  write : A → List (Option (Value F))
  read : (String → Option (Value F)) → Option A
  sorted : A → A
  Finite : A → Prop
  reread : (F → F) → A → A
  length_write : ∀ a, (write a).length = names.length
  ordered : ∀ a v, some v ∈ write a → v.Ordered
  write_sorted : ∀ a, write (sorted a) = write a
  sorted_of_write : ∀ a b, Finite a → write a = write b → sorted a = sorted b
  read_reread : ∀ r a get, Finite a →
    names.map get = (write a).map (Option.map (Value.reread r)) → read get = some (reread r a)

namespace Record

def nil : Record F Unit where
  names := []
  write _ := []
  read _ := some ()
  sorted a := a
  Finite _ := True
  reread _ a := a
  length_write _ := rfl
  ordered _ _ h := nomatch h
  write_sorted _ := rfl
  sorted_of_write _ _ _ _ := rfl
  read_reread _ _ _ _ _ := rfl

def cons (name : String) (field : Field F A) (rest : Record F B) : Record F (A × B) where
  names := name :: rest.names
  write p := field.write p.1 :: rest.write p.2
  read get := do
    let a ← field.read (get name)
    let b ← rest.read get
    return (a, b)
  sorted p := (field.sorted p.1, rest.sorted p.2)
  Finite p := field.Finite p.1 ∧ rest.Finite p.2
  reread r p := (field.reread r p.1, rest.reread r p.2)
  length_write p := congrArg (· + 1) (rest.length_write p.2)
  ordered p v h := by
    rcases List.mem_cons.mp h with hhead | htail
    · exact field.ordered p.1 v hhead.symm
    · exact rest.ordered p.2 v htail
  write_sorted p := by rw [field.write_sorted, rest.write_sorted]
  sorted_of_write p q hfinite h := by
    obtain ⟨hhead, htail⟩ := List.cons.inj h
    rw [field.sorted_of_write _ _ hfinite.1 hhead, rest.sorted_of_write _ _ hfinite.2 htail]
  read_reread r p get hfinite h := by
    rw [List.map_cons, List.map_cons] at h
    obtain ⟨hhead, htail⟩ := List.cons.inj h
    rw [hhead, field.read_reread r p.1 hfinite.1, rest.read_reread r p.2 get hfinite.2 htail]
    rfl

def of (record : Record F A) (fields : S → A) (make : A → S) (h : ∀ a, fields (make a) = a) :
    Record F S where
  names := record.names
  write s := record.write (fields s)
  read get := (record.read get).map make
  sorted s := make (record.sorted (fields s))
  Finite s := record.Finite (fields s)
  reread r s := make (record.reread r (fields s))
  length_write s := record.length_write (fields s)
  ordered s := record.ordered (fields s)
  write_sorted s := by rw [h, record.write_sorted]
  sorted_of_write s t hfinite heq :=
    congrArg make (record.sorted_of_write _ _ hfinite heq)
  read_reread r s get hfinite heq := by rw [record.read_reread r _ get hfinite heq, Option.map_some]

section Components

variable (name : String) (field : Field F A) (rest : Record F B) (r : F → F) (a : A) (b : B)

@[simp] theorem names_nil : (nil : Record F Unit).names = [] := rfl

@[simp] theorem names_cons : (cons name field rest).names = name :: rest.names := rfl

@[simp] theorem write_nil (u : Unit) : (nil : Record F Unit).write u = [] := rfl

@[simp] theorem write_cons : (cons name field rest).write (a, b) = field.write a :: rest.write b := rfl

@[simp] theorem sorted_nil (u : Unit) : (nil : Record F Unit).sorted u = u := rfl

@[simp] theorem sorted_cons :
    (cons name field rest).sorted (a, b) = (field.sorted a, rest.sorted b) := rfl

@[simp] theorem finite_nil (u : Unit) : (nil : Record F Unit).Finite u ↔ True := .rfl

@[simp] theorem finite_cons :
    (cons name field rest).Finite (a, b) ↔ field.Finite a ∧ rest.Finite b := .rfl

@[simp] theorem reread_nil (u : Unit) : (nil : Record F Unit).reread r u = u := rfl

@[simp] theorem reread_cons :
    (cons name field rest).reread r (a, b) = (field.reread r a, rest.reread r b) := rfl

variable (record : Record F A) (fields : S → A) (make : A → S) (h : ∀ a, fields (make a) = a) (s : S)

@[simp] theorem names_of : (record.of fields make h).names = record.names := rfl

@[simp] theorem write_of : (record.of fields make h).write s = record.write (fields s) := rfl

@[simp] theorem sorted_of :
    (record.of fields make h).sorted s = make (record.sorted (fields s)) := rfl

@[simp] theorem finite_of : (record.of fields make h).Finite s ↔ record.Finite (fields s) := .rfl

@[simp] theorem reread_of :
    (record.of fields make h).reread r s = make (record.reread r (fields s)) := rfl

end Components

variable (record : Record F A)

def entries (names : List String) (values : List (Option (Value F))) : List (String × Value F) :=
  (names.zip values).filterMap fun field => field.2.map (field.1, ·)

/-- Only fields of the record are written, in its order. -/
theorem keys_entries_sublist (names : List String) (values : List (Option (Value F))) :
    ((entries names values).map (·.1)).Sublist names := by
  induction names generalizing values with
  | nil => exact List.Sublist.slnil
  | cons name rest ih =>
    cases values with
    | nil => exact List.nil_sublist _
    | cons value values =>
      cases value with
      | none => exact (ih values).cons name
      | some v => exact (ih values).cons_cons name

/-- Each field is found under its own name. -/
theorem map_lookup_entries {names : List String} {values : List (Option (Value F))}
    (hnames : names.Nodup) (hlength : values.length = names.length) :
    names.map (fun name => BTreeMap.lookupList name (entries names values)) = values := by
  induction names generalizing values with
  | nil => exact (List.length_eq_zero_iff.mp hlength).symm
  | cons name rest ih =>
    obtain ⟨hname, hrest⟩ := List.nodup_cons.mp hnames
    cases values with
    | nil => cases hlength
    | cons value values =>
      have htail := ih hrest (Nat.succ.inj hlength)
      have hnone : lookupList name (entries rest values) = none :=
        lookupList_of_notMem fun hmem => hname ((keys_entries_sublist _ _).mem hmem)
      cases value with
      | none =>
        have hentries : entries (name :: rest) (none :: values) = entries rest values := rfl
        rw [hentries, List.map_cons, hnone, htail]
      | some v =>
        have hentries : entries (name :: rest) (some v :: values) =
            (name, v) :: entries rest values := rfl
        rw [hentries, List.map_cons, lookupList, if_pos rfl]
        refine congrArg _ ((List.map_congr_left fun other hother => ?_).trans htail)
        have hne : other ≠ name := by
          rintro rfl
          exact hname hother
        rw [lookupList, if_neg hne]

def object (a : A) : BTreeMap String (Value F) := .ofList (entries record.names (record.write a))

theorem nodup_entries {names : List String} (hnames : names.Nodup)
    (values : List (Option (Value F))) : ((entries names values).map (·.1)).Nodup :=
  (keys_entries_sublist names values).nodup hnames

variable (hnames : record.names.Nodup)

include hnames

/-- The object has each field under its name. -/
theorem map_get_object (a : A) : record.names.map (record.object a).get = record.write a := by
  rw [← map_lookup_entries hnames (record.length_write a)]
  exact List.map_congr_left fun name _ =>
    get_ofList_of_nodup (nodup_entries hnames _) name

/-- A field that is skipped is missing from the object, and nothing else is. -/
theorem object_of_skipped {a b : A} {k : String}
    (h : record.write b = record.names.zipWith (fun name value => if name = k then none else value)
      (record.write a)) : record.object b = (record.object a).remove k := by
  have hentries : ∀ (names : List String) (values : List (Option (Value F))),
      entries names (names.zipWith (fun name value => if name = k then none else value) values) =
        (entries names values).filter fun field => decide (field.1 ≠ k) := by
    intro names
    induction names with
    | nil => exact fun _ => rfl
    | cons name rest ih =>
      intro values
      cases values with
      | nil => rfl
      | cons value values =>
        have htail := ih values
        unfold entries at htail ⊢
        rw [List.zipWith_cons_cons, List.zip_cons_cons, List.zip_cons_cons, List.filterMap_cons,
          List.filterMap_cons, htail]
        by_cases hk : name = k
        · cases value <;> simp [hk]
        · cases value <;> simp [hk]
  rw [object, object, h, hentries]
  exact ofList_filter_ne (nodup_entries hnames _) k

/-- What is written is what the object holds. -/
theorem mem_write_iff {a : A} {v : Value F} :
    some v ∈ record.write a ↔ ∃ name, (record.object a).get name = some v := by
  rw [← record.map_get_object hnames, List.mem_map]
  refine ⟨fun ⟨name, _, hget⟩ => ⟨name, hget⟩, fun ⟨name, hget⟩ => ⟨name, ?_, hget⟩⟩
  have hmem := mem_of_get_ofList hget
  exact (keys_entries_sublist _ _).mem (List.mem_map_of_mem (f := (·.1)) hmem)

/-- A record as a JSON object. Fields that it does not have are passed over when it is read; a
record that stands as an array is not read here, because none is written so. -/
def serde (hnames : record.names.Nodup) : Serde F A where
  toValue a := .ofRow (record.object a)
  fromValue
    | .object fields => record.read fun name => BTreeMap.lookupList name fields
    | _ => none
  sorted := record.sorted
  Finite := record.Finite
  reread := record.reread
  ordered a := by
    refine .object (BTreeMap.sorted _) fun field hfield => ?_
    exact record.ordered a _
      ((record.mem_write_iff hnames).mpr ⟨field.1, mem_entries_iff.mp hfield⟩)
  toValue_sorted a := by rw [object, object, record.write_sorted]
  sorted_of_toValue a b hfinite h := by
    have hobject : record.object a = record.object b := ext (Value.object.inj h)
    refine record.sorted_of_write a b hfinite ?_
    rw [← record.map_get_object hnames, ← record.map_get_object hnames, hobject]
  fromValue_reread r a hfinite := by
    rw [Value.ofRow, Value.reread_object]
    refine record.read_reread r a _ hfinite ?_
    rw [← record.map_get_object hnames, List.map_map]
    exact List.map_congr_left fun name _ =>
      lookupList_map (fun field : String × Value F => field.2.reread r) _ name

/-- A record is one level deeper than its fields. -/
theorem depth_toValue_le_iff {a : A} {n : Nat} :
    ((record.serde hnames).toValue a).depth ≤ n + 1 ↔ ∀ v, some v ∈ record.write a → v.depth ≤ n := by
  show (Value.object (record.object a).entries).depth ≤ n + 1 ↔ _
  rw [Value.depth_object_le_iff]
  constructor
  · intro h v hv
    obtain ⟨name, hget⟩ := (record.mem_write_iff hnames).mp hv
    exact h (name, v) (mem_entries_iff.mpr hget)
  · intro h field hfield
    exact h field.2 ((record.mem_write_iff hnames).mpr ⟨field.1, mem_entries_iff.mp hfield⟩)

@[simp] theorem sorted_serde (a : A) :
    (record.serde hnames).sorted a = record.sorted a := rfl

@[simp] theorem finite_serde (a : A) :
    (record.serde hnames).Finite a ↔ record.Finite a := .rfl

@[simp] theorem reread_serde (r : F → F) (a : A) :
    (record.serde hnames).reread r a = record.reread r a := rfl

@[simp] theorem isNull_serde (a : A) :
    ((record.serde hnames).toValue a).isNull = false := rfl

end Record

end Traceability

end Arcxa
