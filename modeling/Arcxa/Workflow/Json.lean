import Arcxa.Lib.BTreeMap
import Arcxa.Lib.Codec

/-!
# Rows as JSON values

The values that flow between workflow steps, as `serde_json` has them: an object is a
`BTreeMap`, a number is an integer in the range of `i64` or `u64` or a finite float.
Inside a value the entries of an object stand as a list in key order; `Row` is an object
with its order as a field.

`to_string` prints compact JSON and is written out. Parsing is not: `from_slice` stays a
parameter of the storage backends. Floats are a type `F` with the operations the code
calls.
-/

namespace Arcxa.Workflow

inductive WorkflowError where
  | InvalidData (msg : String)
  | Storage (msg : String)
  | Serialization (msg : String)
  | DataNotFound (msg : String)
  | ResourceLimit (msg : String)
  deriving DecidableEq, Repr

/-- 64-bit floats. `display` is the shortest decimal form and `fixed n` the one with `n` digits
after the point. -/
class Float64 (F : Type) where
  ofInt : Int → F
  add : F → F → F
  div : F → F → F
  lt : F → F → Bool
  display : F → String
  fixed : Nat → F → String
  toBits : F → UInt64
  ofBits : UInt64 → F
  toBits_ofBits : ∀ bits, toBits (ofBits bits) = bits

/-- The integers of `serde_json::Number`: all of `i64` and all of `u64`. -/
structure JsonInt where
  val : Int
  range : -2 ^ 63 ≤ val ∧ val < 2 ^ 64
  deriving DecidableEq

def JsonInt.ofByte (n : UInt8) : JsonInt where
  val := n.toNat
  range := by
    have hlt : n.toNat < 256 := n.toNat_lt
    omega

inductive Number (F : Type) where
  | int (n : JsonInt)
  | float (x : F)
  deriving DecidableEq

inductive Value (F : Type) where
  | null
  | bool (b : Bool)
  | number (n : Number F)
  | string (s : String)
  | array (items : List (Value F))
  | object (fields : List (String × Value F))

abbrev Row (F : Type) := BTreeMap String (Value F)

variable {F : Type}

/-- `Value::Object`. -/
def Value.ofRow (row : Row F) : Value F := .object row.entries

namespace Value

def isNull : Value F → Bool
  | null => true
  | _ => false

/-- `Value::get` with a field name. -/
def get (v : Value F) (field : String) : Option (Value F) :=
  match v with
  | object fields => BTreeMap.lookupList field fields
  | _ => none

def asStr : Value F → Option String
  | string s => some s
  | _ => none

@[simp] theorem get_ofRow (row : Row F) (field : String) :
    (ofRow row).get field = row.get field := rfl

end Value

/-! ## Numbers -/

namespace Number

/-- `as_i64`. -/
def asI64 : Number F → Option Int64
  | int n => if n.val < 2 ^ 63 then some (Int64.ofInt n.val) else none
  | float _ => none

/-- `as_u64`. -/
def asU64 : Number F → Option UInt64
  | int n => if 0 ≤ n.val then some (UInt64.ofNat n.val.toNat) else none
  | float _ => none

/-- `Number::from(i64)`. -/
def ofI64 (x : Int64) : Number F :=
  int ⟨x.toInt, by
    have hle := Int64.le_toInt x
    have hlt := Int64.toInt_lt x
    omega⟩

variable [Float64 F]

/-- `as_f64`, which converts integers. -/
def asF64 : Number F → F
  | int n => Float64.ofInt n.val
  | float x => x

def toString : Number F → String
  | int n => ToString.toString n.val
  | float x => Float64.display x

end Number

/-! ## Compact JSON -/

def hexByte (n : Nat) : String := String.ofList [Nat.digitChar (n / 16), Nat.digitChar (n % 16)]

/-- What `serde_json` writes for one character of a string. -/
def escapeChar (c : Char) : String :=
  match c.toNat with
  | 34 => "\\\""
  | 92 => "\\\\"
  | 8 => "\\b"
  | 9 => "\\t"
  | 10 => "\\n"
  | 12 => "\\f"
  | 13 => "\\r"
  | n => if n < 32 then "\\u00" ++ hexByte n else String.singleton c

def quote (s : String) : String := "\"" ++ String.join (s.toList.map escapeChar) ++ "\""

namespace Value

variable [Float64 F]

mutual

/-- `Value::to_string`. -/
def toString : Value F → String
  | null => "null"
  | bool b => ToString.toString b
  | number n => n.toString
  | string s => quote s
  | array items => "[" ++ itemsToString items ++ "]"
  | object fields => "\x7b" ++ fieldsToString fields ++ "\x7d"

def itemsToString : List (Value F) → String
  | [] => ""
  | [v] => v.toString
  | v :: rest => v.toString ++ "," ++ itemsToString rest

def fieldsToString : List (String × Value F) → String
  | [] => ""
  | [(k, v)] => quote k ++ ":" ++ v.toString
  | (k, v) :: rest => quote k ++ ":" ++ v.toString ++ "," ++ fieldsToString rest

end

/-- `serde_json::to_vec`. -/
def toVec (v : Value F) : Bytes := v.toString.toUTF8.data.toList

end Value

/-! ## A sample float type -/

/-- The floats of whole value. -/
instance : Float64 Int where
  ofInt n := n
  add := (· + ·)
  div := (· / ·)
  lt x y := decide (x < y)
  display n := toString n ++ ".0"
  fixed digits n := toString n ++ "." ++ String.ofList (List.replicate digits '0')
  toBits n := (Int64.ofInt n).toUInt64
  ofBits bits := bits.toInt64.toInt
  toBits_ofBits := by simp

example : (Value.object [("id", .number (.int ⟨7, by decide⟩)), ("name", .string "a\"b"),
    ("score", .number (.float (2 : Int)))]).toString =
      "\x7b\"id\":7,\"name\":\"a\\\"b\",\"score\":2.0\x7d" := by decide +kernel

end Arcxa.Workflow
