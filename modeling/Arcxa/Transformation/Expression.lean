import Arcxa.Lib.Text
import Arcxa.Workflow.StreamingDedup

/-!
# Transformation expressions

The syntax of the mapping loader's expressions, the values they have at run time, and `SimpleExecutor`,
which evaluates an expression on a row. Floats, decimals, dates and timestamps are types of their own,
with what the evaluator uses of them (`Scalars`).
-/

namespace Arcxa.Transformation

/-- The scalar types with their operations, the case mappings of text, and whether the build checks
integer arithmetic for overflow. -/
structure Scalars where
  Float : Type
  Decimal : Type
  Date : Type
  Timestamp : Type
  overflowChecks : Bool
  ofInteger : Int64 → Float
  toInteger : Float → Int64
  add : Float → Float → Float
  sub : Float → Float → Float
  mul : Float → Float → Float
  div : Float → Float → Float
  neg : Float → Float
  floatEq : Float → Float → Bool
  floatLt : Float → Float → Bool
  eq_zero_of_ofInteger : ∀ i, floatEq (ofInteger i) (ofInteger 0) = true → i = 0
  displayFloat : Float → String
  parseFloat : String → Option Float
  decimalOfInteger : Int64 → Decimal
  decimalOfFloat : Float → Option Decimal
  decimalZero : Decimal
  decimalToInteger : Decimal → Option Int64
  decimalToFloat : Decimal → Option Float
  displayDecimal : Decimal → String
  parseDecimal : String → Option Decimal
  dateEq : Date → Date → Bool
  displayDate : Date → String
  parseDate : String → Option Date
  displayTimestamp : Timestamp → String
  parseTimestamp : String → Option Timestamp
  dateOf : Timestamp → Date
  uppercase : String → String
  lowercase : String → String

def sampleScalars : Scalars where
  Float := Int
  Decimal := Int
  Date := Int
  Timestamp := Int
  overflowChecks := false
  ofInteger := Int64.toInt
  toInteger := Int64.ofInt
  add := (· + ·)
  sub := (· - ·)
  mul := (· * ·)
  div := Int.tdiv
  neg := (- ·)
  floatEq l r := l = r
  floatLt l r := l < r
  eq_zero_of_ofInteger _ h := Int64.toInt_inj.mp (of_decide_eq_true h)
  displayFloat := toString
  parseFloat s := s.toInt?
  decimalOfInteger := Int64.toInt
  decimalOfFloat := some
  decimalZero := 0
  decimalToInteger d := some (Int64.ofInt d)
  decimalToFloat := some
  displayDecimal := toString
  parseDecimal s := s.toInt?
  dateEq l r := l = r
  displayDate := toString
  parseDate _ := none
  displayTimestamp := toString
  parseTimestamp _ := none
  dateOf := id
  uppercase := String.toUpper
  lowercase := String.toLower

/-! ## Syntax -/

inductive DataType where
  | String
  | Integer
  | Float
  | Boolean
  | Date
  | Timestamp
  | Decimal (precision scale : UInt8)
  | Unknown
  deriving DecidableEq

inductive BinaryOp where
  | Add
  | Subtract
  | Multiply
  | Divide
  | Modulo
  | Concat
  | Equal
  | NotEqual
  | LessThan
  | LessThanOrEqual
  | GreaterThan
  | GreaterThanOrEqual
  | And
  | Or
  | Like
  | NotLike
  deriving DecidableEq

inductive UnaryOp where
  | Negate
  | Not
  | IsNull
  | IsNotNull
  deriving DecidableEq

inductive Literal (N : Scalars) where
  | String (s : String)
  | Integer (i : Int64)
  | Float (f : N.Float)
  | Boolean (b : Bool)
  | Null

inductive Expression (N : Scalars) where
  | Literal (literal : Literal N)
  | Variable (name : String)
  | FunctionCall (name : String) (args : List (Expression N))
  | BinaryOp (left : Expression N) (op : BinaryOp) (right : Expression N)
  | UnaryOp (op : UnaryOp) (expr : Expression N)
  | Case (conditions : List (Expression N × Expression N)) (elseExpr : Option (Expression N))
  | Cast (expr : Expression N) (targetType : DataType)

/-! ## Values -/

abbrev Text := String

inductive Value (N : Scalars) where
  | String (s : String)
  | Integer (i : Int64)
  | Float (f : N.Float)
  | Decimal (d : N.Decimal)
  | Boolean (b : Bool)
  | Date (d : N.Date)
  | Timestamp (t : N.Timestamp)
  | Null
  | Array (items : List (Value N))

/-- Why an expression has no value. `Overflow` is a panic. -/
inductive EvalError (N : Scalars) where
  | VariableNotFound (name : String)
  | UnknownFunction (name : String)
  | TooFewArguments (name : String) (min got : Nat)
  | TooManyArguments (name : String) (max got : Nat)
  | CannotConvert (value : Value N) (target : DataType)
  | CannotNegate (value : Value N)
  | CannotCompare (left right : Value N)
  | DivisionByZero
  | ModuloByZero
  | ModuloOperands
  | Overflow
  | Function (message : String)

variable {N : Scalars}

def Value.isNull : Value N → Bool
  | .Null => true
  | _ => false

def Value.asString : Value N → Text
  | .String s => s
  | .Integer i => toString i
  | .Float f => N.displayFloat f
  | .Decimal d => N.displayDecimal d
  | .Boolean b => if b then "true" else "false"
  | .Date d => N.displayDate d
  | .Timestamp t => N.displayTimestamp t
  | .Null => ""
  | .Array items => ",".intercalate (items.map asString)

def Value.asInteger (v : Value N) : Except (EvalError N) Int64 :=
  match v with
  | .Integer i => .ok i
  | .Float f => .ok (N.toInteger f)
  | .Decimal d => .ok ((N.decimalToInteger d).getD 0)
  | .String s =>
    match parseSigned (2 ^ 63 - 1) (Workflow.trim s).toList with
    | .ok i => .ok (Int64.ofInt i)
    | .error _ => .error (.CannotConvert v .Integer)
  | .Boolean b => .ok (if b then 1 else 0)
  | _ => .error (.CannotConvert v .Integer)

def Value.asFloat (v : Value N) : Except (EvalError N) N.Float :=
  match v with
  | .Float f => .ok f
  | .Integer i => .ok (N.ofInteger i)
  | .Decimal d => .ok ((N.decimalToFloat d).getD (N.ofInteger 0))
  | .String s =>
    match N.parseFloat (Workflow.trim s) with
    | some f => .ok f
    | none => .error (.CannotConvert v .Float)
  | .Boolean b => .ok (N.ofInteger (if b then 1 else 0))
  | _ => .error (.CannotConvert v .Float)

def Value.asBoolean : Value N → Bool
  | .Boolean b => b
  | .Integer i => i ≠ 0
  | .Float f => !N.floatEq f (N.ofInteger 0)
  | .String s => !s.isEmpty && s ≠ "0" && N.lowercase s ≠ "false"
  | .Null => false
  | _ => true

def Value.asDate (v : Value N) : Except (EvalError N) N.Date :=
  match v with
  | .Date d => .ok d
  | .Timestamp t => .ok (N.dateOf t)
  | .String s =>
    match N.parseDate (Workflow.trim s) with
    | some d => .ok d
    | none => .error (.CannotConvert v .Date)
  | _ => .error (.CannotConvert v .Date)

def Value.cast (v : Value N) (targetType : DataType) : Except (EvalError N) (Value N) :=
  let parsed {α : Type} (result : Option α) (f : α → Value N) : Except (EvalError N) (Value N) :=
    match result with
    | some a => .ok (f a)
    | none => .error (.CannotConvert v targetType)
  match targetType with
  | .String => .ok (.String v.asString)
  | .Integer => v.asInteger.map Integer
  | .Float => v.asFloat.map Float
  | .Boolean => .ok (.Boolean v.asBoolean)
  | .Date => v.asDate.map Date
  | .Decimal _ _ =>
    match v with
    | .Decimal d => .ok (.Decimal d)
    | .String s => parsed (N.parseDecimal s) Decimal
    | .Integer i => .ok (.Decimal (N.decimalOfInteger i))
    | .Float f => .ok (.Decimal ((N.decimalOfFloat f).getD N.decimalZero))
    | _ => .error (.CannotConvert v targetType)
  | .Timestamp =>
    match v with
    | .Timestamp t => .ok (.Timestamp t)
    | .String s => parsed (N.parseTimestamp (Workflow.trim s)) Timestamp
    | _ => .error (.CannotConvert v targetType)
  | .Unknown => .ok v

def Value.coerceTypes (left right : Value N) : Value N × Value N :=
  match left, right with
  | .Null, _ => (left, right)
  | _, .Null => (left, right)
  | .String _, .String _ => (left, right)
  | .Integer _, .Integer _ => (left, right)
  | .Float _, .Float _ => (left, right)
  | .Boolean _, .Boolean _ => (left, right)
  | .Date _, .Date _ => (left, right)
  | .Integer i, .Float _ => (.Float (N.ofInteger i), right)
  | .Float _, .Integer i => (left, .Float (N.ofInteger i))
  | _, _ => (.String left.asString, .String right.asString)

def Value.coercedEq : Value N → Value N → Bool
  | .Null, .Null => true
  | .String l, .String r => l = r
  | .Integer l, .Integer r => l = r
  | .Float l, .Float r => N.floatEq l r
  | .Boolean l, .Boolean r => l = r
  | .Date l, .Date r => N.dateEq l r
  | _, _ => false

/-! ## Functions -/

structure TransformFunction (N : Scalars) where
  minArgs : Nat
  maxArgs : Option Nat
  execute : List (Value N) → Except (EvalError N) (Value N)

/-- The functions by their names in upper case. -/
structure FunctionRegistry (N : Scalars) where
  functions : String → Option (TransformFunction N)

def FunctionRegistry.execute (registry : FunctionRegistry N) (name : String)
    (args : List (Value N)) : Except (EvalError N) (Value N) :=
  match registry.functions (N.uppercase name) with
  | none => .error (.UnknownFunction name)
  | some func =>
    if args.length < func.minArgs then .error (.TooFewArguments name func.minArgs args.length)
    else
      match func.maxArgs with
      | some max =>
        if max < args.length then .error (.TooManyArguments name max args.length)
        else func.execute args
      | none => func.execute args

/-- Neither `NULL` nor the empty text. -/
def Value.isPresent : Value N → Bool
  | .Null => false
  | .String s => !s.isEmpty
  | _ => true

/-- `COALESCE` returns the first present value. -/
def coalesceFunction : TransformFunction N where
  minArgs := 1
  maxArgs := none
  execute args := .ok ((args.find? Value.isPresent).getD .Null)

/-- The registry of the built-in functions, of which `COALESCE` is spelled out. -/
def withBuiltins (others : FunctionRegistry N) : FunctionRegistry N where
  functions name := if name = "COALESCE" then some coalesceFunction else others.functions name

/-! ## Evaluation -/

/-- The value of an integer operation, which panics or wraps around when it overflows. -/
def checkedInteger (N : Scalars) (result : Int) : Except (EvalError N) Int64 :=
  if N.overflowChecks ∧ ¬ (-2 ^ 63 ≤ result ∧ result < 2 ^ 63) then .error .Overflow
  else .ok (Int64.ofInt result)

def checkedQuotient (N : Scalars) (l r : Int64) (result : Int64) : Except (EvalError N) Int64 :=
  if l = Int64.minValue ∧ r = -1 then .error .Overflow else .ok result

/-- `text[pos..].find(part)`, as what follows the first occurrence. -/
def afterFirst (part : List Char) : List Char → Option (List Char)
  | [] => if part.isEmpty then some [] else none
  | c :: rest =>
    if part.isPrefixOf (c :: rest) then some ((c :: rest).drop part.length)
    else afterFirst part rest

/-- The parts of a pattern from the `i`-th on, on the text from `pos` on. -/
def matchParts (startsWithWildcard endsWithWildcard : Bool) :
    Nat → List (List Char) → List Char → Bool
  | _, [], _ => true
  | i, part :: parts, text =>
    if part.isEmpty then matchParts startsWithWildcard endsWithWildcard (i + 1) parts text
    else if i = 0 ∧ !startsWithWildcard then
      part.isPrefixOf text &&
        matchParts startsWithWildcard endsWithWildcard (i + 1) parts (text.drop part.length)
    else if parts.isEmpty ∧ !endsWithWildcard then part.isSuffixOf text
    else
      match afterFirst part text with
      | some rest => matchParts startsWithWildcard endsWithWildcard (i + 1) parts rest
      | none => false

def matchLikePattern (text pattern : String) : Bool :=
  if '%' ∈ pattern.toList then
    matchParts (pattern.toList.head? = some '%') (pattern.toList.getLast? = some '%') 0
      (pattern.toList.splitOn '%') text.toList
  else text = pattern

def compareValues (left right : Value N) : Except (EvalError N) Ordering :=
  match left, right with
  | .Integer l, .Integer r => .ok (compare l r)
  | .Float l, .Float r =>
    .ok (if N.floatLt l r then .lt else if N.floatLt r l then .gt else .eq)
  | .String l, .String r => .ok (compare l r)
  | .Boolean l, .Boolean r => .ok (compare l r)
  | _, _ => .error (.CannotCompare left right)

/-- `Add`, `Subtract` and `Multiply`: on integers, on floats, and on what converts to floats. -/
def evalArithmetic (integers : Int → Int → Int) (floats : N.Float → N.Float → N.Float)
    (left right : Value N) : Except (EvalError N) (Value N) :=
  match left, right with
  | .Integer l, .Integer r => (checkedInteger N (integers l.toInt r.toInt)).map .Integer
  | .Float l, .Float r => .ok (.Float (floats l r))
  | _, _ => left.asFloat.bind fun l => right.asFloat.map fun r => .Float (floats l r)

def evalDivide (left right : Value N) : Except (EvalError N) (Value N) :=
  left.asFloat.bind fun l => right.asFloat.bind fun r =>
    if N.floatEq r (N.ofInteger 0) then .error .DivisionByZero else .ok (.Float (N.div l r))

def evalModulo (left right : Value N) : Except (EvalError N) (Value N) :=
  match left, right with
  | .Integer l, .Integer r =>
    if r = 0 then .error .ModuloByZero else (checkedQuotient N l r (l % r)).map .Integer
  | _, _ => .error .ModuloOperands

def evalComparison (accepts : Ordering → Bool) (left right : Value N) :
    Except (EvalError N) (Value N) :=
  let coerced := Value.coerceTypes left right
  (compareValues coerced.1 coerced.2).map fun ordering => .Boolean (accepts ordering)

def evalEqual (left right : Value N) : Bool :=
  let coerced := Value.coerceTypes left right
  Value.coercedEq coerced.1 coerced.2

/-- The operation on operands that may be compared with `NULL`, or are not `NULL`. -/
def evalOperator (left : Value N) (op : BinaryOp) (right : Value N) :
    Except (EvalError N) (Value N) :=
  match op with
  | .Add => evalArithmetic (· + ·) N.add left right
  | .Subtract => evalArithmetic (· - ·) N.sub left right
  | .Multiply => evalArithmetic (· * ·) N.mul left right
  | .Divide => evalDivide left right
  | .Modulo => evalModulo left right
  | .Concat => .ok (.String (left.asString ++ right.asString))
  | .Equal => .ok (.Boolean (evalEqual left right))
  | .NotEqual => .ok (.Boolean (!evalEqual left right))
  | .LessThan => evalComparison (· = .lt) left right
  | .LessThanOrEqual => evalComparison (· ≠ .gt) left right
  | .GreaterThan => evalComparison (· = .gt) left right
  | .GreaterThanOrEqual => evalComparison (· ≠ .lt) left right
  | .And => .ok (.Boolean (left.asBoolean && right.asBoolean))
  | .Or => .ok (.Boolean (left.asBoolean || right.asBoolean))
  | .Like => .ok (.Boolean (matchLikePattern left.asString right.asString))
  | .NotLike => .ok (.Boolean (!matchLikePattern left.asString right.asString))

/-- `NULL` makes all but the equality tests `NULL`. -/
def evalBinaryOp (left : Value N) (op : BinaryOp) (right : Value N) :
    Except (EvalError N) (Value N) :=
  if op ≠ .Equal ∧ op ≠ .NotEqual ∧ (left.isNull || right.isNull) then .ok .Null
  else evalOperator left op right

def evalUnaryOp (op : UnaryOp) (v : Value N) : Except (EvalError N) (Value N) :=
  match op with
  | .Negate =>
    match v with
    | .Integer i => (checkedInteger N (-i.toInt)).map .Integer
    | .Float f => .ok (.Float (N.neg f))
    | .Null => .ok .Null
    | _ => .error (.CannotNegate v)
  | .Not => .ok (.Boolean (!v.asBoolean))
  | .IsNull => .ok (.Boolean v.isNull)
  | .IsNotNull => .ok (.Boolean (!v.isNull))

def evalLiteral : Literal N → Value N
  | .String s => .String s
  | .Integer i => .Integer i
  | .Float f => .Float f
  | .Boolean b => .Boolean b
  | .Null => .Null

/-- The branch that was chosen, or else `otherwise`. -/
def chosenOr (chosen : Option (Value N)) (otherwise : Except (EvalError N) (Value N)) :
    Except (EvalError N) (Value N) :=
  match chosen with
  | some v => .ok v
  | none => otherwise

abbrev Context (N : Scalars) := String → Option (Value N)

def rowContext (row : String → Option String) : Context N := fun name => (row name).map .String

section Eval

variable (functions : FunctionRegistry N) (context : Context N)

mutual

def evalExpr : Expression N → Except (EvalError N) (Value N)
  | .Literal literal => .ok (evalLiteral literal)
  | .Variable name =>
    match context name with
    | some v => .ok v
    | none => .error (.VariableNotFound name)
  | .FunctionCall name args => (evalArgs args).bind (functions.execute name)
  | .BinaryOp left op right =>
    (evalExpr left).bind fun l => (evalExpr right).bind fun r => evalBinaryOp l op r
  | .UnaryOp op expr => (evalExpr expr).bind (evalUnaryOp op)
  | .Case conditions elseExpr =>
    (evalConditions conditions).bind fun chosen => chosenOr chosen (evalElse elseExpr)
  | .Cast expr targetType => (evalExpr expr).bind (·.cast targetType)

def evalArgs : List (Expression N) → Except (EvalError N) (List (Value N))
  | [] => .ok []
  | arg :: args => (evalExpr arg).bind fun v => (evalArgs args).map (v :: ·)

def evalConditions : List (Expression N × Expression N) → Except (EvalError N) (Option (Value N))
  | [] => .ok none
  | (cond, thenExpr) :: conditions =>
    (evalExpr cond).bind fun v =>
      if v.asBoolean then (evalExpr thenExpr).map some else evalConditions conditions

def evalElse : Option (Expression N) → Except (EvalError N) (Value N)
  | some elseExpr => evalExpr elseExpr
  | none => .ok .Null

end

end Eval

end Arcxa.Transformation
