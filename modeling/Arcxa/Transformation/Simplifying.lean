import Arcxa.Transformation.Meaning
import Arcxa.Transformation.Optimizer

/-!
# Algebraic simplification and meaning

The identities are those of numbers and truth values; the operands are whatever the evaluation gives.
`simplified_iff`: every part of an expression is simplified into one of the same meaning exactly when
the operand of every identity that is used has a value for which the identity holds.
-/

namespace Arcxa.Transformation

variable {N : Scalars}

/-! ## Operands for which the identities hold -/

namespace Value

/-- Integers, `NULL`, and the floats that the operation keeps. -/
def KeptBy (floats : N.Float → Prop) : Value N → Prop
  | .Integer _ => True
  | .Null => True
  | .Float f => floats f
  | _ => False

/-- `NULL`, and the floats that the division keeps. -/
def KeptByDivision (floats : N.Float → Prop) : Value N → Prop
  | .Null => True
  | .Float f => floats f
  | _ => False

def IsInteger : Value N → Prop
  | .Integer _ => True
  | _ => False

def IsBoolean : Value N → Prop
  | .Boolean _ => True
  | _ => False

def IsBooleanOrNull : Value N → Prop
  | .Boolean _ => True
  | .Null => True
  | _ => False

/-- What is itself again after two negations: not the least integer, where overflow panics. -/
def NegatesBack : Value N → Prop
  | .Integer i => ¬ (N.overflowChecks = true ∧ i = Int64.minValue)
  | .Null => True
  | .Float f => N.neg (N.neg f) = f
  | _ => False

end Value

theorem checkedInteger_toInt (i : Int64) : checkedInteger N i.toInt = .ok i := by
  have hlow := i.le_toInt
  have hhigh := i.toInt_lt
  rw [checkedInteger, if_neg fun h => h.2 ⟨hlow, hhigh⟩, Int64.ofInt_toInt]

variable {floats : N.Float → N.Float → N.Float} {integers : Int → Int → Int}

/-- Arithmetic with an integer on one side, as a function of the other operand. -/
structure OneSided (g : Value N → Except (EvalError N) (Value N)) (integer : Int → Int)
    (float : N.Float → N.Float) : Prop where
  integers : ∀ j, g (.Integer j) = (checkedInteger N (integer j.toInt)).map .Integer
  others : ∀ v, ¬ v.IsInteger → g v = v.asFloat.map fun f => .Float (float f)

theorem oneSided_left (i : Int64) :
    OneSided (N := N) (evalArithmetic integers floats · (.Integer i)) (integers · i.toInt)
      (floats · (N.ofInteger i)) where
  integers j := rfl
  others v hv := by
    have heval : evalArithmetic integers floats v (.Integer i) =
        v.asFloat.bind fun l => .ok (.Float (floats l (N.ofInteger i))) := by
      cases v with
      | Integer j => exact absurd trivial hv
      | _ => rfl
    rw [heval]
    cases v.asFloat <;> rfl

theorem oneSided_right (i : Int64) :
    OneSided (N := N) (evalArithmetic integers floats (.Integer i)) (integers i.toInt)
      (floats (N.ofInteger i)) where
  integers j := rfl
  others v hv := by
    cases v with
    | Integer j => exact absurd trivial hv
    | _ => rfl

namespace OneSided

variable {g : Value N → Except (EvalError N) (Value N)} {integer : Int → Int}
  {float : N.Float → N.Float} (h : OneSided g integer float)

include h

/-- Operands that are no integers give floats or nothing. -/
theorem eq_float {v w : Value N} (hv : ¬ v.IsInteger) (hw : (g v).toOption = some w) :
    ∃ f, w = .Float f := by
  rw [h.others v hv] at hw
  cases hf : v.asFloat with
  | error e =>
    rw [hf] at hw
    exact nomatch hw
  | ok f =>
    rw [hf] at hw
    exact ⟨_, (Option.some.inj hw).symm⟩

theorem kept {P : N.Float → Prop} (hinteger : ∀ j : Int64, integer j.toInt = j.toInt)
    (hfloat : ∀ f, float f = f ↔ P f) (v : Value N) (hnull : v.isNull = false) :
    (g v).toOption = some v ↔ v.KeptBy P := by
  cases v with
  | Integer j =>
    rw [h.integers, hinteger, checkedInteger_toInt]
    exact iff_of_true rfl trivial
  | Float f =>
    rw [h.others _ id]
    refine Iff.trans ?_ (hfloat f)
    exact ⟨fun h => Value.Float.inj (Option.some.inj h), fun h => congrArg (some ∘ Value.Float) h⟩
  | Null => exact nomatch hnull
  | _ =>
    refine iff_of_false (fun hw => ?_) id
    obtain ⟨f, hf⟩ := h.eq_float id hw
    exact nomatch hf

theorem zero (hinteger : ∀ j : Int64, integer j.toInt = (0 : Int64).toInt) (v : Value N)
    (hnull : v.isNull = false) : (g v).toOption = some (.Integer 0) ↔ v.IsInteger := by
  cases v with
  | Integer j =>
    rw [h.integers, hinteger, checkedInteger_toInt]
    exact iff_of_true rfl trivial
  | Null => exact nomatch hnull
  | _ =>
    refine iff_of_false (fun hw => ?_) id
    obtain ⟨f, hf⟩ := h.eq_float id hw
    exact nomatch hf

end OneSided

theorem evalBinaryOp_of_not_null {l r : Value N} (op : BinaryOp) (hl : l.isNull = false)
    (hr : r.isNull = false) : evalBinaryOp l op r = evalOperator l op r := by
  rw [evalBinaryOp, hl, hr, if_neg]
  exact fun h => Bool.false_ne_true h.2.2

variable {op : BinaryOp}

theorem evalBinaryOp_null_left (r : Value N) (hequal : op ≠ .Equal)
    (hnotEqual : op ≠ .NotEqual) : evalBinaryOp .Null op r = .ok .Null := by
  rw [evalBinaryOp, if_pos ⟨hequal, hnotEqual, rfl⟩]

theorem evalBinaryOp_null_right (l : Value N) (hequal : op ≠ .Equal)
    (hnotEqual : op ≠ .NotEqual) : evalBinaryOp l op .Null = .ok .Null := by
  rw [evalBinaryOp, if_pos ⟨hequal, hnotEqual, Bool.or_true _⟩]

variable {P : Value N → Prop}

theorem on_operand {g : Value N → Except (EvalError N) (Value N)} {result : Value N → Value N}
    (hg : g .Null = .ok .Null) (hnull : some Value.Null = some (result .Null) ↔ P .Null)
    (h : ∀ v, v.isNull = false → ((g v).toOption = some (result v) ↔ P v)) (v : Value N) :
    (g v).toOption = some (result v) ↔ P v := by
  cases v with
  | Null =>
    rw [hg]
    exact hnull
  | _ => exact h _ rfl

theorem on_left {w : Value N} {result : Value N → Value N} (hequal : op ≠ .Equal)
    (hnotEqual : op ≠ .NotEqual) (hw : w.isNull = false)
    (hnull : some Value.Null = some (result .Null) ↔ P .Null)
    (h : ∀ v, v.isNull = false → ((evalOperator v op w).toOption = some (result v) ↔ P v)) :
    ∀ v, (evalBinaryOp v op w).toOption = some (result v) ↔ P v := by
  refine on_operand (evalBinaryOp_null_left w hequal hnotEqual) hnull fun v hv => ?_
  rw [evalBinaryOp_of_not_null op hv hw]
  exact h v hv

theorem on_right {w : Value N} {result : Value N → Value N} (hequal : op ≠ .Equal)
    (hnotEqual : op ≠ .NotEqual) (hw : w.isNull = false)
    (hnull : some Value.Null = some (result .Null) ↔ P .Null)
    (h : ∀ v, v.isNull = false → ((evalOperator w op v).toOption = some (result v) ↔ P v)) :
    ∀ v, (evalBinaryOp w op v).toOption = some (result v) ↔ P v := by
  refine on_operand (evalBinaryOp_null_right w hequal hnotEqual) hnull fun v hv => ?_
  rw [evalBinaryOp_of_not_null op hw hv]
  exact h v hv

variable (v : Value N) (hnull : v.isNull = false)

include hnull

theorem evalDivide_one :
    (evalOperator v .Divide (.Integer 1)).toOption = some v ↔
      v.KeptByDivision fun f => N.div f (N.ofInteger 1) = f := by
  have hone : ¬ N.floatEq (N.ofInteger 1) (N.ofInteger 0) = true :=
    fun h => absurd (N.eq_zero_of_ofInteger 1 h) (by decide)
  have hdivide (f : N.Float) (hv : v.asFloat = .ok f) :
      (evalOperator v .Divide (.Integer 1)).toOption = some (.Float (N.div f (N.ofInteger 1))) := by
    rw [evalOperator, evalDivide, hv]
    simp only [Value.asFloat, Except.bind, if_neg hone]
    rfl
  cases v with
  | Float f =>
    rw [hdivide f rfl]
    exact ⟨fun h => Value.Float.inj (Option.some.inj h), fun h => congrArg (some ∘ Value.Float) h⟩
  | Null => exact nomatch hnull
  | String s =>
    refine iff_of_false (fun h => ?_) id
    cases hv : (Value.String s : Value N).asFloat with
    | error e =>
      rw [evalOperator, evalDivide, hv] at h
      exact nomatch h
    | ok f => exact nomatch (hdivide f hv).symm.trans h
  | Integer i => exact iff_of_false (fun h => nomatch (hdivide _ rfl).symm.trans h) id
  | Decimal d => exact iff_of_false (fun h => nomatch (hdivide _ rfl).symm.trans h) id
  | Boolean b => exact iff_of_false (fun h => nomatch (hdivide _ rfl).symm.trans h) id
  | Date d => exact iff_of_false nofun id
  | Timestamp t => exact iff_of_false nofun id
  | Array items => exact iff_of_false nofun id

theorem boolean_kept {b : Bool} (hb : b = v.asBoolean) :
    (Except.ok (.Boolean b) : Except (EvalError N) (Value N)).toOption = some v ↔
      v.IsBooleanOrNull := by
  cases v with
  | Boolean c => exact iff_of_true (congrArg (some ∘ Value.Boolean) hb) trivial
  | Null => exact nomatch hnull
  | _ => exact iff_of_false nofun id

omit hnull

theorem eq_bind_iff {x : Option (Value N)} {f : Value N → Option (Value N)}
    (h : ∀ v, f v = some v ↔ P v) : x = x.bind f ↔ ∀ v, x = some v → P v := by
  cases x with
  | none => exact iff_of_true rfl nofun
  | some v =>
    rw [Option.bind_some, eq_comm, h]
    exact ⟨fun hP w hw => Option.some.inj hw ▸ hP, fun hP => hP v rfl⟩

theorem some_eq_bind_iff {x : Option (Value N)} {w : Value N} {f : Value N → Option (Value N)}
    (h : ∀ v, f v = some w ↔ P v) : some w = x.bind f ↔ ∃ v, x = some v ∧ P v := by
  cases x with
  | none => exact iff_of_false nofun nofun
  | some v =>
    rw [Option.bind_some, eq_comm, h]
    exact ⟨fun hP => ⟨v, rfl, hP⟩, fun ⟨w, hw, hP⟩ => Option.some.inj hw ▸ hP⟩

/-! ## One node -/

section Node

variable (functions : FunctionRegistry N) (context : Context N)

def SimplifyKeeps (e : Expression N) : Prop :=
  value functions context (simplifyAlgebraic e) = value functions context e

/-- The operand has a value for which the identity holds. One that is kept may have none. -/
def IdentityHolds : Identity N → Prop
  | .addZero kept => ∀ v, value functions context kept = some v →
    v.KeptBy fun f => N.add f (N.ofInteger 0) = f
  | .zeroAdd kept => ∀ v, value functions context kept = some v →
    v.KeptBy fun f => N.add (N.ofInteger 0) f = f
  | .subtractZero kept => ∀ v, value functions context kept = some v →
    v.KeptBy fun f => N.sub f (N.ofInteger 0) = f
  | .multiplyZero dropped => ∃ v, value functions context dropped = some v ∧ v.IsInteger
  | .multiplyOne kept => ∀ v, value functions context kept = some v →
    v.KeptBy fun f => N.mul f (N.ofInteger 1) = f
  | .oneMultiply kept => ∀ v, value functions context kept = some v →
    v.KeptBy fun f => N.mul (N.ofInteger 1) f = f
  | .divideOne kept => ∀ v, value functions context kept = some v →
    v.KeptByDivision fun f => N.div f (N.ofInteger 1) = f
  | .andTrue kept => ∀ v, value functions context kept = some v → v.IsBooleanOrNull
  | .andFalse dropped => ∃ v, value functions context dropped = some v ∧ v.isNull = false
  | .orTrue dropped => ∃ v, value functions context dropped = some v ∧ v.isNull = false
  | .orFalse kept => ∀ v, value functions context kept = some v → v.IsBooleanOrNull
  | .sameVariable name => ∃ v, context name = some v ∧ evalEqual v v = true
  | .other => True

/-- A double `NOT` is on a truth value, a double `-` on what negates back. -/
def DoubleHolds : UnaryOp → Expression N → Prop
  | .Not, .UnaryOp .Not inner => ∀ v, value functions context inner = some v → v.IsBoolean
  | .Negate, .UnaryOp .Negate inner => ∀ v, value functions context inner = some v → v.NegatesBack
  | _, _ => True

/-- `COALESCE` has arguments, and the only one left is not the empty text. -/
def CoalesceHolds (name : String) (args : List (Expression N)) : Prop :=
  N.uppercase name = "COALESCE" →
    match args.filter (!·.isNull) with
    | [] => args ≠ []
    | [arg] => value functions context arg ≠ some (.String "")
    | _ => True

/-- What a node has to meet, with its parts already simplified. -/
def Simplifiable : Expression N → Prop
  | .BinaryOp left op right => IdentityHolds functions context
    (identity op (simplifyAlgebraic left) (simplifyAlgebraic right))
  | .UnaryOp op e => DoubleHolds functions context op (simplifyAlgebraic e)
  | .FunctionCall name args => CoalesceHolds functions context name (simplifyArgs args)
  | _ => True

end Node

variable {functions : FunctionRegistry N} {context : Context N}

theorem value_literal_right (left : Expression N) (op : BinaryOp) (literal : Literal N) :
    value functions context (.BinaryOp left op (.Literal literal)) =
      (value functions context left).bind fun v =>
        (evalBinaryOp v op (evalLiteral literal)).toOption := by
  rw [value_binaryOp, value_literal]
  rfl

theorem value_literal_left (literal : Literal N) (op : BinaryOp) (right : Expression N) :
    value functions context (.BinaryOp (.Literal literal) op right) =
      (value functions context right).bind fun v =>
        (evalBinaryOp (evalLiteral literal) op v).toOption := by
  rw [value_binaryOp, value_literal]
  rfl

theorem keeps_left {left : Expression N} {literal : Literal N}
    (h : ∀ v, (evalBinaryOp v op (evalLiteral literal)).toOption = some v ↔ P v) :
    value functions context left =
        value functions context (.BinaryOp left op (.Literal literal)) ↔
      ∀ v, value functions context left = some v → P v := by
  rw [value_literal_right]
  exact eq_bind_iff h

theorem keeps_right {right : Expression N} {literal : Literal N}
    (h : ∀ v, (evalBinaryOp (evalLiteral literal) op v).toOption = some v ↔ P v) :
    value functions context right =
        value functions context (.BinaryOp (.Literal literal) op right) ↔
      ∀ v, value functions context right = some v → P v := by
  rw [value_literal_left]
  exact eq_bind_iff h

theorem drops_left {left : Expression N} {literal result : Literal N}
    (h : ∀ v, (evalBinaryOp v op (evalLiteral literal)).toOption =
      some (evalLiteral result) ↔ P v) :
    value functions context (.Literal result) =
        value functions context (.BinaryOp left op (.Literal literal)) ↔
      ∃ v, value functions context left = some v ∧ P v := by
  rw [value_literal_right, value_literal]
  exact some_eq_bind_iff h

theorem drops_right {right : Expression N} {literal result : Literal N}
    (h : ∀ v, (evalBinaryOp (evalLiteral literal) op v).toOption =
      some (evalLiteral result) ↔ P v) :
    value functions context (.Literal result) =
        value functions context (.BinaryOp (.Literal literal) op right) ↔
      ∃ v, value functions context right = some v ∧ P v := by
  rw [value_literal_left, value_literal]
  exact some_eq_bind_iff h

theorem value_simplifyBinary (left : Expression N) (op : BinaryOp) (right : Expression N) :
    value functions context (simplifyBinary left op right) =
        value functions context (.BinaryOp left op right) ↔
      IdentityHolds functions context (identity op left right) := by
  rw [simplifyBinary]
  unfold identity
  split
  case h_1 =>
    exact keeps_left (on_left (by decide) (by decide) rfl (iff_of_true rfl trivial)
      ((oneSided_left 0).kept (fun j => Int.add_zero _) fun _ => .rfl))
  case h_2 =>
    exact keeps_right (on_right (by decide) (by decide) rfl (iff_of_true rfl trivial)
      ((oneSided_right 0).kept (fun j => Int.zero_add _) fun _ => .rfl))
  case h_3 =>
    exact keeps_left (on_left (by decide) (by decide) rfl (iff_of_true rfl trivial)
      ((oneSided_left 0).kept (fun j => Int.sub_zero _) fun _ => .rfl))
  case h_4 =>
    exact drops_left (on_left (by decide) (by decide) rfl (iff_of_false nofun id)
      ((oneSided_left 0).zero fun j => Int.mul_zero _))
  case h_5 =>
    exact drops_right (on_right (by decide) (by decide) rfl (iff_of_false nofun id)
      ((oneSided_right 0).zero fun j => Int.zero_mul _))
  case h_6 =>
    exact keeps_left (on_left (by decide) (by decide) rfl (iff_of_true rfl trivial)
      ((oneSided_left 1).kept (fun j => Int.mul_one _) fun _ => .rfl))
  case h_7 =>
    exact keeps_right (on_right (by decide) (by decide) rfl (iff_of_true rfl trivial)
      ((oneSided_right 1).kept (fun j => Int.one_mul _) fun _ => .rfl))
  case h_8 => exact keeps_left (on_left (by decide) (by decide) rfl (iff_of_true rfl trivial) evalDivide_one)
  case h_9 =>
    exact keeps_left (on_left (by decide) (by decide) rfl (iff_of_true rfl trivial) fun v hv =>
      boolean_kept v hv (Bool.and_true _))
  case h_10 =>
    exact keeps_right (on_right (by decide) (by decide) rfl (iff_of_true rfl trivial) fun v hv =>
      boolean_kept v hv (Bool.true_and _))
  case h_11 =>
    exact drops_left (on_left (by decide) (by decide) rfl (iff_of_false nofun (Ne.symm Bool.false_ne_true))
      fun v hv => iff_of_true (congrArg (some ∘ Value.Boolean) (Bool.and_false _)) hv)
  case h_12 =>
    exact drops_right (on_right (by decide) (by decide) rfl (iff_of_false nofun (Ne.symm Bool.false_ne_true))
      fun v hv => iff_of_true rfl hv)
  case h_13 =>
    exact drops_left (on_left (by decide) (by decide) rfl (iff_of_false nofun (Ne.symm Bool.false_ne_true))
      fun v hv => iff_of_true (congrArg (some ∘ Value.Boolean) (Bool.or_true _)) hv)
  case h_14 =>
    exact drops_right (on_right (by decide) (by decide) rfl (iff_of_false nofun (Ne.symm Bool.false_ne_true))
      fun v hv => iff_of_true rfl hv)
  case h_15 =>
    exact keeps_left (on_left (by decide) (by decide) rfl (iff_of_true rfl trivial) fun v hv =>
      boolean_kept v hv (Bool.or_false _))
  case h_16 =>
    exact keeps_right (on_right (by decide) (by decide) rfl (iff_of_true rfl trivial) fun v hv =>
      boolean_kept v hv (Bool.false_or _))
  case h_17 l r =>
    split_ifs with hname
    · subst hname
      rw [Identity.result, Option.getD_some, value_literal, value_binaryOp, value_variable,
        IdentityHolds]
      cases context l with
      | none => exact iff_of_false (by simp) (by simp)
      | some v =>
        constructor
        · intro h
          exact ⟨v, rfl, (Value.Boolean.inj (Option.some.inj h)).symm⟩
        · intro h
          obtain ⟨w, hw, h⟩ := h
          cases hw
          exact congrArg (some ∘ Value.Boolean) h.symm
    · exact iff_of_true rfl trivial
  case h_18 => exact iff_of_true rfl trivial

theorem not_not_kept :
    (evalUnaryOp .Not v).toOption.bind (fun w => (evalUnaryOp .Not w).toOption) = some v ↔
      v.IsBoolean := by
  cases v with
  | Boolean b => exact iff_of_true (congrArg (some ∘ Value.Boolean) (Bool.not_not b)) trivial
  | _ => exact iff_of_false nofun id

theorem neg_minValue : -(Int64.minValue.toInt) = 2 ^ 63 := by decide

theorem checkedInteger_neg {i : Int64} (h : i ≠ Int64.minValue) :
    checkedInteger N (-i.toInt) = .ok (-i) := by
  have hlow := i.le_toInt
  have hhigh := i.toInt_lt
  have hne : i.toInt ≠ -2 ^ 63 := fun heq => h (Int64.toInt_inj.mp heq)
  rw [checkedInteger, if_neg fun hover => hover.2 ⟨by omega, by omega⟩, Int64.ofInt_neg,
    Int64.ofInt_toInt]

theorem neg_neg_kept :
    (evalUnaryOp .Negate v).toOption.bind (fun w => (evalUnaryOp .Negate w).toOption) = some v ↔
      v.NegatesBack := by
  cases v with
  | Integer i =>
    by_cases hmin : i = Int64.minValue
    · subst hmin
      cases hchecks : N.overflowChecks with
      | true =>
        refine iff_of_false (fun h => ?_) fun h => h ⟨hchecks, rfl⟩
        rw [evalUnaryOp, checkedInteger, if_pos ⟨hchecks, by rw [neg_minValue]; decide⟩] at h
        exact nomatch h
      | false =>
        refine iff_of_true ?_ fun h => Bool.false_ne_true (hchecks.symm.trans h.1)
        have hneg : checkedInteger N (-Int64.minValue.toInt) = .ok Int64.minValue := by
          rw [checkedInteger, if_neg fun h => Bool.false_ne_true (hchecks.symm.trans h.1)]
          rfl
        rw [evalUnaryOp, hneg]
        dsimp only [Except.map, Except.toOption, Option.bind_some]
        rw [evalUnaryOp, hneg]
        rfl
    · have hne : -i ≠ Int64.minValue := fun h => hmin (by
        rw [← Int64.neg_neg (a := i), h]
        rfl)
      refine iff_of_true ?_ fun h => hmin h.2
      rw [evalUnaryOp, checkedInteger_neg hmin]
      dsimp only [Except.map, Except.toOption, Option.bind_some]
      rw [evalUnaryOp, checkedInteger_neg hne, Int64.neg_neg]
      rfl
  | Float f =>
    exact ⟨fun h => Value.Float.inj (Option.some.inj h), fun h => congrArg (some ∘ Value.Float) h⟩
  | Null => exact iff_of_true rfl trivial
  | _ => exact iff_of_false nofun id

theorem value_double (op : UnaryOp) (inner : Expression N) :
    value functions context (.UnaryOp op (.UnaryOp op inner)) =
      (value functions context inner).bind fun v =>
        (evalUnaryOp op v).toOption.bind fun w => (evalUnaryOp op w).toOption := by
  rw [value_unaryOp, value_unaryOp, Option.bind_assoc]

theorem value_simplifyUnary (op : UnaryOp) (e : Expression N) :
    value functions context (simplifyUnary op e) = value functions context (.UnaryOp op e) ↔
      DoubleHolds functions context op e := by
  unfold simplifyUnary
  split
  case h_1 inner =>
    rw [value_double]
    exact eq_bind_iff not_not_kept
  case h_2 inner =>
    rw [value_double]
    exact eq_bind_iff neg_neg_kept
  case h_3 hnot hnegate =>
    refine iff_of_true rfl ?_
    unfold DoubleHolds
    split
    case h_1 inner => exact absurd rfl (hnot inner rfl)
    case h_2 inner => exact absurd rfl (hnegate inner rfl)
    case h_3 => trivial

/-! ### `COALESCE` -/

theorem value_of_isNull {e : Expression N} (h : e.isNull = true) :
    value functions context e = some .Null := by
  unfold Expression.isNull at h
  split at h
  · exact value_literal ..
  · exact nomatch h

theorem length_values {args : List (Expression N)} {vs : List (Value N)}
    (h : values functions context args = some vs) : vs.length = args.length := by
  induction args generalizing vs with
  | nil =>
    cases h
    rfl
  | cons arg args ih =>
    rw [values_cons] at h
    obtain ⟨v, -, h⟩ := Option.bind_eq_some_iff.mp h
    obtain ⟨rest, hrest, rfl⟩ := Option.map_eq_some_iff.mp h
    exact congrArg (· + 1) (ih hrest)

theorem find?_values_filter (args : List (Expression N)) :
    (values functions context (args.filter (!·.isNull))).map (List.find? Value.isPresent) =
      (values functions context args).map (List.find? Value.isPresent) := by
  induction args with
  | nil => rfl
  | cons arg args ih =>
    rw [List.filter_cons]
    cases hnull : arg.isNull with
    | true =>
      rw [if_neg (by decide), ih, values_cons, value_of_isNull hnull, Option.bind_some,
        Option.map_map]
      rfl
    | false =>
      rw [if_pos (show (!false) = true from rfl), values_cons, values_cons]
      cases value functions context arg with
      | none => rfl
      | some v =>
        rw [Option.bind_some, Option.bind_some, Option.map_map, Option.map_map]
        have hhead : (List.find? Value.isPresent ∘ fun vs => v :: vs) =
            (fun found => if v.isPresent then some v else found) ∘ List.find? Value.isPresent := by
          funext vs
          rw [Function.comp_apply, Function.comp_apply, List.find?_cons]
          cases v.isPresent <;> rfl
        rw [hhead, ← Option.map_map, ← Option.map_map, ih]

section Coalesce

variable {others : FunctionRegistry N}

theorem value_coalesce {name : String} (hname : N.uppercase name = "COALESCE")
    {args : List (Expression N)} (hargs : args ≠ []) :
    value (withBuiltins others) context (.FunctionCall name args) =
      ((values (withBuiltins others) context args).map (List.find? Value.isPresent)).map
        fun found => found.getD .Null := by
  rw [value_functionCall]
  cases hvalues : values (withBuiltins others) context args with
  | none => rfl
  | some vs =>
    have hlength : ¬ vs.length < 1 := by
      rw [length_values hvalues, Nat.lt_one_iff, List.length_eq_zero_iff]
      exact hargs
    rw [Option.bind_some, FunctionRegistry.execute, withBuiltins]
    dsimp only
    rw [if_pos hname]
    dsimp only [coalesceFunction]
    rw [if_neg hlength]
    rfl

theorem value_coalesce_nil {name : String} (hname : N.uppercase name = "COALESCE") :
    value (withBuiltins others) context (.FunctionCall name []) = none := by
  rw [value_functionCall]
  have hvalues : values (withBuiltins others) context [] = some [] := rfl
  rw [hvalues, Option.bind_some, FunctionRegistry.execute, withBuiltins]
  dsimp only
  rw [if_pos hname]
  rfl

theorem present_iff (v : Value N) :
    (if v.isPresent then some v else none).getD .Null = v ↔ v ≠ .String "" := by
  cases v with
  | String s =>
    by_cases hs : s = ""
    · subst hs
      exact iff_of_false nofun fun h => h rfl
    · have hpresent : (Value.String s : Value N).isPresent = true := by
        rw [Value.isPresent, Bool.not_eq_true', Bool.eq_false_iff, ne_eq, String.isEmpty_iff]
        exact hs
      rw [if_pos hpresent]
      exact iff_of_true rfl fun h => hs (Value.String.inj h)
  | _ => exact iff_of_true rfl nofun

theorem value_simplifyCall (name : String) (args : List (Expression N)) :
    value (withBuiltins others) context (simplifyCall name args) =
        value (withBuiltins others) context (.FunctionCall name args) ↔
      CoalesceHolds (withBuiltins others) context name args := by
  rw [simplifyCall, CoalesceHolds]
  split_ifs with hname
  · have hfilter :
        (values (withBuiltins others) context (args.filter (!·.isNull))).map
            (List.find? Value.isPresent) =
          (values (withBuiltins others) context args).map (List.find? Value.isPresent) :=
      find?_values_filter args
    have hne (hsome : args.filter (!·.isNull) ≠ []) : args ≠ [] := by
      rintro rfl
      exact hsome rfl
    rw [forall_prop_of_true hname]
    rcases hleft : args.filter (!·.isNull) with _ | ⟨arg, _ | ⟨second, rest⟩⟩
    · rw [hleft] at hfilter ⊢
      dsimp only
      by_cases hargs : args = []
      · subst hargs
        rw [value_coalesce_nil hname, value_literal]
        exact iff_of_false nofun fun h => h rfl
      · rw [value_coalesce hname hargs, ← hfilter]
        exact iff_of_true (value_literal ..) hargs
    · rw [hleft] at hfilter ⊢
      dsimp only
      rw [value_coalesce hname (hne (hleft ▸ List.cons_ne_nil _ _)), ← hfilter, values_cons]
      cases value (withBuiltins others) context arg with
      | none => exact iff_of_true rfl nofun
      | some v =>
        have hfound : ([v] : List (Value N)).find? Value.isPresent =
            if v.isPresent then some v else none := by
          rw [List.find?_cons]
          cases v.isPresent <;> rfl
        have hvalue : (((some v : Option (Value N)).bind fun v =>
            (values (withBuiltins others) context []).map (v :: ·)).map
              (List.find? Value.isPresent)).map (fun found => found.getD .Null) =
            some ((if v.isPresent then some v else none).getD .Null) :=
          congrArg (fun found : Option (Value N) => some (found.getD .Null)) hfound
        rw [hvalue, Option.some.injEq, eq_comm, present_iff, ne_eq, ne_eq, Option.some.injEq]
    · have hsome : args.filter (!·.isNull) ≠ [] := hleft ▸ List.cons_ne_nil _ _
      rw [hleft]
      refine iff_of_true ?_ trivial
      dsimp only
      rw [← hleft, value_coalesce hname hsome, hfilter, value_coalesce hname (hne hsome)]
  · exact iff_of_true rfl fun h => absurd h hname

end Coalesce

/-! ## Algebraic simplification -/

theorem values_simplifyArgs {args : List (Expression N)}
    (h : ∀ arg ∈ args, SimplifyKeeps functions context arg) :
    values functions context (simplifyArgs args) = values functions context args := by
  induction args with
  | nil => rfl
  | cons arg args ih =>
    obtain ⟨harg, hargs⟩ := List.forall_mem_cons.mp h
    rw [simplifyArgs, values_cons, values_cons, ih hargs, harg]

theorem branchValues_simplify {conditions : List (Expression N × Expression N)}
    (h : ∀ p ∈ conditions,
      SimplifyKeeps functions context p.1 ∧ SimplifyKeeps functions context p.2) :
    branchValues functions context (simplifyConditions conditions) =
      branchValues functions context conditions := by
  induction conditions with
  | nil => rfl
  | cons p conditions ih =>
    obtain ⟨⟨hcond, hthen⟩, hrest⟩ := List.forall_mem_cons.mp h
    rw [simplifyConditions, branchValues, branchValues, List.map_cons, List.map_cons, hcond, hthen,
      ← branchValues, ← branchValues, ih hrest]

theorem simplifyKeeps_iff {others : FunctionRegistry N} (e : Expression N)
    (h : ∀ child ∈ e.children, SimplifyKeeps (withBuiltins others) context child) :
    SimplifyKeeps (withBuiltins others) context e ↔
      Simplifiable (withBuiltins others) context e := by
  cases e with
  | Literal literal => exact iff_of_true rfl trivial
  | Variable name => exact iff_of_true rfl trivial
  | FunctionCall name args =>
    have hargs : ∀ arg ∈ args, SimplifyKeeps (withBuiltins others) context arg := h
    rw [SimplifyKeeps, simplifyAlgebraic, value_functionCall _ _ name args,
      ← values_simplifyArgs hargs, ← value_functionCall]
    exact value_simplifyCall name _
  | BinaryOp left op right =>
    obtain ⟨hleft, hrest⟩ := List.forall_mem_cons.mp h
    rw [SimplifyKeeps, simplifyAlgebraic, value_binaryOp _ _ left op right, ← hleft,
      ← List.forall_mem_singleton.mp hrest, ← value_binaryOp]
    exact value_simplifyBinary _ op _
  | UnaryOp op e =>
    rw [SimplifyKeeps, simplifyAlgebraic, value_unaryOp _ _ op e, ← List.forall_mem_singleton.mp h,
      ← value_unaryOp]
    exact value_simplifyUnary op _
  | Case conditions elseExpr =>
    obtain ⟨hconditions, helse⟩ := Expression.forall_children_case.mp h
    refine iff_of_true ?_ trivial
    rw [SimplifyKeeps, simplifyAlgebraic, value_case, value_case, branchValues_simplify hconditions]
    cases elseExpr with
    | none => rfl
    | some e =>
      rw [simplifyElse, elseValue, elseValue, Option.map_some, Option.map_some, helse e rfl]
  | Cast e targetType =>
    refine iff_of_true ?_ trivial
    rw [SimplifyKeeps, simplifyAlgebraic, value_cast, value_cast, List.forall_mem_singleton.mp h]

/-- On any row, algebraic simplification keeps the meaning of every part of an expression exactly
when each identity that is used holds for the operand's value. -/
theorem simplified_iff (others : FunctionRegistry N) (row : String → Option String)
    (e : Expression N) :
    (∀ part, Expression.Part e part →
        SimplifyKeeps (withBuiltins others) (rowContext row) part) ↔
      ∀ part, Expression.Part e part →
        Simplifiable (withBuiltins others) (rowContext row) part :=
  Expression.parts_iff simplifyKeeps_iff e

/-- `{x} + 0` is simplified into `{x}`, a text where the sum fails. -/
theorem plus_zero_keeps_text : ¬ SimplifyKeeps (N := sampleScalars) (withBuiltins ⟨fun _ => none⟩)
    (rowContext fun _ => some "abc")
    (.BinaryOp (.Variable "x") .Add (.Literal (.Integer 0))) := by
  intro h
  rw [SimplifyKeeps, simplifyAlgebraic, simplifyAlgebraic, simplifyAlgebraic,
    value_simplifyBinary] at h
  exact h (.String "abc") rfl

end Arcxa.Transformation
