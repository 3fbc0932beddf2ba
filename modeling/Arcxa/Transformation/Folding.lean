import Arcxa.Transformation.Meaning
import Arcxa.Transformation.Optimizer

/-!
# Constant folding and meaning

`folded_iff`: every part of an expression is folded into one of the same meaning exactly when no part
divides integer constants, no branch of a `CASE` that is always taken hides an earlier one that is, and
no folding panics where the evaluation would not.
-/

namespace Arcxa.Transformation

variable {N : Scalars} {functions : FunctionRegistry N} {context : Context N}

/-! ## Operations on literals -/

def DividesIntegers (l : Literal N) (op : BinaryOp) (r : Literal N) : Prop :=
  op = .Divide ∧ ∃ a b, l = .Integer a ∧ r = .Integer b ∧ b ≠ 0

theorem decide_le (l r : Int64) : decide (l ≤ r) = !decide (r < l) := by
  rw [← decide_not, decide_eq_decide, Int64.not_lt]

theorem map_evalLiteral_integer (x : Except (EvalError N) Int64) :
    (x.map (Literal.Integer (N := N))).toOption.map evalLiteral =
      (x.map (Value.Integer (N := N))).toOption := by
  cases x <;> rfl

theorem literalResult_sound {l r : Literal N} {op : BinaryOp}
    {result : Except (EvalError N) (Literal N)} (h : literalResult l op r = some result)
    (hdivides : ¬ DividesIntegers l op r) :
    result.toOption.map evalLiteral = (evalBinaryOp (evalLiteral l) op (evalLiteral r)).toOption := by
  unfold literalResult at h
  split at h
  case h_1 | h_2 | h_3 =>
    cases h
    exact map_evalLiteral_integer _
  case h_4 a b =>
    split_ifs at h with hb
    exact absurd ⟨rfl, a, b, rfl, rfl, hb⟩ hdivides
  case h_5 a b =>
    split_ifs at h with hb
    cases h
    simp only [evalBinaryOp, evalLiteral, Value.isNull, evalOperator, evalModulo, if_neg hb]
    exact map_evalLiteral_integer _
  case h_9 a b =>
    split_ifs at h with hb
    cases h
    rw [Bool.not_eq_true'] at hb
    simp [evalBinaryOp, evalLiteral, Value.isNull, evalOperator, evalDivide, Value.asFloat, Except.bind,
      Except.toOption, hb]
  case h_19 => exact absurd h.symm (Option.some_ne_none _)
  all_goals
    cases h
    simp [evalBinaryOp, evalLiteral, Value.isNull, evalOperator, evalArithmetic, evalEqual,
      evalComparison, Value.coerceTypes, Value.coercedEq, compareValues, Value.asString,
      Value.asBoolean, Except.map, Except.toOption, Std.compare_eq_lt, Std.compare_eq_gt, decide_le]

theorem evalDivide_integers (a : Int64) {b : Int64} (hb : b ≠ 0) :
    evalDivide (.Integer a) (.Integer b) =
      (.ok (.Float (N.div (N.ofInteger a) (N.ofInteger b))) : Except (EvalError N) (Value N)) := by
  have hzero : ¬ N.floatEq (N.ofInteger b) (N.ofInteger 0) = true :=
    fun hzero => hb (N.eq_zero_of_ofInteger b hzero)
  simp only [evalDivide, Value.asFloat, Except.bind, if_neg hzero]

theorem divides_unsound {l r : Literal N} {op : BinaryOp} (h : DividesIntegers l op r) :
    (evaluateBinaryLiterals l op r).toOption.bind (value functions context) ≠
      (evalBinaryOp (evalLiteral l) op (evalLiteral r)).toOption := by
  obtain ⟨rfl, a, b, rfl, rfl, hb⟩ := h
  have heval : (evalBinaryOp (evalLiteral (.Integer a)) .Divide (evalLiteral (.Integer b)) :
      Except (EvalError N) (Value N)).toOption =
        some (.Float (N.div (N.ofInteger a) (N.ofInteger b))) :=
    congrArg Except.toOption (evalDivide_integers a hb)
  rw [evaluateBinaryLiterals, literalResult, if_pos hb, heval]
  dsimp only
  cases checkedQuotient N a b (a / b) with
  | error e => exact nofun
  | ok q =>
    intro heq
    have hint := (value_literal functions context (.Integer q)).symm.trans heq
    exact nomatch hint

theorem value_evaluateBinaryLiterals (l : Literal N) (op : BinaryOp) (r : Literal N) :
    (evaluateBinaryLiterals l op r).toOption.bind (value functions context) =
      (evalBinaryOp (evalLiteral l) op (evalLiteral r)).toOption ↔ ¬ DividesIntegers l op r := by
  refine ⟨fun heq hdivides => divides_unsound hdivides heq, fun hdivides => ?_⟩
  rw [evaluateBinaryLiterals]
  cases hresult : literalResult l op r with
  | none =>
    dsimp only
    exact (value_binaryOp ..).trans (by rw [value_literal, value_literal]; rfl)
  | some result =>
    rw [← literalResult_sound hresult hdivides]
    cases result with
    | error e => rfl
    | ok literal => exact value_literal ..

theorem value_evaluateUnaryLiteral (op : UnaryOp) (literal : Literal N) :
    (evaluateUnaryLiteral op literal).toOption.bind (value functions context) =
      (evalUnaryOp op (evalLiteral literal)).toOption := by
  have hsame : value functions context (.UnaryOp op (.Literal literal)) =
      (evalUnaryOp op (evalLiteral literal)).toOption := by
    rw [value_unaryOp, value_literal, Option.bind_some]
  unfold evaluateUnaryLiteral
  split
  case h_1 i =>
    simp only [evalUnaryOp, evalLiteral]
    cases checkedInteger N (-i.toInt) <;> rfl
  case h_8 => exact hsame
  case h_5 h => cases literal <;> first | rfl | exact absurd rfl h
  case h_7 h => cases literal <;> first | rfl | exact absurd rfl h
  all_goals rfl

/-! ## One node -/

variable (functions context)

def FoldKeeps (e : Expression N) : Prop :=
  (foldConstants e).toOption.bind (value functions context) = value functions context e

/-- The condition is folded into `TRUE`. -/
def foldsTrue (cond : Expression N) : Bool :=
  match foldConstants cond with
  | .ok cond => cond.isTrue
  | .error _ => false

/-- No branch that is always taken hides an earlier one, which would be taken or would fail. -/
def NothingHidden (conditions : List (Expression N × Expression N)) : Prop :=
  match conditions.dropWhile (!foldsTrue ·.1) with
  | [] => True
  | (_, thenExpr) :: _ =>
    value functions context (.Case (conditions.takeWhile (!foldsTrue ·.1)) (some thenExpr)) =
      value functions context thenExpr

/-- What a node has to meet: it is no division of integer constants, and if it is a `CASE`, then
none of its branches hides an earlier one, or, where folding a part panics, it has no value. -/
def Foldable : Expression N → Prop
  | .BinaryOp left op right => ∀ l r, foldConstants left = .ok (.Literal l) →
    foldConstants right = .ok (.Literal r) → ¬ DividesIntegers l op r
  | .Case conditions elseExpr =>
    if (foldConstants (.Case conditions elseExpr)).toOption.isSome then
      NothingHidden functions context conditions
    else value functions context (.Case conditions elseExpr) = none
  | _ => True

variable {functions context}

theorem foldKeeps_ok {e e' : Expression N} (h : FoldKeeps functions context e)
    (hfold : foldConstants e = .ok e') : value functions context e' = value functions context e := by
  rw [FoldKeeps, hfold] at h
  exact h

variable {e : Expression N}

theorem foldKeeps_error {error : EvalError N}
    (h : FoldKeeps functions context e) (hfold : foldConstants e = .error error) :
    value functions context e = none := by
  rw [FoldKeeps, hfold] at h
  exact h.symm

theorem value_foldBinary {left right : Expression N} {op : BinaryOp} :
    (foldBinary left op right).toOption.bind (value functions context) =
      value functions context (.BinaryOp left op right) ↔
      ∀ l r, left = .Literal l → right = .Literal r → ¬ DividesIntegers l op r := by
  unfold foldBinary
  split
  case h_1 l r =>
    rw [value_binaryOp, value_literal, value_literal, Option.bind_some, Option.bind_some,
      value_evaluateBinaryLiterals]
    constructor
    · intro h l' r' hl hr
      cases hl
      cases hr
      exact h
    · exact fun h => h l r rfl rfl
  case h_2 hliterals =>
    exact iff_of_true rfl fun l r hl hr => absurd hr (hliterals l r hl)

theorem foldKeeps_binaryOp {left right : Expression N} {op : BinaryOp}
    (hleft : FoldKeeps functions context left) (hright : FoldKeeps functions context right) :
    FoldKeeps functions context (.BinaryOp left op right) ↔
      Foldable functions context (.BinaryOp left op right) := by
  show ((foldConstants left).bind fun left => (foldConstants right).bind fun right =>
    foldBinary left op right).toOption.bind _ = _ ↔ _
  rw [Foldable]
  cases hl : foldConstants left with
  | error e =>
    refine iff_of_true ?_ (fun _ _ h => nomatch h)
    rw [value_binaryOp, foldKeeps_error hleft hl]
    rfl
  | ok l =>
    cases hr : foldConstants right with
    | error e =>
      refine iff_of_true ?_ (fun _ _ _ h => nomatch h)
      rw [value_binaryOp, foldKeeps_error hright hr]
      cases value functions context left <;> rfl
    | ok r =>
      dsimp only [Except.bind]
      rw [value_binaryOp, ← foldKeeps_ok hleft hl, ← foldKeeps_ok hright hr, ← value_binaryOp,
        value_foldBinary]
      simp only [Except.ok.injEq]

theorem foldKeeps_unaryOp {op : UnaryOp} (h : FoldKeeps functions context e) :
    FoldKeeps functions context (.UnaryOp op e) := by
  show ((foldConstants e).bind (foldUnary op)).toOption.bind _ = _
  rw [value_unaryOp]
  cases hfold : foldConstants e with
  | error error =>
    rw [foldKeeps_error h hfold]
    rfl
  | ok e' =>
    rw [← foldKeeps_ok h hfold]
    dsimp only [Except.bind]
    unfold foldUnary
    split
    case h_1 literal => rw [value_evaluateUnaryLiteral, value_literal, Option.bind_some]
    case h_2 => exact value_unaryOp ..

theorem foldKeeps_cast {targetType : DataType}
    (h : FoldKeeps functions context e) : FoldKeeps functions context (.Cast e targetType) := by
  show ((foldConstants e).map (Expression.Cast · targetType)).toOption.bind _ = _
  rw [value_cast]
  cases hfold : foldConstants e with
  | error error =>
    rw [foldKeeps_error h hfold]
    rfl
  | ok e' =>
    rw [← foldKeeps_ok h hfold]
    exact value_cast ..

theorem values_foldArgs {args : List (Expression N)}
    (h : ∀ arg ∈ args, FoldKeeps functions context arg) :
    (foldArgs args).toOption.bind (values functions context) = values functions context args := by
  induction args with
  | nil => rfl
  | cons arg args ih =>
    obtain ⟨harg, hargs⟩ := List.forall_mem_cons.mp h
    have hrest := ih hargs
    rw [foldArgs, values_cons]
    cases hfold : foldConstants arg with
    | error error =>
      rw [foldKeeps_error harg hfold]
      rfl
    | ok arg' =>
      rw [← foldKeeps_ok harg hfold, ← hrest]
      dsimp only [Except.bind]
      cases foldArgs args with
      | error error => cases value functions context arg' <;> rfl
      | ok args' => exact values_cons ..

theorem foldKeeps_functionCall {name : String} {args : List (Expression N)}
    (h : ∀ arg ∈ args, FoldKeeps functions context arg) :
    FoldKeeps functions context (.FunctionCall name args) := by
  show ((foldArgs args).map (Expression.FunctionCall name)).toOption.bind _ = _
  rw [value_functionCall, ← values_foldArgs h]
  cases foldArgs args with
  | error error => rfl
  | ok args' => exact value_functionCall ..

/-! ### `CASE` -/

theorem value_of_isTrue (h : e.isTrue = true) :
    value functions context e = some (.Boolean true) := by
  unfold Expression.isTrue at h
  split at h
  · exact value_literal ..
  · exact nomatch h

theorem value_of_isFalse (h : e.isFalse = true) :
    value functions context e = some (.Boolean false) := by
  unfold Expression.isFalse at h
  split at h
  · exact value_literal ..
  · exact nomatch h

theorem select_filter (conditions : List (Expression N × Expression N))
    (otherwise : Option (Value N)) :
    select (branchValues functions context (conditions.filter (!·.1.isFalse))) otherwise =
      select (branchValues functions context conditions) otherwise := by
  induction conditions with
  | nil => rfl
  | cons p conditions ih =>
    rw [List.filter_cons]
    cases hfalse : p.1.isFalse with
    | true =>
      rw [if_neg (by decide), ih, branchValues, branchValues, List.map_cons, select,
        value_of_isFalse hfalse]
      rfl
    | false =>
      rw [if_pos (show (!false) = true from rfl)]
      exact congrArg (Option.bind (value functions context p.1)) (funext fun v => by
        rw [branchValues, branchValues] at ih
        rw [ih])

theorem value_foldCase_of_none {conditions : List (Expression N × Expression N)}
    {elseExpr : Option (Expression N)} (h : conditions.find? (·.1.isTrue) = none) :
    value functions context (foldCase conditions elseExpr) =
      value functions context (.Case conditions elseExpr) := by
  rw [foldCase, h]
  dsimp only
  rw [value_case, ← select_filter]
  split_ifs with hempty
  · rw [List.isEmpty_iff.mp hempty, branchValues, List.map_nil, select]
    cases elseExpr with
    | none => exact value_literal ..
    | some e => rfl
  · exact value_case ..

variable {conditions conditions' : List (Expression N × Expression N)}

theorem foldConditions_ok
    (h : foldConditions conditions = .ok conditions') :
    List.Forall₂ (fun p p' => foldConstants p.1 = .ok p'.1 ∧ foldConstants p.2 = .ok p'.2)
      conditions conditions' := by
  induction conditions generalizing conditions' with
  | nil =>
    cases h
    exact .nil
  | cons p conditions ih =>
    rw [foldConditions] at h
    cases hcond : foldConstants p.1 with
    | error e =>
      rw [hcond] at h
      exact nomatch h
    | ok cond =>
      cases hthen : foldConstants p.2 with
      | error e =>
        rw [hcond, hthen] at h
        exact nomatch h
      | ok thenExpr =>
        rw [hcond, hthen] at h
        dsimp only [Except.bind] at h
        cases hrest : foldConditions conditions with
        | error e =>
          rw [hrest] at h
          exact nomatch h
        | ok rest =>
          rw [hrest] at h
          cases h
          exact .cons ⟨hcond, hthen⟩ (ih hrest)

theorem branchValues_fold
    (h : ∀ p ∈ conditions, FoldKeeps functions context p.1 ∧ FoldKeeps functions context p.2)
    (hfold : List.Forall₂ (fun p p' => foldConstants p.1 = .ok p'.1 ∧ foldConstants p.2 = .ok p'.2)
      conditions conditions') :
    branchValues functions context conditions' = branchValues functions context conditions := by
  induction hfold with
  | nil => rfl
  | @cons p p' conditions conditions' hp _ ih =>
    obtain ⟨hhead, hrest⟩ := List.forall_mem_cons.mp h
    rw [branchValues, List.map_cons, ← branchValues, ih hrest, foldKeeps_ok hhead.1 hp.1,
      foldKeeps_ok hhead.2 hp.2]
    rfl

theorem hidden_of_find?
    {p' : Expression N × Expression N}
    (h : ∀ p ∈ conditions, FoldKeeps functions context p.1 ∧ FoldKeeps functions context p.2)
    (hfold : List.Forall₂ (fun p p' => foldConstants p.1 = .ok p'.1 ∧ foldConstants p.2 = .ok p'.2)
      conditions conditions')
    (hfind : conditions'.find? (·.1.isTrue) = some p') :
    ∃ p rest, conditions.dropWhile (!foldsTrue ·.1) = p :: rest ∧
      value functions context p'.2 = value functions context p.2 ∧ ∀ otherwise,
        select (branchValues functions context conditions) otherwise =
          select (branchValues functions context (conditions.takeWhile (!foldsTrue ·.1)))
            (value functions context p.2) := by
  induction hfold with
  | nil => exact nomatch hfind
  | @cons p q conditions conditions' hp _ ih =>
    obtain ⟨hhead, hrest⟩ := List.forall_mem_cons.mp h
    have hfolds : foldsTrue p.1 = q.1.isTrue := by
      rw [foldsTrue, hp.1]
    rw [List.find?_cons] at hfind
    rw [List.dropWhile_cons, List.takeWhile_cons, hfolds]
    cases htrue : q.1.isTrue with
    | true =>
      rw [htrue] at hfind
      cases hfind
      refine ⟨p, conditions, rfl, foldKeeps_ok hhead.2 hp.2, fun otherwise => ?_⟩
      rw [branchValues, List.map_cons, select, ← foldKeeps_ok hhead.1 hp.1, value_of_isTrue htrue]
      rfl
    | false =>
      rw [htrue] at hfind
      obtain ⟨first, rest, hdrop, hvalue, hselect⟩ := ih hrest hfind
      refine ⟨first, rest, hdrop, hvalue, fun otherwise => ?_⟩
      rw [branchValues, List.map_cons, select, ← branchValues, hselect otherwise]
      rfl

theorem nothingHidden_of_find?_none
    (hfold : List.Forall₂ (fun p p' => foldConstants p.1 = .ok p'.1 ∧ foldConstants p.2 = .ok p'.2)
      conditions conditions')
    (hfind : conditions'.find? (·.1.isTrue) = none) :
    conditions.dropWhile (!foldsTrue ·.1) = [] := by
  induction hfold with
  | nil => rfl
  | @cons p q conditions conditions' hp _ ih =>
    have hfolds : foldsTrue p.1 = q.1.isTrue := by
      rw [foldsTrue, hp.1]
    rw [List.find?_cons] at hfind
    rw [List.dropWhile_cons, hfolds]
    cases htrue : q.1.isTrue with
    | true =>
      rw [htrue] at hfind
      exact nomatch hfind
    | false =>
      rw [htrue] at hfind
      exact ih hfind

theorem foldKeeps_case {conditions : List (Expression N × Expression N)}
    {elseExpr : Option (Expression N)}
    (h : ∀ p ∈ conditions, FoldKeeps functions context p.1 ∧ FoldKeeps functions context p.2)
    (helse : ∀ e ∈ elseExpr, FoldKeeps functions context e) :
    FoldKeeps functions context (.Case conditions elseExpr) ↔
      Foldable functions context (.Case conditions elseExpr) := by
  rw [FoldKeeps, Foldable]
  cases hfold : foldConstants (.Case conditions elseExpr) with
  | error e =>
    rw [if_neg (by exact Bool.false_ne_true)]
    exact eq_comm
  | ok folded =>
    rw [if_pos (show (Except.ok folded : Except (EvalError N) _).toOption.isSome = true from rfl)]
    rw [foldConstants] at hfold
    cases hconditions : foldConditions conditions with
    | error e =>
      rw [hconditions] at hfold
      exact nomatch hfold
    | ok conditions' =>
      rw [hconditions] at hfold
      have hkeeps := foldConditions_ok hconditions
      have hbranches := branchValues_fold h hkeeps
      have helse' : ∃ elseExpr', folded = foldCase conditions' elseExpr' ∧
          elseValue functions context elseExpr' = elseValue functions context elseExpr := by
        cases elseExpr with
        | none =>
          cases hfold
          exact ⟨none, rfl, rfl⟩
        | some e =>
          dsimp only [Except.bind] at hfold
          rw [foldElse] at hfold
          cases he : foldConstants e with
          | error error =>
            rw [he] at hfold
            exact nomatch hfold
          | ok e' =>
            rw [he] at hfold
            cases hfold
            exact ⟨some e', rfl, foldKeeps_ok (helse e rfl) he⟩
      obtain ⟨elseExpr', rfl, helse'⟩ := helse'
      have hcase : value functions context (.Case conditions' elseExpr') =
          value functions context (.Case conditions elseExpr) := by
        rw [value_case, value_case, hbranches, helse']
      dsimp only [Except.toOption, Option.bind_some]
      rw [NothingHidden]
      cases hfind : conditions'.find? (·.1.isTrue) with
      | none =>
        rw [nothingHidden_of_find?_none hkeeps hfind]
        exact iff_of_true ((value_foldCase_of_none hfind).trans hcase) trivial
      | some p' =>
        obtain ⟨p, rest, hdrop, hvalue, hselect⟩ := hidden_of_find? h hkeeps hfind
        rw [hdrop, foldCase, hfind]
        dsimp only
        rw [hvalue, value_case, hselect, value_case, elseValue, Option.map_some, Option.getD_some]
        exact eq_comm

/-! ## Constant folding -/

theorem foldKeeps_iff (e : Expression N)
    (h : ∀ child ∈ e.children, FoldKeeps functions context child) :
    FoldKeeps functions context e ↔ Foldable functions context e := by
  cases e with
  | Literal literal => exact iff_of_true rfl trivial
  | Variable name => exact iff_of_true rfl trivial
  | FunctionCall name args => exact iff_of_true (foldKeeps_functionCall h) trivial
  | BinaryOp left op right =>
    obtain ⟨hleft, hrest⟩ := List.forall_mem_cons.mp h
    exact foldKeeps_binaryOp hleft (List.forall_mem_singleton.mp hrest)
  | UnaryOp op e => exact iff_of_true (foldKeeps_unaryOp (List.forall_mem_singleton.mp h)) trivial
  | Case conditions elseExpr =>
    obtain ⟨hconditions, helse⟩ := Expression.forall_children_case.mp h
    exact foldKeeps_case hconditions helse
  | Cast e targetType =>
    exact iff_of_true (foldKeeps_cast (List.forall_mem_singleton.mp h)) trivial

/-- On any row, constant folding keeps the meaning of every part of an expression exactly when no
part divides integer constants, no part is a `CASE` with a hidden branch, and no folding panics where
the `CASE` around it has a value. -/
theorem folded_iff (functions : FunctionRegistry N) (context : Context N) (e : Expression N) :
    (∀ part, Expression.Part e part → FoldKeeps functions context part) ↔
      ∀ part, Expression.Part e part → Foldable functions context part :=
  Expression.parts_iff foldKeeps_iff e

/-- `CASE WHEN {x} IS NOT NULL THEN 'a' WHEN TRUE THEN 'b' END` is folded into `'b'`, whatever `x`
is. -/
theorem hidden_branch_taken : ¬ FoldKeeps (N := sampleScalars) ⟨fun _ => none⟩
    (rowContext fun _ => some "1")
    (.Case [(.UnaryOp .IsNotNull (.Variable "x"), .Literal (.String "a")),
      (.Literal (.Boolean true), .Literal (.String "b"))] none) := by
  intro h
  have hfolded : some (Value.String (N := sampleScalars) "b") = some (.String "a") := h
  exact absurd (Value.String.inj (Option.some.inj hfolded)) (by decide)

end Arcxa.Transformation
