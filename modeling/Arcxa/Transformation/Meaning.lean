import Arcxa.Transformation.Expression

/-!
# The meaning of expressions

An expression's value, or that it has none (`value`), with one equation for each form; and induction
over the parts of an expression. A rewriting that keeps meanings when it keeps those of the parts is
looked at one node at a time (`parts_iff`).
-/

namespace Arcxa.Transformation

variable {N : Scalars} {ε α β : Type}

theorem toOption_bind (x : Except ε α) (f : α → Except ε β) :
    (x.bind f).toOption = x.toOption.bind fun a => (f a).toOption := by
  cases x <;> rfl

theorem toOption_map (x : Except ε α) (f : α → β) : (x.map f).toOption = x.toOption.map f := by
  cases x <;> rfl

section Value

variable (functions : FunctionRegistry N) (context : Context N)

/-- The value of an expression on a row, or none where its evaluation fails. -/
def value (e : Expression N) : Option (Value N) := (evalExpr functions context e).toOption

def values (args : List (Expression N)) : Option (List (Value N)) :=
  (evalArgs functions context args).toOption

def select : List (Option (Value N) × Option (Value N)) → Option (Value N) → Option (Value N)
  | [], otherwise => otherwise
  | (cond, branch) :: branches, otherwise =>
    cond.bind fun v => if v.asBoolean then branch else select branches otherwise

def branchValues (conditions : List (Expression N × Expression N)) :
    List (Option (Value N) × Option (Value N)) :=
  conditions.map fun p => (value functions context p.1, value functions context p.2)

def elseValue (elseExpr : Option (Expression N)) : Option (Value N) :=
  (elseExpr.map (value functions context)).getD (some .Null)

@[simp] theorem value_literal (literal : Literal N) :
    value functions context (.Literal literal) = some (evalLiteral literal) := rfl

@[simp] theorem value_variable (name : String) :
    value functions context (.Variable name) = context name := by
  rw [value, evalExpr]
  cases context name <;> rfl

theorem value_functionCall (name : String) (args : List (Expression N)) :
    value functions context (.FunctionCall name args) =
      (values functions context args).bind fun vs => (functions.execute name vs).toOption := by
  show ((evalArgs functions context args).bind (functions.execute name)).toOption = _
  rw [toOption_bind, values]

theorem value_binaryOp (left : Expression N) (op : BinaryOp) (right : Expression N) :
    value functions context (.BinaryOp left op right) = (value functions context left).bind fun l =>
      (value functions context right).bind fun r => (evalBinaryOp l op r).toOption := by
  show ((evalExpr functions context left).bind fun l =>
    (evalExpr functions context right).bind fun r => evalBinaryOp l op r).toOption = _
  rw [toOption_bind]
  simp only [toOption_bind, value]

theorem value_unaryOp (op : UnaryOp) (e : Expression N) :
    value functions context (.UnaryOp op e) =
      (value functions context e).bind fun v => (evalUnaryOp op v).toOption := by
  show ((evalExpr functions context e).bind (evalUnaryOp op)).toOption = _
  rw [toOption_bind, value]

theorem value_cast (e : Expression N) (targetType : DataType) :
    value functions context (.Cast e targetType) =
      (value functions context e).bind fun v => (v.cast targetType).toOption := by
  show ((evalExpr functions context e).bind (·.cast targetType)).toOption = _
  rw [toOption_bind, value]

theorem values_cons (arg : Expression N) (args : List (Expression N)) :
    values functions context (arg :: args) = (value functions context arg).bind fun v =>
      (values functions context args).map (v :: ·) := by
  show ((evalExpr functions context arg).bind fun v =>
    (evalArgs functions context args).map (v :: ·)).toOption = _
  rw [toOption_bind]
  simp only [toOption_map, value, values]

theorem select_conditions (conditions : List (Expression N × Expression N))
    (otherwise : Except (EvalError N) (Value N)) :
    ((evalConditions functions context conditions).bind (chosenOr · otherwise)).toOption =
      select (branchValues functions context conditions) otherwise.toOption := by
  induction conditions with
  | nil => rfl
  | cons p conditions ih =>
    obtain ⟨cond, thenExpr⟩ := p
    rw [branchValues, List.map_cons, select, ← branchValues, ← ih]
    show (((evalExpr functions context cond).bind fun v =>
      if v.asBoolean then (evalExpr functions context thenExpr).map some
      else evalConditions functions context conditions).bind (chosenOr · otherwise)).toOption =
        (evalExpr functions context cond).toOption.bind fun v =>
          if v.asBoolean then (evalExpr functions context thenExpr).toOption
          else ((evalConditions functions context conditions).bind (chosenOr · otherwise)).toOption
    cases evalExpr functions context cond with
    | error e => rfl
    | ok v =>
      dsimp only [Except.bind, Except.toOption, Option.bind_some]
      split_ifs
      · cases evalExpr functions context thenExpr <;> rfl
      · rfl

theorem value_case (conditions : List (Expression N × Expression N))
    (elseExpr : Option (Expression N)) :
    value functions context (.Case conditions elseExpr) =
      select (branchValues functions context conditions) (elseValue functions context elseExpr) := by
  show ((evalConditions functions context conditions).bind
    (chosenOr · (evalElse functions context elseExpr))).toOption = _
  rw [select_conditions]
  cases elseExpr <;> rfl

end Value

/-! ## Parts -/

namespace Expression

def children : Expression N → List (Expression N)
  | .Literal _ => []
  | .Variable _ => []
  | .FunctionCall _ args => args
  | .BinaryOp left _ right => [left, right]
  | .UnaryOp _ expr => [expr]
  | .Case conditions elseExpr => conditions.flatMap (fun p => [p.1, p.2]) ++ elseExpr.toList
  | .Cast expr _ => [expr]

theorem inductionOn {P : Expression N → Prop} (e : Expression N)
    (h : ∀ e, (∀ child ∈ e.children, P child) → P e) : P e :=
  Expression.rec (motive_1 := P) (motive_2 := fun args => ∀ arg ∈ args, P arg)
    (motive_3 := fun conditions => ∀ child ∈ conditions.flatMap (fun p => [p.1, p.2]), P child)
    (motive_4 := fun elseExpr => ∀ child ∈ elseExpr.toList, P child)
    (motive_5 := fun p => P p.1 ∧ P p.2)
    (fun literal => h (.Literal literal) fun _ hmem => nomatch hmem)
    (fun name => h (.Variable name) fun _ hmem => nomatch hmem)
    (fun name args hargs => h (.FunctionCall name args) hargs)
    (fun left op right hleft hright => h (.BinaryOp left op right)
      (List.forall_mem_cons.mpr ⟨hleft, List.forall_mem_singleton.mpr hright⟩))
    (fun op expr hexpr => h (.UnaryOp op expr) (List.forall_mem_singleton.mpr hexpr))
    (fun conditions elseExpr hconditions helse => h (.Case conditions elseExpr)
      (List.forall_mem_append.mpr ⟨hconditions, helse⟩))
    (fun expr targetType hexpr => h (.Cast expr targetType) (List.forall_mem_singleton.mpr hexpr))
    (fun _ hmem => nomatch hmem)
    (fun _ _ hhead htail => List.forall_mem_cons.mpr ⟨hhead, htail⟩)
    (fun _ hmem => nomatch hmem)
    (fun _ _ hhead htail => List.forall_mem_cons.mpr
      ⟨hhead.1, List.forall_mem_cons.mpr ⟨hhead.2, htail⟩⟩)
    (fun _ hmem => nomatch hmem)
    (fun _ hsome => List.forall_mem_singleton.mpr hsome)
    (fun _ _ hcond hthen => ⟨hcond, hthen⟩) e

/-- The parts of an expression, itself among them. -/
inductive Part (whole : Expression N) : Expression N → Prop where
  | whole : Part whole whole
  | child {e child : Expression N} (hpart : Part whole e) (hchild : child ∈ e.children) :
      Part whole child

theorem parts_iff {Good Local : Expression N → Prop}
    (h : ∀ e, (∀ child ∈ e.children, Good child) → (Good e ↔ Local e)) (e : Expression N) :
    (∀ part, Part e part → Good part) ↔ ∀ part, Part e part → Local part := by
  constructor
  · intro hgood part hpart
    exact (h part fun child hchild => hgood child (.child hpart hchild)).mp (hgood part hpart)
  · intro hlocal part
    induction part using inductionOn with
    | h part ih =>
      intro hpart
      exact (h part fun child hchild => ih child hchild (.child hpart hchild)).mpr
        (hlocal part hpart)

theorem forall_children_case {P : Expression N → Prop}
    {conditions : List (Expression N × Expression N)} {elseExpr : Option (Expression N)} :
    (∀ child ∈ (Expression.Case conditions elseExpr).children, P child) ↔
      (∀ p ∈ conditions, P p.1 ∧ P p.2) ∧ ∀ e ∈ elseExpr, P e := by
  rw [children, List.forall_mem_append, List.forall_mem_flatMap]
  simp

end Expression

end Arcxa.Transformation
