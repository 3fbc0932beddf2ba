import Arcxa.Transformation.Expression

/-!
# The expression optimizer

`ExpressionOptimizer`: constant folding, which panics where folding an operation does, and algebraic
simplification.
-/

namespace Arcxa.Transformation

variable {N : Scalars}

/-! ## Constant folding -/

def literalResult : Literal N → BinaryOp → Literal N → Option (Except (EvalError N) (Literal N))
  | .Integer l, .Add, .Integer r => some ((checkedInteger N (l.toInt + r.toInt)).map .Integer)
  | .Integer l, .Subtract, .Integer r => some ((checkedInteger N (l.toInt - r.toInt)).map .Integer)
  | .Integer l, .Multiply, .Integer r => some ((checkedInteger N (l.toInt * r.toInt)).map .Integer)
  | .Integer l, .Divide, .Integer r =>
    if r ≠ 0 then some ((checkedQuotient N l r (l / r)).map .Integer) else none
  | .Integer l, .Modulo, .Integer r =>
    if r ≠ 0 then some ((checkedQuotient N l r (l % r)).map .Integer) else none
  | .Float l, .Add, .Float r => some (.ok (.Float (N.add l r)))
  | .Float l, .Subtract, .Float r => some (.ok (.Float (N.sub l r)))
  | .Float l, .Multiply, .Float r => some (.ok (.Float (N.mul l r)))
  | .Float l, .Divide, .Float r =>
    if !N.floatEq r (N.ofInteger 0) then some (.ok (.Float (N.div l r))) else none
  | .String l, .Concat, .String r => some (.ok (.String (l ++ r)))
  | .Boolean l, .And, .Boolean r => some (.ok (.Boolean (l && r)))
  | .Boolean l, .Or, .Boolean r => some (.ok (.Boolean (l || r)))
  | .Integer l, .Equal, .Integer r => some (.ok (.Boolean (l = r)))
  | .Integer l, .NotEqual, .Integer r => some (.ok (.Boolean (l ≠ r)))
  | .Integer l, .LessThan, .Integer r => some (.ok (.Boolean (l < r)))
  | .Integer l, .LessThanOrEqual, .Integer r => some (.ok (.Boolean (l ≤ r)))
  | .Integer l, .GreaterThan, .Integer r => some (.ok (.Boolean (r < l)))
  | .Integer l, .GreaterThanOrEqual, .Integer r => some (.ok (.Boolean (r ≤ l)))
  | _, _, _ => none

def evaluateBinaryLiterals (left : Literal N) (op : BinaryOp) (right : Literal N) :
    Except (EvalError N) (Expression N) :=
  match literalResult left op right with
  | some result => result.map .Literal
  | none => .ok (.BinaryOp (.Literal left) op (.Literal right))

def evaluateUnaryLiteral (op : UnaryOp) (literal : Literal N) :
    Except (EvalError N) (Expression N) :=
  match op, literal with
  | .Negate, .Integer i => (checkedInteger N (-i.toInt)).map fun i => .Literal (.Integer i)
  | .Negate, .Float f => .ok (.Literal (.Float (N.neg f)))
  | .Not, .Boolean b => .ok (.Literal (.Boolean (!b)))
  | .IsNull, .Null => .ok (.Literal (.Boolean true))
  | .IsNull, _ => .ok (.Literal (.Boolean false))
  | .IsNotNull, .Null => .ok (.Literal (.Boolean false))
  | .IsNotNull, _ => .ok (.Literal (.Boolean true))
  | _, _ => .ok (.UnaryOp op (.Literal literal))

namespace Expression

def isTrue : Expression N → Bool
  | .Literal (.Boolean true) => true
  | _ => false

def isFalse : Expression N → Bool
  | .Literal (.Boolean false) => true
  | _ => false

def isNull : Expression N → Bool
  | .Literal .Null => true
  | _ => false

end Expression

def foldBinary (left : Expression N) (op : BinaryOp) (right : Expression N) :
    Except (EvalError N) (Expression N) :=
  match left, right with
  | .Literal l, .Literal r => evaluateBinaryLiterals l op r
  | _, _ => .ok (.BinaryOp left op right)

def foldUnary (op : UnaryOp) (expr : Expression N) : Except (EvalError N) (Expression N) :=
  match expr with
  | .Literal literal => evaluateUnaryLiteral op literal
  | _ => .ok (.UnaryOp op expr)

/-- A `CASE` whose parts are folded: the first branch that is always taken, or else what is left
without the branches that never are. -/
def foldCase (conditions : List (Expression N × Expression N)) (elseExpr : Option (Expression N)) :
    Expression N :=
  match conditions.find? (·.1.isTrue) with
  | some (_, thenExpr) => thenExpr
  | none =>
    let conditions := conditions.filter (!·.1.isFalse)
    if conditions.isEmpty then elseExpr.getD (.Literal .Null) else .Case conditions elseExpr

mutual

def foldConstants : Expression N → Except (EvalError N) (Expression N)
  | .BinaryOp left op right =>
    (foldConstants left).bind fun left => (foldConstants right).bind fun right =>
      foldBinary left op right
  | .UnaryOp op expr => (foldConstants expr).bind (foldUnary op)
  | .FunctionCall name args => (foldArgs args).map (.FunctionCall name)
  | .Case conditions elseExpr =>
    (foldConditions conditions).bind fun conditions => (foldElse elseExpr).map (foldCase conditions)
  | .Cast expr targetType => (foldConstants expr).map (.Cast · targetType)
  | .Literal literal => .ok (.Literal literal)
  | .Variable name => .ok (.Variable name)

def foldArgs : List (Expression N) → Except (EvalError N) (List (Expression N))
  | [] => .ok []
  | arg :: args => (foldConstants arg).bind fun arg => (foldArgs args).map (arg :: ·)

def foldConditions : List (Expression N × Expression N) →
    Except (EvalError N) (List (Expression N × Expression N))
  | [] => .ok []
  | (cond, thenExpr) :: conditions =>
    (foldConstants cond).bind fun cond => (foldConstants thenExpr).bind fun thenExpr =>
      (foldConditions conditions).map ((cond, thenExpr) :: ·)

def foldElse : Option (Expression N) → Except (EvalError N) (Option (Expression N))
  | some elseExpr => (foldConstants elseExpr).map some
  | none => .ok none

end

/-! ## Algebraic simplification -/

/-- The identity that a binary operation is an instance of, with the operand that is kept or
dropped. -/
inductive Identity (N : Scalars) where
  | addZero (kept : Expression N)
  | zeroAdd (kept : Expression N)
  | subtractZero (kept : Expression N)
  | multiplyZero (dropped : Expression N)
  | multiplyOne (kept : Expression N)
  | oneMultiply (kept : Expression N)
  | divideOne (kept : Expression N)
  | andTrue (kept : Expression N)
  | andFalse (dropped : Expression N)
  | orTrue (dropped : Expression N)
  | orFalse (kept : Expression N)
  | sameVariable (name : String)
  | other

def identity : BinaryOp → Expression N → Expression N → Identity N
  | .Add, left, .Literal (.Integer 0) => .addZero left
  | .Add, .Literal (.Integer 0), right => .zeroAdd right
  | .Subtract, left, .Literal (.Integer 0) => .subtractZero left
  | .Multiply, left, .Literal (.Integer 0) => .multiplyZero left
  | .Multiply, .Literal (.Integer 0), right => .multiplyZero right
  | .Multiply, left, .Literal (.Integer 1) => .multiplyOne left
  | .Multiply, .Literal (.Integer 1), right => .oneMultiply right
  | .Divide, left, .Literal (.Integer 1) => .divideOne left
  | .And, left, .Literal (.Boolean true) => .andTrue left
  | .And, .Literal (.Boolean true), right => .andTrue right
  | .And, left, .Literal (.Boolean false) => .andFalse left
  | .And, .Literal (.Boolean false), right => .andFalse right
  | .Or, left, .Literal (.Boolean true) => .orTrue left
  | .Or, .Literal (.Boolean true), right => .orTrue right
  | .Or, left, .Literal (.Boolean false) => .orFalse left
  | .Or, .Literal (.Boolean false), right => .orFalse right
  | .Equal, .Variable l, .Variable r => if l = r then .sameVariable l else .other
  | _, _, _ => .other

def Identity.result : Identity N → Option (Expression N)
  | .addZero kept => some kept
  | .zeroAdd kept => some kept
  | .subtractZero kept => some kept
  | .multiplyZero _ => some (.Literal (.Integer 0))
  | .multiplyOne kept => some kept
  | .oneMultiply kept => some kept
  | .divideOne kept => some kept
  | .andTrue kept => some kept
  | .andFalse _ => some (.Literal (.Boolean false))
  | .orTrue _ => some (.Literal (.Boolean true))
  | .orFalse kept => some kept
  | .sameVariable _ => some (.Literal (.Boolean true))
  | .other => none

def simplifyBinary (left : Expression N) (op : BinaryOp) (right : Expression N) : Expression N :=
  (identity op left right).result.getD (.BinaryOp left op right)

def simplifyUnary : UnaryOp → Expression N → Expression N
  | .Not, .UnaryOp .Not inner => inner
  | .Negate, .UnaryOp .Negate inner => inner
  | op, expr => .UnaryOp op expr

/-- `NULL` literals are removed from the arguments of `COALESCE`. -/
def simplifyCall (name : String) (args : List (Expression N)) : Expression N :=
  if N.uppercase name = "COALESCE" then
    match args.filter (!·.isNull) with
    | [] => .Literal .Null
    | [arg] => arg
    | nonNullArgs => .FunctionCall name nonNullArgs
  else .FunctionCall name args

mutual

def simplifyAlgebraic : Expression N → Expression N
  | .BinaryOp left op right => simplifyBinary (simplifyAlgebraic left) op (simplifyAlgebraic right)
  | .UnaryOp op expr => simplifyUnary op (simplifyAlgebraic expr)
  | .FunctionCall name args => simplifyCall name (simplifyArgs args)
  | .Case conditions elseExpr => .Case (simplifyConditions conditions) (simplifyElse elseExpr)
  | .Cast expr targetType => .Cast (simplifyAlgebraic expr) targetType
  | .Literal literal => .Literal literal
  | .Variable name => .Variable name

def simplifyArgs : List (Expression N) → List (Expression N)
  | [] => []
  | arg :: args => simplifyAlgebraic arg :: simplifyArgs args

def simplifyConditions : List (Expression N × Expression N) → List (Expression N × Expression N)
  | [] => []
  | (cond, thenExpr) :: conditions =>
    (simplifyAlgebraic cond, simplifyAlgebraic thenExpr) :: simplifyConditions conditions

def simplifyElse : Option (Expression N) → Option (Expression N)
  | some elseExpr => some (simplifyAlgebraic elseExpr)
  | none => none

end

end Arcxa.Transformation
