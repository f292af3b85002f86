import LambdaAny.Ty

/-!
# Expressions

The abstract trees.  A tree may hold what no text denotes: a negative literal, or a name that is no
identifier.
-/

namespace LambdaAny

/-- The operators from two integers to an integer. -/
inductive Arith where
  | add
  | sub
  | mul
  | div
  | mod
deriving DecidableEq, Repr

/-- The comparisons. -/
inductive Cmp where
  | lt
  | le
  | gt
  | ge
deriving DecidableEq, Repr

/-- The binary operators. -/
inductive Op where
  | arith (o : Arith)
  | cmp (o : Cmp)
deriving DecidableEq, Repr

def Arith.text : Arith → String
  | add => "+"
  | sub => "-"
  | mul => "*"
  | div => "/"
  | mod => "mod"

def Cmp.text : Cmp → String
  | lt => "<"
  | le => "<="
  | gt => ">"
  | ge => ">="

def Op.text : Op → String
  | arith o => o.text
  | cmp o => o.text

inductive Expr where
  | int (n : Int64)
  | bool (b : Bool)
  | var (name : String)
  | op (o : Op) (lhs rhs : Expr)
  | ite (cond thn els : Expr)
  | letIn (binder : String) (bindee tail : Expr)
  /-- A recursive function of one parameter: `func` is bound in `body` and `tail`, `param` in
  `body`. -/
  | letRec (func param : String) (paramTy ret : Ty) (body tail : Expr)
  | abs (param : String) (ty : Ty) (body : Expr)
  | app (func arg : Expr)
deriving DecidableEq, Repr, Inhabited

end LambdaAny
