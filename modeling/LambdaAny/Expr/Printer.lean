import LambdaAny.Expr
import LambdaAny.Layout

/-!
# Printing expressions

The concrete text of a tree, with no more parentheses than its shape needs.  A tree with a negative
literal or a name that is no identifier is printed too, but its text does not read back.
-/

namespace LambdaAny

/-- How tightly an operator holds its operands together. -/
def Op.level : Op → Nat
  | .cmp _ => 1
  | .arith .add | .arith .sub => 2
  | .arith .mul | .arith .div | .arith .mod => 3

namespace Expr

/-- How tightly an expression holds together as an operand.  Keyword forms extend to the right as
far as they can and so come last. -/
def level : Expr → Nat
  | ite _ _ _ | letIn _ _ _ | letRec _ _ _ _ _ _ | abs _ _ _ => 0
  | op o _ _ => o.level
  | app _ _ => 4
  | int _ | bool _ | var _ => 5

/-- The document between parentheses if `parens` says so. -/
def bracket (parens : Bool) (doc : Doc) : Doc :=
  if parens then .text "(" ++ doc ++ .text ")" else doc

/-- Whether the left operand of an operator needs parentheses.  Comparisons group to the right, so
there it does at the same level too. -/
def lhsParens : Op → Expr → Bool
  | .cmp o, lhs => lhs.level ≤ (Op.cmp o).level
  | .arith o, lhs => lhs.level < (Op.arith o).level

/-- Whether the right operand of an operator needs parentheses. -/
def rhsParens : Op → Expr → Bool
  | .cmp o, rhs => rhs.level < (Op.cmp o).level
  | .arith o, rhs => rhs.level ≤ (Op.arith o).level

/-- A parameter and its type, in parentheses. -/
def paramText (param : String) (ty : Ty) : String :=
  "(" ++ param ++ ": " ++ ty.text ++ ")"

def toDoc (indent : Int) : Expr → Doc
  | int n => .text n.toInt.repr
  | bool b => .text (if b then "true" else "false")
  | var name => .text name
  | op o lhs rhs =>
    .group (bracket (lhsParens o lhs) (lhs.toDoc indent) ++ .line ++ .text o.text ++ .text " " ++
      bracket (rhsParens o rhs) (rhs.toDoc indent))
  | app func arg =>
    .group (.nest indent (bracket (func.level < 4) (func.toDoc indent) ++ .line ++
      bracket (arg.level ≤ 4) (arg.toDoc indent)))
  | ite cond thn els =>
    .group (.text "if " ++ cond.toDoc indent ++ .line ++ .text "then " ++ thn.toDoc indent ++
      .line ++ .text "else " ++ els.toDoc indent)
  | letIn binder bindee tail =>
    .group (.group (.text "let " ++ .text binder ++ .text " =" ++
      .nest indent (.line ++ bindee.toDoc indent) ++ .line ++ .text "in") ++ .line ++
      tail.toDoc indent)
  | letRec func param paramTy ret body tail =>
    .group (.group (.text "let rec " ++
      .text (func ++ " " ++ paramText param paramTy ++ ": " ++ ret.text ++ " =") ++
      .nest indent (.line ++ body.toDoc indent) ++ .line ++ .text "in") ++ .line ++
      tail.toDoc indent)
  | abs param ty body =>
    .group (.text "fun " ++ .text (paramText param ty ++ " ->") ++
      .nest indent (.line ++ body.toDoc indent))

/-- The text of a tree in a given width, with a given step of indentation. -/
def format (width : Nat) (indent : Int) (e : Expr) : String :=
  (e.toDoc indent).render width

/-- The text of a tree in 80 columns, indented by 2. -/
def text (e : Expr) : String := e.format 80 2

end Expr
end LambdaAny
