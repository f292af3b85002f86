import LambdaAny.Expr
import LambdaAny.Token

/-!
# The grammar

Which lists of tokens spell which types and expressions.  The phrases of expressions are layered by
how tightly they hold together, from simple operands to whole expressions:

* application and arithmetic group to the left, comparisons and arrows to the right;
* a keyword form reaches to the end of the phrase it stands in, so without parentheses it is only
  ever a last operand.  `productForm` and `sumForm` are the chains that end in one and so cannot be
  continued.

Nothing here says how such a list is read.
-/

namespace LambdaAny

/-- The token of an operator. -/
def Op.token : Op → Token
  | .arith .add => .symbol .plus
  | .arith .sub => .symbol .minus
  | .arith .mul => .symbol .star
  | .arith .div => .symbol .slash
  | .arith .mod => .keyword .modKw
  | .cmp .lt => .symbol .lt
  | .cmp .le => .symbol .le
  | .cmp .gt => .symbol .gt
  | .cmp .ge => .symbol .ge

def Arith.IsAddop (o : Arith) : Prop := o = .add ∨ o = .sub

def Arith.IsMulop (o : Arith) : Prop := o = .mul ∨ o = .div ∨ o = .mod

theorem Arith.isAddop_or_isMulop (o : Arith) : o.IsAddop ∨ o.IsMulop := by
  cases o <;> simp [IsAddop, IsMulop]

namespace Grammar

/-! ## Types -/

/-- The phrases of types: an `atom` is never an unparenthesised arrow. -/
inductive TyPhrase where
  | atom
  | ty

/-- The tokens spell the type as the given phrase. -/
inductive DerivesTy : TyPhrase → List Token → Ty → Prop where
  | int : DerivesTy .atom [.keyword .intKw] .int
  | bool : DerivesTy .atom [.keyword .boolKw] .bool
  | any : DerivesTy .atom [.keyword .anyKw] .any
  | parens {ts : List Token} {inner : Ty} (hinner : DerivesTy .ty ts inner) :
      DerivesTy .atom (.symbol .parenOpen :: (ts ++ [.symbol .parenClose])) inner
  | ofAtom {ts : List Token} {whole : Ty} (hatom : DerivesTy .atom ts whole) :
      DerivesTy .ty ts whole
  | arrow {ts us : List Token} {dom cod : Ty} (hdom : DerivesTy .atom ts dom)
      (hcod : DerivesTy .ty us cod) :
      DerivesTy .ty (ts ++ .symbol .arrow :: us) (.arrow dom cod)

/-! ## Expressions -/

/-- The phrases of expressions. -/
inductive Phrase where
  /-- A literal, a variable or something in parentheses. -/
  | simple
  /-- A conditional, a binding or a function. -/
  | form
  /-- Simple operands, applied from the left. -/
  | call
  /-- Calls, joined by `*`, `/` and `mod`. -/
  | product
  /-- A product whose last operand is a form. -/
  | productForm
  /-- Products, joined by `+` and `-`. -/
  | sum
  /-- A sum that ends in a form. -/
  | sumForm
  | expr
deriving DecidableEq, Repr

/-- The tokens spell the expression as the given phrase. -/
inductive Derives : Phrase → List Token → Expr → Prop where
  | int (n : Int64) : Derives .simple [.int n] (.int n)
  | bool (b : Bool) : Derives .simple [.bool b] (.bool b)
  | var (name : String) : Derives .simple [.ident name] (.var name)
  | parens {ts : List Token} {inner : Expr} (hinner : Derives .expr ts inner) :
      Derives .simple (.symbol .parenOpen :: (ts ++ [.symbol .parenClose])) inner
  | ite {cs ts es : List Token} {cond thn els : Expr} (hcond : Derives .expr cs cond)
      (hthn : Derives .expr ts thn) (hels : Derives .expr es els) :
      Derives .form
        (.keyword .ifKw :: (cs ++ .keyword .thenKw :: (ts ++ .keyword .elseKw :: es)))
        (.ite cond thn els)
  | letIn {bs ts : List Token} (binder : String) {bindee tail : Expr}
      (hbindee : Derives .expr bs bindee) (htail : Derives .expr ts tail) :
      Derives .form
        (.keyword .letKw :: .ident binder :: .symbol .equals :: (bs ++ .keyword .inKw :: ts))
        (.letIn binder bindee tail)
  | letRec {ps rs bs ts : List Token} (func param : String) {paramTy ret : Ty} {body tail : Expr}
      (hparamTy : DerivesTy .ty ps paramTy) (hret : DerivesTy .ty rs ret)
      (hbody : Derives .expr bs body) (htail : Derives .expr ts tail) :
      Derives .form
        (.keyword .letKw :: .keyword .recKw :: .ident func ::
          .symbol .parenOpen :: .ident param :: .symbol .colon :: (ps ++ .symbol .parenClose ::
            .symbol .colon :: (rs ++ .symbol .equals :: (bs ++ .keyword .inKw :: ts))))
        (.letRec func param paramTy ret body tail)
  | abs {ps bs : List Token} (param : String) {paramTy : Ty} {body : Expr}
      (hparamTy : DerivesTy .ty ps paramTy) (hbody : Derives .expr bs body) :
      Derives .form
        (.keyword .funKw :: .symbol .parenOpen :: .ident param :: .symbol .colon ::
          (ps ++ .symbol .parenClose :: .symbol .arrow :: bs))
        (.abs param paramTy body)
  | callSimple {ts : List Token} {e : Expr} (h : Derives .simple ts e) : Derives .call ts e
  | app {fs as : List Token} {func arg : Expr} (hfunc : Derives .call fs func)
      (harg : Derives .simple as arg) : Derives .call (fs ++ as) (.app func arg)
  | productCall {ts : List Token} {e : Expr} (h : Derives .call ts e) : Derives .product ts e
  | mul {ls rs : List Token} {lhs rhs : Expr} {o : Arith} (ho : o.IsMulop)
      (hlhs : Derives .product ls lhs) (hrhs : Derives .call rs rhs) :
      Derives .product (ls ++ (Op.arith o).token :: rs) (.op (.arith o) lhs rhs)
  | mulForm {ls rs : List Token} {lhs rhs : Expr} {o : Arith} (ho : o.IsMulop)
      (hlhs : Derives .product ls lhs) (hrhs : Derives .form rs rhs) :
      Derives .productForm (ls ++ (Op.arith o).token :: rs) (.op (.arith o) lhs rhs)
  | sumProduct {ts : List Token} {e : Expr} (h : Derives .product ts e) : Derives .sum ts e
  | add {ls rs : List Token} {lhs rhs : Expr} {o : Arith} (ho : o.IsAddop)
      (hlhs : Derives .sum ls lhs) (hrhs : Derives .product rs rhs) :
      Derives .sum (ls ++ (Op.arith o).token :: rs) (.op (.arith o) lhs rhs)
  | sumFormProductForm {ts : List Token} {e : Expr} (h : Derives .productForm ts e) :
      Derives .sumForm ts e
  | addProductForm {ls rs : List Token} {lhs rhs : Expr} {o : Arith} (ho : o.IsAddop)
      (hlhs : Derives .sum ls lhs) (hrhs : Derives .productForm rs rhs) :
      Derives .sumForm (ls ++ (Op.arith o).token :: rs) (.op (.arith o) lhs rhs)
  | addForm {ls rs : List Token} {lhs rhs : Expr} {o : Arith} (ho : o.IsAddop)
      (hlhs : Derives .sum ls lhs) (hrhs : Derives .form rs rhs) :
      Derives .sumForm (ls ++ (Op.arith o).token :: rs) (.op (.arith o) lhs rhs)
  | exprSum {ts : List Token} {e : Expr} (h : Derives .sum ts e) : Derives .expr ts e
  | exprSumForm {ts : List Token} {e : Expr} (h : Derives .sumForm ts e) : Derives .expr ts e
  | exprForm {ts : List Token} {e : Expr} (h : Derives .form ts e) : Derives .expr ts e
  | cmp {ls rs : List Token} {lhs rhs : Expr} (o : Cmp) (hlhs : Derives .sum ls lhs)
      (hrhs : Derives .expr rs rhs) :
      Derives .expr (ls ++ (Op.cmp o).token :: rs) (.op (.cmp o) lhs rhs)

end Grammar
end LambdaAny
