import LambdaAny.Env
import LambdaAny.Expr

/-!
# Typing

Each expression gets one type from the types of its parts.  A part of type `any` makes the whole
`any`, even where another part fails; only without one are failures and mismatches reported.  So an
expression of type `any` need not be well formed in any other sense.
-/

namespace LambdaAny

inductive TypeError where
  | unbound (name : String)
  | condNotBool (found : Ty)
  | branchMismatch (thn els : Ty)
  | operandMismatch (o : Op) (lhs rhs : Ty)
  | returnMismatch (func : String) (expected found : Ty)
  | notAFunction (found : Ty)
  | argMismatch (expected found : Ty)
deriving DecidableEq, Repr

def TypeError.message : TypeError → String
  | .unbound name => "Unbound variable: " ++ name
  | .condNotBool found => "Condition should be `bool`, found `" ++ found.text ++ "`"
  | .branchMismatch thn els =>
    "Branches have mismatched types: `" ++ thn.text ++ "` and `" ++ els.text ++ "`"
  | .operandMismatch o lhs rhs =>
    "Operator `" ++ o.text ++ "` cannot be applied to `" ++ lhs.text ++ "` and `" ++ rhs.text ++ "`"
  | .returnMismatch func expected found =>
    "Function `" ++ func ++ "` is declared to return `" ++ expected.text ++
      "`, but its body has type `" ++ found.text ++ "`"
  | .notAFunction found => "Type `" ++ found.text ++ "` is not a function type"
  | .argMismatch expected found =>
    "Argument mismatch, expected `" ++ expected.text ++ "`, found `" ++ found.text ++ "`"

/-- The types of the variables in scope. -/
abbrev Ctx := Env Ty

/-- The type found for an expression, or what is wrong with it. -/
abbrev Typed := Except TypeError Ty

namespace Typing

/-- Whether the checker gave up on a part. -/
def isAny : Typed → Bool
  | .ok .any => true
  | _ => false

/-- The type of an operator's result, for operands that are not `any`. -/
def opTy : Op → Ty → Ty → Typed
  | .arith _, .int, .int => .ok .int
  | .cmp _, .int, .int => .ok .bool
  | .cmp _, .bool, .bool => .ok .bool
  | o, lhs, rhs => .error (.operandMismatch o lhs rhs)

/-- The type of a conditional, for parts that are not `any`.  The condition is looked at first. -/
def iteTy (cond thn els : Ty) : Typed :=
  if cond ≠ .bool then .error (.condNotBool cond)
  else if thn = els then .ok thn
  else .error (.branchMismatch thn els)

/-- The type of an application, for parts that are not `any`. -/
def appTy (func arg : Ty) : Typed :=
  match func with
  | .arrow dom cod => if dom = arg then .ok cod else .error (.argMismatch dom arg)
  | func => .error (.notAFunction func)

/-- The context of a recursive function's body.  The function's name is bound last: it hides a
parameter of the same name. -/
def bodyCtx (ctx : Ctx) (func param : String) (paramTy ret : Ty) : Ctx :=
  (ctx.update param paramTy).update func (.arrow paramTy ret)

end Typing

namespace Expr

open Typing

/-- The type of an expression in a context, or the first thing that is wrong with it. -/
def infer (ctx : Ctx) : Expr → Typed
  | int _ => .ok .int
  | bool _ => .ok .bool
  | var name =>
    match ctx.lookup? name with
    | some ty => .ok ty
    | none => .error (.unbound name)
  | op o lhs rhs =>
    let l := lhs.infer ctx
    let r := rhs.infer ctx
    if isAny l || isAny r then .ok .any
    else do opTy o (← l) (← r)
  | ite cond thn els =>
    let c := cond.infer ctx
    let t := thn.infer ctx
    let e := els.infer ctx
    if isAny c || isAny t || isAny e then .ok .any
    else do iteTy (← c) (← t) (← e)
  | letIn binder bindee tail =>
    match bindee.infer ctx with
    | .error err => .error err
    | .ok .any => .ok .any
    | .ok ty => tail.infer (ctx.update binder ty)
  | letRec func param paramTy ret body tail =>
    match body.infer (bodyCtx ctx func param paramTy ret) with
    | .error err => .error err
    | .ok .any => .ok .any
    | .ok found =>
      if found = ret then tail.infer (ctx.update func (.arrow paramTy ret))
      else .error (.returnMismatch func ret found)
  | abs param ty body =>
    match body.infer (ctx.update param ty) with
    | .error err => .error err
    | .ok .any => .ok .any
    | .ok cod => .ok (.arrow ty cod)
  | app func arg =>
    let f := func.infer ctx
    let a := arg.infer ctx
    if isAny f || isAny a then .ok .any
    else do appTy (← f) (← a)

/-- The type of a closed expression. -/
def typed (e : Expr) : Typed := e.infer ∅

/-- The type of a closed expression, if it has one. -/
def ty? (e : Expr) : Option Ty := e.typed.toOption

/-- The recursive functions whose bodies `infer` looks into, with their declared types, in the order
in which it comes to them. -/
def recursions (ctx : Ctx) : Expr → List (String × Ty)
  | int _ | bool _ | var _ => []
  | op _ lhs rhs => lhs.recursions ctx ++ rhs.recursions ctx
  | ite cond thn els => cond.recursions ctx ++ thn.recursions ctx ++ els.recursions ctx
  | letIn binder bindee tail =>
    bindee.recursions ctx ++
      match bindee.infer ctx with
      | .error _ | .ok .any => []
      | .ok ty => tail.recursions (ctx.update binder ty)
  | letRec func param paramTy ret body tail =>
    let inner := bodyCtx ctx func param paramTy ret
    (func, .arrow paramTy ret) :: body.recursions inner ++
      match body.infer inner with
      | .error _ | .ok .any => []
      | .ok found =>
        if found = ret then tail.recursions (ctx.update func (.arrow paramTy ret)) else []
  | abs param ty body => body.recursions (ctx.update param ty)
  | app func arg => func.recursions ctx ++ arg.recursions ctx

end Expr
end LambdaAny
