import LambdaAny.Expr

/-!
# Scope

Finds the first variable that nothing binds, reading from left to right.
-/

namespace LambdaAny

inductive ResolveError where
  | unbound (name : String)
deriving DecidableEq, Repr

def ResolveError.message : ResolveError → String
  | .unbound name => "Unbound variable: " ++ name

namespace Expr

/-- The leftmost variable that neither `scope` nor the expression binds. -/
def freeVar? (scope : List String) : Expr → Option String
  | int _ | bool _ => none
  | var name => if name ∈ scope then none else some name
  | op _ lhs rhs => (lhs.freeVar? scope).or (rhs.freeVar? scope)
  | ite cond thn els =>
    (cond.freeVar? scope).or ((thn.freeVar? scope).or (els.freeVar? scope))
  | letIn binder bindee tail => (bindee.freeVar? scope).or (tail.freeVar? (binder :: scope))
  | letRec func param _ _ body tail =>
    (body.freeVar? (param :: func :: scope)).or (tail.freeVar? (func :: scope))
  | abs param _ body => body.freeVar? (param :: scope)
  | app func arg => (func.freeVar? scope).or (arg.freeVar? scope)

/-- Whether every variable is bound inside the expression. -/
def isClosed (e : Expr) : Bool := (e.freeVar? []).isNone

/-- Refuses an expression with an unbound variable. -/
def resolve (e : Expr) : Except ResolveError Unit :=
  match e.freeVar? [] with
  | some name => .error (.unbound name)
  | none => .ok ()

end Expr
end LambdaAny
