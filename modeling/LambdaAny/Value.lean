import LambdaAny.Env
import LambdaAny.Expr

/-!
# Values

What an expression evaluates to.  A function holds the environment it was made in; a recursive one
holds the environment before its own name was bound.
-/

namespace LambdaAny

inductive Value where
  | int (n : Int64)
  | bool (b : Bool)
  | closure (env : Env Value) (param : String) (body : Expr)
  | recClosure (env : Env Value) (func param : String) (body : Expr)

namespace Value

instance : Inhabited Value := ⟨bool false⟩

/-- Functions are shown without their inside. -/
def text : Value → String
  | int n => n.toInt.repr
  | bool true => "true"
  | bool false => "false"
  | closure _ _ _ => "<fun>"
  | recClosure _ _ _ _ => "<fun>"

def toInt? : Value → Option Int64
  | int n => some n
  | bool _ | closure _ _ _ | recClosure _ _ _ _ => none

def toBool? : Value → Option Bool
  | bool b => some b
  | int _ | closure _ _ _ | recClosure _ _ _ _ => none

theorem eq_int_of_toInt? {v : Value} {n : Int64} (h : v.toInt? = some n) : v = int n := by
  cases v with
  | int m => rw [Option.some.inj h]
  | bool _ | closure _ _ _ | recClosure _ _ _ _ => cases h

theorem eq_bool_of_toBool? {v : Value} {b : Bool} (h : v.toBool? = some b) : v = bool b := by
  cases v with
  | bool c => rw [Option.some.inj h]
  | int _ | closure _ _ _ | recClosure _ _ _ _ => cases h

end Value

/-- Why an evaluation fails.  Offending values are given by their text. -/
inductive EvalError where
  | unbound (name : String)
  | nonBoolGuard (found : String)
  | illegalOperands (o : Op) (lhs rhs : String)
  | notAFunction (found : String)
  | divisionByZero
  | overflow (o : Arith)
deriving DecidableEq, Repr

def EvalError.message : EvalError → String
  | .unbound name => "Unbound identifier: " ++ name
  | .nonBoolGuard found => "Condition evaluated to `" ++ found ++ "`, expected a boolean"
  | .illegalOperands o lhs rhs =>
    "Operator `" ++ o.text ++ "` is undefined on `" ++ lhs ++ "` and `" ++ rhs ++ "`"
  | .notAFunction found => "`" ++ found ++ "` is not a function and cannot be applied"
  | .divisionByZero => "Division by zero"
  | .overflow o => "Integer overflow in `" ++ o.text ++ "`"

end LambdaAny
