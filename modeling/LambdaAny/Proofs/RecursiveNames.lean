import LambdaAny.Proofs.TypeSoundness

/-!
# The two names of a recursive function

The body of a recursive function is checked in a context that binds the parameter and then the
function, and it runs in an environment that binds the function and then the parameter.  With two
names the orders come to the same, and a call finds in the environment what the checker found in the
context.  With one name they do not: the checker lets the function hide the parameter, and a call
lets the argument hide the function.

So a program of a type other than `any` may call something that is not a function, but only if a
recursive function in it names its parameter after itself.
-/

namespace LambdaAny

open Typing

/-- A value has a type by the typing rules alone.  In contrast to `SafelyTyped` nothing is asked of
the names of recursive functions, so a value may have a type and still fail when it is called. -/
abbrev RuleTyped : Value → Ty → Prop := ValueTyped fun _ => True

/-- A program of a type other than `any` whose recursive functions all have two names calls nothing
but functions. -/
theorem eval_ne_notAFunction {e : Expr} {ty : Ty} (htyped : e.typed = .ok ty) (hany : ty ≠ .any)
    (hnames : e.RecNamesDistinct) (depth : Nat) (found : String) :
    e.eval depth ∅ ≠ .error (.error (.notAFunction found)) := by
  intro heval
  have hsafe : Safe ty (e.eval depth ∅) :=
    Expr.safe_evalWith (safe_apply depth) (hasType_of_infer htyped hany) hnames
      (.of_empty _ _)
  rw [heval] at hsafe
  have harith : (EvalError.notAFunction found).IsArithmetic := hsafe
  rcases harith with hcause | ⟨o, hcause⟩
  · cases hcause
  · cases hcause

/-- A call of a recursive function runs its body in an environment that matches, name by name, the
context in which the body was checked, if and only if the function and its parameter have two names
or the argument is also of the function's own type.  And a program of a type other than `any` that
calls something other than a function has a recursive function with one name for both. -/
theorem recursive_call_matches_iff (func param : String) (e : Expr) :
    (∀ (ctx : Ctx) (env : Env Value) (paramTy ret : Ty) (body : Expr) (arg : Value),
      env.Matches RuleTyped ctx → body.infer (bodyCtx ctx func param paramTy ret) = .ok ret →
        ret ≠ .any → RuleTyped arg paramTy →
          ∃ inner, (Value.recClosure env func param body).enter? arg = some (inner, body) ∧
            (inner.Matches RuleTyped (bodyCtx ctx func param paramTy ret) ↔
              (func = param → RuleTyped arg (.arrow paramTy ret)))) ∧
      ∀ (ty : Ty) (depth : Nat) (found : String), e.typed = .ok ty → ty ≠ .any →
        e.eval depth ∅ = .error (.error (.notAFunction found)) → ¬e.RecNamesDistinct := by
  constructor
  · intro ctx env paramTy ret body arg henv hbody hret harg
    have hself : RuleTyped (.recClosure env func param body) (.arrow paramTy ret) :=
      .recClosure_of_env henv (hasType_of_infer hbody hret) trivial
    exact ⟨_, rfl, henv.enter_recursive_iff hself harg⟩
  · intro ty depth found htyped hany heval hnames
    exact eval_ne_notAFunction htyped hany hnames depth found heval

/-- `fun (y: int) -> if y < 1 then 0 else f 0 (y - 1)`. -/
def descentBody : Expr :=
  .abs "y" .int
    (.ite (.op (.cmp .lt) (.var "y") (.int 1)) (.int 0)
      (.app (.app (.var "f") (.int 0)) (.op (.arith .sub) (.var "y") (.int 1))))

/-- `let rec f (x: int): int -> int = fun (y: int) -> if y < 1 then 0 else f 0 (y - 1) in f 2 1`,
with a parameter that is not used and may have any name in the place of `x`. -/
def descent (param : String) : Expr :=
  .letRec "f" param .int (.arrow .int .int) descentBody
    (.app (.app (.var "f") (.int 2)) (.int 1))

theorem recursive_call_matches_descent :
    (∃ inner, (Value.recClosure ∅ "f" "x" descentBody).enter? (.int 2) =
        some (inner, descentBody) ∧
      inner.Matches RuleTyped (bodyCtx ∅ "f" "x" .int (.arrow .int .int))) ∧
      (descent "f").typed = .ok .int ∧
      (descent "f").eval 2 ∅ = .error (.error (.notAFunction "2")) ∧
      ¬(descent "f").RecNamesDistinct := by
  obtain ⟨hcall, hprogram⟩ := recursive_call_matches_iff "f" "x" (descent "f")
  obtain ⟨inner, henter, hiff⟩ :=
    hcall ∅ ∅ .int (.arrow .int .int) descentBody (.int 2) (.of_empty _ _) rfl nofun (.int 2)
  refine ⟨⟨inner, henter, hiff.mpr fun hname => absurd hname (by decide)⟩, rfl, rfl, ?_⟩
  exact hprogram .int 2 "2" rfl nofun rfl

/-- Under one name the checker takes `f` for the function and a call takes it for the argument.  The
program that gives zero with another parameter name, and has the same type, gets stuck. -/
theorem descent_stuck_under_one_name :
    (∅ : Env Value).Matches RuleTyped ∅ ∧
      descentBody.infer (bodyCtx ∅ "f" "f" .int (.arrow .int .int)) = .ok (.arrow .int .int) ∧
      RuleTyped (.int 2) .int ∧
      (∃ inner, (Value.recClosure ∅ "f" "f" descentBody).enter? (.int 2) =
          some (inner, descentBody) ∧
        ¬inner.Matches RuleTyped (bodyCtx ∅ "f" "f" .int (.arrow .int .int))) ∧
      (descent "x").typed = .ok .int ∧ (descent "x").eval 2 ∅ = .ok (.int 0) ∧
      (descent "f").typed = .ok .int ∧
      (descent "f").eval 2 ∅ = .error (.error (.notAFunction "2")) := by
  have henv : (∅ : Env Value).Matches RuleTyped ∅ := .of_empty _ _
  have hbody : descentBody.infer (bodyCtx ∅ "f" "f" .int (.arrow .int .int)) =
      .ok (.arrow .int .int) := rfl
  have hself : RuleTyped (.recClosure ∅ "f" "f" descentBody) (.arrow .int (.arrow .int .int)) :=
    .recClosure_of_env henv (hasType_of_infer hbody nofun) trivial
  refine ⟨henv, hbody, .int 2, ⟨_, rfl, ?_⟩, rfl, rfl, rfl, rfl⟩
  rw [henv.enter_recursive_iff hself (.int 2)]
  intro hsame
  -- a number is of no function type
  cases hsame rfl

end LambdaAny
