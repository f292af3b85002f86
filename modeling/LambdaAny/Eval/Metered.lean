import LambdaAny.Eval

/-!
# Metered evaluation

The same evaluation with its calls counted and, on request, recorded.  Depth alone does not bound
how long an evaluation takes; the number of calls does.  Where the allowance suffices the result is
that of plain evaluation (`metered_eq_eval`), so counting and recording change nothing else.
-/

namespace LambdaAny

/-- A call of a function; a recursive one is called by its name. -/
structure Call where
  func : Option String
  param : String
  arg : Value

/-- The call of a value, if it is a function. -/
def Value.call? (func arg : Value) : Option Call :=
  match func with
  | closure _ param _ => some ⟨none, param, arg⟩
  | recClosure _ name param _ => some ⟨some name, param, arg⟩
  | int _ | bool _ => none

structure Meter where
  /-- How many calls may still be made, if they are limited. -/
  allowance : Option Nat
  recording : Bool
  /-- The calls recorded, newest first. -/
  calls : List Call

namespace Meter

/-- A meter that allows a number of calls and records nothing. -/
def allowing (n : Nat) : Meter := ⟨some n, false, []⟩

/-- A meter without a limit that records every call. -/
def recorder : Meter := ⟨none, true, []⟩

/-- Counts a call, unless the allowance is used up. -/
def count (meter : Meter) (call : Option Call) : Option Meter :=
  let calls := if meter.recording then call.toList ++ meter.calls else meter.calls
  match meter.allowance with
  | none => some { meter with calls := calls }
  | some 0 => none
  | some (n + 1) => some { meter with allowance := some n, calls := calls }

end Meter

/-- An evaluation that reads and moves a meter. -/
def Metered (α : Type) := Meter → Except Halt α × Meter

namespace Metered

instance : Monad Metered where
  pure a := fun m => (.ok a, m)
  bind p k := fun m =>
    match p m with
    | (.error halt, m) => (.error halt, m)
    | (.ok a, m) => k a m

/-- A result that moves no meter. -/
def ofExcept {α : Type} (r : Except Halt α) : Metered α := fun m => (r, m)

/-- Counts a call, or runs out. -/
def count (call : Option Call) : Metered Unit := fun m =>
  match m.count call with
  | none => (.error .exhausted, m)
  | some m => (.ok (), m)

end Metered

namespace Expr

/-- As `evalWith`, with the meter handed from each part to the next. -/
def meterWith (call : Value → Value → Metered Value) : Env Value → Expr → Metered Value
  | _, int n => pure (.int n)
  | _, bool b => pure (.bool b)
  | env, var name =>
    match env.lookup? name with
    | some v => pure v
    | none => Metered.ofExcept (.error (.error (.unbound name)))
  | env, op o lhs rhs => do
    let l ← lhs.meterWith call env
    let r ← rhs.meterWith call env
    Metered.ofExcept ((o.run l r).mapError .error)
  | env, ite cond thn els => do
    match ← cond.meterWith call env with
    | .bool true => thn.meterWith call env
    | .bool false => els.meterWith call env
    | found => Metered.ofExcept (.error (.error (.nonBoolGuard found.text)))
  | env, letIn binder bindee tail => do
    let v ← bindee.meterWith call env
    tail.meterWith call (env.update binder v)
  | env, letRec func param _ _ body tail =>
    tail.meterWith call (env.update func (.recClosure env func param body))
  | env, abs param _ body => pure (.closure env param body)
  | env, app func arg => do
    let f ← func.meterWith call env
    let a ← arg.meterWith call env
    call f a

end Expr

/-- As `apply`, each call being counted when it begins. -/
def meterApply : (depth : Nat) → (func arg : Value) → Metered Value
  | depth, func, arg =>
    match func.enter? arg with
    | none => Metered.ofExcept (.error (.error (.notAFunction func.text)))
    | some (env, body) =>
      match depth with
      | 0 => Metered.ofExcept (.error .exhausted)
      | depth + 1 => do
        Metered.count (func.call? arg)
        body.meterWith (meterApply depth) env

/-- As `Expr.eval`, under a meter. -/
def Expr.metered (depth : Nat) (env : Env Value) (e : Expr) : Metered Value :=
  e.meterWith (meterApply depth) env

/-- The calls made while an expression is evaluated, in order. -/
def Expr.calls (depth : Nat) (env : Env Value) (e : Expr) : List Call :=
  (e.metered depth env .recorder).2.calls.reverse

/-- The calls made while a value is called, this one included, in order. -/
def applyCalls (depth : Nat) (func arg : Value) : List Call :=
  (meterApply depth func arg .recorder).2.calls.reverse

/-! ## Agreement with plain evaluation -/

/-- Under every meter `p` runs out or comes to the result `r`. -/
def Metered.Agrees {α : Type} (p : Metered α) (r : Except Halt α) : Prop :=
  ∀ m, (p m).1 = .error .exhausted ∨ (p m).1 = r

namespace Metered

variable {α β : Type}

theorem agrees_ofExcept (r : Except Halt α) : (ofExcept r).Agrees r := fun _ => .inr rfl

theorem Agrees.bind {p : Metered α} {r : Except Halt α} {k : α → Metered β} {r' : Except Halt β}
    (hp : p.Agrees r) (herror : ∀ halt, r = .error halt → r' = .error halt)
    (hok : ∀ a, r = .ok a → (k a).Agrees r') : (p >>= k).Agrees r' := by
  intro m
  have hm := hp m
  simp only [Bind.bind]
  rcases hrun : p m with ⟨halt | a, m'⟩ <;> rw [hrun] at hm
  · rcases hm with h | h
    · exact .inl (congrArg Except.error (Except.error.inj h))
    · exact .inr (herror halt h.symm).symm
  · rcases hm with h | h
    · cases h
    · exact hok a h.symm m'

end Metered

theorem Expr.meterWith_agrees {call : Value → Value → Metered Value}
    {call' : Value → Value → Except Halt Value} (hcall : ∀ f a, (call f a).Agrees (call' f a))
    (e : Expr) (env : Env Value) : (e.meterWith call env).Agrees (e.evalWith call' env) := by
  induction e generalizing env with
  | int n => exact fun _ => .inr rfl
  | bool b => exact fun _ => .inr rfl
  | var name =>
      simp only [meterWith, evalWith]
      cases env.lookup? name <;> exact fun _ => .inr rfl
  | op o lhs rhs ihl ihr =>
      refine (ihl env).bind (fun halt hl => by simp only [evalWith, hl]) fun l hl => ?_
      refine (ihr env).bind (fun halt hr => by simp only [evalWith, hl, hr]) fun r hr => ?_
      simp only [evalWith, hl, hr]
      exact Metered.agrees_ofExcept _
  | ite cond thn els ihc iht ihe =>
      refine (ihc env).bind (fun halt hc => by simp only [evalWith, hc]) fun v hc => ?_
      simp only [evalWith, hc]
      cases v with
      | bool b =>
          cases b
          · exact ihe env
          · exact iht env
      | int n => exact Metered.agrees_ofExcept _
      | closure _ _ _ => exact Metered.agrees_ofExcept _
      | recClosure _ _ _ _ => exact Metered.agrees_ofExcept _
  | letIn binder bindee tail ihb iht =>
      refine (ihb env).bind (fun halt hb => by simp only [evalWith, hb]) fun v hb => ?_
      simp only [evalWith, hb]
      exact iht _
  | letRec func param _ _ body tail _ iht => exact iht _
  | abs param _ body _ => exact fun _ => .inr rfl
  | app func arg ihf iha =>
      refine (ihf env).bind (fun halt hf => by simp only [evalWith, hf]) fun f hf => ?_
      refine (iha env).bind (fun halt ha => by simp only [evalWith, hf, ha]) fun a ha => ?_
      simp only [evalWith, hf, ha]
      exact hcall f a

theorem meterApply_agrees (depth : Nat) (func arg : Value) :
    (meterApply depth func arg).Agrees (apply depth func arg) := by
  induction depth generalizing func arg with
  | zero =>
      unfold meterApply apply
      cases func.enter? arg <;> exact Metered.agrees_ofExcept _
  | succ depth ih =>
      unfold meterApply apply
      cases func.enter? arg with
      | none => exact Metered.agrees_ofExcept _
      | some entry =>
          intro m
          cases hcount : m.count (func.call? arg) with
          | none => exact .inl (by simp only [bind, Metered.count, hcount])
          | some m' =>
              have h := Expr.meterWith_agrees ih entry.2 entry.1 m'
              simpa only [bind, Metered.count, hcount] using h

/-- A metered evaluation that does not run out has the result of the plain one. -/
theorem Expr.metered_eq_eval {depth : Nat} {env : Env Value} {e : Expr} {m : Meter}
    (h : (e.metered depth env m).1 ≠ .error .exhausted) :
    (e.metered depth env m).1 = e.eval depth env :=
  (Expr.meterWith_agrees (meterApply_agrees depth) e env m).resolve_left h

end LambdaAny
