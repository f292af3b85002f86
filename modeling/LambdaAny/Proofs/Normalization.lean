import LambdaAny.Proofs.TypeSoundness

/-!
# Termination without recursive functions

A program of a type other than `any` that defines no recursive function finishes: at some depth it
has a value or fails in integer arithmetic.

Nothing in an expression gets smaller at a call, so termination is carried by the types.  A function
is reducible at an arrow type if every call with a reducible argument finishes with a reducible
value.  That a typed expression finishes with a reducible value is then an induction on its typing.

Everything is reducible at `any`, also a function whose calls never return.  An expression of
another type cannot tell: it uses no variable of type `any`, and calls no function that takes or
returns it.
-/

namespace LambdaAny

open Typing

/-- No recursive function is defined inside. -/
def Expr.RecFree : Expr → Prop
  | int _ | bool _ | var _ => True
  | op _ lhs rhs => lhs.RecFree ∧ rhs.RecFree
  | ite cond thn els => cond.RecFree ∧ thn.RecFree ∧ els.RecFree
  | letIn _ bindee tail => bindee.RecFree ∧ tail.RecFree
  | letRec _ _ _ _ _ _ => False
  | abs _ _ body => body.RecFree
  | app func arg => func.RecFree ∧ arg.RecFree

/-! ## Finished evaluations -/

/-- From some depth on there is one answer: a value with the property, or an arithmetic error. -/
def Finishes (P : Value → Prop) (out : Nat → Except Halt Value) : Prop :=
  ∃ outcome, SettlesAt out outcome ∧ outcome ≠ .error .exhausted ∧
    Ensures P EvalError.IsArithmetic outcome

namespace Finishes

variable {P Q : Value → Prop} {out : Nat → Except Halt Value}

theorem const {outcome : Except Halt Value} (hanswer : outcome ≠ .error .exhausted)
    (hensures : Ensures P EvalError.IsArithmetic outcome) : Finishes P fun _ => outcome :=
  ⟨outcome, .const outcome, hanswer, hensures⟩

theorem value {v : Value} (hv : P v) : Finishes P fun _ => .ok v :=
  const nofun hv

/-- What follows a finished evaluation finishes if it does for every value with the property. -/
theorem bind {next : Nat → Value → Except Halt Value} (h : Finishes P out)
    (hnext : ∀ v, P v → Finishes Q fun depth => next depth v) :
    Finishes Q fun depth => (out depth).bind (next depth) := by
  obtain ⟨outcome, hsettles, hanswer, hensures⟩ := h
  cases outcome with
  | ok v =>
      obtain ⟨outcome', hsettles', hanswer', hensures'⟩ := hnext v hensures
      exact ⟨outcome', hsettles.bind hsettles', hanswer', hensures'⟩
  | error halt =>
      cases halt with
      | error cause => exact ⟨.error (.error cause), hsettles.bind_error, nofun, hensures⟩
      | exhausted => exact absurd rfl hanswer

theorem apply_of_enter {func arg : Value} {env : Env Value} {body : Expr}
    (henter : func.enter? arg = some (env, body))
    (h : Finishes P fun depth => body.evalWith (apply depth) env) :
    Finishes P fun depth => apply depth func arg := by
  obtain ⟨outcome, hsettles, hanswer, hensures⟩ := h
  exact ⟨outcome, hsettles.apply_of_enter henter, hanswer, hensures⟩

end Finishes

/-! ## Reducible values -/

/-- By recursion on the type; at an arrow it asks for all calls with reducible arguments. -/
def Reducible : Ty → Value → Prop
  | .int, v => ∃ n, v = .int n
  | .bool, v => ∃ b, v = .bool b
  | .any, _ => True
  | .arrow dom cod, f =>
    ∀ arg, Reducible dom arg → Finishes (Reducible cod) fun depth => apply depth f arg

/-- Each name of the context is bound to a value that is reducible at its type. -/
def EnvReducible (env : Env Value) (ctx : Ctx) : Prop :=
  env.Matches (fun v ty => Reducible ty v) ctx

theorem reducible_closure {env : Env Value} {param : String} {body : Expr} {dom cod : Ty}
    (hbody : ∀ arg, Reducible dom arg →
      Finishes (Reducible cod) fun depth => body.evalWith (apply depth) (env.update param arg)) :
    Reducible (.arrow dom cod) (.closure env param body) := by
  intro arg harg
  exact (hbody arg harg).apply_of_enter rfl

theorem finishes_arith (o : Arith) (a b : Int64) :
    Finishes (Reducible .int) fun _ => ((Op.arith o).run (.int a) (.int b)).mapError .error := by
  simp only [Op.run]
  cases hrun : o.run a b with
  | ok n => exact .value ⟨n, rfl⟩
  | error cause => exact .const (by rintro ⟨⟩) (Arith.isArithmetic_of_run hrun)

/-! ## Typed expressions finish -/

/-- By induction on the typing.  The depth is never inducted on: how deep the calls of a function
nest is part of what reducibility promises of it. -/
theorem HasType.finishes {ctx : Ctx} {e : Expr} {ty : Ty} (htype : HasType ctx e ty)
    (hrec : e.RecFree) {env : Env Value} (henv : EnvReducible env ctx) :
    Finishes (Reducible ty) fun depth => e.evalWith (apply depth) env := by
  induction htype generalizing env with
  | int n => exact .value ⟨n, rfl⟩
  | bool b => exact .value ⟨b, rfl⟩
  | var hlookup _ =>
      obtain ⟨v, hv, hreducible⟩ := henv _ _ hlookup
      simp only [Expr.evalWith, hv]
      exact .value hreducible
  | arith _ _ ihl ihr =>
      simp only [Expr.evalWith_op]
      refine (ihl hrec.1 henv).bind fun l hl => (ihr hrec.2 henv).bind fun r hr => ?_
      obtain ⟨a, rfl⟩ := hl
      obtain ⟨b, rfl⟩ := hr
      exact finishes_arith _ a b
  | cmpInt _ _ ihl ihr =>
      simp only [Expr.evalWith_op]
      refine (ihl hrec.1 henv).bind fun l hl => (ihr hrec.2 henv).bind fun r hr => ?_
      obtain ⟨a, rfl⟩ := hl
      obtain ⟨b, rfl⟩ := hr
      exact .value ⟨_, rfl⟩
  | cmpBool _ _ ihl ihr =>
      simp only [Expr.evalWith_op]
      refine (ihl hrec.1 henv).bind fun l hl => (ihr hrec.2 henv).bind fun r hr => ?_
      obtain ⟨a, rfl⟩ := hl
      obtain ⟨b, rfl⟩ := hr
      exact .value ⟨_, rfl⟩
  | ite _ _ _ ihc iht ihe =>
      simp only [Expr.evalWith_ite]
      refine (ihc hrec.1 henv).bind fun c hc => ?_
      obtain ⟨b, rfl⟩ := hc
      cases b with
      | true => exact iht hrec.2.1 henv
      | false => exact ihe hrec.2.2 henv
  | letIn _ _ ihb iht =>
      simp only [Expr.evalWith_letIn]
      refine (ihb hrec.1 henv).bind fun v hv => ?_
      exact iht hrec.2 (henv.update _ hv)
  | letRec _ _ _ _ => exact absurd hrec id
  | abs _ ihb =>
      refine .value (reducible_closure fun arg harg => ?_)
      exact ihb hrec (henv.update _ harg)
  | app _ _ _ ihf iha =>
      simp only [Expr.evalWith_app]
      refine (ihf hrec.1 henv).bind fun f hf => (iha hrec.2 henv).bind fun a ha => ?_
      exact hf a ha

/-- A closed expression without recursive functions, of a type other than `any`, finishes at some
depth: with a value, by a division by zero or by an overflow. -/
theorem eval_finishes_of_recFree (e : Expr) (ty : Ty) (hrec : e.RecFree)
    (htyped : e.typed = .ok ty) (hany : ty ≠ .any) :
    ∃ depth, (∃ v, e.eval depth ∅ = .ok v) ∨ e.eval depth ∅ = .error (.error .divisionByZero) ∨
      ∃ o, e.eval depth ∅ = .error (.error (.overflow o)) := by
  have htype : HasType ∅ e ty := hasType_of_infer htyped hany
  have henv : EnvReducible ∅ ∅ := Env.Matches.of_empty _ ∅
  obtain ⟨outcome, ⟨depth, hdepth⟩, hanswer, hensures⟩ := htype.finishes hrec henv
  have heval : e.eval depth ∅ = outcome := hdepth depth (Nat.le_refl depth)
  refine ⟨depth, ?_⟩
  rw [heval]
  cases outcome with
  | ok v => exact .inl ⟨v, rfl⟩
  | error halt =>
      cases halt with
      | error cause =>
          have harith : cause.IsArithmetic := hensures
          rcases harith with rfl | ⟨o, rfl⟩
          · exact .inr (.inl rfl)
          · exact .inr (.inr ⟨o, rfl⟩)
      | exhausted => exact absurd rfl hanswer

/-- Functions of functions, beside one that takes `any` and one that takes a function returning it:
`let skip = fun (u: any) -> 1 in let ask = fun (g: int -> any) -> 2 in
let twice = fun (f: int -> int) -> fun (x: int) -> f (f x) in
(fun (t: (int -> int) -> int -> int) -> t (t (fun (n: int) -> n * n)) 7) twice`. -/
def squaredFourTimes : Expr :=
  .letIn "skip" (.abs "u" .any (.int 1))
    (.letIn "ask" (.abs "g" (.arrow .int .any) (.int 2))
      (.letIn "twice"
        (.abs "f" (.arrow .int .int)
          (.abs "x" .int (.app (.var "f") (.app (.var "f") (.var "x")))))
        (.app
          (.abs "t" (.arrow (.arrow .int .int) (.arrow .int .int))
            (.app
              (.app (.var "t")
                (.app (.var "t") (.abs "n" .int (.op (.arith .mul) (.var "n") (.var "n")))))
              (.int 7)))
          (.var "twice"))))

theorem eval_finishes_squaredFourTimes :
    squaredFourTimes.RecFree ∧ squaredFourTimes.typed = .ok .int ∧
      ((squaredFourTimes.eval 4 ∅).toOption.bind Value.toInt? = some 33232930569601) ∧
      ∃ depth, (∃ v, squaredFourTimes.eval depth ∅ = .ok v) ∨
        squaredFourTimes.eval depth ∅ = .error (.error .divisionByZero) ∨
        ∃ o, squaredFourTimes.eval depth ∅ = .error (.error (.overflow o)) := by
  have hrec : squaredFourTimes.RecFree := by simp [squaredFourTimes, Expr.RecFree]
  have htyped : squaredFourTimes.typed = .ok .int := by rfl
  exact ⟨hrec, htyped, by decide, eval_finishes_of_recFree squaredFourTimes .int hrec htyped nofun⟩

end LambdaAny
