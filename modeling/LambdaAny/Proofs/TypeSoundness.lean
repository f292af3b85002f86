import LambdaAny.Eval
import LambdaAny.Proofs.SimpleTyping

/-!
# Type soundness

A program of a type other than `any` evaluates without a type error: whatever the depth, it runs out
of depth, fails in integer arithmetic, or gives a value of its type.

Values are typed through the environments they hold.  A function has an arrow type if its body is
simply typed in some context that its environment matches, so the types written in a program decide,
and not what a call would do.

The statement excludes a recursive function whose parameter has the function's own name.  There the
checker lets the function hide the parameter and a call lets the parameter hide the function, and a
body that is well typed for the one is not for the other.
-/

namespace LambdaAny

open Typing

/-- No recursive function inside has a parameter of its own name. -/
def Expr.RecNamesDistinct : Expr → Prop
  | int _ | bool _ | var _ => True
  | op _ lhs rhs => lhs.RecNamesDistinct ∧ rhs.RecNamesDistinct
  | ite cond thn els => cond.RecNamesDistinct ∧ thn.RecNamesDistinct ∧ els.RecNamesDistinct
  | letIn _ bindee tail => bindee.RecNamesDistinct ∧ tail.RecNamesDistinct
  | letRec func param _ _ body tail =>
    func ≠ param ∧ body.RecNamesDistinct ∧ tail.RecNamesDistinct
  | abs _ _ body => body.RecNamesDistinct
  | app func arg => func.RecNamesDistinct ∧ arg.RecNamesDistinct

/-! ## The environment of a recursive function's body -/

/-- Whatever it means for a value to be of a type: the environment in which a recursive function's
body runs matches the context in which the body was checked unless the two names are one.  The
context then holds the function there and the environment holds the argument, which must be of the
function's type as well. -/
theorem Env.Matches.enter_recursive_iff {related : Value → Ty → Prop} {env : Env Value} {ctx : Ctx}
    (henv : env.Matches related ctx) {func param : String} {f arg : Value} {dom cod : Ty}
    (hf : related f (.arrow dom cod)) (harg : related arg dom) :
    ((env.update func f).update param arg).Matches related (bodyCtx ctx func param dom cod) ↔
      (func = param → related arg (.arrow dom cod)) := by
  constructor
  · rintro hmatch rfl
    obtain ⟨v, hv, hrelated⟩ := hmatch func (.arrow dom cod) (by simp [bodyCtx])
    obtain rfl : arg = v := by simpa using hv
    exact hrelated
  · intro hsame name ty hlookup
    simp only [bodyCtx, Env.lookup?_update] at hlookup ⊢
    by_cases hfunc : name = func
    · rw [if_pos hfunc] at hlookup
      obtain rfl := Option.some.inj hlookup
      by_cases hparam : name = param
      · exact ⟨arg, if_pos hparam, hsame (hfunc.symm.trans hparam)⟩
      · exact ⟨f, by rw [if_neg hparam, if_pos hfunc], hf⟩
    · rw [if_neg hfunc] at hlookup
      by_cases hparam : name = param
      · rw [if_pos hparam] at hlookup
        obtain rfl := Option.some.inj hlookup
        exact ⟨arg, if_pos hparam, harg⟩
      · rw [if_neg hparam] at hlookup
        obtain ⟨v, hv, hrelated⟩ := henv name ty hlookup
        exact ⟨v, by rw [if_neg hparam, if_neg hfunc, hv], hrelated⟩

/-! ## Typed values -/

/-- A value has a type.  Everything has type `any`; a function has an arrow type through a context
that its environment matches, and only if it is admitted.

The two premises about the environment say `env.Matches (ValueTyped admits) ctx`, which cannot be
named before `ValueTyped` is. -/
inductive ValueTyped (admits : Value → Prop) : Value → Ty → Prop where
  | int (n : Int64) : ValueTyped admits (.int n) .int
  | bool (b : Bool) : ValueTyped admits (.bool b) .bool
  | any (v : Value) : ValueTyped admits v .any
  | closure {env : Env Value} {ctx : Ctx} {param : String} {body : Expr} {dom cod : Ty}
      (hbound : ∀ name ty, ctx.lookup? name = some ty → ∃ v, env.lookup? name = some v)
      (hvalues : ∀ name ty v, ctx.lookup? name = some ty → env.lookup? name = some v →
        ValueTyped admits v ty)
      (hbody : HasType (ctx.update param dom) body cod)
      (hadmits : admits (.closure env param body)) :
      ValueTyped admits (.closure env param body) (.arrow dom cod)
  | recClosure {env : Env Value} {ctx : Ctx} {func param : String} {body : Expr} {dom cod : Ty}
      (hbound : ∀ name ty, ctx.lookup? name = some ty → ∃ v, env.lookup? name = some v)
      (hvalues : ∀ name ty v, ctx.lookup? name = some ty → env.lookup? name = some v →
        ValueTyped admits v ty)
      (hbody : HasType (bodyCtx ctx func param dom cod) body cod)
      (hadmits : admits (.recClosure env func param body)) :
      ValueTyped admits (.recClosure env func param body) (.arrow dom cod)

namespace ValueTyped

variable {admits : Value → Prop} {env : Env Value} {ctx : Ctx} {func param : String} {body : Expr}
  {dom cod : Ty}

theorem closure_of_env (henv : env.Matches (ValueTyped admits) ctx)
    (hbody : HasType (ctx.update param dom) body cod)
    (hadmits : admits (.closure env param body)) :
    ValueTyped admits (.closure env param body) (.arrow dom cod) :=
  .closure henv.bound henv.values hbody hadmits

theorem recClosure_of_env (henv : env.Matches (ValueTyped admits) ctx)
    (hbody : HasType (bodyCtx ctx func param dom cod) body cod)
    (hadmits : admits (.recClosure env func param body)) :
    ValueTyped admits (.recClosure env func param body) (.arrow dom cod) :=
  .recClosure henv.bound henv.values hbody hadmits

end ValueTyped

/-- The parameter of a function has another name than the function, and so it is for the recursive
functions in the body. -/
def Value.RecNamesDistinct : Value → Prop
  | .int _ | .bool _ => True
  | .closure _ _ body => body.RecNamesDistinct
  | .recClosure _ func param body => func ≠ param ∧ body.RecNamesDistinct

/-- A value has a type, and the functions in it can be called. -/
abbrev SafelyTyped : Value → Ty → Prop := ValueTyped Value.RecNamesDistinct

/-! ## What a typed value looks like -/

/-- The shape of a value of a given type. -/
def Value.Inhabits (v : Value) : Ty → Prop
  | .int => ∃ n, v = .int n
  | .bool => ∃ b, v = .bool b
  | .any => True
  | .arrow _ _ =>
    (∃ env param body, v = .closure env param body) ∨
      ∃ env func param body, v = .recClosure env func param body

theorem ValueTyped.inhabits {admits : Value → Prop} {v : Value} {ty : Ty}
    (hv : ValueTyped admits v ty) : v.Inhabits ty := by
  cases hv with
  | int n => exact ⟨n, rfl⟩
  | bool b => exact ⟨b, rfl⟩
  | any v => trivial
  | closure _ _ _ _ => exact .inl ⟨_, _, _, rfl⟩
  | recClosure _ _ _ _ => exact .inr ⟨_, _, _, _, rfl⟩

/-- A function of arrow type can be called, and its body is typed where it runs.  There a recursive
function's environment and the context of its body bind the two names in opposite orders, so the
names must differ. -/
theorem SafelyTyped.enter {f arg : Value} {dom cod : Ty} (hf : SafelyTyped f (.arrow dom cod))
    (harg : SafelyTyped arg dom) :
    ∃ env body ctx, f.enter? arg = some (env, body) ∧ env.Matches SafelyTyped ctx ∧
      HasType ctx body cod ∧ body.RecNamesDistinct := by
  cases hf with
  | closure hbound hvalues hbody hnames =>
      have henv := Env.Matches.of_parts hbound hvalues
      exact ⟨_, _, _, rfl, henv.update _ harg, hbody, hnames⟩
  | recClosure hbound hvalues hbody hnames =>
      have henv := Env.Matches.of_parts hbound hvalues
      have hself := ValueTyped.recClosure_of_env henv hbody hnames
      have hinner := (henv.enter_recursive_iff hself harg).mpr fun hname => absurd hname hnames.1
      exact ⟨_, _, _, rfl, hinner, hbody, hnames.2⟩

/-! ## Safe results -/

/-- A typed value, an arithmetic error, or no answer at this depth. -/
abbrev Safe (ty : Ty) : Except Halt Value → Prop :=
  Ensures (fun v => SafelyTyped v ty) EvalError.IsArithmetic

theorem safe_arith (o : Arith) (a b : Int64) :
    Safe .int (((Op.arith o).run (.int a) (.int b)).mapError .error) := by
  simp only [Op.run]
  cases hrun : o.run a b with
  | ok n => exact .int n
  | error cause => exact Arith.isArithmetic_of_run hrun

/-! ## Evaluation is safe -/

/-- One expression is safe if the calls it makes are. -/
theorem Expr.safe_evalWith {call : Value → Value → Except Halt Value}
    (hcall : ∀ f arg dom cod, SafelyTyped f (.arrow dom cod) → SafelyTyped arg dom →
      Safe cod (call f arg))
    {ctx : Ctx} {e : Expr} {ty : Ty} (htype : HasType ctx e ty) (hnames : e.RecNamesDistinct)
    {env : Env Value} (henv : env.Matches SafelyTyped ctx) : Safe ty (e.evalWith call env) := by
  induction htype generalizing env with
  | int n => exact .int n
  | bool b => exact .bool b
  | var hlookup _ =>
      obtain ⟨v, hv, htyped⟩ := henv _ _ hlookup
      simp only [evalWith, hv]
      exact htyped
  | arith _ _ ihl ihr =>
      rw [evalWith_op]
      refine (ihl hnames.1 henv).bind fun l hl => (ihr hnames.2 henv).bind fun r hr => ?_
      obtain ⟨a, rfl⟩ := hl.inhabits
      obtain ⟨b, rfl⟩ := hr.inhabits
      exact safe_arith _ a b
  | cmpInt _ _ ihl ihr =>
      rw [evalWith_op]
      refine (ihl hnames.1 henv).bind fun l hl => (ihr hnames.2 henv).bind fun r hr => ?_
      obtain ⟨a, rfl⟩ := hl.inhabits
      obtain ⟨b, rfl⟩ := hr.inhabits
      exact .bool _
  | cmpBool _ _ ihl ihr =>
      rw [evalWith_op]
      refine (ihl hnames.1 henv).bind fun l hl => (ihr hnames.2 henv).bind fun r hr => ?_
      obtain ⟨a, rfl⟩ := hl.inhabits
      obtain ⟨b, rfl⟩ := hr.inhabits
      exact .bool _
  | ite _ _ _ ihc iht ihe =>
      rw [evalWith_ite]
      refine (ihc hnames.1 henv).bind fun c hc => ?_
      obtain ⟨b, rfl⟩ := hc.inhabits
      cases b with
      | true => exact iht hnames.2.1 henv
      | false => exact ihe hnames.2.2 henv
  | letIn _ _ ihb iht =>
      rw [evalWith_letIn]
      refine (ihb hnames.1 henv).bind fun v hv => ?_
      exact iht hnames.2 (henv.update _ hv)
  | letRec hbody _ _ iht =>
      -- the function is typed by its annotation before anything calls it
      have hself := ValueTyped.recClosure_of_env henv hbody ⟨hnames.1, hnames.2.1⟩
      exact iht hnames.2.2 (henv.update _ hself)
  | abs hbody _ => exact ValueTyped.closure_of_env henv hbody hnames
  | app _ _ _ ihf iha =>
      rw [evalWith_app]
      refine (ihf hnames.1 henv).bind fun f hf => (iha hnames.2 henv).bind fun a ha => ?_
      exact hcall f a _ _ hf ha

/-- Calls are safe at every depth, by induction on the depth. -/
theorem safe_apply (depth : Nat) (f arg : Value) (dom cod : Ty)
    (hf : SafelyTyped f (.arrow dom cod)) (harg : SafelyTyped arg dom) :
    Safe cod (apply depth f arg) := by
  obtain ⟨env, body, ctx, henter, henv, hbody, hnames⟩ := hf.enter harg
  induction depth generalizing f arg dom cod env body ctx with
  | zero =>
      unfold apply
      rw [henter]
      trivial
  | succ depth ih =>
      unfold apply
      rw [henter]
      refine Expr.safe_evalWith ?_ hbody hnames henv
      intro f arg dom cod hf harg
      obtain ⟨env, body, ctx, henter, henv, hbody, hnames⟩ := hf.enter harg
      exact ih f arg dom cod hf harg env body ctx henter henv hbody hnames

/-- A closed expression of a type other than `any` never fails for lack of a binding, for a
condition that is no boolean, for operands of the wrong kind or for calling something that is no
function; and its value, if it has one, is of its type. -/
theorem eval_typed_safe (e : Expr) (ty : Ty) (hnames : e.RecNamesDistinct)
    (htyped : e.typed = .ok ty) (hany : ty ≠ .any) (depth : Nat) :
    match e.eval depth ∅ with
    | .ok v => v.Inhabits ty
    | .error (.error cause) => cause = .divisionByZero ∨ ∃ o, cause = .overflow o
    | .error .exhausted => True := by
  have hsafe : Safe ty (e.eval depth ∅) :=
    Expr.safe_evalWith (safe_apply depth) (hasType_of_infer htyped hany) hnames
      (.of_empty _ _)
  cases heval : e.eval depth ∅ with
  | ok v =>
      rw [heval] at hsafe
      exact ValueTyped.inhabits hsafe
  | error halt =>
      rw [heval] at hsafe
      cases halt with
      | error cause => exact hsafe
      | exhausted => trivial

/-- A recursive function handed to another function, beside one whose parameter is annotated with
`any`:
`let skip = fun (u: any) -> 1 in
let rec fact (n: int): int = if n < 2 then 1 else n * fact (n - 1) in
(fun (g: int -> int) -> g 5) fact`. -/
def factorialOfFive : Expr :=
  .letIn "skip" (.abs "u" .any (.int 1))
    (.letRec "fact" "n" .int .int
      (.ite (.op (.cmp .lt) (.var "n") (.int 2)) (.int 1)
        (.op (.arith .mul) (.var "n")
          (.app (.var "fact") (.op (.arith .sub) (.var "n") (.int 1)))))
      (.app (.abs "g" (.arrow .int .int) (.app (.var "g") (.int 5))) (.var "fact")))

theorem eval_typed_safe_factorialOfFive :
    factorialOfFive.RecNamesDistinct ∧ factorialOfFive.typed = .ok .int ∧
      ((factorialOfFive.eval 6 ∅).toOption.bind Value.toInt? = some 120) ∧
      match factorialOfFive.eval 6 ∅ with
      | .ok v => v.Inhabits .int
      | .error (.error cause) => cause = .divisionByZero ∨ ∃ o, cause = .overflow o
      | .error .exhausted => True := by
  have hnames : factorialOfFive.RecNamesDistinct := by
    simp [factorialOfFive, Expr.RecNamesDistinct]
  have htyped : factorialOfFive.typed = .ok .int := by rfl
  exact ⟨hnames, htyped, by decide, eval_typed_safe factorialOfFive .int hnames htyped nofun 6⟩

end LambdaAny
