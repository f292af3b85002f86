import LambdaAny.Value.Op

/-!
# Evaluation

Strict evaluation from left to right.  Nothing is substituted into a tree: a function's body runs
under the environment the function holds, with its parameter bound to the argument.

Calls may nest without end, so evaluation is given a depth, the number of calls that may be under
way at once.  An answer found at one depth is found at every greater one (`eval_eq_of_le`);
`Halt.exhausted` is not an answer.
-/

namespace LambdaAny

/-- Why an evaluation ended without a value. -/
inductive Halt where
  | error (cause : EvalError)
  /-- More calls would have been under way than were allowed. -/
  | exhausted
deriving DecidableEq, Repr

/-- The environment of a function's body when it is called, and that body; nothing for a value that
is not a function.  A recursive function's parameter is bound last: it hides a function of the same
name. -/
def Value.enter? (func arg : Value) : Option (Env Value × Expr) :=
  match func with
  | closure env param body => some (env.update param arg, body)
  | recClosure env name param body => some ((env.update name func).update param arg, body)
  | int _ | bool _ => none

namespace Expr

/-- The value of an expression, where `call` gives the results of function calls. -/
def evalWith (call : Value → Value → Except Halt Value) :
    Env Value → Expr → Except Halt Value
  | _, int n => .ok (.int n)
  | _, bool b => .ok (.bool b)
  | env, var name =>
    match env.lookup? name with
    | some v => .ok v
    | none => .error (.error (.unbound name))
  | env, op o lhs rhs =>
    match lhs.evalWith call env with
    | .error halt => .error halt
    | .ok l =>
      match rhs.evalWith call env with
      | .error halt => .error halt
      | .ok r => (o.run l r).mapError .error
  | env, ite cond thn els =>
    match cond.evalWith call env with
    | .error halt => .error halt
    | .ok (.bool true) => thn.evalWith call env
    | .ok (.bool false) => els.evalWith call env
    | .ok found => .error (.error (.nonBoolGuard found.text))
  | env, letIn binder bindee tail =>
    match bindee.evalWith call env with
    | .error halt => .error halt
    | .ok v => tail.evalWith call (env.update binder v)
  | env, letRec func param _ _ body tail =>
    tail.evalWith call (env.update func (.recClosure env func param body))
  | env, abs param _ body => .ok (.closure env param body)
  | env, app func arg =>
    match func.evalWith call env with
    | .error halt => .error halt
    | .ok f =>
      match arg.evalWith call env with
      | .error halt => .error halt
      | .ok a => call f a

end Expr

/-- Calls a value with an argument; `depth` calls may be under way at once, this one included. -/
def apply : (depth : Nat) → (func arg : Value) → Except Halt Value
  | depth, func, arg =>
    match func.enter? arg with
    | none => .error (.error (.notAFunction func.text))
    | some (env, body) =>
      match depth with
      | 0 => .error .exhausted
      | depth + 1 => body.evalWith (apply depth) env

/-- The value of an expression in an environment, with at most `depth` calls under way at once. -/
def Expr.eval (depth : Nat) (env : Env Value) (e : Expr) : Except Halt Value :=
  e.evalWith (apply depth) env

/-! ## Evaluation as a chain of results -/

namespace Expr

variable (call : Value → Value → Except Halt Value) (env : Env Value)

theorem evalWith_op (o : Op) (lhs rhs : Expr) :
    (op o lhs rhs).evalWith call env =
      (lhs.evalWith call env).bind fun l =>
        (rhs.evalWith call env).bind fun r => (o.run l r).mapError .error := by
  simp only [evalWith]
  cases lhs.evalWith call env with
  | error halt => rfl
  | ok l => cases rhs.evalWith call env <;> rfl

theorem evalWith_ite (cond thn els : Expr) :
    (ite cond thn els).evalWith call env =
      (cond.evalWith call env).bind fun c =>
        match c.toBool? with
        | some true => thn.evalWith call env
        | some false => els.evalWith call env
        | none => .error (.error (.nonBoolGuard c.text)) := by
  simp only [evalWith]
  cases cond.evalWith call env with
  | error halt => rfl
  | ok c =>
      cases c with
      | bool b => cases b <;> rfl
      | int n => rfl
      | closure _ _ _ => rfl
      | recClosure _ _ _ _ => rfl

theorem evalWith_letIn (binder : String) (bindee tail : Expr) :
    (letIn binder bindee tail).evalWith call env =
      (bindee.evalWith call env).bind fun v => tail.evalWith call (env.update binder v) := by
  simp only [evalWith]
  cases bindee.evalWith call env <;> rfl

theorem evalWith_app (func arg : Expr) :
    (app func arg).evalWith call env =
      (func.evalWith call env).bind fun f => (arg.evalWith call env).bind fun a => call f a := by
  simp only [evalWith]
  cases func.evalWith call env with
  | error halt => rfl
  | ok f => cases arg.evalWith call env <;> rfl

end Expr

theorem apply_of_enter_none {func arg : Value} (h : func.enter? arg = none) (depth : Nat) :
    apply depth func arg = .error (.error (.notAFunction func.text)) := by
  unfold apply
  rw [h]

theorem apply_zero_of_enter {func arg : Value} {env : Env Value} {body : Expr}
    (h : func.enter? arg = some (env, body)) : apply 0 func arg = .error .exhausted := by
  unfold apply
  rw [h]

theorem apply_succ_of_enter {func arg : Value} {env : Env Value} {body : Expr}
    (h : func.enter? arg = some (env, body)) (depth : Nat) :
    apply (depth + 1) func arg = body.evalWith (apply depth) env := by
  rw [apply, h]

/-! ## More depth keeps a finished answer -/

theorem Expr.evalWith_eq_of_calls {call call' : Value → Value → Except Halt Value}
    (hcall : ∀ f a, call f a ≠ .error .exhausted → call' f a = call f a) (e : Expr)
    (env : Env Value) (h : e.evalWith call env ≠ .error .exhausted) :
    e.evalWith call' env = e.evalWith call env := by
  induction e generalizing env with
  | int n => rfl
  | bool b => rfl
  | var name => rfl
  | op o lhs rhs ihl ihr =>
      simp only [evalWith] at h ⊢
      cases hl : lhs.evalWith call env with
      | error halt =>
          rw [hl] at h
          rw [ihl env (by rwa [hl]), hl]
      | ok l =>
          rw [ihl env (by simp [hl]), hl]
          rw [hl] at h
          cases hr : rhs.evalWith call env with
          | error halt =>
              simp only [hr] at h
              rw [ihr env (by rwa [hr]), hr]
          | ok r => rw [ihr env (by simp [hr]), hr]
  | ite cond thn els ihc iht ihe =>
      simp only [evalWith] at h ⊢
      cases hc : cond.evalWith call env with
      | error halt =>
          rw [hc] at h
          rw [ihc env (by rwa [hc]), hc]
      | ok v =>
          rw [ihc env (by simp [hc]), hc]
          rw [hc] at h
          cases v with
          | bool b =>
              cases b
              · exact ihe env h
              · exact iht env h
          | int n => rfl
          | closure _ _ _ => rfl
          | recClosure _ _ _ _ => rfl
  | letIn binder bindee tail ihb iht =>
      simp only [evalWith] at h ⊢
      cases hb : bindee.evalWith call env with
      | error halt =>
          rw [hb] at h
          rw [ihb env (by rwa [hb]), hb]
      | ok v =>
          rw [ihb env (by simp [hb]), hb]
          rw [hb] at h
          exact iht _ h
  | letRec func param _ _ body tail _ iht => exact iht _ h
  | abs param _ body _ => rfl
  | app func arg ihf iha =>
      simp only [evalWith] at h ⊢
      cases hf : func.evalWith call env with
      | error halt =>
          rw [hf] at h
          rw [ihf env (by rwa [hf]), hf]
      | ok f =>
          rw [ihf env (by simp [hf]), hf]
          rw [hf] at h
          cases ha : arg.evalWith call env with
          | error halt =>
              simp only [ha] at h
              rw [iha env (by rwa [ha]), ha]
          | ok a =>
              rw [iha env (by simp [ha]), ha]
              simp only [ha] at h
              exact hcall f a h

theorem apply_succ_eq (depth : Nat) (func arg : Value)
    (h : apply depth func arg ≠ .error .exhausted) :
    apply (depth + 1) func arg = apply depth func arg := by
  induction depth generalizing func arg with
  | zero =>
      unfold apply at h ⊢
      cases hentry : func.enter? arg with
      | none => rfl
      | some entry => simp [hentry] at h
  | succ depth ih =>
      unfold apply at h ⊢
      cases hentry : func.enter? arg with
      | none => rfl
      | some entry =>
          simp only [hentry] at h
          exact Expr.evalWith_eq_of_calls ih entry.2 entry.1 h

theorem apply_eq_of_le {depth depth' : Nat} (hle : depth ≤ depth') (func arg : Value)
    (h : apply depth func arg ≠ .error .exhausted) :
    apply depth' func arg = apply depth func arg := by
  induction hle with
  | refl => rfl
  | step _ ih => rw [apply_succ_eq _ func arg (by rwa [ih]), ih]

/-- An answer found at one depth is found at every greater one. -/
theorem Expr.eval_eq_of_le {depth depth' : Nat} (hle : depth ≤ depth') {env : Env Value} {e : Expr}
    (h : e.eval depth env ≠ .error .exhausted) : e.eval depth' env = e.eval depth env :=
  Expr.evalWith_eq_of_calls (fun f a => apply_eq_of_le hle f a) e env h

/-! ## Results from some depth on -/

/-- From some depth on, the results are all the same. -/
def SettlesAt (out : Nat → Except Halt Value) (outcome : Except Halt Value) : Prop :=
  ∃ depth, ∀ depth', depth ≤ depth' → out depth' = outcome

namespace SettlesAt

variable {out : Nat → Except Halt Value} {next : Nat → Value → Except Halt Value}
  {outcome : Except Halt Value}

theorem const (outcome : Except Halt Value) : SettlesAt (fun _ => outcome) outcome :=
  ⟨0, fun _ _ => rfl⟩

/-- The two bounds on the depth are reconciled by the greater of them. -/
theorem bind {v : Value} (h : SettlesAt out (.ok v))
    (hnext : SettlesAt (fun depth => next depth v) outcome) :
    SettlesAt (fun depth => (out depth).bind (next depth)) outcome := by
  obtain ⟨d, hd⟩ := h
  obtain ⟨d', hd'⟩ := hnext
  refine ⟨max d d', fun depth hle => ?_⟩
  have hfirst : out depth = .ok v := hd depth (Nat.le_trans (Nat.le_max_left d d') hle)
  show (out depth).bind (next depth) = outcome
  rw [hfirst]
  exact hd' depth (Nat.le_trans (Nat.le_max_right d d') hle)

theorem bind_error {halt : Halt} (h : SettlesAt out (.error halt)) :
    SettlesAt (fun depth => (out depth).bind (next depth)) (.error halt) := by
  obtain ⟨d, hd⟩ := h
  refine ⟨d, fun depth hle => ?_⟩
  show (out depth).bind (next depth) = .error halt
  rw [hd depth hle]
  rfl

/-- A call settles one level above its body. -/
theorem apply_of_enter {func arg : Value} {env : Env Value} {body : Expr}
    (henter : func.enter? arg = some (env, body))
    (h : SettlesAt (fun depth => body.evalWith (apply depth) env) outcome) :
    SettlesAt (fun depth => apply depth func arg) outcome := by
  obtain ⟨d, hd⟩ := h
  refine ⟨d + 1, fun depth hle => ?_⟩
  obtain ⟨below, rfl⟩ : ∃ below, depth = below + 1 := ⟨depth - 1, by omega⟩
  show apply (below + 1) func arg = outcome
  rw [apply_succ_of_enter henter]
  exact hd below (by omega)

end SettlesAt

/-! ## What a result ensures -/

/-- A value has the one property and an error the other.  Nothing is said of a result that is not an
answer. -/
def Ensures (P : Value → Prop) (E : EvalError → Prop) : Except Halt Value → Prop
  | .ok v => P v
  | .error (.error cause) => E cause
  | .error .exhausted => True

theorem Ensures.bind {P Q : Value → Prop} {E : EvalError → Prop} {result : Except Halt Value}
    {next : Value → Except Halt Value} (hresult : Ensures P E result)
    (hnext : ∀ v, P v → Ensures Q E (next v)) : Ensures Q E (result.bind next) := by
  cases result with
  | ok v => exact hnext v hresult
  | error halt =>
      cases halt with
      | error cause => exact hresult
      | exhausted => trivial

/-! ## Two results side by side -/

/-- Two related values, or twice the same failure. -/
inductive SameOutcome (related : Value → Value → Prop) :
    Except Halt Value → Except Halt Value → Prop
  | value {v v' : Value} (h : related v v') : SameOutcome related (.ok v) (.ok v')
  | halt (halt : Halt) : SameOutcome related (.error halt) (.error halt)

/-- Evaluations go on side by side from related values. -/
theorem SameOutcome.bind {related related' : Value → Value → Prop}
    {result result' : Except Halt Value} {next next' : Value → Except Halt Value}
    (h : SameOutcome related result result')
    (hnext : ∀ v v', related v v' → SameOutcome related' (next v) (next' v')) :
    SameOutcome related' (result.bind next) (result'.bind next') := by
  cases h with
  | value hv => exact hnext _ _ hv
  | halt halt => exact .halt halt

theorem SameOutcome.map_text_eq {related : Value → Value → Prop} {result result' : Except Halt Value}
    (htext : ∀ v v', related v v' → v.text = v'.text) (h : SameOutcome related result result') :
    result.map Value.text = result'.map Value.text := by
  cases h with
  | value hv => exact congrArg Except.ok (htext _ _ hv)
  | halt halt => rfl

/-- Related values have the same text, and are the same number or truth value if one of them is one.
Operators, conditionals and error texts go by nothing else. -/
structure SeenAlike (related : Value → Value → Prop) : Prop where
  int : ∀ n, related (.int n) (.int n)
  bool : ∀ b, related (.bool b) (.bool b)
  text_eq : ∀ v v', related v v' → v.text = v'.text
  toInt?_eq : ∀ v v', related v v' → v.toInt? = v'.toInt?
  toBool?_eq : ∀ v v', related v v' → v.toBool? = v'.toBool?

namespace SeenAlike

variable {related : Value → Value → Prop} {v v' l l' r r' : Value}

/-- Functions alone can be related without being the same. -/
theorem eq_or_function (h : SeenAlike related) (hv : related v v') :
    v' = v ∨ (v.toInt? = none ∧ v.toBool? = none) ∧ v'.toInt? = none ∧ v'.toBool? = none := by
  have hint := h.toInt?_eq v v' hv
  have hbool := h.toBool?_eq v v' hv
  cases v with
  | int n => exact .inl (Value.eq_int_of_toInt? hint.symm)
  | bool b => exact .inl (Value.eq_bool_of_toBool? hbool.symm)
  | closure _ _ _ | recClosure _ _ _ _ => exact .inr ⟨⟨rfl, rfl⟩, hint.symm, hbool.symm⟩

theorem run_op (h : SeenAlike related) (hl : related l l') (hr : related r r') (o : Op) :
    SameOutcome related ((o.run l r).mapError .error) ((o.run l' r').mapError .error) := by
  have hillegal : SameOutcome related (.error (.error (.illegalOperands o l.text r.text)))
      (.error (.error (.illegalOperands o l'.text r'.text))) := by
    rw [h.text_eq l l' hl, h.text_eq r r' hr]
    exact .halt _
  rcases h.eq_or_function hl with rfl | ⟨hfun, hfun'⟩
  · rcases h.eq_or_function hr with rfl | ⟨hfun, hfun'⟩
    · -- the operands are the same on both sides, and the result is no function
      rcases o.run_cases l' r' with hrun | ⟨a, x, y, hrun⟩ | ⟨b, hrun⟩
      · rw [hrun]
        exact .halt _
      · rw [hrun]
        cases a.run x y with
        | ok n => exact .value (h.int n)
        | error cause => exact .halt _
      · rw [hrun]
        exact .value (h.bool b)
    · rw [Op.run_of_function (.inr hfun), Op.run_of_function (.inr hfun')]
      exact hillegal
  · rw [Op.run_of_function (.inl hfun), Op.run_of_function (.inl hfun')]
    exact hillegal

end SeenAlike

/-- The two ways to call functions give the same outcome on related values. -/
def SameCalls (related : Value → Value → Prop) (call call' : Value → Value → Except Halt Value) :
    Prop :=
  ∀ f f' a a', related f f' → related a a' → SameOutcome related (call f a) (call' f' a')

/-- Related functions give the same outcome if the bodies they enter do, whenever the calls made
there do.  By induction on the depth. -/
theorem sameCalls_apply {related : Value → Value → Prop}
    {entered : Env Value × Expr → Env Value × Expr → Prop} (hseen : SeenAlike related)
    (henter : ∀ f f' a a', related f f' → related a a' →
      f.enter? a = none ∧ f'.enter? a' = none ∨
        ∃ entry entry', f.enter? a = some entry ∧ f'.enter? a' = some entry' ∧ entered entry entry')
    (hbody : ∀ call call', SameCalls related call call' → ∀ entry entry', entered entry entry' →
      SameOutcome related (entry.2.evalWith call entry.1) (entry'.2.evalWith call' entry'.1))
    (depth : Nat) : SameCalls related (apply depth) (apply depth) := by
  induction depth using Nat.strongRecOn with
  | ind depth ih =>
      intro f f' a a' hf ha
      rcases henter f f' a a' hf ha with ⟨hnone, hnone'⟩ | ⟨entry, entry', hsome, hsome', hentered⟩
      · rw [apply_of_enter_none hnone, apply_of_enter_none hnone', hseen.text_eq f f' hf]
        exact .halt _
      · cases depth with
        | zero =>
            rw [apply_zero_of_enter hsome, apply_zero_of_enter hsome']
            exact .halt _
        | succ depth =>
            rw [apply_succ_of_enter hsome, apply_succ_of_enter hsome']
            exact hbody _ _ (ih depth (Nat.lt_succ_self depth)) entry entry' hentered

end LambdaAny
