import LambdaAny.Eval
import LambdaAny.Proofs.Substitution

/-!
# Environments stand for substitutions

Evaluation under an environment and evaluation by substitution give the same results.  A value
unfolds to the term that is left when what its environment holds is put into its body.  The relation
keeps two more facts: the environment binds every free name of the body, and what it holds unfolds
in turn.  So all terms that values unfold to are closed, and no binder captures anything.

On expressions with unbound names the two ways of evaluation differ: a function that mentions an
unbound name fails under its environment when it is called, but after substitution it may have come
under a binder of that name.
-/

namespace LambdaAny

open Term (Evaluates)

/-! ## Substitutions and bindings -/

namespace Subst

theorem binds_update {σ : Subst} {name other : String} {t : Term}
    (h : other = name ∨ σ.Binds other) : (σ.update name t).Binds other := by
  unfold Binds update
  by_cases heq : other = name
  · rw [if_pos heq]
    rfl
  · rw [if_neg heq]
    exact h.resolve_left heq

theorem erase_orElse_update (σ : Subst) (name : String) (t : Term) :
    (σ.erase name).orElse (Subst.empty.update name t) = σ.update name t := by
  funext other
  by_cases heq : other = name
  · simp [orElse, erase, update, heq]
  · simp [orElse, erase, update, empty, heq]

/-- If the two names coincide, the second update is the one that counts. -/
theorem erase_erase_orElse_update (σ : Subst) (func param : String) (f a : Term) :
    ((σ.erase func).erase param).orElse ((Subst.empty.update func f).update param a) =
      (σ.update func f).update param a := by
  funext other
  by_cases hparam : other = param
  · simp [orElse, erase, update, hparam]
  · by_cases hfunc : other = func
    · simp [orElse, erase, update, hfunc]
    · simp [orElse, erase, update, empty, hparam, hfunc]

end Subst

/-! ## What values unfold to -/

/-- The value unfolds to the term.

The first two premises about a function say `EnvUnfolds env σ`, which cannot be named before
`Unfolds` is. -/
inductive Unfolds : Value → Term → Prop
  | int (n : Int64) : Unfolds (.int n) (.int n)
  | bool (b : Bool) : Unfolds (.bool b) (.bool b)
  | closure {env : Env Value} {σ : Subst} {param : String} {body : Expr}
      (hbound : ∀ name, σ.Binds name → (env.lookup? name).isSome = true)
      (hvalues : ∀ name v t, env.lookup? name = some v → σ name = some t → Unfolds v t)
      (hscope : (Term.abs param (.ofExpr body)).Scoped σ.Binds) :
      Unfolds (.closure env param body) ((Term.abs param (.ofExpr body)).subst σ)
  | recClosure {env : Env Value} {σ : Subst} {func param : String} {body : Expr}
      (hbound : ∀ name, σ.Binds name → (env.lookup? name).isSome = true)
      (hvalues : ∀ name v t, env.lookup? name = some v → σ name = some t → Unfolds v t)
      (hscope : (Term.recFun func param (.ofExpr body)).Scoped σ.Binds) :
      Unfolds (.recClosure env func param body) ((Term.recFun func param (.ofExpr body)).subst σ)

/-- What the substitution puts in is what the environment holds. -/
structure EnvUnfolds (env : Env Value) (σ : Subst) : Prop where
  bound : ∀ name, σ.Binds name → (env.lookup? name).isSome = true
  values : ∀ name v t, env.lookup? name = some v → σ name = some t → Unfolds v t

def Value.kind : Value → ValueKind
  | .int _ => .int
  | .bool _ => .bool
  | .closure _ _ _ | .recClosure _ _ _ _ => .function

namespace Unfolds

variable {v : Value} {t : Term}

theorem kind_eq (h : Unfolds v t) : t.kind? = some v.kind := by
  cases h <;> rfl

theorem text_eq (h : Unfolds v t) : t.text = v.text := by
  cases h with
  | int n => rfl
  | bool b => cases b <;> rfl
  | closure _ _ _ => rfl
  | recClosure _ _ _ => rfl

theorem toBool?_eq (h : Unfolds v t) : t.toBool? = v.toBool? := by
  cases h <;> rfl

/-- A term that some value unfolds to is its own result. -/
theorem evaluates (h : Unfolds v t) : Evaluates t (.ok t) := by
  cases h with
  | int n => exact .int n
  | bool b => exact .bool b
  | closure _ _ _ => exact .abs _ _
  | recClosure _ _ _ => exact .recFun _ _ _

theorem closedRange_of_bound {env : Env Value} {σ : Subst}
    (hbound : ∀ name, σ.Binds name → (env.lookup? name).isSome = true)
    (hclosed : ∀ name v t, env.lookup? name = some v → σ name = some t → t.Closed) :
    σ.ClosedRange := by
  intro name t ht
  have hbinds : σ.Binds name := by rw [Subst.Binds, ht, Option.isSome_some]
  obtain ⟨v, hv⟩ := Option.isSome_iff_exists.mp (hbound name hbinds)
  exact hclosed name v t hv ht

theorem closed (h : Unfolds v t) : t.Closed := by
  -- nothing is left free where the substitution binds every free name
  have hall : ∀ {σ : Subst} {t : Term}, t.Scoped σ.Binds → σ.ClosedRange → (t.subst σ).Closed := by
    intro σ t hscope hrange
    refine hscope.subst hrange fun name hbinds hnone => ?_
    rw [Subst.Binds, hnone] at hbinds
    cases hbinds
  induction h with
  | int n => trivial
  | bool b => trivial
  | closure hbound _ hscope ih => exact hall hscope (closedRange_of_bound hbound ih)
  | recClosure hbound _ hscope ih => exact hall hscope (closedRange_of_bound hbound ih)

end Unfolds

namespace EnvUnfolds

variable {env : Env Value} {σ : Subst}

theorem of_empty : EnvUnfolds ∅ Subst.empty where
  bound name hbinds := by cases hbinds
  values name v t hv ht := by cases ht

theorem lookup (h : EnvUnfolds env σ) {name : String} (hbinds : σ.Binds name) :
    ∃ v t, env.lookup? name = some v ∧ σ name = some t ∧ Unfolds v t := by
  obtain ⟨v, hv⟩ := Option.isSome_iff_exists.mp (h.bound name hbinds)
  obtain ⟨t, ht⟩ := Option.isSome_iff_exists.mp hbinds
  exact ⟨v, t, hv, ht, h.values name v t hv ht⟩

theorem update (h : EnvUnfolds env σ) (name : String) {v : Value} {t : Term} (hv : Unfolds v t) :
    EnvUnfolds (env.update name v) (σ.update name t) where
  bound other hbinds := by
    rw [Env.lookup?_update]
    unfold Subst.Binds Subst.update at hbinds
    by_cases heq : other = name
    · rw [if_pos heq]
      rfl
    · rw [if_neg heq] at hbinds ⊢
      exact h.bound other hbinds
  values other v' t' hv' ht' := by
    rw [Env.lookup?_update] at hv'
    unfold Subst.update at ht'
    by_cases heq : other = name
    · rw [if_pos heq] at hv' ht'
      cases hv'
      cases ht'
      exact hv
    · rw [if_neg heq] at hv' ht'
      exact h.values other v' t' hv' ht'

theorem closedRange (h : EnvUnfolds env σ) : σ.ClosedRange :=
  Unfolds.closedRange_of_bound h.bound fun name v t hv ht => (h.values name v t hv ht).closed

theorem closure (h : EnvUnfolds env σ) {param : String} {body : Expr}
    (hscope : (Term.abs param (.ofExpr body)).Scoped σ.Binds) :
    Unfolds (.closure env param body) ((Term.abs param (.ofExpr body)).subst σ) :=
  .closure h.bound h.values hscope

theorem recClosure (h : EnvUnfolds env σ) {func param : String} {body : Expr}
    (hscope : (Term.recFun func param (.ofExpr body)).Scoped σ.Binds) :
    Unfolds (.recClosure env func param body)
      ((Term.recFun func param (.ofExpr body)).subst σ) :=
  .recClosure h.bound h.values hscope

/-- A value bound in the environment, or put in after the rest. -/
theorem subst_update (h : EnvUnfolds env σ) (t : Term) (name : String) (u : Term) :
    (t.subst (σ.erase name)).subst (Subst.empty.update name u) = t.subst (σ.update name u) := by
  rw [t.subst_subst (h.closedRange.erase name), Subst.erase_orElse_update]

end EnvUnfolds

/-! ## Calls -/

/-- A function and the term it unfolds to enter the same body, the one under an environment and the
other under the substitution that unfolds it. -/
theorem Unfolds.enter {f a : Value} {tf ta : Term} (hf : Unfolds f tf) (ha : Unfolds a ta) :
    (f.enter? a = none ∧ tf.enter? ta = none) ∨
      ∃ env body σ, f.enter? a = some (env, body) ∧
        tf.enter? ta = some ((Term.ofExpr body).subst σ) ∧ EnvUnfolds env σ ∧
        (Term.ofExpr body).Scoped σ.Binds := by
  have hself := hf
  cases hf with
  | int n => exact .inl ⟨rfl, rfl⟩
  | bool b => exact .inl ⟨rfl, rfl⟩
  | @closure env σ param body hbound hvalues hscope =>
      have henv : EnvUnfolds env σ := ⟨hbound, hvalues⟩
      have hbody : (Term.ofExpr body).Scoped fun name => name = param ∨ σ.Binds name := hscope
      refine .inr ⟨env.update param a, body, σ.update param ta, rfl, ?_, henv.update param ha, ?_⟩
      · exact congrArg some (henv.subst_update _ param ta)
      · exact hbody.mono fun name => Subst.binds_update
  | @recClosure env σ func param body hbound hvalues hscope =>
      have henv : EnvUnfolds env σ := ⟨hbound, hvalues⟩
      have hbody : (Term.ofExpr body).Scoped
          fun name => name = param ∨ name = func ∨ σ.Binds name := hscope
      refine .inr ⟨_, body, _, rfl, ?_, (henv.update func hself).update param ha, ?_⟩
      · rw [Term.subst, Term.enter?, Term.subst_subst _ ((henv.closedRange.erase func).erase param),
          Subst.erase_erase_orElse_update]
      · exact hbody.mono fun name hname =>
          Subst.binds_update (hname.imp_right Subst.binds_update)

/-! ## Results -/

/-- The two results are a value and the term it unfolds to, or the same error. -/
inductive Answers : Except Halt Value → Except EvalError Term → Prop
  | value {v : Value} {t : Term} (h : Unfolds v t) : Answers (.ok v) (.ok t)
  | error (cause : EvalError) : Answers (.error (.error cause)) (.error cause)

/-- What is seen of the two results is the same: the text and the kind of a value, or the error with
all it says. -/
def SameResult : Except Halt Value → Except EvalError Term → Prop
  | .ok v, .ok t => t.text = v.text ∧ t.kind? = some v.kind
  | .error (.error cause), .error cause' => cause = cause'
  | .ok _, .error _ | .error (.error _), .ok _ | .error .exhausted, _ => False

theorem Answers.sameResult {out : Except Halt Value} {result : Except EvalError Term}
    (h : Answers out result) : SameResult out result := by
  cases h with
  | value hv => exact ⟨hv.text_eq, hv.kind_eq⟩
  | error cause => exact rfl

theorem Answers.ne_exhausted {out : Except Halt Value} {result : Except EvalError Term}
    (h : Answers out result) : out ≠ .error .exhausted := by
  cases h <;> nofun

/-- Operators do not tell values from the terms they unfold to. -/
theorem answers_runOp {l r : Value} {tl tr : Term} (hl : Unfolds l tl) (hr : Unfolds r tr)
    (o : Op) : Answers ((o.run l r).mapError .error) (Term.runOp o tl tr) := by
  have hillegal : Answers (.error (.error (.illegalOperands o l.text r.text)))
      (.error (.illegalOperands o tl.text tr.text)) := by
    rw [hl.text_eq, hr.text_eq]
    exact .error _
  cases hl with
  | int a =>
      cases hr with
      | int b =>
          cases o with
          | arith o =>
              simp only [Op.run, Term.runOp]
              cases o.run a b with
              | ok n => exact .value (.int n)
              | error cause => exact .error cause
          | cmp o => exact .value (.bool _)
      | bool _ | closure _ _ _ | recClosure _ _ _ => cases o <;> exact hillegal
  | bool a =>
      cases hr with
      | bool b =>
          cases o with
          | arith o => exact hillegal
          | cmp o => exact .value (.bool _)
      | int _ | closure _ _ _ | recClosure _ _ _ => cases o <;> exact hillegal
  | closure _ _ _ | recClosure _ _ _ => cases o <;> exact hillegal

/-- Unless it runs out of depth, the evaluation has a result with the property. -/
def Follows (out : Except Halt Value) (P : Except EvalError Term → Prop) : Prop :=
  out = .error .exhausted ∨ ∃ result, Answers out result ∧ P result

theorem Follows.imp {out : Except Halt Value} {P Q : Except EvalError Term → Prop}
    (h : Follows out P) (hPQ : ∀ result, P result → Q result) : Follows out Q := by
  rcases h with hexhausted | ⟨result, hanswers, hP⟩
  · exact .inl hexhausted
  · exact .inr ⟨result, hanswers, hPQ result hP⟩

theorem Follows.bind {out : Except Halt Value} {next : Value → Except Halt Value}
    {P Q : Except EvalError Term → Prop} (h : Follows out P)
    (hok : ∀ v t, Unfolds v t → P (.ok t) → Follows (next v) Q)
    (herror : ∀ cause, P (.error cause) → Q (.error cause)) : Follows (out.bind next) Q := by
  rcases h with rfl | ⟨result, hanswers, hP⟩
  · exact .inl rfl
  · cases hanswers with
    | value hv => exact hok _ _ hv hP
    | error cause => exact .inr ⟨_, .error cause, herror cause hP⟩

/-! ## From environments to substitution -/

/-- One expression evaluates by substitution as it does under its environment, if the calls it makes
do. -/
theorem Expr.follows_evalWith {call : Value → Value → Except Halt Value}
    (hcall : ∀ f a tf ta, Unfolds f tf → Unfolds a ta → ∀ func arg, Evaluates func (.ok tf) →
      Evaluates arg (.ok ta) → Follows (call f a) (Evaluates (.app func arg)))
    (e : Expr) {env : Env Value} {σ : Subst} (henv : EnvUnfolds env σ)
    (hscope : (Term.ofExpr e).Scoped σ.Binds) :
    Follows (e.evalWith call env) (Evaluates ((Term.ofExpr e).subst σ)) := by
  induction e generalizing env σ with
  | int n => exact .inr ⟨_, .value (.int n), .int n⟩
  | bool b => exact .inr ⟨_, .value (.bool b), .bool b⟩
  | var name =>
      obtain ⟨v, t, hv, ht, hunfolds⟩ := henv.lookup hscope
      simp only [evalWith, hv, Term.ofExpr, Term.subst, ht, Option.getD_some]
      exact .inr ⟨_, .value hunfolds, hunfolds.evaluates⟩
  | op o lhs rhs ihlhs ihrhs =>
      rw [evalWith_op]
      -- an error on either side ends both evaluations there
      refine (ihlhs henv hscope.1).bind (fun l tl hl hlhs => ?_) fun _ => .opLhsError
      refine (ihrhs henv hscope.2).bind (fun r tr hr hrhs => ?_) fun _ => .opRhsError hlhs
      exact .inr ⟨_, answers_runOp hl hr o, .op hlhs hrhs⟩
  | ite cond thn els ihcond ihthn ihels =>
      rw [evalWith_ite]
      refine (ihcond henv hscope.1).bind (fun c tc hc hcond => ?_) fun _ => .iteError
      cases hc with
      | bool b =>
          cases b with
          | true => exact (ihthn henv hscope.2.1).imp fun _ => .iteThen hcond
          | false => exact (ihels henv hscope.2.2).imp fun _ => .iteElse hcond
      | int n => exact .inr ⟨_, .error _, .iteNonBool hcond rfl⟩
      | closure _ _ _ => exact .inr ⟨_, .error _, .iteNonBool hcond rfl⟩
      | recClosure _ _ _ => exact .inr ⟨_, .error _, .iteNonBool hcond rfl⟩
  | letIn binder bindee tail ihbindee ihtail =>
      rw [evalWith_letIn]
      refine (ihbindee henv hscope.1).bind (fun v t hv hbindee => ?_) fun _ => .letInError
      have htail := ihtail (henv.update binder hv) (hscope.2.mono fun name => Subst.binds_update)
      rw [← henv.subst_update] at htail
      exact htail.imp fun _ => .letIn hbindee
  | letRec func param _ _ body tail ihbody ihtail =>
      have htail := ihtail (henv.update func (henv.recClosure hscope.1))
        (hscope.2.mono fun name => Subst.binds_update)
      rw [← henv.subst_update] at htail
      exact htail.imp fun _ => .letRec
  | abs param _ body ihbody => exact .inr ⟨_, .value (henv.closure hscope), .abs _ _⟩
  | app func arg ihfunc iharg =>
      rw [evalWith_app]
      refine (ihfunc henv hscope.1).bind (fun f tf hf hfunc => ?_) fun _ => .appFuncError
      refine (iharg henv hscope.2).bind (fun a ta ha harg => ?_) fun _ => .appArgError hfunc
      exact hcall f a tf ta hf ha _ _ hfunc harg

/-- Calls at every depth, by induction on the depth. -/
theorem follows_apply (depth : Nat) (f a : Value) (tf ta : Term) (hf : Unfolds f tf)
    (ha : Unfolds a ta) (func arg : Term) (hfunc : Evaluates func (.ok tf))
    (harg : Evaluates arg (.ok ta)) : Follows (apply depth f a) (Evaluates (.app func arg)) := by
  induction depth using Nat.strongRecOn generalizing f a tf ta func arg with
  | ind depth ih =>
      rcases hf.enter ha with ⟨hnone, hnone'⟩ | ⟨env, body, σ, hsome, hsome', henv, hscope⟩
      · rw [apply_of_enter_none hnone, ← hf.text_eq]
        exact .inr ⟨_, .error _, .appNotAFunction hfunc harg hnone'⟩
      · cases depth with
        | zero => exact .inl (apply_zero_of_enter hsome)
        | succ depth =>
            rw [apply_succ_of_enter hsome]
            have hbody := body.follows_evalWith (ih depth (Nat.lt_succ_self depth)) henv hscope
            exact hbody.imp fun _ => .app hfunc harg hsome'

/-! ## From substitution to environments -/

/-- From some depth on, the evaluation has one outcome, and the result answers to it. -/
def Settles (out : Nat → Except Halt Value) (result : Except EvalError Term) : Prop :=
  ∃ outcome, Answers outcome result ∧ ∃ depth, ∀ depth', depth ≤ depth' → out depth' = outcome

namespace Settles

variable {out : Nat → Except Halt Value} {next : Nat → Value → Except Halt Value}
  {result : Except EvalError Term}

theorem const {outcome : Except Halt Value} (h : Answers outcome result) :
    Settles (fun _ => outcome) result :=
  ⟨outcome, h, 0, fun _ _ => rfl⟩

theorem bind {t : Term} (h : Settles out (.ok t))
    (hnext : ∀ v, Unfolds v t → Settles (fun depth => next depth v) result) :
    Settles (fun depth => (out depth).bind (next depth)) result := by
  obtain ⟨outcome, hanswers, hsettles⟩ := h
  cases hanswers with
  | @value v _ hv =>
      obtain ⟨outcome', hanswers', hsettles'⟩ := hnext v hv
      exact ⟨outcome', hanswers', SettlesAt.bind hsettles hsettles'⟩

theorem bind_error {cause : EvalError} (h : Settles out (.error cause)) :
    Settles (fun depth => (out depth).bind (next depth)) (.error cause) := by
  obtain ⟨outcome, hanswers, hsettles⟩ := h
  cases hanswers
  exact ⟨_, .error cause, SettlesAt.bind_error hsettles⟩

/-- A call settles one level above its body. -/
theorem apply_of_enter {f a : Value} {env : Env Value} {body : Expr}
    (henter : f.enter? a = some (env, body))
    (h : Settles (fun depth => body.evalWith (apply depth) env) result) :
    Settles (fun depth => apply depth f a) result := by
  obtain ⟨outcome, hanswers, hsettles⟩ := h
  exact ⟨outcome, hanswers, SettlesAt.apply_of_enter henter hsettles⟩

end Settles

section Heads

variable {e : Expr} {env : Env Value} {σ : Subst}

theorem EnvUnfolds.isSome_kind (henv : EnvUnfolds env σ) {name : String} {t : Term}
    (hscope : (Term.ofExpr (.var name)).Scoped σ.Binds)
    (ht : (Term.ofExpr (.var name)).subst σ = t) : t.kind?.isSome = true := by
  obtain ⟨v, u, _, hu, hunfolds⟩ := henv.lookup hscope
  have heq : (Term.ofExpr (.var name)).subst σ = u := by
    simp only [Term.ofExpr, Term.subst, hu, Option.getD_some]
  rw [← ht, heq, hunfolds.kind_eq]
  rfl

theorem subst_eq_op (henv : EnvUnfolds env σ) (hscope : (Term.ofExpr e).Scoped σ.Binds) {o : Op}
    {l r : Term} (ht : (Term.ofExpr e).subst σ = .op o l r) :
    ∃ lhs rhs, e = .op o lhs rhs ∧ (Term.ofExpr lhs).subst σ = l ∧
      (Term.ofExpr rhs).subst σ = r := by
  cases e with
  | op o lhs rhs =>
      cases ht
      exact ⟨lhs, rhs, rfl, rfl, rfl⟩
  | var name => cases henv.isSome_kind hscope ht
  | _ => cases ht

theorem subst_eq_ite (henv : EnvUnfolds env σ) (hscope : (Term.ofExpr e).Scoped σ.Binds)
    {c t f : Term} (ht : (Term.ofExpr e).subst σ = .ite c t f) :
    ∃ cond thn els, e = .ite cond thn els ∧ (Term.ofExpr cond).subst σ = c ∧
      (Term.ofExpr thn).subst σ = t ∧ (Term.ofExpr els).subst σ = f := by
  cases e with
  | ite cond thn els =>
      cases ht
      exact ⟨cond, thn, els, rfl, rfl, rfl, rfl⟩
  | var name => cases henv.isSome_kind hscope ht
  | _ => cases ht

theorem subst_eq_letIn (henv : EnvUnfolds env σ) (hscope : (Term.ofExpr e).Scoped σ.Binds)
    {binder : String} {b t : Term} (ht : (Term.ofExpr e).subst σ = .letIn binder b t) :
    ∃ bindee tail, e = .letIn binder bindee tail ∧ (Term.ofExpr bindee).subst σ = b ∧
      (Term.ofExpr tail).subst (σ.erase binder) = t := by
  cases e with
  | letIn binder bindee tail =>
      cases ht
      exact ⟨bindee, tail, rfl, rfl, rfl⟩
  | var name => cases henv.isSome_kind hscope ht
  | _ => cases ht

theorem subst_eq_letRec (henv : EnvUnfolds env σ) (hscope : (Term.ofExpr e).Scoped σ.Binds)
    {func param : String} {b t : Term} (ht : (Term.ofExpr e).subst σ = .letRec func param b t) :
    ∃ paramTy ret body tail, e = .letRec func param paramTy ret body tail ∧
      (Term.ofExpr body).subst ((σ.erase func).erase param) = b ∧
      (Term.ofExpr tail).subst (σ.erase func) = t := by
  cases e with
  | letRec func param paramTy ret body tail =>
      cases ht
      exact ⟨paramTy, ret, body, tail, rfl, rfl, rfl⟩
  | var name => cases henv.isSome_kind hscope ht
  | _ => cases ht

theorem subst_eq_app (henv : EnvUnfolds env σ) (hscope : (Term.ofExpr e).Scoped σ.Binds)
    {f a : Term} (ht : (Term.ofExpr e).subst σ = .app f a) :
    ∃ func arg, e = .app func arg ∧ (Term.ofExpr func).subst σ = f ∧
      (Term.ofExpr arg).subst σ = a := by
  cases e with
  | app func arg =>
      cases ht
      exact ⟨func, arg, rfl, rfl, rfl⟩
  | var name => cases henv.isSome_kind hscope ht
  | _ => cases ht

/-- An expression whose term is a value evaluates to that value without any call. -/
theorem settles_of_kind (henv : EnvUnfolds env σ) (hscope : (Term.ofExpr e).Scoped σ.Binds)
    {t : Term} (ht : (Term.ofExpr e).subst σ = t) (hkind : t.kind?.isSome = true) :
    Settles (fun depth => e.evalWith (apply depth) env) (.ok t) := by
  subst ht
  cases e with
  | int n => exact .const (.value (.int n))
  | bool b => exact .const (.value (.bool b))
  | abs param _ body => exact .const (.value (henv.closure hscope))
  | var name =>
      obtain ⟨v, t, hv, ht, hunfolds⟩ := henv.lookup hscope
      simp only [Expr.evalWith, hv, Term.ofExpr, Term.subst, ht, Option.getD_some]
      exact .const (.value hunfolds)
  | _ => cases hkind

end Heads

/-- What evaluates by substitution evaluates under the environment, once the depth suffices.  The
induction is on the rules; the expression, its environment and the substitution vary with the
term. -/
theorem settles_of_evaluates {t : Term} {result : Except EvalError Term} (h : Evaluates t result) :
    ∀ {e : Expr} {env : Env Value} {σ : Subst}, EnvUnfolds env σ →
      (Term.ofExpr e).Scoped σ.Binds → (Term.ofExpr e).subst σ = t →
        Settles (fun depth => e.evalWith (apply depth) env) result := by
  induction h with
  | int n => exact fun henv hscope ht => settles_of_kind henv hscope ht rfl
  | bool b => exact fun henv hscope ht => settles_of_kind henv hscope ht rfl
  | abs param body => exact fun henv hscope ht => settles_of_kind henv hscope ht rfl
  | recFun func param body => exact fun henv hscope ht => settles_of_kind henv hscope ht rfl
  | unbound name =>
      -- no variable is left in a term whose free names have all been replaced
      intro e env σ henv hscope ht
      cases e with
      | var name => cases henv.isSome_kind hscope ht
      | _ => cases ht
  | @op o _ _ _ _ _ _ ihlhs ihrhs =>
      intro e env σ henv hscope ht
      obtain ⟨lhs, rhs, rfl, hlhs, hrhs⟩ := subst_eq_op henv hscope ht
      simp only [Expr.evalWith_op]
      refine (ihlhs henv hscope.1 hlhs).bind fun l hl => ?_
      exact (ihrhs henv hscope.2 hrhs).bind fun r hr => .const (answers_runOp hl hr o)
  | opLhsError _ ihlhs =>
      intro e env σ henv hscope ht
      obtain ⟨lhs, rhs, rfl, hlhs, _⟩ := subst_eq_op henv hscope ht
      simp only [Expr.evalWith_op]
      exact (ihlhs henv hscope.1 hlhs).bind_error
  | opRhsError _ _ ihlhs ihrhs =>
      intro e env σ henv hscope ht
      obtain ⟨lhs, rhs, rfl, hlhs, hrhs⟩ := subst_eq_op henv hscope ht
      simp only [Expr.evalWith_op]
      exact (ihlhs henv hscope.1 hlhs).bind fun l _ => (ihrhs henv hscope.2 hrhs).bind_error
  | iteThen _ _ ihcond ihthn =>
      intro e env σ henv hscope ht
      obtain ⟨cond, thn, els, rfl, hcond, hthn, _⟩ := subst_eq_ite henv hscope ht
      simp only [Expr.evalWith_ite]
      refine (ihcond henv hscope.1 hcond).bind fun c hc => ?_
      cases hc
      exact ihthn henv hscope.2.1 hthn
  | iteElse _ _ ihcond ihels =>
      intro e env σ henv hscope ht
      obtain ⟨cond, thn, els, rfl, hcond, _, hels⟩ := subst_eq_ite henv hscope ht
      simp only [Expr.evalWith_ite]
      refine (ihcond henv hscope.1 hcond).bind fun c hc => ?_
      cases hc
      exact ihels henv hscope.2.2 hels
  | iteNonBool _ hnone ihcond =>
      intro e env σ henv hscope ht
      obtain ⟨cond, thn, els, rfl, hcond, _⟩ := subst_eq_ite henv hscope ht
      simp only [Expr.evalWith_ite]
      refine (ihcond henv hscope.1 hcond).bind fun c hc => ?_
      rw [← hc.toBool?_eq, hnone, hc.text_eq]
      exact .const (.error _)
  | iteError _ ihcond =>
      intro e env σ henv hscope ht
      obtain ⟨cond, thn, els, rfl, hcond, _⟩ := subst_eq_ite henv hscope ht
      simp only [Expr.evalWith_ite]
      exact (ihcond henv hscope.1 hcond).bind_error
  | @letIn binder _ _ _ _ _ _ ihbindee ihtail =>
      intro e env σ henv hscope ht
      obtain ⟨bindee, tail, rfl, hbindee, rfl⟩ := subst_eq_letIn henv hscope ht
      simp only [Expr.evalWith_letIn]
      refine (ihbindee henv hscope.1 hbindee).bind fun v hv => ?_
      exact ihtail (henv.update binder hv) (hscope.2.mono fun name => Subst.binds_update)
        (henv.subst_update _ binder _).symm
  | letInError _ ihbindee =>
      intro e env σ henv hscope ht
      obtain ⟨bindee, tail, rfl, hbindee, _⟩ := subst_eq_letIn henv hscope ht
      simp only [Expr.evalWith_letIn]
      exact (ihbindee henv hscope.1 hbindee).bind_error
  | @letRec func _ _ _ _ _ ihtail =>
      intro e env σ henv hscope ht
      obtain ⟨paramTy, ret, body, tail, rfl, rfl, rfl⟩ := subst_eq_letRec henv hscope ht
      have htail := ihtail (henv.update func (henv.recClosure hscope.1))
        (hscope.2.mono fun name => Subst.binds_update) (henv.subst_update _ func _).symm
      exact htail
  | app _ _ henter _ ihfunc iharg ihbody =>
      intro e env σ henv hscope ht
      obtain ⟨func, arg, rfl, hfunc, harg⟩ := subst_eq_app henv hscope ht
      simp only [Expr.evalWith_app]
      refine (ihfunc henv hscope.1 hfunc).bind fun f hf => ?_
      refine (iharg henv hscope.2 harg).bind fun a ha => ?_
      -- the body that the rule enters is the one the function holds, unfolded
      rcases hf.enter ha with ⟨_, hnone⟩ | ⟨env', body, σ', hsome, hsome', henv', hscope'⟩
      · rw [hnone] at henter
        cases henter
      · rw [hsome'] at henter
        exact .apply_of_enter hsome (ihbody henv' hscope' (Option.some.inj henter))
  | appNotAFunction _ _ henter ihfunc iharg =>
      intro e env σ henv hscope ht
      obtain ⟨func, arg, rfl, hfunc, harg⟩ := subst_eq_app henv hscope ht
      simp only [Expr.evalWith_app]
      refine (ihfunc henv hscope.1 hfunc).bind fun f hf => ?_
      refine (iharg henv hscope.2 harg).bind fun a ha => ?_
      rcases hf.enter ha with ⟨hnone, _⟩ | ⟨env', body, σ', _, hsome', _⟩
      · simp only [apply_of_enter_none hnone]
        rw [hf.text_eq]
        exact .const (.error _)
      · rw [hsome'] at henter
        cases henter
  | appFuncError _ ihfunc =>
      intro e env σ henv hscope ht
      obtain ⟨func, arg, rfl, hfunc, _⟩ := subst_eq_app henv hscope ht
      simp only [Expr.evalWith_app]
      exact (ihfunc henv hscope.1 hfunc).bind_error
  | appArgError _ _ ihfunc iharg =>
      intro e env σ henv hscope ht
      obtain ⟨func, arg, rfl, hfunc, harg⟩ := subst_eq_app henv hscope ht
      simp only [Expr.evalWith_app]
      exact (ihfunc henv hscope.1 hfunc).bind fun f _ => (iharg henv hscope.2 harg).bind_error

/-! ## Closed expressions -/

theorem Expr.scoped_of_isClosed {e : Expr} (h : e.isClosed = true) :
    (Term.ofExpr e).Scoped Subst.empty.Binds := by
  have hnone : e.freeVar? [] = none := Option.isNone_iff_eq_none.mp h
  exact (Term.scoped_ofExpr hnone).mono fun _ hmem => nomatch hmem

theorem Expr.subst_empty_of_isClosed {e : Expr} (h : e.isClosed = true) :
    (Term.ofExpr e).subst Subst.empty = Term.ofExpr e :=
  (Expr.scoped_of_isClosed h).subst_eq fun _ hbinds => nomatch hbinds

/-- A closed expression finishes under the empty environment, at some depth, exactly if it evaluates
by substitution.  At every depth at which it finishes, it then ends as it does by substitution: with
a value of the same text and kind, or with the same error. -/
theorem eval_agrees_with_substitution (e : Expr) (hclosed : e.isClosed = true) :
    ((∃ depth, e.eval depth ∅ ≠ .error .exhausted) ↔
        ∃ result, Evaluates (Term.ofExpr e) result) ∧
      ∀ depth result, e.eval depth ∅ ≠ .error .exhausted → Evaluates (Term.ofExpr e) result →
        SameResult (e.eval depth ∅) result := by
  have hscope := Expr.scoped_of_isClosed hclosed
  have hsubst := Expr.subst_empty_of_isClosed hclosed
  have hsettles : ∀ {result}, Evaluates (Term.ofExpr e) result →
      Settles (fun depth => e.eval depth ∅) result :=
    fun h => settles_of_evaluates h .of_empty hscope hsubst
  refine ⟨⟨?_, ?_⟩, ?_⟩
  · rintro ⟨depth, hfinished⟩
    have hfollows := e.follows_evalWith (follows_apply depth) .of_empty hscope
    rcases hfollows with hexhausted | ⟨result, _, h⟩
    · exact absurd hexhausted hfinished
    · rw [hsubst] at h
      exact ⟨result, h⟩
  · rintro ⟨result, h⟩
    obtain ⟨outcome, hanswers, depth, houtcome⟩ := hsettles h
    have heval : e.eval depth ∅ = outcome := houtcome depth (Nat.le_refl depth)
    rw [← heval] at hanswers
    exact ⟨depth, hanswers.ne_exhausted⟩
  · intro depth result hfinished h
    obtain ⟨outcome, hanswers, depth', houtcome⟩ := hsettles h
    have hmax : e.eval (max depth depth') ∅ = outcome :=
      houtcome (max depth depth') (Nat.le_max_right depth depth')
    rw [Expr.eval_eq_of_le (Nat.le_max_left depth depth') hfinished] at hmax
    rw [hmax]
    exact hanswers.sameResult

/-- A function that keeps the first `x`, a recursive function whose parameter hides the function,
and a sum of a boolean that is never reached:
`let x = 1 in let g = fun (y: int) -> x + y in let x = 10 in
let rec f (f: int): int = if f < x then g f else true + x in f (g x - 2)`. -/
def shadowedNames : Expr :=
  .letIn "x" (.int 1)
    (.letIn "g" (.abs "y" .int (.op (.arith .add) (.var "x") (.var "y")))
      (.letIn "x" (.int 10)
        (.letRec "f" "f" .int .int
          (.ite (.op (.cmp .lt) (.var "f") (.var "x")) (.app (.var "g") (.var "f"))
            (.op (.arith .add) (.bool true) (.var "x")))
          (.app (.var "f") (.op (.arith .sub) (.app (.var "g") (.var "x")) (.int 2))))))

theorem eval_agrees_shadowedNames :
    shadowedNames.isClosed = true ∧
      (shadowedNames.eval 2 ∅).toOption.bind Value.toInt? = some 10 ∧
      (∃ result, Evaluates (Term.ofExpr shadowedNames) result) ∧
      ∀ result, Evaluates (Term.ofExpr shadowedNames) result →
        SameResult (shadowedNames.eval 2 ∅) result := by
  have hclosed : shadowedNames.isClosed = true := by decide
  have hten : (shadowedNames.eval 2 ∅).toOption.bind Value.toInt? = some 10 := by decide
  have hfinished : shadowedNames.eval 2 ∅ ≠ .error .exhausted := by
    intro hexhausted
    rw [hexhausted] at hten
    cases hten
  obtain ⟨hiff, hsame⟩ := eval_agrees_with_substitution shadowedNames hclosed
  exact ⟨hclosed, hten, hiff.mp ⟨2, hfinished⟩, fun result => hsame 2 result hfinished⟩

end LambdaAny
