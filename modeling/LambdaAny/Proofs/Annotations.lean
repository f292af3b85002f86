import LambdaAny.Eval
import LambdaAny.Program

/-!
# Annotations

The types that an expression declares for parameters and results are there for the checker only.
Evaluation does not look at them: two expressions that differ in nothing else give the same failure,
or values that differ in nothing else.

Values differ too, because functions hold their bodies with the types in them, and environments that
hold such functions in turn.  Two environments are compared by what a lookup finds in them.

Nothing is said about the checker: of two such programs it may accept one and reject the other.
-/

namespace LambdaAny

/-! ## What differs in annotations only -/

/-- The two expressions differ at most in the types declared for parameters and results. -/
inductive Expr.Retyped : Expr → Expr → Prop
  | int (n : Int64) : Retyped (.int n) (.int n)
  | bool (b : Bool) : Retyped (.bool b) (.bool b)
  | var (name : String) : Retyped (.var name) (.var name)
  | op (o : Op) {lhs lhs' rhs rhs' : Expr} (hlhs : Retyped lhs lhs') (hrhs : Retyped rhs rhs') :
      Retyped (.op o lhs rhs) (.op o lhs' rhs')
  | ite {cond cond' thn thn' els els' : Expr} (hcond : Retyped cond cond')
      (hthn : Retyped thn thn') (hels : Retyped els els') :
      Retyped (.ite cond thn els) (.ite cond' thn' els')
  | letIn (binder : String) {bindee bindee' tail tail' : Expr} (hbindee : Retyped bindee bindee')
      (htail : Retyped tail tail') : Retyped (.letIn binder bindee tail) (.letIn binder bindee' tail')
  | letRec (func param : String) (paramTy paramTy' ret ret' : Ty) {body body' tail tail' : Expr}
      (hbody : Retyped body body') (htail : Retyped tail tail') :
      Retyped (.letRec func param paramTy ret body tail) (.letRec func param paramTy' ret' body' tail')
  | abs (param : String) (ty ty' : Ty) {body body' : Expr} (hbody : Retyped body body') :
      Retyped (.abs param ty body) (.abs param ty' body')
  | app {func func' arg arg' : Expr} (hfunc : Retyped func func') (harg : Retyped arg arg') :
      Retyped (.app func arg) (.app func' arg')

/-- The two values differ at most in the types declared inside the bodies of functions.

What is asked of two environments says `Env.Retyped env env'`, which cannot be named before
`Value.Retyped` is. -/
inductive Value.Retyped : Value → Value → Prop
  | int (n : Int64) : Retyped (.int n) (.int n)
  | bool (b : Bool) : Retyped (.bool b) (.bool b)
  | closure {env env' : Env Value} (param : String) {body body' : Expr}
      (henv : ∀ name, Option.Rel Retyped (env.lookup? name) (env'.lookup? name))
      (hbody : body.Retyped body') : Retyped (.closure env param body) (.closure env' param body')
  | recClosure {env env' : Env Value} (func param : String) {body body' : Expr}
      (henv : ∀ name, Option.Rel Retyped (env.lookup? name) (env'.lookup? name))
      (hbody : body.Retyped body') :
      Retyped (.recClosure env func param body) (.recClosure env' func param body')

/-- The environments bind the same names, to values that differ in annotations only. -/
def Env.Retyped (env env' : Env Value) : Prop := ∀ name, env.RelatedAt Value.Retyped env' name

theorem Env.Retyped.of_empty : Env.Retyped ∅ ∅ := fun _ => .none

theorem Env.Retyped.update {env env' : Env Value} (henv : Env.Retyped env env') (name : String)
    {v v' : Value} (hv : v.Retyped v') : Env.Retyped (env.update name v) (env'.update name v') :=
  fun other => .update (.inr (henv other)) hv

namespace Value.Retyped

variable {v v' f f' a a' : Value}

theorem text_eq (h : v.Retyped v') : v.text = v'.text := by
  cases h <;> rfl

theorem toBool?_eq (h : v.Retyped v') : v.toBool? = v'.toBool? := by
  cases h <;> rfl

theorem seenAlike : SeenAlike Value.Retyped where
  int := .int
  bool := .bool
  text_eq _ _ := text_eq
  toInt?_eq _ _ h := by cases h <;> rfl
  toBool?_eq _ _ := toBool?_eq

/-- Functions that differ in annotations only enter bodies that do, in environments that do.  A
recursive function is bound again to itself, so the environments differ in it too. -/
theorem enter (hf : f.Retyped f') (ha : a.Retyped a') :
    f.enter? a = none ∧ f'.enter? a' = none ∨
      ∃ entry entry', f.enter? a = some entry ∧ f'.enter? a' = some entry' ∧
        Env.Retyped entry.1 entry'.1 ∧ entry.2.Retyped entry'.2 := by
  have hself := hf
  cases hf with
  | int n => exact .inl ⟨rfl, rfl⟩
  | bool b => exact .inl ⟨rfl, rfl⟩
  | closure param henv hbody =>
      exact .inr ⟨_, _, rfl, rfl, Env.Retyped.update henv param ha, hbody⟩
  | recClosure func param henv hbody =>
      exact .inr ⟨_, _, rfl, rfl, (Env.Retyped.update henv func hself).update param ha, hbody⟩

end Value.Retyped

/-! ## Evaluation -/

/-- By induction on what the expressions have in common. -/
theorem Expr.Retyped.sameOutcome_evalWith {call call' : Value → Value → Except Halt Value}
    (hcall : SameCalls Value.Retyped call call') {e e' : Expr} (h : e.Retyped e')
    {env env' : Env Value} (henv : Env.Retyped env env') :
    SameOutcome Value.Retyped (e.evalWith call env) (e'.evalWith call' env') := by
  induction h generalizing env env' with
  | int n => exact .value (.int n)
  | bool b => exact .value (.bool b)
  | var name =>
      simp only [evalWith]
      rcases (henv name).lookup with ⟨hnone, hnone'⟩ | ⟨v, v', hv, hv', hvalues⟩
      · rw [hnone, hnone']
        exact .halt _
      · rw [hv, hv']
        exact .value hvalues
  | op o _ _ ihl ihr =>
      rw [evalWith_op, evalWith_op]
      exact (ihl henv).bind fun l l' hleft => (ihr henv).bind fun r r' hright =>
        Value.Retyped.seenAlike.run_op hleft hright o
  | ite _ _ _ ihc iht ihe =>
      rw [evalWith_ite, evalWith_ite]
      refine (ihc henv).bind fun c c' hcond => ?_
      rw [hcond.toBool?_eq, hcond.text_eq]
      split
      · exact iht henv
      · exact ihe henv
      · exact .halt _
  | letIn binder _ _ ihb iht =>
      rw [evalWith_letIn, evalWith_letIn]
      exact (ihb henv).bind fun v v' hv => iht (henv.update binder hv)
  | letRec func param _ _ _ _ hbody _ _ iht =>
      exact iht (henv.update func (.recClosure func param henv hbody))
  | abs param _ _ hbody _ => exact .value (.closure param henv hbody)
  | app _ _ ihf iha =>
      rw [evalWith_app, evalWith_app]
      refine (ihf henv).bind fun f f' hfunc => (iha henv).bind fun a a' harg => ?_
      exact hcall f f' a a' hfunc harg

theorem sameCalls_retyped (depth : Nat) : SameCalls Value.Retyped (apply depth) (apply depth) := by
  refine sameCalls_apply Value.Retyped.seenAlike (fun f f' a a' hf ha => hf.enter ha) ?_ depth
  rintro call call' hcall ⟨env, body⟩ ⟨env', body'⟩ ⟨henv, hbody⟩
  exact hbody.sameOutcome_evalWith hcall henv

theorem Expr.Retyped.sameOutcome_eval {e e' : Expr} (h : e.Retyped e') {env env' : Env Value}
    (henv : Env.Retyped env env') (depth : Nat) :
    SameOutcome Value.Retyped (e.eval depth env) (e'.eval depth env') :=
  h.sameOutcome_evalWith (sameCalls_retyped depth) henv

/-- What a checked program shows of its outcome without the type is what evaluation gives. -/
theorem Program.run_render {source : String} {e : Expr} {ty : Ty} (h : check source = .ok (e, ty))
    (depth : Nat) :
    (run depth source).map (Outcome.render false) =
      match (e.eval depth ∅).map Value.text with
      | .ok text => .ok text
      | .error (.error cause) => .error (.eval cause)
      | .error .exhausted => .error .died := by
  unfold run
  rw [h]
  show (outcome ty (e.eval depth ∅)).map (Outcome.render false) = _
  cases e.eval depth ∅ with
  | ok v => rfl
  | error halt => cases halt <;> rfl

/-- Expressions that differ in annotations only, evaluated in environments that differ in
annotations only, give at every depth the same failure, or values that differ in annotations only
and have the same text.  Programs of such expressions print the same value, if both are accepted. -/
theorem annotations_never_matter {e e' : Expr} (h : e.Retyped e') :
    (∀ env env' : Env Value, Env.Retyped env env' → ∀ depth,
      SameOutcome Value.Retyped (e.eval depth env) (e'.eval depth env') ∧
        (e.eval depth env).map Value.text = (e'.eval depth env').map Value.text) ∧
    ∀ (source source' : String) (ty ty' : Ty), Program.check source = .ok (e, ty) →
      Program.check source' = .ok (e', ty') → ∀ depth,
        (Program.run depth source).map (Outcome.render false) =
          (Program.run depth source').map (Outcome.render false) := by
  have htext : ∀ {env env' : Env Value}, Env.Retyped env env' → ∀ depth,
      (e.eval depth env).map Value.text = (e'.eval depth env').map Value.text :=
    fun henv depth => (h.sameOutcome_eval henv depth).map_text_eq fun _ _ => Value.Retyped.text_eq
  constructor
  · intro env env' henv depth
    exact ⟨h.sameOutcome_eval henv depth, htext henv depth⟩
  · intro source source' ty ty' hcheck hcheck' depth
    rw [Program.run_render hcheck, Program.run_render hcheck', htext .of_empty depth]

/-- `let rec down (n: int): int = if n < 1 then twice (fun (k: int) -> k + 3) n else down (n - 1) in
down 2`, with one type in the place of every `int`. -/
def countedDown (ty : Ty) : Expr :=
  .letRec "down" "n" ty ty
    (.ite (.op (.cmp .lt) (.var "n") (.int 1))
      (.app (.app (.var "twice") (.abs "k" ty (.op (.arith .add) (.var "k") (.int 3)))) (.var "n"))
      (.app (.var "down") (.op (.arith .sub) (.var "n") (.int 1))))
    (.app (.var "down") (.int 2))

/-- Binds `twice` to `fun (g: _) -> fun (x: int) -> g (g x)`, with a type in the place of `int`. -/
def twiceEnv (ty : Ty) : Env Value :=
  (∅ : Env Value).update "twice"
    (.closure ∅ "g" (.abs "x" ty (.app (.var "g") (.app (.var "g") (.var "x")))))

/-- `let f = fun (x: int) -> x + 1 in f 2`, with a type in the place of `int`. -/
def appliedSuccessor (ty : Ty) : Expr :=
  .letIn "f" (.abs "x" ty (.op (.arith .add) (.var "x") (.int 1))) (.app (.var "f") (.int 2))

theorem annotations_never_matter_countedDown :
    (countedDown .int).Retyped (countedDown (.arrow .bool .any)) ∧
      Env.Retyped (twiceEnv .int) (twiceEnv .bool) ∧
      SameOutcome Value.Retyped ((countedDown .int).eval 6 (twiceEnv .int))
        ((countedDown (.arrow .bool .any)).eval 6 (twiceEnv .bool)) ∧
      ((countedDown .int).eval 6 (twiceEnv .int)).toOption.bind Value.toInt? = some 6 ∧
      Program.check "let f = fun (x: int) -> x + 1 in f 2" = .ok (appliedSuccessor .int, .int) ∧
      Program.check "let f = fun (x: any) -> x + 1 in f 2" = .ok (appliedSuccessor .any, .any) ∧
      (Program.run 1 "let f = fun (x: int) -> x + 1 in f 2").map (Outcome.render false) =
        (Program.run 1 "let f = fun (x: any) -> x + 1 in f 2").map (Outcome.render false) := by
  have hcounted : (countedDown .int).Retyped (countedDown (.arrow .bool .any)) := by
    repeat constructor
  have henv : Env.Retyped (twiceEnv .int) (twiceEnv .bool) := by
    refine Env.Retyped.of_empty.update "twice" (.closure "g" Env.Retyped.of_empty ?_)
    repeat constructor
  have hsuccessor : (appliedSuccessor .int).Retyped (appliedSuccessor .any) := by
    repeat constructor
  have hint : Program.check "let f = fun (x: int) -> x + 1 in f 2" =
      .ok (appliedSuccessor .int, .int) := eq_ok_of_toOption (by decide +kernel)
  have hany : Program.check "let f = fun (x: any) -> x + 1 in f 2" =
      .ok (appliedSuccessor .any, .any) := eq_ok_of_toOption (by decide +kernel)
  refine ⟨hcounted, henv, ((annotations_never_matter hcounted).1 _ _ henv 6).1, by decide, hint, hany,
    ?_⟩
  exact (annotations_never_matter hsuccessor).2 _ _ _ _ hint hany 1

end LambdaAny
