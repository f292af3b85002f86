import LambdaAny.Program
import LambdaAny.Proofs.FreeNames

/-!
# Scope safety

An expression that passes the scope check never meets an unbound name when it is evaluated, whatever
its type; so it holds of programs that the type checker gave up on.

The names of a function's body are looked up where the function was made and not where it is called.
The invariant therefore speaks of everything an environment reaches: what it binds, what the
environments of those functions bind, and so on.  Bindings that are hidden by newer ones are not
reached.
-/

namespace LambdaAny

/-! ## Reachable values -/

/-- The environment that a function holds. -/
def Value.held? : Value → Option (Env Value)
  | closure env _ _ | recClosure env _ _ _ => some env
  | int _ | bool _ => none

/-- The value is bound in the environment, or in one that a reachable function holds. -/
inductive Reachable (env : Env Value) : Value → Prop
  | bound {name : String} {v : Value} (hlookup : env.lookup? name = some v) : Reachable env v
  | held {f v : Value} {inner : Env Value} {name : String} (hf : Reachable env f)
      (hheld : f.held? = some inner) (hlookup : inner.lookup? name = some v) : Reachable env v

/-- A function's body mentions only its parameter, its own name if it is recursive, and names that
are bound in the environment it holds. -/
def Value.BodyBound : Value → Prop
  | int _ | bool _ => True
  | closure env param body =>
    ∀ name ∈ body.freeNames, name = param ∨ env.contains name = true
  | recClosure env func param body =>
    ∀ name ∈ body.freeNames, name = param ∨ name = func ∨ env.contains name = true

/-- Every function that the environment reaches has a bound body. -/
def Env.WellScoped (env : Env Value) : Prop := ∀ v, Reachable env v → v.BodyBound

/-- The value and everything that it reaches have bound bodies. -/
structure Value.WellScoped (v : Value) : Prop where
  body : v.BodyBound
  held : ∀ env, v.held? = some env → env.WellScoped

theorem Reachable.trans {env inner : Env Value} {f v : Value} (hf : Reachable env f)
    (hheld : f.held? = some inner) (hv : Reachable inner v) : Reachable env v := by
  induction hv with
  | bound hlookup => exact .held hf hheld hlookup
  | held _ hheld' hlookup ih => exact .held ih hheld' hlookup

/-- An environment is well scoped exactly if each of its visible bindings is. -/
theorem Env.wellScoped_iff {env : Env Value} :
    env.WellScoped ↔ ∀ name v, env.lookup? name = some v → v.WellScoped := by
  constructor
  · intro henv name v hlookup
    have hv : Reachable env v := .bound hlookup
    exact ⟨henv v hv, fun inner hheld w hw => henv w (hv.trans hheld hw)⟩
  · intro hvalues v hv
    -- every function on the way to `v` is well scoped, so `v` is
    have hscoped : v.WellScoped := by
      induction hv with
      | bound hlookup => exact hvalues _ _ hlookup
      | held _ hheld hlookup ih =>
          have hinner : Env.WellScoped _ := ih.held _ hheld
          refine ⟨hinner _ (.bound hlookup), fun inner' hheld' w hw => ?_⟩
          exact hinner w (Reachable.trans (.bound hlookup) hheld' hw)
    exact hscoped.body

theorem Env.wellScoped_empty : (∅ : Env Value).WellScoped := by
  rw [Env.wellScoped_iff]
  intro name v hlookup
  cases hlookup

theorem Env.WellScoped.update {env : Env Value} (henv : env.WellScoped) (name : String)
    {v : Value} (hv : v.WellScoped) : (env.update name v).WellScoped := by
  rw [Env.wellScoped_iff] at henv ⊢
  intro other w hlookup
  rw [Env.lookup?_update] at hlookup
  by_cases hname : other = name
  · rw [if_pos hname] at hlookup
    cases hlookup
    exact hv
  · rw [if_neg hname] at hlookup
    exact henv other w hlookup

/-! ## Calls -/

/-- Every free name of the expression is bound. -/
def Expr.BoundIn (e : Expr) (env : Env Value) : Prop :=
  ∀ name ∈ e.freeNames, env.contains name = true

theorem Expr.boundIn_update {e : Expr} {env : Env Value} {binder : String} {v : Value}
    (h : ∀ name ∈ e.freeNames, name = binder ∨ env.contains name = true) :
    e.BoundIn (env.update binder v) := by
  intro name hmem
  exact Env.contains_update_iff.mpr (h name hmem)

/-- A function's body is bound where it runs.  The order in which a recursive function's name and
its parameter are bound does not matter for this. -/
theorem Value.WellScoped.enter {f arg : Value} (hf : f.WellScoped) (harg : arg.WellScoped)
    {env : Env Value} {body : Expr} (henter : f.enter? arg = some (env, body)) :
    env.WellScoped ∧ body.BoundIn env := by
  have hself := hf
  cases f with
  | int n => cases henter
  | bool b => cases henter
  | closure inner param body =>
      cases henter
      have hinner : inner.WellScoped := hf.held inner rfl
      exact ⟨hinner.update param harg, Expr.boundIn_update hf.body⟩
  | recClosure inner func param body =>
      cases henter
      have hinner : inner.WellScoped := hf.held inner rfl
      refine ⟨(hinner.update func hself).update param harg, Expr.boundIn_update ?_⟩
      intro name hmem
      have hname : name = param ∨ name = func ∨ inner.contains name = true := hf.body name hmem
      exact hname.imp_right Env.contains_update_iff.mpr

/-! ## Evaluation stays in scope -/

/-- The result is no failed lookup, and a value is well scoped. -/
abbrev InScope : Except Halt Value → Prop :=
  Ensures Value.WellScoped fun cause => ∀ name, cause ≠ .unbound name

theorem Value.wellScoped_int (n : Int64) : (Value.int n).WellScoped := ⟨trivial, nofun⟩

theorem Value.wellScoped_bool (b : Bool) : (Value.bool b).WellScoped := ⟨trivial, nofun⟩

theorem Op.inScope_run (o : Op) (l r : Value) : InScope ((o.run l r).mapError .error) := by
  rcases o.run_cases l r with hillegal | ⟨a, x, y, harith⟩ | ⟨b, hbool⟩
  · rw [hillegal]
    intro name hname
    cases hname
  · rw [harith]
    cases hrun : a.run x y with
    | ok n => exact Value.wellScoped_int n
    | error cause =>
        intro name hname
        have hcause : cause.IsArithmetic := Arith.isArithmetic_of_run hrun
        rcases hcause with rfl | ⟨o, rfl⟩
        · cases hname
        · cases hname
  · rw [hbool]
    exact Value.wellScoped_bool b

/-- One expression stays in scope if the calls it makes do. -/
theorem Expr.inScope_evalWith {call : Value → Value → Except Halt Value}
    (hcall : ∀ f arg, f.WellScoped → arg.WellScoped → InScope (call f arg))
    (e : Expr) {env : Env Value} (henv : env.WellScoped) (hbound : e.BoundIn env) :
    InScope (e.evalWith call env) := by
  induction e generalizing env with
  | int n => exact Value.wellScoped_int n
  | bool b => exact Value.wellScoped_bool b
  | var name =>
      have hname : (env.lookup? name).isSome = true := hbound name List.mem_cons_self
      obtain ⟨v, hv⟩ := Option.isSome_iff_exists.mp hname
      simp only [evalWith, hv]
      exact Env.wellScoped_iff.mp henv name v hv
  | op o lhs rhs ihl ihr =>
      rw [evalWith_op]
      obtain ⟨hl, hr⟩ := forall_freeNames_op.mp hbound
      exact (ihl henv hl).bind fun l _ => (ihr henv hr).bind fun r _ => o.inScope_run l r
  | ite cond thn els ihc iht ihe =>
      rw [evalWith_ite]
      obtain ⟨hc, ht, he⟩ := forall_freeNames_ite.mp hbound
      refine (ihc henv hc).bind fun c _ => ?_
      split
      · exact iht henv ht
      · exact ihe henv he
      · intro name hname
        cases hname
  | letIn binder bindee tail ihb iht =>
      rw [evalWith_letIn]
      obtain ⟨hb, ht⟩ := forall_freeNames_letIn.mp hbound
      refine (ihb henv hb).bind fun v hv => ?_
      exact iht (henv.update binder hv) (boundIn_update ht)
  | letRec func param _ _ body tail _ iht =>
      obtain ⟨hb, ht⟩ := forall_freeNames_letRec.mp hbound
      have hself : (Value.recClosure env func param body).WellScoped :=
        ⟨hb, fun inner hheld => Option.some.inj hheld ▸ henv⟩
      exact iht (henv.update func hself) (boundIn_update ht)
  | abs param _ body _ =>
      have hb := forall_freeNames_abs.mp hbound
      exact ⟨hb, fun inner hheld => Option.some.inj hheld ▸ henv⟩
  | app func arg ihf iha =>
      rw [evalWith_app]
      obtain ⟨hf, ha⟩ := forall_freeNames_app.mp hbound
      refine (ihf henv hf).bind fun f hscoped => (iha henv ha).bind fun a hscoped' => ?_
      exact hcall f a hscoped hscoped'

/-- Calls stay in scope at every depth, by induction on the depth. -/
theorem inScope_apply (depth : Nat) (f arg : Value) (hf : f.WellScoped) (harg : arg.WellScoped) :
    InScope (apply depth f arg) := by
  induction depth using Nat.strongRecOn generalizing f arg with
  | ind depth ih =>
      cases henter : f.enter? arg with
      | none =>
          rw [apply_of_enter_none henter]
          intro name hname
          cases hname
      | some entry =>
          obtain ⟨henv, hbound⟩ := hf.enter harg henter
          cases depth with
          | zero =>
              rw [apply_zero_of_enter henter]
              trivial
          | succ depth =>
              rw [apply_succ_of_enter henter]
              exact entry.2.inScope_evalWith (ih depth (Nat.lt_succ_self depth)) henv hbound

theorem Expr.inScope_eval {e : Expr} {scope : List String} {env : Env Value}
    (hfree : e.freeVar? scope = none) (hscope : ∀ name ∈ scope, env.contains name = true)
    (henv : env.WellScoped) (depth : Nat) : InScope (e.eval depth env) := by
  have hbound : e.BoundIn env := by
    intro name hmem
    exact hscope name (freeVar?_eq_none_iff.mp hfree name hmem)
  exact e.inScope_evalWith (inScope_apply depth) henv hbound

theorem Expr.freeVar?_of_resolve {e : Expr} (h : e.resolve = .ok ()) : e.freeVar? [] = none := by
  unfold resolve at h
  split at h
  · cases h
  · next hfree => exact hfree

/-- An expression that passes the scope check, in a well-scoped environment that binds its scope,
never fails for an unbound name, and its value is well scoped.  So no program ever fails in
evaluation for an unbound name, whatever type was found for it. -/
theorem eval_stays_in_scope :
    (∀ (e : Expr) (scope : List String) (env : Env Value) (depth : Nat),
      e.freeVar? scope = none → (∀ name ∈ scope, env.contains name = true) → env.WellScoped →
        (∀ name, e.eval depth env ≠ .error (.error (.unbound name))) ∧
          ∀ v, e.eval depth env = .ok v → v.WellScoped) ∧
      ∀ (depth : Nat) (source name : String),
        Program.run depth source ≠ .error (.eval (.unbound name)) := by
  constructor
  · intro e scope env depth hfree hscope henv
    have hin : InScope (e.eval depth env) := Expr.inScope_eval hfree hscope henv depth
    constructor
    · intro name heval
      rw [heval] at hin
      exact hin name rfl
    · intro v heval
      rw [heval] at hin
      exact hin
  · intro depth source name hrun
    obtain ⟨e, ty, hcheck, heval⟩ := Program.run_eq_eval_error hrun
    have hfree : e.freeVar? [] = none := Expr.freeVar?_of_resolve (Program.check_eq_ok hcheck).2.1
    have hin : InScope (e.eval depth ∅) := Expr.inScope_eval hfree nofun Env.wellScoped_empty depth
    rw [heval] at hin
    exact hin name rfl

/-- `if n < step then step else count (n - step)`, a recursive function that also needs a name of
the environment it holds. -/
def countdown : Value :=
  .recClosure ((∅ : Env Value).update "step" (.int 1)) "count" "n"
    (.ite (.op (.cmp .lt) (.var "n") (.var "step")) (.var "step")
      (.app (.var "count") (.op (.arith .sub) (.var "n") (.var "step"))))

theorem wellScoped_countdown : countdown.WellScoped := by
  constructor
  · show ∀ name ∈ ["n", "step", "step", "count", "n", "step"], _
    simp [Env.contains_update_iff]
  · intro env hheld
    cases hheld
    exact Env.wellScoped_empty.update "step" (Value.wellScoped_int 1)

/-- `fun (g: any) -> fun (u: any) -> g 2`, applied to a function from the environment: its value is
a function that keeps both environments.  The checker gives up on it. -/
def keptCountdown : Expr :=
  .app (.abs "g" .any (.abs "u" .any (.app (.var "g") (.int 2)))) (.var "k")

theorem eval_stays_in_scope_keptCountdown :
    keptCountdown.freeVar? ["k"] = none ∧ keptCountdown.typed = .ok .any ∧
      (∀ name, keptCountdown.eval 1 ((∅ : Env Value).update "k" countdown) ≠
        .error (.error (.unbound name))) ∧
      (∃ v, keptCountdown.eval 1 ((∅ : Env Value).update "k" countdown) = .ok v ∧ v.WellScoped) ∧
      Program.run 1 "(fun (g: any) -> g) (fun (u: any) -> u) u" ≠
        .error (.eval (.unbound "u")) := by
  have hfree : keptCountdown.freeVar? ["k"] = none := by decide
  have hscope : ∀ name ∈ ["k"], ((∅ : Env Value).update "k" countdown).contains name = true := by
    simp [Env.contains_update_iff]
  have henv : ((∅ : Env Value).update "k" countdown).WellScoped :=
    Env.wellScoped_empty.update "k" wellScoped_countdown
  obtain ⟨hne, hvalue⟩ := eval_stays_in_scope.1 keptCountdown ["k"] _ 1 hfree hscope henv
  exact ⟨hfree, rfl, hne, ⟨_, rfl, hvalue _ rfl⟩, eval_stays_in_scope.2 1 _ "u"⟩

end LambdaAny
