import LambdaAny.Eval
import LambdaAny.Proofs.FreeNames
import LambdaAny.Proofs.SimpleTyping

/-!
# Relevant bindings

Only the bindings of free names matter.  Two contexts that agree on the free names of an expression
give it the same type or the same error, and two environments that agree on them give it the same
result.  Bindings of other names, hidden bindings and the order of bindings show nowhere.

For evaluation agreement cannot mean equality: the functions among the results hold the environments
they were made in, and these differ.  Two functions are alike if they have the same parameter and
body and hold environments in which the names that the body can look up are alike in turn.
-/

namespace LambdaAny

open Typing

/-! ## Typing -/

theorem Expr.infer_congr {e : Expr} {ctx ctx' : Ctx}
    (h : ∀ name ∈ e.freeNames, ctx.RelatedAt Eq ctx' name) : e.infer ctx = e.infer ctx' := by
  induction e generalizing ctx ctx' with
  | int n => rfl
  | bool b => rfl
  | var name =>
      rw [infer_var, infer_var]
      rcases (h name List.mem_cons_self).lookup with ⟨hnone, hnone'⟩ | ⟨ty, _, hty, hty', rfl⟩
      · rw [hnone, hnone']
      · rw [hty, hty']
  | op o lhs rhs ihl ihr =>
      obtain ⟨hl, hr⟩ := forall_freeNames_op.mp h
      rw [infer_op, infer_op, ihl hl, ihr hr]
  | ite cond thn els ihc iht ihe =>
      obtain ⟨hc, ht, he⟩ := forall_freeNames_ite.mp h
      rw [infer_ite, infer_ite, ihc hc, iht ht, ihe he]
  | letIn binder bindee tail ihb iht =>
      obtain ⟨hb, ht⟩ := forall_freeNames_letIn.mp h
      rw [infer_letIn, infer_letIn, ihb hb]
      congr 1
      funext bound
      exact iht fun name hmem => .update (ht name hmem) rfl
  | letRec func param paramTy ret body tail ihb iht =>
      obtain ⟨hb, ht⟩ := forall_freeNames_letRec.mp h
      have hbody : body.infer (bodyCtx ctx func param paramTy ret) =
          body.infer (bodyCtx ctx' func param paramTy ret) := by
        apply ihb
        intro name hmem
        -- the context binds the function last, while the free names lose the parameter first
        have hname := or_left_comm.mp (hb name hmem)
        exact .update (hname.imp_right fun hname => .update hname rfl) rfl
      have htail : tail.infer (ctx.update func (.arrow paramTy ret)) =
          tail.infer (ctx'.update func (.arrow paramTy ret)) :=
        iht fun name hmem => .update (ht name hmem) rfl
      rw [infer_letRec, infer_letRec, hbody, htail]
  | abs param dom body ihb =>
      have hb := forall_freeNames_abs.mp h
      rw [infer_abs, infer_abs, ihb fun name hmem => .update (hb name hmem) rfl]
  | app func arg ihf iha =>
      obtain ⟨hf, ha⟩ := forall_freeNames_app.mp h
      rw [infer_app, infer_app, ihf hf, iha ha]

/-! ## Values -/

/-- Values that no evaluation tells apart.

What is asked of two environments says `env.RelatedAt Alike env' name`, which cannot be written
before `Alike` is defined. -/
inductive Alike : Value → Value → Prop
  | int (n : Int64) : Alike (.int n) (.int n)
  | bool (b : Bool) : Alike (.bool b) (.bool b)
  | closure {env env' : Env Value} {param : String} {body : Expr}
      (henv : ∀ name ∈ body.freeNames, name ≠ param →
        Option.Rel Alike (env.lookup? name) (env'.lookup? name)) :
      Alike (.closure env param body) (.closure env' param body)
  | recClosure {env env' : Env Value} {func param : String} {body : Expr}
      (henv : ∀ name ∈ body.freeNames, name ≠ param → name ≠ func →
        Option.Rel Alike (env.lookup? name) (env'.lookup? name)) :
      Alike (.recClosure env func param body) (.recClosure env' func param body)

theorem Env.sizeOf_lt_of_lookup? {env : Env Value} {name : String} {v : Value}
    (h : env.lookup? name = some v) : sizeOf v < sizeOf env := by
  obtain ⟨before, after, hsplit, _⟩ := List.lookup_eq_some_iff.mp h
  have hmem : (name, v) ∈ env.bindings := by
    rw [hsplit]
    exact List.mem_append_cons_self
  have hentry : sizeOf (name, v) < sizeOf env.bindings := List.sizeOf_lt_of_mem hmem
  obtain ⟨bindings⟩ := env
  simp only [Prod.mk.sizeOf_spec, Env.mk.sizeOf_spec] at hentry ⊢
  omega

namespace Alike

variable {v v' l l' r r' f f' a a' : Value}

/-- By recursion on the value: what an environment binds is smaller than the function that holds
it. -/
protected theorem refl : ∀ v : Value, Alike v v
  | .int n => .int n
  | .bool b => .bool b
  | .closure env param body => .closure fun name _ _ =>
      Env.relatedAt_of_lookup?_eq rfl fun v hv => by
        have hlt := Env.sizeOf_lt_of_lookup? hv
        exact Alike.refl v
  | .recClosure env func param body => .recClosure fun name _ _ _ =>
      Env.relatedAt_of_lookup?_eq rfl fun v hv => by
        have hlt := Env.sizeOf_lt_of_lookup? hv
        exact Alike.refl v

theorem text_eq (h : Alike v v') : v.text = v'.text := by
  cases h with
  | int n => rfl
  | bool b => rfl
  | closure _ => rfl
  | recClosure _ => rfl

theorem toBool?_eq (h : Alike v v') : v.toBool? = v'.toBool? := by
  cases h with
  | int n => rfl
  | bool b => rfl
  | closure _ => rfl
  | recClosure _ => rfl

theorem toInt?_eq (h : Alike v v') : v.toInt? = v'.toInt? := by
  cases h with
  | int n => rfl
  | bool b => rfl
  | closure _ => rfl
  | recClosure _ => rfl

theorem seenAlike : SeenAlike Alike where
  int := .int
  bool := .bool
  text_eq _ _ := text_eq
  toInt?_eq _ _ := toInt?_eq
  toBool?_eq _ _ := toBool?_eq

/-- Functions that are alike enter the same body, in environments in which its free names are
alike. -/
theorem enter (hf : Alike f f') (ha : Alike a a') :
    f.enter? a = none ∧ f'.enter? a' = none ∨
      ∃ entry entry', f.enter? a = some entry ∧ f'.enter? a' = some entry' ∧
        entry.2 = entry'.2 ∧ ∀ name ∈ entry.2.freeNames, entry.1.RelatedAt Alike entry'.1 name := by
  have hself := hf
  cases hf with
  | int n => exact .inl ⟨rfl, rfl⟩
  | bool b => exact .inl ⟨rfl, rfl⟩
  | closure henv =>
      refine .inr ⟨_, _, rfl, rfl, rfl, fun name hmem => .update ?_ ha⟩
      exact Decidable.or_iff_not_imp_left.mpr (henv name hmem)
  | recClosure henv =>
      refine .inr ⟨_, _, rfl, rfl, rfl, fun name hmem => .update ?_ ha⟩
      refine Decidable.or_iff_not_imp_left.mpr fun hparam => .update ?_ hself
      exact Decidable.or_iff_not_imp_left.mpr (henv name hmem hparam)

end Alike

/-! ## Evaluation -/

/-- One expression gives the same outcome in two environments if the calls it makes do. -/
theorem Expr.sameOutcome_evalWith {call call' : Value → Value → Except Halt Value}
    (hcall : SameCalls Alike call call')
    (e : Expr) {env env' : Env Value} (henv : ∀ name ∈ e.freeNames, env.RelatedAt Alike env' name) :
    SameOutcome Alike (e.evalWith call env) (e.evalWith call' env') := by
  induction e generalizing env env' with
  | int n => exact .value (.int n)
  | bool b => exact .value (.bool b)
  | var name =>
      simp only [evalWith]
      rcases (henv name List.mem_cons_self).lookup with ⟨hnone, hnone'⟩ | ⟨v, v', hv, hv', hvalues⟩
      · rw [hnone, hnone']
        exact .halt _
      · rw [hv, hv']
        exact .value hvalues
  | op o lhs rhs ihl ihr =>
      rw [evalWith_op, evalWith_op]
      obtain ⟨hl, hr⟩ := forall_freeNames_op.mp henv
      exact (ihl hl).bind fun l l' hleft => (ihr hr).bind fun r r' hright =>
        Alike.seenAlike.run_op hleft hright o
  | ite cond thn els ihc iht ihe =>
      rw [evalWith_ite, evalWith_ite]
      obtain ⟨hc, ht, he⟩ := forall_freeNames_ite.mp henv
      refine (ihc hc).bind fun c c' hcond => ?_
      rw [hcond.toBool?_eq, hcond.text_eq]
      split
      · exact iht ht
      · exact ihe he
      · exact .halt _
  | letIn binder bindee tail ihb iht =>
      rw [evalWith_letIn, evalWith_letIn]
      obtain ⟨hb, ht⟩ := forall_freeNames_letIn.mp henv
      refine (ihb hb).bind fun v v' hv => ?_
      exact iht fun name hmem => .update (ht name hmem) hv
  | letRec func param _ _ body tail _ iht =>
      obtain ⟨hb, ht⟩ := forall_freeNames_letRec.mp henv
      have hself : Alike (.recClosure env func param body) (.recClosure env' func param body) :=
        .recClosure fun name hmem hparam hfunc =>
          ((hb name hmem).resolve_left hparam).resolve_left hfunc
      exact iht fun name hmem => .update (ht name hmem) hself
  | abs param _ body _ =>
      have hb := forall_freeNames_abs.mp henv
      exact .value (.closure fun name hmem hparam => (hb name hmem).resolve_left hparam)
  | app func arg ihf iha =>
      rw [evalWith_app, evalWith_app]
      obtain ⟨hf, ha⟩ := forall_freeNames_app.mp henv
      refine (ihf hf).bind fun f f' hfunc => (iha ha).bind fun a a' harg => ?_
      exact hcall f f' a a' hfunc harg

theorem sameOutcome_apply (depth : Nat) : SameCalls Alike (apply depth) (apply depth) := by
  refine sameCalls_apply Alike.seenAlike (fun f f' a a' hf ha => hf.enter ha) ?_ depth
  rintro call call' hcall ⟨env, body⟩ ⟨env', _⟩ ⟨rfl, henv⟩
  exact body.sameOutcome_evalWith hcall henv

theorem SameOutcome.text_eq {result result' : Except Halt Value}
    (h : SameOutcome Alike result result') : result.map Value.text = result'.map Value.text :=
  h.map_text_eq fun _ _ => Alike.text_eq

/-- Contexts with the same bindings of the free names give an expression the same type or the same
error.  Environments whose bindings of the free names are alike give, at every depth, the same
failure or values that are alike.  So two environments in which the free names have the same values
give results that look the same, whatever else they bind, in whatever order. -/
theorem only_free_names_matter (e : Expr) :
    (∀ ctx ctx' : Ctx, (∀ name ∈ e.freeNames, ctx.lookup? name = ctx'.lookup? name) →
      e.infer ctx = e.infer ctx') ∧
    (∀ env env' : Env Value, (∀ name ∈ e.freeNames, env.RelatedAt Alike env' name) →
      ∀ depth, SameOutcome Alike (e.eval depth env) (e.eval depth env')) ∧
    ∀ env env' : Env Value, (∀ name ∈ e.freeNames, env.lookup? name = env'.lookup? name) →
      ∀ depth, SameOutcome Alike (e.eval depth env) (e.eval depth env') ∧
        (e.eval depth env).map Value.text = (e.eval depth env').map Value.text := by
  refine ⟨?_, ?_, ?_⟩
  · intro ctx ctx' hctx
    exact Expr.infer_congr fun name hmem =>
      Env.relatedAt_of_lookup?_eq (hctx name hmem) fun _ _ => rfl
  · intro env env' henv depth
    exact e.sameOutcome_evalWith (sameOutcome_apply depth) henv
  · intro env env' henv depth
    have hsame : SameOutcome Alike (e.eval depth env) (e.eval depth env') :=
      e.sameOutcome_evalWith (sameOutcome_apply depth) fun name hmem =>
        Env.relatedAt_of_lookup?_eq (henv name hmem) fun v _ => .refl v
    exact ⟨hsame, hsame.text_eq⟩

/-- `let rec count (n: int): int = if n < step then n else count (n - step)`, made in an environment
where it finds `step`. -/
def remainderFrom (env : Env Value) : Value :=
  .recClosure env "count" "n"
    (.ite (.op (.cmp .lt) (.var "n") (.var "step")) (.var "n")
      (.app (.var "count") (.op (.arith .sub) (.var "n") (.var "step"))))

/-- `let n = 5 in (fun (m: int) -> g n + m) 1`, of which only `g` is free. -/
def remainderOfFive : Expr :=
  .letIn "n" (.int 5)
    (.app (.abs "m" .int (.op (.arith .add) (.app (.var "g") (.var "n")) (.var "m"))) (.int 1))

/-- Binds a name that is not free, and `g` to a function whose environment binds its parameter. -/
def crowdedEnv : Env Value :=
  ((∅ : Env Value).update "g"
    (remainderFrom (((∅ : Env Value).update "step" (.int 2)).update "n" (.int 7)))).update "m"
    (.bool true)

/-- Binds `g` twice. -/
def shadowingEnv : Env Value :=
  ((∅ : Env Value).update "g" (.int 0)).update "g"
    (remainderFrom ((∅ : Env Value).update "step" (.int 2)))

theorem only_free_names_matter_remainderOfFive :
    (∀ name ∈ remainderOfFive.freeNames, crowdedEnv.RelatedAt Alike shadowingEnv name) ∧
      SameOutcome Alike (remainderOfFive.eval 4 crowdedEnv) (remainderOfFive.eval 4 shadowingEnv) ∧
      (remainderOfFive.eval 4 crowdedEnv).toOption.bind Value.toInt? = some 2 ∧
      (remainderOfFive.eval 4 crowdedEnv).map Value.text =
        (remainderOfFive.eval 4 (crowdedEnv.update "step" (.int 0))).map Value.text ∧
      remainderOfFive.infer ((∅ : Ctx).update "g" (.arrow .int .bool)) =
        remainderOfFive.infer (((∅ : Ctx).update "g" .any).update "g" (.arrow .int .bool)) := by
  have hfree : remainderOfFive.freeNames = ["g"] := by decide
  have halike : Alike (remainderFrom (((∅ : Env Value).update "step" (.int 2)).update "n" (.int 7)))
      (remainderFrom ((∅ : Env Value).update "step" (.int 2))) := by
    refine .recClosure fun name _ hparam _ => ?_
    exact Env.relatedAt_of_lookup?_eq (Env.lookup?_update_of_ne hparam _ _) fun v _ => .refl v
  have henv : ∀ name ∈ remainderOfFive.freeNames, crowdedEnv.RelatedAt Alike shadowingEnv name := by
    rw [hfree, List.forall_mem_singleton]
    exact .some halike
  obtain ⟨htyping, heval, hequal⟩ := only_free_names_matter remainderOfFive
  refine ⟨henv, heval _ _ henv 4, by decide, (hequal _ _ ?_ 4).2, htyping _ _ ?_⟩
  · rw [hfree, List.forall_mem_singleton]
    rfl
  · rw [hfree, List.forall_mem_singleton]
    rfl

end LambdaAny
