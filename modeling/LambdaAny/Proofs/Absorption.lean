import LambdaAny.Proofs.SimpleTyping

/-!
# Absorption

To bind names to `any` can only make the checker give up.  Whatever it found before, a type or an
error, it finds again, or it finds `any`.

This is about contexts.  An annotation that is changed to `any` also changes the type of the
function it stands on, and that type is compared with others; then an error may come up that was not
there.
-/

namespace LambdaAny

open Typing

namespace Typing

/-- The second result is the first one, or `any`. -/
def KeptOrAny (result result' : Typed) : Prop := result' = result ∨ result' = .ok .any

namespace KeptOrAny

theorem refl (result : Typed) : KeptOrAny result result := .inl rfl

theorem absorb {l l' r r' : Typed} (hl : KeptOrAny l l') (hr : KeptOrAny r r')
    (rule : Ty → Ty → Typed) : KeptOrAny (absorb rule l r) (absorb rule l' r') := by
  rcases hl with rfl | hl
  · rcases hr with rfl | hr
    · exact .refl _
    · exact .inr (absorb_any (.inr hr) rule)
  · exact .inr (absorb_any (.inl hl) rule)

theorem settle {result result' : Typed} {next next' : Ty → Typed} (h : KeptOrAny result result')
    (hnext : ∀ ty, KeptOrAny (next ty) (next' ty)) :
    KeptOrAny (settle result next) (settle result' next') := by
  rcases h with rfl | rfl
  · cases result' with
    | error err => exact .refl _
    | ok ty =>
        -- the rest differs, but it is not looked at if this was `any` already
        by_cases hany : ty = .any
        · rw [hany]
          exact .inr rfl
        · rw [settle_ok hany, settle_ok hany]
          exact hnext ty
  · exact .inr rfl

end KeptOrAny
end Typing

/-- The second context is the first one with `any` for some names, which the first need not bind. -/
def ForgetsTypes (ctx ctx' : Ctx) : Prop :=
  ∀ name, ctx'.lookup? name = ctx.lookup? name ∨ ctx'.lookup? name = some .any

theorem forgetsTypes_update_any (ctx : Ctx) (name : String) :
    ForgetsTypes ctx (ctx.update name .any) := by
  intro other
  rw [Env.lookup?_update]
  by_cases hname : other = name
  · exact .inr (if_pos hname)
  · exact .inl (if_neg hname)

/-- A binder hides what was forgotten about its name. -/
theorem ForgetsTypes.update {ctx ctx' : Ctx} (h : ForgetsTypes ctx ctx') (name : String) (ty : Ty) :
    ForgetsTypes (ctx.update name ty) (ctx'.update name ty) := by
  intro other
  rw [Env.lookup?_update, Env.lookup?_update]
  by_cases hname : other = name
  · rw [if_pos hname, if_pos hname]
    exact .inl rfl
  · rw [if_neg hname, if_neg hname]
    exact h other

/-- By induction on the expression.  At each node the parts found what they found before, or one of
them has become `any` and takes the node with it. -/
theorem ForgetsTypes.infer {ctx ctx' : Ctx} (h : ForgetsTypes ctx ctx') (e : Expr) :
    KeptOrAny (e.infer ctx) (e.infer ctx') := by
  induction e generalizing ctx ctx' with
  | int n => exact .refl _
  | bool b => exact .refl _
  | var name =>
      rw [infer_var, infer_var]
      rcases h name with hkept | hany
      · rw [hkept]
        exact .refl _
      · rw [hany]
        exact .inr rfl
  | op o lhs rhs ihl ihr => exact (ihl h).absorb (ihr h) (opTy o)
  | ite cond thn els ihc iht ihe =>
      rcases ihc h with hc | hc
      · rcases iht h with ht | ht
        · rcases ihe h with he | he
          · rw [infer_ite, infer_ite, hc, ht, he]
            exact .refl _
          · exact .inr (infer_ite_any _ (.inr (.inr he)))
        · exact .inr (infer_ite_any _ (.inr (.inl ht)))
      · exact .inr (infer_ite_any _ (.inl hc))
  | letIn binder bindee tail ihb iht =>
      rw [infer_letIn, infer_letIn]
      exact (ihb h).settle fun bound => iht (h.update binder bound)
  | letRec func param paramTy ret body tail ihb iht =>
      have hbody := ihb ((h.update param paramTy).update func (.arrow paramTy ret))
      rw [infer_letRec, infer_letRec]
      refine hbody.settle fun found => ?_
      by_cases hret : found = ret
      · rw [if_pos hret, if_pos hret]
        exact iht (h.update func (.arrow paramTy ret))
      · rw [if_neg hret, if_neg hret]
        exact .refl _
  | abs param dom body ihb =>
      rw [infer_abs, infer_abs]
      exact (ihb (h.update param dom)).settle fun cod => .refl _
  | app func arg ihf iha => exact (ihf h).absorb (iha h) appTy

/-- With `any` for one more name the checker finds what it found without, error or type, or it finds
`any`.  So with `any` for any number of names an accepted expression stays accepted, and a type
other than `any` is the type it had. -/
theorem any_only_absorbs (e : Expr) :
    (∀ (ctx : Ctx) (name : String),
      e.infer (ctx.update name .any) = e.infer ctx ∨ e.infer (ctx.update name .any) = .ok .any) ∧
    ∀ ctx ctx' : Ctx, ForgetsTypes ctx ctx' →
      (e.infer ctx' = e.infer ctx ∨ e.infer ctx' = .ok .any) ∧
      ∀ ty, e.infer ctx = .ok ty → ∃ ty', e.infer ctx' = .ok ty' ∧ (ty' ≠ .any → ty' = ty) := by
  constructor
  · intro ctx name
    exact (forgetsTypes_update_any ctx name).infer e
  · intro ctx ctx' h
    refine ⟨h.infer e, fun ty hty => ?_⟩
    rcases h.infer e with hkept | hany
    · exact ⟨ty, hkept.trans hty, fun _ => rfl⟩
    · exact ⟨.any, hany, fun hne => absurd rfl hne⟩

/-- `let y = f 1 in if y < 2 then fun (x: int) -> x else fun (x: int) -> x + z`, with a parameter
that hides an outer `x`. -/
def hidesOuter : Expr :=
  .letIn "y" (.app (.var "f") (.int 1))
    (.ite (.op (.cmp .lt) (.var "y") (.int 2)) (.abs "x" .int (.var "x"))
      (.abs "x" .int (.op (.arith .add) (.var "x") (.var "z"))))

def hidesOuterCtx : Ctx := ((∅ : Ctx).update "f" (.arrow .int .int)).update "z" .int

/-- `any` for `x` changes nothing, since every use of `x` is one of the parameter; `any` for `z`
makes the checker give up, and `any` for `f` does too, at the `let`. -/
theorem any_only_absorbs_hidesOuter :
    hidesOuter.infer hidesOuterCtx = .ok (.arrow .int .int) ∧
      (∃ ty, hidesOuter.infer (hidesOuterCtx.update "x" .any) = .ok ty ∧
        (ty ≠ .any → ty = .arrow .int .int)) ∧
      hidesOuter.infer (hidesOuterCtx.update "x" .any) = .ok (.arrow .int .int) ∧
      hidesOuter.infer (hidesOuterCtx.update "z" .any) = .ok .any ∧
      hidesOuter.infer (hidesOuterCtx.update "f" .any) = .ok .any := by
  have hforgets := forgetsTypes_update_any hidesOuterCtx "x"
  have hkept := ((any_only_absorbs hidesOuter).2 hidesOuterCtx _ hforgets).2 (.arrow .int .int) rfl
  exact ⟨rfl, hkept, rfl, rfl, rfl⟩

end LambdaAny
