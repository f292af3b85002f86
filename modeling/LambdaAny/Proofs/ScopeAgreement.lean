import LambdaAny.Proofs.FirstTypeError
import LambdaAny.Proofs.ScopeSafety

/-!
# Scope and typing agree on unbound names

The scope check and the checker walk an expression by rules of their own.  The one stops at the
first name that nothing binds; the other types whatever it comes to, gives up where a part has type
`any`, and reports what is wrong first.  Where both have something to say about an unbound name they
agree: a type other than `any` means that there is none, and an unbound name that the checker
reports is the one that the scope check finds.

The scope check may find a name of which the checker says nothing, behind another error or beside a
part of type `any`.
-/

namespace LambdaAny

open Typing

/-- The scope holds exactly the names that the environment binds. -/
def Env.HasScope {α : Type} (env : Env α) (scope : List String) : Prop :=
  ∀ name, name ∈ scope ↔ env.contains name = true

namespace Env.HasScope

theorem of_empty {α : Type} : (∅ : Env α).HasScope [] := by
  intro name
  constructor
  · nofun
  · nofun

theorem update {α : Type} {env : Env α} {scope : List String} (h : env.HasScope scope)
    (name : String) (a : α) : (env.update name a).HasScope (name :: scope) := by
  intro other
  rw [List.mem_cons, Env.contains_update_iff, h other]

/-- In a recursive function's body both names are in scope; the order of binding does not matter for
this. -/
theorem bodyCtx {ctx : Ctx} {scope : List String} (h : ctx.HasScope scope)
    (func param : String) (paramTy ret : Ty) :
    (Typing.bodyCtx ctx func param paramTy ret).HasScope (param :: func :: scope) := by
  intro other
  rw [Typing.bodyCtx, Env.contains_update_iff, Env.contains_update_iff, List.mem_cons,
    List.mem_cons, h other]
  exact or_left_comm

end Env.HasScope

/-! ## Typed expressions have nothing unbound -/

theorem HasType.freeNames_bound {ctx : Ctx} {e : Expr} {ty : Ty} (h : HasType ctx e ty) :
    ∀ name ∈ e.freeNames, ctx.contains name = true := by
  induction h with
  | int n => nofun
  | bool b => nofun
  | var hlookup _ =>
      intro name hmem
      obtain rfl := List.mem_singleton.mp hmem
      rw [Env.contains, hlookup, Option.isSome_some]
  | arith _ _ ihl ihr => exact Expr.forall_freeNames_op.mpr ⟨ihl, ihr⟩
  | cmpInt _ _ ihl ihr => exact Expr.forall_freeNames_op.mpr ⟨ihl, ihr⟩
  | cmpBool _ _ ihl ihr => exact Expr.forall_freeNames_op.mpr ⟨ihl, ihr⟩
  | ite _ _ _ ihc iht ihe => exact Expr.forall_freeNames_ite.mpr ⟨ihc, iht, ihe⟩
  | letIn _ _ ihb iht =>
      refine Expr.forall_freeNames_letIn.mpr ⟨ihb, fun name hmem => ?_⟩
      exact Env.contains_update_iff.mp (iht name hmem)
  | letRec _ _ ihb iht =>
      refine Expr.forall_freeNames_letRec.mpr ⟨fun name hmem => ?_, fun name hmem => ?_⟩
      · have hname := Env.contains_update_iff.mp (ihb name hmem)
        exact or_left_comm.mp (hname.imp_right Env.contains_update_iff.mp)
      · exact Env.contains_update_iff.mp (iht name hmem)
  | abs _ ihb =>
      refine Expr.forall_freeNames_abs.mpr fun name hmem => ?_
      exact Env.contains_update_iff.mp (ihb name hmem)
  | app _ _ _ ihf iha => exact Expr.forall_freeNames_app.mpr ⟨ihf, iha⟩

theorem Expr.Synthesizes.freeVar?_eq_none {ctx : Ctx} {e : Expr} {ty : Ty}
    (h : e.Synthesizes ctx ty) {scope : List String} (hscope : ctx.HasScope scope) :
    e.freeVar? scope = none := by
  apply Expr.freeVar?_eq_none_iff.mpr
  intro name hmem
  have hbound : ctx.contains name = true := (synthesizes_iff_hasType.mp h).freeNames_bound name hmem
  exact (hscope name).mpr hbound

/-! ## Reported names are the leftmost ones -/

/-- By induction on the expression: what the checker passed before the name has nothing unbound, so
the scope check comes to the name as well. -/
theorem Expr.freeVar?_of_infer_unbound {ctx : Ctx} {e : Expr} {name : String}
    (h : e.infer ctx = .error (.unbound name)) {scope : List String}
    (hscope : ctx.HasScope scope) : e.freeVar? scope = some name := by
  induction e generalizing ctx scope with
  | int n => cases h
  | bool b => cases h
  | var other =>
      obtain ⟨hlookup, hname⟩ := infer_var_eq_error h
      cases hname
      have hmem : name ∉ scope := by
        rw [hscope name, Env.contains, hlookup]
        nofun
      rw [freeVar?, if_neg hmem]
  | op o lhs rhs ihl ihr =>
      rw [infer_op] at h
      rw [freeVar?]
      rcases absorb_eq_error h with hl | ⟨l, hl, hr | ⟨r, hr, hrule⟩⟩
      · rw [ihl hl hscope, Option.some_or]
      · rw [hl.freeVar?_eq_none hscope, Option.none_or, ihr hr hscope]
      · cases (opTy_eq_error_iff.mp hrule).2
  | ite cond thn els ihc iht ihe =>
      rw [freeVar?]
      rcases infer_ite_eq_error h with hc | ⟨c, hc, ht | ⟨t, ht, he | ⟨e, he, hrule⟩⟩⟩
      · rw [ihc hc hscope, Option.some_or]
      · rw [hc.freeVar?_eq_none hscope, Option.none_or, iht ht hscope, Option.some_or]
      · rw [hc.freeVar?_eq_none hscope, ht.freeVar?_eq_none hscope, Option.none_or, Option.none_or,
          ihe he hscope]
      · rcases iteTy_eq_error_iff.mp hrule with ⟨_, hname⟩ | ⟨_, _, hname⟩
        · cases hname
        · cases hname
  | letIn binder bindee tail ihb iht =>
      rw [infer_letIn] at h
      rw [freeVar?]
      rcases settle_eq_error h with hb | ⟨bound, hb, ht⟩
      · rw [ihb hb hscope, Option.some_or]
      · rw [hb.freeVar?_eq_none hscope, Option.none_or, iht ht (hscope.update binder bound)]
  | letRec func param paramTy ret body tail ihb iht =>
      have hbodyScope := hscope.bodyCtx func param paramTy ret
      rw [freeVar?]
      rcases infer_letRec_eq_error h with hb | ⟨found, _, _, hname⟩ | ⟨hb, ht⟩
      · rw [ihb hb hbodyScope, Option.some_or]
      · cases hname
      · rw [hb.freeVar?_eq_none hbodyScope, Option.none_or,
          iht ht (hscope.update func (.arrow paramTy ret))]
  | abs param dom body ihb => exact ihb (infer_abs_eq_error h) (hscope.update param dom)
  | app func arg ihf iha =>
      rw [infer_app] at h
      rw [freeVar?]
      rcases absorb_eq_error h with hf | ⟨f, hf, ha | ⟨a, ha, hrule⟩⟩
      · rw [ihf hf hscope, Option.some_or]
      · rw [hf.freeVar?_eq_none hscope, Option.none_or, iha ha hscope]
      · rcases appTy_eq_error_iff.mp hrule with ⟨_, hname⟩ | ⟨_, _, _, _, hname⟩
        · cases hname
        · cases hname

/-- In a scope of the names that the context binds, an expression of a type other than `any` has no
unbound name, and an unbound name that the checker reports is the first one that the scope check
finds.  So a program that is resolved never fails in typing for an unbound name. -/
theorem scope_agrees_with_typing :
    (∀ (ctx : Ctx) (scope : List String), ctx.HasScope scope → ∀ e : Expr,
      (∀ ty, e.infer ctx = .ok ty → ty ≠ .any → e.freeVar? scope = none) ∧
        ∀ name, e.infer ctx = .error (.unbound name) → e.freeVar? scope = some name) ∧
      ∀ source name, Program.check source ≠ .error (.type (.unbound name)) := by
  constructor
  · intro ctx scope hscope e
    constructor
    · intro ty hinfer hany
      exact Expr.Synthesizes.freeVar?_eq_none ⟨hinfer, hany⟩ hscope
    · intro name hinfer
      exact Expr.freeVar?_of_infer_unbound hinfer hscope
  · intro source name hcheck
    obtain ⟨e, _, hresolve, htyped⟩ := Program.check_eq_type_error hcheck
    have hfree : e.freeVar? [] = some name :=
      Expr.freeVar?_of_infer_unbound htyped Env.HasScope.of_empty
    rw [Expr.freeVar?_of_resolve hresolve] at hfree
    cases hfree

/-- `let f = fun (a: int) -> a + x in if f 1 < 2 then y else true + z`: two names are unbound, the
second of them behind another error. -/
def twoUnbound : Expr :=
  .letIn "f" (.abs "a" .int (.op (.arith .add) (.var "a") (.var "x")))
    (.ite (.op (.cmp .lt) (.app (.var "f") (.int 1)) (.int 2)) (.var "y")
      (.op (.arith .add) (.bool true) (.var "z")))

theorem scope_agrees_with_typing_twoUnbound :
    ((∅ : Ctx).update "x" .int).HasScope ["x"] ∧
      twoUnbound.infer ((∅ : Ctx).update "x" .int) = .error (.unbound "y") ∧
      twoUnbound.freeVar? ["x"] = some "y" ∧
      (Expr.abs "a" .int (.var "x")).freeVar? ["x"] = none ∧
      Program.check "fun (a: any) -> a + x" ≠ .error (.type (.unbound "x")) := by
  have hscope : ((∅ : Ctx).update "x" .int).HasScope ["x"] := Env.HasScope.of_empty.update "x" Ty.int
  have hinfer : twoUnbound.infer ((∅ : Ctx).update "x" .int) = .error (.unbound "y") := rfl
  obtain ⟨hagrees, hcheck⟩ := scope_agrees_with_typing
  refine ⟨hscope, hinfer, (hagrees _ _ hscope twoUnbound).2 "y" hinfer, ?_, hcheck _ "x"⟩
  exact (hagrees _ _ hscope (.abs "a" .int (.var "x"))).1 (.arrow .int .int) rfl nofun

end LambdaAny
