import LambdaAny.Proofs.SimpleTyping

/-!
# Exact typing

Outside `any` the checker is the simple type system and nothing more: `Expr.infer` finds a type
other than `any` exactly where the rules of `HasType` derive it.  The rules know nothing of giving
up, so no failure that `any` hides elsewhere ever reaches such a type.

The same fact is read off the parts of an expression.  `Expr.checkpoints` lists them all, each with
its context, in the order in which a checker that works from left to right settles them; an
expression of a type other than `any` passes every one.  An expression of type `any` may have parts
that fail, and nothing is said about it here.
-/

namespace LambdaAny

open Typing

/-! ## From the rules to the checker -/

/-- The checker finds a type for the expression, and one other than `any`. -/
def Expr.Synthesizes (e : Expr) (ctx : Ctx) (ty : Ty) : Prop :=
  e.infer ctx = .ok ty ∧ ty ≠ .any

section

variable {ctx : Ctx}

/-- Where no part is `any`, the rule for the node decides. -/
theorem infer_op_of_parts {lhs rhs : Expr} {l r : Ty} (hl : lhs.Synthesizes ctx l)
    (hr : rhs.Synthesizes ctx r) (o : Op) : (Expr.op o lhs rhs).infer ctx = opTy o l r := by
  rw [infer_op, hl.1, hr.1, absorb_ok hl.2 hr.2]

theorem infer_ite_of_parts {cond thn els : Expr} {c t e : Ty} (hc : cond.Synthesizes ctx c)
    (ht : thn.Synthesizes ctx t) (he : els.Synthesizes ctx e) :
    (Expr.ite cond thn els).infer ctx = iteTy c t e := by
  rw [infer_ite, hc.1, ht.1, he.1, isAny_ok_eq_false hc.2, isAny_ok_eq_false ht.2,
    isAny_ok_eq_false he.2]
  rfl

theorem infer_app_of_parts {func arg : Expr} {f a : Ty} (hf : func.Synthesizes ctx f)
    (ha : arg.Synthesizes ctx a) : (Expr.app func arg).infer ctx = appTy f a := by
  rw [infer_app, hf.1, ha.1, absorb_ok hf.2 ha.2]

end

theorem HasType.ne_any {ctx : Ctx} {e : Expr} {ty : Ty} (h : HasType ctx e ty) : ty ≠ .any := by
  induction h with
  | int n => nofun
  | bool b => nofun
  | var _ hany => exact hany
  | arith _ _ _ _ => nofun
  | cmpInt _ _ _ _ => nofun
  | cmpBool _ _ _ _ => nofun
  | ite _ _ _ _ iht _ => exact iht
  | letIn _ _ _ iht => exact iht
  | letRec _ _ _ iht => exact iht
  | abs _ _ => nofun
  | app _ _ hany _ _ => exact hany

/-- By induction on the derivation: each premise is found by the checker, and is not `any`. -/
theorem HasType.synthesizes {ctx : Ctx} {e : Expr} {ty : Ty} (h : HasType ctx e ty) :
    e.Synthesizes ctx ty := by
  refine ⟨?_, h.ne_any⟩
  induction h with
  | int n => rfl
  | bool b => rfl
  | var hlookup _ =>
      rw [infer_var, hlookup]
      rfl
  | arith hlhs hrhs ihl ihr =>
      exact infer_op_of_parts ⟨ihl, hlhs.ne_any⟩ ⟨ihr, hrhs.ne_any⟩ _
  | cmpInt hlhs hrhs ihl ihr =>
      exact infer_op_of_parts ⟨ihl, hlhs.ne_any⟩ ⟨ihr, hrhs.ne_any⟩ _
  | cmpBool hlhs hrhs ihl ihr =>
      exact infer_op_of_parts ⟨ihl, hlhs.ne_any⟩ ⟨ihr, hrhs.ne_any⟩ _
  | ite hcond hthn hels ihc iht ihe =>
      rw [infer_ite_of_parts ⟨ihc, hcond.ne_any⟩ ⟨iht, hthn.ne_any⟩ ⟨ihe, hels.ne_any⟩]
      exact iteTy_eq_ok_iff.mpr ⟨rfl, rfl, rfl⟩
  | letIn hbindee _ ihb iht =>
      rw [infer_letIn, ihb, settle_ok hbindee.ne_any]
      exact iht
  | letRec hbody _ ihb iht =>
      rw [infer_letRec, ihb, settle_ok hbody.ne_any, if_pos rfl]
      exact iht
  | abs hbody ihb => rw [infer_abs, ihb, settle_ok hbody.ne_any]
  | app hfunc harg _ ihf iha =>
      rw [infer_app_of_parts ⟨ihf, hfunc.ne_any⟩ ⟨iha, harg.ne_any⟩]
      exact appTy_eq_ok_iff.mpr rfl

theorem synthesizes_iff_hasType {ctx : Ctx} {e : Expr} {ty : Ty} :
    e.Synthesizes ctx ty ↔ HasType ctx e ty :=
  ⟨fun h => hasType_of_infer h.1 h.2, HasType.synthesizes⟩

/-! ## The order of checking -/

/-- Something to be settled about an expression, in its context if it has one. -/
inductive Checkpoint where
  /-- The type of a part. -/
  | part (ctx? : Option Ctx) (e : Expr)
  /-- That the body of a recursive function returns what is declared. -/
  | returns (ctx? : Option Ctx) (func param : String) (paramTy ret : Ty) (body : Expr)

/-- The context of a `let`'s tail.  It is missing if the bindee has no type to bind. -/
def Expr.tailCtx? (binder : String) (bindee : Expr) (ctx : Ctx) : Option Ctx :=
  match bindee.infer ctx with
  | .error _ | .ok .any => none
  | .ok bound => some (ctx.update binder bound)

theorem tailCtx?_of_bindee {ctx : Ctx} {bindee : Expr} {bound : Ty}
    (hb : bindee.Synthesizes ctx bound) (binder : String) :
    bindee.tailCtx? binder ctx = some (ctx.update binder bound) := by
  rw [Expr.tailCtx?, hb.1]
  obtain ⟨_, hany⟩ := hb
  cases bound with
  | any => exact absurd rfl hany
  | int => rfl
  | bool => rfl
  | arrow _ _ => rfl

/-- All parts of an expression, from left to right and before what they are parts of.  The return
type of a recursive function is looked at after its body and before the tail. -/
def Expr.checkpoints : Option Ctx → Expr → List Checkpoint
  | ctx?, int n => [.part ctx? (int n)]
  | ctx?, bool b => [.part ctx? (bool b)]
  | ctx?, var name => [.part ctx? (var name)]
  | ctx?, op o lhs rhs =>
    lhs.checkpoints ctx? ++ rhs.checkpoints ctx? ++ [.part ctx? (op o lhs rhs)]
  | ctx?, ite cond thn els =>
    cond.checkpoints ctx? ++ thn.checkpoints ctx? ++ els.checkpoints ctx? ++
      [.part ctx? (ite cond thn els)]
  | ctx?, letIn binder bindee tail =>
    bindee.checkpoints ctx? ++ tail.checkpoints (ctx?.bind (bindee.tailCtx? binder)) ++
      [.part ctx? (letIn binder bindee tail)]
  | ctx?, letRec func param paramTy ret body tail =>
    body.checkpoints (ctx?.map fun ctx => bodyCtx ctx func param paramTy ret) ++
      [.returns ctx? func param paramTy ret body] ++
      tail.checkpoints (ctx?.map fun ctx => ctx.update func (.arrow paramTy ret)) ++
      [.part ctx? (letRec func param paramTy ret body tail)]
  | ctx?, abs param ty body =>
    body.checkpoints (ctx?.map fun ctx => ctx.update param ty) ++ [.part ctx? (abs param ty body)]
  | ctx?, app func arg =>
    func.checkpoints ctx? ++ arg.checkpoints ctx? ++ [.part ctx? (app func arg)]

/-- A part has a type other than `any`; a body returns the declared type. -/
def Checkpoint.Passes : Checkpoint → Prop
  | part ctx? e => ∃ ctx ty, ctx? = some ctx ∧ e.Synthesizes ctx ty
  | returns ctx? func param paramTy ret body =>
    ∃ ctx, ctx? = some ctx ∧ body.Synthesizes (bodyCtx ctx func param paramTy ret) ret

theorem Checkpoint.passes_part_iff {ctx : Ctx} {e : Expr} :
    (part (some ctx) e).Passes ↔ ∃ ty, e.Synthesizes ctx ty := by
  simp [Passes]

theorem Checkpoint.passes_returns_iff {ctx : Ctx} {func param : String} {paramTy ret : Ty}
    {body : Expr} : (returns (some ctx) func param paramTy ret body).Passes ↔
      body.Synthesizes (bodyCtx ctx func param paramTy ret) ret := by
  simp [Passes]

/-- All checkpoints of a list pass. -/
def AllPass (points : List Checkpoint) : Prop := ∀ p ∈ points, p.Passes

namespace AllPass

variable {points points' : List Checkpoint}

theorem append (h : AllPass points) (h' : AllPass points') : AllPass (points ++ points') :=
  List.forall_mem_append.mpr ⟨h, h'⟩

theorem returns {ctx : Ctx} {func param : String} {paramTy ret : Ty} {body : Expr}
    (hbody : body.Synthesizes (bodyCtx ctx func param paramTy ret) ret) :
    AllPass [.returns (some ctx) func param paramTy ret body] :=
  List.forall_mem_singleton.mpr (Checkpoint.passes_returns_iff.mpr hbody)

theorem part {ctx : Ctx} {e : Expr} {ty : Ty} (he : HasType ctx e ty) :
    AllPass [.part (some ctx) e] :=
  List.forall_mem_singleton.mpr (Checkpoint.passes_part_iff.mpr ⟨ty, he.synthesizes⟩)

end AllPass

/-- A simply typed expression passes all its checkpoints. -/
theorem HasType.checkpoints_pass {ctx : Ctx} {e : Expr} {ty : Ty} (h : HasType ctx e ty) :
    AllPass (e.checkpoints (some ctx)) := by
  induction h with
  | int n => exact .part (.int n)
  | bool b => exact .part (.bool b)
  | var hlookup hany => exact .part (.var hlookup hany)
  | arith hlhs hrhs ihl ihr => exact (ihl.append ihr).append (.part (.arith hlhs hrhs))
  | cmpInt hlhs hrhs ihl ihr => exact (ihl.append ihr).append (.part (.cmpInt hlhs hrhs))
  | cmpBool hlhs hrhs ihl ihr => exact (ihl.append ihr).append (.part (.cmpBool hlhs hrhs))
  | ite hcond hthn hels ihc iht ihe =>
      exact ((ihc.append iht).append ihe).append (.part (.ite hcond hthn hels))
  | letIn hbindee htail ihb iht =>
      refine AllPass.append (ihb.append ?_) (.part (.letIn hbindee htail))
      -- the bindee has a type to bind, so the tail has the context in which the rule types it
      rw [Option.bind_some, tailCtx?_of_bindee hbindee.synthesizes]
      exact iht
  | letRec hbody htail ihb iht =>
      have hbodyPasses := ihb.append (.returns hbody.synthesizes)
      exact (hbodyPasses.append iht).append (.part (.letRec hbody htail))
  | abs hbody ihb => exact ihb.append (.part (.abs hbody))
  | app hfunc harg hany ihf iha =>
      exact (ihf.append iha).append (.part (.app hfunc harg hany))

theorem Expr.Synthesizes.checkpoints_pass {ctx : Ctx} {e : Expr} {ty : Ty}
    (h : e.Synthesizes ctx ty) : AllPass (e.checkpoints (some ctx)) :=
  (synthesizes_iff_hasType.mp h).checkpoints_pass

/-- The checker finds a type other than `any` exactly where the rules give it, and they give no
other.  So an expression with a part, however deep, that fails in its context or is `any` there gets
no type other than `any`. -/
theorem infer_exactly_simple (ctx : Ctx) (e : Expr) :
    (∀ ty, e.infer ctx = .ok ty ∧ ty ≠ .any ↔ HasType ctx e ty) ∧
      ∀ inner s, .part (some inner) s ∈ e.checkpoints (some ctx) →
        ((∃ err, s.infer inner = .error err) ∨ s.infer inner = .ok .any) →
          ∀ ty, ty ≠ .any → e.infer ctx ≠ .ok ty := by
  refine ⟨fun ty => synthesizes_iff_hasType, ?_⟩
  intro inner s hmem hfail ty hany hinfer
  have hpass : AllPass (e.checkpoints (some ctx)) :=
    Expr.Synthesizes.checkpoints_pass ⟨hinfer, hany⟩
  obtain ⟨found, hfound, hne⟩ := Checkpoint.passes_part_iff.mp (hpass _ hmem)
  rcases hfail with ⟨err, herr⟩ | hgiven
  · rw [herr] at hfound
    cases hfound
  · rw [hgiven] at hfound
    exact hne (Except.ok.inj hfound).symm

/-- `let f = fun (g: int -> any) -> g 1 + (true + 1) in 2`: the sum fails, but beside a call of type
`any`, and the whole is given up on. -/
def hiddenFailure : Expr :=
  .letIn "f"
    (.abs "g" (.arrow .int .any)
      (.op (.arith .add) (.app (.var "g") (.int 1))
        (.op (.arith .add) (.bool true) (.int 1))))
    (.int 2)

theorem infer_exactly_simple_hiddenFailure :
    hiddenFailure.infer ∅ = .ok .any ∧ (∀ ty, ty ≠ .any → hiddenFailure.infer ∅ ≠ .ok ty) ∧
      HasType ∅ (.abs "u" .any (.int 1)) (.arrow .any .int) := by
  have hmem : .part (some ((∅ : Ctx).update "g" (.arrow .int .any)))
      (.op (.arith .add) (.bool true) (.int 1)) ∈ hiddenFailure.checkpoints (some ∅) := by
    simp [hiddenFailure, Expr.checkpoints]
  refine ⟨rfl, (infer_exactly_simple ∅ hiddenFailure).2 _ _ hmem (.inl ⟨_, rfl⟩), ?_⟩
  exact ((infer_exactly_simple ∅ (.abs "u" .any (.int 1))).1 (.arrow .any .int)).mp ⟨rfl, nofun⟩

end LambdaAny
