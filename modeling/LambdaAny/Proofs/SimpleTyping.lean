import LambdaAny.Typing

/-!
# Simple typing

The ordinary typing rules of the language, with nothing in them about giving up: every part of an
expression has a type, and none of these types is `any`.  Annotations may still mention `any`, alone
or inside an arrow.

What `Expr.infer` accepts at a type other than `any` is typed by these rules.  An expression that it
accepts at `any` need not be.
-/

namespace LambdaAny

open Typing

/-- The rules.  Only a variable and a call could have type `any` although none of their parts has
it, so only these two exclude it themselves. -/
inductive HasType : Ctx → Expr → Ty → Prop where
  | int {ctx : Ctx} (n : Int64) : HasType ctx (.int n) .int
  | bool {ctx : Ctx} (b : Bool) : HasType ctx (.bool b) .bool
  | var {ctx : Ctx} {name : String} {ty : Ty} (hlookup : ctx.lookup? name = some ty)
      (hany : ty ≠ .any) : HasType ctx (.var name) ty
  | arith {ctx : Ctx} {o : Arith} {lhs rhs : Expr} (hlhs : HasType ctx lhs .int)
      (hrhs : HasType ctx rhs .int) : HasType ctx (.op (.arith o) lhs rhs) .int
  | cmpInt {ctx : Ctx} {o : Cmp} {lhs rhs : Expr} (hlhs : HasType ctx lhs .int)
      (hrhs : HasType ctx rhs .int) : HasType ctx (.op (.cmp o) lhs rhs) .bool
  | cmpBool {ctx : Ctx} {o : Cmp} {lhs rhs : Expr} (hlhs : HasType ctx lhs .bool)
      (hrhs : HasType ctx rhs .bool) : HasType ctx (.op (.cmp o) lhs rhs) .bool
  | ite {ctx : Ctx} {cond thn els : Expr} {ty : Ty} (hcond : HasType ctx cond .bool)
      (hthn : HasType ctx thn ty) (hels : HasType ctx els ty) : HasType ctx (.ite cond thn els) ty
  | letIn {ctx : Ctx} {binder : String} {bindee tail : Expr} {bound ty : Ty}
      (hbindee : HasType ctx bindee bound) (htail : HasType (ctx.update binder bound) tail ty) :
      HasType ctx (.letIn binder bindee tail) ty
  | letRec {ctx : Ctx} {func param : String} {paramTy ret : Ty} {body tail : Expr} {ty : Ty}
      (hbody : HasType (bodyCtx ctx func param paramTy ret) body ret)
      (htail : HasType (ctx.update func (.arrow paramTy ret)) tail ty) :
      HasType ctx (.letRec func param paramTy ret body tail) ty
  | abs {ctx : Ctx} {param : String} {dom cod : Ty} {body : Expr}
      (hbody : HasType (ctx.update param dom) body cod) :
      HasType ctx (.abs param dom body) (.arrow dom cod)
  | app {ctx : Ctx} {func arg : Expr} {dom cod : Ty} (hfunc : HasType ctx func (.arrow dom cod))
      (harg : HasType ctx arg dom) (hany : cod ≠ .any) : HasType ctx (.app func arg) cod

/-! ## The checker as a chain of results -/

namespace Typing

/-- Goes on from a type other than `any`; a failure and `any` itself are kept. -/
def settle (result : Typed) (next : Ty → Typed) : Typed :=
  match result with
  | .error err => .error err
  | .ok .any => .ok .any
  | .ok ty => next ty

/-- Applies a rule to the types of two parts, neither of which is `any`. -/
def absorb (rule : Ty → Ty → Typed) (l r : Typed) : Typed :=
  if isAny l || isAny r then .ok .any else do rule (← l) (← r)

theorem eq_any_of_isAny {result : Typed} (h : isAny result = true) : result = .ok .any := by
  unfold isAny at h
  split at h
  · rfl
  · cases h

theorem isAny_eq_false_of_ok {ty : Ty} (h : isAny (.ok ty) = false) : ty ≠ .any := by
  rintro rfl
  cases h

theorem isAny_ok_eq_false {ty : Ty} (h : ty ≠ .any) : isAny (.ok ty) = false := by
  cases ty with
  | any => exact absurd rfl h
  | int => rfl
  | bool => rfl
  | arrow _ _ => rfl

theorem settle_ok {ty : Ty} (h : ty ≠ .any) (next : Ty → Typed) :
    settle (.ok ty) next = next ty := by
  cases ty with
  | any => exact absurd rfl h
  | int => rfl
  | bool => rfl
  | arrow _ _ => rfl

theorem absorb_ok {l r : Ty} (hl : l ≠ .any) (hr : r ≠ .any) (rule : Ty → Ty → Typed) :
    absorb rule (.ok l) (.ok r) = rule l r := by
  rw [absorb, isAny_ok_eq_false hl, isAny_ok_eq_false hr]
  rfl

theorem absorb_any {l r : Typed} (h : l = .ok .any ∨ r = .ok .any) (rule : Ty → Ty → Typed) :
    absorb rule l r = .ok .any := by
  rcases h with rfl | rfl
  · rfl
  · exact if_pos (Bool.or_true _)

theorem absorb_error_left {r : Typed} (hr : isAny r = false) (rule : Ty → Ty → Typed)
    (err : TypeError) : absorb rule (.error err) r = .error err := by
  rw [absorb, hr]
  rfl

theorem absorb_error_right {l : Ty} (hl : l ≠ .any) (rule : Ty → Ty → Typed) (err : TypeError) :
    absorb rule (.ok l) (.error err) = .error err := by
  rw [absorb, isAny_ok_eq_false hl]
  rfl

theorem settle_any {result : Typed} (h : result = .ok .any) (next : Ty → Typed) :
    settle result next = .ok .any := by
  rw [h]
  rfl

/-- A result that is gone on from is `any`, or a type from which the rest succeeds. -/
theorem settle_cases {result : Typed} {next : Ty → Typed} {ty : Ty}
    (h : settle result next = .ok ty) :
    result = .ok .any ∧ ty = .any ∨
      ∃ bound, result = .ok bound ∧ bound ≠ .any ∧ next bound = .ok ty := by
  unfold settle at h
  split at h
  · cases h
  · exact .inl ⟨rfl, (Except.ok.inj h).symm⟩
  · next bound hne => exact .inr ⟨bound, rfl, hne, h⟩

/-- Of two parts under a rule one is `any`, or they have types that the rule accepts. -/
theorem absorb_cases {rule : Ty → Ty → Typed} {lhs rhs : Typed} {ty : Ty}
    (h : absorb rule lhs rhs = .ok ty) :
    (lhs = .ok .any ∨ rhs = .ok .any) ∧ ty = .any ∨
      ∃ l r, lhs = .ok l ∧ l ≠ .any ∧ rhs = .ok r ∧ r ≠ .any ∧ rule l r = .ok ty := by
  unfold absorb at h
  split at h
  · next hparts =>
    refine .inl ⟨?_, (Except.ok.inj h).symm⟩
    rw [Bool.or_eq_true] at hparts
    exact hparts.imp eq_any_of_isAny eq_any_of_isAny
  · next hparts =>
    simp only [Bool.or_eq_true, not_or, Bool.not_eq_true] at hparts
    cases lhs with
    | error err => cases h
    | ok l =>
        cases rhs with
        | error err => cases h
        | ok r =>
            exact .inr ⟨l, r, rfl, isAny_eq_false_of_ok hparts.1, rfl,
              isAny_eq_false_of_ok hparts.2, h⟩

theorem settle_eq_ok {result : Typed} {next : Ty → Typed} {ty : Ty}
    (h : settle result next = .ok ty) (hany : ty ≠ .any) :
    ∃ bound, result = .ok bound ∧ bound ≠ .any ∧ next bound = .ok ty :=
  (settle_cases h).resolve_left fun hgiven => hany hgiven.2

theorem absorb_eq_ok {rule : Ty → Ty → Typed} {lhs rhs : Typed} {ty : Ty}
    (h : absorb rule lhs rhs = .ok ty) (hany : ty ≠ .any) :
    ∃ l r, lhs = .ok l ∧ l ≠ .any ∧ rhs = .ok r ∧ r ≠ .any ∧ rule l r = .ok ty :=
  (absorb_cases h).resolve_left fun hgiven => hany hgiven.2

end Typing

section

variable (ctx : Ctx)

theorem infer_var (name : String) :
    (Expr.var name).infer ctx = (ctx.lookup? name).elim (.error (.unbound name)) .ok := by
  simp only [Expr.infer]
  cases ctx.lookup? name with
  | none => rfl
  | some ty => rfl

theorem infer_op (o : Op) (lhs rhs : Expr) :
    (Expr.op o lhs rhs).infer ctx = absorb (opTy o) (lhs.infer ctx) (rhs.infer ctx) := rfl

theorem infer_ite (cond thn els : Expr) :
    (Expr.ite cond thn els).infer ctx =
      if isAny (cond.infer ctx) || isAny (thn.infer ctx) || isAny (els.infer ctx) then .ok .any
      else (do iteTy (← cond.infer ctx) (← thn.infer ctx) (← els.infer ctx)) := rfl

theorem infer_ite_any {cond thn els : Expr}
    (h : cond.infer ctx = .ok .any ∨ thn.infer ctx = .ok .any ∨ els.infer ctx = .ok .any) :
    (Expr.ite cond thn els).infer ctx = .ok .any := by
  rw [infer_ite]
  apply if_pos
  rcases h with hcond | hthn | hels
  · rw [hcond]
    rfl
  · rw [hthn]
    exact Bool.or_eq_true_iff.mpr (.inl (Bool.or_true _))
  · rw [hels]
    exact Bool.or_true _

theorem infer_ite_of_isAny_eq_false {cond thn els : Expr} (hcond : isAny (cond.infer ctx) = false)
    (hthn : isAny (thn.infer ctx) = false) (hels : isAny (els.infer ctx) = false) :
    (Expr.ite cond thn els).infer ctx =
      (do iteTy (← cond.infer ctx) (← thn.infer ctx) (← els.infer ctx)) := by
  rw [infer_ite, hcond, hthn, hels]
  rfl

theorem infer_letIn (binder : String) (bindee tail : Expr) :
    (Expr.letIn binder bindee tail).infer ctx =
      settle (bindee.infer ctx) fun bound => tail.infer (ctx.update binder bound) := rfl

theorem infer_letRec (func param : String) (paramTy ret : Ty) (body tail : Expr) :
    (Expr.letRec func param paramTy ret body tail).infer ctx =
      settle (body.infer (bodyCtx ctx func param paramTy ret)) fun found =>
        if found = ret then tail.infer (ctx.update func (.arrow paramTy ret))
        else .error (.returnMismatch func ret found) := rfl

theorem infer_abs (param : String) (dom : Ty) (body : Expr) :
    (Expr.abs param dom body).infer ctx =
      settle (body.infer (ctx.update param dom)) fun cod => .ok (.arrow dom cod) := rfl

theorem infer_app (func arg : Expr) :
    (Expr.app func arg).infer ctx = absorb appTy (func.infer ctx) (arg.infer ctx) := rfl

end

/-! ## What an accepted node says about its parts -/

theorem opTy_eq_ok_iff {o : Op} {l r ty : Ty} :
    opTy o l r = .ok ty ↔
      (∃ a, o = .arith a ∧ l = .int ∧ r = .int ∧ ty = .int) ∨
      (∃ c, o = .cmp c ∧ l = .int ∧ r = .int ∧ ty = .bool) ∨
      (∃ c, o = .cmp c ∧ l = .bool ∧ r = .bool ∧ ty = .bool) := by
  cases o <;> cases l <;> cases r <;> simp [opTy, eq_comm]

theorem iteTy_eq_ok_iff {c t e ty : Ty} :
    iteTy c t e = .ok ty ↔ c = .bool ∧ t = ty ∧ e = ty := by
  unfold iteTy
  by_cases hc : c = .bool
  · by_cases hte : t = e
    · simp [hc, hte]
    · have hne : ¬(t = ty ∧ e = ty) := by
        rintro ⟨rfl, rfl⟩
        exact hte rfl
      simp [hc, hte, hne]
  · simp [hc]

theorem appTy_eq_ok_iff {f a ty : Ty} : appTy f a = .ok ty ↔ f = .arrow a ty := by
  cases f with
  | arrow dom cod =>
      unfold appTy
      by_cases hdom : dom = a
      · simp [hdom]
      · simp [hdom]
  | int => simp [appTy]
  | bool => simp [appTy]
  | any => simp [appTy]

theorem infer_op_eq_ok {ctx : Ctx} {o : Op} {lhs rhs : Expr} {ty : Ty}
    (h : (Expr.op o lhs rhs).infer ctx = .ok ty) (hany : ty ≠ .any) :
    ∃ l r, lhs.infer ctx = .ok l ∧ l ≠ .any ∧ rhs.infer ctx = .ok r ∧ r ≠ .any ∧
      opTy o l r = .ok ty := by
  rw [infer_op] at h
  exact absorb_eq_ok h hany

/-- One of the three parts is `any`, or the condition is a boolean and both branches have the type
of the whole. -/
theorem infer_ite_cases {ctx : Ctx} {cond thn els : Expr} {ty : Ty}
    (h : (Expr.ite cond thn els).infer ctx = .ok ty) :
    (cond.infer ctx = .ok .any ∨ thn.infer ctx = .ok .any ∨ els.infer ctx = .ok .any) ∧
        ty = .any ∨
      cond.infer ctx = .ok .bool ∧ thn.infer ctx = .ok ty ∧ els.infer ctx = .ok ty := by
  rw [infer_ite] at h
  split at h
  · next hparts =>
    refine .inl ⟨?_, (Except.ok.inj h).symm⟩
    rw [Bool.or_eq_true, Bool.or_eq_true, or_assoc] at hparts
    exact hparts.imp eq_any_of_isAny (.imp eq_any_of_isAny eq_any_of_isAny)
  · cases hc : cond.infer ctx with
    | error err => simp [hc, bind, Except.bind] at h
    | ok c =>
        cases ht : thn.infer ctx with
        | error err => simp [hc, ht, bind, Except.bind] at h
        | ok t =>
            cases he : els.infer ctx with
            | error err => simp [hc, ht, he, bind, Except.bind] at h
            | ok e =>
                have hty : iteTy c t e = .ok ty := by
                  simpa [hc, ht, he, bind, Except.bind] using h
                obtain ⟨rfl, rfl, rfl⟩ := iteTy_eq_ok_iff.mp hty
                exact .inr ⟨rfl, rfl, rfl⟩

theorem infer_ite_eq_ok {ctx : Ctx} {cond thn els : Expr} {ty : Ty}
    (h : (Expr.ite cond thn els).infer ctx = .ok ty) (hany : ty ≠ .any) :
    cond.infer ctx = .ok .bool ∧ thn.infer ctx = .ok ty ∧ els.infer ctx = .ok ty :=
  (infer_ite_cases h).resolve_left fun hgiven => hany hgiven.2

theorem infer_letIn_eq_ok {ctx : Ctx} {binder : String} {bindee tail : Expr} {ty : Ty}
    (h : (Expr.letIn binder bindee tail).infer ctx = .ok ty) (hany : ty ≠ .any) :
    ∃ bound, bindee.infer ctx = .ok bound ∧ bound ≠ .any ∧
      tail.infer (ctx.update binder bound) = .ok ty := by
  rw [infer_letIn] at h
  exact settle_eq_ok h hany

/-- The body is `any`, or it returns what is declared and the tail has the type of the whole. -/
theorem infer_letRec_cases {ctx : Ctx} {func param : String} {paramTy ret : Ty} {body tail : Expr}
    {ty : Ty} (h : (Expr.letRec func param paramTy ret body tail).infer ctx = .ok ty) :
    body.infer (bodyCtx ctx func param paramTy ret) = .ok .any ∧ ty = .any ∨
      body.infer (bodyCtx ctx func param paramTy ret) = .ok ret ∧ ret ≠ .any ∧
        tail.infer (ctx.update func (.arrow paramTy ret)) = .ok ty := by
  rw [infer_letRec] at h
  refine (settle_cases h).imp_right ?_
  rintro ⟨found, hfound, hne, hnext⟩
  split at hnext
  · next heq =>
    subst heq
    exact ⟨hfound, hne, hnext⟩
  · cases hnext

theorem infer_letRec_eq_ok {ctx : Ctx} {func param : String} {paramTy ret : Ty}
    {body tail : Expr} {ty : Ty}
    (h : (Expr.letRec func param paramTy ret body tail).infer ctx = .ok ty) (hany : ty ≠ .any) :
    body.infer (bodyCtx ctx func param paramTy ret) = .ok ret ∧ ret ≠ .any ∧
      tail.infer (ctx.update func (.arrow paramTy ret)) = .ok ty :=
  (infer_letRec_cases h).resolve_left fun hgiven => hany hgiven.2

theorem infer_abs_eq_ok {ctx : Ctx} {param : String} {dom : Ty} {body : Expr} {ty : Ty}
    (h : (Expr.abs param dom body).infer ctx = .ok ty) (hany : ty ≠ .any) :
    ∃ cod, body.infer (ctx.update param dom) = .ok cod ∧ cod ≠ .any ∧ ty = .arrow dom cod := by
  rw [infer_abs] at h
  obtain ⟨cod, hcod, hne, hty⟩ := settle_eq_ok h hany
  exact ⟨cod, hcod, hne, (Except.ok.inj hty).symm⟩

theorem infer_app_eq_ok {ctx : Ctx} {func arg : Expr} {ty : Ty}
    (h : (Expr.app func arg).infer ctx = .ok ty) (hany : ty ≠ .any) :
    ∃ dom, func.infer ctx = .ok (.arrow dom ty) ∧ arg.infer ctx = .ok dom ∧ dom ≠ .any := by
  rw [infer_app] at h
  obtain ⟨f, a, hf, _, ha, hne, hrule⟩ := absorb_eq_ok h hany
  obtain rfl := appTy_eq_ok_iff.mp hrule
  exact ⟨a, hf, ha, hne⟩

/-! ## Accepted expressions are simply typed -/

theorem hasType_of_infer {ctx : Ctx} {e : Expr} {ty : Ty} (h : e.infer ctx = .ok ty)
    (hany : ty ≠ .any) : HasType ctx e ty := by
  induction e generalizing ctx ty with
  | int n =>
      obtain rfl := Except.ok.inj h
      exact .int n
  | bool b =>
      obtain rfl := Except.ok.inj h
      exact .bool b
  | var name =>
      rw [infer_var] at h
      cases hlookup : ctx.lookup? name with
      | none =>
          rw [hlookup] at h
          cases h
      | some found =>
          rw [hlookup] at h
          obtain rfl := Except.ok.inj h
          exact .var hlookup hany
  | op o lhs rhs ihl ihr =>
      obtain ⟨l, r, hl, hlany, hr, hrany, hty⟩ := infer_op_eq_ok h hany
      have hlhs := ihl hl hlany
      have hrhs := ihr hr hrany
      rcases opTy_eq_ok_iff.mp hty with ⟨a, rfl, rfl, rfl, rfl⟩ | ⟨c, rfl, rfl, rfl, rfl⟩ |
        ⟨c, rfl, rfl, rfl, rfl⟩
      · exact .arith hlhs hrhs
      · exact .cmpInt hlhs hrhs
      · exact .cmpBool hlhs hrhs
  -- in every other node the parts' types are not `any` because the node's own is not
  | ite cond thn els ihc iht ihe =>
      obtain ⟨hcond, hthn, hels⟩ := infer_ite_eq_ok h hany
      exact .ite (ihc hcond nofun) (iht hthn hany) (ihe hels hany)
  | letIn binder bindee tail ihb iht =>
      obtain ⟨bound, hbindee, hbound, htail⟩ := infer_letIn_eq_ok h hany
      exact .letIn (ihb hbindee hbound) (iht htail hany)
  | letRec func param paramTy ret body tail ihb iht =>
      obtain ⟨hbody, hret, htail⟩ := infer_letRec_eq_ok h hany
      exact .letRec (ihb hbody hret) (iht htail hany)
  | abs param dom body ihb =>
      obtain ⟨cod, hbody, hcod, rfl⟩ := infer_abs_eq_ok h hany
      exact .abs (ihb hbody hcod)
  | app func arg ihf iha =>
      obtain ⟨dom, hfunc, harg, hdom⟩ := infer_app_eq_ok h hany
      exact .app (ihf hfunc nofun) (iha harg hdom) hany

end LambdaAny
