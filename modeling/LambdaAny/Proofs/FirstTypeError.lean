import LambdaAny.Proofs.ExactTyping

/-!
# The first type error

A type error that is reported is the first one.  Everything that comes before it in the order of
checking has a type other than `any`, and it is raised by the rule of one part, from the types of
the parts right below.

The checker does not work that way.  It types all parts of an operator, a conditional or a call
before it picks an error, and stops early only at a `let`.  What makes both come to the same is that
a part of type `any` hides the errors of its neighbours, those to its left as well; so an expression
may have errors and none is reported.
-/

namespace LambdaAny

open Typing

/-! ## What a rule raises -/

/-- The operand types that an operator takes. -/
def Op.Accepts : Op → Ty → Ty → Prop
  | arith _, l, r => l = .int ∧ r = .int
  | cmp _, l, r => l = r ∧ (l = .int ∨ l = .bool)

/-- The error that comes up at a checkpoint itself, where all the parts it looks at have types other
than `any`. -/
inductive Checkpoint.Raises : Checkpoint → TypeError → Prop
  | unbound {ctx : Ctx} {name : String} (hlookup : ctx.lookup? name = none) :
      Raises (.part (some ctx) (.var name)) (.unbound name)
  | operands {ctx : Ctx} {o : Op} {lhs rhs : Expr} {l r : Ty} (hl : lhs.Synthesizes ctx l)
      (hr : rhs.Synthesizes ctx r) (hmisfit : ¬o.Accepts l r) :
      Raises (.part (some ctx) (.op o lhs rhs)) (.operandMismatch o l r)
  | cond {ctx : Ctx} {cond thn els : Expr} {c t e : Ty} (hc : cond.Synthesizes ctx c)
      (ht : thn.Synthesizes ctx t) (he : els.Synthesizes ctx e) (hmisfit : c ≠ .bool) :
      Raises (.part (some ctx) (.ite cond thn els)) (.condNotBool c)
  | branches {ctx : Ctx} {cond thn els : Expr} {t e : Ty} (hc : cond.Synthesizes ctx .bool)
      (ht : thn.Synthesizes ctx t) (he : els.Synthesizes ctx e) (hmisfit : t ≠ e) :
      Raises (.part (some ctx) (.ite cond thn els)) (.branchMismatch t e)
  | returns {ctx : Ctx} {func param : String} {paramTy ret : Ty} {body : Expr} {found : Ty}
      (hbody : body.Synthesizes (bodyCtx ctx func param paramTy ret) found)
      (hmisfit : found ≠ ret) :
      Raises (.returns (some ctx) func param paramTy ret body) (.returnMismatch func ret found)
  | callee {ctx : Ctx} {func arg : Expr} {f a : Ty} (hf : func.Synthesizes ctx f)
      (ha : arg.Synthesizes ctx a) (hmisfit : ∀ dom cod, f ≠ .arrow dom cod) :
      Raises (.part (some ctx) (.app func arg)) (.notAFunction f)
  | arg {ctx : Ctx} {func arg : Expr} {dom cod a : Ty}
      (hf : func.Synthesizes ctx (.arrow dom cod)) (ha : arg.Synthesizes ctx a)
      (hmisfit : a ≠ dom) :
      Raises (.part (some ctx) (.app func arg)) (.argMismatch dom a)

theorem opTy_eq_error_iff {o : Op} {l r : Ty} {err : TypeError} :
    opTy o l r = .error err ↔ ¬o.Accepts l r ∧ err = .operandMismatch o l r := by
  cases o <;> cases l <;> cases r <;> simp [opTy, Op.Accepts, eq_comm]

theorem iteTy_eq_error_iff {c t e : Ty} {err : TypeError} :
    iteTy c t e = .error err ↔
      c ≠ .bool ∧ err = .condNotBool c ∨ c = .bool ∧ t ≠ e ∧ err = .branchMismatch t e := by
  unfold iteTy
  by_cases hc : c = .bool
  · by_cases hte : t = e
    · simp [hc, hte]
    · simp [hc, hte, eq_comm]
  · simp [hc, eq_comm]

theorem appTy_eq_error_iff {f a : Ty} {err : TypeError} :
    appTy f a = .error err ↔
      (∀ dom cod, f ≠ .arrow dom cod) ∧ err = .notAFunction f ∨
        ∃ dom cod, f = .arrow dom cod ∧ a ≠ dom ∧ err = .argMismatch dom a := by
  cases f with
  | arrow dom cod =>
      unfold appTy
      by_cases hdom : dom = a
      · simp [hdom]
      · simp [hdom, Ne.symm hdom, eq_comm]
  | int => simp [appTy, eq_comm]
  | bool => simp [appTy, eq_comm]
  | any => simp [appTy, eq_comm]

theorem Checkpoint.not_passes_of_error {ctx : Ctx} {e : Expr} {err : TypeError}
    (h : e.infer ctx = .error err) : ¬(Checkpoint.part (some ctx) e).Passes := by
  rw [passes_part_iff]
  rintro ⟨ty, hinfer, _⟩
  rw [h] at hinfer
  cases hinfer

/-- A checkpoint that raises an error is not passed: the part has no type, or the body another one
than was declared. -/
theorem Checkpoint.Raises.not_passes {point : Checkpoint} {err : TypeError}
    (h : point.Raises err) : ¬point.Passes := by
  cases h with
  | @unbound ctx name hlookup =>
      have hinfer : (Expr.var name).infer ctx = .error (.unbound name) := by
        rw [infer_var, hlookup]
        rfl
      exact not_passes_of_error hinfer
  | operands hl hr hmisfit =>
      apply not_passes_of_error
      rw [infer_op_of_parts hl hr]
      exact opTy_eq_error_iff.mpr ⟨hmisfit, rfl⟩
  | cond hc ht he hmisfit =>
      apply not_passes_of_error
      rw [infer_ite_of_parts hc ht he]
      exact iteTy_eq_error_iff.mpr (.inl ⟨hmisfit, rfl⟩)
  | branches hc ht he hmisfit =>
      apply not_passes_of_error
      rw [infer_ite_of_parts hc ht he]
      exact iteTy_eq_error_iff.mpr (.inr ⟨rfl, hmisfit, rfl⟩)
  | returns hbody hmisfit =>
      rw [passes_returns_iff]
      rintro ⟨hret, _⟩
      exact hmisfit (Except.ok.inj (hbody.1.symm.trans hret))
  | callee hf ha hmisfit =>
      apply not_passes_of_error
      rw [infer_app_of_parts hf ha]
      exact appTy_eq_error_iff.mpr (.inl ⟨hmisfit, rfl⟩)
  | arg hf ha hmisfit =>
      apply not_passes_of_error
      rw [infer_app_of_parts hf ha]
      exact appTy_eq_error_iff.mpr (.inr ⟨_, _, rfl, hmisfit, rfl⟩)

/-! ## Where the error of a node comes from -/

section

variable {ctx : Ctx} {err : TypeError}

/-- A part whose type is asked for next fails, or has a type other than `any` and what follows
fails. -/
theorem infer_bind_eq_error {e : Expr} {next : Ty → Typed} (hany : isAny (e.infer ctx) = false)
    (h : (e.infer ctx >>= next) = .error err) :
    e.infer ctx = .error err ∨ ∃ ty, e.Synthesizes ctx ty ∧ next ty = .error err := by
  cases hinfer : e.infer ctx with
  | error err' =>
      rw [hinfer] at h
      exact .inl h
  | ok ty =>
      rw [hinfer] at h hany
      exact .inr ⟨ty, ⟨hinfer, isAny_eq_false_of_ok hany⟩, h⟩

/-- Two parts and a rule for their types: the left part fails, or the right one does after it, or
the rule does. -/
theorem absorb_eq_error {lhs rhs : Expr} {rule : Ty → Ty → Typed}
    (h : absorb rule (lhs.infer ctx) (rhs.infer ctx) = .error err) :
    lhs.infer ctx = .error err ∨ ∃ l, lhs.Synthesizes ctx l ∧
      (rhs.infer ctx = .error err ∨ ∃ r, rhs.Synthesizes ctx r ∧ rule l r = .error err) := by
  unfold absorb at h
  split at h
  · cases h
  · next hparts =>
    simp only [Bool.or_eq_true, not_or, Bool.not_eq_true] at hparts
    refine (infer_bind_eq_error hparts.1 h).imp_right ?_
    rintro ⟨l, hl, h⟩
    exact ⟨l, hl, infer_bind_eq_error hparts.2 h⟩

theorem settle_eq_error {e : Expr} {next : Ty → Typed}
    (h : settle (e.infer ctx) next = .error err) :
    e.infer ctx = .error err ∨ ∃ ty, e.Synthesizes ctx ty ∧ next ty = .error err := by
  unfold settle at h
  split at h
  · next hinfer => exact .inl (hinfer.trans h)
  · cases h
  · next ty hany hinfer => exact .inr ⟨ty, ⟨hinfer, hany⟩, h⟩

theorem infer_var_eq_error {name : String} (h : (Expr.var name).infer ctx = .error err) :
    ctx.lookup? name = none ∧ err = .unbound name := by
  rw [infer_var] at h
  cases hlookup : ctx.lookup? name with
  | none =>
      rw [hlookup] at h
      exact ⟨rfl, (Except.error.inj h).symm⟩
  | some ty =>
      rw [hlookup] at h
      cases h

theorem infer_ite_eq_error {cond thn els : Expr}
    (h : (Expr.ite cond thn els).infer ctx = .error err) :
    cond.infer ctx = .error err ∨ ∃ c, cond.Synthesizes ctx c ∧
      (thn.infer ctx = .error err ∨ ∃ t, thn.Synthesizes ctx t ∧
        (els.infer ctx = .error err ∨ ∃ e, els.Synthesizes ctx e ∧ iteTy c t e = .error err)) := by
  rw [infer_ite] at h
  split at h
  · cases h
  · next hparts =>
    simp only [Bool.or_eq_true, not_or, Bool.not_eq_true] at hparts
    obtain ⟨⟨hcond, hthn⟩, hels⟩ := hparts
    refine (infer_bind_eq_error hcond h).imp_right ?_
    rintro ⟨c, hc, h⟩
    refine ⟨c, hc, (infer_bind_eq_error hthn h).imp_right ?_⟩
    rintro ⟨t, ht, h⟩
    exact ⟨t, ht, infer_bind_eq_error hels h⟩

theorem infer_letRec_eq_error {func param : String} {paramTy ret : Ty} {body tail : Expr}
    (h : (Expr.letRec func param paramTy ret body tail).infer ctx = .error err) :
    body.infer (bodyCtx ctx func param paramTy ret) = .error err ∨
      (∃ found, body.Synthesizes (bodyCtx ctx func param paramTy ret) found ∧ found ≠ ret ∧
        err = .returnMismatch func ret found) ∨
      body.Synthesizes (bodyCtx ctx func param paramTy ret) ret ∧
        tail.infer (ctx.update func (.arrow paramTy ret)) = .error err := by
  rw [infer_letRec] at h
  refine (settle_eq_error h).imp_right ?_
  rintro ⟨found, hbody, h⟩
  split at h
  · next heq =>
    subst heq
    exact .inr ⟨hbody, h⟩
  · next hne => exact .inl ⟨found, hbody, hne, (Except.error.inj h).symm⟩

theorem infer_abs_eq_error {param : String} {dom : Ty} {body : Expr}
    (h : (Expr.abs param dom body).infer ctx = .error err) :
    body.infer (ctx.update param dom) = .error err := by
  rw [infer_abs] at h
  rcases settle_eq_error h with hbody | ⟨_, _, hok⟩
  · exact hbody
  · cases hok

end

/-! ## The first checkpoint that does not pass -/

/-- One of the checkpoints raises the error, and all those before it pass. -/
def FailsFirst (points : List Checkpoint) (err : TypeError) : Prop :=
  ∃ before point after, points = before ++ point :: after ∧ point.Raises err ∧ AllPass before

namespace FailsFirst

variable {points points' : List Checkpoint} {err : TypeError}

theorem single {point : Checkpoint} (h : point.Raises err) : FailsFirst [point] err :=
  ⟨[], point, [], rfl, h, nofun⟩

theorem append (h : FailsFirst points err) : FailsFirst (points ++ points') err := by
  obtain ⟨before, point, after, rfl, hraises, hpass⟩ := h
  exact ⟨before, point, after ++ points', by simp, hraises, hpass⟩

theorem after_passed (hpoints : AllPass points) (h : FailsFirst points' err) :
    FailsFirst (points ++ points') err := by
  obtain ⟨before, point, after, rfl, hraises, hpass⟩ := h
  exact ⟨points ++ before, point, after, by simp, hraises, hpoints.append hpass⟩

end FailsFirst

/-- By induction on the expression: wherever the checker takes an error from, what comes before has
types other than `any`, or the node would have been given up on. -/
theorem Expr.failsFirst_of_infer {ctx : Ctx} {e : Expr} {err : TypeError}
    (h : e.infer ctx = .error err) : FailsFirst (e.checkpoints (some ctx)) err := by
  induction e generalizing ctx with
  | int n => cases h
  | bool b => cases h
  | var name =>
      obtain ⟨hlookup, rfl⟩ := infer_var_eq_error h
      exact .single (.unbound hlookup)
  | op o lhs rhs ihl ihr =>
      rw [infer_op] at h
      rcases absorb_eq_error h with hl | ⟨l, hl, hr | ⟨r, hr, hrule⟩⟩
      · exact (ihl hl).append.append
      · exact (FailsFirst.after_passed hl.checkpoints_pass (ihr hr)).append
      · obtain ⟨hmisfit, rfl⟩ := opTy_eq_error_iff.mp hrule
        have hparts := hl.checkpoints_pass.append hr.checkpoints_pass
        exact .after_passed hparts (.single (.operands hl hr hmisfit))
  | ite cond thn els ihc iht ihe =>
      rcases infer_ite_eq_error h with hc | ⟨c, hc, ht | ⟨t, ht, he | ⟨e, he, hrule⟩⟩⟩
      · exact (ihc hc).append.append.append
      · exact (FailsFirst.after_passed hc.checkpoints_pass (iht ht)).append.append
      · have hparts := hc.checkpoints_pass.append ht.checkpoints_pass
        exact (FailsFirst.after_passed hparts (ihe he)).append
      · have hparts := (hc.checkpoints_pass.append ht.checkpoints_pass).append he.checkpoints_pass
        rcases iteTy_eq_error_iff.mp hrule with ⟨hmisfit, rfl⟩ | ⟨rfl, hmisfit, rfl⟩
        · exact .after_passed hparts (.single (.cond hc ht he hmisfit))
        · exact .after_passed hparts (.single (.branches hc ht he hmisfit))
  | letIn binder bindee tail ihb iht =>
      rw [infer_letIn] at h
      rcases settle_eq_error h with hb | ⟨bound, hb, ht⟩
      · exact (ihb hb).append.append
      · have htail : FailsFirst (tail.checkpoints ((some ctx).bind (bindee.tailCtx? binder))) err := by
          rw [Option.bind_some, tailCtx?_of_bindee hb]
          exact iht ht
        exact (FailsFirst.after_passed hb.checkpoints_pass htail).append
  | letRec func param paramTy ret body tail ihb iht =>
      rcases infer_letRec_eq_error h with hb | ⟨found, hb, hmisfit, rfl⟩ | ⟨hb, ht⟩
      · exact (ihb hb).append.append.append
      · have hreturn := FailsFirst.single (.returns hb hmisfit)
        exact (FailsFirst.after_passed hb.checkpoints_pass hreturn).append.append
      · have hparts := hb.checkpoints_pass.append (.returns hb)
        exact (FailsFirst.after_passed hparts (iht ht)).append
  | abs param dom body ihb => exact (ihb (infer_abs_eq_error h)).append
  | app func arg ihf iha =>
      rw [infer_app] at h
      rcases absorb_eq_error h with hf | ⟨f, hf, ha | ⟨a, ha, hrule⟩⟩
      · exact (ihf hf).append.append
      · exact (FailsFirst.after_passed hf.checkpoints_pass (iha ha)).append
      · have hparts := hf.checkpoints_pass.append ha.checkpoints_pass
        rcases appTy_eq_error_iff.mp hrule with ⟨hmisfit, rfl⟩ | ⟨dom, cod, rfl, hmisfit, rfl⟩
        · exact .after_passed hparts (.single (.callee hf ha hmisfit))
        · exact .after_passed hparts (.single (.arg hf ha hmisfit))

/-- A reported error is raised by the first checkpoint that does not pass: a variable that the
context does not bind, a node whose parts have types other than `any` that do not fit, or a body
whose type is not the declared one.  Whatever comes before has a type other than `any`. -/
theorem infer_error_is_first {ctx : Ctx} {e : Expr} {err : TypeError}
    (h : e.infer ctx = .error err) :
    ∃ before point after, e.checkpoints (some ctx) = before ++ point :: after ∧
      point.Raises err ∧ ¬point.Passes ∧ ∀ p ∈ before, p.Passes := by
  obtain ⟨before, point, after, hpoints, hraises, hpass⟩ := Expr.failsFirst_of_infer h
  exact ⟨before, point, after, hpoints, hraises, hraises.not_passes, hpass⟩

/-- `let rec f (n: int): int = n in (if f 1 < 2 then f else 3) + (true + y)`: of the three things
that are wrong, the branches come first. -/
def threeErrors : Expr :=
  .letRec "f" "n" .int .int (.var "n")
    (.op (.arith .add)
      (.ite (.op (.cmp .lt) (.app (.var "f") (.int 1)) (.int 2)) (.var "f") (.int 3))
      (.op (.arith .add) (.bool true) (.var "y")))

theorem infer_error_is_first_threeErrors :
    threeErrors.infer ∅ = .error (.branchMismatch (.arrow .int .int) .int) ∧
      ∃ before point after, threeErrors.checkpoints (some ∅) = before ++ point :: after ∧
        point.Raises (.branchMismatch (.arrow .int .int) .int) ∧ ¬point.Passes ∧
        ∀ p ∈ before, p.Passes :=
  ⟨rfl, infer_error_is_first rfl⟩

end LambdaAny
