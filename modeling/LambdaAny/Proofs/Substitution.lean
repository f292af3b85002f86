import LambdaAny.Expr.Scope
import LambdaAny.Value.Op

/-!
# Evaluation by substitution

The rules of strict evaluation from left to right, without environments: a value is put in the place
of the name it is bound to.  Terms are expressions without type annotations, and with one form more,
the recursive function as a value.

Substitution does not rename.  It is meant for closed values, and only for them does it compose as
one expects (`subst_subst`); an open value would be captured by the binders it is carried under.
-/

namespace LambdaAny

inductive ValueKind where
  | int
  | bool
  | function
deriving DecidableEq, Repr

inductive Term where
  | int (n : Int64)
  | bool (b : Bool)
  | var (name : String)
  | op (o : Op) (lhs rhs : Term)
  | ite (cond thn els : Term)
  | letIn (binder : String) (bindee tail : Term)
  | letRec (func param : String) (body tail : Term)
  | abs (param : String) (body : Term)
  /-- The function that `letRec` binds: `func` stands for the function itself in `body`. -/
  | recFun (func param : String) (body : Term)
  | app (func arg : Term)

/-- Terms to be put in the place of names. -/
abbrev Subst := String → Option Term

namespace Subst

def empty : Subst := fun _ => none

/-- Puts `t` in the place of `name`, and nothing else there. -/
def update (σ : Subst) (name : String) (t : Term) : Subst :=
  fun other => if other = name then some t else σ other

/-- Leaves `name` alone. -/
def erase (σ : Subst) (name : String) : Subst :=
  fun other => if other = name then none else σ other

/-- Uses `τ` where `σ` has nothing. -/
def orElse (σ τ : Subst) : Subst := fun name => (σ name).or (τ name)

def Binds (σ : Subst) (name : String) : Prop := (σ name).isSome = true

end Subst

namespace Term

def ofExpr : Expr → Term
  | .int n => int n
  | .bool b => bool b
  | .var name => var name
  | .op o lhs rhs => op o (ofExpr lhs) (ofExpr rhs)
  | .ite cond thn els => ite (ofExpr cond) (ofExpr thn) (ofExpr els)
  | .letIn binder bindee tail => letIn binder (ofExpr bindee) (ofExpr tail)
  | .letRec func param _ _ body tail => letRec func param (ofExpr body) (ofExpr tail)
  | .abs param _ body => abs param (ofExpr body)
  | .app func arg => app (ofExpr func) (ofExpr arg)

/-- Puts terms in the place of free names, all at once.  A binder keeps its own name. -/
def subst : Term → Subst → Term
  | int n, _ => int n
  | bool b, _ => bool b
  | var name, σ => (σ name).getD (var name)
  | op o lhs rhs, σ => op o (lhs.subst σ) (rhs.subst σ)
  | ite cond thn els, σ => ite (cond.subst σ) (thn.subst σ) (els.subst σ)
  | letIn binder bindee tail, σ => letIn binder (bindee.subst σ) (tail.subst (σ.erase binder))
  | letRec func param body tail, σ =>
    letRec func param (body.subst ((σ.erase func).erase param)) (tail.subst (σ.erase func))
  | abs param body, σ => abs param (body.subst (σ.erase param))
  | recFun func param body, σ => recFun func param (body.subst ((σ.erase func).erase param))
  | app func arg, σ => app (func.subst σ) (arg.subst σ)

/-! ## Values -/

/-- The kind of a term that is a value. -/
def kind? : Term → Option ValueKind
  | int _ => some .int
  | bool _ => some .bool
  | abs _ _ | recFun _ _ _ => some .function
  | var _ | op _ _ _ | ite _ _ _ | letIn _ _ _ | letRec _ _ _ _ | app _ _ => none

/-- How a value is shown; nothing is shown of other terms. -/
def text : Term → String
  | int n => n.toInt.repr
  | bool true => "true"
  | bool false => "false"
  | abs _ _ | recFun _ _ _ => "<fun>"
  | var _ | op _ _ _ | ite _ _ _ | letIn _ _ _ | letRec _ _ _ _ | app _ _ => ""

def toBool? : Term → Option Bool
  | bool b => some b
  | int _ | abs _ _ | recFun _ _ _ | var _ | op _ _ _ | ite _ _ _ | letIn _ _ _ | letRec _ _ _ _
  | app _ _ => none

/-- The result of a binary operator on two values. -/
def runOp : Op → Term → Term → Except EvalError Term
  | .arith o, int a, int b => (o.run a b).map int
  | .cmp o, int a, int b => .ok (bool (o.run a.toInt b.toInt))
  | .cmp o, bool a, bool b => .ok (bool (o.runBool a b))
  | o, lhs, rhs => .error (.illegalOperands o lhs.text rhs.text)

/-- The body of a called function, with the argument in the place of the parameter.  In a recursive
function the function itself is put in the place of its name, unless that is the parameter's too. -/
def enter? : (func arg : Term) → Option Term
  | abs param body, arg => some (body.subst (Subst.empty.update param arg))
  | recFun func param body, arg =>
    some (body.subst ((Subst.empty.update func (recFun func param body)).update param arg))
  | int _, _ | bool _, _ | var _, _ | op _ _ _, _ | ite _ _ _, _ | letIn _ _ _, _
  | letRec _ _ _ _, _ | app _ _, _ => none

/-! ## Rules -/

/-- The term evaluates to the result: a value, or an error that ends the evaluation. -/
inductive Evaluates : Term → Except EvalError Term → Prop
  | int (n : Int64) : Evaluates (int n) (.ok (int n))
  | bool (b : Bool) : Evaluates (bool b) (.ok (bool b))
  | abs (param : String) (body : Term) : Evaluates (abs param body) (.ok (abs param body))
  | recFun (func param : String) (body : Term) :
      Evaluates (recFun func param body) (.ok (recFun func param body))
  | unbound (name : String) : Evaluates (var name) (.error (.unbound name))
  | op {o : Op} {lhs rhs l r : Term} (hlhs : Evaluates lhs (.ok l)) (hrhs : Evaluates rhs (.ok r)) :
      Evaluates (op o lhs rhs) (runOp o l r)
  | opLhsError {o : Op} {lhs rhs : Term} {cause : EvalError} (hlhs : Evaluates lhs (.error cause)) :
      Evaluates (op o lhs rhs) (.error cause)
  | opRhsError {o : Op} {lhs rhs l : Term} {cause : EvalError} (hlhs : Evaluates lhs (.ok l))
      (hrhs : Evaluates rhs (.error cause)) : Evaluates (op o lhs rhs) (.error cause)
  | iteThen {cond thn els : Term} {result : Except EvalError Term}
      (hcond : Evaluates cond (.ok (bool true))) (hthn : Evaluates thn result) :
      Evaluates (ite cond thn els) result
  | iteElse {cond thn els : Term} {result : Except EvalError Term}
      (hcond : Evaluates cond (.ok (bool false))) (hels : Evaluates els result) :
      Evaluates (ite cond thn els) result
  | iteNonBool {cond thn els c : Term} (hcond : Evaluates cond (.ok c)) (hc : c.toBool? = none) :
      Evaluates (ite cond thn els) (.error (.nonBoolGuard c.text))
  | iteError {cond thn els : Term} {cause : EvalError} (hcond : Evaluates cond (.error cause)) :
      Evaluates (ite cond thn els) (.error cause)
  | letIn {binder : String} {bindee tail v : Term} {result : Except EvalError Term}
      (hbindee : Evaluates bindee (.ok v))
      (htail : Evaluates (tail.subst (Subst.empty.update binder v)) result) :
      Evaluates (letIn binder bindee tail) result
  | letInError {binder : String} {bindee tail : Term} {cause : EvalError}
      (hbindee : Evaluates bindee (.error cause)) :
      Evaluates (letIn binder bindee tail) (.error cause)
  | letRec {func param : String} {body tail : Term} {result : Except EvalError Term}
      (htail : Evaluates (tail.subst (Subst.empty.update func (recFun func param body))) result) :
      Evaluates (letRec func param body tail) result
  | app {func arg f a body : Term} {result : Except EvalError Term} (hfunc : Evaluates func (.ok f))
      (harg : Evaluates arg (.ok a)) (henter : f.enter? a = some body)
      (hbody : Evaluates body result) : Evaluates (app func arg) result
  | appNotAFunction {func arg f a : Term} (hfunc : Evaluates func (.ok f))
      (harg : Evaluates arg (.ok a)) (henter : f.enter? a = none) :
      Evaluates (app func arg) (.error (.notAFunction f.text))
  | appFuncError {func arg : Term} {cause : EvalError} (hfunc : Evaluates func (.error cause)) :
      Evaluates (app func arg) (.error cause)
  | appArgError {func arg f : Term} {cause : EvalError} (hfunc : Evaluates func (.ok f))
      (harg : Evaluates arg (.error cause)) : Evaluates (app func arg) (.error cause)

/-! ## Free names -/

/-- Every free name of the term has the property. -/
def Scoped : Term → (String → Prop) → Prop
  | int _, _ | bool _, _ => True
  | var name, p => p name
  | op _ lhs rhs, p => lhs.Scoped p ∧ rhs.Scoped p
  | ite cond thn els, p => cond.Scoped p ∧ thn.Scoped p ∧ els.Scoped p
  | letIn binder bindee tail, p => bindee.Scoped p ∧ tail.Scoped fun name => name = binder ∨ p name
  | letRec func param body tail, p =>
    (body.Scoped fun name => name = param ∨ name = func ∨ p name) ∧
      tail.Scoped fun name => name = func ∨ p name
  | abs param body, p => body.Scoped fun name => name = param ∨ p name
  | recFun func param body, p => body.Scoped fun name => name = param ∨ name = func ∨ p name
  | app func arg, p => func.Scoped p ∧ arg.Scoped p

def Closed (t : Term) : Prop := t.Scoped fun _ => False

end Term

namespace Subst

theorem erase_eq_some {σ : Subst} {name other : String} {t : Term}
    (h : σ.erase name other = some t) : other ≠ name ∧ σ other = some t := by
  unfold erase at h
  by_cases hname : other = name
  · rw [if_pos hname] at h
    cases h
  · rw [if_neg hname] at h
    exact ⟨hname, h⟩

theorem erase_eq_none {σ : Subst} {name other : String} (h : other = name ∨ σ other = none) :
    σ.erase name other = none := by
  unfold erase
  by_cases hname : other = name
  · rw [if_pos hname]
  · rw [if_neg hname]
    exact h.resolve_left hname

theorem erase_orElse (σ τ : Subst) (name : String) :
    (σ.orElse τ).erase name = (σ.erase name).orElse (τ.erase name) := by
  funext other
  by_cases hname : other = name <;> simp [erase, orElse, hname]

/-- Only closed terms are put anywhere. -/
def ClosedRange (σ : Subst) : Prop := ∀ name t, σ name = some t → t.Closed

theorem ClosedRange.erase {σ : Subst} (h : σ.ClosedRange) (name : String) :
    (σ.erase name).ClosedRange := by
  intro other t ht
  exact h other t (erase_eq_some ht).2

end Subst

namespace Term

theorem Scoped.mono {t : Term} {p q : String → Prop} (h : t.Scoped p)
    (hpq : ∀ name, p name → q name) : t.Scoped q := by
  induction t generalizing p q with
  | int n => trivial
  | bool b => trivial
  | var name => exact hpq name h
  | op o lhs rhs ihlhs ihrhs => exact ⟨ihlhs h.1 hpq, ihrhs h.2 hpq⟩
  | ite cond thn els ihcond ihthn ihels =>
      exact ⟨ihcond h.1 hpq, ihthn h.2.1 hpq, ihels h.2.2 hpq⟩
  | letIn binder bindee tail ihbindee ihtail =>
      exact ⟨ihbindee h.1 hpq, ihtail h.2 fun name => Or.imp_right (hpq name)⟩
  | letRec func param body tail ihbody ihtail =>
      exact ⟨ihbody h.1 fun name => Or.imp_right (Or.imp_right (hpq name)),
        ihtail h.2 fun name => Or.imp_right (hpq name)⟩
  | abs param body ihbody => exact ihbody h fun name => Or.imp_right (hpq name)
  | recFun func param body ihbody =>
      exact ihbody h fun name => Or.imp_right (Or.imp_right (hpq name))
  | app func arg ihfunc iharg => exact ⟨ihfunc h.1 hpq, iharg h.2 hpq⟩

/-- Substitution changes nothing in a term none of whose free names it replaces. -/
theorem Scoped.subst_eq {t : Term} {p : String → Prop} {σ : Subst} (h : t.Scoped p)
    (hσ : ∀ name, p name → σ name = none) : t.subst σ = t := by
  have hone : ∀ {p : String → Prop} {σ : Subst} {binder : String},
      (∀ name, p name → σ name = none) →
        ∀ name, name = binder ∨ p name → σ.erase binder name = none :=
    fun hσ name hname => Subst.erase_eq_none (hname.imp_right (hσ name))
  induction t generalizing p σ with
  | int n => rfl
  | bool b => rfl
  | var name => rw [subst, hσ name h, Option.getD_none]
  | op o lhs rhs ihlhs ihrhs => rw [subst, ihlhs h.1 hσ, ihrhs h.2 hσ]
  | ite cond thn els ihcond ihthn ihels =>
      rw [subst, ihcond h.1 hσ, ihthn h.2.1 hσ, ihels h.2.2 hσ]
  | letIn binder bindee tail ihbindee ihtail =>
      rw [subst, ihbindee h.1 hσ, ihtail h.2 (hone hσ)]
  | letRec func param body tail ihbody ihtail =>
      rw [subst, ihbody h.1 (hone (hone hσ)), ihtail h.2 (hone hσ)]
  | abs param body ihbody => rw [subst, ihbody h (hone hσ)]
  | recFun func param body ihbody => rw [subst, ihbody h (hone (hone hσ))]
  | app func arg ihfunc iharg => rw [subst, ihfunc h.1 hσ, iharg h.2 hσ]

theorem Closed.subst_eq {t : Term} (h : t.Closed) (σ : Subst) : t.subst σ = t :=
  Scoped.subst_eq h fun _ hfalse => hfalse.elim

/-- What is free after closed terms were put in is what was free before and was not replaced. -/
theorem Scoped.subst {t : Term} {p q : String → Prop} {σ : Subst} (h : t.Scoped p)
    (hrange : σ.ClosedRange) (hpq : ∀ name, p name → σ name = none → q name) :
    (t.subst σ).Scoped q := by
  have hone : ∀ {p q : String → Prop} {σ : Subst} {binder : String},
      (∀ name, p name → σ name = none → q name) →
        ∀ name, name = binder ∨ p name → σ.erase binder name = none → name = binder ∨ q name := by
    intro p q σ binder hpq name hname hnone
    by_cases heq : name = binder
    · exact .inl heq
    · rw [Subst.erase, if_neg heq] at hnone
      exact .inr (hpq name (hname.resolve_left heq) hnone)
  induction t generalizing p q σ with
  | int n => trivial
  | bool b => trivial
  | var name =>
      rw [Term.subst]
      cases hname : σ name with
      | none => exact hpq name h hname
      | some t => exact (hrange name t hname).mono fun _ hfalse => hfalse.elim
  | op o lhs rhs ihlhs ihrhs => exact ⟨ihlhs h.1 hrange hpq, ihrhs h.2 hrange hpq⟩
  | ite cond thn els ihcond ihthn ihels =>
      exact ⟨ihcond h.1 hrange hpq, ihthn h.2.1 hrange hpq, ihels h.2.2 hrange hpq⟩
  | letIn binder bindee tail ihbindee ihtail =>
      exact ⟨ihbindee h.1 hrange hpq, ihtail h.2 (hrange.erase binder) (hone hpq)⟩
  | letRec func param body tail ihbody ihtail =>
      exact ⟨ihbody h.1 ((hrange.erase func).erase param) (hone (hone hpq)),
        ihtail h.2 (hrange.erase func) (hone hpq)⟩
  | abs param body ihbody => exact ihbody h (hrange.erase param) (hone hpq)
  | recFun func param body ihbody =>
      exact ihbody h ((hrange.erase func).erase param) (hone (hone hpq))
  | app func arg ihfunc iharg => exact ⟨ihfunc h.1 hrange hpq, iharg h.2 hrange hpq⟩

/-- One substitution after another, if the first puts in closed terms only. -/
theorem subst_subst (t : Term) {σ : Subst} (hrange : σ.ClosedRange) (τ : Subst) :
    (t.subst σ).subst τ = t.subst (σ.orElse τ) := by
  induction t generalizing σ τ with
  | int n => rfl
  | bool b => rfl
  | var name =>
      rw [Term.subst, Term.subst, Subst.orElse]
      -- what the first substitution put in is closed, so the second leaves it alone
      cases hname : σ name with
      | none => rfl
      | some t => exact (hrange name t hname).subst_eq τ
  | op o lhs rhs ihlhs ihrhs => simp only [subst, ihlhs hrange, ihrhs hrange]
  | ite cond thn els ihcond ihthn ihels =>
      simp only [subst, ihcond hrange, ihthn hrange, ihels hrange]
  | letIn binder bindee tail ihbindee ihtail =>
      simp only [subst, ihbindee hrange, ihtail (hrange.erase binder), Subst.erase_orElse]
  | letRec func param body tail ihbody ihtail =>
      simp only [subst, ihbody ((hrange.erase func).erase param), ihtail (hrange.erase func),
        Subst.erase_orElse]
  | abs param body ihbody => simp only [subst, ihbody (hrange.erase param), Subst.erase_orElse]
  | recFun func param body ihbody =>
      simp only [subst, ihbody ((hrange.erase func).erase param), Subst.erase_orElse]
  | app func arg ihfunc iharg => simp only [subst, ihfunc hrange, iharg hrange]

/-- The free names of an expression, and of its term. -/
theorem scoped_ofExpr {e : Expr} {scope : List String} (h : e.freeVar? scope = none) :
    (ofExpr e).Scoped (· ∈ scope) := by
  induction e generalizing scope with
  | int n => trivial
  | bool b => trivial
  | var name => simpa [Expr.freeVar?, ofExpr, Scoped] using h
  | op o lhs rhs ihlhs ihrhs =>
      obtain ⟨hlhs, hrhs⟩ := Option.or_eq_none_iff.mp h
      exact ⟨ihlhs hlhs, ihrhs hrhs⟩
  | ite cond thn els ihcond ihthn ihels =>
      obtain ⟨hcond, hboth⟩ := Option.or_eq_none_iff.mp h
      obtain ⟨hthn, hels⟩ := Option.or_eq_none_iff.mp hboth
      exact ⟨ihcond hcond, ihthn hthn, ihels hels⟩
  | letIn binder bindee tail ihbindee ihtail =>
      obtain ⟨hbindee, htail⟩ := Option.or_eq_none_iff.mp h
      exact ⟨ihbindee hbindee, (ihtail htail).mono fun name => List.mem_cons.mp⟩
  | letRec func param _ _ body tail ihbody ihtail =>
      obtain ⟨hbody, htail⟩ := Option.or_eq_none_iff.mp h
      constructor
      · exact (ihbody hbody).mono fun name hname =>
          (List.mem_cons.mp hname).imp_right List.mem_cons.mp
      · exact (ihtail htail).mono fun name => List.mem_cons.mp
  | abs param _ body ihbody => exact (ihbody h).mono fun name => List.mem_cons.mp
  | app func arg ihfunc iharg =>
      obtain ⟨hfunc, harg⟩ := Option.or_eq_none_iff.mp h
      exact ⟨ihfunc hfunc, iharg harg⟩

end Term
end LambdaAny
