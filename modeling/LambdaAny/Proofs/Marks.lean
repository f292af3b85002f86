import LambdaAny.Typing

/-!
# Marked types and expressions

An expression with marks in the declared types of its parameters stands for all the expressions that
have one type at the marks.  So it can be asked what two of them have in common, and what an
expression has that is the same for every type at the marks.

The types of such expressions are marked too.  Where the marks of a type are can be seen from two of
its fillings, but not from one: the type filled in may stand in places that are not marked.
-/

namespace LambdaAny

open Typing

/-! ## Marked types -/

/-- A type in which some places are marked. -/
inductive MarkedTy where
  | mark
  | int
  | bool
  | any
  | arrow (dom cod : MarkedTy)
deriving DecidableEq, Repr

namespace MarkedTy

/-- One type for all marks. -/
def fill (ty : Ty) : MarkedTy → Ty
  | mark => ty
  | int => .int
  | bool => .bool
  | any => .any
  | arrow dom cod => .arrow (dom.fill ty) (cod.fill ty)

/-- A type without marks. -/
def ofTy : Ty → MarkedTy
  | .int => int
  | .bool => bool
  | .any => any
  | .arrow dom cod => arrow (ofTy dom) (ofTy cod)

@[simp] theorem fill_ofTy (ty other : Ty) : (ofTy other).fill ty = other := by
  induction other with
  | int => rfl
  | bool => rfl
  | any => rfl
  | arrow dom cod ihd ihc => rw [ofTy, fill, ihd, ihc]

theorem ofTy_ne_mark (ty : Ty) : ofTy ty ≠ mark := by
  cases ty with
  | int => nofun
  | bool => nofun
  | any => nofun
  | arrow _ _ => nofun

variable {s s' : MarkedTy} {ty other : Ty}

theorem fill_ne_any (h : s.fill .any ≠ .any) (ty : Ty) : s.fill ty ≠ .any := by
  cases s with
  | mark => exact absurd rfl h
  | int => nofun
  | bool => nofun
  | any => exact absurd rfl h
  | arrow _ _ => nofun

theorem ne_mark_of_fill_ne_any (h : s.fill .any ≠ .any) : s ≠ mark := by
  rintro rfl
  exact h rfl

/-- A type that is no arrow has no parts that could be marked. -/
theorem eq_ofTy_of_fill (base : Ty) (hbase : ∀ dom cod, base ≠ .arrow dom cod) (hmark : s ≠ mark)
    (h : s.fill ty = base) : s = ofTy base := by
  subst h
  cases s with
  | mark => exact absurd rfl hmark
  | int => rfl
  | bool => rfl
  | any => rfl
  | arrow _ _ => exact absurd rfl (hbase _ _)

theorem eq_ofTy_of_fills (hne : other ≠ ty) (base : Ty) (hbase : ∀ dom cod, base ≠ .arrow dom cod)
    (h : s.fill ty = base) (h' : s.fill other = base) : s = ofTy base := by
  by_cases hmark : s = mark
  · subst hmark
    exact absurd (h'.trans h.symm) hne
  · exact eq_ofTy_of_fill base hbase hmark h

theorem exists_of_fill_arrow {dom cod : Ty} (hmark : s ≠ mark) (h : s.fill ty = .arrow dom cod) :
    ∃ d c, s = arrow d c ∧ d.fill ty = dom ∧ c.fill ty = cod := by
  cases s with
  | mark => exact absurd rfl hmark
  | int => cases h
  | bool => cases h
  | any => cases h
  | arrow d c =>
      obtain ⟨rfl, rfl⟩ := Ty.arrow.inj h
      exact ⟨d, c, rfl, rfl, rfl⟩

/-- Below an arrow a mark makes the type greater than what is filled in. -/
theorem eq_ofTy_or_lt (hmark : s ≠ mark) (ty : Ty) :
    s = ofTy (s.fill ty) ∨ sizeOf ty < sizeOf (s.fill ty) := by
  induction s with
  | mark => exact absurd rfl hmark
  | int => exact .inl rfl
  | bool => exact .inl rfl
  | any => exact .inl rfl
  | arrow dom cod ihd ihc =>
      have hsize : sizeOf ((arrow dom cod).fill ty) =
          1 + sizeOf (dom.fill ty) + sizeOf (cod.fill ty) := by
        simp only [fill, Ty.arrow.sizeOf_spec]
      by_cases hdom : dom = mark
      · subst hdom
        right
        simp only [fill] at hsize ⊢
        omega
      by_cases hcod : cod = mark
      · subst hcod
        right
        simp only [fill] at hsize ⊢
        omega
      rcases ihd hdom with hd | hd
      · rcases ihc hcod with hc | hc
        · left
          rw [fill, ofTy, ← hd, ← hc]
        · right
          omega
      · right
        omega

theorem eq_ofTy_of_fill_self (hmark : s ≠ mark) (h : s.fill ty = ty) : s = ofTy ty := by
  rcases eq_ofTy_or_lt hmark ty with heq | hlt
  · rw [h] at heq
    exact heq
  · rw [h] at hlt
    omega

theorem eq_mark_of_fill_self (hne : other ≠ ty) (h : s.fill ty = ty) (h' : s.fill other = other) :
    s = mark := by
  by_cases hmark : s = mark
  · exact hmark
  · rw [eq_ofTy_of_fill_self hmark h, fill_ofTy] at h'
    exact absurd h'.symm hne

/-- Two different fillings determine where the marks are. -/
theorem eq_of_fill_eq (hne : other ≠ ty) (h : s.fill ty = s'.fill ty)
    (h' : s.fill other = s'.fill other) : s = s' := by
  induction s generalizing s' with
  | mark => exact (eq_mark_of_fill_self hne h.symm h'.symm).symm
  | int => exact (eq_ofTy_of_fills hne .int nofun h.symm h'.symm).symm
  | bool => exact (eq_ofTy_of_fills hne .bool nofun h.symm h'.symm).symm
  | any => exact (eq_ofTy_of_fills hne .any nofun h.symm h'.symm).symm
  | arrow dom cod ihd ihc =>
      by_cases hmark : s' = mark
      · subst hmark
        exact eq_mark_of_fill_self hne h h'
      · obtain ⟨dom', cod', rfl, hd, hc⟩ := exists_of_fill_arrow hmark h.symm
        obtain ⟨hd', hc'⟩ := Ty.arrow.inj h'
        rw [ihd hd.symm hd', ihc hc.symm hc']

end MarkedTy

/-! ## Marked expressions -/

/-- An expression with marks in the declared types of its parameters. -/
inductive MarkedExpr where
  | int (n : Int64)
  | bool (b : Bool)
  | var (name : String)
  | op (o : Op) (lhs rhs : MarkedExpr)
  | ite (cond thn els : MarkedExpr)
  | letIn (binder : String) (bindee tail : MarkedExpr)
  | letRec (func param : String) (paramTy : MarkedTy) (ret : Ty) (body tail : MarkedExpr)
  | abs (param : String) (ty : MarkedTy) (body : MarkedExpr)
  | app (func arg : MarkedExpr)

/-- The expression with one type for all marks. -/
def MarkedExpr.fill (ty : Ty) : MarkedExpr → Expr
  | int n => .int n
  | bool b => .bool b
  | var name => .var name
  | op o lhs rhs => .op o (lhs.fill ty) (rhs.fill ty)
  | ite cond thn els => .ite (cond.fill ty) (thn.fill ty) (els.fill ty)
  | letIn binder bindee tail => .letIn binder (bindee.fill ty) (tail.fill ty)
  | letRec func param paramTy ret body tail =>
    .letRec func param (paramTy.fill ty) ret (body.fill ty) (tail.fill ty)
  | abs param paramTy body => .abs param (paramTy.fill ty) (body.fill ty)
  | app func arg => .app (func.fill ty) (arg.fill ty)

/-- The marked types of the variables in scope. -/
abbrev MarkedCtx := Env MarkedTy

def Env.fill (ty : Ty) (ctx : Env MarkedTy) : Ctx := ctx.map (MarkedTy.fill ty)

/-- The context of a recursive function's body, with marks in the type of the parameter. -/
def markedBodyCtx (ctx : MarkedCtx) (func param : String) (paramTy : MarkedTy) (ret : Ty) :
    MarkedCtx :=
  (ctx.update param paramTy).update func (.arrow paramTy (.ofTy ret))

theorem fill_markedFunc (ctx : MarkedCtx) (func : String) (paramTy : MarkedTy) (ret ty : Ty) :
    (ctx.update func (.arrow paramTy (.ofTy ret))).fill ty =
      (ctx.fill ty).update func (.arrow (paramTy.fill ty) ret) := by
  rw [Env.fill, Env.map_update, MarkedTy.fill, MarkedTy.fill_ofTy]
  rfl

theorem fill_markedBodyCtx (ctx : MarkedCtx) (func param : String) (paramTy : MarkedTy)
    (ret ty : Ty) :
    (markedBodyCtx ctx func param paramTy ret).fill ty =
      bodyCtx (ctx.fill ty) func param (paramTy.fill ty) ret := by
  rw [markedBodyCtx, fill_markedFunc]
  rfl

end LambdaAny
