import LambdaAny.Proofs.FirstTypeError
import LambdaAny.Proofs.Marks

/-!
# Weakened parameters

What becomes of an accepted expression in which parameters of one type are declared `any` instead.
One might expect it to be accepted still, since `any` switches the checker off.  It need not be: a
function that does not use its parameter keeps a type, in which the domain is now `any`, and `any`
is equal only to itself.

The parameters in question are marked.  If the expression is accepted with `any` at the marks, at a
type other than `any`, then it does not matter what stands there: it is accepted with every type,
and its own type has that type in places that do not depend on it.  If it is rejected, then because
of two arrows that are the same with the old type at the marks and with no other, or because a
function with a marked domain is called with an argument of the old type.  The second is kept apart,
since it is about a domain that is `any` itself and not about an `any` inside an arrow.
-/

namespace LambdaAny

open Typing

/-! ## Tests of two types -/

/-- Where two types have to be the same. -/
inductive Comparison where
  | branches
  | returns (func : String)
  | argument
deriving DecidableEq, Repr

def Comparison.error : Comparison → Ty → Ty → TypeError
  | branches, expected, found => .branchMismatch expected found
  | returns func, expected, found => .returnMismatch func expected found
  | argument, expected, found => .argMismatch expected found

/-- Two marked types that are compared. -/
structure MarkedTest where
  comparison : Comparison
  expected : MarkedTy
  found : MarkedTy

namespace MarkedTest

def error (test : MarkedTest) (ty : Ty) : TypeError :=
  test.comparison.error (test.expected.fill ty) (test.found.fill ty)

/-- Two arrows that are the same with `dom` at the marks, and with no other type. -/
structure PartsArrows (test : MarkedTest) (dom : Ty) : Prop where
  expected : ∃ d c, test.expected = .arrow d c
  found : ∃ d c, test.found = .arrow d c
  agree : test.expected.fill dom = test.found.fill dom
  differ : ∀ ty, ty ≠ dom → test.expected.fill ty ≠ test.found.fill ty

/-- An argument of type `dom` and a domain that is marked. -/
def ofDomain (dom : Ty) : MarkedTest := ⟨.argument, .mark, .ofTy dom⟩

/-- The two ways in which types that were the same come to differ. -/
def Parts (test : MarkedTest) (dom : Ty) : Prop := test.PartsArrows dom ∨ test = ofDomain dom

/-- Without a mark at the top only arrows can differ. -/
theorem PartsArrows.of_ne {dom : Ty} {s t : MarkedTy} (hs : s ≠ .mark) (ht : t ≠ .mark)
    (hagree : s.fill dom = t.fill dom) (hne : s ≠ t) (comparison : Comparison) :
    PartsArrows ⟨comparison, s, t⟩ dom := by
  by_cases harrow : ∃ d c, s.fill dom = .arrow d c
  · obtain ⟨d, c, hfill⟩ := harrow
    obtain ⟨sd, sc, rfl, _⟩ := MarkedTy.exists_of_fill_arrow hs hfill
    obtain ⟨td, tc, rfl, _⟩ := MarkedTy.exists_of_fill_arrow ht (hagree.symm.trans hfill)
    refine ⟨⟨sd, sc, rfl⟩, ⟨td, tc, rfl⟩, hagree, fun ty hty heq => hne ?_⟩
    exact MarkedTy.eq_of_fill_eq hty hagree heq
  · have hbase : ∀ d c, s.fill dom ≠ .arrow d c := fun d c h => harrow ⟨d, c, h⟩
    have hs' := MarkedTy.eq_ofTy_of_fill (s.fill dom) hbase hs rfl
    have ht' := MarkedTy.eq_ofTy_of_fill (s.fill dom) hbase ht hagree.symm
    exact absurd (hs'.trans ht'.symm) hne

/-- A domain and an argument's type that were the same. -/
theorem Parts.of_ne {dom : Ty} {d a : MarkedTy} (ha : a ≠ .mark) (hagree : d.fill dom = a.fill dom)
    (hne : d ≠ a) : Parts ⟨.argument, d, a⟩ dom := by
  by_cases hd : d = .mark
  · subst hd
    right
    rw [MarkedTy.eq_ofTy_of_fill_self ha hagree.symm]
    rfl
  · exact .inl (.of_ne hd ha hagree hne .argument)

theorem Parts.differ {test : MarkedTest} {dom ty : Ty} (h : test.Parts dom) (hty : ty ≠ dom) :
    test.expected.fill ty ≠ test.found.fill ty := by
  rcases h with harrows | rfl
  · exact harrows.differ ty hty
  · rw [ofDomain, MarkedTy.fill_ofTy]
    exact hty

end MarkedTest

/-! ## What becomes of an expression -/

section

variable (dom : Ty) (ctx : MarkedCtx) (e : MarkedExpr)

/-- With `any` at the marks the checker gives up. -/
def GivenUp : Prop := (e.fill .any).infer (ctx.fill .any) = .ok .any

/-- The type of the expression has in its marks what the expression has in its own. -/
def TypedAs (s : MarkedTy) : Prop := ∀ ty, (e.fill ty).Synthesizes (ctx.fill ty) (s.fill ty)

/-- With every type but `dom` at the marks the error that is reported is that the two types
differ. -/
def Reports (test : MarkedTest) : Prop :=
  ∀ ty, ty ≠ dom → (e.fill ty).infer (ctx.fill ty) = .error (test.error ty)

/-- With every type but `dom` at the marks the two types are compared somewhere in the expression,
and differ. -/
def Compares (test : MarkedTest) : Prop :=
  ∀ ty, ty ≠ dom → ∃ point ∈ (e.fill ty).checkpoints (some (ctx.fill ty)),
    point.Raises (test.error ty)

/-- What becomes of an expression that has type `ty` with `dom` at the marks. -/
inductive Weakening (ty : Ty) : Prop
  | givenUp (h : GivenUp ctx e) : Weakening ty
  | typed (s : MarkedTy) (h : TypedAs ctx e s) : Weakening ty
  | parted (test : MarkedTest) (hparts : test.Parts dom)
      (herr : ∃ err, (e.fill .any).infer (ctx.fill .any) = .error err)
      (hcompares : Compares dom ctx e test) (hreports : ty ≠ .any → Reports dom ctx e test) :
      Weakening ty

end

section

variable {dom ty : Ty} {ctx inner : MarkedCtx} {e part : MarkedExpr} {s t : MarkedTy}
  {test : MarkedTest}

theorem TypedAs.ne_mark (h : TypedAs ctx e s) : s ≠ .mark :=
  MarkedTy.ne_mark_of_fill_ne_any (h .any).2

theorem TypedAs.fill_eq (h : TypedAs ctx e s) (hty : (e.fill dom).infer (ctx.fill dom) = .ok ty) :
    s.fill dom = ty :=
  Except.ok.inj ((h dom).1.symm.trans hty)

theorem Reports.compares (h : Reports dom ctx e test) : Compares dom ctx e test := by
  intro ty hty
  obtain ⟨before, point, after, hpoints, hraises, _⟩ := Expr.failsFirst_of_infer (h ty hty)
  refine ⟨point, ?_, hraises⟩
  rw [hpoints]
  exact List.mem_append_right before List.mem_cons_self

/-- The checkpoints of the part are checkpoints of the whole. -/
def PartOf (inner : MarkedCtx) (part : MarkedExpr) (ctx : MarkedCtx) (e : MarkedExpr) : Prop :=
  ∀ ty, ∀ point ∈ (part.fill ty).checkpoints (some (inner.fill ty)),
    point ∈ (e.fill ty).checkpoints (some (ctx.fill ty))

theorem Compares.of_part (h : Compares dom inner part test) (hpart : PartOf inner part ctx e) :
    Compares dom ctx e test := by
  intro ty hty
  obtain ⟨point, hmem, hraises⟩ := h ty hty
  exact ⟨point, hpart ty point hmem, hraises⟩

/-- With every type but `dom` at the marks the checker finds an error or a type other than `any`. -/
def Firm (dom : Ty) (ctx : MarkedCtx) (e : MarkedExpr) : Prop :=
  ∀ ty, ty ≠ dom → isAny ((e.fill ty).infer (ctx.fill ty)) = false

theorem TypedAs.firm (h : TypedAs ctx e s) (dom : Ty) : Firm dom ctx e := by
  intro ty _
  rw [(h ty).1]
  exact isAny_ok_eq_false (h ty).2

theorem Reports.firm (h : Reports dom ctx e test) : Firm dom ctx e := by
  intro ty hty
  rw [h ty hty]
  rfl

namespace Weakening

theorem of_reports (hdom : dom ≠ .any) (hparts : test.Parts dom) (h : Reports dom ctx e test) :
    Weakening dom ctx e ty :=
  .parted test hparts ⟨_, h .any hdom.symm⟩ h.compares fun _ => h

/-- A type is found whatever is at the marks; it may be `any` for that. -/
theorem of_ok (h : ∀ other, (e.fill other).infer (ctx.fill other) = .ok (s.fill other)) :
    Weakening dom ctx e ty := by
  by_cases hany : s.fill .any = .any
  · exact .givenUp ((h .any).trans (congrArg Except.ok hany))
  · exact .typed s fun other => ⟨h other, MarkedTy.fill_ne_any hany other⟩

/-- A part that was of another type than `any`. -/
theorem cases_of_ne_any (h : Weakening dom ctx e ty) (hty : ty ≠ .any) :
    GivenUp ctx e ∨ Firm dom ctx e ∧
      ((∃ s, TypedAs ctx e s) ∨ ∃ test : MarkedTest, test.Parts dom ∧ Reports dom ctx e test) := by
  cases h with
  | givenUp h => exact .inl h
  | typed s h => exact .inr ⟨h.firm dom, .inl ⟨s, h⟩⟩
  | parted test hparts _ _ hreports =>
      exact .inr ⟨(hreports hty).firm, .inr ⟨test, hparts, hreports hty⟩⟩

/-- A part that was `any`, and so made the whole `any`: if the part is `any` again, so is the whole,
and the whole has no type if the part has none. -/
theorem of_any (h : Weakening dom inner part .any)
    (hpart : (part.fill dom).infer (inner.fill dom) = .ok .any)
    (hgivenUp : GivenUp inner part → GivenUp ctx e)
    (hneeded : ∀ ty, (e.fill .any).infer (ctx.fill .any) = .ok ty → ty ≠ .any →
      ∃ found, (part.fill .any).infer (inner.fill .any) = .ok found)
    (hpartOf : PartOf inner part ctx e) : Weakening dom ctx e .any := by
  cases h with
  | givenUp h => exact .givenUp (hgivenUp h)
  | typed s h => exact absurd (h.fill_eq hpart) (h dom).2
  | parted test hparts herr hcompares _ =>
      cases hinfer : (e.fill .any).infer (ctx.fill .any) with
      | error err =>
          exact .parted test hparts ⟨err, hinfer⟩ (hcompares.of_part hpartOf) fun h => absurd rfl h
      | ok found =>
          by_cases hany : found = .any
          · subst hany
            exact .givenUp hinfer
          · obtain ⟨err, herr⟩ := herr
            obtain ⟨_, hfound⟩ := hneeded found hinfer hany
            rw [herr] at hfound
            cases hfound

/-- A part that the whole has its type from. -/
theorem of_same (h : Weakening dom inner part ty)
    (hsame : ∀ ty, (e.fill ty).infer (ctx.fill ty) = (part.fill ty).infer (inner.fill ty))
    (hpartOf : PartOf inner part ctx e) : Weakening dom ctx e ty := by
  cases h with
  | givenUp h => exact .givenUp ((hsame .any).trans h)
  | typed s h => exact .typed s fun ty => ⟨(hsame ty).trans (h ty).1, (h ty).2⟩
  | parted test hparts herr hcompares hreports =>
      obtain ⟨err, herr⟩ := herr
      refine .parted test hparts ⟨err, (hsame .any).trans herr⟩ (hcompares.of_part hpartOf) ?_
      intro hty other hother
      exact (hsame other).trans (hreports hty other hother)

end Weakening

end

/-! ## One node -/

/-- What is proved of every expression, if it is accepted with `dom` at the marks. -/
def Weakens (dom : Ty) (ctx : MarkedCtx) (e : MarkedExpr) : Prop :=
  ∀ ty, (e.fill dom).infer (ctx.fill dom) = .ok ty → Weakening dom ctx e ty

section

variable {dom ty : Ty} {ctx inner : MarkedCtx} {e : MarkedExpr}

/-- Two parts of other types than `any`, and a rule for them. -/
theorem Weakening.of_absorb_of_ne_any (hdom : dom ≠ .any) {lhs rhs : MarkedExpr} {l r : Ty}
    {rule : Ty → Ty → Typed}
    (hnode : ∀ ty, (e.fill ty).infer (ctx.fill ty) =
      absorb rule ((lhs.fill ty).infer (ctx.fill ty)) ((rhs.fill ty).infer (ctx.fill ty)))
    (hl : Weakening dom ctx lhs l) (hlany : l ≠ .any) (hr : Weakening dom ctx rhs r)
    (hrany : r ≠ .any)
    (hrule : ∀ s t, TypedAs ctx lhs s → TypedAs ctx rhs t → Weakening dom ctx e ty) :
    Weakening dom ctx e ty := by
  rcases hl.cases_of_ne_any hlany with hl | ⟨_, hl⟩
  · exact .givenUp ((hnode .any).trans (absorb_any (.inl hl) rule))
  rcases hr.cases_of_ne_any hrany with hr | ⟨hfirm, hr⟩
  · exact .givenUp ((hnode .any).trans (absorb_any (.inr hr) rule))
  rcases hl with ⟨s, hs⟩ | ⟨test, hparts, hreports⟩
  · rcases hr with ⟨t, ht⟩ | ⟨test, hparts, hreports⟩
    · exact hrule s t hs ht
    · refine .of_reports hdom hparts fun ty hty => ?_
      rw [hnode, (hs ty).1, hreports ty hty]
      exact absorb_error_right (hs ty).2 rule _
  · refine .of_reports hdom hparts fun ty hty => ?_
    rw [hnode, hreports ty hty]
    exact absorb_error_left (hfirm ty hty) rule _

/-- A node with two parts: what is left to look at is its rule, for parts that have types whatever
is at the marks. -/
theorem Weakening.of_absorb (hdom : dom ≠ .any) {lhs rhs : MarkedExpr} {rule : Ty → Ty → Typed}
    (hnode : ∀ ty, (e.fill ty).infer (ctx.fill ty) =
      absorb rule ((lhs.fill ty).infer (ctx.fill ty)) ((rhs.fill ty).infer (ctx.fill ty)))
    (hleft : PartOf ctx lhs ctx e) (hright : PartOf ctx rhs ctx e)
    (hlhs : Weakens dom ctx lhs) (hrhs : Weakens dom ctx rhs)
    (hty : (e.fill dom).infer (ctx.fill dom) = .ok ty)
    (hrule : ∀ s t, TypedAs ctx lhs s → TypedAs ctx rhs t →
      rule (s.fill dom) (t.fill dom) = .ok ty → Weakening dom ctx e ty) :
    Weakening dom ctx e ty := by
  rw [hnode] at hty
  rcases absorb_cases hty with ⟨hl | hr, rfl⟩ | ⟨l, r, hl, hlany, hr, hrany, hok⟩
  · have hgivenUp (h : GivenUp ctx lhs) : GivenUp ctx e :=
      (hnode .any).trans (absorb_any (.inl h) rule)
    refine (hlhs .any hl).of_any hl hgivenUp ?_ hleft
    intro found hfound hany
    rw [hnode] at hfound
    obtain ⟨l, _, hl, _⟩ := absorb_eq_ok hfound hany
    exact ⟨l, hl⟩
  · have hgivenUp (h : GivenUp ctx rhs) : GivenUp ctx e :=
      (hnode .any).trans (absorb_any (.inr h) rule)
    refine (hrhs .any hr).of_any hr hgivenUp ?_ hright
    intro found hfound hany
    rw [hnode] at hfound
    obtain ⟨_, r, _, _, hr, _⟩ := absorb_eq_ok hfound hany
    exact ⟨r, hr⟩
  · refine .of_absorb_of_ne_any hdom hnode (hlhs l hl) hlany (hrhs r hr) hrany fun s t hs ht => ?_
    rw [← hs.fill_eq hl, ← ht.fill_eq hr] at hok
    exact hrule s t hs ht hok

/-- A node that goes on from a part: what is left to look at is how it goes on from a type that the
part has whatever is at the marks. -/
theorem Weakening.of_settle (hdom : dom ≠ .any) {part : MarkedExpr} {next : Ty → Ty → Typed}
    (hnode : ∀ ty, (e.fill ty).infer (ctx.fill ty) =
      settle ((part.fill ty).infer (inner.fill ty)) (next ty))
    (hpartOf : PartOf inner part ctx e) (hpart : Weakens dom inner part)
    (hty : (e.fill dom).infer (ctx.fill dom) = .ok ty)
    (hnext : ∀ s, TypedAs inner part s →
      (∀ ty, (e.fill ty).infer (ctx.fill ty) = next ty (s.fill ty)) → Weakening dom ctx e ty) :
    Weakening dom ctx e ty := by
  rw [hnode] at hty
  rcases settle_cases hty with ⟨hany, rfl⟩ | ⟨bound, hbound, hany, _⟩
  · refine (hpart .any hany).of_any hany (fun h => (hnode .any).trans (settle_any h _)) ?_ hpartOf
    intro found hfound hne
    rw [hnode] at hfound
    obtain ⟨bound, hbound, _⟩ := settle_eq_ok hfound hne
    exact ⟨bound, hbound⟩
  · rcases (hpart bound hbound).cases_of_ne_any hany with h | ⟨_, ⟨s, hs⟩ | ⟨test, hparts, h⟩⟩
    · exact .givenUp ((hnode .any).trans (settle_any h _))
    · refine hnext s hs fun ty => ?_
      rw [hnode, (hs ty).1]
      exact settle_ok (hs ty).2 (next ty)
    · refine .of_reports hdom hparts fun ty hty => ?_
      rw [hnode, h ty hty]
      rfl

end

section

variable {dom : Ty} {ctx : MarkedCtx}

theorem opTy_kept {dom ty : Ty} {o : Op} {s t : MarkedTy} (hs : s ≠ .mark) (ht : t ≠ .mark)
    (h : opTy o (s.fill dom) (t.fill dom) = .ok ty) (other : Ty) :
    opTy o (s.fill other) (t.fill other) = .ok ty := by
  -- the operands are integers or booleans, and these have no marks
  rcases opTy_eq_ok_iff.mp h with ⟨a, rfl, hsint, htint, rfl⟩ | ⟨c, rfl, hsint, htint, rfl⟩ |
    ⟨c, rfl, hsbool, htbool, rfl⟩
  · rw [MarkedTy.eq_ofTy_of_fill .int nofun hs hsint, MarkedTy.eq_ofTy_of_fill .int nofun ht htint]
    rfl
  · rw [MarkedTy.eq_ofTy_of_fill .int nofun hs hsint, MarkedTy.eq_ofTy_of_fill .int nofun ht htint]
    rfl
  · rw [MarkedTy.eq_ofTy_of_fill .bool nofun hs hsbool,
      MarkedTy.eq_ofTy_of_fill .bool nofun ht htbool]
    rfl

theorem weakens_op (hdom : dom ≠ .any) (o : Op) {lhs rhs : MarkedExpr}
    (hlhs : Weakens dom ctx lhs) (hrhs : Weakens dom ctx rhs) :
    Weakens dom ctx (.op o lhs rhs) := by
  intro ty hty
  refine .of_absorb hdom (fun _ => rfl) ?_ ?_ hlhs hrhs hty fun s t hs ht hok => ?_
  · exact fun _ _ hmem => List.mem_append_left _ (List.mem_append_left _ hmem)
  · exact fun _ _ hmem => List.mem_append_left _ (List.mem_append_right _ hmem)
  · refine .of_ok (s := .ofTy ty) fun other => ?_
    rw [MarkedTy.fill_ofTy, ← opTy_kept hs.ne_mark ht.ne_mark hok other]
    exact infer_op_of_parts (hs other) (ht other) o

/-- The three parts of a conditional, of other types than `any`. -/
theorem Weakening.ite_of_ne_any (hdom : dom ≠ .any) {ty : Ty} {cond thn els : MarkedExpr}
    (hcond : Weakening dom ctx cond .bool) (hthn : Weakening dom ctx thn ty)
    (hels : Weakening dom ctx els ty) (hany : ty ≠ .any)
    (hrule : ∀ c s t, TypedAs ctx cond c → TypedAs ctx thn s → TypedAs ctx els t →
      Weakening dom ctx (.ite cond thn els) ty) :
    Weakening dom ctx (.ite cond thn els) ty := by
  rcases hcond.cases_of_ne_any nofun with hcond | ⟨hcfirm, hcond⟩
  · exact .givenUp (infer_ite_any _ (.inl hcond))
  rcases hthn.cases_of_ne_any hany with hthn | ⟨htfirm, hthn⟩
  · exact .givenUp (infer_ite_any _ (.inr (.inl hthn)))
  rcases hels.cases_of_ne_any hany with hels | ⟨hefirm, hels⟩
  · exact .givenUp (infer_ite_any _ (.inr (.inr hels)))
  -- nothing is given up, so the first part with an error decides
  have hnode := fun other hother => infer_ite_of_isAny_eq_false _ (hcfirm other hother)
    (htfirm other hother) (hefirm other hother)
  rcases hcond with ⟨c, hc⟩ | ⟨test, hparts, hreports⟩
  · rcases hthn with ⟨s, hs⟩ | ⟨test, hparts, hreports⟩
    · rcases hels with ⟨t, ht⟩ | ⟨test, hparts, hreports⟩
      · exact hrule c s t hc hs ht
      · refine .of_reports hdom hparts fun other hother => (hnode other hother).trans ?_
        rw [(hc other).1, (hs other).1, hreports other hother]
        rfl
    · refine .of_reports hdom hparts fun other hother => (hnode other hother).trans ?_
      rw [(hc other).1, hreports other hother]
      rfl
  · refine .of_reports hdom hparts fun other hother => (hnode other hother).trans ?_
    rw [hreports other hother]
    rfl

/-- A part of a conditional that was `any`. -/
theorem Weakening.ite_of_any {cond thn els : MarkedExpr} (hcond : Weakens dom ctx cond)
    (hthn : Weakens dom ctx thn) (hels : Weakens dom ctx els)
    (h : (cond.fill dom).infer (ctx.fill dom) = .ok .any ∨
      (thn.fill dom).infer (ctx.fill dom) = .ok .any ∨
        (els.fill dom).infer (ctx.fill dom) = .ok .any) :
    Weakening dom ctx (.ite cond thn els) .any := by
  rcases h with hc | ht | he
  · refine (hcond .any hc).of_any hc (fun h => infer_ite_any _ (.inl h)) ?_ ?_
    · exact fun _ hfound hany => ⟨_, (infer_ite_eq_ok hfound hany).1⟩
    · exact fun _ _ hmem =>
        List.mem_append_left _ (List.mem_append_left _ (List.mem_append_left _ hmem))
  · refine (hthn .any ht).of_any ht (fun h => infer_ite_any _ (.inr (.inl h))) ?_ ?_
    · exact fun _ hfound hany => ⟨_, (infer_ite_eq_ok hfound hany).2.1⟩
    · exact fun _ _ hmem =>
        List.mem_append_left _ (List.mem_append_left _ (List.mem_append_right _ hmem))
  · refine (hels .any he).of_any he (fun h => infer_ite_any _ (.inr (.inr h))) ?_ ?_
    · exact fun _ hfound hany => ⟨_, (infer_ite_eq_ok hfound hany).2.2⟩
    · exact fun _ _ hmem => List.mem_append_left _ (List.mem_append_right _ hmem)

theorem weakens_ite (hdom : dom ≠ .any) {cond thn els : MarkedExpr} (hcond : Weakens dom ctx cond)
    (hthn : Weakens dom ctx thn) (hels : Weakens dom ctx els) :
    Weakens dom ctx (.ite cond thn els) := by
  intro ty hty
  rcases infer_ite_cases hty with ⟨hparts, rfl⟩ | ⟨hc, ht, he⟩
  · exact .ite_of_any hcond hthn hels hparts
  by_cases hany : ty = .any
  · subst hany
    exact .ite_of_any hcond hthn hels (.inr (.inl ht))
  refine .ite_of_ne_any hdom (hcond _ hc) (hthn ty ht) (hels ty he) hany fun c s t hcs hs ht' => ?_
  obtain rfl := MarkedTy.eq_ofTy_of_fill .bool nofun hcs.ne_mark (hcs.fill_eq hc)
  have hnode := fun other => infer_ite_of_parts (hcs other) (hs other) (ht' other)
  by_cases heq : s = t
  · subst heq
    refine .typed s fun other => ⟨(hnode other).trans ?_, (hs other).2⟩
    exact iteTy_eq_ok_iff.mpr ⟨rfl, rfl, rfl⟩
  · have hagree : s.fill dom = t.fill dom := (hs.fill_eq ht).trans (ht'.fill_eq he).symm
    have hparts := MarkedTest.PartsArrows.of_ne hs.ne_mark ht'.ne_mark hagree heq .branches
    refine .of_reports hdom (.inl hparts) fun other hother => (hnode other).trans ?_
    exact iteTy_eq_error_iff.mpr (.inr ⟨rfl, hparts.differ other hother, rfl⟩)

theorem weakens_letIn (hdom : dom ≠ .any) (binder : String) {bindee tail : MarkedExpr}
    (hbindee : Weakens dom ctx bindee) (htail : ∀ ctx, Weakens dom ctx tail) :
    Weakens dom ctx (.letIn binder bindee tail) := by
  intro ty hty
  refine .of_settle hdom (fun _ => rfl) ?_ hbindee hty fun s hs hnode => ?_
  · exact fun _ _ hmem => List.mem_append_left _ (List.mem_append_left _ hmem)
  · rw [hnode] at hty
    refine (htail (ctx.update binder s) ty hty).of_same hnode fun other point hmem => ?_
    refine List.mem_append_left _ (List.mem_append_right _ ?_)
    rw [Option.bind_some, tailCtx?_of_bindee (hs other)]
    exact hmem

theorem weakens_letRec (hdom : dom ≠ .any) (func param : String) (paramTy : MarkedTy) (ret : Ty)
    {body tail : MarkedExpr} (hbody : ∀ ctx, Weakens dom ctx body)
    (htail : ∀ ctx, Weakens dom ctx tail) :
    Weakens dom ctx (.letRec func param paramTy ret body tail) := by
  intro ty hty
  have hinner := fill_markedBodyCtx ctx func param paramTy ret
  have hfunc := fill_markedFunc ctx func paramTy ret
  have hsettle (other : Ty) :
      ((MarkedExpr.letRec func param paramTy ret body tail).fill other).infer (ctx.fill other) =
        settle ((body.fill other).infer ((markedBodyCtx ctx func param paramTy ret).fill other))
          fun found =>
            if found = ret then
              (tail.fill other).infer ((ctx.update func (.arrow paramTy (.ofTy ret))).fill other)
            else .error (.returnMismatch func ret found) := by
    rw [hinner, hfunc]
    rfl
  refine .of_settle hdom hsettle ?_ (hbody _) hty fun s hs hnode => ?_
  · intro other point hmem
    rw [hinner] at hmem
    exact List.mem_append_left _ (List.mem_append_left _ (List.mem_append_left _ hmem))
  by_cases heq : s = .ofTy ret
  · subst heq
    have hsame (other : Ty) := (hnode other).trans (if_pos (MarkedTy.fill_ofTy other ret))
    refine (htail _ ty ((hsame dom).symm.trans hty)).of_same hsame fun other point hmem => ?_
    rw [hfunc] at hmem
    exact List.mem_append_left _ (List.mem_append_right _ hmem)
  · have hagree : s.fill dom = ret := by
      rw [hnode] at hty
      split at hty
      · assumption
      · cases hty
    have hparts : MarkedTest.PartsArrows ⟨.returns func, .ofTy ret, s⟩ dom := by
      refine .of_ne (MarkedTy.ofTy_ne_mark ret) hs.ne_mark ?_ (Ne.symm heq) _
      rw [MarkedTy.fill_ofTy, hagree]
    refine .of_reports hdom (.inl hparts) fun other hother => ?_
    have hdiffer := hparts.differ other hother
    rw [MarkedTy.fill_ofTy] at hdiffer
    rw [hnode, if_neg hdiffer.symm, MarkedTest.error, MarkedTy.fill_ofTy]
    rfl

theorem weakens_abs (hdom : dom ≠ .any) (param : String) (paramTy : MarkedTy)
    {body : MarkedExpr} (hbody : ∀ ctx, Weakens dom ctx body) :
    Weakens dom ctx (.abs param paramTy body) := by
  intro ty hty
  refine .of_settle hdom (fun _ => rfl) ?_ (hbody (ctx.update param paramTy)) hty
    fun s _ hnode => ?_
  · exact fun _ _ hmem => List.mem_append_left _ hmem
  · exact .typed (.arrow paramTy s) fun other => ⟨hnode other, nofun⟩

theorem weakens_app (hdom : dom ≠ .any) {func arg : MarkedExpr}
    (hfunc : Weakens dom ctx func) (harg : Weakens dom ctx arg) :
    Weakens dom ctx (.app func arg) := by
  intro ty hty
  refine .of_absorb hdom (fun _ => rfl) ?_ ?_ hfunc harg hty fun s t hs ht hok => ?_
  · exact fun _ _ hmem => List.mem_append_left _ (List.mem_append_left _ hmem)
  · exact fun _ _ hmem => List.mem_append_left _ (List.mem_append_right _ hmem)
  have harrow := appTy_eq_ok_iff.mp hok
  obtain ⟨d, c, rfl, hagree, _⟩ := MarkedTy.exists_of_fill_arrow hs.ne_mark harrow
  have hnode := fun other => infer_app_of_parts (hs other) (ht other)
  by_cases heq : d = t
  · subst heq
    -- the result may be `any`, of itself or for a mark
    refine .of_ok (s := c) fun other => (hnode other).trans ?_
    exact appTy_eq_ok_iff.mpr rfl
  · have hparts := MarkedTest.Parts.of_ne ht.ne_mark hagree heq
    refine .of_reports hdom hparts fun other hother => (hnode other).trans ?_
    exact appTy_eq_error_iff.mpr (.inr ⟨_, _, rfl, (hparts.differ hother).symm, rfl⟩)

end

/-- By induction on the expression, in all contexts at once. -/
theorem MarkedExpr.weakens {dom : Ty} (hdom : dom ≠ .any) (e : MarkedExpr) (ctx : MarkedCtx) :
    Weakens dom ctx e := by
  induction e generalizing ctx with
  | int n => exact fun _ _ => .typed .int fun _ => ⟨rfl, nofun⟩
  | bool b => exact fun _ _ => .typed .bool fun _ => ⟨rfl, nofun⟩
  | var name =>
      intro ty hty
      have hvar (other : Ty) : ((MarkedExpr.var name).fill other).infer (ctx.fill other) =
          ((ctx.lookup? name).map (MarkedTy.fill other)).elim (.error (.unbound name)) .ok := by
        rw [fill, infer_var, Env.fill, Env.lookup?_map]
      cases hlookup : ctx.lookup? name with
      | none =>
          rw [hvar, hlookup] at hty
          cases hty
      | some s =>
          refine .of_ok (s := s) fun other => ?_
          rw [hvar, hlookup]
          rfl
  | op o lhs rhs ihl ihr => exact weakens_op hdom o (ihl ctx) (ihr ctx)
  | ite cond thn els ihc iht ihe => exact weakens_ite hdom (ihc ctx) (iht ctx) (ihe ctx)
  | letIn binder bindee tail ihb iht => exact weakens_letIn hdom binder (ihb ctx) iht
  | letRec func param paramTy ret body tail ihb iht =>
      exact weakens_letRec hdom func param paramTy ret ihb iht
  | abs param paramTy body ihb => exact weakens_abs hdom param paramTy ihb
  | app func arg ihf iha => exact weakens_app hdom (ihf ctx) (iha ctx)

/-! ## The whole expression -/

/-- Somewhere a function whose domain is marked is given an argument of type `dom`. -/
def MarkedExpr.CallsMarkedDomain (e : MarkedExpr) (dom : Ty) : Prop :=
  ∀ ty, ty ≠ dom → ∃ ctx func arg cod,
    .part (some ctx) (.app func arg) ∈ (e.fill ty).checkpoints (some ∅) ∧
      func.Synthesizes ctx (.arrow ty cod) ∧ arg.Synthesizes ctx dom

theorem callsMarkedDomain_of_compares {dom : Ty} {e : MarkedExpr}
    (h : Compares dom ∅ e (.ofDomain dom)) : e.CallsMarkedDomain dom := by
  intro ty hty
  obtain ⟨point, hmem, hraises⟩ := h ty hty
  have herror : (MarkedTest.ofDomain dom).error ty = .argMismatch ty dom :=
    congrArg (TypeError.argMismatch ty) (MarkedTy.fill_ofTy ty dom)
  rw [herror] at hraises
  cases hraises with
  | arg hf ha _ => exact ⟨_, _, _, _, hmem, hf, ha⟩

/-- What was accepted with `dom` at the marks may be accepted with `any` there.  Then it is `any`,
or its type is the old one with `any` at marks of its own; and these are the places where every
other type is found again that is put at the marks.

Or it is rejected.  Then two arrows are compared that are the same with `dom` at the marks and with
no other type, and if the old type was not `any`, this is the error that is reported.  Left aside
are expressions that call a function whose domain is itself marked with an argument of type
`dom`. -/
theorem weakened_parameter_kept_or_parted (e : MarkedExpr) (dom ty : Ty)
    (htyped : (e.fill dom).typed = .ok ty) :
    (∃ ty', (e.fill .any).typed = .ok ty' ∧ (ty' = .any ∨
      ∃ s : MarkedTy, s.fill dom = ty ∧ s.fill .any = ty' ∧
        (dom ≠ .any → (∀ other, (e.fill other).typed = .ok (s.fill other)) ∧
          ∀ s' : MarkedTy, s'.fill dom = ty → s'.fill .any = ty' → s' = s))) ∨
      (∃ err, (e.fill .any).typed = .error err) ∧
        ((∃ test : MarkedTest, test.PartsArrows dom ∧
          (∀ other, other ≠ dom → ∃ point ∈ (e.fill other).checkpoints (some ∅),
            point.Raises (test.error other)) ∧
          (ty ≠ .any → ∀ other, other ≠ dom →
            (e.fill other).typed = .error (test.error other))) ∨
        e.CallsMarkedDomain dom) := by
  by_cases hdom : dom = .any
  · subst hdom
    refine .inl ⟨ty, htyped, .inr ⟨.ofTy ty, ?_, ?_, fun h => absurd rfl h⟩⟩
    · exact MarkedTy.fill_ofTy .any ty
    · exact MarkedTy.fill_ofTy .any ty
  · cases e.weakens hdom ∅ ty htyped with
    | givenUp h => exact .inl ⟨.any, h, .inl rfl⟩
    | typed s h =>
        have hfill : s.fill dom = ty := h.fill_eq htyped
        refine .inl ⟨s.fill .any, (h .any).1, .inr ⟨s, hfill, rfl, fun _ => ⟨fun other => ?_, ?_⟩⟩⟩
        · exact (h other).1
        · intro s' hs' hany'
          exact MarkedTy.eq_of_fill_eq (Ne.symm hdom) (hs'.trans hfill.symm) hany'
    | parted test hparts herr hcompares hreports =>
        refine .inr ⟨herr, ?_⟩
        rcases hparts with harrows | rfl
        · exact .inl ⟨test, harrows, hcompares, hreports⟩
        · exact .inr (callsMarkedDomain_of_compares hcompares)

/-- `let rec f (x: int): int -> int = fun (y: int) -> 1 in f`, with the first `int` marked. -/
def firstOfTwo : MarkedExpr :=
  .letRec "f" "x" .mark (.arrow .int .int) (.abs "y" .int (.int 1)) (.var "f")

/-- `(fun (f: int -> int) -> f 1) (fun (x: int) -> 2)`, with the last `int` marked. -/
def passesConstant : MarkedExpr :=
  .app (.abs "f" (.arrow .int .int) (.app (.var "f") (.int 1))) (.abs "x" .mark (.int 2))

/-- No function with a marked domain is called in `passesConstant`. -/
theorem not_callsMarkedDomain_passesConstant : ¬passesConstant.CallsMarkedDomain .int := by
  intro h
  obtain ⟨ctx, func, arg, cod, hmem, ⟨hfunc, _⟩, _⟩ := h .any nofun
  simp only [passesConstant, MarkedExpr.fill, MarkedTy.fill, Expr.checkpoints, List.mem_append,
    List.mem_singleton, Checkpoint.part.injEq, Option.map_some, Option.some.injEq,
    Expr.app.injEq, reduceCtorEq, and_false, or_false, false_or] at hmem
  rcases hmem with ⟨rfl, rfl, _⟩ | ⟨rfl, rfl, _⟩
  · cases hfunc
  · cases hfunc

/-- Of two parameters of one type only the one that was weakened has `any` for its domain; and a
function that is passed where `int -> int` is asked for no longer fits. -/
theorem weakened_parameter_constants :
    (∀ other, (firstOfTwo.fill other).typed = .ok (.arrow other (.arrow .int .int))) ∧
      ∃ test : MarkedTest, test.PartsArrows .int ∧
        ∀ other, other ≠ .int → (passesConstant.fill other).typed = .error (test.error other) := by
  constructor
  · have htyped : (firstOfTwo.fill .int).typed = .ok (.arrow .int (.arrow .int .int)) := rfl
    rcases weakened_parameter_kept_or_parted firstOfTwo .int _ htyped with
      ⟨_, hany, hkept⟩ | ⟨⟨_, herr⟩, _⟩
    · obtain rfl := Except.ok.inj hany
      rcases hkept with hany | ⟨s, _, _, hexact⟩
      · cases hany
      · obtain ⟨hall, hunique⟩ := hexact nofun
        rw [← hunique (.arrow .mark (.arrow .int .int)) rfl rfl] at hall
        exact hall
    · cases herr
  · rcases weakened_parameter_kept_or_parted passesConstant .int .int rfl with
      ⟨_, hany, _⟩ | ⟨_, ⟨test, hparts, _, hreported⟩ | hcalls⟩
    · cases hany
    · exact ⟨test, hparts, hreported nofun⟩
    · exact absurd hcalls not_callsMarkedDomain_passesConstant

/-- Accepted with a parameter of type `int` and rejected with `any`, though the parameter is not
used. -/
theorem passesConstant_rejected_at_any :
    (passesConstant.fill .int).typed = .ok .int ∧
      (passesConstant.fill .any).typed =
        .error (.argMismatch (.arrow .int .int) (.arrow .any .int)) ∧
      ¬∃ ty, (passesConstant.fill .any).typed = .ok ty := by
  refine ⟨rfl, rfl, ?_⟩
  rintro ⟨_, h⟩
  cases h

end LambdaAny
