import LambdaAny.Expr.Scope

/-!
# Free names

The occurrences of variables that nothing inside an expression binds, from left to right.  A binder
takes the occurrences of its name out of the part it scopes over: a `let` out of its tail, a
parameter out of its body, and the name of a recursive function out of body and tail.

The scope check finds the first of them that the scope does not hold.  So it passes in the empty
scope exactly if there is none, that is, if every reference has a binder of its name around it.
-/

namespace LambdaAny
namespace Expr

/-- The free occurrences of variables, from left to right. -/
def freeNames : Expr → List String
  | int _ | bool _ => []
  | var name => [name]
  | op _ lhs rhs => lhs.freeNames ++ rhs.freeNames
  | ite cond thn els => cond.freeNames ++ (thn.freeNames ++ els.freeNames)
  | letIn binder bindee tail => bindee.freeNames ++ tail.freeNames.filter (· ≠ binder)
  | letRec func param _ _ body tail =>
    (body.freeNames.filter (· ≠ param)).filter (· ≠ func) ++ tail.freeNames.filter (· ≠ func)
  | abs param _ body => body.freeNames.filter (· ≠ param)
  | app func arg => func.freeNames ++ arg.freeNames

/-! ## Properties of all free names -/

section

variable {P : String → Prop}

theorem forall_mem_filter_ne {names : List String} {binder : String} :
    (∀ name ∈ names.filter (· ≠ binder), P name) ↔ ∀ name ∈ names, name = binder ∨ P name := by
  constructor
  · intro h name hmem
    by_cases heq : name = binder
    · exact .inl heq
    · exact .inr (h name (List.mem_filter.mpr ⟨hmem, decide_eq_true heq⟩))
  · intro h name hmem
    obtain ⟨hmem, hne⟩ := List.mem_filter.mp hmem
    exact (h name hmem).resolve_left (of_decide_eq_true hne)

theorem forall_freeNames_op {o : Op} {lhs rhs : Expr} :
    (∀ name ∈ (op o lhs rhs).freeNames, P name) ↔
      (∀ name ∈ lhs.freeNames, P name) ∧ ∀ name ∈ rhs.freeNames, P name :=
  List.forall_mem_append

theorem forall_freeNames_ite {cond thn els : Expr} :
    (∀ name ∈ (ite cond thn els).freeNames, P name) ↔
      (∀ name ∈ cond.freeNames, P name) ∧ (∀ name ∈ thn.freeNames, P name) ∧
        ∀ name ∈ els.freeNames, P name := by
  rw [freeNames, List.forall_mem_append, List.forall_mem_append]

theorem forall_freeNames_letIn {binder : String} {bindee tail : Expr} :
    (∀ name ∈ (letIn binder bindee tail).freeNames, P name) ↔
      (∀ name ∈ bindee.freeNames, P name) ∧ ∀ name ∈ tail.freeNames, name = binder ∨ P name := by
  rw [freeNames, List.forall_mem_append, forall_mem_filter_ne]

theorem forall_freeNames_letRec {func param : String} {paramTy ret : Ty} {body tail : Expr} :
    (∀ name ∈ (letRec func param paramTy ret body tail).freeNames, P name) ↔
      (∀ name ∈ body.freeNames, name = param ∨ name = func ∨ P name) ∧
        ∀ name ∈ tail.freeNames, name = func ∨ P name := by
  rw [freeNames, List.forall_mem_append, forall_mem_filter_ne, forall_mem_filter_ne,
    forall_mem_filter_ne]

theorem forall_freeNames_abs {param : String} {ty : Ty} {body : Expr} :
    (∀ name ∈ (abs param ty body).freeNames, P name) ↔
      ∀ name ∈ body.freeNames, name = param ∨ P name :=
  forall_mem_filter_ne

theorem forall_freeNames_app {func arg : Expr} :
    (∀ name ∈ (app func arg).freeNames, P name) ↔
      (∀ name ∈ func.freeNames, P name) ∧ ∀ name ∈ arg.freeNames, P name :=
  List.forall_mem_append

end

/-! ## The scope check -/

/-- To look behind a binder for what a scope does not hold is to look with the binder in the
scope. -/
theorem find?_filter_ne (names scope : List String) (binder : String) :
    (names.filter (· ≠ binder)).find? (· ∉ scope) = names.find? (· ∉ binder :: scope) := by
  rw [List.find?_filter]
  congr 1
  funext name
  simp [List.mem_cons, not_or]

theorem freeVar?_eq_find? (e : Expr) (scope : List String) :
    e.freeVar? scope = e.freeNames.find? (· ∉ scope) := by
  induction e generalizing scope with
  | int n => rfl
  | bool b => rfl
  | var name =>
      by_cases hmem : name ∈ scope
      · simp [freeVar?, freeNames, hmem]
      · simp [freeVar?, freeNames, hmem]
  | op o lhs rhs ihl ihr => simp only [freeVar?, freeNames, List.find?_append, ihl, ihr]
  | ite cond thn els ihc iht ihe =>
      simp only [freeVar?, freeNames, List.find?_append, ihc, iht, ihe]
  | letIn binder bindee tail ihb iht =>
      simp only [freeVar?, freeNames, List.find?_append, ihb, iht, find?_filter_ne]
  | letRec func param _ _ body tail ihb iht =>
      simp only [freeVar?, freeNames, List.find?_append, ihb, iht, find?_filter_ne]
  | abs param _ body ihb => simp only [freeVar?, freeNames, ihb, find?_filter_ne]
  | app func arg ihf iha => simp only [freeVar?, freeNames, List.find?_append, ihf, iha]

/-- The scope check passes exactly if the scope holds every free name. -/
theorem freeVar?_eq_none_iff {e : Expr} {scope : List String} :
    e.freeVar? scope = none ↔ ∀ name ∈ e.freeNames, name ∈ scope := by
  rw [freeVar?_eq_find?, List.find?_eq_none]
  simp

theorem freeVar?_eq_some_iff {e : Expr} {scope : List String} {name : String} :
    e.freeVar? scope = some name ↔
      ∃ before after, e.freeNames = before ++ name :: after ∧ name ∉ scope ∧
        ∀ other ∈ before, other ∈ scope := by
  rw [freeVar?_eq_find?, List.find?_eq_some_iff_append]
  constructor
  · rintro ⟨hname, before, after, hsplit, hbefore⟩
    refine ⟨before, after, hsplit, of_decide_eq_true hname, fun other hmem => ?_⟩
    simpa using hbefore other hmem
  · rintro ⟨before, after, hsplit, hname, hbefore⟩
    refine ⟨decide_eq_true hname, before, after, hsplit, fun other hmem => ?_⟩
    simpa using hbefore other hmem

theorem isClosed_iff {e : Expr} : e.isClosed = true ↔ e.freeNames = [] := by
  rw [isClosed, Option.isNone_iff_eq_none, freeVar?_eq_none_iff, List.eq_nil_iff_forall_not_mem]
  simp only [List.not_mem_nil, imp_false]

/-! ## References and the binders around them -/

/-- Somewhere in the expression stands a reference to `name`, in the scope of these binders and of
no others, the outermost first. -/
inductive Refers : Expr → (binders : List String) → (name : String) → Prop
  | var (name : String) : Refers (var name) [] name
  | lhs {o : Op} {lhs rhs : Expr} {binders : List String} {name : String}
      (h : Refers lhs binders name) : Refers (op o lhs rhs) binders name
  | rhs {o : Op} {lhs rhs : Expr} {binders : List String} {name : String}
      (h : Refers rhs binders name) : Refers (op o lhs rhs) binders name
  | cond {cond thn els : Expr} {binders : List String} {name : String}
      (h : Refers cond binders name) : Refers (ite cond thn els) binders name
  | thn {cond thn els : Expr} {binders : List String} {name : String}
      (h : Refers thn binders name) : Refers (ite cond thn els) binders name
  | els {cond thn els : Expr} {binders : List String} {name : String}
      (h : Refers els binders name) : Refers (ite cond thn els) binders name
  | bindee {binder : String} {bindee tail : Expr} {binders : List String} {name : String}
      (h : Refers bindee binders name) : Refers (letIn binder bindee tail) binders name
  | tail {binder : String} {bindee tail : Expr} {binders : List String} {name : String}
      (h : Refers tail binders name) : Refers (letIn binder bindee tail) (binder :: binders) name
  | recBody {func param : String} {paramTy ret : Ty} {body tail : Expr} {binders : List String}
      {name : String} (h : Refers body binders name) :
      Refers (letRec func param paramTy ret body tail) (func :: param :: binders) name
  | recTail {func param : String} {paramTy ret : Ty} {body tail : Expr} {binders : List String}
      {name : String} (h : Refers tail binders name) :
      Refers (letRec func param paramTy ret body tail) (func :: binders) name
  | body {param : String} {ty : Ty} {body : Expr} {binders : List String} {name : String}
      (h : Refers body binders name) : Refers (abs param ty body) (param :: binders) name
  | func {func arg : Expr} {binders : List String} {name : String}
      (h : Refers func binders name) : Refers (app func arg) binders name
  | arg {func arg : Expr} {binders : List String} {name : String}
      (h : Refers arg binders name) : Refers (app func arg) binders name

theorem mem_filter_ne {names : List String} {binder name : String} :
    name ∈ names.filter (· ≠ binder) ↔ name ∈ names ∧ name ≠ binder := by
  rw [List.mem_filter, decide_eq_true_iff]

/-- A reference without a binder of its name is a free occurrence. -/
theorem Refers.mem_freeNames {e : Expr} {binders : List String} {name : String}
    (h : e.Refers binders name) (hname : name ∉ binders) : name ∈ e.freeNames := by
  induction h with
  | var name => exact List.mem_singleton_self name
  | lhs _ ih => exact List.mem_append_left _ (ih hname)
  | rhs _ ih => exact List.mem_append_right _ (ih hname)
  | cond _ ih => exact List.mem_append_left _ (ih hname)
  | thn _ ih => exact List.mem_append_right _ (List.mem_append_left _ (ih hname))
  | els _ ih => exact List.mem_append_right _ (List.mem_append_right _ (ih hname))
  | bindee _ ih => exact List.mem_append_left _ (ih hname)
  | tail _ ih =>
      obtain ⟨hne, hname⟩ := List.ne_and_not_mem_of_not_mem_cons hname
      exact List.mem_append_right _ (mem_filter_ne.mpr ⟨ih hname, hne⟩)
  | recBody _ ih =>
      obtain ⟨hfunc, hname⟩ := List.ne_and_not_mem_of_not_mem_cons hname
      obtain ⟨hparam, hname⟩ := List.ne_and_not_mem_of_not_mem_cons hname
      have hbody := mem_filter_ne.mpr ⟨ih hname, hparam⟩
      exact List.mem_append_left _ (mem_filter_ne.mpr ⟨hbody, hfunc⟩)
  | recTail _ ih =>
      obtain ⟨hne, hname⟩ := List.ne_and_not_mem_of_not_mem_cons hname
      exact List.mem_append_right _ (mem_filter_ne.mpr ⟨ih hname, hne⟩)
  | body _ ih =>
      obtain ⟨hne, hname⟩ := List.ne_and_not_mem_of_not_mem_cons hname
      exact mem_filter_ne.mpr ⟨ih hname, hne⟩
  | func _ ih => exact List.mem_append_left _ (ih hname)
  | arg _ ih => exact List.mem_append_right _ (ih hname)

theorem exists_refers {e : Expr} {name : String} (h : name ∈ e.freeNames) :
    ∃ binders, e.Refers binders name ∧ name ∉ binders := by
  induction e with
  | int n => cases h
  | bool b => cases h
  | var other =>
      obtain rfl := List.mem_singleton.mp h
      exact ⟨[], .var name, List.not_mem_nil⟩
  | op o lhs rhs ihl ihr =>
      rcases List.mem_append.mp h with hl | hr
      · exact (ihl hl).imp fun _ => And.imp_left .lhs
      · exact (ihr hr).imp fun _ => And.imp_left .rhs
  | ite cond thn els ihc iht ihe =>
      rcases List.mem_append.mp h with hc | hbranches
      · exact (ihc hc).imp fun _ => And.imp_left .cond
      · rcases List.mem_append.mp hbranches with ht | he
        · exact (iht ht).imp fun _ => And.imp_left .thn
        · exact (ihe he).imp fun _ => And.imp_left .els
  | letIn binder bindee tail ihb iht =>
      rcases List.mem_append.mp h with hb | ht
      · exact (ihb hb).imp fun _ => And.imp_left .bindee
      · obtain ⟨ht, hne⟩ := mem_filter_ne.mp ht
        obtain ⟨binders, href, hname⟩ := iht ht
        exact ⟨binder :: binders, .tail href, List.not_mem_cons_of_ne_of_not_mem hne hname⟩
  | letRec func param _ _ body tail ihb iht =>
      rcases List.mem_append.mp h with hb | ht
      · obtain ⟨hb, hfunc⟩ := mem_filter_ne.mp hb
        obtain ⟨hb, hparam⟩ := mem_filter_ne.mp hb
        obtain ⟨binders, href, hname⟩ := ihb hb
        have hinner : name ∉ param :: binders := List.not_mem_cons_of_ne_of_not_mem hparam hname
        exact ⟨_, .recBody href, List.not_mem_cons_of_ne_of_not_mem hfunc hinner⟩
      · obtain ⟨ht, hne⟩ := mem_filter_ne.mp ht
        obtain ⟨binders, href, hname⟩ := iht ht
        exact ⟨func :: binders, .recTail href, List.not_mem_cons_of_ne_of_not_mem hne hname⟩
  | abs param _ body ihb =>
      obtain ⟨hb, hne⟩ := mem_filter_ne.mp h
      obtain ⟨binders, href, hname⟩ := ihb hb
      exact ⟨param :: binders, .body href, List.not_mem_cons_of_ne_of_not_mem hne hname⟩
  | app func arg ihf iha =>
      rcases List.mem_append.mp h with hf | ha
      · exact (ihf hf).imp fun _ => And.imp_left .func
      · exact (iha ha).imp fun _ => And.imp_left .arg

/-- The scope check finds the first free occurrence that the scope does not hold, and nothing if the
scope holds them all.  An expression is closed exactly if it has no free occurrence, that is, if
each reference stands in the scope of a binder of its name. -/
theorem freeVar?_is_leftmost :
    (∀ (e : Expr) (scope : List String),
      (∀ name, e.freeVar? scope = some name ↔
        ∃ before after, e.freeNames = before ++ name :: after ∧ name ∉ scope ∧
          ∀ other ∈ before, other ∈ scope) ∧
      (e.freeVar? scope = none ↔ ∀ name ∈ e.freeNames, name ∈ scope)) ∧
    ∀ e : Expr, (e.isClosed = true ↔ e.freeNames = []) ∧
      (e.isClosed = true ↔ ∀ binders name, e.Refers binders name → name ∈ binders) := by
  refine ⟨fun e scope => ⟨fun name => freeVar?_eq_some_iff, freeVar?_eq_none_iff⟩, fun e => ?_⟩
  refine ⟨isClosed_iff, isClosed_iff.trans ⟨?_, ?_⟩⟩
  · intro hnone binders name href
    by_cases hname : name ∈ binders
    · exact hname
    · have hmem : name ∈ e.freeNames := href.mem_freeNames hname
      rw [hnone] at hmem
      cases hmem
  · intro hbound
    apply List.eq_nil_iff_forall_not_mem.mpr
    intro name hmem
    obtain ⟨binders, href, hname⟩ := exists_refers hmem
    exact hname (hbound binders name href)

end Expr
end LambdaAny
