import LambdaAny.Expr.Printer
import LambdaAny.Proofs.Lexing
import LambdaAny.Proofs.Rendering

/-!
# Trees on one line

A tree is printed on one line exactly if that line fits into the width.  If it does, every `line` of
its document is a space, however deep the groups are in which it stands.  If it does not, the
outermost group is broken, and each kind of tree has a `line` of its own in that group: none leaves
all its breaks to the groups of its parts.

A literal or a variable has no place for a break and is written as it is in every width.
-/

namespace LambdaAny
namespace Doc

/-! ## Documents on one line -/

theorem Page.write_write (page : Page) (s t : String) :
    (page.write s).write t = page.write (s ++ t) := by
  simp only [Page.write, String.append_assoc, String.length_append, Nat.add_assoc]

/-- A document fits on a line if its text does and so does what follows.  The columns that are
reached on the way need not be looked at: they come before the last one. -/
theorem fits_flat (width : Nat) (doc : Doc) (after : Nat → Bool) (column : Nat) :
    doc.fits width .flat after column = true ↔
      column + doc.flatText.length ≤ width ∧ after (column + doc.flatText.length) = true := by
  induction doc generalizing after column with
  | text s =>
      rw [fits, Bool.and_eq_true, decide_eq_true_iff]
      rfl
  | line =>
      rw [fits, Bool.and_eq_true, decide_eq_true_iff]
      rfl
  | append first second ihfirst ihsecond =>
      rw [fits, ihfirst, ihsecond, flatText, String.length_append, ← Nat.add_assoc]
      constructor
      · rintro ⟨-, hfits, hafter⟩
        exact ⟨hfits, hafter⟩
      · rintro ⟨hfits, hafter⟩
        exact ⟨by omega, hfits, hafter⟩
  | nest k doc ih => exact ih after column
  | group doc ih => exact ih after column

/-- In flat mode nothing is decided any more. -/
theorem layout_flat (width : Nat) (doc : Doc) (indent : Nat) (next : Option Nat)
    (after : Nat → Bool) (page : Page) :
    doc.layout width indent .flat next after page = page.write doc.flatText := by
  induction doc generalizing indent next after page with
  | text s => rfl
  | line => rfl
  | append first second ihfirst ihsecond =>
      rw [layout, ihfirst, ihsecond, Page.write_write]
      rfl
  | nest k doc ih => exact ih _ next after page
  | group doc ih => exact ih indent next after page

/-! ## Broken documents -/

/-- The document has a `line` outside of all groups. -/
def hasBreak : Doc → Bool
  | text _ => false
  | line => true
  | append first second => first.hasBreak || second.hasBreak
  | nest _ doc => doc.hasBreak
  | group _ => false

theorem hasBreak_append (first second : Doc) :
    (first ++ second).hasBreak = (first.hasBreak || second.hasBreak) := rfl

theorem newline_mem_layout {doc : Doc} (h : doc.hasBreak = true) (width indent : Nat)
    (next : Option Nat) (after : Nat → Bool) (page : Page) :
    '\n' ∈ (doc.layout width indent .broken next after page).text.toList := by
  induction doc generalizing indent next after page with
  | text s => cases h
  | line =>
      rw [layout, Page.newline, String.toList_append, String.toList_append]
      simp
  | append first second ihfirst ihsecond =>
      rw [layout]
      rcases Bool.or_eq_true_iff.mp h with hfirst | hsecond
      · -- what the second document writes stands behind the line feed
        obtain ⟨s, -, htext⟩ := exists_renders_layout width second indent .broken next after
          (first.layout width indent .broken (if second.isEmpty then next else some indent)
            (second.fits width .broken after) page)
        rw [htext, String.toList_append]
        exact List.mem_append_left _ (ihfirst hfirst _ _ _ _)
      · exact ihsecond hsecond _ _ _ _
  | nest k doc ih => exact ih h _ next after page
  | group doc ih => cases h

/-- A group is the whole text: nothing stands before it, and nothing behind has to fit. -/
theorem render_group (width : Nat) (doc : Doc) :
    (doc.flatText.length ≤ width → (group doc).render width = doc.flatText) ∧
      (width < doc.flatText.length → (group doc).render width =
        (doc.layout width 0 .broken none (fun _ => true) .blank).text) := by
  have hfits := fits_flat width doc (fun _ => true) Page.blank.column
  have hcolumn : Page.blank.column + doc.flatText.length = doc.flatText.length := Nat.zero_add _
  rw [hcolumn] at hfits
  unfold render
  rw [layout]
  constructor
  · intro hle
    rw [if_pos (hfits.mpr ⟨hle, rfl⟩), layout_flat]
    exact String.empty_append
  · intro hlt
    rw [if_neg fun h => Nat.not_lt_of_le (hfits.mp h).1 hlt]

end Doc

/-! ## Texts without line feeds -/

/-- The text has no line feed. -/
def OneLine (s : String) : Prop := '\n' ∉ s.toList

instance (s : String) : Decidable (OneLine s) := inferInstanceAs (Decidable ('\n' ∉ s.toList))

theorem OneLine.append {s t : String} (hs : OneLine s) (ht : OneLine t) : OneLine (s ++ t) := by
  unfold OneLine
  rw [String.toList_append, List.mem_append, not_or]
  exact ⟨hs, ht⟩

theorem oneLine_identifier {name : String} (h : IsIdentifier name) : OneLine name := by
  have ⟨c, more, hchars, _⟩ := h
  obtain ⟨hstart, hmore⟩ := (Lexer.isIdentifier_iff hchars).mp h
  intro hmem
  rw [hchars] at hmem
  rcases List.mem_cons.mp hmem with rfl | hlater
  · exact absurd hstart (by decide)
  · exact absurd (hmore _ hlater) (by decide)

theorem oneLine_repr (n : Int) : OneLine n.repr := by
  have hdigits : ∀ k : Nat, OneLine k.repr := by
    intro k hmem
    rw [Nat.toList_repr] at hmem
    exact absurd (Nat.isDigit_of_mem_toDigits (by decide) (by decide) hmem) (by decide)
  cases n with
  | ofNat k => exact hdigits k
  | negSucc k => exact .append (s := "-") (by decide) (hdigits (k + 1))

theorem Ty.oneLine_text (ty : Ty) : OneLine ty.text := by
  induction ty with
  | int | bool | any => decide
  | arrow dom cod ihdom ihcod =>
      have hdom : OneLine (if dom.isArrow then "(" ++ dom.text ++ ")" else dom.text) := by
        split
        · exact .append (.append (by decide) ihdom) (by decide)
        · exact ihdom
      exact .append (.append hdom (by decide)) ihcod

namespace Doc

/-- No text of the document has a line feed. -/
def Solid : Doc → Prop
  | text s => OneLine s
  | line => True
  | append first second => first.Solid ∧ second.Solid
  | nest _ doc => doc.Solid
  | group doc => doc.Solid

theorem solid_append_iff {first second : Doc} :
    (first ++ second).Solid ↔ first.Solid ∧ second.Solid := .rfl

theorem Solid.oneLine_flatText {doc : Doc} (h : doc.Solid) : OneLine doc.flatText := by
  induction doc with
  | text s => exact h
  | line => decide
  | append first second ihfirst ihsecond => exact .append (ihfirst h.1) (ihsecond h.2)
  | nest k doc ih => exact ih h
  | group doc ih => exact ih h

end Doc

/-! ## Trees -/

namespace Expr

/-- Neither a literal nor a variable. -/
def isCompound : Expr → Bool
  | int _ | bool _ | var _ => false
  | op _ _ _ | ite _ _ _ | letIn _ _ _ | letRec _ _ _ _ _ _ | abs _ _ _ | app _ _ => true

/-- All names that are written in a tree: variables, binders, functions and parameters. -/
def names : Expr → List String
  | int _ | bool _ => []
  | var name => [name]
  | op _ lhs rhs => lhs.names ++ rhs.names
  | ite cond thn els => cond.names ++ thn.names ++ els.names
  | letIn binder bindee tail => binder :: bindee.names ++ tail.names
  | letRec func param _ _ body tail => func :: param :: body.names ++ tail.names
  | abs param _ body => param :: body.names
  | app func arg => func.names ++ arg.names

/-- The outermost group of a tree has a break of its own. -/
theorem exists_group {e : Expr} (h : e.isCompound = true) (indent : Int) :
    ∃ doc, e.toDoc indent = .group doc ∧ doc.hasBreak = true := by
  cases e with
  | int | bool | var => cases h
  | op | ite | letIn | letRec | abs | app =>
      exact ⟨_, rfl, by simp [Doc.hasBreak_append, Doc.hasBreak]⟩

theorem solid_bracket {doc : Doc} (h : doc.Solid) (parens : Bool) : (bracket parens doc).Solid := by
  cases parens with
  | false => exact h
  | true => exact ⟨⟨show OneLine "(" by decide, h⟩, show OneLine ")" by decide⟩

theorem oneLine_paramText {param : String} (h : IsIdentifier param) (ty : Ty) :
    OneLine (paramText param ty) := by
  have hopen : OneLine ("(" ++ param ++ ": ") :=
    .append (.append (by decide) (oneLine_identifier h)) (by decide)
  exact .append (.append hopen ty.oneLine_text) (by decide)

theorem oneLine_op (o : Op) : OneLine o.text := by
  cases o with
  | arith o => cases o <;> decide
  | cmp o => cases o <;> decide

theorem solid_toDoc {e : Expr} (h : ∀ name ∈ e.names, IsIdentifier name) (indent : Int) :
    (e.toDoc indent).Solid := by
  induction e with
  | int n => exact oneLine_repr n.toInt
  | bool b =>
      cases b with
      | true => exact (show OneLine "true" by decide)
      | false => exact (show OneLine "false" by decide)
  | var name => exact oneLine_identifier (h name List.mem_cons_self)
  | op o lhs rhs ihl ihr =>
      rw [names, List.forall_mem_append] at h
      simp +decide [toDoc, Doc.solid_append_iff, Doc.Solid, solid_bracket, oneLine_op, ihl h.1,
        ihr h.2]
  | ite cond thn els ihc iht ihe =>
      rw [names, List.forall_mem_append, List.forall_mem_append] at h
      simp +decide [toDoc, Doc.solid_append_iff, Doc.Solid, ihc h.1.1, iht h.1.2, ihe h.2]
  | letIn binder bindee tail ihb iht =>
      rw [names, List.cons_append, List.forall_mem_cons, List.forall_mem_append] at h
      simp +decide [toDoc, Doc.solid_append_iff, Doc.Solid, oneLine_identifier h.1, ihb h.2.1,
        iht h.2.2]
  | letRec func param paramTy ret body tail ihb iht =>
      rw [names, List.cons_append, List.cons_append, List.forall_mem_cons, List.forall_mem_cons,
        List.forall_mem_append] at h
      obtain ⟨hfunc, hparam, hbody, htail⟩ := h
      have hfront : OneLine (func ++ " " ++ paramText param paramTy) :=
        .append (.append (oneLine_identifier hfunc) (by decide)) (oneLine_paramText hparam paramTy)
      have hhead : OneLine (func ++ " " ++ paramText param paramTy ++ ": " ++ ret.text ++ " =") :=
        .append (.append (.append hfront (by decide)) ret.oneLine_text) (by decide)
      simp +decide [toDoc, Doc.solid_append_iff, Doc.Solid, hhead, ihb hbody, iht htail]
  | abs param ty body ih =>
      rw [names, List.forall_mem_cons] at h
      have hhead : OneLine (paramText param ty ++ " ->") :=
        .append (oneLine_paramText h.1 ty) (by decide)
      simp +decide [toDoc, Doc.solid_append_iff, Doc.Solid, hhead, ih h.2]
  | app func arg ihf iha =>
      rw [names, List.forall_mem_append] at h
      simp +decide [toDoc, Doc.solid_append_iff, Doc.Solid, solid_bracket, ihf h.1, iha h.2]

/-- A tree that is neither a literal nor a variable is printed as its flat text if that is at most as
long as the width, and with a line feed otherwise.  With identifiers for names, the flat text is one
line, so one line is printed exactly if it fits. -/
theorem format_one_line_iff_fits {e : Expr} (h : e.isCompound = true) (width : Nat) (indent : Int) :
    ((e.toDoc indent).flatText.length ≤ width → e.format width indent = (e.toDoc indent).flatText) ∧
      (width < (e.toDoc indent).flatText.length → '\n' ∈ (e.format width indent).toList) ∧
      ((∀ name ∈ e.names, IsIdentifier name) →
        ('\n' ∉ (e.format width indent).toList ↔ (e.toDoc indent).flatText.length ≤ width)) := by
  obtain ⟨doc, hdoc, hbreak⟩ := exists_group h indent
  obtain ⟨hfits, hbroken⟩ := doc.render_group width
  have hflat : (e.toDoc indent).flatText.length ≤ width →
      e.format width indent = (e.toDoc indent).flatText := by
    intro hle
    unfold format
    rw [hdoc] at hle ⊢
    exact hfits hle
  have hnewline : width < (e.toDoc indent).flatText.length →
      '\n' ∈ (e.format width indent).toList := by
    intro hlt
    unfold format
    rw [hdoc] at hlt ⊢
    rw [hbroken hlt]
    exact Doc.newline_mem_layout hbreak width 0 none _ .blank
  refine ⟨hflat, hnewline, ?_⟩
  intro hnames
  constructor
  · intro hone
    exact Nat.le_of_not_lt fun hlt => hone (hnewline hlt)
  · intro hle
    rw [hflat hle]
    exact (solid_toDoc hnames indent).oneLine_flatText

/-- `let x = f 1 in x + 2`: a group inside of a group, and groups on both sides of its break. -/
def boundCall : Expr :=
  .letIn "x" (.app (.var "f") (.int 1)) (.op (.arith .add) (.var "x") (.int 2))

/-- It fits into a width of exactly its length, and not into one less. -/
theorem format_one_line_boundCall :
    boundCall.isCompound = true ∧ (∀ name ∈ boundCall.names, IsIdentifier name) ∧
      boundCall.format 20 (-3) = "let x = f 1 in x + 2" ∧
      '\n' ∈ (boundCall.format 19 (-3)).toList ∧ '\n' ∉ (boundCall.format 20 (-3)).toList := by
  have hcompound : boundCall.isCompound = true := rfl
  have hnames : ∀ name ∈ boundCall.names, IsIdentifier name := by decide
  have hflat : (boundCall.toDoc (-3)).flatText = "let x = f 1 in x + 2" := by decide +kernel
  have hlength : (boundCall.toDoc (-3)).flatText.length = 20 := by
    rw [hflat]
    decide +kernel
  obtain ⟨hfits, -, hexactly⟩ := format_one_line_iff_fits hcompound 20 (-3)
  obtain ⟨-, hbroken, -⟩ := format_one_line_iff_fits hcompound 19 (-3)
  exact ⟨hcompound, hnames, (hfits (Nat.le_of_eq hlength)).trans hflat, hbroken (by omega),
    (hexactly hnames).mpr (Nat.le_of_eq hlength)⟩

end Expr
end LambdaAny
