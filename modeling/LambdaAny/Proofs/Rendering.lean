import LambdaAny.Layout

/-!
# The texts of a document

A rendering writes every text of the document as it is and every `line` as a space or as a line feed
and some spaces.  Which of the two, and how many spaces, is left open here; so is the width.  Laying
a document out is one way to render it, and what holds of every rendering holds of that one.
-/

namespace LambdaAny
namespace Doc

/-- The string is a text of the document. -/
inductive Renders : Doc → String → Prop
  | text (s : String) : Renders (.text s) s
  | space : Renders .line " "
  | newline (indent : Nat) : Renders .line ("\n" ++ String.ofList (List.replicate indent ' '))
  | append {first second : Doc} {s t : String} :
      Renders first s → Renders second t → Renders (first ++ second) (s ++ t)
  | nest {k : Int} {doc : Doc} {s : String} : Renders doc s → Renders (.nest k doc) s
  | group {doc : Doc} {s : String} : Renders doc s → Renders (.group doc) s

/-! ## The renderings of each kind of document -/

theorem renders_text_iff {s t : String} : Renders (.text s) t ↔ t = s := by
  constructor
  · intro h
    cases h
    rfl
  · rintro rfl
    exact .text t

theorem renders_line_iff {t : String} :
    Renders .line t ↔
      t = " " ∨ ∃ indent, t = "\n" ++ String.ofList (List.replicate indent ' ') := by
  constructor
  · intro h
    cases h with
    | space => exact .inl rfl
    | newline indent => exact .inr ⟨indent, rfl⟩
  · rintro (rfl | ⟨indent, rfl⟩)
    · exact .space
    · exact .newline indent

theorem renders_append_iff {first second : Doc} {t : String} :
    Renders (first ++ second) t ↔
      ∃ s, Renders first s ∧ ∃ s', Renders second s' ∧ t = s ++ s' := by
  constructor
  · intro h
    cases h with
    | append hfirst hsecond => exact ⟨_, hfirst, _, hsecond, rfl⟩
  · rintro ⟨s, hfirst, s', hsecond, rfl⟩
    exact .append hfirst hsecond

theorem renders_nest_iff {k : Int} {doc : Doc} {t : String} :
    Renders (.nest k doc) t ↔ Renders doc t := by
  constructor
  · intro h
    cases h with
    | nest hdoc => exact hdoc
  · exact .nest

theorem renders_group_iff {doc : Doc} {t : String} :
    Renders (.group doc) t ↔ Renders doc t := by
  constructor
  · intro h
    cases h with
    | group hdoc => exact hdoc
  · exact .group

theorem forall_renders_text {P : String → Prop} {s : String} (h : P s) :
    ∀ t, Renders (.text s) t → P t := by
  intro t ht
  rw [renders_text_iff.mp ht]
  exact h

/-- What holds of all renderings of two documents joins to what holds of those of both in a row. -/
theorem forall_renders_append {P Q R : String → Prop} {first second : Doc}
    (hfirst : ∀ s, Renders first s → P s) (hsecond : ∀ s, Renders second s → Q s)
    (hjoin : ∀ s t, P s → Q t → R (s ++ t)) : ∀ t, Renders (first ++ second) t → R t := by
  intro t ht
  obtain ⟨s, hs, s', hs', rfl⟩ := renders_append_iff.mp ht
  exact hjoin s s' (hfirst s hs) (hsecond s' hs')

/-! ## Layouts are renderings -/

theorem exists_renders_layout (width : Nat) (doc : Doc) :
    ∀ (indent : Nat) (mode : Mode) (next : Option Nat) (after : Nat → Bool) (page : Page),
      ∃ s, Renders doc s ∧
        (doc.layout width indent mode next after page).text = page.text ++ s := by
  induction doc with
  | text s =>
      intro indent mode next after page
      exact ⟨s, .text s, rfl⟩
  | line =>
      intro indent mode next after page
      cases mode with
      | flat => exact ⟨" ", .space, rfl⟩
      | broken => exact ⟨_, .newline (next.getD indent), String.append_assoc⟩
  | append first second ihfirst ihsecond =>
      intro indent mode next after page
      -- the second document is laid out on the page that the first one leaves
      obtain ⟨s, hs, hpage⟩ := ihfirst indent mode (if second.isEmpty then next else some indent)
        (second.fits width .broken after) page
      obtain ⟨t, ht, hpages⟩ := ihsecond indent mode next after
        (first.layout width indent mode (if second.isEmpty then next else some indent)
          (second.fits width .broken after) page)
      exact ⟨s ++ t, .append hs ht, by rw [layout, hpages, hpage, String.append_assoc]⟩
  | nest k doc ih =>
      intro indent mode next after page
      obtain ⟨s, hs, hpage⟩ := ih (indentBy indent k) mode next after page
      exact ⟨s, .nest hs, hpage⟩
  | group doc ih =>
      intro indent mode next after page
      cases mode with
      | flat =>
          obtain ⟨s, hs, hpage⟩ := ih indent .flat next after page
          exact ⟨s, .group hs, hpage⟩
      | broken =>
          by_cases hfits : doc.fits width .flat after page.column = true
          · obtain ⟨s, hs, hpage⟩ := ih indent .flat next after page
            exact ⟨s, .group hs, by rw [layout, if_pos hfits, hpage]⟩
          · obtain ⟨s, hs, hpage⟩ := ih indent .broken next after page
            exact ⟨s, .group hs, by rw [layout, if_neg hfits, hpage]⟩

theorem renders_render (width : Nat) (doc : Doc) : Renders doc (doc.render width) := by
  obtain ⟨s, hs, hpage⟩ := exists_renders_layout width doc 0 .broken none (fun _ => true) .blank
  have htext : doc.render width = s := by
    unfold render
    rw [hpage, Page.blank, String.empty_append]
  rw [htext]
  exact hs

end Doc
end LambdaAny
