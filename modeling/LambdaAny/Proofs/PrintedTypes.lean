import LambdaAny.Proofs.RoundTrip

/-!
# Printed types read back

A printed type is read back wherever it stands, unless an arrow stands behind it, which is then taken
for a part of the type.  So no two types are printed alike.

The printer writes no parentheses but those that every spelling of the type has: the tokens of the
printed type are what is left of any other spelling when some of its tokens are struck out.  This is
not said of expressions, whose printed form may have more tokens than the text they were read from.
-/

namespace LambdaAny

open Grammar
open LambdaAny.Parser

/-! ## The shortest spelling -/

/-- The tokens of the printed type, where the given phrase must stand. -/
def Ty.tokensAs (t : Ty) : TyPhrase → List Token
  | .atom => enclose t.isArrow t.tokens
  | .ty => t.tokens

theorem sublist_enclose (parens : Bool) (ts : List Token) : ts.Sublist (enclose parens ts) := by
  cases parens with
  | false => exact .refl ts
  | true => exact (List.sublist_append_left ts [.symbol .parenClose]).cons _

theorem enclose_sublist {ts us : List Token} (h : ts.Sublist us) (parens : Bool) :
    (enclose parens ts).Sublist (enclose true us) := by
  cases parens with
  | false => exact h.trans (sublist_enclose true us)
  | true => exact (h.append (.refl [.symbol .parenClose])).cons_cons _

/-- Every spelling of a type has the tokens of the printed one, in their order. -/
theorem Ty.tokensAs_sublist {phrase : TyPhrase} {us : List Token} {t : Ty}
    (h : DerivesTy phrase us t) : (t.tokensAs phrase).Sublist us := by
  induction h with
  | int => exact .refl _
  | bool => exact .refl _
  | any => exact .refl _
  | @parens _ inner _ ih => exact enclose_sublist ih inner.isArrow
  | @ofAtom _ whole _ ih => exact (sublist_enclose whole.isArrow whole.tokens).trans ih
  | arrow _ _ ihdom ihcod => exact ihdom.append (ihcod.cons_cons (.symbol .arrow))

/-! ## What stands behind a type -/

/-- No arrow stands at the front. -/
def NoArrow (ts : List Lexeme) : Prop := ts.head?.map Lexeme.token ≠ some (.symbol .arrow)

instance (ts : List Lexeme) : Decidable (NoArrow ts) := inferInstanceAs (Decidable (¬_))

theorem noArrow_iff {ts : List Lexeme} :
    NoArrow ts ↔ ∀ lexeme tail, ts = lexeme :: tail → lexeme.token ≠ .symbol .arrow := by
  cases ts with
  | nil => simp [NoArrow]
  | cons lexeme tail => simp [NoArrow]

/-- A type is read as far as it goes. -/
theorem noArrow_of_reads_ty {eof : Nat} {ts rest : List Lexeme} {t : Ty}
    (h : Reads (ty eof ts) t rest) : NoArrow rest := by
  obtain ⟨dom, mid, hdom, ⟨lexeme, tail, cod, rfl, _, hcod, _⟩ | ⟨hno, _, rfl⟩⟩ := reads_ty_iff.mp h
  · -- behind the arrow the same is asked of fewer lexemes
    have hshorter : tail.length + 1 < ts.length := hdom.shorter
    exact noArrow_of_reads_ty hcod
  · exact noArrow_iff.mpr hno
termination_by ts.length

theorem reads_ty_tokens {t : Ty} {front : List Lexeme} (h : front.map Lexeme.token = t.tokens)
    {rest : List Lexeme} (hrest : NoArrow rest) (eof : Nat) :
    Reads (ty eof (front ++ rest)) t rest :=
  completesTy_of_derives t.derives_tokens.1 front rest h (noArrow_iff.mp hrest)

/-! ## Printing and reading -/

theorem Ty.lex_text (t : Ty) :
    ∃ printed, Lexer.lex t.text = .ok printed ∧ printed.map Lexeme.token = t.tokens :=
  Lexer.lex_spelled t.spells_text.spelled

theorem Ty.ofLexemes_eq_ok_of_reads {ts : List Lexeme} {t : Ty}
    (h : Reads (ty (endOffset ts) ts) t []) : Ty.ofLexemes ts = .ok t := by
  obtain ⟨hlt, heq⟩ := h
  rw [Ty.ofLexemes, heq]
  rfl

theorem Ty.ofLexemes_printed {t : Ty} {printed : List Lexeme}
    (h : printed.map Lexeme.token = t.tokens) : Ty.ofLexemes printed = .ok t := by
  have hnil : NoArrow [] := by decide
  have hreads := reads_ty_tokens h hnil (endOffset printed)
  rw [List.append_nil] at hreads
  exact Ty.ofLexemes_eq_ok_of_reads hreads

theorem Ty.eq_of_text_eq {t t' : Ty} (h : t'.text = t.text) : t' = t := by
  obtain ⟨printed, hlex, htokens⟩ := t.lex_text
  obtain ⟨printed', hlex', htokens'⟩ := t'.lex_text
  rw [h, hlex] at hlex'
  obtain rfl : printed = printed' := Except.ok.inj hlex'
  exact Except.ok.inj ((Ty.ofLexemes_printed htokens').symm.trans (Ty.ofLexemes_printed htokens))

/-- A printed type is read back in front of everything but an arrow, at whatever places its tokens
stand, and it is the printed form of no other type.  A type that was read can be printed and read
again in the same place, with no more tokens than it was read from the first time. -/
theorem printed_type_reads_back (t : Ty) :
    ∃ printed, Lexer.lex t.text = .ok printed ∧ Ty.ofLexemes printed = .ok t ∧
      (∀ (eof : Nat) (front rest : List Lexeme),
        front.map Lexeme.token = printed.map Lexeme.token →
          (Reads (ty eof (front ++ rest)) t rest ↔ NoArrow rest)) ∧
      (∀ t' : Ty, t'.text = t.text → t' = t) ∧
      ∀ (eof : Nat) (ts rest : List Lexeme), Reads (ty eof ts) t rest →
        ∃ used, ts = used ++ rest ∧ printed.length ≤ used.length ∧
          (printed.map Lexeme.token).Sublist (used.map Lexeme.token) ∧
          Reads (ty eof (printed ++ rest)) t rest := by
  obtain ⟨printed, hlex, htokens⟩ := t.lex_text
  refine ⟨printed, hlex, Ty.ofLexemes_printed htokens, ?_, fun t' => Ty.eq_of_text_eq, ?_⟩
  · intro eof front rest hfront
    exact ⟨noArrow_of_reads_ty, fun hrest => reads_ty_tokens (hfront.trans htokens) hrest eof⟩
  · intro eof ts rest hreads
    obtain ⟨used, hts, hderives⟩ := ty_sound hreads
    have hsub : (printed.map Lexeme.token).Sublist (used.map Lexeme.token) := by
      rw [htokens]
      exact Ty.tokensAs_sublist hderives
    have hlength : printed.length ≤ used.length := by simpa using hsub.length_le
    exact ⟨used, hts, hlength, hsub, reads_ty_tokens htokens (noArrow_of_reads_ty hreads) eof⟩

/-- Its printed form is `(int -> bool) -> any -> int`. -/
def takesPredicate : Ty := .arrow (.arrow .int .bool) (.arrow .any .int)

/-- `((int -> (bool))) -> (any -> int)`, with one byte for each token. -/
def bracketedSpelling : List Lexeme :=
  [⟨.symbol .parenOpen, 0, 1⟩, ⟨.symbol .parenOpen, 1, 2⟩, ⟨.keyword .intKw, 2, 3⟩,
    ⟨.symbol .arrow, 3, 4⟩, ⟨.symbol .parenOpen, 4, 5⟩, ⟨.keyword .boolKw, 5, 6⟩,
    ⟨.symbol .parenClose, 6, 7⟩, ⟨.symbol .parenClose, 7, 8⟩, ⟨.symbol .parenClose, 8, 9⟩,
    ⟨.symbol .arrow, 9, 10⟩, ⟨.symbol .parenOpen, 10, 11⟩, ⟨.keyword .anyKw, 11, 12⟩,
    ⟨.symbol .arrow, 12, 13⟩, ⟨.keyword .intKw, 13, 14⟩, ⟨.symbol .parenClose, 14, 15⟩]

/-- `= 5`, as it stands behind the type of a recursive function. -/
def boundFive : List Lexeme := [⟨.symbol .equals, 15, 16⟩, ⟨.int 5, 16, 17⟩]

theorem derives_bracketedSpelling :
    DerivesTy .ty (bracketedSpelling.map Lexeme.token) takesPredicate := by
  have hdom : DerivesTy .ty
      [.keyword .intKw, .symbol .arrow, .symbol .parenOpen, .keyword .boolKw, .symbol .parenClose]
      (.arrow .int .bool) := .arrow .int (.ofAtom (.parens (.ofAtom .bool)))
  have hcod : DerivesTy .ty [.keyword .anyKw, .symbol .arrow, .keyword .intKw]
      (.arrow .any .int) := .arrow .any (.ofAtom .int)
  exact .arrow (.parens (.ofAtom (.parens hdom))) (.ofAtom (.parens hcod))

/-- The spelling above has parentheses that are not printed, and what stands behind it does not matter. -/
theorem printed_type_reads_back_takesPredicate :
    NoArrow boundFive ∧
      Reads (ty 17 (bracketedSpelling ++ boundFive)) takesPredicate boundFive ∧
      (∀ t : Ty, t.text = "(int -> bool) -> any -> int" → t = takesPredicate) ∧
      ∃ printed, Lexer.lex "(int -> bool) -> any -> int" = .ok printed ∧
        Reads (ty 17 (printed ++ boundFive)) takesPredicate boundFive ∧
        printed.length ≤ bracketedSpelling.length := by
  have htext : takesPredicate.text = "(int -> bool) -> any -> int" := by decide
  have hbehind : NoArrow boundFive := by decide
  have hreads : Reads (ty 17 (bracketedSpelling ++ boundFive)) takesPredicate boundFive :=
    completesTy_of_derives derives_bracketedSpelling bracketedSpelling boundFive rfl
      (noArrow_iff.mp hbehind)
  obtain ⟨printed, hlex, -, hback, hunique, hagain⟩ := printed_type_reads_back takesPredicate
  obtain ⟨used, hused, hlength, -, -⟩ := hagain 17 _ boundFive hreads
  obtain rfl := List.append_cancel_right hused
  rw [htext] at hlex hunique
  exact ⟨hbehind, hreads, hunique, printed, hlex, (hback 17 printed boundFive rfl).mpr hbehind,
    hlength⟩

end LambdaAny
