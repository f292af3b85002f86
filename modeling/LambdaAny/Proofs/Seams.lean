import LambdaAny.Proofs.LexerTiling

/-!
# Seams

A blank ends whatever stands before it: no longest match reaches across it, and neither does an
error.  So a text that is put together from two texts with blanks between them has the items of the
first, followed by those of the second at their new places.  Nothing is asked of the two texts; they
may hold characters that start no token and numbers out of range.

The blanks are needed.  Without them two tokens can become one, as `<` and `=` do.
-/

namespace LambdaAny
namespace Lexer

/-! ## Blanks -/

/-- The text consists of spaces, line feeds, carriage returns and backspaces. -/
def IsBlankText (text : String) : Prop :=
  ∀ c ∈ text.toList, c = ' ' ∨ c = '\n' ∨ c = '\r' ∨ c = '\x08'

theorem IsBlankText.isBlank {text : String} (h : IsBlankText text) :
    ∀ c ∈ text.toList, isBlank c = true :=
  fun c hc => isBlank_iff.mpr (h c hc)

theorem all_isBlank_iff {text : String} : text.toList.all isBlank = true ↔ IsBlankText text := by
  rw [List.all_eq_true]
  exact ⟨fun h c hc => isBlank_iff.mp (h c hc), IsBlankText.isBlank⟩

instance (text : String) : Decidable (IsBlankText text) := decidable_of_iff _ all_isBlank_iff

theorem itemsFrom_blanks {blanks : List Char} (h : ∀ c ∈ blanks, isBlank c = true) (offset : Nat)
    (cs : List Char) :
    itemsFrom offset (blanks ++ cs) = itemsFrom (offset + byteLength blanks) cs := by
  induction blanks generalizing offset with
  | nil => rfl
  | cons c blanks ih =>
      obtain ⟨hc, hblanks⟩ := List.forall_mem_cons.mp h
      rw [List.cons_append, itemsFrom_blank hc, ih hblanks, byteLength_cons, Nat.add_assoc]

/-- There is a first character, and it is blank. -/
def StartsBlank (cs : List Char) : Prop := ∃ c ∈ cs.head?, isBlank c = true

theorem StartsBlank.of_gap {gap : String} (hgap : gap ≠ "") (hblank : IsBlankText gap)
    (cs : List Char) : StartsBlank (gap.toList ++ cs) := by
  cases hchars : gap.toList with
  | nil => exact absurd (String.toList_eq_nil_iff.mp hchars) hgap
  | cons c more =>
      have hc := hblank.isBlank c (by rw [hchars]; exact List.mem_cons_self)
      exact ⟨c, rfl, hc⟩

theorem StartsBlank.closing {cs : List Char} (h : StartsBlank cs) : Closing cs := by
  obtain ⟨c, hc, hblank⟩ := h
  intro d hd
  obtain rfl : c = d := Option.some.inj (hc.symm.trans hd)
  exact separates_of_isBlank hblank

/-! ## Places -/

end Lexer

/-- The token in a text with `n` more bytes in front. -/
def Lexeme.shift (n : Nat) (lexeme : Lexeme) : Lexeme := ⟨lexeme.token, lexeme.span.shift n⟩

/-- The error in a text with `n` more bytes in front. -/
def LexError.shift (n : Nat) : LexError → LexError
  | .illegalChar found span => .illegalChar found (span.shift n)
  | .intOutOfRange found span => .intOutOfRange found (span.shift n)

namespace Lexer

/-- The item in a text with `n` more bytes in front. -/
def shiftItem (n : Nat) : Item → Item
  | .ok lexeme => .ok (lexeme.shift n)
  | .error cause => .error (cause.shift n)

theorem item_add (offset n : Nat) (c : Char) (more : List Char) :
    item (offset + n) c more = shiftItem n (item offset c more) := by
  have hspan : (⟨offset + n, offset + n + byteLength (c :: more)⟩ : Span) =
      Span.shift n ⟨offset, offset + byteLength (c :: more)⟩ := by
    rw [Span.shift, Nat.add_right_comm]
  cases htoken : token c more with
  | ok t =>
      rw [item_of_token htoken, item_of_token htoken, hspan]
      rfl
  | error fault =>
      rw [item_of_fault htoken, item_of_fault htoken, hspan]
      cases fault <;> rfl

/-- The items of a text depend on where it stands in their places only. -/
theorem itemsFrom_add (offset n : Nat) (cs : List Char) :
    itemsFrom (offset + n) cs = (itemsFrom offset cs).map (shiftItem n) := by
  fun_induction piecesFrom offset cs with
  | case1 offset => rw [itemsFrom_nil, itemsFrom_nil, List.map_nil]
  | case2 offset c cs hblank ih =>
      rw [itemsFrom_blank hblank, itemsFrom_blank hblank, Nat.add_right_comm, ih]
  | case3 offset c cs hblank more ih =>
      have hsolid : isBlank c = false := by simpa using hblank
      rw [itemsFrom_cons hsolid, itemsFrom_cons hsolid, List.map_cons, ← ih, ← item_add,
        Nat.add_right_comm]

/-! ## Texts put together -/

theorem takeWhile_append_of_startsBlank {p : Char → Bool}
    (hp : ∀ c, p c = true → isIdentChar c = true) {rest : List Char} (hrest : StartsBlank rest)
    (cs : List Char) : (cs ++ rest).takeWhile p = cs.takeWhile p := by
  induction cs with
  | nil =>
      have hnone : ∀ c ∈ ([] : List Char), p c = true := by simp
      exact takeWhile_append_of_closing hp hnone hrest.closing
  | cons c cs ih =>
      cases hc : p c with
      | true => rw [List.cons_append, List.takeWhile_cons_of_pos hc, List.takeWhile_cons_of_pos hc, ih]
      | false => simp [hc]

/-- No lexeme reaches across a blank. -/
theorem lexemeTail_append {rest : List Char} (hrest : StartsBlank rest) (c : Char)
    (cs : List Char) : lexemeTail c (cs ++ rest) = lexemeTail c cs := by
  cases hstart : isIdentStart c with
  | true =>
      rw [lexemeTail_word hstart, lexemeTail_word hstart]
      exact takeWhile_append_of_startsBlank (fun _ h => h) hrest cs
  | false =>
      cases hdigit : c.isDigit with
      | true =>
          rw [lexemeTail_number hdigit, lexemeTail_number hdigit]
          exact takeWhile_append_of_startsBlank (fun _ h => isIdentChar_of_isDigit h) hrest cs
      | false =>
          cases cs with
          | cons d cs =>
              simp only [lexemeTail, hstart, hdigit, List.cons_append, Bool.false_eq_true, if_false]
          | nil =>
              cases rest with
              | nil => rfl
              | cons d rest =>
                  have hpair := ofText?_pair_eq_none (c := c) (.inl (hrest.closing d rfl))
                  simp only [lexemeTail, hstart, hdigit, hpair, List.nil_append, Option.isSome_none,
                    Bool.false_eq_true, if_false]

/-- By induction along the items of the first text. -/
theorem itemsFrom_append {rest : List Char} (hrest : StartsBlank rest) (offset : Nat)
    (cs : List Char) :
    itemsFrom offset (cs ++ rest) =
      itemsFrom offset cs ++ itemsFrom (offset + byteLength cs) rest := by
  fun_induction piecesFrom offset cs with
  | case1 offset =>
      rw [itemsFrom_nil]
      rfl
  | case2 offset c cs hblank ih =>
      rw [List.cons_append, itemsFrom_blank hblank, itemsFrom_blank hblank, ih, byteLength_cons,
        Nat.add_assoc]
  | case3 offset c cs hblank more ih =>
      have hsolid : isBlank c = false := by simpa using hblank
      have hcs : cs = more ++ cs.drop more.length := (lexemeTail_append_drop c cs).symm
      have htail : lexemeTail c (more ++ (cs.drop more.length ++ rest)) = more := by
        rw [← List.append_assoc, ← hcs, lexemeTail_append hrest]
      have hlength : byteLength (c :: cs) =
          byteLength (c :: more) + byteLength (cs.drop more.length) := by
        rw [← byteLength_append, List.cons_append, ← hcs]
      have happend : c :: cs ++ rest = c :: (more ++ (cs.drop more.length ++ rest)) := by
        rw [← List.append_assoc, ← hcs, List.cons_append]
      rw [happend, itemsFrom_lexeme hsolid htail, ih, itemsFrom_cons hsolid, hlength,
        List.cons_append, Nat.add_assoc]

theorem items_append_gap (front back : String) {gap : String} (hgap : gap ≠ "")
    (hblank : IsBlankText gap) :
    items (front ++ gap ++ back) =
      items front ++ (items back).map (shiftItem (front ++ gap).utf8ByteSize) := by
  have hsize : (front ++ gap).utf8ByteSize = byteLength front.toList + byteLength gap.toList := by
    rw [← byteLength_append, ← String.toList_append, byteLength_eq, String.ofList_toList]
  rw [items_eq_itemsFrom, items_eq_itemsFrom, items_eq_itemsFrom, String.append_assoc,
    String.toList_append, String.toList_append,
    itemsFrom_append (.of_gap hgap hblank _), itemsFrom_blanks hblank.isBlank, hsize,
    ← itemsFrom_add, Nat.zero_add, Nat.zero_add]

end Lexer
end LambdaAny
