import LambdaAny.Proofs.Seams

/-!
# Printed tokens

Tokens that are written one behind the other, by their texts and with blanks between them, are read
back as they are, each at the place where it was written.  This holds for every choice of blanks.

The tokens must be ones that texts denote.  Those that are read off some text are, so printing what
was read and reading it again changes no token.  It may change the text: leading zeros are lost, and
tokens that touched are parted.
-/

namespace LambdaAny
namespace Lexer

/-- The tokens by their texts, each behind a gap of its own, and a gap behind the last. -/
def written : List (String × Token) → String → String
  | [], rear => rear
  | (gap, t) :: rest, rear => gap ++ (t.text ++ written rest rear)

/-- All gaps are blank, and those between two tokens are not empty. -/
structure WellSpaced (spaced : List (String × Token)) (rear : String) : Prop where
  blank : ∀ gap ∈ spaced.map Prod.fst, IsBlankText gap
  rear : IsBlankText rear
  between : ∀ gap ∈ (spaced.map Prod.fst).tail, gap ≠ ""

/-- The tokens at the places where they are written, in a text that starts at `offset`. -/
def placed (offset : Nat) : List (String × Token) → List Lexeme
  | [] => []
  | (gap, t) :: rest =>
    ⟨t, ⟨offset + gap.utf8ByteSize, offset + gap.utf8ByteSize + t.text.utf8ByteSize⟩⟩ ::
      placed (offset + gap.utf8ByteSize + t.text.utf8ByteSize) rest

theorem tokens_placed (offset : Nat) (spaced : List (String × Token)) :
    (placed offset spaced).map Lexeme.token = spaced.map Prod.snd := by
  induction spaced generalizing offset with
  | nil => rfl
  | cons entry spaced ih =>
      obtain ⟨gap, t⟩ := entry
      rw [placed, List.map_cons, List.map_cons, ih]

/-- A token starts where the text that is written before it ends. -/
theorem placed_append (offset : Nat) (before after : List (String × Token)) (gap : String)
    (t : Token) :
    (placed offset (before ++ (gap, t) :: after))[before.length]? =
      some ⟨t, ⟨offset + (written before gap).utf8ByteSize,
        offset + (written before gap ++ t.text).utf8ByteSize⟩⟩ := by
  induction before generalizing offset with
  | nil =>
      rw [written, String.utf8ByteSize_append, ← Nat.add_assoc]
      rfl
  | cons entry before ih =>
      obtain ⟨gap', t'⟩ := entry
      rw [List.cons_append, placed, List.length_cons, List.getElem?_cons_succ, ih]
      simp only [written, String.utf8ByteSize_append, Nat.add_assoc]

section

variable {spaced rest : List (String × Token)} {gap rear : String} {t : Token}

theorem WellSpaced.tail (h : WellSpaced ((gap, t) :: rest) rear) : WellSpaced rest rear where
  blank other hother := h.blank other (List.mem_cons_of_mem gap hother)
  rear := h.rear
  between other hother := h.between other (List.mem_of_mem_tail hother)

/-- What is written behind a token cannot be taken for more of it. -/
theorem WellSpaced.closing (h : WellSpaced ((gap, t) :: rest) rear) :
    Closing (written rest rear).toList := by
  cases rest with
  | nil =>
      intro c hc
      exact separates_of_isBlank (h.rear.isBlank c (List.mem_of_mem_head? hc))
  | cons next rest =>
      obtain ⟨gap', t'⟩ := next
      have hgap : gap' ≠ "" := h.between gap' List.mem_cons_self
      have hblank : IsBlankText gap' := h.blank gap' (List.mem_cons_of_mem gap List.mem_cons_self)
      rw [written, String.toList_append]
      exact (StartsBlank.of_gap hgap hblank _).closing

theorem itemsFrom_written (hspaced : WellSpaced spaced rear)
    (hwritable : ∀ t ∈ spaced.map Prod.snd, t.Writable) (offset : Nat) :
    itemsFrom offset (written spaced rear).toList = (placed offset spaced).map .ok := by
  have hbytes : ∀ text : String, byteLength text.toList = text.utf8ByteSize := fun text => by
    rw [byteLength_eq, String.ofList_toList]
  induction spaced generalizing offset with
  | nil =>
      have hall := itemsFrom_blanks hspaced.rear.isBlank offset []
      rw [List.append_nil] at hall
      rw [written, hall, itemsFrom_nil, placed, List.map_nil]
  | cons entry rest ih =>
      obtain ⟨gap, t⟩ := entry
      obtain ⟨ht, hrest⟩ := List.forall_mem_cons.mp hwritable
      have hblank : IsBlankText gap := hspaced.blank gap List.mem_cons_self
      rw [written, String.toList_append, String.toList_append, itemsFrom_blanks hblank.isBlank,
        itemsFrom_token ht (.inl hspaced.closing), ih hspaced.tail hrest, hbytes, hbytes, placed,
        List.map_cons]

theorem lex_written (hspaced : WellSpaced spaced rear)
    (hwritable : ∀ t ∈ spaced.map Prod.snd, t.Writable) :
    lex (written spaced rear) = .ok (placed 0 spaced) :=
  lex_eq_ok_iff.mpr (itemsFrom_written hspaced hwritable 0)

end

/-- Tokens that texts denote, written with blanks between them, are read back as they are, each on
the span of bytes on which it was written.  The tokens of any text, written in this way, are read as
the same tokens again. -/
theorem written_tokens_read_back :
    (∀ (spaced : List (String × Token)) (rear : String), WellSpaced spaced rear →
      (∀ t ∈ spaced.map Prod.snd, t.Writable) →
        ∃ lexemes, lex (written spaced rear) = .ok lexemes ∧
          lexemes.map Lexeme.token = spaced.map Prod.snd ∧
          ∀ before gap t after, spaced = before ++ (gap, t) :: after →
            lexemes[before.length]? = some ⟨t, ⟨(written before gap).utf8ByteSize,
              (written before gap ++ t.text).utf8ByteSize⟩⟩) ∧
      ∀ (source : String) (lexemes : List Lexeme), lex source = .ok lexemes →
        ∀ (spaced : List (String × Token)) (rear : String), WellSpaced spaced rear →
          spaced.map Prod.snd = lexemes.map Lexeme.token →
            ∃ again, lex (written spaced rear) = .ok again ∧
              again.map Lexeme.token = lexemes.map Lexeme.token := by
  constructor
  · intro spaced rear hspaced hwritable
    refine ⟨placed 0 spaced, lex_written hspaced hwritable, tokens_placed 0 spaced, ?_⟩
    rintro before gap t after rfl
    rw [placed_append, Nat.zero_add, Nat.zero_add]
  · intro source lexemes hlex spaced rear hspaced htokens
    have hwritable : ∀ t ∈ spaced.map Prod.snd, t.Writable := by
      rw [htokens]
      exact writable_of_lex hlex
    exact ⟨_, lex_written hspaced hwritable, by rw [tokens_placed, htokens]⟩

/-- Tokens that would be read otherwise if they touched, or if keywords were read too early. -/
def lookalikes : List (String × Token) :=
  [("\r", .ident "letter"), (" ", .keyword .letKw), ("\n\x08", .symbol .lt), (" ", .symbol .equals),
    ("  ", .ident "in'"), ("\n", .int 9223372036854775807), (" ", .int 0), ("\r", .bool true)]

/-- `7`, `<=` and `x` apart from each other. -/
def partedComparison : List (String × Token) :=
  [("", .int 7), (" ", .symbol .le), ("\n", .ident "x")]

theorem written_tokens_read_back_lookalikes :
    WellSpaced lookalikes " " ∧ (∀ t ∈ lookalikes.map Prod.snd, t.Writable) ∧
      (∃ lexemes, lex (written lookalikes " ") = .ok lexemes ∧
        lexemes.map Lexeme.token = lookalikes.map Prod.snd ∧
        lexemes[3]? = some ⟨.symbol .equals, ⟨15, 16⟩⟩) ∧
      lex "007<=x" =
        .ok [⟨.int 7, ⟨0, 3⟩⟩, ⟨.symbol .le, ⟨3, 5⟩⟩, ⟨.ident "x", ⟨5, 6⟩⟩] ∧
      ∃ again, lex (written partedComparison "") = .ok again ∧
        again.map Lexeme.token = [.int 7, .symbol .le, .ident "x"] := by
  obtain ⟨hback, hagain⟩ := written_tokens_read_back
  have hspaced : WellSpaced lookalikes " " := ⟨by decide, by decide, by decide⟩
  have hwritable : ∀ t ∈ lookalikes.map Prod.snd, t.Writable := by decide
  have hlex : lex "007<=x" =
      .ok [⟨.int 7, ⟨0, 3⟩⟩, ⟨.symbol .le, ⟨3, 5⟩⟩, ⟨.ident "x", ⟨5, 6⟩⟩] :=
    eq_ok_of_toOption (by decide +kernel)
  refine ⟨hspaced, hwritable, ?_, hlex, ?_⟩
  · obtain ⟨lexemes, hlexemes, htokens, hspans⟩ := hback lookalikes " " hspaced hwritable
    have hstart : (written (lookalikes.take 3) " ").utf8ByteSize = 15 := by decide +kernel
    have hequals := hspans (lookalikes.take 3) " " (.symbol .equals) (lookalikes.drop 4) rfl
    rw [String.utf8ByteSize_append, hstart] at hequals
    exact ⟨lexemes, hlexemes, htokens, hequals⟩
  · exact hagain _ _ hlex partedComparison "" ⟨by decide, by decide, by decide⟩ rfl

end Lexer
end LambdaAny
