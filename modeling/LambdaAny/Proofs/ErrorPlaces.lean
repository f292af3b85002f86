import LambdaAny.Program
import LambdaAny.Proofs.LineCounting
import LambdaAny.Proofs.Seams
import LambdaAny.Proofs.ViablePrefix

/-!
# The places of errors

A program that cannot be read is complained of at a place, and that place is in its text.  An error
of the lexer covers the piece it names.  A parse error at a token covers the text of that token,
which need not be the text in the message: the token is printed anew there, and `007` becomes `7`.
But read by itself, the text at the place is that one token and no other.  A parse error at the end
stands behind the last token, and nothing but blanks follows.
-/

namespace LambdaAny

/-! ## Pieces of a text -/

/-- The span covers this piece of the source, from one character boundary to another. -/
def Span.Covers (span : Span) (source piece : String) : Prop :=
  ∃ before after, source = before ++ piece ++ after ∧
    span = ⟨before.utf8ByteSize, before.utf8ByteSize + piece.utf8ByteSize⟩

/-- The span lies in the source, and both ends are at character boundaries.  So it is located where
it starts: the offset is not taken back to the end of the text. -/
structure Span.Inside (span : Span) (source : String) : Prop where
  start_le_stop : span.start ≤ span.stop
  stop_le_size : span.stop ≤ source.utf8ByteSize
  start_valid : (String.Pos.Raw.mk span.start).IsValid source
  stop_valid : (String.Pos.Raw.mk span.stop).IsValid source
  unclamped : ∀ path, (LineTable.ofText source path).clamp span.start = span.start

theorem Span.Covers.inside {span : Span} {source piece : String} (h : span.Covers source piece) :
    span.Inside source := by
  obtain ⟨before, after, rfl, rfl⟩ := h
  have hsize : before.utf8ByteSize + piece.utf8ByteSize ≤
      (before ++ piece ++ after).utf8ByteSize := by
    rw [String.utf8ByteSize_append, String.utf8ByteSize_append]
    exact Nat.le_add_right _ _
  refine ⟨Nat.le_add_right _ _, hsize, ?_, ?_, ?_⟩
  · exact String.Pos.Raw.isValid_iff_exists_append.mpr
      ⟨before, piece ++ after, String.append_assoc, rfl⟩
  · exact String.Pos.Raw.isValid_iff_exists_append.mpr
      ⟨before ++ piece, after, rfl, by rw [← String.utf8ByteSize_append]; rfl⟩
  · intro path
    exact Nat.min_eq_left (Nat.le_trans (Nat.le_add_right _ _) hsize)

namespace Lexer

/-! ## One token by itself -/

/-- A lexeme that is cut off behind its end is still the same lexeme. -/
theorem lexemeTail_lexemeTail (c : Char) (cs : List Char) :
    lexemeTail c (lexemeTail c cs) = lexemeTail c cs := by
  have hrun : ∀ p : Char → Bool, (∀ d, p d = true → isIdentChar d = true) →
      (cs.takeWhile p).takeWhile p = cs.takeWhile p := by
    intro p hp
    have hclosing : Closing [] := by
      intro d hd
      cases hd
    have hall : (cs.takeWhile p ++ []).takeWhile p = cs.takeWhile p :=
      takeWhile_append_of_closing hp (List.all_eq_true.mp List.all_takeWhile) hclosing
    rwa [List.append_nil] at hall
  cases hstart : isIdentStart c with
  | true =>
      rw [lexemeTail_word hstart, lexemeTail_word hstart]
      exact hrun isIdentChar fun _ h => h
  | false =>
      cases hdigit : c.isDigit with
      | true =>
          rw [lexemeTail_number hdigit, lexemeTail_number hdigit]
          exact hrun Char.isDigit fun _ h => isIdentChar_of_isDigit h
      | false =>
          rcases lexemeTail_symbol hstart hdigit cs with ⟨d, htail, s, hs⟩ | ⟨htail, -⟩
          · have hpair : Symbol.ofText? (String.ofList [c, d]) = some s := by
              rw [symbol_ofText?_eq_some_iff, ← hs, String.ofList_toList]
            rw [htail]
            simp only [lexemeTail, hstart, hdigit, hpair, Option.isSome_some, if_true,
              Bool.false_eq_true, if_false]
          · rw [htail]
            simp only [lexemeTail, hstart, hdigit, Bool.false_eq_true, if_false]

theorem itemsFrom_single {c : Char} (hblank : isBlank c = false) (offset : Nat) (cs : List Char) :
    itemsFrom offset (c :: lexemeTail c cs) = [item offset c (lexemeTail c cs)] := by
  have htail : lexemeTail c (lexemeTail c cs ++ []) = lexemeTail c cs := by
    rw [List.append_nil, lexemeTail_lexemeTail]
  have hitems := itemsFrom_lexeme hblank htail offset
  rw [List.append_nil, itemsFrom_nil] at hitems
  exact hitems

theorem lex_lexeme {lexeme : Lexeme} {offset : Nat} {c : Char} {cs : List Char}
    (hblank : isBlank c = false) (h : item offset c (lexemeTail c cs) = .ok lexeme) :
    lex (String.ofList (c :: lexemeTail c cs)) =
      .ok [⟨lexeme.token, ⟨0, byteLength (c :: lexemeTail c cs)⟩⟩] := by
  have hitems : items (String.ofList (c :: lexemeTail c cs)) = [item 0 c (lexemeTail c cs)] := by
    rw [items_eq_itemsFrom, String.toList_ofList, itemsFrom_single hblank]
  have hspan := itemSpan_of_scans (scansAt 0 c cs)
  have hshift := item_add 0 offset c (lexemeTail c cs)
  rw [Nat.zero_add, h] at hshift
  rw [lex, hitems]
  cases hitem : item 0 c (lexemeTail c cs) with
  | error cause =>
      rw [hitem] at hshift
      cases hshift
  | ok first =>
      rw [hitem] at hshift hspan
      obtain rfl : lexeme = first.shift offset := Except.ok.inj hshift
      have hfirst : first.span = ⟨0, byteLength (c :: lexemeTail c cs)⟩ := by
        rw [Nat.zero_add] at hspan
        exact hspan
      rw [← hfirst]
      rfl

theorem covers_of_lexeme {source : String} {lexeme : Lexeme} (h : .ok lexeme ∈ items source) :
    ∃ piece, lexeme.span.Covers source piece ∧
      lex piece = .ok [⟨lexeme.token, ⟨0, piece.utf8ByteSize⟩⟩] := by
  rw [items_eq_itemsFrom] at h
  obtain ⟨before, c, after, hsource, hblank, hitem⟩ := exists_of_mem_itemsFrom h
  have hspan := itemSpan_of_scans (scansAt (0 + byteLength before) c after)
  have hlex := lex_lexeme hblank hitem.symm
  rw [← hitem, Nat.zero_add] at hspan
  rw [byteLength_eq] at hlex
  refine ⟨String.ofList (c :: lexemeTail c after), ?_, hlex⟩
  refine ⟨String.ofList before, String.ofList (after.drop (lexemeTail c after).length), ?_, ?_⟩
  · rw [← String.ofList_append, ← String.ofList_append, List.append_assoc, List.cons_append,
      lexemeTail_append_drop, ← hsource, String.ofList_toList]
  · rw [← byteLength_eq, ← byteLength_eq]
    exact hspan

theorem covers_of_error {source : String} {cause : LexError} (h : lex source = .error cause) :
    cause.span.Covers source cause.found ∧ cause.span.start < cause.span.stop := by
  have hmem : .error cause ∈ items source := by
    obtain ⟨lexemes, later, hitems⟩ := mapM_id_eq_error_iff.mp h
    rw [hitems]
    exact List.mem_append_right _ List.mem_cons_self
  obtain ⟨before, piece, after, hsource, hpos, hspan, hscan⟩ := exists_piece_of_mem_items hmem
  obtain rfl := found_of_scans hscan
  have hspan : cause.span =
      ⟨before.utf8ByteSize, before.utf8ByteSize + cause.found.utf8ByteSize⟩ := hspan
  refine ⟨⟨before, after, hsource, hspan⟩, ?_⟩
  rw [hspan]
  exact Nat.lt_add_of_pos_right hpos

/-! ## Behind the last token -/

/-- Blanks alone follow the last item; without any item all is blank. -/
theorem Tiles.blank_behind {offset : Nat} {cs : List Char} {items : List Item}
    (h : Tiles offset cs items) :
    ∃ before after, cs = before ++ after ∧ (∀ c ∈ after, isBlank c = true) ∧
      (items = [] ∧ before = [] ∨
        ∃ last, items.getLast? = some last ∧ (itemSpan last).stop = offset + byteLength before) := by
  induction h with
  | nil => exact ⟨[], [], rfl, nofun, .inl ⟨rfl, rfl⟩⟩
  | @blank offset c cs items hblank _ ih =>
      obtain ⟨before, after, rfl, hafter, ⟨rfl, rfl⟩ | ⟨last, hlast, hstop⟩⟩ := ih
      · exact ⟨[], c :: after, rfl, List.forall_mem_cons.mpr ⟨hblank, hafter⟩, .inl ⟨rfl, rfl⟩⟩
      · refine ⟨c :: before, after, rfl, hafter, .inr ⟨last, hlast, ?_⟩⟩
        rw [hstop, byteLength_cons, Nat.add_assoc]
  | @item offset piece cs first items _ _ hspan _ _ ih =>
      obtain ⟨before, after, rfl, hafter, ⟨rfl, rfl⟩ | ⟨last, hlast, hstop⟩⟩ := ih
      · exact ⟨piece, after, rfl, hafter, .inr ⟨first, rfl, by rw [hspan]⟩⟩
      · refine ⟨piece ++ before, after, (List.append_assoc _ _ _).symm, hafter, .inr ⟨last, ?_, ?_⟩⟩
        · rw [List.getLast?_cons, hlast]
          rfl
        · rw [hstop, byteLength_append, Nat.add_assoc]

theorem blank_behind_lexemes {source : String} {lexemes : List Lexeme}
    (h : lex source = .ok lexemes) :
    ∃ before after, source = before ++ after ∧
      Parser.endOffset lexemes = before.utf8ByteSize ∧ IsBlankText after := by
  have hitems : itemsFrom 0 source.toList = lexemes.map .ok := lex_eq_ok_iff.mp h
  obtain ⟨before, after, hsource, hafter, hend⟩ := (tiles_itemsFrom 0 source.toList).blank_behind
  refine ⟨String.ofList before, String.ofList after, ?_, ?_, ?_⟩
  · rw [← String.ofList_append, ← hsource, String.ofList_toList]
  · rw [← byteLength_eq, Parser.endOffset]
    rw [hitems, List.getLast?_map] at hend
    rcases hend with ⟨hnone, rfl⟩ | ⟨last, hlast, hstop⟩
    · rw [List.map_eq_nil_iff.mp hnone]
      rfl
    · obtain ⟨lexeme, hlexeme, rfl⟩ := Option.map_eq_some_iff.mp hlast
      rw [hlexeme, ← Nat.zero_add (byteLength before)]
      exact hstop
  · rw [← all_isBlank_iff, String.toList_ofList, List.all_eq_true]
    exact hafter

end Lexer

/-! ## Programs -/

theorem ParseError.exists_words (err : ParseError) :
    ∃ words, err.message = words ++ err.found.text := by
  cases err <;> exact ⟨_, rfl⟩

/-- The text at the token of a parse error is read as that token. -/
theorem covers_of_found {source : String} {lexemes : List Lexeme} {cause : ParseError}
    {lexeme : Lexeme} (hlex : Lexer.lex source = .ok lexemes)
    (herror : Expr.ofLexemes lexemes = .error cause) (hfound : cause.found = .token lexeme) :
    ∃ piece, lexeme.span.Covers source piece ∧
      Lexer.lex piece = .ok [⟨lexeme.token, ⟨0, piece.utf8ByteSize⟩⟩] := by
  obtain ⟨seen, rest, hlexemes, hfoundAt, -⟩ := Expr.exists_of_ofLexemes_error herror
  rw [hfound] at hfoundAt
  cases rest with
  | nil => cases hfoundAt
  | cons first rest =>
      obtain rfl : lexeme = first := Found.token.inj hfoundAt
      apply Lexer.covers_of_lexeme
      have hitems : Lexer.items source = lexemes.map .ok := Lexer.mapM_id_eq_ok_iff.mp hlex
      rw [hitems, hlexemes]
      exact List.mem_map_of_mem (List.mem_append_right seen List.mem_cons_self)

/-- A parse error at the end stands behind the last token. -/
theorem blank_behind_eof {source : String} {lexemes : List Lexeme} {cause : ParseError}
    {offset : Nat} (hlex : Lexer.lex source = .ok lexemes)
    (herror : Expr.ofLexemes lexemes = .error cause) (hfound : cause.found = .eof offset) :
    ∃ before after, source = before ++ after ∧ offset = before.utf8ByteSize ∧
      Lexer.IsBlankText after := by
  obtain ⟨seen, rest, -, hfoundAt, -⟩ := Expr.exists_of_ofLexemes_error herror
  rw [hfound] at hfoundAt
  cases rest with
  | cons first rest => cases hfoundAt
  | nil =>
      obtain rfl : offset = Parser.endOffset lexemes := Found.eof.inj hfoundAt
      exact Lexer.blank_behind_lexemes hlex

theorem Span.inside_point {source before after : String} (h : source = before ++ after) :
    (Span.point before.utf8ByteSize).Inside source := by
  have hcovers : (Span.point before.utf8ByteSize).Covers source "" :=
    ⟨before, after, by rw [h, String.append_empty], rfl⟩
  exact hcovers.inside

/-- A program fails at a place only if it cannot be read. -/
theorem Program.parse_of_span? {source : String} {failure : Failure}
    (hfails : check source = .error failure ∨ ∃ depth, run depth source = .error failure)
    (hspan : failure.span? ≠ none) : parse source = .error failure := by
  have hcheck : check source = .error failure := by
    rcases hfails with hcheck | ⟨depth, hrun⟩
    · exact hcheck
    · rcases exists_of_run_error hrun with hcheck | ⟨_, _, -, ⟨_, rfl, -⟩ | ⟨rfl, -⟩⟩
      · exact hcheck
      · exact absurd rfl hspan
      · exact absurd rfl hspan
  rcases exists_of_check_error hcheck with hparse | ⟨_, -, ⟨_, rfl, -⟩ | ⟨_, rfl, -⟩⟩
  · exact hparse
  · exact absurd rfl hspan
  · exact absurd rfl hspan

/-- The place of every failure to read a program is one in its text.  The piece there is the one that
an error of the lexer names, or is read by itself as the one token that a parse error names; at the
end of the input the place is empty, with nothing but blanks behind it. -/
theorem error_place_is_real {source : String} {failure : Failure}
    (hfails : Program.parse source = .error failure ∨ Program.check source = .error failure ∨
      ∃ depth, Program.run depth source = .error failure) :
    (∀ cause, failure = .lex cause →
        ∃ span, failure.span? = some span ∧ span.Inside source ∧ span.start < span.stop ∧
          span.Covers source cause.found) ∧
      (∀ cause lexeme, failure = .parse cause → cause.found = .token lexeme →
        ∃ span piece words, failure.span? = some span ∧ span.Inside source ∧
          span.Covers source piece ∧
          Lexer.lex piece = .ok [⟨lexeme.token, ⟨0, piece.utf8ByteSize⟩⟩] ∧
          failure.message = words ++ ("`" ++ lexeme.token.text ++ "`")) ∧
      ∀ cause offset, failure = .parse cause → cause.found = .eof offset →
        ∃ span before after, failure.span? = some span ∧ span.Inside source ∧
          span.start = span.stop ∧ source = before ++ after ∧ span.stop = before.utf8ByteSize ∧
          Lexer.IsBlankText after := by
  have hparse : failure.span? ≠ none → Program.parse source = .error failure := by
    intro hspan
    exact hfails.elim id fun hfails => Program.parse_of_span? hfails hspan
  refine ⟨?_, ?_, ?_⟩
  · rintro cause rfl
    rcases Program.exists_of_parse_error (hparse nofun) with ⟨_, hcause, hlex⟩ | ⟨_, _, hcause, -⟩
    · cases hcause
      obtain ⟨hcovers, hsome⟩ := Lexer.covers_of_error hlex
      exact ⟨_, rfl, hcovers.inside, hsome, hcovers⟩
    · cases hcause
  · rintro cause lexeme rfl hfound
    rcases Program.exists_of_parse_error (hparse nofun) with
      ⟨_, hcause, -⟩ | ⟨_, lexemes, hcause, hlex, herror⟩
    · cases hcause
    · cases hcause
      obtain ⟨piece, hcovers, hpiece⟩ := covers_of_found hlex herror hfound
      obtain ⟨words, hwords⟩ := cause.exists_words
      rw [hfound] at hwords
      have hspan : cause.span = lexeme.span := congrArg Found.span hfound
      have hmessage : (Failure.parse cause).message =
          "Parse error:\n\t" ++ words ++ ("`" ++ lexeme.token.text ++ "`") := by
        rw [String.append_assoc]
        exact congrArg ("Parse error:\n\t" ++ ·) hwords
      exact ⟨_, piece, _, congrArg some hspan, hcovers.inside, hcovers, hpiece, hmessage⟩
  · rintro cause offset rfl hfound
    rcases Program.exists_of_parse_error (hparse nofun) with
      ⟨_, hcause, -⟩ | ⟨_, lexemes, hcause, hlex, herror⟩
    · cases hcause
    · cases hcause
      obtain ⟨before, after, hsource, rfl, hafter⟩ := blank_behind_eof hlex herror hfound
      have hspan : cause.span = .point before.utf8ByteSize := congrArg Found.span hfound
      exact ⟨_, before, after, congrArg some hspan, Span.inside_point hsource, rfl, hsource, rfl,
        hafter⟩

/-- A character of two bytes, a token that is printed otherwise than it was written, and an end with
blanks behind it. -/
theorem error_place_is_real_threePlaces :
    Program.check "1 + é" = .error (.lex (.illegalChar "é" ⟨4, 6⟩)) ∧
      Span.Inside ⟨4, 6⟩ "1 + é" ∧ Span.Covers ⟨4, 6⟩ "1 + é" "é" ∧
      Program.check "fun 007" =
        .error (.parse (.expectedToken (.symbol .parenOpen) (.token ⟨.int 7, ⟨4, 7⟩⟩))) ∧
      (∃ piece, Span.Covers ⟨4, 7⟩ "fun 007" piece ∧
        Lexer.lex piece = .ok [⟨.int 7, ⟨0, piece.utf8ByteSize⟩⟩]) ∧
      Program.check "(1 +\n " = .error (.parse (.illegalSequence (.eof 4))) ∧
      ∃ before after, "(1 +\n " = before ++ after ∧ 4 = before.utf8ByteSize ∧
        Lexer.IsBlankText after := by
  have hlex : Program.check "1 + é" = .error (.lex (.illegalChar "é" ⟨4, 6⟩)) :=
    eq_error_of_reason? (by decide +kernel)
  have htoken : Program.check "fun 007" =
      .error (.parse (.expectedToken (.symbol .parenOpen) (.token ⟨.int 7, ⟨4, 7⟩⟩))) :=
    eq_error_of_reason? (by decide +kernel)
  have heof : Program.check "(1 +\n " = .error (.parse (.illegalSequence (.eof 4))) :=
    eq_error_of_reason? (by decide +kernel)
  obtain ⟨span, hspan, hinside, -, hcovers⟩ :=
    (error_place_is_real (.inr (.inl hlex))).1 _ rfl
  obtain ⟨span', piece, -, hspan', -, hcovers', hpiece, -⟩ :=
    (error_place_is_real (.inr (.inl htoken))).2.1 _ _ rfl rfl
  obtain ⟨span'', before, after, hspan'', -, -, hsource, hstop, hafter⟩ :=
    (error_place_is_real (.inr (.inl heof))).2.2 _ _ rfl rfl
  cases hspan
  cases hspan'
  cases hspan''
  exact ⟨hlex, hinside, hcovers, htoken, ⟨piece, hcovers', hpiece⟩, heof, before, after, hsource,
    hstop, hafter⟩

end LambdaAny
