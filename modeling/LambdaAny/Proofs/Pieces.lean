import LambdaAny.Token.Lexer

/-!
# The pieces of a text

Each piece stands in the text at its own span, on whole characters.  So an error quotes its own
lexeme, and never the replacement character: the items of a text can be read off the pieces alone
(`items_eq_itemsFrom`).

In that form the items obey the equations of a loop along the text, which starts anew behind every
piece.  What is said elsewhere about items is said about this loop.
-/

namespace LambdaAny
namespace Lexer

/-! ## Bytes -/

theorem byteLength_eq (cs : List Char) : byteLength cs = (String.ofList cs).utf8ByteSize := by
  induction cs with
  | nil => rfl
  | cons c cs ih =>
      rw [← List.singleton_append, String.ofList_append, String.utf8ByteSize_append, ← ih,
        ← String.singleton_eq_ofList, String.utf8ByteSize_singleton]
      rfl

theorem byteLength_append (cs ds : List Char) :
    byteLength (cs ++ ds) = byteLength cs + byteLength ds := by
  rw [byteLength_eq, byteLength_eq, byteLength_eq, String.ofList_append,
    String.utf8ByteSize_append]

theorem byteLength_cons (c : Char) (cs : List Char) :
    byteLength (c :: cs) = c.utf8Size + byteLength cs := rfl

theorem byteLength_pos {cs : List Char} (h : cs ≠ []) : 0 < byteLength cs := by
  cases cs with
  | nil => exact absurd rfl h
  | cons c cs =>
      have hc := c.utf8Size_pos
      rw [byteLength_cons]
      omega

/-- Whole characters can be split off. -/
theorem splitBytes?_append (front rest : List Char) :
    Span.splitBytes? (byteLength front) (front ++ rest) = some (front, rest) := by
  induction front with
  | nil =>
      show Span.splitBytes? 0 rest = _
      rw [Span.splitBytes?]
  | cons c front ih =>
      have hc := c.utf8Size_pos
      obtain ⟨n, hn⟩ : ∃ n, byteLength (c :: front) = n + 1 :=
        ⟨byteLength (c :: front) - 1, by rw [byteLength_cons]; omega⟩
      have hrest : n + 1 - c.utf8Size = byteLength front := by
        rw [byteLength_cons] at hn
        omega
      have hle : c.utf8Size ≤ n + 1 := by
        rw [byteLength_cons] at hn
        omega
      rw [hn, List.cons_append, Span.splitBytes?, if_pos hle, hrest, ih]
      rfl

theorem slice?_of_append {source : String} {before piece after : List Char}
    (hsource : source.toList = before ++ (piece ++ after)) :
    Span.slice? ⟨byteLength before, byteLength before + byteLength piece⟩ source =
      some (String.ofList piece) := by
  rw [Span.slice?, if_pos (Nat.le_add_right _ _), hsource, splitBytes?_append,
    Nat.add_sub_cancel_left]
  show (Span.splitBytes? (byteLength piece) (piece ++ after)).bind _ = _
  rw [splitBytes?_append]
  rfl

/-! ## Pieces -/

theorem piecesFrom_blank {c : Char} (h : isBlank c = true) (offset : Nat) (cs : List Char) :
    piecesFrom offset (c :: cs) = piecesFrom (offset + c.utf8Size) cs := by
  rw [piecesFrom, if_pos h]

theorem piecesFrom_cons {c : Char} (h : isBlank c = false) (offset : Nat) (cs : List Char) :
    piecesFrom offset (c :: cs) =
      ⟨offset, c, lexemeTail c cs⟩ ::
        piecesFrom (offset + byteLength (c :: lexemeTail c cs))
          (cs.drop (lexemeTail c cs).length) := by
  rw [piecesFrom, if_neg (by simp [h])]

/-- Where a piece was cut off: at a character that is no blank. -/
theorem exists_of_mem_piecesFrom {offset : Nat} {cs : List Char} {piece : Piece}
    (h : piece ∈ piecesFrom offset cs) :
    ∃ before c after, cs = before ++ c :: after ∧ isBlank c = false ∧
      piece = ⟨offset + byteLength before, c, lexemeTail c after⟩ := by
  fun_induction piecesFrom offset cs with
  | case1 => cases h
  | case2 offset c cs hblank ih =>
      obtain ⟨before, d, after, rfl, hd, hpiece⟩ := ih h
      refine ⟨c :: before, d, after, rfl, hd, ?_⟩
      rw [hpiece, byteLength_cons, Nat.add_assoc]
  | case3 offset c cs hblank more ih =>
      rcases List.mem_cons.mp h with rfl | hlater
      · exact ⟨[], c, cs, rfl, by simpa using hblank, rfl⟩
      · obtain ⟨before, d, after, hrest, hd, hpiece⟩ := ih hlater
        refine ⟨c :: (more ++ before), d, after, ?_, hd, ?_⟩
        · rw [List.cons_append, List.append_assoc, ← hrest, lexemeTail_append_drop]
        · rw [hpiece, ← List.cons_append, byteLength_append, Nat.add_assoc]

/-- A text has each of its pieces at the span of the piece. -/
theorem quote_piece {source : String} {piece : Piece} (h : piece ∈ piecesFrom 0 source.toList) :
    quote source piece.span = String.ofList piece.chars := by
  obtain ⟨before, c, after, hsource, _, rfl⟩ := exists_of_mem_piecesFrom h
  have hpieces : source.toList =
      before ++ (c :: lexemeTail c after ++ after.drop (lexemeTail c after).length) := by
    rw [hsource, List.cons_append, lexemeTail_append_drop]
  rw [quote, Piece.span, Nat.zero_add]
  exact congrArg (·.getD "\ufffd") (slice?_of_append hpieces)

/-! ## Items that quote their lexemes -/

/-- The item of the lexeme `c :: more` at `offset`. -/
def item (offset : Nat) (c : Char) (more : List Char) : Item :=
  Piece.item ⟨offset, c, more⟩ (String.ofList (c :: more))

theorem item_of_token {c : Char} {more : List Char} {t : Token} (h : token c more = .ok t)
    (offset : Nat) :
    item offset c more = .ok ⟨t, ⟨offset, offset + byteLength (c :: more)⟩⟩ := by
  rw [item, Piece.item, h]
  rfl

theorem item_of_fault {c : Char} {more : List Char} {fault : Fault}
    (h : token c more = .error fault) (offset : Nat) :
    item offset c more = .error (fault.error (String.ofList (c :: more))
      ⟨offset, offset + byteLength (c :: more)⟩) := by
  rw [item, Piece.item, h]
  rfl

theorem token_of_item {offset : Nat} {c : Char} {more : List Char} {lexeme : Lexeme}
    (h : item offset c more = .ok lexeme) : token c more = .ok lexeme.token := by
  cases htoken : token c more with
  | ok t =>
      rw [item_of_token htoken] at h
      cases h
      rfl
  | error fault =>
      rw [item_of_fault htoken] at h
      cases h

/-- The items of a text whose first character has the given offset. -/
def itemsFrom (offset : Nat) (cs : List Char) : List Item :=
  (piecesFrom offset cs).map fun piece => item piece.offset piece.first piece.more

/-- No error quotes anything but its lexeme. -/
theorem items_eq_itemsFrom (source : String) : items source = itemsFrom 0 source.toList := by
  apply List.map_congr_left
  intro piece hpiece
  rw [quote_piece hpiece]
  rfl

theorem itemsFrom_nil (offset : Nat) : itemsFrom offset [] = [] := by
  rw [itemsFrom, piecesFrom, List.map_nil]

theorem itemsFrom_blank {c : Char} (h : isBlank c = true) (offset : Nat) (cs : List Char) :
    itemsFrom offset (c :: cs) = itemsFrom (offset + c.utf8Size) cs := by
  rw [itemsFrom, piecesFrom_blank h, itemsFrom]

theorem itemsFrom_cons {c : Char} (h : isBlank c = false) (offset : Nat) (cs : List Char) :
    itemsFrom offset (c :: cs) =
      item offset c (lexemeTail c cs) ::
        itemsFrom (offset + byteLength (c :: lexemeTail c cs))
          (cs.drop (lexemeTail c cs).length) := by
  rw [itemsFrom, piecesFrom_cons h, List.map_cons, itemsFrom]

theorem itemsFrom_lexeme {c : Char} {more cs : List Char} (hblank : isBlank c = false)
    (htail : lexemeTail c (more ++ cs) = more) (offset : Nat) :
    itemsFrom offset (c :: (more ++ cs)) =
      item offset c more :: itemsFrom (offset + byteLength (c :: more)) cs := by
  rw [itemsFrom_cons hblank, htail, List.drop_left]

/-- Where an item was read. -/
theorem exists_of_mem_itemsFrom {offset : Nat} {cs : List Char} {found : Item}
    (h : found ∈ itemsFrom offset cs) :
    ∃ before c after, cs = before ++ c :: after ∧ isBlank c = false ∧
      found = item (offset + byteLength before) c (lexemeTail c after) := by
  obtain ⟨piece, hpiece, rfl⟩ := List.mem_map.mp h
  obtain ⟨before, c, after, hcs, hblank, rfl⟩ := exists_of_mem_piecesFrom hpiece
  exact ⟨before, c, after, hcs, hblank, rfl⟩

end Lexer
end LambdaAny
