import LambdaAny.Source.LineTable
import LambdaAny.Text.Utf8

/-!
# Counting lines

A place can be told without a table: its line is one more than the line feeds before it, and its
column one more than the bytes behind the last of these.  The table gives the same place for every
offset, also for one in the middle of a character, whose bytes are never those of a line feed.

What comes later in the text comes later in the order of lines and columns, so no two offsets of a
text share a place.
-/

namespace LambdaAny

/-! ## The bytes of a text -/

namespace Text.Utf8

theorem encode_eq_flatMap (s : String) : encode s = s.toList.flatMap String.utf8EncodeChar := by
  have hchars : s.toUTF8 = s.toList.utf8Encode := by
    rw [String.toUTF8_eq_toByteArray, ← String.toByteArray_ofList, String.ofList_toList]
  rw [encode, hchars, List.utf8Encode, List.toList_data_toByteArray]

theorem length_encode (s : String) : (encode s).length = s.utf8ByteSize := by
  rw [encode, String.toUTF8_eq_toByteArray, Array.length_toList]
  rfl

theorem encode_newline : String.utf8EncodeChar '\n' = [10] := rfl

/-- All bytes of a character that is not a line feed are different from that of a line feed. -/
theorem newline_not_mem_encode {c : Char} (h : c ≠ '\n') : 10 ∉ String.utf8EncodeChar c := by
  have hcode : c.val.toNat ≠ 10 := by
    intro heq
    apply h
    apply Char.toNat_inj.mp
    exact heq
  have hbyte : ∀ n : Nat, n < 256 → n ≠ 10 → (10 : UInt8) ≠ UInt8.ofNat n := by
    intro n hn hne heq
    have htoNat := congrArg UInt8.toNat heq
    rw [UInt8.toNat_ofNat_of_lt' hn] at htoNat
    exact hne htoNat.symm
  unfold String.utf8EncodeChar
  dsimp only
  split
  · simp only [List.mem_singleton]
    exact hbyte _ (by omega) hcode
  · split
    · simp only [List.mem_cons, List.not_mem_nil, or_false, not_or]
      exact ⟨hbyte _ (by omega) (by omega), hbyte _ (by omega) (by omega)⟩
    · split
      · simp only [List.mem_cons, List.not_mem_nil, or_false, not_or]
        exact ⟨hbyte _ (by omega) (by omega), hbyte _ (by omega) (by omega),
          hbyte _ (by omega) (by omega)⟩
      · simp only [List.mem_cons, List.not_mem_nil, or_false, not_or]
        exact ⟨hbyte _ (by omega) (by omega), hbyte _ (by omega) (by omega),
          hbyte _ (by omega) (by omega), hbyte _ (by omega) (by omega)⟩

end Text.Utf8

/-! ## Places by counting -/

namespace Cursor

/-- The place behind some bytes. -/
def behind (bytes : List UInt8) : Cursor where
  line := 1 + bytes.count 10
  column := 1 + (bytes.reverse.takeWhile (· != 10)).length

/-- The order of lines, and on one line that of columns. -/
def Before (first second : Cursor) : Prop :=
  first.line < second.line ∨ first.line = second.line ∧ first.column < second.column

theorem Before.ne {first second : Cursor} (h : first.Before second) : first ≠ second := by
  rintro rfl
  rcases h with hline | ⟨-, hcolumn⟩
  · exact Nat.lt_irrefl _ hline
  · exact Nat.lt_irrefl _ hcolumn

theorem behind_append {bytes more : List UInt8} (hmore : 10 ∉ more) :
    behind (bytes ++ more) = ⟨(behind bytes).line, (behind bytes).column + more.length⟩ := by
  have hpass : ∀ byte ∈ more.reverse, (byte != 10) = true := by
    intro byte hbyte
    rw [bne_iff_ne]
    rintro rfl
    exact hmore (List.mem_reverse.mp hbyte)
  have hcount : more.count 10 = 0 := List.count_eq_zero.mpr hmore
  simp only [behind, List.count_append, hcount, List.reverse_append,
    List.takeWhile_append_of_pos hpass, List.length_append, List.length_reverse, Nat.add_zero]
  congr 1
  omega

theorem behind_newline (bytes : List UInt8) : (behind (bytes ++ [10])).column = 1 := by
  simp [behind]

theorem behind_before_append {bytes more : List UInt8} (hmore : more ≠ []) :
    (behind bytes).Before (behind (bytes ++ more)) := by
  by_cases hnewline : 10 ∈ more
  · left
    have hpos : 0 < more.count 10 := List.count_pos_iff.mpr hnewline
    simp only [behind, List.count_append]
    omega
  · right
    have hpos : 0 < more.length := List.length_pos_iff.mpr hmore
    rw [behind_append hnewline]
    exact ⟨rfl, Nat.lt_add_of_pos_right hpos⟩

end Cursor

/-! ## The table and the bytes -/

namespace LineTable

/-- The offsets just behind the line feeds among bytes that begin at `offset`. -/
def breaksFrom (offset : Nat) : List UInt8 → List Nat
  | [] => []
  | byte :: bytes =>
    if byte = 10 then (offset + 1) :: breaksFrom (offset + 1) bytes
    else breaksFrom (offset + 1) bytes

theorem breaksFrom_append {front : List UInt8} (hfront : 10 ∉ front) (offset : Nat)
    (back : List UInt8) :
    breaksFrom offset (front ++ back) = breaksFrom (offset + front.length) back := by
  induction front generalizing offset with
  | nil => rfl
  | cons byte front ih =>
      obtain ⟨hbyte, hrest⟩ := not_or.mp (mt List.mem_cons.mpr hfront)
      rw [List.cons_append, breaksFrom, if_neg (Ne.symm hbyte), ih hrest, List.length_cons]
      congr 1
      omega

theorem startsFrom_eq_breaksFrom (offset : Nat) (cs : List Char) :
    startsFrom offset cs = breaksFrom offset (cs.flatMap String.utf8EncodeChar) := by
  induction cs generalizing offset with
  | nil => rfl
  | cons c cs ih =>
      rw [startsFrom, List.flatMap_cons]
      by_cases hc : c = '\n'
      · subst hc
        rw [if_pos rfl, Text.Utf8.encode_newline, List.singleton_append, breaksFrom, if_pos rfl, ih]
        rfl
      · rw [if_neg hc, breaksFrom_append (Text.Utf8.newline_not_mem_encode hc),
          String.length_utf8EncodeChar, ih]

theorem mem_breaksFrom_iff {offset start : Nat} {bytes : List UInt8} :
    start ∈ breaksFrom offset bytes ↔ ∃ i, bytes[i]? = some 10 ∧ start = offset + i + 1 := by
  induction bytes generalizing offset with
  | nil => simp [breaksFrom]
  | cons byte bytes ih =>
      have hsplit : (∃ i, (byte :: bytes)[i]? = some 10 ∧ start = offset + i + 1) ↔
          (byte = 10 ∧ start = offset + 1) ∨ start ∈ breaksFrom (offset + 1) bytes := by
        rw [ih]
        constructor
        · rintro ⟨i, hbyte, rfl⟩
          cases i with
          | zero => exact .inl ⟨Option.some.inj hbyte, rfl⟩
          | succ i => exact .inr ⟨i, hbyte, by omega⟩
        · rintro (⟨rfl, rfl⟩ | ⟨i, hbyte, rfl⟩)
          · exact ⟨0, rfl, rfl⟩
          · exact ⟨i + 1, hbyte, by omega⟩
      rw [hsplit, breaksFrom]
      by_cases hbyte : byte = 10
      · rw [if_pos hbyte, List.mem_cons]
        simp [hbyte]
      · rw [if_neg hbyte]
        simp [hbyte]

/-- By induction on the bytes that are counted. -/
theorem countP_breaksFrom (offset k : Nat) (bytes : List UInt8) :
    (breaksFrom offset bytes).countP (· ≤ offset + k) = (bytes.take k).count 10 := by
  induction bytes generalizing offset k with
  | nil => simp [breaksFrom]
  | cons byte bytes ih =>
      cases k with
      | zero =>
          -- all breaks lie behind the offset
          rw [List.take_zero, List.count_nil, List.countP_eq_zero]
          intro start hstart
          obtain ⟨i, -, rfl⟩ := mem_breaksFrom_iff.mp hstart
          simp only [decide_eq_true_eq]
          omega
      | succ k =>
          have hnext : offset + (k + 1) = offset + 1 + k := by omega
          rw [breaksFrom, List.take_succ_cons, List.count_cons, ← ih (offset + 1) k, hnext]
          by_cases hbyte : byte = 10
          · rw [if_pos hbyte, List.countP_cons]
            simp [hbyte]
          · rw [if_neg hbyte]
            simp [hbyte]

theorem Splits.countP_eq {starts : Array Nat} {limit index : Nat} (h : Splits starts limit index) :
    starts.toList.countP (· ≤ limit) = index := by
  have hget : ∀ {i start : Nat}, starts.toList[i]? = some start → starts[i]? = some start := by
    intro i start hstart
    rwa [Array.getElem?_toList] at hstart
  have hfront : ∀ start ∈ starts.toList.take index, decide (start ≤ limit) = true := by
    intro start hstart
    obtain ⟨i, hi⟩ := List.mem_iff_getElem?.mp hstart
    rw [List.getElem?_take] at hi
    split at hi
    next hlt => exact decide_eq_true (h.le_limit i start (hget hi) hlt)
    next => cases hi
  have hback : ∀ start ∈ starts.toList.drop index, ¬decide (start ≤ limit) = true := by
    intro start hstart
    obtain ⟨i, hi⟩ := List.mem_iff_getElem?.mp hstart
    rw [List.getElem?_drop] at hi
    have hlt := h.limit_lt _ start (hget hi) (Nat.le_add_right index i)
    simpa using hlt
  have hsize : index ≤ starts.toList.length := h.le_size
  rw [← List.take_append_drop index starts.toList, List.countP_append,
    List.countP_eq_length.mpr hfront, List.countP_eq_zero.mpr hback, List.length_take]
  omega

section

variable (table : LineTable) (offset : Nat)

theorem lineIndex_add_one : (table.lineIndex offset).val + 1 = table.linesUpTo offset :=
  Nat.sub_add_cancel (table.linesUpTo_pos offset)

theorem getElem?_lineIndex :
    table.starts[(table.lineIndex offset).val]? = some (table.lineStart offset) :=
  Array.getElem?_eq_getElem _

theorem lineStart_mem : table.lineStart offset ∈ table.starts.toList := by
  have hget := table.getElem?_lineIndex offset
  rw [← Array.getElem?_toList] at hget
  exact List.mem_of_getElem? hget

theorem lineStart_le : table.lineStart offset ≤ offset := by
  have hlast : (table.lineIndex offset).val < table.linesUpTo offset :=
    Nat.lt_of_succ_le (Nat.le_of_eq (table.lineIndex_add_one offset))
  exact (table.splits_linesUpTo offset).le_limit _ _ (table.getElem?_lineIndex offset) hlast

/-- No other line starts later and still at or before the offset. -/
theorem le_lineStart {start : Nat} (hmem : start ∈ table.starts.toList) (hle : start ≤ offset) :
    start ≤ table.lineStart offset := by
  obtain ⟨i, hi⟩ := List.mem_iff_getElem?.mp hmem
  rw [Array.getElem?_toList] at hi
  have hline := table.getElem?_lineIndex offset
  have hindex := table.lineIndex_add_one offset
  rcases Nat.lt_trichotomy i (table.lineIndex offset).val with hearlier | rfl | hlater
  · exact Nat.le_of_lt (lt_of_sorted table.sorted hearlier hi hline)
  · rw [hi] at hline
    exact Nat.le_of_eq (Option.some.inj hline)
  · have hbehind := (table.splits_linesUpTo offset).limit_lt i start hi (by omega)
    omega

end

section

variable (source : String) (path : Option String) (offset : Nat)

theorem starts_ofText :
    (ofText source path).starts.toList = 0 :: breaksFrom 0 (Text.Utf8.encode source) := by
  rw [Text.Utf8.encode_eq_flatMap, ← startsFrom_eq_breaksFrom]
  rfl

theorem linesUpTo_ofText :
    (ofText source path).linesUpTo offset =
      1 + ((Text.Utf8.encode source).take offset).count 10 := by
  have hcount := countP_breaksFrom 0 offset (Text.Utf8.encode source)
  rw [Nat.zero_add] at hcount
  rw [← ((ofText source path).splits_linesUpTo offset).countP_eq, starts_ofText, List.countP_cons,
    hcount]
  simp [Nat.add_comm]

/-- A line starts with the text or behind a line feed, so what precedes it ends in column 1. -/
theorem behind_take_start {start : Nat} (h : start ∈ (ofText source path).starts.toList) :
    (Cursor.behind ((Text.Utf8.encode source).take start)).column = 1 := by
  rw [starts_ofText] at h
  rcases List.mem_cons.mp h with rfl | hbreak
  · rfl
  · obtain ⟨i, hi, rfl⟩ := mem_breaksFrom_iff.mp hbreak
    rw [Nat.zero_add, List.take_add_one, hi]
    exact Cursor.behind_newline _

/-- Between the start of its line and an offset there is no line feed. -/
theorem newline_not_mem_line :
    10 ∉ ((Text.Utf8.encode source).take offset).drop ((ofText source path).lineStart offset) := by
  intro hmem
  obtain ⟨i, hi⟩ := List.mem_iff_getElem?.mp hmem
  rw [List.getElem?_drop, List.getElem?_take] at hi
  split at hi
  next hlt =>
    -- a line would start behind that line feed
    have hstart : 0 + ((ofText source path).lineStart offset + i) + 1 ∈
        (ofText source path).starts.toList := by
      rw [starts_ofText]
      exact List.mem_cons_of_mem 0 (mem_breaksFrom_iff.mpr ⟨_, hi, rfl⟩)
    have hle := (ofText source path).le_lineStart offset hstart (by omega)
    omega
  next => cases hi

theorem take_split (bytes : List UInt8) {first second : Nat} (h : first ≤ second) :
    bytes.take second = bytes.take first ++ (bytes.take second).drop first := by
  have hfirst : (bytes.take second).take first = bytes.take first := by
    rw [List.take_take, Nat.min_eq_left h]
  rw [← hfirst, List.take_append_drop]

/-- The bytes before a place are those before its line, which end in column 1, and those of the line
up to there. -/
theorem behind_take {place : Nat} (hplace : place ≤ source.utf8ByteSize) :
    Cursor.behind ((Text.Utf8.encode source).take place) =
      ⟨(ofText source path).linesUpTo place, place - (ofText source path).lineStart place + 1⟩ := by
  have hle := (ofText source path).lineStart_le place
  have hcolumn := behind_take_start source path ((ofText source path).lineStart_mem place)
  have hclear := newline_not_mem_line source path place
  have hlines := linesUpTo_ofText source path place
  generalize (ofText source path).lineStart place = start at *
  have hsplit := take_split (Text.Utf8.encode source) hle
  have hlength : (((Text.Utf8.encode source).take place).drop start).length = place - start := by
    rw [List.length_drop, List.length_take, Text.Utf8.length_encode, Nat.min_eq_left hplace]
  have hbehind := @Cursor.behind_append ((Text.Utf8.encode source).take start) _ hclear
  rw [← hsplit, hlength, hcolumn] at hbehind
  have hplaceColumn : (Cursor.behind ((Text.Utf8.encode source).take place)).column =
      place - start + 1 := by
    rw [hbehind]
    exact Nat.add_comm 1 _
  have hplaceLine : (Cursor.behind ((Text.Utf8.encode source).take place)).line =
      (ofText source path).linesUpTo place := hlines.symm
  rw [← hplaceLine, ← hplaceColumn]

theorem cursor_ofText :
    (ofText source path).cursor offset =
      .behind ((Text.Utf8.encode source).take (min offset source.utf8ByteSize)) := by
  have hclamp : (ofText source path).clamp offset = min offset source.utf8ByteSize := rfl
  rw [behind_take source path (Nat.min_le_right _ _), ← hclamp]
  unfold cursor
  dsimp only
  rw [lineIndex_add_one]

theorem cursor_before {first second : Nat} (hlt : first < second)
    (hle : second ≤ source.utf8ByteSize) :
    ((ofText source path).cursor first).Before ((ofText source path).cursor second) := by
  have hsplit := take_split (Text.Utf8.encode source) (Nat.le_of_lt hlt)
  have hmore : ((Text.Utf8.encode source).take second).drop first ≠ [] := by
    rw [← List.length_pos_iff, List.length_drop, List.length_take, Text.Utf8.length_encode]
    omega
  rw [cursor_ofText, cursor_ofText, Nat.min_eq_left hle, Nat.min_eq_left (by omega), hsplit]
  exact Cursor.behind_before_append hmore

end

/-- The place of every offset is the one that counting gives.  The search finds at least one line, so
its answer less one is an index, the table has an entry there, and the entry is at most the offset
it is taken from.  In the text, places come in the order of their offsets. -/
theorem place_by_counting (source : String) (path : Option String) :
    (∀ offset,
      (ofText source path).cursor offset =
          .behind ((Text.Utf8.encode source).take (min offset source.utf8ByteSize)) ∧
        0 < (ofText source path).linesUpTo (min offset source.utf8ByteSize) ∧
        ∃ start,
          (ofText source path).starts[
              (ofText source path).linesUpTo (min offset source.utf8ByteSize) - 1]? = some start ∧
            start ≤ min offset source.utf8ByteSize ∧
            (ofText source path).cursor offset =
              ⟨(ofText source path).linesUpTo (min offset source.utf8ByteSize) - 1 + 1,
                min offset source.utf8ByteSize - start + 1⟩) ∧
      (∀ first second, first < second → second ≤ source.utf8ByteSize →
        ((ofText source path).cursor first).Before ((ofText source path).cursor second)) ∧
      ∀ first second, first ≤ source.utf8ByteSize → second ≤ source.utf8ByteSize →
        (ofText source path).cursor first = (ofText source path).cursor second →
          first = second := by
  refine ⟨fun offset => ⟨cursor_ofText source path offset, linesUpTo_pos _ _, ?_⟩, ?_, ?_⟩
  · exact ⟨_, getElem?_lineIndex _ _, lineStart_le _ _, rfl⟩
  · exact fun first second => cursor_before source path
  · intro first second hfirst hsecond hsame
    rcases Nat.lt_trichotomy first second with hlt | heq | hgt
    · exact absurd hsame (cursor_before source path hlt hsecond).ne
    · exact heq
    · exact absurd hsame.symm (cursor_before source path hgt hfirst).ne

/-- An offset inside of a character, the two sides of a line feed, and an offset behind the text. -/
theorem place_by_counting_splitCharacter :
    (ofText "é\nab\n" none).cursor 1 = ⟨1, 2⟩ ∧ (ofText "é\nab\n" none).cursor 99 = ⟨3, 1⟩ ∧
      2 < 3 ∧ 3 ≤ "é\nab\n".utf8ByteSize ∧
      ((ofText "é\nab\n" none).cursor 2).Before ((ofText "é\nab\n" none).cursor 3) := by
  obtain ⟨hplace, hbefore, -⟩ := place_by_counting "é\nab\n" none
  have hsize : 3 ≤ "é\nab\n".utf8ByteSize := by decide +kernel
  refine ⟨?_, ?_, by decide, hsize, hbefore 2 3 (by decide) hsize⟩
  · rw [(hplace 1).1]
    decide +kernel
  · rw [(hplace 99).1]
    decide +kernel

end LineTable
end LambdaAny
