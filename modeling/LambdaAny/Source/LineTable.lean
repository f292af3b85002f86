import LambdaAny.Source.Span

/-!
# Lines and columns

Turns byte offsets of one text into line and column, both counted from 1.  Only a line feed ends
a line, and columns count bytes.  An offset past the end is read as the end of the text.

The line of an offset is searched for by halving.  The search needs the starts of the lines in
order, and its answer is the index of a line only because the first of them is 0.  A table carries
both facts, so every index that is taken into it is within bounds.
-/

namespace LambdaAny

structure Cursor where
  line : Nat
  column : Nat
deriving DecidableEq, Repr

def Cursor.text (cursor : Cursor) : String := s!"{cursor.line}:{cursor.column}"

/-- Where the lines of a text start, how long it is in bytes, and the name of its file if any. -/
structure LineTable where
  starts : Array Nat
  size : Nat
  path : Option String
  first : starts[0]? = some 0
  sorted : starts.toList.Pairwise (· < ·)
deriving Repr

namespace LineTable

/-! ## The table of a text -/

/-- The offsets just behind the line feeds of a text that begins at `offset`. -/
def startsFrom (offset : Nat) : List Char → List Nat
  | [] => []
  | c :: cs =>
    let next := offset + c.utf8Size
    if c = '\n' then next :: startsFrom next cs else startsFrom next cs

theorem lt_of_mem_startsFrom {offset start : Nat} {cs : List Char}
    (h : start ∈ startsFrom offset cs) : offset < start := by
  induction cs generalizing offset with
  | nil => cases h
  | cons c cs ih =>
      have hsize := c.utf8Size_pos
      have hlater : start ∈ startsFrom (offset + c.utf8Size) cs → offset < start := by
        intro hmem
        have hlt := ih hmem
        omega
      simp only [startsFrom] at h
      split at h
      · rcases List.mem_cons.mp h with rfl | hmem
        · omega
        · exact hlater hmem
      · exact hlater h

theorem pairwise_startsFrom (offset : Nat) (cs : List Char) :
    (startsFrom offset cs).Pairwise (· < ·) := by
  induction cs generalizing offset with
  | nil => exact .nil
  | cons c cs ih =>
      simp only [startsFrom]
      split
      · exact .cons (fun _ => lt_of_mem_startsFrom) (ih _)
      · exact ih _

def ofText (source : String) (path : Option String) : LineTable where
  starts := (0 :: startsFrom 0 source.toList).toArray
  size := source.utf8ByteSize
  path := path
  first := rfl
  sorted := .cons (fun _ => lt_of_mem_startsFrom) (pairwise_startsFrom 0 source.toList)

/-! ## The search for a line -/

theorem midpoint_lt {lo hi : Nat} (h : lo < hi) : (lo + hi) / 2 < hi := by omega

theorem le_midpoint {lo hi : Nat} (h : lo < hi) : lo ≤ (lo + hi) / 2 := by omega

/-- The index from `lo` to `hi` at which the numbers above a limit begin, in a table that is in
order.  The range is halved until nothing is left of it. -/
def partitionPoint (starts : Array Nat) (limit lo hi : Nat) (h : hi ≤ starts.size) : Nat :=
  if hlt : lo < hi then
    have hmid : (lo + hi) / 2 < starts.size := Nat.lt_of_lt_of_le (midpoint_lt hlt) h
    if starts[(lo + hi) / 2] ≤ limit then partitionPoint starts limit ((lo + hi) / 2 + 1) hi h
    else partitionPoint starts limit lo ((lo + hi) / 2) (Nat.le_of_lt hmid)
  else lo
termination_by hi - lo
decreasing_by
  · exact Nat.sub_lt_sub_left hlt (Nat.lt_succ_of_le (le_midpoint hlt))
  · exact Nat.sub_lt_sub_right (le_midpoint hlt) (midpoint_lt hlt)

/-- The index splits the table: numbers up to the limit in front, numbers above it behind. -/
structure Splits (starts : Array Nat) (limit index : Nat) : Prop where
  le_size : index ≤ starts.size
  le_limit : ∀ i start, starts[i]? = some start → i < index → start ≤ limit
  limit_lt : ∀ i start, starts[i]? = some start → index ≤ i → limit < start

theorem lt_of_sorted {starts : Array Nat} (hsorted : starts.toList.Pairwise (· < ·))
    {i j first second : Nat} (hlt : i < j) (hfirst : starts[i]? = some first)
    (hsecond : starts[j]? = some second) : first < second := by
  rw [← Array.getElem?_toList] at hfirst hsecond
  obtain ⟨hi, rfl⟩ := List.getElem?_eq_some_iff.mp hfirst
  obtain ⟨hj, rfl⟩ := List.getElem?_eq_some_iff.mp hsecond
  exact List.pairwise_iff_getElem.mp hsorted i j hi hj hlt

/-- By induction along the search: what lies outside of the range is known already. -/
theorem splits_partitionPoint {starts : Array Nat} (hsorted : starts.toList.Pairwise (· < ·))
    (limit lo hi : Nat) (h : hi ≤ starts.size) (hle : lo ≤ hi)
    (hbelow : ∀ i start, starts[i]? = some start → i < lo → start ≤ limit)
    (habove : ∀ i start, starts[i]? = some start → hi ≤ i → limit < start) :
    Splits starts limit (partitionPoint starts limit lo hi h) := by
  fun_induction partitionPoint starts limit lo hi h with
  | case1 lo hi h hlt hmid hsmall ih =>
      refine ih (midpoint_lt hlt) ?_ habove
      intro i start hstart hi
      rcases Nat.lt_or_eq_of_le (Nat.le_of_lt_succ hi) with hearlier | rfl
      · have hless := lt_of_sorted hsorted hearlier hstart (Array.getElem?_eq_getElem hmid)
        omega
      · rw [Array.getElem?_eq_getElem hmid] at hstart
        exact Option.some.inj hstart ▸ hsmall
  | case2 lo hi h hlt hmid hlarge ih =>
      refine ih (le_midpoint hlt) hbelow ?_
      intro i start hstart hi
      rcases Nat.lt_or_eq_of_le hi with hlater | rfl
      · have hless := lt_of_sorted hsorted hlater (Array.getElem?_eq_getElem hmid) hstart
        omega
      · rw [Array.getElem?_eq_getElem hmid] at hstart
        exact Option.some.inj hstart ▸ Nat.lt_of_not_le hlarge
  | case3 lo hi h hlt =>
      obtain rfl : lo = hi := Nat.le_antisymm hle (Nat.le_of_not_lt hlt)
      exact ⟨h, hbelow, habove⟩

variable (table : LineTable) (offset : Nat)

/-- How many lines start at or before an offset. -/
def linesUpTo : Nat :=
  partitionPoint table.starts offset 0 table.starts.size (Nat.le_refl _)

theorem splits_linesUpTo : Splits table.starts offset (table.linesUpTo offset) := by
  refine splits_partitionPoint table.sorted offset 0 _ _ (Nat.zero_le _) ?_ ?_
  · intro i start _ hi
    exact absurd hi (Nat.not_lt_zero i)
  · intro i start hstart hi
    rw [Array.getElem?_eq_none hi] at hstart
    cases hstart

theorem linesUpTo_pos : 0 < table.linesUpTo offset := by
  rcases Nat.eq_zero_or_pos (table.linesUpTo offset) with hzero | hpos
  · have hlt := (table.splits_linesUpTo offset).limit_lt 0 0 table.first (Nat.le_of_eq hzero)
    exact absurd hlt (Nat.not_lt_zero offset)
  · exact hpos

/-- The index of the last line that starts at or before an offset. -/
def lineIndex : Fin table.starts.size :=
  ⟨table.linesUpTo offset - 1,
    Nat.lt_of_lt_of_le (Nat.sub_one_lt_of_lt (table.linesUpTo_pos offset))
      (table.splits_linesUpTo offset).le_size⟩

/-- The offset at which that line starts. -/
def lineStart : Nat := table.starts[table.lineIndex offset]

/-! ## Places -/

/-- The offset, or the end of the text if it lies behind that. -/
def clamp : Nat := min offset table.size

/-- The place of an offset: the last line that starts at or before it. -/
def cursor : Cursor :=
  let offset := table.clamp offset
  ⟨(table.lineIndex offset).val + 1, offset - table.lineStart offset + 1⟩

/-- The place of a span's start, behind the name of the file if the text has one. -/
def locate (span : Span) : String :=
  let place := (table.cursor span.start).text
  match table.path with
  | some path => path ++ ":" ++ place
  | none => place

end LineTable
end LambdaAny
