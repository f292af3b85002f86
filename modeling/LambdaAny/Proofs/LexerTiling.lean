import LambdaAny.Proofs.Lexing

/-!
# The lexer tiles its source

The items of a text lie one behind the other, each on a span of whole characters, and what they
leave uncovered are exactly the blanks.  Each item is decided by the text from its start on: it is
the longest beginning that some token pattern matches, or one character if none matches anything.

The patterns are written down here apart from the lexer: identifiers, runs of digits, reserved words
and symbols.  Where an identifier and a reserved word match the same text, the word wins.  The value
of a run of digits is said by its decimal notation, not by the sum the lexer computes.
-/

namespace LambdaAny
namespace Lexer

/-! ## Numbers -/

/-- The text is a run of digits, `[0-9]+`. -/
def IsNumber (text : String) : Prop :=
  text.toList ≠ [] ∧ ∀ c ∈ text.toList, '0' ≤ c ∧ c ≤ '9'

/-- The text is the number in decimal, behind any number of zeros. -/
def IsDecimal (text : String) (n : Nat) : Prop :=
  ∃ zeros, text.toList = List.replicate zeros '0' ++ n.repr.toList

theorem exists_digitChar_of_isDigit {c : Char} (h : c.isDigit = true) :
    ∃ d, d < 10 ∧ c = d.digitChar := by
  have hrange := Char.isDigit_iff_toNat.mp h
  have hlow : 48 ≤ c.toNat := hrange.1
  have hhigh : c.toNat ≤ 57 := hrange.2
  have hall : ∀ d, d < 10 → d.digitChar.toNat = d + 48 := by decide
  refine ⟨c.toNat - 48, by omega, ?_⟩
  apply Char.toNat_inj.mp
  rw [hall _ (by omega)]
  omega

/-- One more digit behind a decimal notation.  Behind a lone zero that zero becomes one of the
leading ones. -/
theorem toDigits_append_digit (zeros n : Nat) {d : Nat} (hd : d < 10) :
    ∃ zeros', List.replicate zeros '0' ++ Nat.toDigits 10 n ++ [d.digitChar] =
      List.replicate zeros' '0' ++ Nat.toDigits 10 (10 * n + d) := by
  have hlast : [d.digitChar] = Nat.toDigits 10 d := (Nat.toDigits_of_lt_base hd).symm
  rcases Nat.eq_zero_or_pos n with rfl | hn
  · refine ⟨zeros + 1, ?_⟩
    rw [hlast, Nat.toDigits_zero, List.replicate_succ', Nat.mul_zero, Nat.zero_add]
  · refine ⟨zeros, ?_⟩
    rw [hlast, List.append_assoc, Nat.toDigits_append_toDigits (by decide) hn hd]

/-- By induction on the digits that are still to be read; what was read so far is in decimal. -/
theorem toDigits_append_digits (cs : List Char) (hdigits : ∀ c ∈ cs, c.isDigit = true)
    (zeros n : Nat) :
    ∃ zeros', List.replicate zeros '0' ++ Nat.toDigits 10 n ++ cs =
      List.replicate zeros' '0' ++ Nat.toDigits 10 (Nat.ofDigitChars 10 cs n) := by
  induction cs generalizing zeros n with
  | nil => exact ⟨zeros, by rw [List.append_nil, Nat.ofDigitChars_nil]⟩
  | cons c cs ih =>
      obtain ⟨d, hd, rfl⟩ := exists_digitChar_of_isDigit (hdigits c List.mem_cons_self)
      obtain ⟨zeros', hfirst⟩ := toDigits_append_digit zeros n hd
      obtain ⟨zeros'', hrest⟩ :=
        ih (fun e he => hdigits e (List.mem_cons_of_mem _ he)) zeros' (10 * n + d)
      refine ⟨zeros'', ?_⟩
      rw [Nat.ofDigitChars_cons_digitChar_of_lt_ten hd, ← hrest, ← hfirst]
      simp

theorem isDecimal_ofDigitChars {c : Char} {cs : List Char} (hc : c.isDigit = true)
    (hcs : ∀ d ∈ cs, d.isDigit = true) :
    IsDecimal (String.ofList (c :: cs)) (Nat.ofDigitChars 10 (c :: cs) 0) := by
  obtain ⟨d, hd, rfl⟩ := exists_digitChar_of_isDigit hc
  obtain ⟨zeros, hdecimal⟩ := toDigits_append_digits cs hcs 0 d
  refine ⟨zeros, ?_⟩
  rw [String.toList_ofList, Nat.toList_repr, Nat.ofDigitChars_cons_digitChar_of_lt_ten hd,
    Nat.mul_zero, Nat.zero_add, ← hdecimal, Nat.toDigits_of_lt_base hd]
  rfl

/-! ## Token patterns -/

/-- Some token pattern matches the whole text. -/
inductive IsTokenText : String → Prop
  | ident {text : String} (h : IsIdentifier text) : IsTokenText text
  | number {text : String} (h : IsNumber text) : IsTokenText text
  | reserved {text : String} (h : text ∈ reservedWords) : IsTokenText text
  | symbol (s : Symbol) : IsTokenText s.text

/-- With `after` behind it, the piece is the longest beginning that a token pattern matches. -/
structure IsLongestToken (piece after : String) : Prop where
  matched : IsTokenText piece
  longest : ∀ front behind, piece ++ after = front ++ behind → IsTokenText front →
    front.length ≤ piece.length

/-- The item of a text that some token pattern matches.  A reserved word is no identifier, and a
number is in range below `2 ^ 63`. -/
inductive Denotes (piece : String) (span : Span) : Item → Prop
  | ident (hname : IsName piece) : Denotes piece span (.ok ⟨.ident piece, span⟩)
  | keyword (k : Keyword) (h : k.text = piece) : Denotes piece span (.ok ⟨.keyword k, span⟩)
  | bool (b : Bool) (h : (Token.bool b).text = piece) : Denotes piece span (.ok ⟨.bool b, span⟩)
  | symbol (s : Symbol) (h : s.text = piece) : Denotes piece span (.ok ⟨.symbol s, span⟩)
  | int {n : Int64} {v : Nat} (hv : IsDecimal piece v) (hrange : v < Nat.pow 2 63)
      (hn : n.toInt = v) : Denotes piece span (.ok ⟨.int n, span⟩)
  | intOutOfRange {v : Nat} (hv : IsDecimal piece v) (hrange : Nat.pow 2 63 ≤ v) :
      Denotes piece span (.error (.intOutOfRange piece span))

/-- The item of the piece of text that is read next, when `after` stands behind it. -/
inductive Scans (span : Span) : (piece after : String) → Item → Prop
  | token {piece after : String} {item : Item} (hlongest : IsLongestToken piece after)
      (hitem : Denotes piece span item) : Scans span piece after item
  | illegal {c : Char} {after : String}
      (hnone : ∀ front behind, c.toString ++ after = front ++ behind → ¬IsTokenText front) :
      Scans span c.toString after (.error (.illegalChar c.toString span))

/-! ## Symbols -/

theorem symbol_ofText?_eq_some_iff {word : String} {s : Symbol} :
    Symbol.ofText? word = some s ↔ s.text = word := by
  constructor
  · intro h
    have hfound := List.find?_some h
    simpa using hfound
  · rintro rfl
    cases s <;> rfl

/-- A symbol has one or two characters.  Neither is blank, and the first starts no word and no
number. -/
theorem symbol_text_cases (s : Symbol) :
    ∃ c more, s.text.toList = c :: more ∧
      (isBlank c = false ∧ isIdentStart c = false ∧ c.isDigit = false) ∧
      (more = [] ∨ ∃ d, more = [d] ∧ isBlank d = false) := by
  cases s with
  | arrow | le | ge => exact ⟨_, _, rfl, by decide, .inr ⟨_, rfl, by decide⟩⟩
  | parenOpen | parenClose | colon | equals | lt | gt | plus | minus | star | slash =>
      exact ⟨_, _, rfl, by decide, .inl rfl⟩

theorem isBlank_eq_false_of_mem_symbol {s : Symbol} {c : Char} (h : c ∈ s.text.toList) :
    isBlank c = false := by
  obtain ⟨first, more, htext, ⟨hfirst, -⟩, hmore⟩ := symbol_text_cases s
  rw [htext] at h
  rcases List.mem_cons.mp h with rfl | hlater
  · exact hfirst
  · rcases hmore with rfl | ⟨d, rfl, hd⟩
    · cases hlater
    · rw [List.mem_singleton.mp hlater]
      exact hd

theorem lexemeTail_word {c : Char} (hstart : isIdentStart c = true) (cs : List Char) :
    lexemeTail c cs = cs.takeWhile isIdentChar := if_pos hstart

theorem lexemeTail_number {c : Char} (hdigit : c.isDigit = true) (cs : List Char) :
    lexemeTail c cs = cs.takeWhile Char.isDigit := by
  unfold lexemeTail
  rw [if_neg (by simp [isIdentStart_eq_false_of_isDigit hdigit]), if_pos hdigit]

/-- What follows a character that starts no word and no number: one more character if the two make
a symbol, and nothing otherwise. -/
theorem lexemeTail_symbol {c : Char} (hstart : isIdentStart c = false) (hdigit : c.isDigit = false)
    (cs : List Char) :
    (∃ d, lexemeTail c cs = [d] ∧ ∃ s : Symbol, s.text.toList = [c, d]) ∨
      lexemeTail c cs = [] ∧ ∀ d more, cs = d :: more → ∀ s : Symbol, s.text.toList ≠ [c, d] := by
  unfold lexemeTail
  rw [if_neg (by simp [hstart]), if_neg (by simp [hdigit])]
  cases cs with
  | nil => exact .inr ⟨rfl, nofun⟩
  | cons d cs =>
      dsimp only
      cases hpair : Symbol.ofText? (String.ofList [c, d]) with
      | some s =>
          have htext : s.text.toList = [c, d] := by
            rw [symbol_ofText?_eq_some_iff.mp hpair, String.toList_ofList]
          exact .inl ⟨d, rfl, s, htext⟩
      | none =>
          refine .inr ⟨rfl, ?_⟩
          rintro e more heq s htext
          obtain ⟨rfl, rfl⟩ := List.cons.inj heq
          have hsome : Symbol.ofText? (String.ofList [c, d]) = some s := by
            rw [← htext, String.ofList_toList]
            exact symbol_ofText?_eq_some_iff.mpr rfl
          rw [hpair] at hsome
          cases hsome

/-- If any symbol stands at the front, the lexeme is a symbol and at least as long. -/
theorem symbol_front {c : Char} {cs behind : List Char} {s : Symbol}
    (hstart : isIdentStart c = false) (hdigit : c.isDigit = false)
    (h : c :: cs = s.text.toList ++ behind) :
    ∃ s' : Symbol, s'.text.toList = c :: lexemeTail c cs ∧
      s.text.toList.length ≤ s'.text.toList.length := by
  obtain ⟨e, more, htext, -, hmore⟩ := symbol_text_cases s
  rw [htext, List.cons_append] at h
  obtain ⟨rfl, rfl⟩ := List.cons.inj h
  rcases lexemeTail_symbol hstart hdigit (more ++ behind) with ⟨d, htail, s', hs'⟩ | ⟨htail, hno⟩
  · refine ⟨s', by rw [hs', htail], ?_⟩
    rcases hmore with rfl | ⟨d', rfl, -⟩ <;> simp [htext, hs']
  · rcases hmore with rfl | ⟨d, rfl, -⟩
    · exact ⟨s, by rw [htext, htail], Nat.le_refl _⟩
    · exact absurd htext (hno d behind rfl s)

/-! ## One item -/

/-- The first character of a text that a token pattern matches decides the pattern. -/
theorem IsTokenText.first {text : String} (h : IsTokenText text) :
    ∃ c more, text.toList = c :: more ∧
      (isIdentStart c = true ∧ (∀ d ∈ more, isIdentChar d = true) ∨
        c.isDigit = true ∧ (∀ d ∈ more, d.isDigit = true) ∨
        isIdentStart c = false ∧ c.isDigit = false ∧ ∃ s : Symbol, s.text.toList = c :: more) := by
  have hident : IsIdentifier text → ∃ c more, text.toList = c :: more ∧
      isIdentStart c = true ∧ ∀ d ∈ more, isIdentChar d = true := by
    intro h
    have ⟨c, more, htext, _⟩ := h
    exact ⟨c, more, htext, (isIdentifier_iff htext).mp h⟩
  cases h with
  | ident h =>
      obtain ⟨c, more, htext, hword⟩ := hident h
      exact ⟨c, more, htext, .inl hword⟩
  | reserved h =>
      obtain ⟨c, more, htext, hword⟩ := hident (isIdentifier_of_mem_reservedWords h)
      exact ⟨c, more, htext, .inl hword⟩
  | number h =>
      obtain ⟨hsome, hdigits⟩ := h
      obtain ⟨c, more, htext⟩ := List.exists_cons_of_ne_nil hsome
      rw [htext] at hdigits
      have hdigit : ∀ d ∈ c :: more, d.isDigit = true := fun d hd => isDigit_iff.mpr (hdigits d hd)
      obtain ⟨hc, hmore⟩ := List.forall_mem_cons.mp hdigit
      exact ⟨c, more, htext, .inr (.inl ⟨hc, hmore⟩)⟩
  | symbol s =>
      obtain ⟨c, more, htext, ⟨-, hstart, hdigit⟩, -⟩ := symbol_text_cases s
      exact ⟨c, more, htext, .inr (.inr ⟨hstart, hdigit, s, htext⟩)⟩

theorem exists_symbol_of_front {c : Char} {cs behind : List Char} {front : String}
    (hstart : isIdentStart c = false) (hdigit : c.isDigit = false)
    (h : c :: cs = front.toList ++ behind) (hfront : IsTokenText front) :
    ∃ s : Symbol, s.text.toList = front.toList := by
  obtain ⟨c', more, htext, hkind⟩ := hfront.first
  rw [htext, List.cons_append] at h
  obtain ⟨rfl, -⟩ := List.cons.inj h
  rcases hkind with ⟨hyes, -⟩ | ⟨hyes, -⟩ | ⟨-, -, s, hs⟩
  · rw [hstart] at hyes
    cases hyes
  · rw [hdigit] at hyes
    cases hyes
  · exact ⟨s, by rw [hs, htext]⟩

theorem length_le_takeWhile {p : Char → Bool} {front behind : List Char}
    (h : ∀ c ∈ front, p c = true) : front.length ≤ ((front ++ behind).takeWhile p).length := by
  rw [List.takeWhile_append_of_pos h, List.length_append]
  exact Nat.le_add_right _ _

/-- No token pattern matches a longer beginning than the lexeme. -/
theorem length_le_lexeme {c : Char} {cs : List Char} {front : String} {behind : List Char}
    (h : c :: cs = front.toList ++ behind) (hfront : IsTokenText front) :
    front.toList.length ≤ (c :: lexemeTail c cs).length := by
  obtain ⟨c', more, htext, hkind⟩ := hfront.first
  rw [htext, List.cons_append] at h
  obtain ⟨rfl, rfl⟩ := List.cons.inj h
  rcases hkind with ⟨hstart, hmore⟩ | ⟨hdigit, hmore⟩ | ⟨hstart, hdigit, s, hs⟩
  · rw [htext, lexemeTail_word hstart]
    exact Nat.succ_le_succ (length_le_takeWhile hmore)
  · rw [htext, lexemeTail_number hdigit]
    exact Nat.succ_le_succ (length_le_takeWhile hmore)
  · have hsymbol : c :: (more ++ behind) = s.text.toList ++ behind := by rw [hs, List.cons_append]
    obtain ⟨s', hs', hle⟩ := symbol_front hstart hdigit hsymbol
    rw [htext, ← hs, ← hs']
    exact hle

theorem append_toList_of_ofList_append {xs ys : List Char} {front behind : String}
    (h : String.ofList xs ++ String.ofList ys = front ++ behind) :
    xs ++ ys = front.toList ++ behind.toList := by
  rw [← String.toList_append, ← h, String.toList_append, String.toList_ofList,
    String.toList_ofList]

theorem isLongestToken_lexeme {c : Char} {cs : List Char}
    (hmatched : IsTokenText (String.ofList (c :: lexemeTail c cs))) :
    IsLongestToken (String.ofList (c :: lexemeTail c cs))
      (String.ofList (cs.drop (lexemeTail c cs).length)) := by
  refine ⟨hmatched, fun front behind happend hfront => ?_⟩
  have hlist := append_toList_of_ofList_append happend
  rw [List.cons_append, lexemeTail_append_drop] at hlist
  have hle := length_le_lexeme hlist hfront
  rw [← String.length_toList, ← String.length_toList, String.toList_ofList]
  exact hle

theorem denotes_wordToken {word : String} (h : IsIdentifier word) (span : Span) :
    Denotes word span (.ok ⟨wordToken word, span⟩) := by
  rcases wordToken_cases word with ⟨b, hb, htoken⟩ | ⟨k, hk, htoken⟩ | ⟨hname, htoken⟩
  · rw [htoken]
    exact .bool b hb
  · rw [htoken]
    exact .keyword k hk
  · rw [htoken]
    exact .ident ⟨h, hname⟩

/-- The item that is read at `c`, with `cs` behind it, is the one that this text denotes. -/
def ScansAt (offset : Nat) (c : Char) (cs : List Char) : Prop :=
  Scans ⟨offset, offset + byteLength (c :: lexemeTail c cs)⟩ (String.ofList (c :: lexemeTail c cs))
    (String.ofList (cs.drop (lexemeTail c cs).length)) (item offset c (lexemeTail c cs))

theorem scansAt_word {c : Char} (hstart : isIdentStart c = true) (offset : Nat) (cs : List Char) :
    ScansAt offset c cs := by
  have hident : IsIdentifier (String.ofList (c :: lexemeTail c cs)) := by
    refine (isIdentifier_iff String.toList_ofList).mpr ⟨hstart, ?_⟩
    rw [lexemeTail_word hstart]
    exact List.all_eq_true.mp List.all_takeWhile
  have htoken : token c (lexemeTail c cs) = .ok (wordToken (String.ofList (c :: lexemeTail c cs))) :=
    if_pos hstart
  rw [ScansAt, item_of_token htoken]
  exact .token (isLongestToken_lexeme (.ident hident)) (denotes_wordToken hident _)

theorem scansAt_number {c : Char} (hdigit : c.isDigit = true) (offset : Nat) (cs : List Char) :
    ScansAt offset c cs := by
  have hmore : ∀ d ∈ lexemeTail c cs, d.isDigit = true := by
    rw [lexemeTail_number hdigit]
    exact List.all_eq_true.mp List.all_takeWhile
  have hnumber : IsNumber (String.ofList (c :: lexemeTail c cs)) := by
    rw [IsNumber, String.toList_ofList]
    refine ⟨List.cons_ne_nil _ _, List.forall_mem_cons.mpr ⟨isDigit_iff.mp hdigit, ?_⟩⟩
    exact fun d hd => isDigit_iff.mp (hmore d hd)
  have hdecimal := isDecimal_ofDigitChars hdigit hmore
  have hmax : Int64.maxValue.toInt = 9223372036854775807 := by decide
  have hpow : Nat.pow 2 63 = 9223372036854775808 := rfl
  have htoken : token c (lexemeTail c cs) =
      if Int.ofNat (Nat.ofDigitChars 10 (c :: lexemeTail c cs) 0) ≤ Int64.maxValue.toInt then
        .ok (.int (Int64.ofNat (Nat.ofDigitChars 10 (c :: lexemeTail c cs) 0)))
      else .error .intOutOfRange := by
    rw [token, if_neg (by simp [isIdentStart_eq_false_of_isDigit hdigit]), if_pos hdigit]
  split at htoken
  next hfits =>
    have hvalue := toInt_ofNat_of_le_maxValue hfits
    rw [hmax, Int.ofNat_eq_natCast] at hfits
    rw [ScansAt, item_of_token htoken]
    exact .token (isLongestToken_lexeme (.number hnumber)) (.int hdecimal (by omega) hvalue)
  next hlarge =>
    rw [hmax, Int.ofNat_eq_natCast] at hlarge
    rw [ScansAt, item_of_fault htoken]
    exact .token (isLongestToken_lexeme (.number hnumber)) (.intOutOfRange hdecimal (by omega))

/-- Without a symbol the lexeme is the character alone, and no token pattern matches here. -/
theorem scansAt_symbol {c : Char} (hstart : isIdentStart c = false) (hdigit : c.isDigit = false)
    (offset : Nat) (cs : List Char) : ScansAt offset c cs := by
  cases hfound : Symbol.ofText? (String.ofList (c :: lexemeTail c cs)) with
  | some s =>
      have htoken : token c (lexemeTail c cs) = .ok (.symbol s) := by
        rw [token, if_neg (by simp [hstart]), if_neg (by simp [hdigit]), hfound]
      have htext := symbol_ofText?_eq_some_iff.mp hfound
      have hmatched : IsTokenText (String.ofList (c :: lexemeTail c cs)) := by
        rw [← htext]
        exact .symbol s
      rw [ScansAt, item_of_token htoken]
      exact .token (isLongestToken_lexeme hmatched) (.symbol s htext)
  | none =>
      have htoken : token c (lexemeTail c cs) = .error .illegalChar := by
        rw [token, if_neg (by simp [hstart]), if_neg (by simp [hdigit]), hfound]
      have hno : ∀ s : Symbol, s.text.toList ≠ c :: lexemeTail c cs := by
        intro s hs
        have hsome := symbol_ofText?_eq_some_iff.mpr (rfl : s.text = s.text)
        rw [← String.ofList_toList (s := s.text), hs, hfound] at hsome
        cases hsome
      have htail : lexemeTail c cs = [] := by
        rcases lexemeTail_symbol hstart hdigit cs with ⟨d, htail, s, hs⟩ | ⟨htail, -⟩
        · exact absurd (by rw [hs, htail]) (hno s)
        · exact htail
      have hpiece : c.toString = String.ofList [c] := by
        rw [Char.toString_eq_singleton, String.singleton_eq_ofList]
      rw [ScansAt, item_of_fault htoken, htail, List.length_nil, List.drop_zero, ← hpiece]
      refine .illegal fun front behind happend hfront => ?_
      rw [hpiece] at happend
      have hlist : c :: cs = front.toList ++ behind.toList :=
        append_toList_of_ofList_append happend
      obtain ⟨s, hs⟩ := exists_symbol_of_front hstart hdigit hlist hfront
      rw [← hs] at hlist
      obtain ⟨s', hs', -⟩ := symbol_front hstart hdigit hlist
      exact hno s' hs'

/-- What is read at a character that is no blank is what the text from there on denotes. -/
theorem scansAt (offset : Nat) (c : Char) (cs : List Char) : ScansAt offset c cs := by
  cases hstart : isIdentStart c with
  | true => exact scansAt_word hstart offset cs
  | false =>
      cases hdigit : c.isDigit with
      | true => exact scansAt_number hdigit offset cs
      | false => exact scansAt_symbol hstart hdigit offset cs

/-! ## All items -/

/-- The piece of text that an item stands on. -/
def itemSpan : Item → Span
  | .ok lexeme => lexeme.span
  | .error cause => cause.span

/-- The items of a text from `offset` on: blanks are passed over, and each item takes a piece
without blanks off the front. -/
inductive Tiles : Nat → List Char → List Item → Prop
  | nil {offset : Nat} : Tiles offset [] []
  | blank {offset : Nat} {c : Char} {cs : List Char} {items : List Item} (hblank : isBlank c = true)
      (hrest : Tiles (offset + c.utf8Size) cs items) : Tiles offset (c :: cs) items
  | item {offset : Nat} {piece cs : List Char} {first : Item} {items : List Item}
      (hpiece : piece ≠ []) (hsolid : ∀ c ∈ piece, isBlank c = false)
      (hspan : itemSpan first = ⟨offset, offset + byteLength piece⟩)
      (hscan : Scans (itemSpan first) (String.ofList piece) (String.ofList cs) first)
      (hrest : Tiles (offset + byteLength piece) cs items) :
      Tiles offset (piece ++ cs) (first :: items)

theorem isBlank_eq_false_of_mem_lexemeTail {c : Char} {cs : List Char} :
    ∀ d ∈ lexemeTail c cs, isBlank d = false := by
  intro d hd
  cases hstart : isIdentStart c with
  | true =>
      rw [lexemeTail_word hstart] at hd
      exact isBlank_eq_false_of_isIdentChar (List.all_eq_true.mp List.all_takeWhile d hd)
  | false =>
      cases hdigit : c.isDigit with
      | true =>
          rw [lexemeTail_number hdigit] at hd
          have hd : d.isDigit = true := List.all_eq_true.mp List.all_takeWhile d hd
          exact isBlank_eq_false_of_isIdentChar (isIdentChar_of_isDigit hd)
      | false =>
          rcases lexemeTail_symbol hstart hdigit cs with ⟨e, htail, s, hs⟩ | ⟨htail, -⟩
          · rw [htail] at hd
            exact isBlank_eq_false_of_mem_symbol (hs ▸ List.mem_cons_of_mem c hd)
          · rw [htail] at hd
            cases hd

theorem itemSpan_of_scans {span : Span} {piece after : String} {item : Item}
    (h : Scans span piece after item) : itemSpan item = span := by
  cases h with
  | token _ hitem => cases hitem <;> rfl
  | illegal _ => rfl

theorem tiles_itemsFrom (offset : Nat) (cs : List Char) :
    Tiles offset cs (itemsFrom offset cs) := by
  fun_induction piecesFrom offset cs with
  | case1 offset =>
      rw [itemsFrom_nil]
      exact .nil
  | case2 offset c cs hblank ih =>
      rw [itemsFrom_blank hblank]
      exact .blank hblank ih
  | case3 offset c cs hblank more ih =>
      rw [itemsFrom_cons (by simpa using hblank)]
      have hscan := scansAt offset c cs
      have hspan := itemSpan_of_scans hscan
      have hcs : c :: cs = (c :: more) ++ cs.drop more.length := by
        rw [List.cons_append, lexemeTail_append_drop]
      rw [hcs]
      refine .item (List.cons_ne_nil _ _) ?_ hspan ?_ ih
      · exact List.forall_mem_cons.mpr ⟨by simpa using hblank, isBlank_eq_false_of_mem_lexemeTail⟩
      · rw [hspan]
        exact hscan

/-! ## Offsets -/

section Tiles

variable {offset : Nat} {cs : List Char} {items : List Item}

theorem Tiles.le_start (h : Tiles offset cs items) :
    ∀ item ∈ items, offset ≤ (itemSpan item).start := by
  induction h with
  | nil => nofun
  | blank _ _ ih =>
      intro item hitem
      have hle := ih item hitem
      omega
  | @item offset _ _ _ _ _ _ hspan _ _ ih =>
      intro item hitem
      rcases List.mem_cons.mp hitem with rfl | hlater
      · have hstart : (itemSpan item).start = offset := by rw [hspan]
        omega
      · have hle := ih item hlater
        omega

theorem Tiles.ordered (h : Tiles offset cs items) :
    items.Pairwise fun first second => (itemSpan first).stop ≤ (itemSpan second).start := by
  induction h with
  | nil => exact .nil
  | blank _ _ ih => exact ih
  | item _ _ hspan _ hrest ih =>
      refine .cons ?_ ih
      rw [hspan]
      exact hrest.le_start

/-- Each item stands on the piece of text at its span, and is what is read there. -/
theorem Tiles.placed (h : Tiles offset cs items) :
    ∀ item ∈ items, ∃ before piece after, cs = before ++ (piece ++ after) ∧ piece ≠ [] ∧
      itemSpan item = ⟨offset + byteLength before, offset + byteLength before + byteLength piece⟩ ∧
      Scans (itemSpan item) (String.ofList piece) (String.ofList after) item := by
  induction h with
  | nil => nofun
  | @blank offset c cs items _ _ ih =>
      intro item hitem
      obtain ⟨before, piece, after, rfl, hpiece, hspan, hscan⟩ := ih item hitem
      refine ⟨c :: before, piece, after, rfl, hpiece, ?_, hscan⟩
      rw [hspan, byteLength_cons, Nat.add_assoc offset]
  | @item offset front cs first items hfront _ hspan hscan _ ih =>
      intro item hitem
      rcases List.mem_cons.mp hitem with rfl | hlater
      · exact ⟨[], front, cs, rfl, hfront, hspan, hscan⟩
      · obtain ⟨before, piece, after, rfl, hpiece, hspan, hscan⟩ := ih item hlater
        refine ⟨front ++ before, piece, after, (List.append_assoc _ _ _).symm, hpiece, ?_, hscan⟩
        rw [hspan, byteLength_append, Nat.add_assoc offset]

/-- The byte at the offset belongs to an item. -/
def Covered (items : List Item) (offset : Nat) : Prop :=
  ∃ item ∈ items, (itemSpan item).start ≤ offset ∧ offset < (itemSpan item).stop

theorem covered_cons_iff {first : Item} {byte : Nat} :
    Covered (first :: items) byte ↔
      ((itemSpan first).start ≤ byte ∧ byte < (itemSpan first).stop) ∨ Covered items byte := by
  simp [Covered]

theorem Tiles.not_covered (h : Tiles offset cs items) {byte : Nat} (hbyte : byte < offset) :
    ¬Covered items byte := by
  rintro ⟨item, hitem, hstart, -⟩
  have hle := h.le_start item hitem
  omega

/-- A byte belongs to an item exactly if the character it is part of is no blank. -/
theorem Tiles.covered_iff (h : Tiles offset cs items) {before after : List Char} {c : Char}
    (hcs : cs = before ++ c :: after) (byte : Nat) (hstart : offset + byteLength before ≤ byte)
    (hstop : byte < offset + byteLength before + c.utf8Size) :
    Covered items byte ↔ isBlank c = false := by
  induction h generalizing before with
  | nil => cases before <;> cases hcs
  | @blank offset d cs items hblank hrest ih =>
      cases before with
      | nil =>
          obtain ⟨rfl, rfl⟩ := List.cons.inj hcs
          simp [hblank, hrest.not_covered hstop]
      | cons e before =>
          obtain ⟨rfl, rfl⟩ := List.cons.inj hcs
          rw [byteLength_cons, ← Nat.add_assoc] at hstart hstop
          exact ih rfl hstart hstop
  | @item offset piece cs first items _ hsolid hspan _ hrest ih =>
      rw [covered_cons_iff, hspan]
      -- the character is one of the piece, or stands behind it, where the other items decide
      have hbehind : ∀ between, before = piece ++ between → cs = between ++ c :: after →
          ((offset ≤ byte ∧ byte < offset + byteLength piece) ∨ Covered items byte ↔
            isBlank c = false) := by
        rintro between rfl hcs
        rw [byteLength_append, ← Nat.add_assoc] at hstart hstop
        rw [← ih hcs hstart hstop]
        exact or_iff_right (by omega)
      rcases List.append_eq_append_iff.mp hcs with
        ⟨between, hbefore, hfollow⟩ | ⟨within, rfl, hafter⟩
      · exact hbehind between hbefore hfollow
      · rcases List.cons_eq_append_iff.mp hafter with ⟨rfl, hfollow⟩ | ⟨within, rfl, -⟩
        · exact hbehind [] (by simp) hfollow
        · have hc : isBlank c = false := hsolid c (by simp)
          rw [byteLength_append, byteLength_cons]
          simp only [hc, iff_true]
          exact .inl (by omega)

end Tiles

/-! ## The tiling -/

/-- What the items of a source are. -/
structure Tiling (source : String) (items : List Item) : Prop where
  /-- Each item stands on a piece of the source, and is what is read there. -/
  scanned : ∀ item ∈ items, ∃ before piece after, source = before ++ piece ++ after ∧
    itemSpan item =
      ⟨before.utf8ByteSize, before.utf8ByteSize + piece.utf8ByteSize⟩ ∧
    Scans (itemSpan item) piece after item ∧
    ∀ cause, item = .error cause → cause.found = piece
  nonempty : ∀ item ∈ items, (itemSpan item).start < (itemSpan item).stop
  /-- Both ends of a span are at character boundaries. -/
  boundaries : ∀ item ∈ items, (String.Pos.Raw.mk (itemSpan item).start).IsValid source ∧
    (String.Pos.Raw.mk (itemSpan item).stop).IsValid source
  ordered : items.Pairwise fun first second => (itemSpan first).stop ≤ (itemSpan second).start
  /-- The bytes that belong to no item are those of the blanks. -/
  uncovered : ∀ before c after, source = before ++ c.toString ++ after →
    ∀ byte, before.utf8ByteSize ≤ byte → byte < before.utf8ByteSize + c.utf8Size →
      (¬Covered items byte ↔ c = ' ' ∨ c = '\n' ∨ c = '\r' ∨ c = '\x08')

theorem found_of_scans {span : Span} {piece after : String} {cause : LexError}
    (h : Scans span piece after (.error cause)) : cause.found = piece := by
  cases h with
  | token _ hitem => cases hitem; rfl
  | illegal _ => rfl

/-- The characters of an item's piece as texts, so that its offsets are sizes of texts. -/
theorem exists_piece_of_mem_items {source : String} {item : Item} (h : item ∈ items source) :
    ∃ before piece after : String, source = before ++ piece ++ after ∧ 0 < piece.utf8ByteSize ∧
      itemSpan item = ⟨before.utf8ByteSize, before.utf8ByteSize + piece.utf8ByteSize⟩ ∧
      Scans (itemSpan item) piece after item := by
  rw [items_eq_itemsFrom] at h
  obtain ⟨before, piece, after, hsource, hpiece, hspan, hscan⟩ :=
    (tiles_itemsFrom 0 source.toList).placed item h
  refine ⟨String.ofList before, String.ofList piece, String.ofList after, ?_, ?_, ?_, hscan⟩
  · rw [String.append_assoc, ← String.ofList_append, ← String.ofList_append, ← hsource,
      String.ofList_toList]
  · rw [← byteLength_eq]
    exact byteLength_pos hpiece
  · rw [hspan, Nat.zero_add, ← byteLength_eq, ← byteLength_eq]

theorem covered_items_iff {source before after : String} {c : Char}
    (hsource : source = before ++ c.toString ++ after) {byte : Nat}
    (hstart : before.utf8ByteSize ≤ byte) (hstop : byte < before.utf8ByteSize + c.utf8Size) :
    Covered (items source) byte ↔ isBlank c = false := by
  have hcs : source.toList = before.toList ++ c :: after.toList := by
    rw [hsource, String.append_assoc, String.toList_append, String.toList_append,
      Char.toString_eq_singleton, String.toList_singleton, List.singleton_append]
  have hbytes : byteLength before.toList = before.utf8ByteSize := by
    rw [byteLength_eq, String.ofList_toList]
  rw [items_eq_itemsFrom]
  exact (tiles_itemsFrom 0 source.toList).covered_iff hcs byte (by omega) (by omega)

theorem tiling_items (source : String) : Tiling source (items source) := by
  have hordered := (tiles_itemsFrom 0 source.toList).ordered
  rw [← items_eq_itemsFrom] at hordered
  refine ⟨?_, ?_, ?_, hordered, ?_⟩
  · intro item hitem
    obtain ⟨before, piece, after, hsource, -, hspan, hscan⟩ := exists_piece_of_mem_items hitem
    refine ⟨before, piece, after, hsource, hspan, hscan, ?_⟩
    rintro cause rfl
    exact found_of_scans hscan
  · intro item hitem
    obtain ⟨before, piece, after, -, hpos, hspan, -⟩ := exists_piece_of_mem_items hitem
    rw [hspan]
    exact Nat.lt_add_of_pos_right hpos
  · intro item hitem
    obtain ⟨before, piece, after, rfl, -, hspan, -⟩ := exists_piece_of_mem_items hitem
    rw [hspan]
    constructor
    · exact String.Pos.Raw.isValid_iff_exists_append.mpr
        ⟨before, piece ++ after, String.append_assoc, rfl⟩
    · exact String.Pos.Raw.isValid_iff_exists_append.mpr
        ⟨before ++ piece, after, rfl, by rw [← String.utf8ByteSize_append]; rfl⟩
  · intro before c after hsource byte hstart hstop
    rw [covered_items_iff hsource hstart hstop, Bool.not_eq_false, isBlank_iff]

/-- Reading stops at the first error; what stands behind it is not looked at. -/
theorem mapM_id_eq_error_iff {items : List Item} {cause : LexError} :
    items.mapM id = .error cause ↔
      ∃ (lexemes : List Lexeme) (later : List Item),
        items = lexemes.map .ok ++ .error cause :: later := by
  induction items with
  | nil => simp [pure, Except.pure]
  | cons first items ih =>
      rw [List.mapM_cons]
      cases first with
      | error cause' =>
          show (Except.error cause' : Except LexError (List Lexeme)) = .error cause ↔ _
          constructor
          · rintro ⟨⟩
            exact ⟨[], items, rfl⟩
          · rintro ⟨lexemes, later, heq⟩
            cases lexemes with
            | nil => cases heq; rfl
            | cons _ _ => cases heq
      | ok lexeme =>
          have hstep : (do let b ← id (Except.ok lexeme); let bs ← items.mapM id; pure (b :: bs) :
              Except LexError (List Lexeme)) = .error cause ↔ items.mapM id = .error cause := by
            cases items.mapM id <;> simp [bind, Except.bind, pure, Except.pure]
          rw [hstep, ih]
          constructor
          · rintro ⟨lexemes, later, rfl⟩
            exact ⟨lexeme :: lexemes, later, rfl⟩
          · rintro ⟨lexemes, later, heq⟩
            cases lexemes with
            | nil => cases heq
            | cons _ lexemes => exact ⟨lexemes, later, (List.cons.inj heq).2⟩

/-- The items tile the source; reading a whole text gives all its tokens, or the first of its
errors. -/
theorem items_tile_source (source : String) :
    Tiling source (items source) ∧
      (∀ lexemes : List Lexeme, lex source = .ok lexemes ↔ items source = lexemes.map .ok) ∧
      ∀ cause : LexError, lex source = .error cause ↔
        ∃ (lexemes : List Lexeme) (later : List Item),
          items source = lexemes.map .ok ++ .error cause :: later :=
  ⟨tiling_items source, fun _ => mapM_id_eq_ok_iff, fun _ => mapM_id_eq_error_iff⟩

end Lexer
end LambdaAny
