import LambdaAny.Proofs.Pieces

/-!
# Texts that read as given tokens

A token is written by its text, and its text reads back as the token if the token is one that texts
denote and what follows cannot be taken for more of it.  `Spelled` collects the texts that are built
this way from tokens and blanks.  There are other texts of the same tokens (leading zeros, tokens
that touch), and nothing is said about them here.

Conversely every token that is read off a text is one that texts denote.
-/

namespace LambdaAny

/-- The keywords and the truth values: the words that are not names. -/
def reservedWords : List String :=
  ["let", "rec", "in", "fun", "if", "then", "else", "mod", "int", "bool", "any", "true", "false"]

/-- The text has the form `[a-z_][a-zA-Z0-9_']*`. -/
def IsIdentifier (text : String) : Prop :=
  ∃ c cs, text.toList = c :: cs ∧ (('a' ≤ c ∧ c ≤ 'z') ∨ c = '_') ∧
    ∀ d ∈ cs, ('a' ≤ d ∧ d ≤ 'z') ∨ ('A' ≤ d ∧ d ≤ 'Z') ∨ ('0' ≤ d ∧ d ≤ '9') ∨ d = '_' ∨ d = '\''

/-- An identifier that is no keyword and no truth value. -/
def IsName (text : String) : Prop := IsIdentifier text ∧ text ∉ reservedWords

/-- Some text denotes the token. -/
def Token.Writable : Token → Prop
  | .ident name => IsName name
  | .int n => 0 ≤ n.toInt
  | .bool _ | .keyword _ | .symbol _ => True

namespace Lexer

/-! ## Words -/

theorem isLower_iff {c : Char} : c.isLower = true ↔ 'a' ≤ c ∧ c ≤ 'z' := by
  show (decide ('a'.val ≤ c.val) && decide (c.val ≤ 'z'.val)) = true ↔ _
  rw [Bool.and_eq_true, decide_eq_true_iff, decide_eq_true_iff]
  rfl

theorem isUpper_iff {c : Char} : c.isUpper = true ↔ 'A' ≤ c ∧ c ≤ 'Z' := decide_eq_true_iff

theorem isDigit_iff {c : Char} : c.isDigit = true ↔ '0' ≤ c ∧ c ≤ '9' := by
  show (decide ('0'.val ≤ c.val) && decide (c.val ≤ '9'.val)) = true ↔ _
  rw [Bool.and_eq_true, decide_eq_true_iff, decide_eq_true_iff]
  rfl

theorem isIdentStart_iff {c : Char} :
    isIdentStart c = true ↔ ('a' ≤ c ∧ c ≤ 'z') ∨ c = '_' := by
  rw [isIdentStart, Bool.or_eq_true, isLower_iff, beq_iff_eq]

theorem isIdentChar_iff {c : Char} :
    isIdentChar c = true ↔
      ('a' ≤ c ∧ c ≤ 'z') ∨ ('A' ≤ c ∧ c ≤ 'Z') ∨ ('0' ≤ c ∧ c ≤ '9') ∨ c = '_' ∨ c = '\'' := by
  show ((((c.isUpper || c.isLower) || c.isDigit) || c == '_') || c == '\'') = true ↔ _
  simp only [Bool.or_eq_true, isLower_iff, isUpper_iff, isDigit_iff, beq_iff_eq, or_assoc,
    or_left_comm]

theorem isIdentChar_of_isIdentStart {c : Char} (h : isIdentStart c = true) :
    isIdentChar c = true := by
  rcases isIdentStart_iff.mp h with hlower | rfl
  · exact isIdentChar_iff.mpr (.inl hlower)
  · rfl

theorem isIdentChar_of_isDigit {c : Char} (h : c.isDigit = true) : isIdentChar c = true :=
  isIdentChar_iff.mpr (.inr (.inr (.inl (isDigit_iff.mp h))))

theorem isBlank_iff {c : Char} :
    isBlank c = true ↔ c = ' ' ∨ c = '\n' ∨ c = '\r' ∨ c = '\x08' := by
  simp [isBlank, or_assoc]

theorem isBlank_eq_false_of_isIdentChar {c : Char} (h : isIdentChar c = true) :
    isBlank c = false := by
  rw [Bool.eq_false_iff]
  intro hblank
  rcases isBlank_iff.mp hblank with rfl | rfl | rfl | rfl <;> exact absurd h (by decide)

theorem isIdentStart_eq_false_of_isDigit {c : Char} (h : c.isDigit = true) :
    isIdentStart c = false := by
  rw [Bool.eq_false_iff]
  intro hstart
  rcases isIdentStart_iff.mp hstart with ⟨hle, _⟩ | rfl
  · have hcontra : 'a' ≤ '9' := Char.le_trans hle (isDigit_iff.mp h).2
    exact absurd hcontra (by decide)
  · exact absurd h (by decide)

/-- An identifier as the lexer sees it. -/
theorem isIdentifier_iff {text : String} {c : Char} {cs : List Char} (h : text.toList = c :: cs) :
    IsIdentifier text ↔ isIdentStart c = true ∧ ∀ d ∈ cs, isIdentChar d = true := by
  constructor
  · rintro ⟨c', cs', heq, hstart, hmore⟩
    obtain ⟨rfl, rfl⟩ := List.cons.inj (h.symm.trans heq)
    exact ⟨isIdentStart_iff.mpr hstart, fun d hd => isIdentChar_iff.mpr (hmore d hd)⟩
  · rintro ⟨hstart, hmore⟩
    exact ⟨c, cs, h, isIdentStart_iff.mp hstart, fun d hd => isIdentChar_iff.mp (hmore d hd)⟩

theorem isIdentifier_iff_all {text : String} :
    IsIdentifier text ↔
      (text.toList.head?.any isIdentStart && text.toList.tail.all isIdentChar) = true := by
  cases h : text.toList with
  | nil => simp [IsIdentifier, h]
  | cons c cs => simp [isIdentifier_iff h]

instance (text : String) : Decidable (IsIdentifier text) := decidable_of_iff' _ isIdentifier_iff_all

instance (text : String) : Decidable (IsName text) := inferInstanceAs (Decidable (_ ∧ _))

instance : DecidablePred Token.Writable
  | .ident name => inferInstanceAs (Decidable (IsName name))
  | .int n => inferInstanceAs (Decidable (0 ≤ n.toInt))
  | .bool _ | .keyword _ | .symbol _ => .isTrue trivial

theorem isIdentifier_of_mem_reservedWords {word : String} (h : word ∈ reservedWords) :
    IsIdentifier word := by
  have hall : ∀ word ∈ reservedWords, IsIdentifier word := by decide
  exact hall word h

theorem ofText?_eq_none_iff {word : String} :
    Keyword.ofText? word = none ↔ ∀ k : Keyword, k.text ≠ word := by
  have hall : ∀ k : Keyword, k ∈ Keyword.all := by
    intro k
    cases k <;> decide
  simp only [Keyword.ofText?, List.find?_eq_none, beq_iff_eq]
  exact ⟨fun h k => h k (hall k), fun h k _ => h k⟩

/-- Every keyword and truth value is a reserved word, and there are no others. -/
theorem mem_reservedWords_iff {word : String} :
    word ∈ reservedWords ↔ word = "true" ∨ word = "false" ∨ ∃ k : Keyword, k.text = word := by
  have hwords : ∀ word ∈ reservedWords,
      word = "true" ∨ word = "false" ∨ ∃ k ∈ Keyword.all, k.text = word := by decide
  constructor
  · intro h
    exact (hwords word h).imp_right (Or.imp_right fun ⟨k, _, hk⟩ => ⟨k, hk⟩)
  · rintro (rfl | rfl | ⟨k, rfl⟩)
    · decide
    · decide
    · cases k <;> decide

theorem wordToken_text (k : Keyword) : wordToken k.text = .keyword k := by
  cases k <;> rfl

theorem wordToken_eq_ident_iff {word name : String} :
    wordToken word = .ident name ↔ word = name ∧ word ∉ reservedWords := by
  rw [mem_reservedWords_iff]
  unfold wordToken
  by_cases htrue : word = "true"
  · simp [htrue]
  · by_cases hfalse : word = "false"
    · simp [hfalse]
    · cases hkeyword : Keyword.ofText? word with
      | some k =>
          have hsome : ∃ k : Keyword, k.text = word := by
            have hfound := List.find?_some hkeyword
            exact ⟨k, by simpa using hfound⟩
          simp [htrue, hfalse, hsome]
      | none =>
          have hnone := ofText?_eq_none_iff.mp hkeyword
          simp [htrue, hfalse, hnone]

/-- A word is a truth value, a keyword, or stands for itself. -/
theorem wordToken_cases (word : String) :
    (∃ b, (Token.bool b).text = word ∧ wordToken word = .bool b) ∨
      (∃ k : Keyword, k.text = word ∧ wordToken word = .keyword k) ∨
      word ∉ reservedWords ∧ wordToken word = .ident word := by
  by_cases hreserved : word ∈ reservedWords
  · rcases mem_reservedWords_iff.mp hreserved with rfl | rfl | ⟨k, rfl⟩
    · exact .inl ⟨true, rfl, rfl⟩
    · exact .inl ⟨false, rfl, rfl⟩
    · exact .inr (.inl ⟨k, rfl, wordToken_text k⟩)
  · exact .inr (.inr ⟨hreserved, wordToken_eq_ident_iff.mpr ⟨rfl, hreserved⟩⟩)

/-! ## One token -/

/-- A character that continues no token. -/
def separates (c : Char) : Bool := !isIdentChar c && c != '=' && c != '>'

/-- Nothing, or a text whose first character continues no token. -/
def Closing (cs : List Char) : Prop := ∀ c ∈ cs.head?, separates c = true

theorem separates_of_isBlank {c : Char} (h : isBlank c = true) : separates c = true := by
  rcases isBlank_iff.mp h with rfl | rfl | rfl | rfl <;> decide

theorem Closing.isIdentChar_eq_false {c : Char} {cs : List Char} (h : Closing (c :: cs)) :
    isIdentChar c = false := by
  have hsep := h c rfl
  simp only [separates, Bool.and_eq_true, Bool.not_eq_true'] at hsep
  exact hsep.1.1

theorem takeWhile_append_of_closing {p : Char → Bool} (hp : ∀ c, p c = true → isIdentChar c = true)
    {more cs : List Char} (hmore : ∀ d ∈ more, p d = true) (hcs : Closing cs) :
    (more ++ cs).takeWhile p = more := by
  rw [List.takeWhile_append_of_pos hmore]
  -- the run ends with `more`: there is nothing behind it, or a character outside the class
  cases cs with
  | nil => simp
  | cons c cs =>
      have hident := hcs.isIdentChar_eq_false
      have hfalse : p c = false := by
        rw [Bool.eq_false_iff]
        intro htrue
        rw [hp c htrue] at hident
        cases hident
      rw [List.takeWhile_cons_of_neg (by simp [hfalse]), List.append_nil]

theorem ofText?_pair_eq_none {c d : Char} (h : separates d = true ∨ c = '(') :
    Symbol.ofText? (String.ofList [c, d]) = none := by
  cases hfound : Symbol.ofText? (String.ofList [c, d]) with
  | none => rfl
  | some s =>
      have htext : s.text = String.ofList [c, d] := by
        have heq := List.find?_some hfound
        simpa using heq
      have hchars : s.text.toList = [c, d] := by rw [htext, String.toList_ofList]
      -- only the symbols of two characters are left, and each refutes both alternatives
      cases s <;> simp [Symbol.text] at hchars <;> obtain ⟨rfl, rfl⟩ := hchars <;>
        exact absurd h (by decide)

/-- The text of `t` at the front is read as `t`, once its first character, its extent and its token
are known. -/
theorem itemsFrom_text {t : Token} {c : Char} {more cs : List Char} {offset : Nat}
    (htext : t.text.toList = c :: more) (hblank : isBlank c = false)
    (htail : lexemeTail c (more ++ cs) = more)
    (htoken : token c more = .ok t) :
    itemsFrom offset (t.text.toList ++ cs) =
      .ok ⟨t, ⟨offset, offset + byteLength t.text.toList⟩⟩ ::
        itemsFrom (offset + byteLength t.text.toList) cs := by
  rw [htext, List.cons_append, itemsFrom_lexeme hblank htail, item_of_token htoken]

theorem itemsFrom_word {t : Token} {cs : List Char} (hident : IsIdentifier t.text)
    (htoken : wordToken t.text = t) (hcs : Closing cs) (offset : Nat) :
    itemsFrom offset (t.text.toList ++ cs) =
      .ok ⟨t, ⟨offset, offset + byteLength t.text.toList⟩⟩ ::
        itemsFrom (offset + byteLength t.text.toList) cs := by
  have ⟨c, more, htext, _⟩ := hident
  obtain ⟨hstart, hmore⟩ := (isIdentifier_iff htext).mp hident
  have hword : String.ofList (c :: more) = t.text := by rw [← htext, String.ofList_toList]
  apply itemsFrom_text htext
  · exact isBlank_eq_false_of_isIdentChar (isIdentChar_of_isIdentStart hstart)
  · unfold lexemeTail
    rw [if_pos hstart]
    exact takeWhile_append_of_closing (fun _ h => h) hmore hcs
  · simp only [token, hword, hstart, if_true, htoken]

theorem itemsFrom_number {n : Int64} {cs : List Char} (hn : 0 ≤ n.toInt) (hcs : Closing cs)
    (offset : Nat) :
    itemsFrom offset ((Token.int n).text.toList ++ cs) =
      .ok ⟨.int n, ⟨offset, offset + byteLength (Token.int n).text.toList⟩⟩ ::
        itemsFrom (offset + byteLength (Token.int n).text.toList) cs := by
  obtain ⟨k, hk⟩ := Int.eq_ofNat_of_zero_le hn
  have hdigits : (Token.int n).text.toList = Nat.toDigits 10 k := by
    rw [Token.text, hk]
    exact Nat.toList_repr
  have hdigit : ∀ d ∈ Nat.toDigits 10 k, d.isDigit = true :=
    fun d hd => Nat.isDigit_of_mem_toDigits (by decide) (by decide) hd
  have hvalue : Nat.ofDigitChars 10 (Nat.toDigits 10 k) 0 = k := Nat.ofDigitChars_ten_toDigits
  -- the lexer looks at the first digit, so it has to be told apart from the others
  cases hlist : Nat.toDigits 10 k with
  | nil => exact absurd hlist Nat.toDigits_ne_nil
  | cons c more =>
      rw [hlist] at hdigits hdigit hvalue
      have hc : c.isDigit = true := hdigit c List.mem_cons_self
      have hstart : isIdentStart c = false := isIdentStart_eq_false_of_isDigit hc
      apply itemsFrom_text hdigits
      · exact isBlank_eq_false_of_isIdentChar (isIdentChar_of_isDigit hc)
      · unfold lexemeTail
        rw [if_neg (by simp [hstart]), if_pos hc]
        exact takeWhile_append_of_closing (fun _ h => isIdentChar_of_isDigit h)
          (fun d hd => hdigit d (List.mem_cons_of_mem c hd)) hcs
      · have hfits : Int.ofNat k ≤ Int64.maxValue.toInt := by
          have hle := n.toInt_le
          rw [hk] at hle
          exact hle
        have hback : Int64.ofNat k = n := by
          rw [← Int64.ofInt_eq_ofNat, ← hk, Int64.ofInt_toInt]
        simp only [token, hstart, hc, hvalue, hfits, hback, if_true, Bool.false_eq_true, if_false]

theorem itemsFrom_char {s : Symbol} {c : Char} {cs : List Char} (htext : s.text.toList = [c])
    (hc : isBlank c = false ∧ isIdentStart c = false ∧ c.isDigit = false)
    (hfound : Symbol.ofText? (String.ofList [c]) = some s) (hcs : Closing cs ∨ c = '(')
    (offset : Nat) :
    itemsFrom offset (s.text.toList ++ cs) =
      .ok ⟨.symbol s, ⟨offset, offset + byteLength s.text.toList⟩⟩ ::
        itemsFrom (offset + byteLength s.text.toList) cs := by
  obtain ⟨hblank, hstart, hdigit⟩ := hc
  apply itemsFrom_text (t := .symbol s) htext hblank
  · cases cs with
    | nil => simp [lexemeTail, hstart, hdigit]
    | cons d cs =>
        have hpair := ofText?_pair_eq_none (c := c) (hcs.imp_left fun h => h d rfl)
        simp only [lexemeTail, hstart, hdigit, hpair, List.nil_append, Option.isSome_none,
          Bool.false_eq_true, if_false]
  · simp only [token, hstart, hdigit, hfound, Bool.false_eq_true, if_false]

theorem itemsFrom_symbol {s : Symbol} {cs : List Char} (hcs : Closing cs ∨ s = .parenOpen)
    (offset : Nat) :
    itemsFrom offset (s.text.toList ++ cs) =
      .ok ⟨.symbol s, ⟨offset, offset + byteLength s.text.toList⟩⟩ ::
        itemsFrom (offset + byteLength s.text.toList) cs := by
  cases s with
  -- no symbol is longer than two characters, so these end whatever follows
  | arrow => exact itemsFrom_text (t := .symbol .arrow) rfl rfl rfl rfl
  | le => exact itemsFrom_text (t := .symbol .le) rfl rfl rfl rfl
  | ge => exact itemsFrom_text (t := .symbol .ge) rfl rfl rfl rfl
  -- and no symbol of two characters starts with a parenthesis
  | parenOpen => exact itemsFrom_char (c := '(') rfl (by decide) rfl (.inr rfl) offset
  | parenClose | colon | equals | lt | gt | plus | minus | star | slash =>
      exact itemsFrom_char rfl (by decide) rfl (.inl (hcs.resolve_right nofun)) offset

/-- A token that texts denote is read back from its own text, unless that could go on.  After an
opening parenthesis anything may follow. -/
theorem itemsFrom_token {t : Token} {cs : List Char} (ht : t.Writable)
    (hcs : Closing cs ∨ t = .symbol .parenOpen) (offset : Nat) :
    itemsFrom offset (t.text.toList ++ cs) =
      .ok ⟨t, ⟨offset, offset + byteLength t.text.toList⟩⟩ ::
        itemsFrom (offset + byteLength t.text.toList) cs := by
  cases t with
  | ident name =>
      have htoken : wordToken name = .ident name := wordToken_eq_ident_iff.mpr ⟨rfl, ht.2⟩
      exact itemsFrom_word (t := .ident name) ht.1 htoken (hcs.resolve_right nofun) offset
  | int n => exact itemsFrom_number ht (hcs.resolve_right nofun) offset
  | bool b =>
      have hword : (Token.bool b).text ∈ reservedWords := by cases b <;> decide
      have htoken : wordToken (Token.bool b).text = .bool b := by cases b <;> rfl
      have hident := isIdentifier_of_mem_reservedWords hword
      exact itemsFrom_word hident htoken (hcs.resolve_right nofun) offset
  | keyword k =>
      have hword : k.text ∈ reservedWords := mem_reservedWords_iff.mpr (.inr (.inr ⟨k, rfl⟩))
      have hident : IsIdentifier k.text := isIdentifier_of_mem_reservedWords hword
      have hclosing : Closing cs := hcs.resolve_right nofun
      exact itemsFrom_word (t := .keyword k) hident (wordToken_text k) hclosing offset
  | symbol s =>
      have hnext : Closing cs ∨ s = .parenOpen := hcs.imp_right Token.symbol.inj
      exact itemsFrom_symbol hnext offset

/-! ## Whole texts -/

/-- The text consists of the tokens, each written by its own text, with blanks between them. -/
inductive Spelled : List Char → List Token → Prop
  | nil : Spelled [] []
  | blank {c : Char} {cs : List Char} {ts : List Token} :
      isBlank c = true → Spelled cs ts → Spelled (c :: cs) ts
  | token {t : Token} {cs : List Char} {ts : List Token} :
      t.Writable → (Closing cs ∨ t = .symbol .parenOpen) → Spelled cs ts →
        Spelled (t.text.toList ++ cs) (t :: ts)

theorem Spelled.after_blanks {blanks cs : List Char} {ts : List Token} (h : Spelled cs ts)
    (hblanks : ∀ c ∈ blanks, isBlank c = true) : Spelled (blanks ++ cs) ts := by
  induction blanks with
  | nil => exact h
  | cons c blanks ih =>
      exact .blank (hblanks c List.mem_cons_self)
        (ih fun d hd => hblanks d (List.mem_cons_of_mem c hd))

theorem itemsFrom_spelled {cs : List Char} {ts : List Token} (h : Spelled cs ts) :
    ∀ offset, ∃ lexemes : List Lexeme,
      itemsFrom offset cs = lexemes.map .ok ∧ lexemes.map Lexeme.token = ts := by
  induction h with
  | nil =>
      intro offset
      exact ⟨[], by rw [itemsFrom_nil, List.map_nil], rfl⟩
  | blank hblank _ ih =>
      intro offset
      rw [itemsFrom_blank hblank]
      exact ih _
  | token ht hcs _ ih =>
      intro offset
      rw [itemsFrom_token ht hcs]
      -- the rest is read at a later offset, which the tokens do not depend on
      obtain ⟨lexemes, hitems, htokens⟩ := ih (offset + byteLength _)
      exact ⟨⟨_, _⟩ :: lexemes, by rw [hitems, List.map_cons], by rw [List.map_cons, htokens]⟩

theorem mapM_id_eq_ok_iff {items : List Item} {lexemes : List Lexeme} :
    items.mapM id = .ok lexemes ↔ items = lexemes.map .ok := by
  induction items generalizing lexemes with
  | nil => cases lexemes <;> simp [pure, Except.pure]
  | cons first items ih =>
      rw [List.mapM_cons]
      cases first with
      | error cause => cases lexemes <;> simp [bind, Except.bind]
      | ok lexeme =>
          cases hitems : items.mapM id with
          | error cause =>
              have hnone : ∀ rest : List Lexeme, items ≠ rest.map .ok := by
                intro rest heq
                rw [ih.mpr heq] at hitems
                cases hitems
              cases lexemes <;> simp [bind, Except.bind, hnone]
          | ok rest =>
              obtain rfl := ih.mp hitems
              have hinj : ∀ rest' : List Lexeme,
                  rest = rest' ↔ rest.map (Except.ok : Lexeme → Item) = rest'.map .ok := by
                intro rest'
                rw [← ih, hitems, Except.ok.injEq]
              cases lexemes <;> simp [bind, Except.bind, pure, Except.pure, hinj]

theorem lex_eq_ok_iff {source : String} {lexemes : List Lexeme} :
    lex source = .ok lexemes ↔ itemsFrom 0 source.toList = lexemes.map .ok := by
  rw [lex, mapM_id_eq_ok_iff, items_eq_itemsFrom]

/-- A spelled text is read as the tokens it spells. -/
theorem lex_spelled {source : String} {ts : List Token} (h : Spelled source.toList ts) :
    ∃ lexemes, lex source = .ok lexemes ∧ lexemes.map Lexeme.token = ts := by
  obtain ⟨lexemes, hitems, htokens⟩ := itemsFrom_spelled h 0
  exact ⟨lexemes, lex_eq_ok_iff.mpr hitems, htokens⟩

/-! ## Pieces of a text -/

/-- The piece reads as the tokens in front of whatever cannot continue its last one. -/
def Spells (piece : String) (ts : List Token) : Prop :=
  ∀ cs us, Closing cs → Spelled cs us → Spelled (piece.toList ++ cs) (ts ++ us)

/-- The piece reads as the tokens, whatever stands behind it. -/
def Leads (piece : String) (ts : List Token) : Prop :=
  ∀ cs us, Spelled cs us → Spelled (piece.toList ++ cs) (ts ++ us)

/-- At least one character, and all are blank. -/
def IsGap (piece : String) : Prop := piece.toList ≠ [] ∧ ∀ c ∈ piece.toList, isBlank c = true

variable {piece next : String} {ts us : List Token}

theorem Spells.spelled (h : Spells piece ts) : Spelled piece.toList ts := by
  have hclosing : Closing [] := by
    intro c hc
    cases hc
  have hall := h [] [] hclosing .nil
  rw [List.append_nil, List.append_nil] at hall
  exact hall

theorem spells_token {t : Token} (ht : t.Writable) : Spells t.text [t] :=
  fun _ _ hclosing hcs => .token ht (.inl hclosing) hcs

theorem leads_parenOpen : Leads "(" [.symbol .parenOpen] :=
  fun _ _ hcs => .token (t := .symbol .parenOpen) trivial (.inr rfl) hcs

theorem Leads.append (h : Leads piece ts) (hnext : Leads next us) :
    Leads (piece ++ next) (ts ++ us) := by
  intro cs vs hcs
  rw [String.toList_append, List.append_assoc, List.append_assoc]
  exact h _ _ (hnext cs vs hcs)

theorem Leads.append_spells (h : Leads piece ts) (hnext : Spells next us) :
    Spells (piece ++ next) (ts ++ us) := by
  intro cs vs hclosing hcs
  rw [String.toList_append, List.append_assoc, List.append_assoc]
  exact h _ _ (hnext cs vs hclosing hcs)

/-- A piece can follow directly if its first character continues nothing. -/
theorem Spells.append (h : Spells piece ts) {c : Char} {more : List Char}
    (hfirst : next.toList = c :: more) (hc : separates c = true) (hnext : Spells next us) :
    Spells (piece ++ next) (ts ++ us) := by
  intro cs vs hclosing hcs
  have hopen : Closing (next.toList ++ cs) := by
    rw [hfirst]
    intro d hd
    cases hd
    exact hc
  rw [String.toList_append, List.append_assoc, List.append_assoc]
  exact h _ _ hopen (hnext cs vs hclosing hcs)

theorem Spells.append_gap (h : Spells piece ts) {gap : String} (hgap : IsGap gap) :
    Leads (piece ++ gap) ts := by
  intro cs us hcs
  obtain ⟨hsome, hblank⟩ := hgap
  rw [String.toList_append, List.append_assoc]
  apply h
  · cases hlist : gap.toList with
    | nil => exact absurd hlist hsome
    | cons c more =>
        intro d hd
        cases hd
        exact separates_of_isBlank (hblank c (by rw [hlist]; exact List.mem_cons_self))
  · exact hcs.after_blanks hblank

theorem isGap_space : IsGap " " := by
  have hchars : " ".toList = [' '] := rfl
  rw [IsGap, hchars]
  constructor
  · exact List.cons_ne_nil ' ' []
  · intro c hc
    rw [List.mem_singleton.mp hc]
    rfl

/-- A keyword and a space. -/
theorem leads_keyword (k : Keyword) : Leads (k.text ++ " ") [.keyword k] :=
  (spells_token (t := .keyword k) trivial).append_gap isGap_space

theorem Spells.append_spaced (h : Spells piece ts) (hnext : Spells next us) :
    Spells (piece ++ (" " ++ next)) (ts ++ us) := by
  rw [← String.append_assoc]
  exact (h.append_gap isGap_space).append_spells hnext

theorem Spells.append_parenClose (h : Spells piece ts) :
    Spells (piece ++ ")") (ts ++ [.symbol .parenClose]) :=
  h.append rfl (by decide) (spells_token (t := .symbol .parenClose) trivial)

theorem Spells.append_colon (h : Spells piece ts) :
    Leads (piece ++ ": ") (ts ++ [.symbol .colon]) := by
  have hcolon := h.append rfl (by decide) (spells_token (t := .symbol .colon) trivial)
  rw [show ": " = Symbol.text .colon ++ " " by decide, ← String.append_assoc]
  exact hcolon.append_gap isGap_space

/-! ## Tokens that are read -/

theorem writable_wordToken {word : String} (h : IsIdentifier word) : (wordToken word).Writable := by
  rcases wordToken_cases word with ⟨b, _, htoken⟩ | ⟨k, _, htoken⟩ | ⟨hname, htoken⟩
  · rw [htoken]
    trivial
  · rw [htoken]
    trivial
  · rw [htoken]
    exact ⟨h, hname⟩

theorem toInt_ofNat_of_le_maxValue {n : Nat} (h : Int.ofNat n ≤ Int64.maxValue.toInt) :
    (Int64.ofNat n).toInt = n := by
  have hmax : Int64.maxValue.toInt = 9223372036854775807 := by decide
  rw [hmax, Int.ofNat_eq_natCast] at h
  exact Int64.toInt_ofNat_of_lt (by omega)

theorem writable_of_token {c : Char} {more : List Char} {t : Token}
    (hmore : isIdentStart c = true → ∀ d ∈ more, isIdentChar d = true)
    (h : token c more = .ok t) : t.Writable := by
  unfold token at h
  dsimp only at h
  split at h
  next hstart =>
    cases h
    exact writable_wordToken ((isIdentifier_iff String.toList_ofList).mpr ⟨hstart, hmore hstart⟩)
  next =>
    split at h
    next =>
      split at h
      next hfits =>
        cases h
        show 0 ≤ (Int64.ofNat _).toInt
        rw [toInt_ofNat_of_le_maxValue hfits]
        exact Int.natCast_nonneg _
      next => cases h
    next =>
      split at h
      next => cases h; trivial
      next => cases h

theorem writable_of_mem_itemsFrom {offset : Nat} {cs : List Char} {lexeme : Lexeme}
    (h : .ok lexeme ∈ itemsFrom offset cs) : lexeme.token.Writable := by
  obtain ⟨before, c, after, _, _, hitem⟩ := exists_of_mem_itemsFrom h
  refine writable_of_token ?_ (token_of_item hitem.symm)
  intro hstart d hd
  have htail : lexemeTail c after = after.takeWhile isIdentChar := if_pos hstart
  rw [htail] at hd
  exact List.all_eq_true.mp List.all_takeWhile d hd

/-- Only tokens that texts denote are ever read. -/
theorem writable_of_lex {source : String} {lexemes : List Lexeme} (h : lex source = .ok lexemes) :
    ∀ t ∈ lexemes.map Lexeme.token, t.Writable := by
  intro t ht
  obtain ⟨lexeme, hlexeme, rfl⟩ := List.mem_map.mp ht
  have hmem : .ok lexeme ∈ itemsFrom 0 source.toList := by
    rw [lex_eq_ok_iff.mp h]
    exact List.mem_map_of_mem hlexeme
  exact writable_of_mem_itemsFrom hmem

end Lexer
end LambdaAny
