import LambdaAny.Token

/-!
# Reading tokens off a text

Longest match, with keywords before identifiers of the same length.  Space, line feed, carriage
return and backspace separate tokens; a tab does not.  A character that starts no token is an item
of its own, so reading always goes on to the end of the text.

The text is cut into pieces first, and a token is made of each.  An error quotes the text at the
span of its piece; that this is always the piece itself is proved in `Proofs/Pieces`.
-/

namespace LambdaAny

/-- A piece of text that is not a token, with what the text has there. -/
inductive LexError where
  | illegalChar (found : String) (span : Span)
  /-- A run of digits whose value is `2 ^ 63` or more. -/
  | intOutOfRange (found : String) (span : Span)
deriving DecidableEq, Repr

namespace LexError

def span : LexError → Span
  | illegalChar _ span => span
  | intOutOfRange _ span => span

/-- The piece of text at the span. -/
def found : LexError → String
  | illegalChar found _ => found
  | intOutOfRange found _ => found

def message (error : LexError) : String :=
  match error with
  | illegalChar _ _ => "illegal character `" ++ error.found ++ "`"
  | intOutOfRange _ _ => "integer literal `" ++ error.found ++ "` does not fit in 64 bits"

end LexError

namespace Lexer

def isBlank (c : Char) : Bool := c == ' ' || c == '\n' || c == '\r' || c == '\x08'

def isIdentStart (c : Char) : Bool := c.isLower || c == '_'

def isIdentChar (c : Char) : Bool := c.isAlphanum || c == '_' || c == '\''

/-- A word that starts like an identifier: a truth value, a keyword or an identifier. -/
def wordToken (word : String) : Token :=
  if word = "true" then .bool true
  else if word = "false" then .bool false
  else
    match Keyword.ofText? word with
    | some k => .keyword k
    | none => .ident word

/-- The further characters of the lexeme that starts with `c`, when `cs` follows it. -/
def lexemeTail (c : Char) (cs : List Char) : List Char :=
  if isIdentStart c then cs.takeWhile isIdentChar
  else if c.isDigit then cs.takeWhile Char.isDigit
  else
    match cs with
    | [] => []
    | d :: _ => if (Symbol.ofText? (String.ofList [c, d])).isSome then [d] else []

theorem lexemeTail_append_drop (c : Char) (cs : List Char) :
    lexemeTail c cs ++ cs.drop (lexemeTail c cs).length = cs := by
  have takeWhile_append_drop : ∀ (p : Char → Bool) (l : List Char),
      l.takeWhile p ++ l.drop (l.takeWhile p).length = l := by
    intro p l
    induction l with
    | nil => rfl
    | cons d l ih =>
        cases h : p d with
        | false => simp [h]
        | true => simpa [List.takeWhile_cons, h] using ih
  unfold lexemeTail
  split
  · exact takeWhile_append_drop _ _
  · split
    · exact takeWhile_append_drop _ _
    · cases cs with
      | nil => rfl
      | cons d cs => dsimp only; split <;> rfl

/-- The number of bytes that a text takes in UTF-8. -/
def byteLength (cs : List Char) : Nat := cs.foldr (fun c size => c.utf8Size + size) 0

/-- The characters of a lexeme, and the offset of the first. -/
structure Piece where
  offset : Nat
  first : Char
  more : List Char

namespace Piece

def chars (piece : Piece) : List Char := piece.first :: piece.more

def span (piece : Piece) : Span := ⟨piece.offset, piece.offset + byteLength piece.chars⟩

end Piece

/-- The pieces of a text whose first character has the given offset. -/
def piecesFrom (offset : Nat) : List Char → List Piece
  | [] => []
  | c :: cs =>
    if isBlank c then piecesFrom (offset + c.utf8Size) cs
    else
      let more := lexemeTail c cs
      ⟨offset, c, more⟩ :: piecesFrom (offset + byteLength (c :: more)) (cs.drop more.length)
termination_by cs => cs.length
decreasing_by
  · simp
  · simp only [List.length_drop, List.length_cons]
    omega

/-- What is wrong with a lexeme that is not a token. -/
inductive Fault where
  | illegalChar
  | intOutOfRange
deriving DecidableEq, Repr

def Fault.error (fault : Fault) (found : String) (span : Span) : LexError :=
  match fault with
  | illegalChar => .illegalChar found span
  | intOutOfRange => .intOutOfRange found span

/-- The token of the lexeme `c :: more`. -/
def token (c : Char) (more : List Char) : Except Fault Token :=
  let word := String.ofList (c :: more)
  if isIdentStart c then .ok (wordToken word)
  else if c.isDigit then
    let n := Nat.ofDigitChars 10 (c :: more) 0
    if Int.ofNat n ≤ Int64.maxValue.toInt then .ok (.int (Int64.ofNat n))
    else .error .intOutOfRange
  else
    match Symbol.ofText? word with
    | some s => .ok (.symbol s)
    | none => .error .illegalChar

/-- A token, or the reason why there is none. -/
abbrev Item := Except LexError Lexeme

/-- The item of a piece.  If it is no token, `found` is said to stand in its place. -/
def Piece.item (piece : Piece) (found : String) : Item :=
  match token piece.first piece.more with
  | .ok t => .ok ⟨t, piece.span⟩
  | .error fault => .error (fault.error found piece.span)

/-- What a text has at the span, for a message: the replacement character if it has nothing whole
there. -/
def quote (source : String) (span : Span) : String := (span.slice? source).getD "\ufffd"

/-- All tokens and errors of a text, in order. -/
def items (source : String) : List Item :=
  (piecesFrom 0 source.toList).map fun piece => piece.item (quote source piece.span)

/-- The tokens of a text, or its first error. -/
def lex (source : String) : Except LexError (List Lexeme) := (items source).mapM id

end Lexer

/-- Results cannot be compared by evaluation, but options can. -/
theorem eq_ok_of_toOption {ε α : Type} {result : Except ε α} {a : α}
    (h : result.toOption = some a) : result = .ok a := by
  cases result with
  | error cause => cases h
  | ok found => rw [Option.some.inj h]

/-- The reason why a result has no value. -/
def reason? {ε α : Type} : Except ε α → Option ε
  | .error cause => some cause
  | .ok _ => none

theorem eq_error_of_reason? {ε α : Type} {result : Except ε α} {cause : ε}
    (h : reason? result = some cause) : result = .error cause := by
  cases result with
  | error found => rw [Option.some.inj h]
  | ok a => cases h

end LambdaAny
