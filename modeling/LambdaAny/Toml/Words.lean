import LambdaAny.Toml.Reader

/-!
# Blanks, comments, keys and strings of TOML
-/

namespace LambdaAny
namespace Toml

open Reader

def isBlank (c : Char) : Bool := c == ' ' || c == '\t'

/-- What may stand in a comment or unescaped in a string of one line. -/
def isPlain (c : Char) : Bool := c == '\t' || (0x20 ≤ c.toNat && c.toNat ≠ 0x7f)

def skipBlanks : Reader Unit := do discard (takeWhile isBlank)

/-- Takes a line end if there is one, and tells whether there was. -/
def lineEnd : Reader Bool := do
  if ← literal ['\n'] then return true else literal ['\r', '\n']

/-- Takes a comment if there is one, up to the line end. -/
def skipComment : Reader Unit := do
  if (← peek) = some '#' then discard (takeWhile isPlain)

/-- Takes what may stand behind a statement, up to the end of its line or of the text. -/
def endStatement : Reader Unit := do
  skipBlanks
  skipComment
  if (← peek).isSome then
    if !(← lineEnd) then failure

/-- Takes blanks, comments and line ends. -/
def skipGap : Reader Unit :=
  iterate (fun _ => do
    skipBlanks
    skipComment
    if ← lineEnd then return .inl () else return .inr ()) ()

/-! ## Strings -/

def hexValue? (c : Char) : Option Nat :=
  if c.isDigit then some (c.toNat - 0x30)
  else if 'a' ≤ c ∧ c ≤ 'f' then some (c.toNat - 0x61 + 10)
  else if 'A' ≤ c ∧ c ≤ 'F' then some (c.toNat - 0x41 + 10)
  else none

/-- The number that some hexadecimal digits spell. -/
def hexNumber : (digits : Nat) → (n : Nat) → Reader Nat
  | 0, n => return n
  | digits + 1, n => do
    match hexValue? (← next) with
    | some d => hexNumber digits (16 * n + d)
    | none => failure

/-- The character with a given code, if there is one. -/
def scalar (n : Nat) : Reader Char :=
  if n.isValidChar then return Char.ofNat n else failure

/-- The character that stands behind a backslash. -/
def escape : Reader Char := do
  match ← next with
  | 'b' => return '\x08'
  | 't' => return '\t'
  | 'n' => return '\n'
  | 'f' => return '\x0c'
  | 'r' => return '\r'
  | '"' => return '"'
  | '\\' => return '\\'
  | 'u' => scalar (← hexNumber 4 0)
  | 'U' => scalar (← hexNumber 8 0)
  | _ => failure

/-- The quotes that end strings. -/
def doubleQuote : Char := '"'

def singleQuote : Char := '\''

/-- A string of one line, behind its first quote. -/
def lineString (quote : Char) : Reader (List Char) :=
  iterate (fun (taken : List Char) => do
    let c ← next
    if c = quote then return .inr taken.reverse
    else if c = '\\' && quote = doubleQuote then return .inl ((← escape) :: taken)
    else if isPlain c then return .inl (c :: taken)
    else failure) []

/-- Takes a backslash at the end of a line, with all blanks and line ends behind it, and tells
whether there was one. -/
def continuation : Reader Bool := do
  let before ← get
  if !(← literal ['\\']) then return false
  skipBlanks
  if ← lineEnd then
    iterate (fun _ => do
      skipBlanks
      if ← lineEnd then return .inl () else return .inr ()) ()
    return true
  else
    set before
    return false

/-- A string of several lines, behind its three quotes.  Up to two quotes may stand directly before
the three that end it. -/
def blockString (quote : Char) : Reader (List Char) := do
  discard lineEnd
  iterate (fun (taken : List Char) => do
    if ← literal [quote, quote, quote] then
      if ← literal [quote, quote] then return .inr (quote :: quote :: taken).reverse
      else if ← literal [quote] then return .inr (quote :: taken).reverse
      else return .inr taken.reverse
    else if ← lineEnd then return .inl ('\n' :: taken)
    else if quote = doubleQuote then
      if ← continuation then return .inl taken
      else
        let c ← next
        if c = '\\' then return .inl ((← escape) :: taken)
        else if isPlain c then return .inl (c :: taken)
        else failure
    else
      let c ← next
      if isPlain c then return .inl (c :: taken) else failure) []

/-- A string of any of the four kinds. -/
def string (quote : Char) : Reader String := do
  if ← literal [quote, quote, quote] then return String.ofList (← blockString quote)
  else
    char quote
    return String.ofList (← lineString quote)

/-! ## Keys -/

def isBareKeyChar (c : Char) : Bool := c.isAlphanum || c == '_' || c == '-'

/-- One part of a key: bare, or a string of one line. -/
def keyPart : Reader String := do
  let quote ← peek
  if quote = some doubleQuote then
    char doubleQuote
    return String.ofList (← lineString doubleQuote)
  else if quote = some singleQuote then
    char singleQuote
    return String.ofList (← lineString singleQuote)
  else
    match ← takeWhile isBareKeyChar with
    | [] => failure
    | name => return String.ofList name

/-- How many parts a key may have, and how deep arrays and inline tables may stand in each other. -/
def maxDepth : Nat := 80

/-- A key: parts with dots between them, and blanks around the dots. -/
def key : Reader (List String) := do
  let path ← iterate (fun (parts : List String) => do
    skipBlanks
    let part ← keyPart
    skipBlanks
    if ← literal ['.'] then return .inl (part :: parts)
    else return .inr (part :: parts).reverse) []
  if maxDepth < path.length then failure else return path

end Toml
end LambdaAny
