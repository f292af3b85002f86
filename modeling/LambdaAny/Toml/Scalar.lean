import LambdaAny.Toml.Words

/-!
# Numbers, truth values and points in time of TOML

A scalar is a word without blanks; only a date and a time may have a single space between them.
Numbers that are too large for their kind are refused: integers outside the signed and unsigned
128-bit ranges, and floats that round to infinity.
-/

namespace LambdaAny
namespace Toml

inductive Scalar where
  | boolean (b : Bool)
  | integer (n : Int)
  /-- A float, as it is written. -/
  | float (word : String)
  /-- A date, a time or both, as it is written. -/
  | moment (word : String)
deriving DecidableEq, Repr

namespace Scalar

/-- The digits of a number, without the underscores that stand singly between them. -/
def digits? (isDigit : Char → Bool) : List Char → Option (List Char)
  | [] => none
  | [c] => if isDigit c then some [c] else none
  | c :: '_' :: cs => if isDigit c then (digits? isDigit cs).map (c :: ·) else none
  | c :: cs => if isDigit c then (digits? isDigit cs).map (c :: ·) else none

/-- The number that digits spell in a base. -/
def number (base : Nat) (digits : List Char) : Nat :=
  digits.foldl (fun n c => base * n + (hexValue? c).getD 0) 0

/-- The digits of a decimal integer: no zero in front of another digit. -/
def decimal? (cs : List Char) : Option (List Char) := do
  let digits ← digits? Char.isDigit cs
  if digits.head? = some '0' ∧ digits.length ≠ 1 then none else return digits

/-- Whether the word has a sign in front, whether that is a minus, and the rest. -/
def sign : List Char → Bool × Bool × List Char
  | '-' :: cs => (true, true, cs)
  | '+' :: cs => (true, false, cs)
  | cs => (false, false, cs)

def isDigitIn (base : Nat) (c : Char) : Bool :=
  match hexValue? c with
  | some d => d < base
  | none => false

/-- An integer without a base is decimal and may have a sign. -/
def integer? (word : List Char) : Option Int :=
  let based (base : Nat) (cs : List Char) : Option Int :=
    (digits? (isDigitIn base) cs).map fun digits => (number base digits : Int)
  match word with
  | '0' :: 'x' :: cs => based 16 cs
  | '0' :: 'o' :: cs => based 8 cs
  | '0' :: 'b' :: cs => based 2 cs
  | word => do
    let (_, negative, cs) := sign word
    let n := number 10 (← decimal? cs)
    return if negative then -n else n

/-- The numbers from here on, `2 ^ 1024 - 2 ^ 970`, are no nearer to the largest double than to the
next power of two. -/
def floatBound : Nat := Nat.pow 2 1024 - Nat.pow 2 970

/-- Whether `mantissa * 10 ^ exponent` is nearer to a double than to infinity. -/
def isFinite (mantissa : Nat) (exponent : Int) : Bool :=
  let size : Int := (Nat.toDigits 10 mantissa).length + exponent
  if mantissa = 0 || size < 300 then true
  else if 320 < size then false
  else if 0 ≤ exponent then mantissa * Nat.pow 10 exponent.toNat < floatBound
  else mantissa < floatBound * Nat.pow 10 (-exponent).toNat

/-- Whether a word is a float: a decimal integer with a fraction, an exponent or both, or one of the
names for infinity and for no number. -/
def isFloat (word : List Char) : Bool :=
  let (_, _, cs) := sign word
  if cs = "inf".toList || cs = "nan".toList then true
  else
    let whole := cs.takeWhile (fun c => c.isDigit || c == '_')
    let rest := cs.drop whole.length
    let isMark (c : Char) : Bool := c == 'e' || c == 'E'
    let (fraction, rest) :=
      match rest with
      | '.' :: rest =>
        let fraction := rest.takeWhile (fun c => c.isDigit || c == '_')
        (some fraction, rest.drop fraction.length)
      | rest => (none, rest)
    let exponent :=
      match rest with
      | c :: rest => if isMark c then some (sign rest) else some (false, false, [])
      | [] => none
    let parts : Option Bool := do
      let whole ← decimal? whole
      let fraction' ← match fraction with
        | none => some []
        | some cs => digits? Char.isDigit cs
      let power ← match exponent with
        | none => some (0 : Int)
        | some (_, negative, cs) =>
          (digits? Char.isDigit cs).map fun digits =>
            let n : Int := number 10 digits
            if negative then -n else n
      if fraction.isNone && exponent.isNone then none
      else return isFinite (number 10 (whole ++ fraction')) (power - fraction'.length)
    parts.getD false

/-! ## Points in time -/

/-- Reads a number of exactly `count` digits. -/
def fixed (count : Nat) : Reader Nat := do
  let cs ← get
  let digits := cs.take count
  if digits.length = count && digits.all Char.isDigit then
    set (cs.drop count)
    return number 10 digits
  else failure

def daysIn (year month : Nat) : Nat :=
  if month = 2 then
    if year % 4 = 0 && (year % 100 ≠ 0 || year % 400 = 0) then 29 else 28
  else if month = 4 || month = 6 || month = 9 || month = 11 then 30
  else 31

def date : Reader Unit := do
  let year ← fixed 4
  Reader.char '-'
  let month ← fixed 2
  Reader.char '-'
  let day ← fixed 2
  if !(1 ≤ month && month ≤ 12 && 1 ≤ day && day ≤ daysIn year month) then failure

def time : Reader Unit := do
  let hour ← fixed 2
  Reader.char ':'
  let minute ← fixed 2
  Reader.char ':'
  let second ← fixed 2
  if !(hour ≤ 23 && minute ≤ 59 && second ≤ 60) then failure
  if ← Reader.literal ['.'] then
    if (← Reader.takeWhile Char.isDigit).isEmpty then failure

/-- The distance from universal time, if any. -/
def offset : Reader Unit := do
  match ← Reader.peek with
  | some 'Z' | some 'z' => discard Reader.next
  | some '+' | some '-' =>
    discard Reader.next
    let hour ← fixed 2
    Reader.char ':'
    let minute ← fixed 2
    if !(hour ≤ 23 && minute ≤ 59) then failure
  | _ => return

/-- Whether a reader takes a whole word. -/
def isAll (reader : Reader Unit) (word : List Char) : Bool :=
  match reader word with
  | some ((), []) => true
  | _ => false

def isDate (word : List Char) : Bool := isAll date word

def isTime (word : List Char) : Bool := isAll time word

/-- A date and a time with a separator between them, and the distance from universal time if any. -/
def isDateTime (word : List Char) : Bool :=
  isAll (do
    date
    match ← Reader.next with
    | 'T' | 't' | ' ' => time; offset
    | _ => failure) word

/-! ## Words -/

/-- Whether an integer has a place among the signed or the unsigned words of 128 bits. -/
def isInteger128 (n : Int) : Bool :=
  -Int.ofNat (Nat.pow 2 127) ≤ n ∧ n < Int.ofNat (Nat.pow 2 128)

/-- What a word says. -/
def ofWord? (word : List Char) : Option Scalar :=
  if word = "true".toList then some (boolean true)
  else if word = "false".toList then some (boolean false)
  else
    match integer? word with
    | some n => if isInteger128 n then some (integer n) else none
    | none =>
      if isFloat word then some (float (String.ofList word))
      else if isDate word || isTime word || isDateTime word then some (moment (String.ofList word))
      else none

/-- The characters that end a word. -/
def endsWord (c : Char) : Bool :=
  c == ' ' || c == '\t' || c == '\r' || c == '\n' || c == ',' || c == ']' || c == '\x7d' || c == '#'

/-- Reads a word.  One space behind a date belongs to it if a digit follows. -/
def read : Reader Scalar := do
  let word ← Reader.takeWhile (fun c => !endsWord c)
  let more ←
    match ← get with
    | ' ' :: c :: _ =>
      if isDate word && c.isDigit then
        Reader.char ' '
        let time ← Reader.takeWhile (fun c => !endsWord c)
        pure (' ' :: time)
      else pure []
    | _ => pure []
  match ofWord? (word ++ more) with
  | some scalar => return scalar
  | none => failure

end Scalar
end Toml
end LambdaAny
