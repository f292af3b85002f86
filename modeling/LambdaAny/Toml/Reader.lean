/-!
# Readers of characters

A reader takes characters off the front of a text or fails.  Repetition ends because every round has
to take at least one.
-/

namespace LambdaAny
namespace Toml

abbrev Reader := StateT (List Char) Option

namespace Reader

/-- The next character, left in place. -/
def peek : Reader (Option Char) := do return (← get).head?

/-- Takes the next character. -/
def next : Reader Char := do
  match ← get with
  | [] => failure
  | c :: cs => set cs; return c

/-- Takes one given character. -/
def char (c : Char) : Reader Unit := do
  if (← next) ≠ c then failure

/-- Takes a text if the input starts with it, and tells whether it did. -/
def literal (text : List Char) : Reader Bool := do
  let cs ← get
  if text.isPrefixOf cs then
    set (cs.drop text.length)
    return true
  else return false

/-- Takes as many characters as satisfy `p`. -/
def takeWhile (p : Char → Bool) : Reader (List Char) := do
  let cs ← get
  set (cs.dropWhile p)
  return cs.takeWhile p

/-- Repeats a step until it gives an answer.  Fails if a step neither answers nor takes anything. -/
def iterate {σ α : Type} (step : σ → Reader (σ ⊕ α)) (s : σ) (input : List Char) :
    Option (α × List Char) :=
  match step s input with
  | none => none
  | some (.inr a, rest) => some (a, rest)
  | some (.inl s, rest) =>
    if rest.length < input.length then iterate step s rest else none
termination_by input.length

end Reader
end Toml
end LambdaAny
