import LambdaAny.Token.Reading
import LambdaAny.Ty

/-!
# Reading types

`int`, `bool`, `any`, a type in parentheses, and arrows, which group to the right.  What follows the
type is left alone.
-/

namespace LambdaAny
namespace Parser

mutual

/-- Reads the longest type at the front. -/
def ty (eof : Nat) (ts : List Lexeme) : Except ParseError (Parsed Ty ts.length) := do
  let ⟨dom, rest, hdom⟩ ← tyAtom eof ts
  match rest, hdom with
  | [], hdom => return ⟨dom, [], hdom⟩
  | lexeme :: rest, hdom =>
    if lexeme.token = .symbol .arrow then
      let ⟨cod, rest, hcod⟩ ← ty eof rest
      return ⟨.arrow dom cod, rest, by simp only [List.length_cons] at *; omega⟩
    else return ⟨dom, lexeme :: rest, hdom⟩
termination_by 2 * ts.length + 1
decreasing_by all_goals grind

/-- Reads a type that is not an arrow, or one in parentheses. -/
def tyAtom (eof : Nat) (ts : List Lexeme) : Except ParseError (Parsed Ty ts.length) :=
  match ts with
  | [] => .error (.expectedType (.eof eof))
  | lexeme :: rest =>
    match lexeme.token with
    | .keyword .intKw => .ok ⟨.int, rest, Nat.lt_succ_self _⟩
    | .keyword .boolKw => .ok ⟨.bool, rest, Nat.lt_succ_self _⟩
    | .keyword .anyKw => .ok ⟨.any, rest, Nat.lt_succ_self _⟩
    | .symbol .parenOpen => do
      let ⟨inner, rest, hinner⟩ ← ty eof rest
      let ⟨_, rest, hclose⟩ ← expect eof (.symbol .parenClose) rest
      return ⟨inner, rest, by simp only [List.length_cons]; omega⟩
    | _ => .error (.expectedType (.token lexeme))
termination_by 2 * ts.length
decreasing_by all_goals grind

end

end Parser

/-- Reads a type off the front of a list of lexemes and forgets the rest. -/
def Ty.ofLexemes (ts : List Lexeme) : Except ParseError Ty :=
  (Parser.ty (Parser.endOffset ts) ts).map Parsed.value

end LambdaAny
