import LambdaAny.Token

/-!
# Reading from a list of lexemes

What a reader of lexemes hands back, what it complains of, and its two smallest steps.  A successful
reader always leaves fewer lexemes than it was given; the type of its answer says so, which is what
the recursive readers end by.
-/

namespace LambdaAny

/-- What stands where something else was needed. -/
inductive Found where
  | token (lexeme : Lexeme)
  /-- Nothing: the text ends at this offset. -/
  | eof (offset : Nat)
deriving DecidableEq, Repr

namespace Found

def span : Found → Span
  | token lexeme => lexeme.span
  | eof offset => .point offset

def isEof : Found → Bool
  | token _ => false
  | eof _ => true

def text : Found → String
  | token lexeme => "`" ++ lexeme.token.text ++ "`"
  | eof _ => "end of input"

end Found

inductive ParseError where
  | expectedToken (expected : Token) (found : Found)
  | expectedIdent (found : Found)
  | expectedType (found : Found)
  /-- No expression starts here, or the program is already complete. -/
  | illegalSequence (found : Found)
deriving DecidableEq, Repr

namespace ParseError

def found : ParseError → Found
  | expectedToken _ found => found
  | expectedIdent found => found
  | expectedType found => found
  | illegalSequence found => found

def span (error : ParseError) : Span := error.found.span

def message : ParseError → String
  | expectedToken expected found => "expected `" ++ expected.text ++ "`, found " ++ found.text
  | expectedIdent found => "expected an identifier, found " ++ found.text
  | expectedType found => "expected a type, found " ++ found.text
  | illegalSequence found => "illegal token sequence at " ++ found.text

end ParseError

/-- What was read, and the lexemes behind it: fewer than `bound`. -/
structure Parsed (α : Type) (bound : Nat) where
  value : α
  rest : List Lexeme
  shorter : rest.length < bound

namespace Parser

/-- The offset at which a list of lexemes ends. -/
def endOffset (ts : List Lexeme) : Nat :=
  match ts.getLast? with
  | some lexeme => lexeme.span.stop
  | none => 0

/-- Reads one given token. -/
def expect (eof : Nat) (token : Token) (ts : List Lexeme) :
    Except ParseError (Parsed Unit ts.length) :=
  match ts with
  | [] => .error (.expectedToken token (.eof eof))
  | lexeme :: rest =>
    if lexeme.token = token then .ok ⟨(), rest, Nat.lt_succ_self _⟩
    else .error (.expectedToken token (.token lexeme))

/-- Reads an identifier. -/
def ident (eof : Nat) (ts : List Lexeme) : Except ParseError (Parsed String ts.length) :=
  match ts with
  | [] => .error (.expectedIdent (.eof eof))
  | lexeme :: rest =>
    match lexeme.token with
    | .ident name => .ok ⟨name, rest, Nat.lt_succ_self _⟩
    | _ => .error (.expectedIdent (.token lexeme))

end Parser
end LambdaAny
