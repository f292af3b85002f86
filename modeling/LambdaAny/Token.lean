import LambdaAny.Source.Span

/-!
# Tokens

The words of the language and how each is written.  The written form of an integer is its decimal
value, so it need not be the text the token was read from.
-/

namespace LambdaAny

inductive Keyword where
  | letKw
  | recKw
  | inKw
  | funKw
  | ifKw
  | thenKw
  | elseKw
  | modKw
  | intKw
  | boolKw
  | anyKw
deriving DecidableEq, Repr

namespace Keyword

def text : Keyword → String
  | letKw => "let"
  | recKw => "rec"
  | inKw => "in"
  | funKw => "fun"
  | ifKw => "if"
  | thenKw => "then"
  | elseKw => "else"
  | modKw => "mod"
  | intKw => "int"
  | boolKw => "bool"
  | anyKw => "any"

def all : List Keyword :=
  [letKw, recKw, inKw, funKw, ifKw, thenKw, elseKw, modKw, intKw, boolKw, anyKw]

def ofText? (word : String) : Option Keyword :=
  all.find? fun k => k.text == word

end Keyword

inductive Symbol where
  | parenOpen
  | parenClose
  | colon
  | equals
  | arrow
  | lt
  | le
  | gt
  | ge
  | plus
  | minus
  | star
  | slash
deriving DecidableEq, Repr

namespace Symbol

def text : Symbol → String
  | parenOpen => "("
  | parenClose => ")"
  | colon => ":"
  | equals => "="
  | arrow => "->"
  | lt => "<"
  | le => "<="
  | gt => ">"
  | ge => ">="
  | plus => "+"
  | minus => "-"
  | star => "*"
  | slash => "/"

def all : List Symbol :=
  [parenOpen, parenClose, colon, equals, arrow, lt, le, gt, ge, plus, minus, star, slash]

def ofText? (word : String) : Option Symbol :=
  all.find? fun s => s.text == word

end Symbol

inductive Token where
  | ident (name : String)
  | int (n : Int64)
  | bool (b : Bool)
  | keyword (k : Keyword)
  | symbol (s : Symbol)
deriving DecidableEq, Repr

def Token.text : Token → String
  | .ident name => name
  | .int n => n.toInt.repr
  | .bool true => "true"
  | .bool false => "false"
  | .keyword k => k.text
  | .symbol s => s.text

/-- A token and the place it was read from. -/
structure Lexeme where
  token : Token
  span : Span
deriving DecidableEq, Repr

end LambdaAny
