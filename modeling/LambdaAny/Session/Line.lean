import LambdaAny.Text.Blank

/-!
# Lines of a session

A line is an expression to evaluate, or a command behind a colon.
-/

namespace LambdaAny
namespace Session

inductive Line where
  | eval (source : String)
  | typeOf (source : String)
  | help
  | quit
  | unknown (line : String)
deriving DecidableEq, Repr

namespace Line

/-- What follows `front` in a text that starts with it. -/
def behind? (front : String) (cs : List Char) : Option (List Char) :=
  if front.toList.isPrefixOf cs then some (cs.drop front.toList.length) else none

/-- The command behind the colon of a trimmed line.  One space ends the name of a command that takes
an expression. -/
def command (line : String) (cs : List Char) : Line :=
  if cs = "q".toList ∨ cs = "quit".toList then .quit
  else if cs = "h".toList ∨ cs = "help".toList then .help
  else
    match (behind? "t " cs).or (behind? "type " cs) with
    | some source => .typeOf (String.ofList (Text.trim source))
    | none => .unknown line

/-- What a line asks for; nothing if it is blank. -/
def ofText? (text : String) : Option Line :=
  match Text.trim text.toList with
  | [] => none
  | ':' :: cs => some (command (String.ofList (':' :: cs)) cs)
  | cs => some (.eval (String.ofList cs))

end Line
end Session
end LambdaAny
