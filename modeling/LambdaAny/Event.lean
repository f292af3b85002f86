import LambdaAny.Eval.Metered

/-!
# The journal

What is worth noting while a program is read, checked and run.
-/

namespace LambdaAny

inductive Event where
  /-- The text has this many tokens. -/
  | lexed (count : Nat)
  | parsed
  /-- Every variable is bound. -/
  | resolved
  /-- The body of a recursive function is about to be checked. -/
  | checking (func : String) (ty : Ty)
  | typed (ty : Ty)
  /-- A function's body is about to be evaluated. -/
  | called (call : Call)
  | evaluated (value : Value)
  /-- A job was given up after so many milliseconds. -/
  | overdue (ms : Nat)

namespace Event

inductive Level where
  | trace
  | debug
  | warn
deriving DecidableEq, Repr

def Level.text : Level → String
  | trace => "TRACE"
  | debug => "DEBUG"
  | warn => "WARN"

def level : Event → Level
  | lexed _ | parsed | resolved | typed _ | evaluated _ => .debug
  | checking _ _ | called _ => .trace
  | overdue _ => .warn

def message : Event → String
  | lexed count => "lexed " ++ count.repr ++ " tokens"
  | parsed => "parsed"
  | resolved => "bound check passed"
  | checking func ty => "checking `let rec " ++ func ++ ": " ++ ty.text ++ "`"
  | typed ty => "typed as " ++ ty.text
  | called call =>
    "call " ++ call.func.getD "closure" ++ ": " ++ call.param ++ " = " ++ call.arg.text
  | evaluated value => "evaluated to " ++ value.text
  | overdue ms =>
    "worker exceeded " ++ ms.repr ++ " ms; its thread keeps running until the process exits"

/-- The level and the message. -/
def text (event : Event) : String := event.level.text ++ " " ++ event.message

end Event
end LambdaAny
