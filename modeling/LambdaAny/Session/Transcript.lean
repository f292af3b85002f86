import LambdaAny.Source.ReadError
import LambdaAny.Session.Line
import LambdaAny.Settings

/-!
# Transcripts

What a session writes.  Every line of an interactive session is a program of its own: nothing
carries over from one to the next.
-/

namespace LambdaAny
namespace Session

/-- What was written to the two output channels. -/
structure Output where
  out : String
  err : String
deriving DecidableEq, Repr

namespace Output

def empty : Output := ⟨"", ""⟩

instance : Append Output := ⟨fun a b => ⟨a.out ++ b.out, a.err ++ b.err⟩⟩

/-- Text on the first channel. -/
def say (text : String) : Output := ⟨text, ""⟩

/-- Text on the second channel. -/
def warn (text : String) : Output := ⟨"", text⟩

/-- A complaint on the second channel. -/
def complain (message : String) : Output := warn ("error: " ++ message ++ "\n")

end Output

/-- What was written, and the code the session ends with. -/
structure Transcript where
  output : Output
  code : Nat
deriving DecidableEq, Repr

namespace Transcript

/-- More output in front. -/
def after (output : Output) (transcript : Transcript) : Transcript :=
  ⟨output ++ transcript.output, transcript.code⟩

/-- A session that ends well. -/
def done (output : Output) : Transcript := ⟨output, 0⟩

/-- A session that ends in failure. -/
def failed (output : Output) : Transcript := ⟨output, 1⟩

end Transcript

/-! ## Interactive sessions -/

def banner : String := "Tylam v0.1.0; `:h` for help\n"

def prompt : String := "> "

def helpText : String :=
  "Enter an expression to evaluate it.\n" ++
  "  :t EXPR, :type EXPR   print the type of EXPR\n" ++
  "  :h, :help             show this message\n" ++
  "  :q, :quit             leave\n" ++
  "A line that exceeds `timeout_ms` is abandoned, but its thread keeps\n" ++
  "running in the background until the REPL exits.\n"

/-- The place of a failure in a text without a file. -/
def complainOf (source : String) (failure : Failure) : Output :=
  .complain (failure.locate (LineTable.ofText source none))

/-- The reply to a line. -/
def reply (settings : Settings) : Line → Output
  | .eval source =>
    match settings.worker.join (Job.run source) with
    | .ok outcome => .say (outcome.render settings.showType ++ "\n")
    | .error failure => complainOf source failure
  | .typeOf source =>
    match settings.worker.join (Job.check source) with
    | .ok (_, ty) => .say (ty.text ++ "\n")
    | .error failure => complainOf source failure
  | .unknown line => .warn ("Unknown command `" ++ line ++ "`; try `:h`.\n")
  | .help => .say helpText
  | .quit => .empty

/-- What a line of input does: the reply to it, and how the session ends if it ends there. -/
def respond (settings : Settings) (bytes : List UInt8) : Output × Option Nat :=
  match decodeFile bytes with
  | .error cause => (.complain cause.message, some 1)
  | .ok text =>
    match Line.ofText? text with
    | none => (.empty, none)
    | some .quit => (.empty, some 0)
    | some line => (reply settings line, none)

/-- The lines of an input, each with its line feed; the last may lack one. -/
def inputLines (bytes : List UInt8) : List (List UInt8) :=
  let (line, lines) := bytes.foldr (fun byte (line, lines) =>
    if byte = 10 then ([byte], if line.isEmpty then lines else line :: lines)
    else (byte :: line, lines)) ([], [])
  if line.isEmpty then lines else line :: lines

/-- The rest of an interactive session, from a prompt on. -/
def converse (settings : Settings) : List (List UInt8) → Transcript
  | [] => .done (.say (prompt ++ "\n"))
  | line :: lines =>
    let (output, ending) := respond settings line
    match ending with
    | some code => ⟨.say prompt ++ output, code⟩
    | none => .after (.say prompt ++ output) (converse settings lines)

/-- An interactive session on a whole input. -/
def interactive (settings : Settings) (input : List UInt8) : Transcript :=
  .after (.say banner) (converse settings (inputLines input))

end Session
end LambdaAny
