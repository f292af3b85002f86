import LambdaAny.Expr.Printer
import LambdaAny.Session.Command
import LambdaAny.Session.Transcript

/-!
# Invocations

An invocation from arguments to transcript.  The settings are loaded, and their file is written if
there is none, as soon as the arguments are in order, even if the program's file cannot be read.
-/

namespace LambdaAny
namespace Session

def version : String := "tylam 0.1.0\n"

def usage : String :=
  "usage: tylam run FILE [--timeout MS] [--no-type] [-v|--verbose]\n" ++
  "       tylam check FILE [-v|--verbose]\n" ++
  "       tylam parse FILE\n" ++
  "       tylam repl [-v|--verbose]\n" ++
  "       tylam --version\n"

namespace Command

/-- The file with the program. -/
def file? : Command → Option String
  | run file _ _ => some file
  | check file => some file
  | parse file => some file
  | repl => none

/-- The settings under which a command runs: its own options go before the user's. -/
def settings (command : Command) (user : Settings) : Settings :=
  match command with
  | run _ timeoutMs noType =>
    { user with
      timeoutMs := timeoutMs.or user.timeoutMs
      showType := user.showType && !noType }
  | _ => user

/-- What a command says about the program in its file. -/
def answer (command : Command) (user : Settings) (source : String) : Except Failure String :=
  let settings := command.settings user
  match command with
  | run _ _ _ => (settings.worker.join (Job.run source)).map (Outcome.render settings.showType)
  | check _ => (settings.worker.join (Job.check source)).map fun (_, ty) => ty.text
  | parse _ => (Program.parse source).map Expr.text
  | repl => .ok ""

/-- What is noted while a command answers. -/
def journal (command : Command) (user : Settings) (source : String) : List Event :=
  let worker := (command.settings user).worker
  match command with
  | run _ _ _ => worker.journal (Job.run source)
  | check _ => worker.journal (Job.check source)
  | parse _ => Program.parseEvents source
  | repl => []

/-- The transcript of a command on a file with a given content. -/
def transcript (command : Command) (user : Settings) (file : String)
    (content : Except ReadError (List UInt8)) : Transcript :=
  match content.bind decodeFile with
  | .error cause =>
    .failed (.complain ("`" ++ file ++ "`: " ++ (Failure.read cause).message))
  | .ok source =>
    match command.answer user source with
    | .ok text => .done (.say (text ++ "\n"))
    | .error failure =>
      .failed (.complain (failure.locate (LineTable.ofText source (some file))))

end Command

/-- What surrounds an invocation: its arguments, the content of files by name, its input, and the
content of the file with the settings. -/
structure Invocation where
  args : List String
  files : String → Except ReadError (List UInt8)
  input : List UInt8
  settingsFile : Option (List UInt8)

/-- What an invocation leaves behind: what it wrote, and the settings file if it made one. -/
structure Result where
  transcript : Transcript
  created : Option String

/-- Carries out an invocation.  Wrong arguments end it with code 2. -/
def Invocation.run (invocation : Invocation) : Result :=
  match Request.ofWords? invocation.args with
  | none => ⟨⟨.warn usage, 2⟩, none⟩
  | some .version => ⟨.done (.say version), none⟩
  | some .help => ⟨.done (.say usage), none⟩
  | some (.command command _) =>
    let (user, created) := Settings.load invocation.settingsFile
    match command.file? with
    | none => ⟨interactive user invocation.input, created⟩
    | some file => ⟨command.transcript user file (invocation.files file), created⟩

end Session
end LambdaAny
