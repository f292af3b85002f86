import LambdaAny.Session.Invocation

/-!
# The command line

Reads files and input, and writes what the session says.
-/

namespace LambdaAny
namespace Session

/-- The directory of the settings file. -/
def settingsDirectory : IO String := do
  match ← IO.getEnv "XDG_CONFIG_HOME" with
  | some base => return base ++ "/tylam"
  | none => return (← IO.getEnv "HOME").getD "" ++ "/.config/tylam"

/-- The bytes of a file.  What is in the way of opening it has a name; a directory is opened and
then cannot be read. -/
def readFile (path : String) : IO (Except ReadError (List UInt8)) := do
  try
    return .ok (← IO.FS.readBinFile path).toList
  catch
    | .inappropriateType (some _) .. => return .error .notADirectory
    | .inappropriateType none .. => return .error .isADirectory
    | _ => return .error .notFound

/-- The user's settings, whose file is written if there is none. -/
def loadSettings : IO Settings := do
  let directory ← settingsDirectory
  let file := directory ++ "/tylam.toml"
  let (settings, created) := Settings.load (← readFile file).toOption
  match created with
  | none => return settings
  | some text =>
    try
      IO.FS.createDirAll directory
      IO.FS.writeFile file text
      return settings
    catch _ => return settings

def write (output : Output) : IO Unit := do
  let out ← IO.getStdout
  let err ← IO.getStderr
  out.putStr output.out
  out.flush
  err.putStr output.err
  err.flush

/-- Writes the events of a journal, except for the single calls and checks. -/
def writeJournal (events : List Event) : IO Unit := do
  for event in events do
    if event.level ≠ .trace then write (.warn ("[" ++ event.text ++ "]\n"))

/-- The bytes of a line of input, its line feed included; none at the end. -/
partial def readLine (input : IO.FS.Stream) (taken : List UInt8) : IO (List UInt8) := do
  match (← input.read 1).toList with
  | [] => return taken.reverse
  | byte :: _ =>
    if byte = 10 then return (byte :: taken).reverse else readLine input (byte :: taken)

/-- An interactive session on an input. -/
partial def loop (settings : Settings) (input : IO.FS.Stream) : IO UInt32 := do
  write (.say prompt)
  match ← readLine input [] with
  | [] =>
    write (.say "\n")
    return 0
  | line =>
    let (output, ending) := respond settings line
    write output
    match ending with
    | some code => return code.toUInt32
    | none => loop settings input

def execute (command : Command) (verbose : Bool) : IO UInt32 := do
  let user ← loadSettings
  match command.file? with
  | none =>
    write (.say banner)
    loop user (← IO.getStdin)
  | some file =>
    let content ← readFile file
    if verbose then
      match content.bind decodeFile with
      | .ok source => writeJournal (command.journal user source)
      | .error _ => pure ()
    let transcript := command.transcript user file content
    write transcript.output
    return transcript.code.toUInt32

end Session
end LambdaAny

open LambdaAny.Session in
def main (args : List String) : IO UInt32 := do
  match Request.ofWords? args with
  | none =>
    write (.warn usage)
    return 2
  | some .version =>
    write (.say version)
    return 0
  | some .help =>
    write (.say usage)
    return 0
  | some (.command command verbose) => execute command verbose
