/-!
# Command lines

What the arguments of an invocation ask for.  Options may stand on either side of the file, each at
most once, and two hyphens end them.
-/

namespace LambdaAny
namespace Session

inductive Command where
  | run (file : String) (timeoutMs : Option Nat) (noType : Bool)
  | check (file : String)
  | parse (file : String)
  | repl
deriving DecidableEq, Repr

inductive Request where
  /-- A command, and whether its journal is wanted too. -/
  | command (command : Command) (verbose : Bool)
  | version
  | help
deriving DecidableEq, Repr

namespace Request

/-- What the arguments of a command may hold. -/
structure Shape where
  file : Bool
  timeout : Bool
  noType : Bool
  verbose : Bool

/-- What the arguments of a command do hold. -/
structure Arguments where
  file : Option String
  timeoutMs : Option Nat
  noType : Bool
  verbose : Bool

/-- A number below `2 ^ 64` in decimal digits, with a plus in front if one likes. -/
def milliseconds? (word : String) : Option Nat :=
  let digits :=
    match word.toList with
    | '+' :: cs => cs
    | cs => cs
  if digits.isEmpty || !digits.all Char.isDigit then none
  else
    let n := Nat.ofDigitChars 10 digits 0
    if n < UInt64.size then some n else none

/-- Whether a word is an option; a lone hyphen is not. -/
def isOption (word : String) : Bool :=
  match word.toList with
  | '-' :: _ :: _ => true
  | _ => false

/-- Why arguments are no command. -/
inductive Refusal where
  | wrong
  /-- Help was asked for instead. -/
  | help

/-- Takes a word as the file. -/
def setFile (shape : Shape) (args : Arguments) (word : String) : Except Refusal Arguments :=
  if shape.file && args.file.isNone && word ≠ "" then .ok { args with file := some word }
  else .error .wrong

/-- Takes a word as the time limit. -/
def setTimeout (shape : Shape) (args : Arguments) (word : String) : Except Refusal Arguments :=
  match milliseconds? word with
  | some ms =>
    if shape.timeout && args.timeoutMs.isNone then .ok { args with timeoutMs := some ms }
    else .error .wrong
  | none => .error .wrong

def setNoType (shape : Shape) (args : Arguments) : Except Refusal Arguments :=
  if shape.noType && !args.noType then .ok { args with noType := true } else .error .wrong

def setVerbose (shape : Shape) (args : Arguments) : Except Refusal Arguments :=
  if shape.verbose && !args.verbose then .ok { args with verbose := true } else .error .wrong

/-- Takes the letters of an option with one hyphen, in order. -/
def setLetters (shape : Shape) : Arguments → List Char → Except Refusal Arguments
  | args, [] => .ok args
  | args, 'v' :: cs =>
    match setVerbose shape args with
    | .ok args => setLetters shape args cs
    | .error refusal => .error refusal
  | _, 'h' :: _ => .error .help
  | _, _ :: _ => .error .wrong

/-- The value in an option that is written `name=value`. -/
def valueOf? (name : String) (word : String) : Option String :=
  let front := name.toList ++ ['=']
  if front.isPrefixOf word.toList then some (String.ofList (word.toList.drop front.length))
  else none

/-- Takes arguments from the front on. -/
def takeArguments (shape : Shape) : Arguments → List String → Except Refusal Arguments
  | args, [] => .ok args
  | args, "--" :: words => words.foldlM (setFile shape) args
  | _, "--help" :: _ => .error .help
  | args, "--no-type" :: words =>
    match setNoType shape args with
    | .ok args => takeArguments shape args words
    | .error refusal => .error refusal
  | args, "--verbose" :: words =>
    match setVerbose shape args with
    | .ok args => takeArguments shape args words
    | .error refusal => .error refusal
  | args, "--timeout" :: words =>
    match words with
    | [] => .error .wrong
    | word :: words =>
      match setTimeout shape args word with
      | .ok args => takeArguments shape args words
      | .error refusal => .error refusal
  | args, word :: words =>
    let taken :=
      if !isOption word then setFile shape args word
      else
        match valueOf? "--timeout" word with
        | some value => setTimeout shape args value
        | none =>
          match word.toList with
          | '-' :: '-' :: _ => .error .wrong
          | '-' :: letters => setLetters shape args letters
          | _ => .error .wrong
    match taken with
    | .ok args => takeArguments shape args words
    | .error refusal => .error refusal

/-- The request of a command with its arguments; nothing if they are wrong. -/
def ofArguments? (shape : Shape) (words : List String) (command : Arguments → Option Command) :
    Option Request :=
  match takeArguments shape ⟨none, none, false, false⟩ words with
  | .ok args => (command args).map fun c => .command c args.verbose
  | .error .help => some .help
  | .error .wrong => none

/-- What the arguments ask for; nothing if they are wrong. -/
def ofWords? : List String → Option Request
  | "run" :: words =>
    ofArguments? ⟨true, true, true, true⟩ words fun args =>
      args.file.map fun file => .run file args.timeoutMs args.noType
  | "check" :: words =>
    ofArguments? ⟨true, false, false, true⟩ words fun args => args.file.map .check
  | "parse" :: words =>
    ofArguments? ⟨true, false, false, false⟩ words fun args => args.file.map .parse
  | "repl" :: words => ofArguments? ⟨false, false, false, true⟩ words fun _ => some .repl
  | "--version" :: _ => some .version
  | "--help" :: _ => some .help
  | "help" :: _ => some .help
  | word :: _ =>
    match word.toList with
    | '-' :: 'V' :: _ => some .version
    | '-' :: 'h' :: _ => some .help
    | _ => none
  | [] => none

end Request
end Session
end LambdaAny
