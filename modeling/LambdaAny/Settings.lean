import LambdaAny.Text.Utf8
import LambdaAny.Toml.Document
import LambdaAny.Worker

/-!
# Settings

What a user sets once for all sessions, kept in a file.  A file with any fault counts as none: its
good parts do not survive its bad ones.
-/

namespace LambdaAny

structure Settings where
  /-- Whether a value is shown with its type. -/
  showType : Bool
  /-- How many milliseconds a program may take. -/
  timeoutMs : Option Nat
  /-- How many mebibytes of stack a program gets. -/
  stackSizeMb : Nat
deriving DecidableEq, Repr

namespace Settings

/-- The settings of a user who sets nothing. -/
def standard : Settings := ⟨true, none, 256⟩

instance : Inhabited Settings := ⟨standard⟩

/-- The text of the file with these settings. -/
def text (settings : Settings) : String :=
  "show_type = " ++ (if settings.showType then "true" else "false") ++ "\n" ++
    (match settings.timeoutMs with
      | some ms => "timeout_ms = " ++ ms.repr ++ "\n"
      | none => "") ++
    "stack_size_mb = " ++ settings.stackSizeMb.repr ++ "\n"

/-- The largest number that a setting can have. -/
def maxNumber : Nat := UInt64.size - 1

/-- A truth value. -/
def truth? : Toml.Node → Option Bool
  | .scalar (.boolean b) => some b
  | _ => none

/-- A number in range. -/
def number? : Toml.Node → Option Nat
  | .scalar (.integer n) => if 0 ≤ n ∧ n ≤ maxNumber then some n.toNat else none
  | _ => none

/-- The settings that a document makes.  Each may be missing and none may be wrong; all else in the
document is ignored. -/
def ofEntries? (entries : Toml.Entries) : Option Settings := do
  let showType ← match entries.lookup "show_type" with
    | none => some standard.showType
    | some node => truth? node
  let timeoutMs ← match entries.lookup "timeout_ms" with
    | none => some standard.timeoutMs
    | some node => (number? node).map some
  let stackSizeMb ← match entries.lookup "stack_size_mb" with
    | none => some standard.stackSizeMb
    | some node => number? node
  return ⟨showType, timeoutMs, stackSizeMb⟩

/-- The settings in a file, if nothing is wrong with it. -/
def ofFile? (bytes : List UInt8) : Option Settings := do
  let text ← Text.Utf8.decode? bytes
  let entries ← Toml.parse? text.toList
  ofEntries? entries

/-- The settings to use, and the text of the file to write if there is none yet. -/
def load (file : Option (List UInt8)) : Settings × Option String :=
  match file with
  | none => (standard, some standard.text)
  | some bytes => ((ofFile? bytes).getD standard, none)

/-- The stack size in bytes, or the largest number if it is larger. -/
def stackSize (settings : Settings) : Nat := min (settings.stackSizeMb * 1048576) maxNumber

/-- The worker that these settings ask for. -/
def worker (settings : Settings) : Worker := ⟨settings.stackSize, settings.timeoutMs⟩

end Settings
end LambdaAny
