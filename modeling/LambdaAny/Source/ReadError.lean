import LambdaAny.Text.Utf8

/-!
# Reading a file

Why a file gives no text.
-/

namespace LambdaAny

inductive ReadError where
  | notFound
  /-- Some name in the path before the last is that of a file. -/
  | notADirectory
  | isADirectory
  | notUtf8
deriving DecidableEq, Repr

def ReadError.message : ReadError → String
  | .notFound => "No such file or directory (os error 2)"
  | .notADirectory => "Not a directory (os error 20)"
  | .isADirectory => "Is a directory (os error 21)"
  | .notUtf8 => "stream did not contain valid UTF-8"

/-- The text of a file's bytes. -/
def decodeFile (bytes : List UInt8) : Except ReadError String :=
  match Text.Utf8.decode? bytes with
  | some text => .ok text
  | none => .error .notUtf8

end LambdaAny
