import LambdaAny.Text.Visible

/-!
# Quoted text

A text between double quotes in which every character that would end the quotes, break the line or
stay invisible is written as an escape.  Visible characters are written as they are, so the result
is one line but not always ASCII.
-/

namespace LambdaAny
namespace Text

/-- One character as it stands between the quotes. -/
def escape (c : Char) : String :=
  if c == '"' then "\\\""
  else if c == '\\' then "\\\\"
  else if c == '\n' then "\\n"
  else if c == '\r' then "\\r"
  else if c == '\t' then "\\t"
  else if c == '\x00' then "\\0"
  else if isVisible c then c.toString
  else "\\u\x7b" ++ String.ofList (Nat.toDigits 16 c.toNat) ++ "\x7d"

/-- The text between double quotes. -/
def quoted (s : String) : String :=
  "\"" ++ String.join (s.toList.map escape) ++ "\""

end Text
end LambdaAny
