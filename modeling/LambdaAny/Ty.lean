/-!
# Types

The simple types over integers and booleans, and `any`, the type of what the checker gives up on.
-/

namespace LambdaAny

inductive Ty where
  | int
  | bool
  | any
  | arrow (dom cod : Ty)
deriving DecidableEq, Repr, Inhabited

namespace Ty

def isArrow : Ty → Bool
  | .arrow _ _ => true
  | _ => false

/-- Arrows group to the right: a domain that is itself an arrow stands in parentheses, and nothing
else does. -/
def text : Ty → String
  | .int => "int"
  | .bool => "bool"
  | .any => "any"
  | .arrow dom cod =>
    (if dom.isArrow then "(" ++ dom.text ++ ")" else dom.text) ++ " -> " ++ cod.text

end Ty
end LambdaAny
