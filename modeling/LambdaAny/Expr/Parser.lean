import LambdaAny.Expr
import LambdaAny.Ty.Parser

/-!
# Reading expressions

Atoms and keyword forms by recursive descent, infix positions by their binding powers.  Application
has no token: a lexeme that can start a simple operand, right behind a finished one, is an infix
position of its own, tighter than every operator.  A keyword form reaches as far to the right as it
can, so without parentheses it can only be a last operand.
-/

namespace LambdaAny
namespace Parser

/-- What joins the operand on the left of an infix position to the one on its right. -/
inductive Joint where
  | op (o : Op)
  | apply
deriving DecidableEq, Repr

namespace Joint

/-- How strongly the position holds its left operand. -/
def left : Joint → Nat
  | op (.cmp _) => 1
  | op (.arith .add) | op (.arith .sub) => 2
  | op (.arith .mul) | op (.arith .div) | op (.arith .mod) => 4
  | apply => 6

/-- How strongly the position holds its right operand.  Comparisons hold both sides alike and so
group to the right; everything else groups to the left. -/
def right : Joint → Nat
  | op (.cmp _) => 1
  | op (.arith .add) | op (.arith .sub) => 3
  | op (.arith .mul) | op (.arith .div) | op (.arith .mod) => 5
  | apply => 7

/-- The infix position in front of a token, if there is one. -/
def ofToken? : Token → Option Joint
  | .symbol .plus => some (op (.arith .add))
  | .symbol .minus => some (op (.arith .sub))
  | .symbol .star => some (op (.arith .mul))
  | .symbol .slash => some (op (.arith .div))
  | .keyword .modKw => some (op (.arith .mod))
  | .symbol .lt => some (op (.cmp .lt))
  | .symbol .le => some (op (.cmp .le))
  | .symbol .gt => some (op (.cmp .gt))
  | .symbol .ge => some (op (.cmp .ge))
  | .ident _ | .int _ | .bool _ | .symbol .parenOpen => some apply
  | .symbol _ | .keyword _ => none

end Joint

/-- Reads a parameter with its type, in parentheses. -/
def param (eof : Nat) (ts : List Lexeme) :
    Except ParseError (Parsed (String × Ty) ts.length) := do
  let ⟨_, rest, hopen⟩ ← expect eof (.symbol .parenOpen) ts
  let ⟨name, rest, hname⟩ ← ident eof rest
  let ⟨_, rest, hcolon⟩ ← expect eof (.symbol .colon) rest
  let ⟨paramTy, rest, hparamTy⟩ ← ty eof rest
  let ⟨_, rest, hclose⟩ ← expect eof (.symbol .parenClose) rest
  return ⟨(name, paramTy), rest, by omega⟩

/-- Reads what stands between `fun` and the body. -/
def funHead (eof : Nat) (ts : List Lexeme) :
    Except ParseError (Parsed (String × Ty) ts.length) := do
  let ⟨head, rest, hhead⟩ ← param eof ts
  let ⟨_, rest, harrow⟩ ← expect eof (.symbol .arrow) rest
  return ⟨head, rest, by omega⟩

/-- Reads what stands between `let` and the bound expression. -/
def letHead (eof : Nat) (ts : List Lexeme) : Except ParseError (Parsed String ts.length) := do
  let ⟨binder, rest, hbinder⟩ ← ident eof ts
  let ⟨_, rest, hequals⟩ ← expect eof (.symbol .equals) rest
  return ⟨binder, rest, by omega⟩

/-- The names and types of a recursive function. -/
structure RecHead where
  func : String
  param : String
  paramTy : Ty
  ret : Ty

/-- Reads what stands between `let rec` and the body. -/
def recHead (eof : Nat) (ts : List Lexeme) : Except ParseError (Parsed RecHead ts.length) := do
  let ⟨func, rest, hfunc⟩ ← ident eof ts
  let ⟨(param, paramTy), rest, hparam⟩ ← param eof rest
  let ⟨_, rest, hcolon⟩ ← expect eof (.symbol .colon) rest
  let ⟨ret, rest, hret⟩ ← ty eof rest
  let ⟨_, rest, hequals⟩ ← expect eof (.symbol .equals) rest
  return ⟨⟨func, param, paramTy, ret⟩, rest, by omega⟩

mutual

/-- Reads the longest expression at the front. -/
def expr (eof : Nat) (ts : List Lexeme) : Except ParseError (Parsed Expr ts.length) := do
  let ⟨first, rest, hfirst⟩ ← atom eof ts
  let ⟨whole, rest, hwhole⟩ ← extend eof first 0 rest
  return ⟨whole, rest, by omega⟩
termination_by 3 * ts.length + 2
decreasing_by all_goals omega

/-- Extends `lhs` by the infix positions at the front that hold their left operand with power at
least `power`. -/
def extend (eof : Nat) (lhs : Expr) (power : Nat) (ts : List Lexeme) :
    Except ParseError (Parsed Expr (ts.length + 1)) :=
  match ts with
  | [] => .ok ⟨lhs, [], Nat.lt_succ_self _⟩
  | lexeme :: rest =>
    match Joint.ofToken? lexeme.token with
    | none => .ok ⟨lhs, lexeme :: rest, Nat.lt_succ_self _⟩
    | some (.op o) =>
      if (Joint.op o).left < power then .ok ⟨lhs, lexeme :: rest, Nat.lt_succ_self _⟩
      else do
        let ⟨first, rest, hfirst⟩ ← atom eof rest
        let ⟨rhs, rest, hrhs⟩ ← extend eof first (Joint.op o).right rest
        let ⟨whole, rest, hwhole⟩ ← extend eof (.op o lhs rhs) power rest
        return ⟨whole, rest, by simp only [List.length_cons]; omega⟩
    | some .apply =>
      if Joint.apply.left < power then .ok ⟨lhs, lexeme :: rest, Nat.lt_succ_self _⟩
      else do
        let ⟨first, rest, hfirst⟩ ← atom eof (lexeme :: rest)
        let ⟨arg, rest, harg⟩ ← extend eof first Joint.apply.right rest
        let ⟨whole, rest, hwhole⟩ ← extend eof (.app lhs arg) power rest
        return ⟨whole, rest, by omega⟩
termination_by 3 * ts.length + 1
decreasing_by all_goals grind

/-- Reads a literal, a variable, an expression in parentheses or a keyword form. -/
def atom (eof : Nat) (ts : List Lexeme) : Except ParseError (Parsed Expr ts.length) :=
  match ts with
  | [] => .error (.illegalSequence (.eof eof))
  | lexeme :: rest =>
    match lexeme.token with
    | .int n => .ok ⟨.int n, rest, Nat.lt_succ_self _⟩
    | .bool b => .ok ⟨.bool b, rest, Nat.lt_succ_self _⟩
    | .ident name => .ok ⟨.var name, rest, Nat.lt_succ_self _⟩
    | .symbol .parenOpen => do
      let ⟨inner, rest, hinner⟩ ← expr eof rest
      let ⟨_, rest, hclose⟩ ← expect eof (.symbol .parenClose) rest
      return ⟨inner, rest, Nat.lt_succ_of_lt (Nat.lt_trans hclose hinner)⟩
    | .keyword .ifKw => do
      let ⟨cond, rest, hcond⟩ ← expr eof rest
      let ⟨_, rest, hthen⟩ ← expect eof (.keyword .thenKw) rest
      let ⟨thn, rest, hthn⟩ ← expr eof rest
      let ⟨_, rest, helse⟩ ← expect eof (.keyword .elseKw) rest
      let ⟨els, rest, hels⟩ ← expr eof rest
      return ⟨.ite cond thn els, rest,
        Nat.lt_succ_of_lt <| Nat.lt_trans hels <| Nat.lt_trans helse <| Nat.lt_trans hthn <|
          Nat.lt_trans hthen hcond⟩
    | .keyword .letKw =>
      if (rest.head?.map Lexeme.token) = some (.keyword .recKw) then do
        let ⟨_, rest, hrec⟩ ← expect eof (.keyword .recKw) rest
        let ⟨head, rest, hhead⟩ ← recHead eof rest
        let ⟨body, rest, hbody⟩ ← expr eof rest
        let ⟨_, rest, hin⟩ ← expect eof (.keyword .inKw) rest
        let ⟨tail, rest, htail⟩ ← expr eof rest
        return ⟨.letRec head.func head.param head.paramTy head.ret body tail, rest,
          Nat.lt_succ_of_lt <| Nat.lt_trans htail <| Nat.lt_trans hin <| Nat.lt_trans hbody <|
            Nat.lt_trans hhead hrec⟩
      else do
        let ⟨binder, rest, hbinder⟩ ← letHead eof rest
        let ⟨bindee, rest, hbindee⟩ ← expr eof rest
        let ⟨_, rest, hin⟩ ← expect eof (.keyword .inKw) rest
        let ⟨tail, rest, htail⟩ ← expr eof rest
        return ⟨.letIn binder bindee tail, rest,
          Nat.lt_succ_of_lt <| Nat.lt_trans htail <| Nat.lt_trans hin <|
            Nat.lt_trans hbindee hbinder⟩
    | .keyword .funKw => do
      let ⟨(name, paramTy), rest, hhead⟩ ← funHead eof rest
      let ⟨body, rest, hbody⟩ ← expr eof rest
      return ⟨.abs name paramTy body, rest, Nat.lt_succ_of_lt (Nat.lt_trans hbody hhead)⟩
    | .symbol _ | .keyword _ => .error (.illegalSequence (.token lexeme))
termination_by 3 * ts.length
decreasing_by all_goals grind

end

end Parser

/-- The expression that a list of lexemes spells, with nothing left over. -/
def Expr.ofLexemes (ts : List Lexeme) : Except ParseError Expr := do
  let whole ← Parser.expr (Parser.endOffset ts) ts
  match whole.rest with
  | [] => return whole.value
  | lexeme :: _ => throw (.illegalSequence (.token lexeme))

end LambdaAny
