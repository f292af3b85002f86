import LambdaAny.Event
import LambdaAny.Expr.Parser
import LambdaAny.Expr.Scope
import LambdaAny.Source.LineTable
import LambdaAny.Source.ReadError
import LambdaAny.Token.Lexer
import LambdaAny.Typing

/-!
# Programs

A program is a text.  It is read, its variables are resolved, it is typed and it is evaluated; the
first stage that fails ends it.  Only failures to read the text have a place in it.
-/

namespace LambdaAny

/-- Why a program has no outcome. -/
inductive Failure where
  | read (cause : ReadError)
  | lex (cause : LexError)
  | parse (cause : ParseError)
  | resolve (cause : ResolveError)
  | type (cause : TypeError)
  | eval (cause : EvalError)
  /-- No answer came within so many milliseconds. -/
  | timeout (ms : Nat)
  /-- No answer will come. -/
  | died
deriving DecidableEq, Repr

namespace Failure

def message : Failure → String
  | read cause => "IO error: " ++ cause.message
  | lex cause => "Lexer error:\n\t" ++ cause.message
  | parse cause => "Parse error:\n\t" ++ cause.message
  | resolve cause => "Resolve error:\n\t" ++ cause.message
  | type cause => "Tyck error:\n\t" ++ cause.message
  | eval cause => "Eval error:\n\t" ++ cause.message
  | timeout ms => "Evaluation timed out after " ++ ms.repr ++ " ms"
  | died => "Worker thread died before reporting a result"

def span? : Failure → Option Span
  | lex cause => some cause.span
  | parse cause => some cause.span
  | _ => none

/-- The message, behind its place if it has one. -/
def locate (failure : Failure) (table : LineTable) : String :=
  match failure.span? with
  | some span => table.locate span ++ ": " ++ failure.message
  | none => failure.message

end Failure

/-- What a program comes to: a value and the type found for it. -/
structure Outcome where
  value : Value
  ty : Ty

namespace Outcome

/-- The value and its type. -/
def text (outcome : Outcome) : String := outcome.value.text ++ " : " ++ outcome.ty.text

/-- The value, with its type if `showType` asks for it. -/
def render (showType : Bool) (outcome : Outcome) : String :=
  if showType then outcome.text else outcome.value.text

end Outcome

namespace Program

/-- The tree of a program. -/
def parse (source : String) : Except Failure Expr :=
  match Lexer.lex source with
  | .error cause => .error (.lex cause)
  | .ok lexemes =>
    match Expr.ofLexemes lexemes with
    | .error cause => .error (.parse cause)
    | .ok e => .ok e

/-- The tree of a program and its type. -/
def check (source : String) : Except Failure (Expr × Ty) :=
  match parse source with
  | .error failure => .error failure
  | .ok e =>
    match e.resolve with
    | .error cause => .error (.resolve cause)
    | .ok () =>
      match e.typed with
      | .error cause => .error (.type cause)
      | .ok ty => .ok (e, ty)

/-- A checked program has passed every stage. -/
theorem check_eq_ok {source : String} {e : Expr} {ty : Ty} (h : check source = .ok (e, ty)) :
    parse source = .ok e ∧ e.resolve = .ok () ∧ e.typed = .ok ty := by
  unfold check at h
  cases hparse : parse source with
  | error failure => simp [hparse] at h
  | ok tree =>
      cases hresolve : tree.resolve with
      | error cause => simp [hparse, hresolve] at h
      | ok u =>
          cases htyped : tree.typed with
          | error cause => simp [hparse, hresolve, htyped] at h
          | ok found =>
              have hpair : (tree, found) = (e, ty) := by
                simpa [hparse, hresolve, htyped] using h
              obtain ⟨rfl, rfl⟩ := Prod.mk.inj hpair
              exact ⟨rfl, hresolve, htyped⟩

/-- The outcome of a program that was typed, from the result of its evaluation. -/
def outcome (ty : Ty) : Except Halt Value → Except Failure Outcome
  | .ok value => .ok ⟨value, ty⟩
  | .error (.error cause) => .error (.eval cause)
  | .error .exhausted => .error .died

/-- The outcome of a program, with at most `depth` calls under way at once. -/
def run (depth : Nat) (source : String) : Except Failure Outcome :=
  match check source with
  | .error failure => .error failure
  | .ok (e, ty) => outcome ty (e.eval depth ∅)

/-! ## Where a program fails -/

section

variable {source : String} {failure : Failure}

theorem exists_of_parse_error (h : parse source = .error failure) :
    (∃ cause, failure = .lex cause ∧ Lexer.lex source = .error cause) ∨
      ∃ cause lexemes, failure = .parse cause ∧ Lexer.lex source = .ok lexemes ∧
        Expr.ofLexemes lexemes = .error cause := by
  unfold parse at h
  cases hlex : Lexer.lex source with
  | error cause =>
      rw [hlex] at h
      exact .inl ⟨cause, (Except.error.inj h).symm, rfl⟩
  | ok lexemes =>
      cases htree : Expr.ofLexemes lexemes with
      | error cause =>
          simp only [hlex, htree] at h
          exact .inr ⟨cause, lexemes, (Except.error.inj h).symm, rfl, htree⟩
      | ok e => simp [hlex, htree] at h

theorem parse_eq_error (h : parse source = .error failure) :
    (∃ cause, failure = .lex cause) ∨ ∃ cause, failure = .parse cause := by
  rcases exists_of_parse_error h with ⟨cause, hfailure, -⟩ | ⟨cause, -, hfailure, -⟩
  · exact .inl ⟨cause, hfailure⟩
  · exact .inr ⟨cause, hfailure⟩

/-- A program that fails to be checked cannot be read, or has an unbound name, or has no type. -/
theorem exists_of_check_error (h : check source = .error failure) :
    parse source = .error failure ∨
      ∃ e, parse source = .ok e ∧
        ((∃ cause, failure = .resolve cause ∧ e.resolve = .error cause) ∨
          ∃ cause, failure = .type cause ∧ e.resolve = .ok () ∧ e.typed = .error cause) := by
  unfold check at h
  cases hparse : parse source with
  | error found =>
      rw [hparse] at h
      exact .inl (congrArg Except.error (Except.error.inj h))
  | ok e =>
      refine .inr ⟨e, rfl, ?_⟩
      cases hresolve : e.resolve with
      | error cause =>
          simp only [hparse, hresolve] at h
          exact .inl ⟨cause, (Except.error.inj h).symm, rfl⟩
      | ok u =>
          cases htyped : e.typed with
          | error cause =>
              simp only [hparse, hresolve, htyped] at h
              exact .inr ⟨cause, (Except.error.inj h).symm, rfl, rfl⟩
          | ok ty => simp [hparse, hresolve, htyped] at h

theorem check_ne_eval (source : String) (cause : EvalError) :
    check source ≠ .error (.eval cause) := by
  intro h
  rcases exists_of_check_error h with hparse | ⟨e, -, ⟨_, hfailure, -⟩ | ⟨_, hfailure, -⟩⟩
  · rcases parse_eq_error hparse with ⟨_, hfailure⟩ | ⟨_, hfailure⟩
    · cases hfailure
    · cases hfailure
  · cases hfailure
  · cases hfailure

/-- Only a program whose names are resolved fails in typing. -/
theorem check_eq_type_error {cause : TypeError} (h : check source = .error (.type cause)) :
    ∃ e, parse source = .ok e ∧ e.resolve = .ok () ∧ e.typed = .error cause := by
  rcases exists_of_check_error h with
    hparse | ⟨e, hparse, ⟨_, hfailure, -⟩ | ⟨_, hfailure, hresolve, htyped⟩⟩
  · rcases parse_eq_error hparse with ⟨_, hfailure⟩ | ⟨_, hfailure⟩
    · cases hfailure
    · cases hfailure
  · cases hfailure
  · cases hfailure
    exact ⟨e, hparse, hresolve, htyped⟩

/-- A program that fails is not checked, or its evaluation ends without a value. -/
theorem exists_of_run_error {depth : Nat} (h : run depth source = .error failure) :
    check source = .error failure ∨
      ∃ e ty, check source = .ok (e, ty) ∧
        ((∃ cause, failure = .eval cause ∧ e.eval depth ∅ = .error (.error cause)) ∨
          failure = .died ∧ e.eval depth ∅ = .error .exhausted) := by
  unfold run at h
  cases hcheck : check source with
  | error found =>
      rw [hcheck] at h
      exact .inl (congrArg Except.error (Except.error.inj h))
  | ok checked =>
      obtain ⟨e, ty⟩ := checked
      simp only [hcheck] at h
      refine .inr ⟨e, ty, rfl, ?_⟩
      cases heval : e.eval depth ∅ with
      | ok v => simp [heval, outcome] at h
      | error halt =>
          rw [heval] at h
          cases halt with
          | error cause => exact .inl ⟨cause, (Except.error.inj h).symm, rfl⟩
          | exhausted => exact .inr ⟨(Except.error.inj h).symm, rfl⟩

/-- Only a checked program fails in evaluation. -/
theorem run_eq_eval_error {depth : Nat} {cause : EvalError}
    (h : run depth source = .error (.eval cause)) :
    ∃ e ty, check source = .ok (e, ty) ∧ e.eval depth ∅ = .error (.error cause) := by
  rcases exists_of_run_error h with
    hcheck | ⟨e, ty, hcheck, ⟨_, hfailure, heval⟩ | ⟨hfailure, -⟩⟩
  · exact absurd hcheck (check_ne_eval source cause)
  · cases hfailure
    exact ⟨e, ty, hcheck, heval⟩
  · cases hfailure

end

/-- More calls than any machine can have under way at once. -/
def unlimited : Nat := Nat.pow 2 62

/-! ## The journal of a program -/

/-- What is noted while the tree of a program is built. -/
def parseEvents (source : String) : List Event :=
  match Lexer.lex source with
  | .error _ => []
  | .ok lexemes =>
    .lexed lexemes.length ::
      match Expr.ofLexemes lexemes with
      | .error _ => []
      | .ok _ => [.parsed]

/-- What is noted while an expression is typed. -/
def typingEvents (ctx : Ctx) (e : Expr) : List Event :=
  (e.recursions ctx).map fun (func, ty) => .checking func ty

/-- What is noted while a program is checked. -/
def checkEvents (source : String) : List Event :=
  parseEvents source ++
    match parse source with
    | .error _ => []
    | .ok e =>
      match e.resolve with
      | .error _ => []
      | .ok () =>
        .resolved :: typingEvents ∅ e ++
          match e.typed with
          | .error _ => []
          | .ok ty => [.typed ty]

/-- What is noted while a program is run, if its calls are limited to an allowance. -/
def runEvents (depth : Nat) (allowance : Option Nat) (source : String) : List Event :=
  checkEvents source ++
    match check source with
    | .error _ => []
    | .ok (e, _) =>
      let (result, meter) := e.metered depth ∅ ⟨allowance, true, []⟩
      meter.calls.reverse.map .called ++
        match result with
        | .ok value => [.evaluated value]
        | .error _ => []

end Program
end LambdaAny
