import LambdaAny.Value

/-!
# Operators on values

Integer results are exact or the operation fails: nothing wraps around.  Division truncates toward
zero and the remainder takes the sign of the dividend.  Comparisons take two integers or two
booleans, `false` below `true`.
-/

namespace LambdaAny

/-- The 64-bit integer of a given value, if there is one. -/
def exactInt64? (n : Int) : Option Int64 :=
  if Int64.minValue.toInt ≤ n ∧ n ≤ Int64.maxValue.toInt then some (Int64.ofInt n) else none

theorem toInt_of_exactInt64? {n : Int} {m : Int64} (h : exactInt64? n = some m) : m.toInt = n := by
  unfold exactInt64? at h
  split at h
  case isTrue hn =>
    obtain rfl := Option.some.inj h
    exact Int64.toInt_ofInt_of_le hn.1 (Int.lt_add_one_of_le hn.2)
  case isFalse => cases h

theorem exactInt64?_eq_none_iff {n : Int} :
    exactInt64? n = none ↔ ¬(Int64.minValue.toInt ≤ n ∧ n ≤ Int64.maxValue.toInt) := by
  unfold exactInt64?
  split <;> simp_all

/-- The result of an operator whose exact result is `n`. -/
def Arith.result (o : Arith) (n : Int) : Except EvalError Int64 :=
  match exactInt64? n with
  | some m => .ok m
  | none => .error (.overflow o)

/-- An operator on 64-bit integers.  A remainder fails wherever the quotient does, also where the
exact remainder would be zero. -/
def Arith.run (o : Arith) (a b : Int64) : Except EvalError Int64 :=
  match o with
  | add => o.result (a.toInt + b.toInt)
  | sub => o.result (a.toInt - b.toInt)
  | mul => o.result (a.toInt * b.toInt)
  | div => if b.toInt = 0 then .error .divisionByZero else o.result (a.toInt.tdiv b.toInt)
  | mod =>
    if b.toInt = 0 then .error .divisionByZero
    else if a.toInt = Int64.minValue.toInt ∧ b.toInt = -1 then .error (.overflow o)
    else o.result (a.toInt.tmod b.toInt)

/-- A comparison of integers. -/
def Cmp.run (o : Cmp) (a b : Int) : Bool :=
  match o with
  | lt => a < b
  | le => a ≤ b
  | gt => a > b
  | ge => a ≥ b

/-- A comparison of booleans, `false` below `true`. -/
def Cmp.runBool (o : Cmp) (a b : Bool) : Bool :=
  o.run a.toNat b.toNat

/-- The result of a binary operator on two values. -/
def Op.run : Op → Value → Value → Except EvalError Value
  | .arith o, .int a, .int b => (o.run a b).map .int
  | .cmp o, .int a, .int b => .ok (.bool (o.run a.toInt b.toInt))
  | .cmp o, .bool a, .bool b => .ok (.bool (o.runBool a b))
  | o, lhs, rhs => .error (.illegalOperands o lhs.text rhs.text)

/-! ## How an operator ends -/

/-- The errors that come from the numbers alone. -/
def EvalError.IsArithmetic (cause : EvalError) : Prop :=
  cause = .divisionByZero ∨ ∃ o, cause = .overflow o

theorem Arith.isArithmetic_of_result {o : Arith} {n : Int} {cause : EvalError}
    (h : o.result n = .error cause) : cause.IsArithmetic := by
  unfold Arith.result at h
  split at h
  · cases h
  · obtain rfl := Except.error.inj h
    exact .inr ⟨o, rfl⟩

theorem Arith.isArithmetic_of_run {o : Arith} {a b : Int64} {cause : EvalError}
    (h : o.run a b = .error cause) : cause.IsArithmetic := by
  cases o with
  | add => exact isArithmetic_of_result h
  | sub => exact isArithmetic_of_result h
  | mul => exact isArithmetic_of_result h
  | div =>
      simp only [Arith.run] at h
      split at h
      · exact .inl (Except.error.inj h).symm
      · exact isArithmetic_of_result h
  | mod =>
      simp only [Arith.run] at h
      split at h
      · exact .inl (Except.error.inj h).symm
      · split at h
        · exact .inr ⟨.mod, (Except.error.inj h).symm⟩
        · exact isArithmetic_of_result h

/-- An operator is undefined on its operands, or it is integer arithmetic, or it gives a boolean. -/
theorem Op.run_cases (o : Op) (l r : Value) :
    o.run l r = .error (.illegalOperands o l.text r.text) ∨
      (∃ a x y, o.run l r = (Arith.run a x y).map .int) ∨ ∃ b, o.run l r = .ok (.bool b) := by
  cases o with
  | arith a =>
      cases l with
      | int x =>
          cases r with
          | int y => exact .inr (.inl ⟨a, x, y, rfl⟩)
          | bool _ | closure _ _ _ | recClosure _ _ _ _ => exact .inl rfl
      | bool _ | closure _ _ _ | recClosure _ _ _ _ => exact .inl rfl
  | cmp c =>
      cases l with
      | int x =>
          cases r with
          | int y => exact .inr (.inr ⟨_, rfl⟩)
          | bool _ | closure _ _ _ | recClosure _ _ _ _ => exact .inl rfl
      | bool x =>
          cases r with
          | bool y => exact .inr (.inr ⟨_, rfl⟩)
          | int _ | closure _ _ _ | recClosure _ _ _ _ => exact .inl rfl
      | closure _ _ _ | recClosure _ _ _ _ => exact .inl rfl

/-- No operator is defined on functions. -/
theorem Op.run_of_function {o : Op} {l r : Value}
    (h : l.toInt? = none ∧ l.toBool? = none ∨ r.toInt? = none ∧ r.toBool? = none) :
    o.run l r = .error (.illegalOperands o l.text r.text) := by
  rcases h with ⟨hint, hbool⟩ | ⟨hint, hbool⟩
  · cases l with
    | int _ => cases hint
    | bool _ => cases hbool
    | closure _ _ _ | recClosure _ _ _ _ => cases o <;> rfl
  · cases r with
    | int _ => cases hint
    | bool _ => cases hbool
    | closure _ _ _ | recClosure _ _ _ _ => cases o <;> cases l <;> rfl

end LambdaAny
