import LambdaAny.Eval

/-!
# Exact arithmetic

Integer operators give the exact result or fail.  Sums, differences and products overflow exactly if
they leave the range of 64 bits.  Quotients and remainders are described by the equation between
them, the size of the remainder and its sign; that the quotient is rounded toward zero follows from
these.

A quotient leaves the range only for the smallest integer divided by `-1`.  The remainder would be
zero there, and still it fails.  Wherever the quotient exists, the product and the difference that
lead from it to the remainder exist too: the product lies between zero and the dividend.
-/

namespace LambdaAny

/-! ## The range -/

/-- The integer lies in `[-2 ^ 63, 2 ^ 63)`. -/
def Fits (n : Int) : Prop := -(Nat.pow 2 63 : Int) ≤ n ∧ n < Nat.pow 2 63

theorem fits_iff {n : Int} : Fits n ↔ Int64.minValue.toInt ≤ n ∧ n ≤ Int64.maxValue.toInt := by
  have hpow : (Nat.pow 2 63 : Int) = 9223372036854775808 := rfl
  have hmin : Int64.minValue.toInt = -9223372036854775808 := by decide
  have hmax : Int64.maxValue.toInt = 9223372036854775807 := by decide
  rw [Fits, hpow, hmin, hmax]
  omega

theorem fits_toInt (a : Int64) : Fits a.toInt := fits_iff.mpr ⟨a.minValue_le_toInt, a.toInt_le⟩

theorem toInt_minValue : Int64.minValue.toInt = -(Nat.pow 2 63 : Int) := by decide

/-- What lies no further from zero than a number that fits, on the same side, fits. -/
theorem Fits.of_between {m n : Int} (h : Fits n) (hm : 0 ≤ m ∧ m ≤ n ∨ n ≤ m ∧ m ≤ 0) : Fits m := by
  have hpow : (Nat.pow 2 63 : Int) = 9223372036854775808 := rfl
  rw [Fits, hpow] at h ⊢
  omega

namespace Arith

variable {o : Arith} {n : Int}

theorem result_of_fits (h : Fits n) : ∃ m : Int64, o.result n = .ok m ∧ m.toInt = n := by
  cases hexact : exactInt64? n with
  | none => exact absurd (fits_iff.mp h) (exactInt64?_eq_none_iff.mp hexact)
  | some m => exact ⟨m, by rw [result, hexact], toInt_of_exactInt64? hexact⟩

theorem result_of_not_fits (h : ¬Fits n) : o.result n = .error (.overflow o) := by
  have hnone : exactInt64? n = none := exactInt64?_eq_none_iff.mpr (mt fits_iff.mpr h)
  rw [result, hnone]

end Arith

/-! ## Division -/

/-- Quotient and remainder of a division in which the remainder takes the sign of the dividend. -/
structure IsDivision (a b q r : Int) : Prop where
  eq : a = q * b + r
  small : r.natAbs < b.natAbs
  sign : r = 0 ∨ r.sign = a.sign

theorem isDivision_tdiv_tmod (a : Int) {b : Int} (hb : b ≠ 0) :
    IsDivision a b (a.tdiv b) (a.tmod b) where
  eq := (Int.tdiv_mul_add_tmod a b).symm
  small := by
    rw [Int.natAbs_tmod]
    exact Nat.mod_lt _ (Int.natAbs_pos.mpr hb)
  sign := by
    have hsign := Int.sign_tmod a b
    split at hsign
    · exact .inl (Int.sign_eq_zero_iff_zero.mp hsign)
    · exact .inr hsign

/-- The remainder lies between zero and the dividend. -/
theorem tmod_between (a b : Int) :
    0 ≤ a.tmod b ∧ a.tmod b ≤ a ∨ a ≤ a.tmod b ∧ a.tmod b ≤ 0 := by
  have hle : (a.tmod b).natAbs ≤ a.natAbs := by
    rw [Int.natAbs_tmod]
    exact Nat.mod_le _ _
  rcases Int.le_total 0 a with ha | ha
  · have hnonneg := Int.tmod_nonneg b ha
    exact .inl (by omega)
  · have hnonneg : 0 ≤ (-a).tmod b := Int.tmod_nonneg b (by omega)
    rw [Int.neg_tmod] at hnonneg
    exact .inr (by omega)

/-- So does the quotient times the divisor. -/
theorem tdiv_mul_between (a b : Int) :
    0 ≤ a.tdiv b * b ∧ a.tdiv b * b ≤ a ∨ a ≤ a.tdiv b * b ∧ a.tdiv b * b ≤ 0 := by
  rw [Int.tdiv_mul_self]
  rcases tmod_between a b with h | h
  · exact .inl (by omega)
  · exact .inr (by omega)

theorem fits_tdiv_of_pos {a b : Int} (ha : Fits a) (hb : 0 < b) : Fits (a.tdiv b) := by
  have hle := Int.natAbs_tdiv_le_natAbs a b
  refine ha.of_between ?_
  rcases Int.le_total 0 a with hnonneg | hnonpos
  · have hquot : 0 ≤ a.tdiv b := Int.tdiv_nonneg hnonneg (Int.le_of_lt hb)
    exact .inl (by omega)
  · have hquot : 0 ≤ (-a).tdiv b := Int.tdiv_nonneg (by omega) (Int.le_of_lt hb)
    rw [Int.neg_tdiv] at hquot
    exact .inr (by omega)

/-- A divisor of size two or more at least halves the distance from zero. -/
theorem fits_tdiv_of_two_le {a b : Int} (ha : Fits a) (hb : 2 ≤ b.natAbs) : Fits (a.tdiv b) := by
  have hpow : (Nat.pow 2 63 : Int) = 9223372036854775808 := rfl
  have hhalf : (a.tdiv b).natAbs ≤ a.natAbs / 2 := by
    rw [Int.natAbs_tdiv]
    exact Nat.div_le_div_left hb (by decide)
  rw [Fits, hpow] at ha ⊢
  omega

/-- The only quotient out of range is that of the smallest integer by `-1`. -/
theorem fits_tdiv_iff {a b : Int} (ha : Fits a) (hb : b ≠ 0) :
    Fits (a.tdiv b) ↔ ¬(a = -(Nat.pow 2 63 : Int) ∧ b = -1) := by
  have hpow : (Nat.pow 2 63 : Int) = 9223372036854775808 := rfl
  by_cases hone : b = -1
  · have hneg : a.tdiv b = -a := by rw [hone, Int.tdiv_neg, Int.tdiv_one]
    rw [hneg, hpow]
    rw [Fits, hpow] at ha ⊢
    omega
  · have hfits : Fits (a.tdiv b) := by
      rcases Int.lt_or_gt_of_ne hb with hneg | hpos
      · exact fits_tdiv_of_two_le ha (by omega)
      · exact fits_tdiv_of_pos ha hpos
    exact iff_of_true hfits fun h => hone h.2

/-! ## The operators -/

namespace Arith

variable {o : Arith} {a b : Int64} {n : Int}

/-- The operator gives `n` if that fits, and overflows otherwise. -/
def GivesExactly (o : Arith) (a b : Int64) (n : Int) : Prop :=
  (Fits n → ∃ m : Int64, (Op.arith o).run (.int a) (.int b) = .ok (.int m) ∧ m.toInt = n) ∧
    (¬Fits n → (Op.arith o).run (.int a) (.int b) = .error (.overflow o))

theorem givesExactly_of_run (h : o.run a b = o.result n) : o.GivesExactly a b n := by
  have hrun : (Op.arith o).run (.int a) (.int b) = (o.result n).map .int := by rw [← h]; rfl
  constructor
  · intro hfits
    obtain ⟨m, hm, hvalue⟩ := result_of_fits (o := o) hfits
    exact ⟨m, by rw [hrun, hm]; rfl, hvalue⟩
  · intro hfits
    rw [hrun, result_of_not_fits hfits]
    rfl

theorem givesExactly_div (hb : b.toInt ≠ 0) : div.GivesExactly a b (a.toInt.tdiv b.toInt) :=
  givesExactly_of_run (if_neg hb)

/-- Where the quotient does not overflow, the remainder is exact too. -/
theorem givesExactly_mod (hb : b.toInt ≠ 0)
    (hmin : ¬(a.toInt = -(Nat.pow 2 63 : Int) ∧ b.toInt = -1)) :
    mod.GivesExactly a b (a.toInt.tmod b.toInt) := by
  apply givesExactly_of_run
  rw [← toInt_minValue] at hmin
  rw [run, if_neg hb, if_neg hmin]

end Arith

/-- The two divisions end alike: with a division by zero, with an overflow where the quotient is out
of range, or with truncated quotient and remainder. -/
theorem division_cases (a b : Int64) :
    (b.toInt = 0 ∧ ∀ o, o = .div ∨ o = .mod →
        (Op.arith o).run (.int a) (.int b) = .error .divisionByZero) ∨
      ((a.toInt = -(Nat.pow 2 63 : Int) ∧ b.toInt = -1) ∧ ∀ o, o = .div ∨ o = .mod →
        (Op.arith o).run (.int a) (.int b) = .error (.overflow o)) ∨
      (b.toInt ≠ 0 ∧ ¬(a.toInt = -(Nat.pow 2 63 : Int) ∧ b.toInt = -1)) ∧ ∃ q r : Int64,
        (Op.arith .div).run (.int a) (.int b) = .ok (.int q) ∧ q.toInt = a.toInt.tdiv b.toInt ∧
        (Op.arith .mod).run (.int a) (.int b) = .ok (.int r) ∧ r.toInt = a.toInt.tmod b.toInt := by
  by_cases hzero : b.toInt = 0
  · refine .inl ⟨hzero, ?_⟩
    rintro o (rfl | rfl)
    · simp only [Op.run, Arith.run, if_pos hzero]
      rfl
    · simp only [Op.run, Arith.run, if_pos hzero]
      rfl
  · have hquot := fits_tdiv_iff (fits_toInt a) hzero
    by_cases hmin : a.toInt = -(Nat.pow 2 63 : Int) ∧ b.toInt = -1
    · refine .inr (.inl ⟨hmin, ?_⟩)
      rintro o (rfl | rfl)
      · exact (Arith.givesExactly_div hzero).2 fun hfits => hquot.mp hfits hmin
      · have hmin' := hmin
        rw [← toInt_minValue] at hmin'
        simp only [Op.run, Arith.run, if_neg hzero, if_pos hmin']
        rfl
    · have hrest : Fits (a.toInt.tmod b.toInt) := (fits_toInt a).of_between (tmod_between _ _)
      obtain ⟨q, hq, hqvalue⟩ := (Arith.givesExactly_div hzero).1 (hquot.mpr hmin)
      obtain ⟨r, hr, hrvalue⟩ := (Arith.givesExactly_mod hzero hmin).1 hrest
      exact .inr (.inr ⟨⟨hzero, hmin⟩, q, r, hq, hqvalue, hr, hrvalue⟩)

/-- `a - (a / b) * b`. -/
def restOfDivision (a b : Int64) : Expr :=
  .op (.arith .sub) (.int a)
    (.op (.arith .mul) (.op (.arith .div) (.int a) (.int b)) (.int b))

theorem eval_op_of_ok {o : Op} {lhs rhs : Expr} {l r v : Value} {depth : Nat} {env : Env Value}
    (hl : lhs.eval depth env = .ok l) (hr : rhs.eval depth env = .ok r) (hv : o.run l r = .ok v) :
    (Expr.op o lhs rhs).eval depth env = .ok v := by
  unfold Expr.eval at hl hr ⊢
  rw [Expr.evalWith_op, hl, hr]
  show (o.run l r).mapError Halt.error = .ok v
  rw [hv]
  rfl

/-- Neither the product nor the difference overflows if the quotient does not. -/
theorem eval_restOfDivision {a b q r : Int64}
    (hdiv : (Op.arith .div).run (.int a) (.int b) = .ok (.int q))
    (hq : q.toInt = a.toInt.tdiv b.toInt) (hr : r.toInt = a.toInt.tmod b.toInt) (depth : Nat)
    (env : Env Value) : (restOfDivision a b).eval depth env = .ok (.int r) := by
  have hproduct : Arith.mul.GivesExactly q b (q.toInt * b.toInt) := Arith.givesExactly_of_run rfl
  have hfits : Fits (q.toInt * b.toInt) := by
    rw [hq]
    exact (fits_toInt a).of_between (tdiv_mul_between _ _)
  obtain ⟨p, hmul, hp⟩ := hproduct.1 hfits
  have hdifference : Arith.sub.GivesExactly a p (a.toInt - p.toInt) := Arith.givesExactly_of_run rfl
  have hvalue : a.toInt - p.toInt = r.toInt := by
    have hdef := Int.tdiv_mul_self a.toInt b.toInt
    rw [hp, hq, hr]
    omega
  rw [hvalue] at hdifference
  obtain ⟨r', hsub, hr'⟩ := hdifference.1 (fits_toInt r)
  obtain rfl : r' = r := Int64.toInt_inj.mp hr'
  have hquotient : (Expr.op (.arith .div) (.int a) (.int b)).eval depth env = .ok (.int q) :=
    eval_op_of_ok rfl rfl hdiv
  exact eval_op_of_ok rfl (eval_op_of_ok hquotient rfl hmul) hsub

/-- Sums, differences and products are exact or overflow.  The divisions fail for a divisor of zero
and overflow for the smallest integer by `-1`; otherwise they give a quotient and a remainder.  From
a quotient the remainder can be computed without overflow.  What an operator gives is an integer in
the range. -/
theorem integer_operators_exact (a b : Int64) :
    Arith.add.GivesExactly a b (a.toInt + b.toInt) ∧
      Arith.sub.GivesExactly a b (a.toInt - b.toInt) ∧
      Arith.mul.GivesExactly a b (a.toInt * b.toInt) ∧
      (∀ o, o = .div ∨ o = .mod →
        ((Op.arith o).run (.int a) (.int b) = .error .divisionByZero ↔ b.toInt = 0) ∧
          ((Op.arith o).run (.int a) (.int b) = .error (.overflow o) ↔
            a.toInt = -(Nat.pow 2 63 : Int) ∧ b.toInt = -1)) ∧
      (b.toInt ≠ 0 → ¬(a.toInt = -(Nat.pow 2 63 : Int) ∧ b.toInt = -1) → ∃ q r : Int64,
        (Op.arith .div).run (.int a) (.int b) = .ok (.int q) ∧
          (Op.arith .mod).run (.int a) (.int b) = .ok (.int r) ∧
          IsDivision a.toInt b.toInt q.toInt r.toInt) ∧
      (∀ v, (Op.arith .div).run (.int a) (.int b) = .ok v → ∃ r : Int64,
        (Op.arith .mod).run (.int a) (.int b) = .ok (.int r) ∧
          ∀ depth env, (restOfDivision a b).eval depth env = .ok (.int r)) ∧
      ∀ o v, (Op.arith o).run (.int a) (.int b) = .ok v → ∃ n : Int64, v = .int n ∧ Fits n.toInt := by
  refine ⟨Arith.givesExactly_of_run rfl, Arith.givesExactly_of_run rfl,
    Arith.givesExactly_of_run rfl, ?_, ?_, ?_, ?_⟩
  · intro o ho
    rcases division_cases a b with ⟨hzero, hfail⟩ | ⟨hmin, hfail⟩ | ⟨⟨hzero, hmin⟩, q, r, hq, _, hr, _⟩
    · have hmin : b.toInt ≠ -1 := by omega
      rw [hfail o ho]
      exact ⟨iff_of_true rfl hzero, iff_of_false (by rintro ⟨⟩) fun h => hmin h.2⟩
    · have hzero : b.toInt ≠ 0 := by omega
      rw [hfail o ho]
      exact ⟨iff_of_false (by rintro ⟨⟩) hzero, iff_of_true rfl hmin⟩
    · rcases ho with rfl | rfl
      · rw [hq]
        exact ⟨iff_of_false (by rintro ⟨⟩) hzero, iff_of_false (by rintro ⟨⟩) hmin⟩
      · rw [hr]
        exact ⟨iff_of_false (by rintro ⟨⟩) hzero, iff_of_false (by rintro ⟨⟩) hmin⟩
  · intro hzero hmin
    rcases division_cases a b with ⟨hzero', _⟩ | ⟨hmin', _⟩ | ⟨_, q, r, hq, hqvalue, hr, hrvalue⟩
    · exact absurd hzero' hzero
    · exact absurd hmin' hmin
    · refine ⟨q, r, hq, hr, ?_⟩
      rw [hqvalue, hrvalue]
      exact isDivision_tdiv_tmod a.toInt hzero
  · intro v hv
    rcases division_cases a b with ⟨_, hfail⟩ | ⟨_, hfail⟩ | ⟨_, q, r, hq, hqvalue, hr, hrvalue⟩
    · rw [hfail .div (.inl rfl)] at hv
      cases hv
    · rw [hfail .div (.inl rfl)] at hv
      cases hv
    · exact ⟨r, hr, eval_restOfDivision hq hqvalue hrvalue⟩
  · intro o v hv
    have hmap : (o.run a b).map Value.int = .ok v := hv
    cases hrun : o.run a b with
    | error cause =>
        rw [hrun] at hmap
        cases hmap
    | ok n =>
        rw [hrun] at hmap
        cases hmap
        exact ⟨n, rfl, fits_toInt n⟩

/-- The smallest integer by `-1`, a product just above the range, and a negative dividend. -/
theorem integer_operators_exact_edges :
    (Op.arith .mod).run (.int Int64.minValue) (.int (-1)) = .error (.overflow .mod) ∧
      ¬Fits ((3037000500 : Int64).toInt * (3037000500 : Int64).toInt) ∧
      (Op.arith .mul).run (.int 3037000500) (.int 3037000500) = .error (.overflow .mul) ∧
      ∃ q r : Int64, (Op.arith .div).run (.int (-7)) (.int 2) = .ok (.int q) ∧
        (Op.arith .mod).run (.int (-7)) (.int 2) = .ok (.int r) ∧
        IsDivision (-7) 2 q.toInt r.toInt ∧
        ∀ depth env, (restOfDivision (-7) 2).eval depth env = .ok (.int r) := by
  obtain ⟨_, _, _, hsmallest, _⟩ := integer_operators_exact Int64.minValue (-1)
  obtain ⟨_, _, hproduct, _⟩ := integer_operators_exact 3037000500 3037000500
  obtain ⟨_, _, _, _, hdivision, hrest, _⟩ := integer_operators_exact (-7) 2
  have hlarge : ¬Fits ((3037000500 : Int64).toInt * (3037000500 : Int64).toInt) := by
    intro hfits
    have hlt := hfits.2
    exact absurd hlt (by decide)
  refine ⟨(hsmallest .mod (.inr rfl)).2.mpr (by decide), hlarge, hproduct.2 hlarge, ?_⟩
  obtain ⟨q, r, hq, hr, hqr⟩ := hdivision (by decide) (by decide)
  obtain ⟨r', hr', heval⟩ := hrest _ hq
  obtain rfl : r = r' := by
    rw [hr] at hr'
    cases hr'
    rfl
  exact ⟨q, r, hq, hr, hqr, heval⟩

end LambdaAny
