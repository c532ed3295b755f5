import Calculator.Proofs.Arithmetic.Overflow
import Calculator.Proofs.Arithmetic.Rounding
import Calculator.Proofs.Evaluation.Integers

/-!
# How infinities arise

Values are finite if they are integers or finite doubles. An operation on two finite values fails,
or it comes to a finite value, with one exception: an operation on doubles, or on a double and an
integer that is converted, goes to infinity where its exact result is beyond the largest double
(`Operation.Escapes`). That is the overflow that is not reported. Integers whose conversion or whose
quotient is too large are reported (`Operation.Overflows`).

So infinities have one origin, and no NaN has another one, since all other operations without a
limit have an infinity among their operands.
-/

namespace Calculator

namespace Value

/-- The value is an integer or a finite double. -/
def IsFinite (value : Value) : Prop :=
  (∃ n, value = int n) ∨ ∃ negative rank, value = float (.finite negative rank)

/-- The number that a finite value is next to a double: an integer is converted to one. -/
def rounded? : Value → Option ℚ
  | int n => (Double.ofInt? n).bind Double.toRat?
  | float x => x.toRat?

theorem isFinite_float_iff {x : Double} : (float x).IsFinite ↔ ∃ p, x.toRat? = some p := by
  cases x <;> simp [IsFinite, Double.toRat?]

/-- A value is equal to zero exactly if the number that it is next to a double is. -/
theorem isZero_iff_of_rounded? {value : Value} {p : ℚ} (h : value.rounded? = some p) :
    value.isZero = true ↔ p = 0 := by
  cases value with
  | int n =>
    obtain ⟨x, hx, hp⟩ := Option.bind_eq_some_iff.1 h
    obtain ⟨q, hq, hzero⟩ := Double.exists_toRat?_of_ofInt? hx
    obtain rfl := Option.some.inj (hp.symm.trans hq)
    rw [hzero, isZero, decide_eq_true_iff]
  | float x => exact Double.isZero_iff_of_toRat? h

end Value

namespace Operation

/-- The exact result on doubles is beyond the largest one, for two finite values one of which is a
double. -/
def Escapes (operation : Operation) (a b : Value) : Prop :=
  ¬ (∃ m n, a = .int m ∧ b = .int n) ∧ ∃ p q, a.rounded? = some p ∧ b.rounded? = some q ∧
    (2 ^ 1024 - 2 ^ 970 : ℚ) ≤ |operation.onRationals p q|

variable {operation : Operation} {a b value : Value} {p q : ℚ}

/-- Next to a double the result is rounded to a double. -/
theorem combine?_of_rounded? (hfloat : ¬ ∃ m n, a = .int m ∧ b = .int n)
    (ha : a.rounded? = some p) (hb : b.rounded? = some q) (hzero : operation = div → q ≠ 0) :
    ∃ x, operation.combine? a b = some (.float x) ∧ x.Rounds (operation.onRationals p q) := by
  match a, b with
  | .int m, .int n => exact absurd ⟨m, n, rfl, rfl⟩ hfloat
  | .int m, .float y =>
    obtain ⟨x, hx, hp⟩ := Option.bind_eq_some_iff.1 ha
    exact ⟨_, congrArg (Option.map _) hx, rounds_onDoubles hp hb hzero⟩
  | .float x, .int n =>
    obtain ⟨y, hy, hq⟩ := Option.bind_eq_some_iff.1 hb
    exact ⟨_, congrArg (Option.map _) hy, rounds_onDoubles ha hq hzero⟩
  | .float x, .float y => exact ⟨_, rfl, rounds_onDoubles ha hb hzero⟩

/-- What comes to something next to a double is converted. -/
theorem exists_rounded? (ha : a.IsFinite) (hb : b.IsFinite)
    (hfloat : ¬ ∃ m n, a = .int m ∧ b = .int n) (h : operation.combine? a b = some value) :
    ∃ p q, a.rounded? = some p ∧ b.rounded? = some q := by
  match a, b with
  | .int m, .int n => exact absurd ⟨m, n, rfl, rfl⟩ hfloat
  | .int m, .float y =>
    obtain ⟨x, hx, -⟩ := Option.map_eq_some_iff.1 h
    obtain ⟨p, hp, -⟩ := Double.exists_toRat?_of_ofInt? hx
    obtain ⟨q, hq⟩ := Value.isFinite_float_iff.1 hb
    exact ⟨p, q, Option.bind_eq_some_iff.2 ⟨x, hx, hp⟩, hq⟩
  | .float x, .int n =>
    obtain ⟨y, hy, -⟩ := Option.map_eq_some_iff.1 h
    obtain ⟨p, hp⟩ := Value.isFinite_float_iff.1 ha
    obtain ⟨q, hq, -⟩ := Double.exists_toRat?_of_ofInt? hy
    exact ⟨p, q, hp, Option.bind_eq_some_iff.2 ⟨y, hy, hq⟩⟩
  | .float x, .float y =>
    obtain ⟨p, hp⟩ := Value.isFinite_float_iff.1 ha
    obtain ⟨q, hq⟩ := Value.isFinite_float_iff.1 hb
    exact ⟨p, q, hp, hq⟩

/-- Integers come to integers, or to a quotient that is not too large. -/
theorem isFinite_of_onIntegers {m n : ℤ} (h : operation.onIntegers m n = some value) :
    value.IsFinite := by
  cases operation with
  | div =>
    obtain ⟨x, hx, rfl⟩ := Option.map_eq_some_iff.1 h
    obtain ⟨rank, -, rfl⟩ := Double.unlessInfinite_ofUnits_eq_some hx
    exact .inr ⟨_, rank, rfl⟩
  | _ =>
    obtain rfl := Option.some.inj h
    exact .inl ⟨_, rfl⟩

/-- **An operation that escapes does not fail.** It goes to infinity. -/
theorem apply_of_escapes (h : operation.Escapes a b) :
    ∃ negative, operation.apply a b = .ok (.float (.infinite negative)) := by
  obtain ⟨hfloat, p, q, ha, hb, hle⟩ := h
  -- a quotient by zero would not be that large
  have hzero : operation = div → q ≠ 0 := by
    rintro rfl rfl
    rw [onRationals, div_zero, abs_zero] at hle
    exact absurd Double.boundary_pos (not_lt_of_ge hle)
  have hdivisor : ¬ (operation = div ∧ b.isZero = true) := fun h ↦
    hzero h.1 ((Value.isZero_iff_of_rounded? hb).1 h.2)
  obtain ⟨x, hcombined, hrounds⟩ := combine?_of_rounded? hfloat ha hb hzero
  rcases hrounds.cases with ⟨hlt, -⟩ | ⟨-, rfl⟩
  · exact absurd hle (not_le_of_gt hlt)
  · refine ⟨decide (operation.onRationals p q < 0), ?_⟩
    rw [apply, if_neg hdivisor, hcombined]

/-- **Nothing else goes to infinity.** -/
theorem isFinite_of_apply (ha : a.IsFinite) (hb : b.IsFinite) (hescapes : ¬ operation.Escapes a b)
    (h : operation.apply a b = .ok value) : value.IsFinite := by
  have hcombined := combine?_of_apply h
  have hdivisor : ¬ (operation = div ∧ b.isZero = true) := by
    intro hzero
    rw [apply, if_pos hzero] at h
    cases h
  by_cases hints : ∃ m n, a = .int m ∧ b = .int n
  · obtain ⟨m, n, rfl, rfl⟩ := hints
    exact isFinite_of_onIntegers hcombined
  · obtain ⟨p, q, hp, hq⟩ := exists_rounded? ha hb hints hcombined
    have hzero : operation = div → q ≠ 0 := fun hdiv hq0 ↦
      hdivisor ⟨hdiv, (Value.isZero_iff_of_rounded? hq).2 hq0⟩
    obtain ⟨x, hx, hrounds⟩ := combine?_of_rounded? hints hp hq hzero
    obtain rfl := Option.some.inj (hcombined.symm.trans hx)
    rcases hrounds.cases with ⟨-, hfinite⟩ | ⟨hle, -⟩
    · exact .inr (by simpa using hfinite)
    · exact absurd ⟨hints, p, q, hp, hq, hle⟩ hescapes

/-- A minus sign does not escape. -/
theorem not_escapes_neg_one : ¬ mul.Escapes a (.int (-1)) := by
  rintro ⟨hfloat, p, q, ha, hb, hle⟩
  have hone : (Value.int (-1)).rounded? = some (-1) := by decide +kernel
  obtain rfl := Option.some.inj (hb.symm.trans hone)
  rw [onRationals, mul_neg_one, abs_neg] at hle
  cases a with
  | int n => exact hfloat ⟨n, -1, rfl, rfl⟩
  | float x => exact absurd hle (not_le_of_gt (Double.abs_lt_of_toRat? ha))

end Operation

end Calculator
