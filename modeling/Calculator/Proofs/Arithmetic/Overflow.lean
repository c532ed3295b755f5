import Calculator.Number
import Calculator.Proofs.Arithmetic.Range

/-!
# When an operation fails

An operation on two numbers fails for one of two reasons, and `Number.combine_fails_iff` says for
which values. A divisor equal to zero comes first, whatever there is to divide. Otherwise an
operation fails only where a double has to be found for something that is too large for one: for an
integer next to a double, or for the quotient of two integers, which is exact until then. So sums,
differences and products of integers never fail, nor does anything else between two doubles, which
goes to infinity instead.
-/

namespace Calculator

/-- The values equal to zero: an integer and two doubles. -/
theorem Value.isZero_iff {value : Value} :
    value.isZero = true ↔ value = .int 0 ∨ ∃ negative, value = .float (.finite negative 0) := by
  match value with
  | .int n => simp [isZero]
  | .float .nan => simp [isZero, Double.isZero]
  | .float (.infinite negative) => simp [isZero, Double.isZero]
  | .float (.finite negative rank) => simp [isZero, Double.isZero]

namespace Operation

/-- Something between two values is too large for a double: an integer that stands next to a double,
or the exact quotient of two integers. The boundary is half a step above the largest double. -/
def Overflows (operation : Operation) : Value → Value → Prop
  | .int n, .float _ => (2 ^ 1024 - 2 ^ 970 : Int) ≤ |n|
  | .float _, .int n => (2 ^ 1024 - 2 ^ 970 : Int) ≤ |n|
  | .int a, .int b => operation = div ∧ (2 ^ 1024 - 2 ^ 970 : ℚ) ≤ |(a / b : ℚ)|
  | .float _, .float _ => False

variable {operation : Operation} {a b : Value}

/-- Two integers have no result only if they are divided, and the quotient is too large. -/
theorem onIntegers_eq_none_iff {m n : Int} (hzero : ¬ (operation = div ∧ n = 0)) :
    operation.onIntegers m n = none ↔
      operation = div ∧ (2 ^ 1024 - 2 ^ 970 : ℚ) ≤ |(m / n : ℚ)| := by
  cases operation with
  | add => exact iff_of_false nofun nofun
  | sub => exact iff_of_false nofun nofun
  | mul => exact iff_of_false nofun nofun
  | div =>
    have hn : n ≠ 0 := fun h ↦ hzero ⟨rfl, h⟩
    rw [onIntegers, Option.map_eq_none_iff, Double.ofQuotient?_eq_none_iff hn, eq_self, true_and]

/-- Where the divisor is not zero, an operation has no result exactly if something is too large. -/
theorem combine?_eq_none_iff (hzero : ¬ (operation = div ∧ b.isZero = true)) :
    operation.combine? a b = none ↔ operation.Overflows a b := by
  match a, b with
  | .int m, .int n =>
    rw [combine?, Overflows, onIntegers_eq_none_iff]
    simpa [Value.isZero] using hzero
  | .int m, .float y =>
    rw [combine?, Option.map_eq_none_iff, Double.ofInt?_eq_none_iff, Overflows]
  | .float x, .int n =>
    rw [combine?, Option.map_eq_none_iff, Double.ofInt?_eq_none_iff, Overflows]
  | .float x, .float y => exact iff_of_false nofun id

/-- An operation divides by zero, or is too large, or has a value, in this order. -/
theorem apply_cases (operation : Operation) (a b : Value) :
    (operation = div ∧ b.isZero = true ∧ operation.apply a b = .error .divisionByZero) ∨
      (¬ (operation = div ∧ b.isZero = true) ∧
        (operation.Overflows a b ∧ operation.apply a b = .error .overflow ∨
          ¬ operation.Overflows a b ∧ ∃ value, operation.apply a b = .ok value)) := by
  rw [apply]
  split
  · next hzero => exact .inl ⟨hzero.1, hzero.2, rfl⟩
  · next hzero =>
    refine .inr ⟨hzero, ?_⟩
    rw [← combine?_eq_none_iff hzero]
    rcases operation.combine? a b with - | value
    · exact .inl ⟨rfl, rfl⟩
    · exact .inr ⟨nofun, value, rfl⟩

end Operation

namespace Number

variable {left right : Number} {a b : Value}

theorem failure_inj {error error' : ArithmeticError} :
    failure left right error = failure left right error' ↔ error = error' := by
  refine ⟨fun h ↦ ?_, congrArg _⟩
  simpa [failure] using congrArg Failure.cause h

/-- **When an operation fails.** A division fails because of its divisor exactly if that is equal to
zero, whatever the dividend is. Any other operation overflows exactly if an integer next to a double
or the exact quotient of two integers is `2 ^ 1024 - 2 ^ 970` or more in magnitude. Nothing else
fails. -/
theorem combine_fails_iff (ha : left.value? = some a) (hb : right.value? = some b)
    (operation : Operation) :
    (left.combine operation right = .error (.failure (failure left right .divisionByZero)) ↔
        operation = .div ∧ (b = .int 0 ∨ ∃ negative, b = .float (.finite negative 0))) ∧
      (left.combine operation right = .error (.failure (failure left right .overflow)) ↔
        ¬ (operation = .div ∧ (b = .int 0 ∨ ∃ negative, b = .float (.finite negative 0))) ∧
          operation.Overflows a b) ∧
      ((∃ number, left.combine operation right = .ok number) ↔
        ¬ (operation = .div ∧ (b = .int 0 ∨ ∃ negative, b = .float (.finite negative 0))) ∧
          ¬ operation.Overflows a b) := by
  rw [combine, ha, hb, ← Value.isZero_iff]
  rcases operation.apply_cases a b with
    ⟨rfl, hzero, happly⟩ | ⟨hzero, ⟨hover, happly⟩ | ⟨hover, value, happly⟩⟩
  · simp [happly, hzero, failure_inj]
  · simp [happly, hzero, hover, failure_inj]
  · simp [happly, hzero, hover]

/-- At the boundary, an integer overflows next to a double. -/
theorem combine_fails_at_boundary :
    ∃ failure, Number.combine .add { value? := some (.int (2 ^ 1024 - 2 ^ 970)) }
      { value? := some (.float .nan) } = .error (.failure failure) := by
  have hfails := @combine_fails_iff { value? := some (.int (2 ^ 1024 - 2 ^ 970)) }
    { value? := some (.float .nan) } _ _ rfl rfl .add
  exact ⟨_, hfails.2.1.2 ⟨nofun, le_abs_self _⟩⟩

end Number

end Calculator
