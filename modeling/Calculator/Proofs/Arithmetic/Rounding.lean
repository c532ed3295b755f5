import Calculator.Proofs.Arithmetic.Range
import Calculator.Value.Operation

/-!
# Arithmetic on finite doubles

A finite double is a rational number (`Double.toRat?`), and an operation on two of them is the
operation on the two numbers, rounded once. `Double.Rounds` says that a double is a number rounded:
it is finite if the number is below `2 ^ 1024 - 2 ^ 970` in magnitude, and otherwise it is the
infinity on the side of the number (`Double.Rounds.cases`). It is never a NaN.

All four operations round their result (`Operation.rounds_onDoubles`), but for a quotient by zero,
which is no number.
-/

namespace Calculator

namespace Double

/-- The number that a finite double is. -/
def toRat? : Double → Option ℚ
  | finite negative rank => some (signed negative (units rank) / unitsPerOne)
  | _ => none

/-- The double is the number, rounded to the nearest double. -/
def Rounds (x : Double) (r : ℚ) : Prop :=
  ∃ negative num den, 0 < den ∧ x = ofUnits negative num den ∧
    r = signed negative num / (den * unitsPerOne)

/-! ### Signs -/

theorem signed_mul (a b : Bool) (m n : ℕ) : signed a m * signed b n = signed (a != b) (m * n) := by
  cases a <;> cases b <;> simp [signed]

theorem signed_mul_right (negative : Bool) (m n : ℕ) :
    signed negative (m * n) = signed negative m * n := by
  cases negative <;> simp [signed]

theorem signed_div (a b : Bool) (m n : ℕ) :
    (signed a m / signed b n : ℚ) = signed (a != b) m / n := by
  cases a <;> cases b <;> simp [signed, div_neg, neg_div]

theorem signed_not (negative : Bool) (m : ℕ) : signed (!negative) m = -signed negative m := by
  cases negative <;> simp [signed]

theorem signed_natAbs (n : ℤ) : signed (n < 0) n.natAbs = n := by
  rw [signed]
  split
  · next h =>
    have hn := of_decide_eq_true h
    omega
  · next h =>
    have hn := mt decide_eq_true h
    omega

theorem abs_signed (negative : Bool) (m : ℕ) : |signed negative m| = m := by
  cases negative <;> simp [signed]

theorem signed_eq_zero_iff {negative : Bool} {m : ℕ} : signed negative m = 0 ↔ m = 0 := by
  cases negative <;> simp [signed]

theorem signed_neg_iff {negative : Bool} {m : ℕ} (hm : m ≠ 0) :
    signed negative m < 0 ↔ negative = true := by
  cases negative
  · simp [signed]
  · simpa [signed] using Nat.pos_of_ne_zero hm

section Rounds

variable {x y : Double} {p q r : ℚ}

theorem unitsPerOne_pos : 0 < unitsPerOne := unitsPerOne_eq ▸ Nat.two_pow_pos unitExponent

theorem boundary_pos : (0 : ℚ) < 2 ^ 1024 - 2 ^ 970 :=
  sub_pos.2 (pow_lt_pow_right₀ one_lt_two (by decide))

theorem units_eq_zero_iff {rank : ℕ} : units rank = 0 ↔ rank = 0 := by
  rw [units]
  split
  · rfl
  · next h =>
    have hrun : runLength + rank % runLength ≠ 0 := Nat.ne_of_gt (Nat.add_pos_left (by decide) _)
    rw [Nat.shiftLeft_eq]
    refine iff_of_false (Nat.mul_ne_zero hrun (Nat.ne_of_gt (Nat.two_pow_pos _))) ?_
    rintro rfl
    exact h (by decide)

theorem toRat?_eq_some_iff : x.toRat? = some p ↔
    ∃ negative rank, x = finite negative rank ∧ p = signed negative (units rank) / unitsPerOne := by
  cases x with
  | finite negative rank => simp [toRat?, eq_comm]
  | _ => simp [toRat?]

/-- A finite double is zero if its number is. -/
theorem isZero_iff_of_toRat? (h : x.toRat? = some p) : x.isZero = true ↔ p = 0 := by
  obtain ⟨a, m, rfl, rfl⟩ := toRat?_eq_some_iff.1 h
  rw [isZero, decide_eq_true_iff, div_eq_zero_iff,
    or_iff_left (Nat.cast_ne_zero.2 (Nat.ne_of_gt unitsPerOne_pos)), Int.cast_eq_zero,
    signed_eq_zero_iff, units_eq_zero_iff]

theorem magnitudeCount_le_nearestRank_iff_rat (num : ℕ) {den : ℕ} (hden : 0 < den) :
    magnitudeCount ≤ nearestRank num den ↔
      (2 ^ 1024 - 2 ^ 970 : ℚ) ≤ num / (den * unitsPerOne) := by
  have hpos : (0 : ℚ) < den * unitsPerOne := by
    exact_mod_cast Nat.mul_pos hden unitsPerOne_pos
  rw [magnitudeCount_le_nearestRank_iff_units num hden, le_div_iff₀ hpos,
    ← cast_two_pow_sub (by decide), ← Nat.cast_mul, ← Nat.cast_mul, Nat.cast_le]

/-- **A rounded number is finite** up to the boundary, and from there on the infinity on its
side. -/
theorem Rounds.cases (h : x.Rounds r) :
    (|r| < 2 ^ 1024 - 2 ^ 970 ∧ ∃ negative rank, x = finite negative rank) ∨
      (2 ^ 1024 - 2 ^ 970 ≤ |r| ∧ x = infinite (r < 0)) := by
  obtain ⟨negative, num, den, hden, rfl, rfl⟩ := h
  have hpos : (0 : ℚ) < den * unitsPerOne := by
    exact_mod_cast Nat.mul_pos hden unitsPerOne_pos
  have habs : |(signed negative num : ℚ) / (den * unitsPerOne)| = num / (den * unitsPerOne) := by
    rw [abs_div, abs_of_pos hpos, ← Int.cast_abs, abs_signed, Int.cast_natCast]
  have hboundary := magnitudeCount_le_nearestRank_iff_rat num hden
  rw [habs]
  rcases ofUnits_cases negative num den with ⟨rank, hlt, heq⟩ | ⟨hge, heq⟩
  · exact .inl ⟨lt_of_not_ge fun h ↦ Nat.not_le_of_lt hlt (hboundary.2 h), negative, rank, heq⟩
  · have hle := hboundary.1 hge
    have hnum : num ≠ 0 := by
      rintro rfl
      rw [Nat.cast_zero, zero_div] at hle
      exact absurd boundary_pos (not_lt_of_ge hle)
    refine .inr ⟨hle, heq.trans (congrArg infinite ?_)⟩
    rw [Bool.eq_iff_iff, decide_eq_true_iff, div_lt_iff₀ hpos, zero_mul, Int.cast_lt_zero,
      signed_neg_iff hnum]

theorem rounds_add (hx : x.toRat? = some p) (hy : y.toRat? = some q) :
    (x.add y).Rounds (p + q) := by
  obtain ⟨a, m, rfl, rfl⟩ := toRat?_eq_some_iff.1 hx
  obtain ⟨b, n, rfl, rfl⟩ := toRat?_eq_some_iff.1 hy
  rw [← add_div, ← Int.cast_add, add]
  by_cases hsum : signed a (units m) + signed b (units n) = 0
  · refine ⟨a && b, 0, 1, Nat.one_pos, if_pos hsum, ?_⟩
    rw [hsum]
    simp [signed]
  · refine ⟨_, _, 1, Nat.one_pos, if_neg hsum, ?_⟩
    rw [signed_natAbs, Nat.cast_one, one_mul]

theorem toRat?_neg (hx : x.toRat? = some p) : x.neg.toRat? = some (-p) := by
  obtain ⟨a, m, rfl, rfl⟩ := toRat?_eq_some_iff.1 hx
  rw [neg, toRat?, signed_not, Int.cast_neg, neg_div]

theorem rounds_sub (hx : x.toRat? = some p) (hy : y.toRat? = some q) : (x.sub y).Rounds (p - q) :=
  sub_eq_add_neg p q ▸ rounds_add hx (toRat?_neg hy)

theorem rounds_mul (hx : x.toRat? = some p) (hy : y.toRat? = some q) :
    (x.mul y).Rounds (p * q) := by
  obtain ⟨a, m, rfl, rfl⟩ := toRat?_eq_some_iff.1 hx
  obtain ⟨b, n, rfl, rfl⟩ := toRat?_eq_some_iff.1 hy
  refine ⟨_, _, unitsPerOne, unitsPerOne_pos, rfl, ?_⟩
  rw [← signed_mul, Int.cast_mul, div_mul_div_comm]

theorem rounds_div (hx : x.toRat? = some p) (hy : y.toRat? = some q) (hq : q ≠ 0) :
    (x.div y).Rounds (p / q) := by
  obtain ⟨a, m, rfl, rfl⟩ := toRat?_eq_some_iff.1 hx
  obtain ⟨b, n, rfl, rfl⟩ := toRat?_eq_some_iff.1 hy
  have hunits : units n ≠ 0 := by
    intro hzero
    rw [hzero] at hq
    simp [signed] at hq
  refine ⟨a != b, units m * unitsPerOne, units n, Nat.pos_of_ne_zero hunits,
    if_neg (mt units_eq_zero_iff.2 hunits), ?_⟩
  have hone : (unitsPerOne : ℚ) ≠ 0 := Nat.cast_ne_zero.2 (Nat.ne_of_gt unitsPerOne_pos)
  rw [div_div_div_cancel_right₀ hone, signed_div, signed_mul_right, Int.cast_mul, Int.cast_natCast,
    mul_div_mul_right _ _ hone]

end Rounds

/-! ### Integers -/

theorem unlessInfinite_ofUnits_eq_some {negative : Bool} {num den : ℕ} {x : Double}
    (h : (ofUnits negative num den).unlessInfinite = some x) :
    ∃ rank, rank.val = nearestRank num den ∧ x = finite negative rank := by
  rw [ofUnits] at h
  split at h
  · exact ⟨_, rfl, (Option.some.inj h).symm⟩
  · cases h

/-- No integer but zero is so small that it is converted to a zero. -/
theorem nearestRank_eq_zero_iff {n : ℕ} : nearestRank (n * unitsPerOne) 1 = 0 ↔ n = 0 := by
  constructor
  · intro h
    by_contra hn
    have hlog : 52 ≤ (n * unitsPerOne / 1).log2 := by
      rw [Nat.div_one, Nat.le_log2 (Nat.mul_ne_zero hn (Nat.ne_of_gt unitsPerOne_pos))]
      calc 2 ^ 52 ≤ unitsPerOne := by decide +kernel
        _ ≤ n * unitsPerOne := Nat.le_mul_of_pos_left _ (Nat.pos_of_ne_zero hn)
    have hle := le_nearestRank hlog
    rw [h, Nat.le_zero, Nat.mul_eq_zero, or_iff_left (by decide)] at hle
    omega
  · rintro rfl
    rw [Nat.zero_mul]
    rfl

/-- An integer that is converted is a number, and it is zero only if it was zero before. -/
theorem exists_toRat?_of_ofInt? {n : ℤ} {x : Double} (h : ofInt? n = some x) :
    ∃ p, x.toRat? = some p ∧ (p = 0 ↔ n = 0) := by
  obtain ⟨rank, hrank, rfl⟩ := unlessInfinite_ofUnits_eq_some h
  have hx : (finite (n < 0) rank).toRat? = some _ := rfl
  refine ⟨_, hx, ?_⟩
  rw [← isZero_iff_of_toRat? hx, isZero, decide_eq_true_iff, hrank, nearestRank_eq_zero_iff,
    Int.natAbs_eq_zero]

/-- The magnitudes of the runs up to one are not beyond its last one. -/
theorem units_le {rank spread : ℕ} (h : rank < (spread + 2) * runLength) :
    units rank ≤ (2 * runLength - 1) <<< spread := by
  rw [units]
  split
  · next hsmall =>
    calc rank ≤ 2 * runLength - 1 := Nat.le_trans (Nat.le_of_lt hsmall) (by decide)
      _ ≤ (2 * runLength - 1) <<< spread := by
        rw [Nat.shiftLeft_eq]
        exact Nat.le_mul_of_pos_right _ (Nat.two_pow_pos spread)
  · have hmod : rank % runLength < runLength := Nat.mod_lt rank (by decide)
    have hdiv : rank / runLength < spread + 2 := Nat.div_lt_of_lt_mul (Nat.mul_comm _ _ ▸ h)
    rw [Nat.shiftLeft_eq, Nat.shiftLeft_eq]
    exact Nat.mul_le_mul (by omega) (Nat.pow_le_pow_right (by decide) (by omega))

/-- **No finite double reaches the boundary.** -/
theorem abs_lt_of_toRat? {x : Double} {p : ℚ} (h : x.toRat? = some p) :
    |p| < 2 ^ 1024 - 2 ^ 970 := by
  obtain ⟨a, m, rfl, rfl⟩ := toRat?_eq_some_iff.1 h
  have hpos : (0 : ℚ) < unitsPerOne := Nat.cast_pos.2 unitsPerOne_pos
  rw [abs_div, abs_of_pos hpos, ← Int.cast_abs, abs_signed, Int.cast_natCast, div_lt_iff₀ hpos,
    ← cast_two_pow_sub (by decide), ← Nat.cast_mul, Nat.cast_lt]
  exact Nat.lt_of_le_of_lt (units_le m.isLt) (by decide +kernel)

end Double

namespace Operation

/-- The operation on numbers. -/
def onRationals : Operation → ℚ → ℚ → ℚ
  | add, p, q => p + q
  | sub, p, q => p - q
  | mul, p, q => p * q
  | div, p, q => p / q

/-- **An operation on doubles rounds its result once.** -/
theorem rounds_onDoubles {operation : Operation} {x y : Double} {p q : ℚ}
    (hx : x.toRat? = some p) (hy : y.toRat? = some q) (hzero : operation = div → q ≠ 0) :
    (operation.onDoubles x y).Rounds (operation.onRationals p q) := by
  cases operation with
  | add => exact Double.rounds_add hx hy
  | sub => exact Double.rounds_sub hx hy
  | mul => exact Double.rounds_mul hx hy
  | div => exact Double.rounds_div hx hy (hzero rfl)

end Operation

end Calculator
