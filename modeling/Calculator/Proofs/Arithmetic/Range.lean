import Calculator.Double.Rounding
import Mathlib.Algebra.Order.Field.Basic
import Mathlib.Data.Nat.Cast.Order.Field
import Mathlib.Data.Rat.Cast.Order
import Mathlib.Tactic.Ring

/-!
# The range of doubles

Which numbers round to an infinity: those that lie half a step or more above the largest finite
magnitude, at `2 ^ 1024 - 2 ^ 970` or beyond. The boundary itself is a tie, and the even neighbour
is the one that is not there.

Everything is counted in units first, where the boundary is `2 ^ 2098 - 2 ^ 2044`. The proof
compares the quotient with the last run of magnitudes, which begins at `2 ^ 2097` units: before it
no rank is large enough, behind it every rank is too large, and in it the rank is decided by the
rounding (`le_roundHalfEven_iff`).
-/

namespace Calculator

/-! ### Rounding a quotient -/

section Rounding

variable {num den : Nat}

theorem div_le_roundHalfEven (num den : Nat) : num / den ≤ roundHalfEven num den := by
  simp only [roundHalfEven]
  split_ifs <;> omega

theorem roundHalfEven_le_div_add_one (num den : Nat) : roundHalfEven num den ≤ num / den + 1 := by
  simp only [roundHalfEven]
  split_ifs <;> omega

/-- **A quotient rounds to an even number or more** exactly from half a step below it on. -/
theorem le_roundHalfEven_iff (hden : 0 < den) {k : Nat} (heven : k % 2 = 1) :
    k + 1 ≤ roundHalfEven num den ↔ (2 * k + 1) * den ≤ 2 * num := by
  have hdiv : num = num / den * den + num % den := by rw [Nat.mul_comm, Nat.div_add_mod]
  have hmod : num % den < den := Nat.mod_lt num hden
  have hexpand : (2 * k + 1) * den = 2 * (k * den) + den := by ring
  rw [hexpand]
  rcases Nat.lt_trichotomy k (num / den) with hlt | heq | hgt
  · have hround := div_le_roundHalfEven num den
    have hmul : (k + 1) * den ≤ num / den * den := Nat.mul_le_mul_right den hlt
    rw [Nat.succ_mul] at hmul
    exact iff_of_true (by omega) (by omega)
  · -- the quotient is between this number and the odd one below it, to which no tie goes
    simp only [roundHalfEven]
    rw [← heq] at hdiv ⊢
    split_ifs <;> omega
  · have hround := roundHalfEven_le_div_add_one num den
    have hmul : (num / den + 1) * den ≤ k * den := Nat.mul_le_mul_right den hgt
    rw [Nat.succ_mul] at hmul
    exact iff_of_false (by omega) (by omega)

end Rounding

/-! ### The rank of a quotient -/

namespace Double

variable {num den : Nat}

/-- In which steps a quotient is counted, the quotient is within two runs of them. -/
theorem div_shiftLeft_lt (num den : Nat) :
    num / (den <<< ((num / den).log2 - 52)) < 2 * runLength := by
  have hlt : num / den < 2 ^ ((num / den).log2 + 1) := Nat.lt_log2_self
  rw [Nat.shiftLeft_eq, ← Nat.div_div_eq_div_mul, Nat.div_lt_iff_lt_mul (Nat.two_pow_pos _)]
  calc num / den < 2 ^ ((num / den).log2 + 1) := hlt
    _ ≤ 2 ^ (53 + ((num / den).log2 - 52)) := Nat.pow_le_pow_right (by decide) (by omega)
    _ = 2 * runLength * 2 ^ ((num / den).log2 - 52) := Nat.pow_add 2 53 _

/-- And if there is such a run at all, it is not before the first one. -/
theorem runLength_le_div_shiftLeft (h : 52 ≤ (num / den).log2) :
    runLength ≤ num / (den <<< ((num / den).log2 - 52)) := by
  have hle : 2 ^ (num / den).log2 ≤ num / den := by
    refine Nat.log2_self_le fun hzero ↦ ?_
    rw [hzero] at h
    exact absurd h (by decide)
  rw [Nat.shiftLeft_eq, ← Nat.div_div_eq_div_mul, Nat.le_div_iff_mul_le (Nat.two_pow_pos _)]
  calc runLength * 2 ^ ((num / den).log2 - 52)
    _ = 2 ^ (52 + ((num / den).log2 - 52)) := (Nat.pow_add 2 52 _).symm
    _ = 2 ^ (num / den).log2 := by rw [Nat.add_sub_cancel' h]
    _ ≤ num / den := hle

theorem nearestRank_le (num den : Nat) :
    nearestRank num den ≤ ((num / den).log2 - 52 + 2) * runLength := by
  have hround := roundHalfEven_le_div_add_one num (den <<< ((num / den).log2 - 52))
  have hlt := div_shiftLeft_lt num den
  simp only [nearestRank, Nat.add_mul]
  omega

theorem le_nearestRank (h : 52 ≤ (num / den).log2) :
    ((num / den).log2 - 52 + 1) * runLength ≤ nearestRank num den := by
  have hround := div_le_roundHalfEven num (den <<< ((num / den).log2 - 52))
  have hle := runLength_le_div_shiftLeft h
  simp only [nearestRank, Nat.add_mul]
  omega

/-- **The rank reaches the end of a run** exactly from half a step below it on. The run is the one
with steps of `2 ^ spread`. -/
theorem le_nearestRank_iff (hden : 0 < den) (spread : Nat) (hspread : 0 < spread) :
    (spread + 2) * runLength ≤ nearestRank num den ↔
      (2 ^ 54 - 1) * (den * 2 ^ spread) ≤ 2 * num := by
  have hpos : 0 < den * 2 ^ spread := Nat.mul_pos hden (Nat.two_pow_pos spread)
  rcases Nat.lt_trichotomy (num / den).log2 (spread + 52) with hlt | heq | hgt
  · -- the quotient is in an earlier run
    refine iff_of_false (Nat.not_le_of_lt ?_) (Nat.not_le_of_lt ?_)
    · calc nearestRank num den ≤ ((num / den).log2 - 52 + 2) * runLength := nearestRank_le num den
        _ ≤ (spread + 1) * runLength := Nat.mul_le_mul_right _ (by omega)
        _ < (spread + 2) * runLength := Nat.mul_lt_mul_of_pos_right (Nat.lt_succ_self _) (by decide)
    · have hquotient : num / den < 2 ^ 52 * 2 ^ spread := by
        rw [← Nat.pow_add]
        exact Nat.lt_of_lt_of_le Nat.lt_log2_self (Nat.pow_le_pow_right (by decide) (by omega))
      have hnum := (Nat.div_lt_iff_lt_mul hden).1 hquotient
      rw [Nat.mul_assoc, Nat.mul_comm _ den] at hnum
      generalize den * 2 ^ spread = step at hnum hpos
      omega
  · have hrun : nearestRank num den =
        spread * runLength + roundHalfEven num (den * 2 ^ spread) := by
      rw [nearestRank, heq, Nat.add_sub_cancel, Nat.shiftLeft_eq]
    rw [hrun, Nat.add_mul, Nat.add_le_add_iff_left]
    exact le_roundHalfEven_iff hpos (by decide)
  · refine iff_of_true ?_ ?_
    · calc (spread + 2) * runLength ≤ ((num / den).log2 - 52 + 1) * runLength :=
          Nat.mul_le_mul_right _ (by omega)
        _ ≤ nearestRank num den := le_nearestRank (by omega)
    · have hquotient : 2 ^ 53 * 2 ^ spread ≤ num / den := by
        rw [← Nat.pow_add]
        refine Nat.le_trans (Nat.pow_le_pow_right (by decide) (by omega)) (Nat.log2_self_le ?_)
        rintro hzero
        rw [hzero] at hgt
        exact absurd hgt (by simp)
      have hnum := (Nat.le_div_iff_mul_le hden).1 hquotient
      rw [Nat.mul_assoc, Nat.mul_comm _ den] at hnum
      generalize den * 2 ^ spread = step at hnum hpos
      omega

/-- The boundary in steps of a run, and in units. -/
theorem le_iff_of_steps (m num den : Nat) :
    (2 ^ 54 - 1) * (den * 2 ^ (m + 1)) ≤ 2 * num ↔ (2 ^ (m + 54) - 2 ^ m) * den ≤ num := by
  have hleft : (2 ^ 54 - 1) * (den * 2 ^ (m + 1)) = 2 * ((2 ^ 54 - 1) * 2 ^ m * den) := by
    rw [Nat.pow_succ]
    ring
  have hright : 2 ^ (m + 54) - 2 ^ m = (2 ^ 54 - 1) * 2 ^ m := by
    rw [Nat.sub_mul, Nat.one_mul, Nat.add_comm, Nat.pow_add]
  rw [hleft, hright, Nat.mul_le_mul_left_iff (by decide)]

theorem unitsPerOne_eq : unitsPerOne = 2 ^ unitExponent :=
  (Nat.shiftLeft_eq 1 unitExponent).trans (Nat.one_mul _)

/-- **A quotient has no finite rank** exactly from `2 ^ 1024 - 2 ^ 970` on, in units. -/
theorem magnitudeCount_le_nearestRank_iff_units (num : Nat) {den : Nat} (hden : 0 < den) :
    magnitudeCount ≤ nearestRank num den ↔
      (2 ^ 1024 - 2 ^ 970) * (den * unitsPerOne) ≤ num := by
  -- the exponents as sums, since their powers are not to be computed
  have hrun : magnitudeCount ≤ nearestRank num den ↔
      (2 ^ 54 - 1) * (den * 2 ^ (970 + 1074 + 1)) ≤ 2 * num :=
    le_nearestRank_iff hden (970 + 1074 + 1) (Nat.succ_pos _)
  have hboundary : 2 ^ (970 + 1074 + 54) - 2 ^ (970 + 1074) =
      (2 ^ (970 + 54) - 2 ^ 970) * 2 ^ 1074 := by
    rw [Nat.sub_mul, ← Nat.pow_add, ← Nat.pow_add, Nat.add_right_comm]
  rw [hrun, le_iff_of_steps, hboundary, unitsPerOne_eq, Nat.mul_comm den, Nat.mul_assoc]

/-- **A quotient of whole numbers has no finite rank** exactly from `2 ^ 1024 - 2 ^ 970` on. -/
theorem magnitudeCount_le_nearestRank_iff (a : Nat) {b : Nat} (hb : 0 < b) :
    magnitudeCount ≤ nearestRank (a * unitsPerOne) b ↔ (2 ^ 1024 - 2 ^ 970) * b ≤ a := by
  have hpos : 0 < unitsPerOne := unitsPerOne_eq ▸ Nat.two_pow_pos unitExponent
  rw [magnitudeCount_le_nearestRank_iff_units _ hb, ← Nat.mul_assoc,
    Nat.mul_le_mul_right_iff hpos]

/-- A rank that no finite magnitude has is the one way to an infinity. -/
theorem ofUnits_cases (negative : Bool) (num den : Nat) :
    (∃ rank, nearestRank num den < magnitudeCount ∧
        ofUnits negative num den = finite negative rank) ∨
      (magnitudeCount ≤ nearestRank num den ∧ ofUnits negative num den = infinite negative) := by
  rcases Nat.lt_or_ge (nearestRank num den) magnitudeCount with hlt | hge
  · exact .inl ⟨⟨_, hlt⟩, hlt, dif_pos hlt⟩
  · exact .inr ⟨hge, dif_neg (Nat.not_lt_of_le hge)⟩

theorem unlessInfinite_ofUnits_eq_none_iff (negative : Bool) (num den : Nat) :
    (ofUnits negative num den).unlessInfinite = none ↔ magnitudeCount ≤ nearestRank num den := by
  rcases ofUnits_cases negative num den with ⟨rank, hlt, heq⟩ | ⟨hge, heq⟩
  · rw [heq]
    exact iff_of_false nofun (Nat.not_le_of_lt hlt)
  · rw [heq]
    exact iff_of_true rfl hge

/-- The boundary as a number of another kind. -/
theorem cast_two_pow_sub {R : Type} [Ring R] {m n : Nat} (h : m ≤ n) :
    ((2 ^ n - 2 ^ m : Nat) : R) = 2 ^ n - 2 ^ m := by
  rw [Nat.cast_sub (Nat.pow_le_pow_right (by decide) h), Nat.cast_pow, Nat.cast_pow,
    Nat.cast_ofNat]

/-- **An integer has no nearest double** exactly from `2 ^ 1024 - 2 ^ 970` on. -/
theorem ofInt?_eq_none_iff {n : Int} : ofInt? n = none ↔ (2 ^ 1024 - 2 ^ 970 : Int) ≤ |n| := by
  rw [ofInt?, unlessInfinite_ofUnits_eq_none_iff,
    magnitudeCount_le_nearestRank_iff n.natAbs Nat.one_pos, Nat.mul_one,
    ← cast_two_pow_sub (by decide), Int.abs_eq_natAbs, Nat.cast_le]

/-- **A quotient of integers has no nearest double** exactly from `2 ^ 1024 - 2 ^ 970` on. -/
theorem ofQuotient?_eq_none_iff {a b : Int} (hb : b ≠ 0) :
    ofQuotient? a b = none ↔ (2 ^ 1024 - 2 ^ 970 : ℚ) ≤ |(a / b : ℚ)| := by
  have hpos : 0 < |(b : ℚ)| := abs_pos.2 (Int.cast_ne_zero.2 hb)
  rw [ofQuotient?, unlessInfinite_ofUnits_eq_none_iff,
    magnitudeCount_le_nearestRank_iff a.natAbs (Int.natAbs_pos.2 hb),
    ← cast_two_pow_sub (by decide), abs_div, le_div_iff₀ hpos, ← Int.cast_abs, ← Int.cast_abs,
    ← Nat.cast_natAbs, ← Nat.cast_natAbs, ← Nat.cast_mul, Nat.cast_le]

end Double

end Calculator
