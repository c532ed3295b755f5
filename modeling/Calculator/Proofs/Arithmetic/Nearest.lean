import Calculator.Proofs.Arithmetic.Decimals
import Mathlib.Data.List.Induction
import Mathlib.Data.Nat.Digits.Defs
import Mathlib.Tactic.Linarith

/-!
# Rounding to the nearest double

What it is for a double to be the nearest one to a number, said without rounding
(`Double.IsNearest`): from half a step above the largest finite magnitude on it is the infinity, and
before that it is a finite double such that no other is nearer, and none that is as near unless this
one is the even one. A number has one nearest double for each sign (`Double.IsNearest.unique`), and
`Double.ofUnits` finds it (`Double.isNearest_ofUnits`). So a numeral with a point is read as the
double nearest to what its digits stand for in base ten (`Double.isNearest_ofDecimal`).

Rounding takes a quotient to one of the magnitudes that are `2 ^ spread` units apart, and on this
grid it is nearest because it is nearest among the natural numbers (`roundHalfEven_nearest`). The
magnitudes that are not on the grid are those in front of the run in which the quotient lies, and
the grid begins in front of the quotient (`Double.units_on_grid`), so that they are farther away.
-/

namespace Calculator

variable {num den : ℕ}

/-- **No natural number is nearer to a quotient** than the one that it is rounded to, and another
one is as near only if that one is even. Distances are measured with the denominator. -/
theorem roundHalfEven_nearest (hden : 0 < den) {k : ℕ} (hk : k ≠ roundHalfEven num den) :
    ((roundHalfEven num den * den : ℕ) - (num : ℤ)).natAbs < ((k * den : ℕ) - (num : ℤ)).natAbs ∨
      ((roundHalfEven num den * den : ℕ) - (num : ℤ)).natAbs =
        ((k * den : ℕ) - (num : ℤ)).natAbs ∧ roundHalfEven num den % 2 = 0 := by
  have hdiv : num = num / den * den + num % den := by rw [Nat.mul_comm, Nat.div_add_mod]
  have hmod : num % den < den := Nat.mod_lt num hden
  -- the quotient lies between two neighbours, and every other number is beyond one of them
  have hnext : (num / den + 1) * den = num / den * den + den := Nat.succ_mul _ _
  have hother : k = num / den ∨ k = num / den + 1 ∨ k * den + den ≤ num / den * den ∨
      num / den * den + 2 * den ≤ k * den := by
    rcases Nat.lt_trichotomy k (num / den) with hlt | heq | hgt
    · have hmul := Nat.mul_le_mul_right den (Nat.succ_le_of_lt hlt)
      rw [Nat.succ_mul] at hmul
      exact .inr (.inr (.inl hmul))
    · exact .inl heq
    · rcases Nat.eq_or_lt_of_le (Nat.succ_le_of_lt hgt) with heq | hgt
      · exact .inr (.inl heq.symm)
      · have hmul := Nat.mul_le_mul_right den (Nat.succ_le_of_lt hgt)
        rw [Nat.succ_mul, Nat.succ_mul] at hmul
        exact .inr (.inr (.inr (by omega)))
  rw [roundHalfEven] at hk ⊢
  generalize num / den = quotient at *
  rcases hother with rfl | rfl | hbefore | hbehind <;> split_ifs at hk ⊢ <;> omega

namespace Double

/-! ### The grid of a run -/

/-- Every rank is a number of steps in a run. Only the first run has fewer than `runLength`. -/
theorem exists_run (rank : ℕ) :
    ∃ spread steps, rank = spread * runLength + steps ∧ steps < 2 * runLength ∧
      (spread = 0 ∨ runLength ≤ steps) := by
  rcases Nat.lt_or_ge rank runLength with hlt | hge
  · exact ⟨0, rank, by omega, by omega, .inl rfl⟩
  · have hdiv := Nat.div_add_mod' rank runLength
    have hmod := Nat.mod_lt rank (by decide : 0 < runLength)
    have hpos : 0 < rank / runLength := Nat.div_pos hge (by decide)
    refine ⟨rank / runLength - 1, runLength + rank % runLength, ?_, by omega, .inr (by omega)⟩
    rw [Nat.sub_one_mul]
    have hle : runLength ≤ rank / runLength * runLength := Nat.le_mul_of_pos_left _ hpos
    omega

/-- The magnitude of a rank is its number of steps, of which each has `2 ^ spread` units. The last
step of a run leads to the first magnitude of the next one. -/
theorem units_of_run {spread steps : ℕ} (hle : steps ≤ 2 * runLength)
    (hrun : spread = 0 ∨ runLength ≤ steps) :
    units (spread * runLength + steps) = steps * 2 ^ spread := by
  rcases Nat.lt_or_ge steps runLength with hlt | hge
  · obtain rfl : spread = 0 := hrun.resolve_right (Nat.not_le_of_lt hlt)
    rw [units, Nat.zero_mul, Nat.zero_add, if_pos hlt, Nat.pow_zero, Nat.mul_one]
  · have hlarge : ¬ spread * runLength + steps < runLength := by omega
    rw [units, if_neg hlarge, Nat.mul_add_mod', Nat.shiftLeft_eq]
    rcases Nat.eq_or_lt_of_le hle with rfl | hlt
    · have hdiv : (spread * runLength + 2 * runLength) / runLength = spread + 2 := by
        rw [← Nat.add_mul, Nat.mul_div_cancel _ (by decide)]
      rw [hdiv, Nat.mul_mod_left, Nat.add_zero, Nat.add_sub_cancel (m := 1) (n := spread + 1),
        Nat.pow_succ]
      ring
    · obtain ⟨rest, rfl⟩ := Nat.exists_eq_add_of_le hge
      have hrest : rest < runLength := by omega
      have hdiv : (spread * runLength + (runLength + rest)) / runLength = spread + 1 := by
        rw [← Nat.add_assoc, ← Nat.succ_mul, Nat.add_comm,
          Nat.add_mul_div_right _ _ (by decide), Nat.div_eq_of_lt hrest, Nat.zero_add]
      rw [hdiv, Nat.add_mod_left, Nat.mod_eq_of_lt hrest, Nat.add_sub_cancel]

/-- Ranks are in the order of their magnitudes. -/
theorem strictMono_units : StrictMono units := by
  refine strictMono_nat_of_lt_succ fun rank ↦ ?_
  obtain ⟨spread, steps, rfl, hlt, hrun⟩ := exists_run rank
  rw [Nat.add_assoc, units_of_run (Nat.le_of_lt hlt) hrun,
    units_of_run hlt (hrun.imp_right Nat.le_succ_of_le)]
  exact Nat.mul_lt_mul_of_pos_right (Nat.lt_succ_self steps) (Nat.two_pow_pos spread)

/-- A magnitude is on the grid with steps of `2 ^ spread`, or in front of the run with these
steps. -/
theorem units_on_grid (rank spread : ℕ) :
    (∃ k, units rank = k * 2 ^ spread) ∨ 0 < spread ∧ units rank < runLength * 2 ^ spread := by
  obtain ⟨own, steps, rfl, hlt, hrun⟩ := exists_run rank
  rw [units_of_run (Nat.le_of_lt hlt) hrun]
  rcases Nat.lt_or_ge own spread with hfine | hcoarse
  · refine .inr ⟨by omega, ?_⟩
    calc steps * 2 ^ own
      _ < 2 * runLength * 2 ^ own := Nat.mul_lt_mul_of_pos_right hlt (Nat.two_pow_pos own)
      _ = runLength * 2 ^ (own + 1) := by ring
      _ ≤ runLength * 2 ^ spread :=
        Nat.mul_le_mul_left _ (Nat.pow_le_pow_right (by decide) hfine)
  · refine .inl ⟨steps * 2 ^ (own - spread), ?_⟩
    rw [Nat.mul_assoc, ← Nat.pow_add, Nat.sub_add_cancel hcoarse]

/-! ### The rank of a quotient -/

/-- In which steps a quotient is counted, it rounds to a magnitude of the grid. -/
theorem units_nearestRank (num den : ℕ) :
    units (nearestRank num den) =
      roundHalfEven num (den * 2 ^ ((num / den).log2 - 52)) * 2 ^ ((num / den).log2 - 52) := by
  have hlt := div_shiftLeft_lt num den
  rw [Nat.shiftLeft_eq] at hlt
  rw [nearestRank, Nat.shiftLeft_eq]
  refine units_of_run (Nat.le_trans (roundHalfEven_le_div_add_one _ _) hlt) ?_
  rcases Nat.lt_or_ge (num / den).log2 52 with hsmall | hlarge
  · exact .inl (Nat.sub_eq_zero_of_le (Nat.le_of_lt hsmall))
  · have hle := runLength_le_div_shiftLeft hlarge
    rw [Nat.shiftLeft_eq] at hle
    exact .inr (Nat.le_trans hle (div_le_roundHalfEven _ _))

theorem nearestRank_mod_two (num den : ℕ) :
    nearestRank num den % 2 = roundHalfEven num (den * 2 ^ ((num / den).log2 - 52)) % 2 := by
  have hrun : runLength % 2 = 0 := rfl
  rw [nearestRank, Nat.shiftLeft_eq, Nat.add_mod, Nat.mul_mod, hrun, Nat.mul_zero, Nat.zero_mod,
    Nat.zero_add, Nat.mod_mod]

/-- **No magnitude is nearer to a quotient** than that of the rank it is rounded to, and another one
is as near only if that rank is even. -/
theorem nearestRank_nearest (hden : 0 < den) {rank : ℕ} (hrank : rank ≠ nearestRank num den) :
    ((units (nearestRank num den) * den : ℕ) - (num : ℤ)).natAbs <
        ((units rank * den : ℕ) - (num : ℤ)).natAbs ∨
      ((units (nearestRank num den) * den : ℕ) - (num : ℤ)).natAbs =
        ((units rank * den : ℕ) - (num : ℤ)).natAbs ∧ nearestRank num den % 2 = 0 := by
  have hunits : units rank ≠ units (nearestRank num den) := strictMono_units.injective.ne hrank
  have hquotient : 0 < (num / den).log2 - 52 →
      runLength ≤ num / (den * 2 ^ ((num / den).log2 - 52)) := by
    intro hspread
    rw [← Nat.shiftLeft_eq]
    exact runLength_le_div_shiftLeft (by omega)
  rw [nearestRank_mod_two]
  rw [units_nearestRank] at hunits ⊢
  generalize (num / den).log2 - 52 = spread at *
  have hstep : 0 < den * 2 ^ spread := Nat.mul_pos hden (Nat.two_pow_pos spread)
  have hscale : ∀ k, k * 2 ^ spread * den = k * (den * 2 ^ spread) := fun k ↦ by ring
  rw [hscale]
  rcases units_on_grid rank spread with ⟨k, hk⟩ | ⟨hspread, hlt⟩
  · rw [hk] at hunits
    rw [hk, hscale]
    exact roundHalfEven_nearest hstep fun h ↦ hunits (h ▸ rfl)
  · -- the beginning of the run is nearer than what is in front of it, and not nearer than the
    -- rounded quotient
    have hbegin := (Nat.le_div_iff_mul_le hstep).1 (hquotient hspread)
    have hbefore := Nat.mul_lt_mul_of_pos_right hlt hden
    rw [hscale] at hbefore
    by_cases hround : runLength = roundHalfEven num (den * 2 ^ spread)
    · rw [← hround]
      omega
    · have hnearest := roundHalfEven_nearest hstep hround
      omega

/-! ### The nearest double -/

/-- The magnitude of a rank. -/
def magnitude (rank : ℕ) : ℚ := units rank / unitsPerOne

/-- The double is the one with a given sign that is nearest to a magnitude. -/
inductive IsNearest (negative : Bool) (r : ℚ) : Double → Prop where
  /-- A finite double is nearest if all others are farther away, or as far away and the rank of this
  one is even. -/
  | finite {rank : Fin magnitudeCount} (hlt : r < 2 ^ 1024 - 2 ^ 970)
      (hnearest : ∀ other : Fin magnitudeCount, other ≠ rank →
        |magnitude rank - r| < |magnitude other - r| ∨
          |magnitude rank - r| = |magnitude other - r| ∧ rank.val % 2 = 0) :
    IsNearest negative r (finite negative rank)
  /-- Beyond the largest finite double the infinity is nearest, from half a step on. -/
  | infinite (hle : 2 ^ 1024 - 2 ^ 970 ≤ r) : IsNearest negative r (infinite negative)

theorem abs_magnitude_sub (hden : 0 < den) (rank : ℕ) :
    |magnitude rank - num / (den * unitsPerOne)| =
      ((units rank * den : ℕ) - (num : ℤ)).natAbs / (den * unitsPerOne : ℚ) := by
  have hpos : (0 : ℚ) < den * unitsPerOne := by
    exact_mod_cast Nat.mul_pos hden unitsPerOne_pos
  have hden' : (den : ℚ) ≠ 0 := Nat.cast_ne_zero.2 (Nat.ne_of_gt hden)
  rw [magnitude, ← mul_div_mul_left _ _ hden', ← sub_div, abs_div, abs_of_pos hpos,
    Nat.cast_natAbs, Int.cast_abs]
  push_cast
  rw [mul_comm]

/-- **A quotient of units is rounded to the nearest double.** -/
theorem isNearest_ofUnits (negative : Bool) (num : ℕ) (hden : 0 < den) :
    IsNearest negative (num / (den * unitsPerOne)) (ofUnits negative num den) := by
  have hpos : (0 : ℚ) < den * unitsPerOne := by
    exact_mod_cast Nat.mul_pos hden unitsPerOne_pos
  have hboundary := magnitudeCount_le_nearestRank_iff_rat num hden
  rw [ofUnits]
  split
  · next hrank =>
    refine .finite (lt_of_not_ge (mt hboundary.2 (Nat.not_le_of_lt hrank))) fun other hother ↦ ?_
    rw [abs_magnitude_sub hden, abs_magnitude_sub hden, div_lt_div_iff_of_pos_right hpos,
      div_left_inj' (ne_of_gt hpos), Nat.cast_lt, Nat.cast_inj]
    exact nearestRank_nearest hden fun h ↦ hother (Fin.ext h)
  · next hrank => exact .infinite (hboundary.1 (Nat.le_of_not_lt hrank))

theorem magnitude_lt {m n : ℕ} (h : m < n) : magnitude m < magnitude n :=
  div_lt_div_of_pos_right (Nat.cast_lt.2 (strictMono_units h)) (Nat.cast_pos.2 unitsPerOne_pos)

/-- Halfway between two numbers, whatever is between them is nearer than both. -/
theorem abs_sub_lt_of_between {a b c r : ℚ} (ha : a < c) (hb : c < b) (heq : |a - r| = |b - r|) :
    |c - r| < |a - r| := by
  have hmiddle : a - r = -(b - r) := (abs_eq_abs.1 heq).resolve_left (by linarith)
  have hneg : a - r < 0 := by linarith
  rw [abs_of_neg hneg, abs_lt]
  exact ⟨by linarith, by linarith⟩

/-- Of two even ranks neither is as near as the other if none is nearer than the first. -/
theorem abs_magnitude_sub_ne {rank other : Fin magnitudeCount} {r : ℚ} (hlt : rank.val < other.val)
    (heven : rank.val % 2 = 0) (heven' : other.val % 2 = 0)
    (hnearest : ∀ between, |magnitude rank - r| ≤ |magnitude (between : Fin magnitudeCount) - r|) :
    |magnitude rank - r| ≠ |magnitude other - r| := by
  have hnext : rank.val + 1 < other.val := by omega
  intro heq
  exact absurd (hnearest ⟨rank.val + 1, Nat.lt_trans hnext other.isLt⟩) <| not_le_of_gt <|
    abs_sub_lt_of_between (magnitude_lt (Nat.lt_succ_self _)) (magnitude_lt hnext) heq

/-- No magnitude is nearer than a nearest one. -/
theorem abs_magnitude_sub_le {rank : Fin magnitudeCount} {r : ℚ}
    (hnearest : ∀ other : Fin magnitudeCount, other ≠ rank →
      |magnitude rank - r| < |magnitude other - r| ∨
        |magnitude rank - r| = |magnitude other - r| ∧ rank.val % 2 = 0)
    (other : Fin magnitudeCount) : |magnitude rank - r| ≤ |magnitude other - r| := by
  by_cases hother : other = rank
  · rw [hother]
  · exact (hnearest other hother).elim le_of_lt fun h ↦ le_of_eq h.1

/-- **A number has one nearest double**, given the sign. -/
theorem IsNearest.unique {negative : Bool} {r : ℚ} {x y : Double} (hx : IsNearest negative r x)
    (hy : IsNearest negative r y) : x = y := by
  cases hx with
  | infinite hle =>
    cases hy with
    | infinite => rfl
    | finite hlt => exact absurd hle (not_le_of_gt hlt)
  | @finite rank hlt hrank =>
    cases hy with
    | infinite hle => exact absurd hle (not_le_of_gt hlt)
    | @finite other _ hother =>
      by_contra hne
      have hranks : other ≠ rank := fun h ↦ hne (h ▸ rfl)
      have heq := le_antisymm (abs_magnitude_sub_le hrank other) (abs_magnitude_sub_le hother rank)
      have heven := (hrank other hranks).resolve_left (not_lt_of_ge (le_of_eq heq.symm))
      have heven' := (hother rank hranks.symm).resolve_left (not_lt_of_ge (le_of_eq heq))
      rcases Nat.lt_or_gt_of_ne fun h ↦ hranks (Fin.ext h) with hless | hgreater
      · exact abs_magnitude_sub_ne hless heven'.2 heven.2 (abs_magnitude_sub_le hother) heq.symm
      · exact abs_magnitude_sub_ne hgreater heven.2 heven'.2 (abs_magnitude_sub_le hrank) heq

/-- **A decimal is rounded to the nearest double.** -/
theorem isNearest_ofDecimal (negative : Bool) (digits places : ℕ) :
    IsNearest negative (digits / 10 ^ places) (ofDecimal negative ⟨digits, -places⟩) := by
  have hone : (unitsPerOne : ℚ) ≠ 0 := Nat.cast_ne_zero.2 (Nat.ne_of_gt unitsPerOne_pos)
  have hpow : 0 < 10 ^ places := Nat.pow_pos (by decide)
  have hunits := isNearest_ofUnits negative (digits * unitsPerOne) hpow
  rw [Nat.cast_mul, mul_div_mul_right _ _ hone, Nat.cast_pow, Nat.cast_ofNat] at hunits
  rcases Nat.eq_zero_or_pos places with rfl | hpos
  · have hread := ofDecimal_natCast negative digits 0
    rw [Nat.pow_zero, Nat.mul_one] at hread
    exact hread ▸ hunits
  · rwa [ofDecimal_neg_natCast hpos]

end Double

/-! ### The value of digits -/

namespace Text

/-- The number that digits stand for in base ten, with the ones in the last place. -/
def baseTen (digits : List Char) : ℕ :=
  Nat.ofDigits 10 (digits.reverse.map fun c ↦ c.toNat - '0'.toNat)

theorem ofDigits_eq_baseTen (digits : List Char) : ofDigits digits = baseTen digits := by
  induction digits using List.reverseRecOn with
  | nil => rfl
  | append_singleton digits c ih =>
    rw [baseTen, List.reverse_concat, List.map_cons, Nat.ofDigits_cons, ← baseTen, ← ih, ofDigits,
      Nat.ofDigitChars_append, Nat.add_comm]
    rfl

end Text

end Calculator
