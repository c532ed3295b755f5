import Calculator.Proofs.Arithmetic.Decimals
import Calculator.Proofs.Tokens.Lexing

/-!
# Texts of values

Integers and doubles are known by their texts. The text of an integer has its sign and its digits
(`Text.integer_injective`). The text of a double is read as the double (`Double.ofText?_write`), so
that no two doubles have one text (`Double.write_injective`). The sign is in front of the digits,
and what is written of the magnitude is its shortest decimal, which rounds to the magnitude. Of this
decimal the positional text keeps what it rounds to, and the text with an exponent keeps its digits
and its exponent, so that it is read as the very same decimal (`Decimal.ofText?_scientific`).

Besides digits there are few characters in these texts (`Value.mem_literal_cases`).
-/

namespace Calculator

/-! ### Integers -/

namespace Text

/-- What there is besides digits in the texts of values: signs, the point, the letter of exponents,
and the letters of `inf` and `nan`. -/
def marks : List Char := ['+', '-', '.', 'e', 'i', 'n', 'f', 'a']

theorem mem_withSign_cases {negative : Bool} {text : List Char} {c : Char}
    (h : c ∈ withSign negative text) : c = '-' ∨ c ∈ text := by
  cases negative with
  | false => exact .inr h
  | true => exact List.mem_cons.1 h

theorem withSign_inj {negative other : Bool} {text text' : List Char} (h : '-' ∉ text)
    (h' : '-' ∉ text') (heq : withSign negative text = withSign other text') :
    negative = other ∧ text = text' := by
  cases negative <;> cases other
  · exact ⟨rfl, heq⟩
  · obtain rfl : text = '-' :: text' := heq
    exact absurd List.mem_cons_self h
  · obtain rfl : '-' :: text = text' := heq
    exact absurd List.mem_cons_self h'
  · exact ⟨rfl, (List.cons.inj heq).2⟩

/-- **No two integers have one text.** -/
theorem integer_injective : Function.Injective integer := by
  intro m n h
  have hminus : ∀ n : Nat, '-' ∉ digits n := fun n hmem ↦ by
    cases isDigit_of_mem_digits hmem
  obtain ⟨hsign, hdigits⟩ := withSign_inj (hminus _) (hminus _) h
  have habs := congrArg ofDigits hdigits
  rw [ofDigits_digits, ofDigits_digits] at habs
  have hneg := decide_eq_decide.1 hsign
  omega

end Text

/-! ### Decimals -/

namespace Decimal

/-- A digit, a fraction if there are more of them, and an exponent behind its sign. -/
theorem ofText?_of_exponent {c : Char} {cs exponent : List Char}
    (hdigits : ∀ d ∈ c :: cs, d.isDigit = true) (hexponent : ∀ d ∈ exponent, d.isDigit = true)
    (negative : Bool) :
    ofText? (c :: (if cs.isEmpty then [] else '.' :: cs) ++
        'e' :: (if negative then '-' else '+') :: exponent) =
      some ⟨Text.ofDigits (c :: cs),
        Double.signed negative (Text.ofDigits exponent) - cs.length⟩ := by
  obtain ⟨hc, hcs⟩ := List.forall_mem_cons.1 hdigits
  have he : 'e'.isDigit = false := rfl
  cases cs with
  | nil => cases negative <;> simpa [ofText?, hc, he, Double.signed] using hexponent
  | cons d cs =>
    -- the fraction goes up to the exponent
    have hends : ∀ rest, ∀ a, ('e' :: rest).head? = some a → a.isDigit = false := by
      rintro rest a ha
      obtain rfl := Option.some.inj ha
      exact he
    have htake : ∀ rest, (d :: (cs ++ 'e' :: rest)).takeWhile Char.isDigit = d :: cs :=
      fun rest ↦ takeWhile_append_of_ends hcs (hends rest)
    have hdrop : ∀ rest, (d :: (cs ++ 'e' :: rest)).dropWhile Char.isDigit = 'e' :: rest :=
      fun rest ↦ dropWhile_append_of_ends hcs (hends rest)
    have hpoint : '.'.isDigit = false := rfl
    cases negative <;> simpa [ofText?, hc, hpoint, htake, hdrop, Double.signed] using hexponent

/-- **Digits with an exponent are read as the decimal.** -/
theorem ofText?_scientific (decimal : Decimal) : ofText? decimal.scientific = some decimal := by
  obtain ⟨c, cs, hds⟩ := List.exists_cons_of_ne_nil (Text.digits_ne_nil decimal.digits)
  have hdigits : ∀ d ∈ c :: cs, d.isDigit = true := fun d hd ↦
    Text.isDigit_of_mem_digits (hds ▸ hd)
  have hexponent : ∀ d ∈ List.replicate (2 - (Text.digits decimal.leading.natAbs).length) '0' ++
      Text.digits decimal.leading.natAbs, d.isDigit = true := List.forall_mem_append.2
    ⟨fun d ↦ isDigit_of_mem_zeros, fun d ↦ Text.isDigit_of_mem_digits⟩
  have hread := ofText?_of_exponent hdigits hexponent (decimal.leading < 0)
  have hleading : decimal.leading - cs.length = decimal.exponent := by
    rw [leading, hds, List.length_cons]
    omega
  rw [← hds, Text.ofDigits_digits, Text.ofDigits_zeros_append, Text.ofDigits_digits,
    Double.signed_natAbs, hleading] at hread
  rw [← hread, scientific, hds]
  simp

/-- **What is written of a decimal is read as a decimal that rounds alike**, and begins with a
digit. -/
theorem exists_ofText?_write (decimal : Decimal) :
    (∃ c rest, decimal.write = c :: rest ∧ c.isDigit = true) ∧
      ∃ read, ofText? decimal.write = some read ∧
        ∀ negative, Double.ofDecimal negative read = Double.ofDecimal negative decimal := by
  rw [write]
  split
  · obtain ⟨whole, fraction, htext, hne, hwhole, hfraction, hread⟩ := decimal.isSpelled_positional
    have hfits : (Piece.decimal whole fraction).Fits [] :=
      .decimal hne hwhole hfraction (by rintro _ ⟨⟩)
    rw [htext]
    exact ⟨exists_append_eq_cons hne hwhole _, _, Numeral.decimalOfText?_of_decimal hfits, hread⟩
  · refine ⟨?_, decimal, decimal.ofText?_scientific, fun _ ↦ rfl⟩
    obtain ⟨c, cs, hds⟩ := List.exists_cons_of_ne_nil (Text.digits_ne_nil decimal.digits)
    have hc : c.isDigit = true := Text.isDigit_of_mem_digits (hds ▸ List.mem_cons_self)
    rw [scientific, hds]
    exact ⟨c, _, rfl, hc⟩

theorem mem_write_cases {decimal : Decimal} {c : Char} (h : c ∈ decimal.write) :
    c.isDigit = true ∨ c ∈ Text.marks := by
  rw [write] at h
  split at h
  · obtain ⟨whole, fraction, htext, -, hwhole, hfraction, -⟩ := decimal.isSpelled_positional
    rw [htext] at h
    rcases List.mem_append.1 h with h | h
    · exact .inl (hwhole c h)
    · rcases List.mem_cons.1 h with rfl | h
      · exact .inr (by decide)
      · exact .inl (hfraction c h)
  · rw [scientific] at h
    simp only [List.mem_append, List.mem_cons] at h
    rcases h with ((h | h) | rfl | h | h) | h
    · exact .inl (Text.isDigit_of_mem_digits (List.mem_of_mem_take h))
    · split at h
      · cases h
      · rcases List.mem_cons.1 h with rfl | h
        · exact .inr (by decide)
        · exact .inl (Text.isDigit_of_mem_digits (List.mem_of_mem_tail h))
    · exact .inr (by decide)
    · split at h <;> (subst h; exact .inr (by decide))
    · exact .inl (isDigit_of_mem_zeros h)
    · exact .inl (Text.isDigit_of_mem_digits h)

end Decimal

/-! ### Doubles -/

namespace Double

variable {decimal : Decimal} {rank : Fin magnitudeCount}

/-- The sign stays beside what a decimal rounds to. -/
theorem ofDecimal_of_false (h : ofDecimal false decimal = finite false rank) (negative : Bool) :
    ofDecimal negative decimal = finite negative rank := by
  have hunits : ∀ {num den : Nat}, ofUnits false num den = finite false rank →
      ofUnits negative num den = finite negative rank := by
    intro num den hfalse
    rw [ofUnits] at hfalse ⊢
    split at hfalse
    · next hrank =>
      obtain rfl := (Double.finite.inj hfalse).2
      exact dif_pos hrank
    · cases hfalse
  rw [ofDecimal] at h ⊢
  split at h
  · next hexponent =>
    rw [if_pos hexponent]
    exact hunits h
  · next hexponent =>
    rw [if_neg hexponent]
    exact hunits h

/-- The text of a magnitude is that of a decimal that rounds to it. -/
theorem exists_decimal_of_write (negative : Bool) (rank : Fin magnitudeCount) :
    ∃ decimal : Decimal, (finite negative rank).write = Text.withSign negative decimal.write ∧
      ofDecimal false decimal = finite false rank := by
  rw [write]
  split
  · next hzero =>
    obtain rfl : rank = ⟨0, by decide⟩ := Fin.ext hzero
    exact ⟨⟨0, 0⟩, rfl, by decide +kernel⟩
  · exact ⟨shortest rank, rfl, ofDecimal_shortest rank⟩

/-- **The text of a double is read as the double.** -/
theorem ofText?_write (x : Double) : ofText? x.write = some x := by
  match x with
  | nan => rfl
  | infinite false => rfl
  | infinite true => rfl
  | finite negative rank =>
    obtain ⟨decimal, htext, hrounds⟩ := exists_decimal_of_write negative rank
    obtain ⟨⟨c, rest, hfirst, hdigit⟩, read, hread, hsame⟩ := decimal.exists_ofText?_write
    -- the words begin with letters
    have hunsigned : ofUnsignedText? negative decimal.write = some (finite negative rank) := by
      have hword : ∀ d word, d.isDigit = false → decimal.write ≠ d :: word := by
        rintro d word hd heq
        rw [hfirst] at heq
        rw [(List.cons.inj heq).1, hd] at hdigit
        cases hdigit
      rw [ofUnsignedText?, if_neg (hword 'n' _ rfl), if_neg (hword 'i' _ rfl), hread,
        Option.map_some, hsame, ofDecimal_of_false hrounds]
    rw [htext]
    cases negative with
    | true => exact hunsigned
    | false =>
      show ofText? decimal.write = _
      rw [ofText?.eq_def]
      split
      · next text heq =>
        rw [hfirst] at heq
        rw [(List.cons.inj heq).1] at hdigit
        cases hdigit
      · exact hunsigned

/-- **No two doubles have one text.** -/
theorem write_injective : Function.Injective write := by
  intro x y h
  have hread := ofText?_write x
  rw [h, ofText?_write] at hread
  exact (Option.some.inj hread).symm

theorem mem_write_cases {x : Double} {c : Char} (h : c ∈ x.write) :
    c.isDigit = true ∨ c ∈ Text.marks := by
  have hnan : ['n', 'a', 'n'] ⊆ Text.marks := by decide
  have hinf : ['i', 'n', 'f'] ⊆ Text.marks := by decide
  cases x with
  | nan => exact .inr (hnan h)
  | infinite negative =>
    rcases Text.mem_withSign_cases h with rfl | h
    · exact .inr (by decide)
    · exact .inr (hinf h)
  | finite negative rank =>
    obtain ⟨decimal, htext, -⟩ := exists_decimal_of_write negative rank
    rw [htext] at h
    rcases Text.mem_withSign_cases h with rfl | h
    · exact .inr (by decide)
    · exact Decimal.mem_write_cases h

end Double

/-! ### Values -/

namespace Value

/-- Integers and doubles are each known by their text. -/
theorem literal_inj {value other : Value}
    (hkind : (Lexeme.literal value).kind = (Lexeme.literal other).kind)
    (heq : value.literal = other.literal) : value = other := by
  match value, other with
  | int _, int _ => exact congrArg int (Text.integer_injective heq)
  | float _, float _ => exact congrArg float (Double.write_injective heq)
  | int _, float _ => cases hkind
  | float _, int _ => cases hkind

/-- **A literal is made of digits and marks.** -/
theorem mem_literal_cases {value : Value} {c : Char} (h : c ∈ value.literal) :
    c.isDigit = true ∨ c ∈ Text.marks := by
  match value with
  | int n =>
    rcases Text.mem_withSign_cases h with rfl | h
    · exact .inr (by decide)
    · exact .inl (Text.isDigit_of_mem_digits h)
  | float x => exact Double.mem_write_cases h

end Value

end Calculator
