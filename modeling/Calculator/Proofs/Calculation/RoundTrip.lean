import Mathlib.Control.Monad.Basic
import Calculator.Proofs.Arithmetic.Decimals
import Calculator.Proofs.Calculation.Answers
import Calculator.Proofs.Syntax.Composition

/-!
# Results read back

A result is the text of a source again, unless it has an exponent or is one of the words for
infinities and for what is no number. Calculated once more it gives the same text
(`Source.calculate_reads_back`), though not always the same value: a double that is written as an
integer is read as that integer (`Value.ReadsBack`).

What is written in front of the digits is a minus at most, and the digits are a numeral. The numeral
is a literal, and behind a minus it is multiplied by minus one (`Source.calculate_of_withSign`). So
it remains to read the two kinds of numerals, integers (`Source.calculate_of_integer`) and
positional digits (`Source.calculate_of_positional`).
-/

namespace Calculator

namespace Source

variable {source : Source} {body : List Token} {stop : Token} {expr : Expr} {piece : Piece}
  {value signed : Value}

/-- What the grammar derives from the tokens of a source is what is evaluated. -/
theorem calculate_of_derives (hlex : source.lex = .ok { tokens := body ++ [stop] })
    (hexpr : Derives .expr body expr) (hnesting : Scan.start.nesting body ≤ nestingBudget)
    (hdepth : 2 * expr.depth ≤ Expr.depthBudget) :
    source.calculate.result = expr.result .program := by
  obtain ⟨hbody, hstop⟩ := kinds_of_lex hlex
  rw [calculate, hlex]
  show (Calculation.ofOutcome _ (Expr.parse (body ++ [stop]))).result = _
  rw [parse_of_derives hbody hstop hexpr hnesting]
  exact Expr.evaluate_eq_result hdepth

theorem exists_lex_of_splits {pieces : List Piece} (hsplits : Splits source.text.toList pieces)
    (hpassed : ∀ piece ∈ pieces, piece.IsPassed) :
    ∃ body stop, source.lex = .ok { tokens := body ++ [stop] } ∧
      body.map Token.lexeme = pieces.filterMap Piece.lexeme? :=
  ⟨_, _, lex_of_splits hsplits hpassed, Cursor.map_lexeme_tokens _ _⟩

/-- A token that says a literal is a factor, and nests nothing. -/
theorem derives_literal {token : Token} (h : token.lexeme = .literal value) :
    Derives .factor [token] (.number token) ∧ Scan.start.nesting [token] = 0 := by
  have hkind : token.kind = .int ∨ token.kind = .float := by
    rw [Token.kind, h]
    cases value with
    | int n => exact .inl rfl
    | float x => exact .inr rfl
  have hstep : Scan.step? ⟨true, []⟩ token.kind = some ⟨false, []⟩ := by
    rcases hkind with hkind | hkind <;> rw [hkind] <;> rfl
  exact ⟨.literal hkind, Scan.nesting_singleton hstep⟩

/-- A numeral is calculated to its value. -/
theorem calculate_of_numeral (htext : source.text.toList = piece.spelling)
    (hfits : piece.Fits []) (hpassed : piece.IsPassed)
    (hlexeme : piece.lexeme? = some (.literal value)) :
    ∃ number, source.calculate.result = .ok number ∧ number.value? = some value := by
  have hsplits : Splits source.text.toList [piece] := by
    rw [htext, ← List.append_nil piece.spelling]
    exact .cons hfits .nil
  obtain ⟨body, stop, hlex, hbody⟩ :=
    exists_lex_of_splits hsplits (List.forall_mem_singleton.2 hpassed)
  rw [List.filterMap_cons, hlexeme] at hbody
  obtain ⟨token, rfl, htoken⟩ := List.map_eq_singleton_iff.1 hbody
  obtain ⟨hderives, hnesting⟩ := derives_literal htoken
  have hresult := calculate_of_derives hlex (.term (.factor hderives))
    (hnesting ▸ Nat.zero_le _) (show 2 * 1 ≤ Expr.depthBudget by decide)
  refine ⟨_, hresult, ?_⟩
  show token.lexeme.value? = some value
  rw [htoken, Lexeme.value?_literal]

/-- A numeral behind a minus is calculated to its value times minus one. -/
theorem calculate_of_negated_numeral (htext : source.text.toList = '-' :: piece.spelling)
    (hfits : piece.Fits []) (hpassed : piece.IsPassed)
    (hlexeme : piece.lexeme? = some (.literal value))
    (hsigned : Operation.mul.apply value (.int (-1)) = .ok signed) :
    ∃ number, source.calculate.result = .ok number ∧ number.value? = some signed := by
  have hminus : (Piece.symbol '-' .minus).Fits (piece.spelling ++ []) := .symbol rfl
  have hsplits : Splits source.text.toList [.symbol '-' .minus, piece] := by
    rw [htext, ← List.append_nil piece.spelling]
    exact .cons hminus (.cons hfits .nil)
  have hall : ∀ other ∈ [.symbol '-' .minus, piece], other.IsPassed :=
    List.forall_mem_cons.2 ⟨⟨trivial, fun _ ↦ Piece.noConfusion⟩,
      List.forall_mem_singleton.2 hpassed⟩
  obtain ⟨body, stop, hlex, hbody⟩ := exists_lex_of_splits hsplits hall
  rw [List.filterMap_cons, List.filterMap_cons, hlexeme] at hbody
  obtain ⟨sign, others, rfl, hsign, hothers⟩ := List.map_eq_cons_iff.1 hbody
  obtain ⟨token, rfl, htoken⟩ := List.map_eq_singleton_iff.1 hothers
  obtain ⟨hderives, hnesting⟩ := derives_literal htoken
  have hkind : sign.kind = .minus := congrArg Lexeme.kind hsign
  have hdepth : Scan.start.nesting [sign, token] ≤ nestingBudget := by
    have := hderives.nesting_signed_le (.inr hkind)
    exact Nat.le_trans this (hnesting ▸ by decide)
  have hresult := calculate_of_derives hlex (.term (.factor (.signed (.inr hkind) hderives)))
    hdepth (show 2 * 2 ≤ Expr.depthBudget by decide)
  have hvalue : token.lexeme.value? = some value := by rw [htoken, Lexeme.value?_literal]
  have hoperand : (Expr.number token).result .program =
    .ok ⟨token.lexeme.value?, token.extent, .program⟩ := rfl
  rw [Expr.result_unary_of_ok hoperand, hkind, Number.signed, if_pos rfl,
    Number.combine_of_apply hvalue rfl hsigned] at hresult
  exact ⟨_, hresult, rfl⟩

/-- A numeral with a sign in front of it, or without, is calculated to the value with that sign. -/
theorem calculate_of_withSign {negative : Bool}
    (htext : source.text.toList = Text.withSign negative piece.spelling) (hfits : piece.Fits [])
    (hpassed : piece.IsPassed) (hlexeme : piece.lexeme? = some (.literal value))
    (hsigned : if negative then Operation.mul.apply value (.int (-1)) = .ok signed
      else value = signed) :
    ∃ number, source.calculate.result = .ok number ∧ number.value? = some signed := by
  cases negative with
  | false =>
    obtain rfl : value = signed := hsigned
    exact calculate_of_numeral htext hfits hpassed hlexeme
  | true => exact calculate_of_negated_numeral htext hfits hpassed hlexeme hsigned

/-- **The text of an integer is calculated to the integer**, unless it is too long to be read. -/
theorem calculate_of_integer {n : Int} (htext : source.text.toList = Text.integer n)
    (hshort : (Text.digits n.natAbs).length ≤ digitLimit) :
    ∃ number, source.calculate.result = .ok number ∧ number.value? = some (.int n) := by
  have hfits : (Piece.integer (Text.digits n.natAbs)).Fits [] :=
    .integer (Text.digits_ne_nil _) (fun c ↦ Text.isDigit_of_mem_digits) (by rintro _ ⟨⟩)
  have hlexeme : (Piece.integer (Text.digits n.natAbs)).lexeme? =
      some (.literal (.int n.natAbs)) := by
    rw [Piece.lexeme?, Text.ofDigits_digits]
  have hspelled : source.text.toList =
      Text.withSign (n < 0) (Piece.integer (Text.digits n.natAbs)).spelling := htext
  refine calculate_of_withSign hspelled hfits ⟨hshort, fun _ ↦ Piece.noConfusion⟩ hlexeme ?_
  by_cases hneg : n < 0
  · have hn : (n.natAbs : Int) * -1 = n := by omega
    rw [if_pos (decide_eq_true hneg)]
    exact congrArg (fun n ↦ Except.ok (Value.int n)) hn
  · have hn : (n.natAbs : Int) = n := by omega
    rw [if_neg (mt of_decide_eq_true hneg), hn]

/-- **The positional text of a double is calculated to the double.** -/
theorem calculate_of_positional {negative : Bool} {rank : Fin Double.magnitudeCount}
    (htext : source.text.toList = Text.withSign negative (Double.shortest rank).positional) :
    ∃ number, source.calculate.result = .ok number ∧
      number.value? = some (.float (.finite negative rank)) := by
  obtain ⟨whole, fraction, hpositional, hne, hwhole, hfraction, hread⟩ :=
    (Double.shortest rank).isSpelled_positional
  have hfits : (Piece.decimal whole fraction).Fits [] :=
    .decimal hne hwhole hfraction (by rintro _ ⟨⟩)
  have hlexeme : (Piece.decimal whole fraction).lexeme? =
      some (.literal (.float (.finite false rank))) := by
    rw [Piece.lexeme?, Numeral.ofText?_of_decimal hfits, hread, Double.ofDecimal_shortest]
    rfl
  have hspelled : source.text.toList =
      Text.withSign negative (Piece.decimal whole fraction).spelling :=
    htext.trans (congrArg (Text.withSign negative) hpositional)
  refine calculate_of_withSign hspelled hfits ⟨trivial, fun _ ↦ Piece.noConfusion⟩ hlexeme ?_
  cases negative with
  | false => exact rfl
  | true =>
    obtain ⟨one, hone, hmul⟩ := Double.exists_ofInt?_neg_one
    have hcombined : Operation.mul.combine? (.float (.finite false rank)) (.int (-1)) =
        some (.float (.finite true rank)) := by
      rw [Operation.combine?, hone]
      exact congrArg (fun x ↦ some (Value.float x)) (hmul rank)
    rw [if_pos rfl, Operation.apply, hcombined]
    rfl

end Source

/-! ### Texts of values -/

namespace Value

/-- The value has a result without an exponent: it is an integer, or a double that is written as
one, or a double whose leading digit stands from the fourth place behind the point to the 16th in
front of it. -/
inductive IsPlain : Value → Prop where
  | int (n : Int) : IsPlain (int n)
  | integral {x : Double} {n : Int} (hinteger : x.toInt? = some n) (hsmall : n.natAbs < 2 ^ 53) :
    IsPlain (float x)
  | positional (negative : Bool) {rank : Fin Double.magnitudeCount}
      (hle : -4 ≤ (Double.shortest rank).leading) (hlt : (Double.shortest rank).leading < 16) :
    IsPlain (float (.finite negative rank))

/-- What is read of the result of a value. Integers come back as they are, and doubles that are
written as integers come back as integers, also the two zeros. Other doubles come back as they are:
integers from `2 ^ 53` on, which are written with a point and a zero behind it, and doubles with a
fraction. -/
inductive ReadsBack : Value → List Char → Value → Prop where
  | int (n : Int) : ReadsBack (int n) (Text.integer n) (int n)
  | integral {x : Double} {n : Int} (hinteger : x.toInt? = some n) (hsmall : n.natAbs < 2 ^ 53) :
    ReadsBack (float x) (Text.integer n) (int n)
  | large {negative : Bool} {rank : Fin Double.magnitudeCount} {n : Int} {front : List Char}
      (hinteger : (Double.finite negative rank).toInt? = some n) (hlarge : 2 ^ 53 ≤ n.natAbs)
      (htext : Text.withSign negative (Double.shortest rank).positional = front ++ ['.', '0']) :
    ReadsBack (float (.finite negative rank)) (front ++ ['.', '0']) (float (.finite negative rank))
  | fractional {negative : Bool} {rank : Fin Double.magnitudeCount}
      (hinteger : (Double.finite negative rank).toInt? = none) :
    ReadsBack (float (.finite negative rank))
      (Text.withSign negative (Double.shortest rank).positional) (float (.finite negative rank))

variable {value again : Value} {text : List Char}

theorem asInteger?_eq_some_iff {x : Double} {n : Int} :
    asInteger? x = some n ↔ x.toInt? = some n ∧ n.natAbs < 2 ^ 53 := by
  rw [asInteger?, Option.filter_eq_some_iff, decide_eq_true_iff]
  exact Iff.rfl

/-- A double that is not written as an integer is not zero, and has the digits of its decimal. -/
theorem result_of_asInteger?_eq_none {negative : Bool} {rank : Fin Double.magnitudeCount}
    (h : asInteger? (.finite negative rank) = none) :
    result (float (.finite negative rank)) =
      Text.withSign negative (Double.shortest rank).write := by
  have hrank : rank.val ≠ 0 := by
    intro hzero
    have hinteger := asInteger?_eq_some_iff.2
      ⟨Double.toInt?_of_val_eq_zero negative hzero, by decide⟩
    cases h.symm.trans hinteger
  rw [result, h]
  show Double.write _ = _
  rw [Double.write, if_neg hrank]

theorem exists_readsBack_of_asInteger? {x : Double} {n : Int} (h : asInteger? x = some n) :
    ∃ again, ReadsBack (float x) (result (float x)) again := by
  obtain ⟨hinteger, hsmall⟩ := asInteger?_eq_some_iff.1 h
  refine ⟨int n, ?_⟩
  rw [result, h]
  exact .integral hinteger hsmall

/-- A double that is not written as an integer is read back as it is. -/
theorem readsBack_of_asInteger?_eq_none {negative : Bool} {rank : Fin Double.magnitudeCount}
    (h : asInteger? (.finite negative rank) = none)
    (hlt : (Double.shortest rank).leading < 16) :
    ReadsBack (float (.finite negative rank))
      (Text.withSign negative (Double.shortest rank).positional)
      (float (.finite negative rank)) := by
  rcases hinteger : (Double.finite negative rank).toInt? with - | n
  · exact .fractional hinteger
  · have hlarge : 2 ^ 53 ≤ n.natAbs := by
      by_contra hsmall
      have hsome := asInteger?_eq_some_iff.2 ⟨hinteger, Nat.lt_of_not_le hsmall⟩
      cases h.symm.trans hsome
    have hexponent := Double.exponent_nonneg (Double.units_of_toInt? hinteger) hlarge hlt
    obtain ⟨front, hfront⟩ : ∃ front, Text.withSign negative
        (Double.shortest rank).positional = front ++ ['.', '0'] := by
      rw [Decimal.positional, if_pos hexponent]
      cases negative with
      | false => exact ⟨_, rfl⟩
      | true => exact ⟨'-' :: _, rfl⟩
    rw [hfront]
    exact .large hinteger hlarge hfront

/-- **A plain value has a result that can be read back.** -/
theorem IsPlain.exists_readsBack (h : value.IsPlain) :
    ∃ again, value.ReadsBack value.result again := by
  cases h with
  | int n => exact ⟨_, .int n⟩
  | integral hinteger hsmall =>
    exact exists_readsBack_of_asInteger? (asInteger?_eq_some_iff.2 ⟨hinteger, hsmall⟩)
  | @positional negative rank hle hlt =>
    rcases hvalue : asInteger? (.finite negative rank) with - | n
    · have hwrite : (Double.shortest rank).write = (Double.shortest rank).positional :=
        if_pos ⟨hle, hlt⟩
      rw [result_of_asInteger?_eq_none hvalue, hwrite]
      exact ⟨_, readsBack_of_asInteger?_eq_none hvalue hlt⟩
    · exact exists_readsBack_of_asInteger? hvalue

/-- Zero below zero is written without its sign, and so it is read as the integer. -/
example : (float (.finite true ⟨0, by decide⟩)).result = ['0'] := by decide +kernel

/-- A text that is read back has digits, points and minus signs only. -/
theorem ReadsBack.not_mem (h : value.ReadsBack text again) {c : Char} (hdigit : c.isDigit = false)
    (hpoint : c ≠ '.') (hminus : c ≠ '-') : c ∉ text := by
  have hsign : ∀ {negative : Bool} {digits : List Char}, c ∉ digits →
      c ∉ Text.withSign negative digits := by
    rintro (- | -) digits hdigits
    · exact hdigits
    · exact fun hc ↦ (List.mem_cons.1 hc).elim hminus hdigits
  have hinteger : ∀ n : Int, c ∉ Text.integer n := fun n ↦ hsign fun hc ↦ by
    simp [Text.isDigit_of_mem_digits hc] at hdigit
  have hpositional : ∀ decimal : Decimal, c ∉ decimal.positional := fun decimal ↦
    decimal.isSpelled_positional.not_mem hdigit hpoint
  cases h with
  | int n => exact hinteger n
  | integral => exact hinteger _
  | large _ _ htext =>
    rw [← htext]
    exact hsign (hpositional _)
  | fractional => exact hsign (hpositional _)

/-- What is not plain has an exponent or is one of the words. -/
theorem mem_result_of_not_isPlain (h : ¬ value.IsPlain) :
    'e' ∈ value.result ∨ value.result = ['n', 'a', 'n'] ∨
      ∃ negative, value.result = Text.withSign negative ['i', 'n', 'f'] := by
  match value with
  | int n => exact absurd (.int n) h
  | float .nan => exact .inr (.inl rfl)
  | float (.infinite negative) => exact .inr (.inr ⟨negative, rfl⟩)
  | float (.finite negative rank) =>
    refine .inl ?_
    rcases hvalue : asInteger? (.finite negative rank) with - | n
    · have hrange : ¬ (-4 ≤ (Double.shortest rank).leading ∧
          (Double.shortest rank).leading < 16) := fun hrange ↦
        h (.positional negative hrange.1 hrange.2)
      rw [result_of_asInteger?_eq_none hvalue, Decimal.write, if_neg hrange]
      have hmem := (Double.shortest rank).mem_scientific
      cases negative with
      | false => exact hmem
      | true => exact List.mem_cons_of_mem _ hmem
    · obtain ⟨hinteger, hsmall⟩ := asInteger?_eq_some_iff.1 hvalue
      exact absurd (.integral hinteger hsmall) h

/-- A result is plain if it has no exponent and is none of the words. -/
theorem isPlain_iff (value : Value) :
    value.IsPlain ↔ 'e' ∉ value.result ∧ value.result ≠ ['i', 'n', 'f'] ∧
      value.result ≠ ['-', 'i', 'n', 'f'] ∧ value.result ≠ ['n', 'a', 'n'] := by
  constructor
  · intro h
    obtain ⟨again, hback⟩ := h.exists_readsBack
    -- all three words have an `n`
    have hn := hback.not_mem (show 'n'.isDigit = false from rfl) (by decide) (by decide)
    refine ⟨hback.not_mem (show 'e'.isDigit = false from rfl) (by decide) (by decide), ?_, ?_, ?_⟩
    all_goals
      intro hword
      rw [hword] at hn
      exact hn (by decide)
  · rintro ⟨hexponent, hinf, hminus, hnan⟩
    by_contra h
    rcases mem_result_of_not_isPlain h with hmem | hword | ⟨negative, hword⟩
    · exact hexponent hmem
    · exact hnan hword
    · cases negative with
      | false => exact hinf hword
      | true => exact hminus hword

theorem isWritable_int_iff {n : Int} :
    (int n).isWritable = true ↔ (Text.digits n.natAbs).length ≤ digitLimit := by
  rw [isWritable, decide_eq_true_iff, Nat.pow_eq, Text.digits,
    Nat.length_toDigits_le_iff (by decide) (by decide)]

theorem isWritable_of_small {n : Int} (h : n.natAbs < 2 ^ 53) : (int n).isWritable = true := by
  have hlimit : ∀ limit, 16 ≤ limit → 2 ^ 53 ≤ Nat.pow 10 limit := fun limit hle ↦
    Nat.le_trans (show 2 ^ 53 ≤ 10 ^ 16 by decide) (Nat.pow_le_pow_right (by decide) hle)
  rw [isWritable, decide_eq_true_iff]
  exact Nat.lt_of_lt_of_le h (hlimit digitLimit (by decide))

/-- **What is read of a result has the same result.** -/
theorem ReadsBack.result_eq (h : value.ReadsBack text again) (htext : text = value.result)
    (hwritable : value.isWritable = true) : again.result = text ∧ again.isWritable = true := by
  cases h with
  | int n => exact ⟨rfl, hwritable⟩
  | integral _ hsmall => exact ⟨rfl, isWritable_of_small hsmall⟩
  | large => exact ⟨htext.symm, rfl⟩
  | fractional => exact ⟨htext.symm, rfl⟩

/-- **What a result is calculated to.** -/
theorem ReadsBack.calculate (h : value.ReadsBack text again) (hwritable : value.isWritable = true)
    {source : Source} (htext : source.text.toList = text) :
    ∃ number, source.calculate.result = .ok number ∧ number.value? = some again := by
  cases h with
  | int n => exact Source.calculate_of_integer htext (isWritable_int_iff.1 hwritable)
  | integral _ hsmall =>
    exact Source.calculate_of_integer htext (isWritable_int_iff.1 (isWritable_of_small hsmall))
  | large _ _ hfront => exact Source.calculate_of_positional (htext.trans hfront.symm)
  | fractional => exact Source.calculate_of_positional htext

end Value

/-- A number is written if its value is short enough. -/
theorem Calculation.text_eq_ok_iff {calculation : Calculation} {number : Number} {value : Value}
    (hresult : calculation.result = .ok number) (hvalue : number.value? = some value)
    {shown : String} :
    calculation.text = .ok shown ↔ value.isWritable = true ∧ shown = .ofList value.result := by
  rw [text, hresult]
  show number.text = _ ↔ _
  rw [Number.text, hvalue]
  by_cases hwritable : value.isWritable = true
  · simp [writable, hwritable, eq_comm]
  · simp [writable, hwritable]

namespace Source

/-- **A result without an exponent is read back.** It is the text of a source itself, under any
name, and the calculation of that source has the same text. This holds of every result that has no
exponent and is none of the words for infinities and for what is no number: of integers, of doubles
that are written as integers and come back as such, and of the doubles with a leading digit from
the fourth place behind the point to the 16th in front of it, which come back as they are. -/
theorem calculate_reads_back {source : Source} {number : Number} {text : String}
    (hresult : source.calculate.result = .ok number) (htext : source.calculate.text = .ok text) :
    ∃ value, number.value? = some value ∧ text.toList = value.result ∧
      (value.IsPlain ↔ 'e' ∉ text.toList ∧ text ≠ "inf" ∧ text ≠ "-inf" ∧ text ≠ "nan") ∧
      ('e' ∉ text.toList → text ≠ "inf" → text ≠ "-inf" → text ≠ "nan" →
        ∀ name, (Source.mk name text).calculate.text = .ok text ∧
          ∃ again read, (Source.mk name text).calculate.result = .ok again ∧
            again.value? = some read ∧ value.ReadsBack text.toList read) := by
  obtain ⟨value, hvalue⟩ : ∃ value, number.value? = some value := by
    rcases source.calculate_cases with ⟨length, -, hother⟩ | ⟨failure, -, hother⟩ |
      ⟨other, value, hvalue, hother⟩
    · cases hresult.symm.trans hother
    · cases hresult.symm.trans hother
    · exact ⟨value, Except.ok.inj (hother.symm.trans hresult) ▸ hvalue⟩
  obtain ⟨hwritable, rfl⟩ := (Calculation.text_eq_ok_iff hresult hvalue).1 htext
  have hplain : value.IsPlain ↔ 'e' ∉ (String.ofList value.result).toList ∧
      String.ofList value.result ≠ "inf" ∧ String.ofList value.result ≠ "-inf" ∧
      String.ofList value.result ≠ "nan" := by
    have hword : ∀ word : String,
        String.ofList value.result ≠ word ↔ value.result ≠ word.toList := by
      intro word
      rw [Ne, Ne, ← String.toList_inj, String.toList_ofList]
    rw [String.toList_ofList, hword, hword, hword]
    exact value.isPlain_iff
  refine ⟨value, hvalue, String.toList_ofList, hplain, fun he hinf hminus hnan name ↦ ?_⟩
  obtain ⟨again, hback⟩ := (hplain.2 ⟨he, hinf, hminus, hnan⟩).exists_readsBack
  have hshown : (Source.mk name (.ofList value.result)).text.toList = value.result :=
    String.toList_ofList
  obtain ⟨read, hread, hagain⟩ := hback.calculate hwritable hshown
  obtain ⟨hsame, hshort⟩ := hback.result_eq rfl hwritable
  rw [String.toList_ofList]
  exact ⟨(Calculation.text_eq_ok_iff hread hagain).2 ⟨hshort, by rw [hsame]⟩, read, again, hread,
    hagain, hback⟩

/-- An eighth below zero is written with a fraction, and is read back through a sign. -/
theorem calculate_reads_back_fraction :
    (Source.mk "<stdin>" "-1/8").calculate.result =
        .ok ⟨some (.float (.finite true ⟨1020 * Double.runLength, by decide⟩)),
          stretch ⟨"<stdin>", "-1/8"⟩ (0, 4), .program⟩ ∧
      (Source.mk "<stdin>" "-1/8").calculate.text = .ok "-0.125" ∧
      (Source.mk "<stdin>" "-0.125").calculate.text = .ok "-0.125" := by
  have hresult : (Source.mk "<stdin>" "-1/8").calculate.result =
      .ok ⟨some (.float (.finite true ⟨1020 * Double.runLength, by decide⟩)),
        stretch ⟨"<stdin>", "-1/8"⟩ (0, 4), .program⟩ := by decide +kernel
  have htext : (Source.mk "<stdin>" "-1/8").calculate.text = .ok "-0.125" := by decide +kernel
  obtain ⟨value, -, -, -, hback⟩ := calculate_reads_back hresult htext
  exact ⟨hresult, htext, (hback (by decide) (by decide) (by decide) (by decide) "<stdin>").1⟩

end Source

end Calculator
