import Calculator.Proofs.Calculation.Answers
import Calculator.Proofs.Tokens.FirstLine

/-!
# The limits on integers

There are two limits, on the digits of an integer that is read and of one that is written, and they
are all that keeps a source from an answer (`Source.text_eq_error_iff_too_long`). The one is met in
lexing, behind text that is lexed without a failure and whatever stands behind the integer
(`Source.ReachesLongLiteral`). The other is met when all is calculated (`Source.HasLongResult`).

In between nothing is limited: not the digits of a numeral with a point, not the integers that
evaluation comes by, and no message or report on a failure.
-/

namespace Calculator.Source

/-- Behind text that is lexed without a failure stands an integer with so many digits, more than are
read. What stands behind the integer may be anything that it does not go on with. -/
def ReachesLongLiteral (source : Source) (length : Nat) : Prop :=
  ∃ before digits after, source.text.toList = before ++ (digits ++ after) ∧
    (∃ tokens, (Source.mk source.name (.ofList before)).lex = .ok { tokens }) ∧
    (∀ c, before.getLast? = some c → c.isDigit = false ∧ c ≠ '.') ∧
    (∀ c ∈ digits, c.isDigit = true) ∧
    (∀ c, after.head? = some c → c.isDigit = false ∧ c ≠ '.') ∧
    digitLimit < digits.length ∧ length = digits.length

/-- The result is an integer with more digits than are written. -/
def HasLongResult (source : Source) : Prop :=
  ∃ number n, source.calculate.result = .ok number ∧ number.value? = some (.int n) ∧
    10 ^ digitLimit ≤ n.natAbs

variable {source : Source} {length : Nat} {fault : Fault}

theorem ReachesLongLiteral.hasLongInteger (h : source.ReachesLongLiteral length) :
    HasLongInteger source.text.toList length := by
  obtain ⟨before, digits, after, htext, ⟨tokens, hlex⟩, hlast, hdigits, hends, hlong, rfl⟩ := h
  obtain ⟨passed, hpassed, hall, -⟩ := exists_pieces_of_lex hlex
  rw [String.toList_ofList] at hpassed
  obtain ⟨later, hlater⟩ := exists_splits after
  have hne : digits ≠ [] := List.ne_nil_of_length_pos (Nat.zero_lt_of_lt hlong)
  have hfits : (Piece.integer digits).Fits after := .integer hne hdigits hends
  rw [htext]
  exact ⟨passed, digits, later, hpassed.append (.cons hfits hlater) hlast, hall, hlong, rfl⟩

theorem reachesLongLiteral_of_hasLongInteger (h : HasLongInteger source.text.toList length) :
    source.ReachesLongLiteral length := by
  obtain ⟨passed, digits, later, hsplits, hall, hlong, rfl⟩ := h
  have htext := hsplits.text_eq
  rw [List.flatMap_append, List.flatMap_cons] at htext
  have hbefore : Splits
      (Source.mk source.name (.ofList (passed.flatMap Piece.spelling))).text.toList passed := by
    rw [String.toList_ofList]
    exact hsplits.of_append
  obtain ⟨after, hrest, hfits, hafter⟩ :=
    (lex_of_forall_isPassed hsplits hall).1.of_cons
  obtain ⟨d, rest, hdigit⟩ := hfits.exists_digit_of_integer
  rw [hafter.text_eq] at hfits hdigit
  refine ⟨passed.flatMap Piece.spelling, digits, later.flatMap Piece.spelling, htext,
    ⟨_, lex_of_splits hbefore hall⟩, ?_, ?_, ?_, hlong, rfl⟩
  · refine hsplits.getLast?_of_digit (fun piece hpiece ↦ (hall piece hpiece).2) ?_ hdigit.2
    rw [List.flatMap_cons, hdigit.1]
    rfl
  · cases hfits with
    | integer _ hdigits => exact hdigits
  · cases hfits with
    | integer _ _ hends => exact hends

/-- **What lexing gives up at** is told by the text alone. -/
theorem reachesLongLiteral_iff :
    source.ReachesLongLiteral length ↔ HasLongInteger source.text.toList length :=
  ⟨ReachesLongLiteral.hasLongInteger, reachesLongLiteral_of_hasLongInteger⟩

/-- **A calculation is given up at a literal** and for nothing else: evaluation never is. -/
theorem result_eq_fault_iff : source.calculate.result = .error (.fault fault) ↔
    ∃ length, source.ReachesLongLiteral length ∧ fault = .literalTooLong length := by
  constructor
  · intro h
    rcases source.calculate_cases with ⟨length, hlong, hresult⟩ | ⟨failure, -, hresult⟩ |
      ⟨number, value, -, hresult⟩
    · exact ⟨length, reachesLongLiteral_iff.2 hlong,
        Stop.fault.inj (Except.error.inj (h.symm.trans hresult))⟩
    · cases h.symm.trans hresult
    · cases h.symm.trans hresult
  · rintro ⟨length, hlong, rfl⟩
    exact calculate_of_hasLongInteger hlong.hasLongInteger

/-- A source exceeds a limit if it reaches a literal or has a result that is too long. -/
theorem exceeds_iff : source.Exceeds fault ↔
    (∃ length, source.ReachesLongLiteral length ∧ fault = .literalTooLong length) ∨
      source.HasLongResult ∧ fault = .resultTooLong := by
  constructor
  · rintro (hlong | ⟨hresult, hvalue, hlong⟩)
    · exact .inl ⟨_, reachesLongLiteral_iff.2 hlong, rfl⟩
    · exact .inr ⟨⟨_, _, hresult, hvalue, hlong⟩, rfl⟩
  · rintro (⟨length, hlong, rfl⟩ | ⟨⟨number, n, hresult, hvalue, hlong⟩, rfl⟩)
    · exact .literal hlong.hasLongInteger
    · exact .result hresult hvalue hlong

theorem exists_message_and_report {failure : Failure}
    (h : source.calculate.result = .error (.failure failure)) :
    (∃ message, failure.message = .ok message) ∧ ∃ report, failure.report = .ok report := by
  rcases source.calculate_cases with ⟨length, -, hresult⟩ | ⟨other, hreportable, hresult⟩ |
    ⟨number, value, -, hresult⟩
  · cases h.symm.trans hresult
  · obtain rfl := Stop.failure.inj (Except.error.inj (h.symm.trans hresult))
    exact ⟨hreportable.exists_message, hreportable.exists_report⟩
  · cases h.symm.trans hresult

/-- A source has an answer exactly if it goes beyond neither limit. -/
theorem exists_text_iff : (∃ answer, source.calculate.text = .ok answer) ↔
    (∀ length, ¬ source.ReachesLongLiteral length) ∧ ¬ source.HasLongResult := by
  constructor
  · rintro ⟨answer, hanswer⟩
    refine ⟨fun length hlong ↦ ?_, fun hlong ↦ ?_⟩
    · have hexceeds := exceeds_iff.2 (.inl ⟨length, hlong, rfl⟩)
      cases hanswer.symm.trans (text_eq_error_iff.2 hexceeds)
    · have hexceeds := exceeds_iff.2 (.inr ⟨hlong, rfl⟩)
      cases hanswer.symm.trans (text_eq_error_iff.2 hexceeds)
  · rintro ⟨hliteral, hresult⟩
    rcases source.answer_cases .ansi with ⟨-, hanswer, -⟩ | ⟨fault, hexceeds, -⟩
    · exact hanswer
    · rcases exceeds_iff.1 hexceeds with ⟨length, hlong, -⟩ | ⟨hlong, -⟩
      · exact absurd hlong (hliteral length)
      · exact absurd hlong hresult

/-- Doubles are always written. -/
theorem exists_text_of_float {number : Number} {x : Double}
    (hresult : source.calculate.result = .ok number) (hvalue : number.value? = some (.float x)) :
    ∃ answer, source.calculate.text = .ok answer := by
  refine ⟨.ofList (Value.float x).result, ?_⟩
  rw [Calculation.text, hresult]
  show number.text = _
  rw [Number.text, hvalue]
  rfl

/-- **What has no answer is too long.** A source is given up if it reaches an integer literal with
more digits than are read, whatever stands behind it, or if its result is an integer with more
digits than are written, and in all other cases it has an answer. Evaluation is never given up, a
double is always written, and every failure has a message and a report. -/
theorem text_eq_error_iff_too_long (source : Source) :
    (∀ fault, source.calculate.text = .error fault ↔
        (∃ length, source.ReachesLongLiteral length ∧ fault = .literalTooLong length) ∨
          source.HasLongResult ∧ fault = .resultTooLong) ∧
      ((∃ answer, source.calculate.text = .ok answer) ↔
        (∀ length, ¬ source.ReachesLongLiteral length) ∧ ¬ source.HasLongResult) ∧
      (∀ fault, source.calculate.result = .error (.fault fault) ↔
        ∃ length, source.ReachesLongLiteral length ∧ fault = .literalTooLong length) ∧
      (∀ number x, source.calculate.result = .ok number → number.value? = some (.float x) →
        ∃ answer, source.calculate.text = .ok answer) ∧
      ∀ failure, source.calculate.result = .error (.failure failure) →
        (∃ message, failure.message = .ok message) ∧ ∃ report, failure.report = .ok report := by
  refine ⟨fun fault ↦ text_eq_error_iff.trans exceeds_iff, exists_text_iff,
    fun fault ↦ result_eq_fault_iff, fun number x ↦ exists_text_of_float,
    fun failure ↦ exists_message_and_report⟩

end Calculator.Source
