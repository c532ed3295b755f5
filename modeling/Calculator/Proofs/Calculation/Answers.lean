import Calculator.Proofs.Evaluation.Places
import Calculator.Proofs.Session.Lines
import Calculator.Proofs.Syntax.Trees
import Calculator.Proofs.Tokens.FirstCall
import Calculator.Session

/-!
# What has no answer

A calculation is answered by the text of a number or by a report on a failure. It is given up, with
neither, in two cases only, and both are a matter of how many digits integers may have:
`Source.Exceeds` says that an integer is spelled in the source with more digits than are read, or
that the result is an integer with more digits than are written. Nothing else is ever given up:
doubles may be of any length, integers may be of any size in between, nesting that is too deep is a
failure like others, and every failure of a source stands somewhere and can be reported.

A session without a trace asks for the calculation of one line after the other and shows nothing
else. So it ends at the end of the input, at the command to leave, or crashes at the first line that
exceeds a limit (`Session.Ends`).
-/

namespace Calculator

/-! ### Reports that can be written -/

/-- The failure stands somewhere, and if it has a context then that of a program as a whole. -/
structure Failure.IsReportable (failure : Failure) : Prop where
  extent : failure.extent.IsKnown
  context : ∀ problem context, failure.cause = .runtime problem context → context = .program

namespace Failure.IsReportable

variable {failure : Failure}

theorem exists_message (h : failure.IsReportable) : ∃ text, failure.message = .ok text := by
  obtain ⟨span, hspan⟩ := h.extent
  have htraceback : ∃ traceback?, failure.traceback? = .ok traceback? := by
    rw [traceback?.eq_def]
    split
    · next problem context hcause =>
      rw [h.context problem context hcause, hspan]
      exact ⟨_, rfl⟩
    · exact ⟨none, rfl⟩
  obtain ⟨traceback?, htraceback⟩ := htraceback
  rw [message, htraceback, summary, hspan]
  exact ⟨_, rfl⟩

theorem exists_report (h : failure.IsReportable) : ∃ text, failure.report = .ok text := by
  obtain ⟨text, htext⟩ := h.exists_message
  obtain ⟨span, hspan⟩ := h.extent
  rw [report, htext, hspan]
  exact ⟨_, rfl⟩

end Failure.IsReportable

theorem Failure.StandsIn.isReportable {text : List Char} {failure : Failure}
    (h : failure.StandsIn text) : failure.IsReportable := by
  obtain ⟨before, c, after, -, -, -, -, hcause, hextent⟩ := h
  refine ⟨hextent.isKnown, fun problem context hruntime ↦ ?_⟩
  cases hcause.symm.trans hruntime

theorem Token.StandsIn.isKnown {text : List Char} {token : Token} (h : token.StandsIn text) :
    token.extent.IsKnown := by
  obtain ⟨before, piece, after, -, -, -, hextent⟩ := h
  exact hextent.isKnown

theorem Token.StandsIn.exists_value {text : List Char} {token : Token} (h : token.StandsIn text)
    (hkind : token.kind = .int ∨ token.kind = .float) :
    ∃ value, token.lexeme.value? = some value := by
  obtain ⟨before, piece, after, -, -, hsays, -⟩ := h
  exact hsays.exists_value hkind

/-! ### What a calculation comes to -/

theorem Value.not_isWritable_int_iff {n : Int} :
    ¬ (Value.int n).isWritable = true ↔ 10 ^ digitLimit ≤ n.natAbs := by
  rw [isWritable, decide_eq_true_iff, Nat.pow_eq, Nat.not_lt]

/-- Of tokens of a text there is a number with a value, or a failure that can be reported. -/
theorem Calculation.ofOutcome_cases {text : List Char} {body : List Token} {stop : Token}
    (hbody : ∀ token ∈ body, token.StandsIn text) (hlexeme : stop.lexeme = .ofKind .eof)
    (hstop : stop.extent.LiesAt text.length 1) :
    (∃ failure, failure.IsReportable ∧
        (ofOutcome (body ++ [stop]) (Expr.parse (body ++ [stop]))).result =
          .error (.failure failure)) ∨
      ∃ number value, number.value? = some value ∧
        (ofOutcome (body ++ [stop]) (Expr.parse (body ++ [stop]))).result =
          .ok number := by
  have hkind : stop.kind = .eof := congrArg Lexeme.kind hlexeme
  have hkinds : ∀ token ∈ body, token.kind ≠ .eof := fun token h ↦ (hbody token h).kind_ne_eof
  rcases parse_outcome hkinds hkind with ⟨expr, hexpr, hparse⟩ | ⟨problem, token, htoken, herror⟩
  · have htokens : ∀ token ∈ expr.tokens, token.extent.IsKnown := by
      intro token htoken
      rw [hexpr.tokens_eq] at htoken
      exact (hbody token (List.mem_filter.1 htoken).1).isKnown
    have hliterals : ∀ token ∈ expr.literals, ∃ value, token.lexeme.value? = some value := by
      intro token htoken
      obtain ⟨hmem, hliteral⟩ := hexpr.kind_of_mem_literals token htoken
      exact (hbody token hmem).exists_value hliteral
    rw [hparse, ofOutcome]
    rcases Expr.evaluate_outcome hexpr.wellFormed htokens hliterals Expr.depthBudget with
      ⟨number, value, hok, hvalue⟩ | ⟨failure, hfailed, hextent, problem, hcause⟩
    · exact .inr ⟨number, value, hvalue, hok⟩
    · refine .inl ⟨failure, ⟨hextent, fun other context hother ↦ ?_⟩, hfailed⟩
      exact (Cause.runtime.inj (hcause.symm.trans hother)).2.symm
  · have hextent : token.extent.IsKnown := by
      rcases List.mem_append.1 htoken with htoken | htoken
      · exact (hbody token htoken).isKnown
      · rw [List.mem_singleton.1 htoken]
        exact hstop.isKnown
    rw [ofOutcome, herror]
    exact .inl ⟨_, ⟨hextent, fun _ _ ↦ Cause.noConfusion⟩, rfl⟩

namespace Source

variable {source : Source}

/-- **What a calculation comes to.** It is given up at an integer that is too long to be read, or
has a failure that can be reported, or has a number with a value. -/
theorem calculate_cases (source : Source) :
    (∃ length, HasLongInteger source.text.toList length ∧
        source.calculate.result = .error (.fault (.literalTooLong length))) ∨
      (∃ failure, failure.IsReportable ∧ source.calculate.result = .error (.failure failure)) ∨
      ∃ number value, number.value? = some value ∧ source.calculate.result = .ok number := by
  rw [calculate]
  rcases source.lex_cases with ⟨length, hlong, hlex⟩ | ⟨tokens, failure, hfailure, hlex⟩ |
    ⟨body, stop, hbody, hlexeme, hstop, hlex⟩
  · rw [hlex]
    exact .inl ⟨length, hlong, rfl⟩
  · rw [hlex]
    exact .inr (.inl ⟨failure, hfailure.isReportable, rfl⟩)
  · rw [hlex]
    exact .inr (Calculation.ofOutcome_cases hbody hlexeme hstop)

/-- The source goes beyond a limit on the digits of integers, and is given up for it. -/
inductive Exceeds (source : Source) : Fault → Prop where
  /-- An integer that lexing comes to has more digits than are read. -/
  | literal {length : Nat} (hlong : HasLongInteger source.text.toList length) :
    Exceeds source (.literalTooLong length)
  /-- The result is an integer that has more digits than are written. -/
  | result {number : Number} {n : Int} (hresult : source.calculate.result = .ok number)
      (hvalue : number.value? = some (.int n)) (hlong : 10 ^ digitLimit ≤ n.natAbs) :
    Exceeds source .resultTooLong

theorem calculate_of_hasLongInteger {length : Nat} (h : HasLongInteger source.text.toList length) :
    source.calculate.result = .error (.fault (.literalTooLong length)) := by
  rw [calculate, lex_of_hasLongInteger h]

/-- A failure exceeds nothing: the two limits are met before it and behind it. -/
theorem not_exceeds_of_failure {failure : Failure}
    (hresult : source.calculate.result = .error (.failure failure)) (fault : Fault) :
    ¬ source.Exceeds fault := by
  rintro (hlong | ⟨hother, -, -⟩)
  · cases hresult.symm.trans (calculate_of_hasLongInteger hlong)
  · cases hresult.symm.trans hother

theorem not_exceeds_of_isWritable {number : Number} {value : Value}
    (hresult : source.calculate.result = .ok number) (hvalue : number.value? = some value)
    (hwritable : value.isWritable = true) (fault : Fault) : ¬ source.Exceeds fault := by
  rintro (hlong | ⟨hother, hint, hlong⟩)
  · cases hresult.symm.trans (calculate_of_hasLongInteger hlong)
  · obtain rfl := Except.ok.inj (hresult.symm.trans hother)
    obtain rfl := Option.some.inj (hvalue.symm.trans hint)
    exact Value.not_isWritable_int_iff.2 hlong hwritable

theorem exceeds_of_not_isWritable {number : Number} {value : Value}
    (hresult : source.calculate.result = .ok number) (hvalue : number.value? = some value)
    (hwritable : ¬ value.isWritable = true) : source.Exceeds .resultTooLong := by
  cases value with
  | float x => exact absurd rfl hwritable
  | int n => exact .result hresult hvalue (Value.not_isWritable_int_iff.1 hwritable)

/-- **A calculation is answered unless it exceeds a limit**, by its text and in a session alike. -/
theorem answer_cases (source : Source) (style : Session.Style) :
    ((∀ fault, ¬ source.Exceeds fault) ∧ (∃ text, source.calculate.text = .ok text) ∧
        ∃ shown, Session.answer source.calculate style = .ok shown) ∨
      ∃ fault, source.Exceeds fault ∧ source.calculate.text = .error fault ∧
        Session.answer source.calculate style = .error fault := by
  rw [Calculation.text, Session.answer]
  rcases source.calculate_cases with ⟨length, hlong, hresult⟩ | ⟨failure, hfailure, hresult⟩ |
    ⟨number, value, hvalue, hresult⟩
  · rw [hresult]
    exact .inr ⟨_, .literal hlong, rfl, rfl⟩
  · obtain ⟨report, hreport⟩ := hfailure.exists_report
    rw [hresult]
    exact .inl ⟨not_exceeds_of_failure hresult, hfailure.exists_message, _,
      congrArg (Except.map _) hreport⟩
  · have htext : number.text = writable value.isWritable (.ofList value.result) := by
      rw [Number.text, hvalue]
    rw [hresult]
    by_cases hwritable : value.isWritable = true
    · replace htext := htext.trans (if_pos hwritable)
      exact .inl ⟨not_exceeds_of_isWritable hresult hvalue hwritable, ⟨_, htext⟩, _,
        congrArg (Except.map _) htext⟩
    · replace htext := htext.trans (if_neg hwritable)
      exact .inr ⟨_, exceeds_of_not_isWritable hresult hvalue hwritable, htext,
        congrArg (Except.map _) htext⟩

/-- **A calculation is given up for the limit that it exceeds.** -/
theorem text_eq_error_iff {fault : Fault} :
    source.calculate.text = .error fault ↔ source.Exceeds fault := by
  constructor
  · intro h
    rcases source.answer_cases .ansi with ⟨-, ⟨text, htext⟩, -⟩ | ⟨other, hexceeds, htext, -⟩
    · cases htext.symm.trans h
    · rwa [← Except.error.inj (htext.symm.trans h)]
  · rintro (hlong | @⟨number, n, hresult, hvalue, hlong⟩)
    · rw [Calculation.text, calculate_of_hasLongInteger hlong]
    · rw [Calculation.text, hresult]
      show number.text = .error .resultTooLong
      rw [Number.text, hvalue]
      exact if_neg (Value.not_isWritable_int_iff.2 hlong)

/-- Of an empty text an operand is missed, and nothing exceeds a limit. -/
theorem not_exceeds_of_nil (h : source.text.toList = []) (fault : Fault) :
    ¬ source.Exceeds fault := by
  have hlex : source.lex = .ok { tokens := [source.cursor.finish] } :=
    congrArg Prod.fst (Cursor.lexFrom_of_nil h)
  have hresult : source.calculate.result =
      .error (.failure ⟨.invalidSyntax .expectedOperand, source.cursor.finish.extent⟩) := by
    rw [calculate, hlex]
    rfl
  exact not_exceeds_of_failure hresult fault

end Source

/-! ### Sessions -/

namespace Session

/-- The source that is left of a line. -/
def sourceOf (text : List Char) : Source := ⟨"<stdin>", .ofList text⟩

/-- How a session on lines ends: when there are none, at the line to leave, or at a line whose
calculation exceeds a limit, whichever comes first. -/
inductive Ends : List (List Char) → Ending → Prop where
  | exhausted : Ends [] .exhausted
  | left {line : List Char} {rest : List (List Char)}
      (hleave : Text.Strips line ['!', 'e', 'x', 'i', 't']) : Ends (line :: rest) .left
  | crashed {line text : List Char} {rest : List (List Char)} {fault : Fault}
      (hstrips : Text.Strips line text) (hstays : text ≠ ['!', 'e', 'x', 'i', 't'])
      (hexceeds : (sourceOf text).Exceeds fault) : Ends (line :: rest) (.crashed fault)
  | answered {line text : List Char} {rest : List (List Char)} {ending : Ending}
      (hstrips : Text.Strips line text) (hstays : text ≠ ['!', 'e', 'x', 'i', 't'])
      (hanswered : ∀ fault, ¬ (sourceOf text).Exceeds fault) (hrest : Ends rest ending) :
    Ends (line :: rest) ending

variable {line text : List Char} {style : Style}

/-- A line that is neither blank nor the one to leave is calculated. -/
theorem reply_of_strips (hstrips : Text.Strips line text) (hstays : text ≠ leave)
    (hne : text ≠ []) : reply false line style =
      match answer (sourceOf text).calculate style with
      | .ok shown => .shown shown
      | .error fault => .crashed "" fault := by
  obtain rfl := hstrips.strip_eq
  rw [reply, if_neg hstays, if_neg hne]
  simp only [Bool.false_eq_true, if_false, String.empty_append]
  rfl

/-- **What becomes of a line**: the session ends, or something is shown, or it crashes because the
line exceeds a limit. -/
theorem reply_cases (style : Style) (hstrips : Text.Strips line text) :
    (text = leave ∧ reply false line style = .leave) ∨
      text ≠ leave ∧
        (((∀ fault, ¬ (sourceOf text).Exceeds fault) ∧
            ∃ shown, reply false line style = .shown shown) ∨
          ∃ fault, (sourceOf text).Exceeds fault ∧
            reply false line style = .crashed "" fault) := by
  by_cases hleave : text = leave
  · refine .inl ⟨hleave, ?_⟩
    rw [reply, hstrips.strip_eq]
    exact if_pos hleave
  refine .inr ⟨hleave, ?_⟩
  by_cases hempty : text = []
  · refine .inl ⟨fun fault ↦ Source.not_exceeds_of_nil ?_ fault, "", ?_⟩
    · rw [sourceOf, hempty, String.toList_ofList]
    · rw [reply, hstrips.strip_eq]
      exact (if_neg hleave).trans (if_pos hempty)
  · rw [reply_of_strips hstrips hleave hempty]
    rcases (sourceOf text).answer_cases style with ⟨hanswered, -, shown, hanswer⟩ |
      ⟨fault, hexceeds, -, hanswer⟩
    · rw [hanswer]
      exact .inl ⟨hanswered, shown, rfl⟩
    · rw [hanswer]
      exact .inr ⟨fault, hexceeds, rfl⟩

/-- **A session ends as its lines say.** -/
theorem ends_onLines (style : Style) (lines : List (List Char)) :
    Ends lines (onLines false lines style).ending := by
  induction lines with
  | nil => exact .exhausted
  | cons line rest ih =>
    have hstrips := Text.strips_strip line
    rw [onLines]
    rcases reply_cases style hstrips with ⟨hleave, hreply⟩ |
      ⟨hstays, ⟨hanswered, text, hreply⟩ | ⟨fault, hexceeds, hreply⟩⟩ <;> rw [hreply]
    · exact .left (Text.strip_eq_iff.1 hleave)
    · exact .answered hstrips hstays hanswered ih
    · exact .crashed hstrips hstays hexceeds

end Session

/-- **What has no answer.** A calculation is answered by a text exactly if it exceeds no limit on
the digits of integers, and otherwise given up for the limit that it exceeds. A session crashes at
the first line of that kind, unless the input or the session ends before. -/
theorem answered_unless_exceeding (source : Source) (input : List Char) (style : Session.Style) :
    ((∃ text, source.calculate.text = .ok text) ↔ ∀ fault, ¬ source.Exceeds fault) ∧
      (∀ fault, source.calculate.text = .error fault ↔ source.Exceeds fault) ∧
      ∃ lines, Text.IsLines input lines ∧
        Session.Ends lines (Session.run false input style).ending := by
  refine ⟨?_, fun fault ↦ source.text_eq_error_iff, Text.lines input, Text.lines_eq_iff.1 rfl,
    Session.ends_onLines style (Text.lines input)⟩
  constructor
  · rintro ⟨text, htext⟩ fault hexceeds
    cases htext.symm.trans (source.text_eq_error_iff.2 hexceeds)
  · intro hanswered
    rcases source.answer_cases .ansi with ⟨-, htext, -⟩ | ⟨fault, hexceeds, -⟩
    · exact htext
    · exact absurd hexceeds (hanswered fault)

/-- Digits alone are an integer, however many there are. -/
theorem hasLongInteger_of_digits {digits : List Char} (hdigits : ∀ c ∈ digits, c.isDigit = true)
    (hlong : digitLimit < digits.length) : HasLongInteger digits digits.length := by
  have hne : digits ≠ [] := List.ne_nil_of_length_pos (Nat.lt_of_le_of_lt (Nat.zero_le _) hlong)
  have hfits : (Piece.integer digits).Fits [] := .integer hne hdigits (by rintro _ ⟨⟩)
  have hsplits : Splits digits [.integer digits] := by
    have hcons := Splits.cons hfits .nil
    rwa [List.append_nil] at hcons
  exact ⟨[], digits, [], hsplits, fun _ h ↦ absurd h List.not_mem_nil, hlong, rfl⟩

/-- Zero written with too many digits is given up. -/
theorem text_calculate_of_long_zero :
    (Source.mk "<stdin>" (.ofList (List.replicate 4301 '0'))).calculate.text =
      .error (.literalTooLong 4301) := by
  have hdigits : ∀ c ∈ List.replicate 4301 '0', c.isDigit = true := by
    intro c hc
    rw [List.eq_of_mem_replicate hc]
    rfl
  have hlong := hasLongInteger_of_digits hdigits (by rw [List.length_replicate]; decide)
  rw [List.length_replicate] at hlong
  rw [Calculation.text, Source.calculate_of_hasLongInteger (by rwa [String.toList_ofList])]

end Calculator
