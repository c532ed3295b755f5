import Calculator.Proofs.Calculation.Places
import Calculator.Proofs.Evaluation.Relocation
import Calculator.Proofs.Tokens.Spacing

/-!
# Spacing does not matter

What becomes of a source is decided by what its tokens say, not by where they stand. Tokens that say
the same have a common origin, the tokens at the places 0, 1, 2, … (`numbered`), from which they are
moved to where they stand. A calculation of moved tokens is the calculation, moved
(`Relocation.ofOutcome_result`). So both sources have the same value, or fail for the same cause
between tokens of the same indices. The messages agree, since either names the first line.

In particular blanks and tabs between tokens change nothing about the answer
(`Source.calculate_ignores_spacing`).
-/

namespace Calculator

/-! ### Tokens without places of their own -/

/-- The tokens of lexemes, each of which stands at its index. -/
def numbered (lexemes : List Lexeme) : List Token :=
  lexemes.mapIdx fun index lexeme ↦ ⟨lexeme, Source.stretch ⟨"", ""⟩ (index, index)⟩

/-- From their indices to the places of tokens. -/
def Relocation.onto (tokens : List Token) : Relocation where
  start? place := tokens[place.index.toNat]?.bind (·.extent.start?)
  stop? place := tokens[place.index.toNat]?.bind (·.extent.stop?)

/-- **Tokens are moved from their indices** to where they stand. -/
theorem map_onto_numbered (tokens : List Token) :
    (numbered (tokens.map Token.lexeme)).map (Relocation.onto tokens).token = tokens := by
  refine List.ext_getElem? fun i ↦ ?_
  rcases htoken : tokens[i]? with - | token
  · simp [numbered, htoken]
  · simp [numbered, htoken, Relocation.token, Relocation.extent, Relocation.onto, Source.stretch,
      Source.place]

theorem map_lexeme_numbered (lexemes : List Lexeme) :
    (numbered lexemes).map Token.lexeme = lexemes := by
  refine List.ext_getElem? fun i ↦ ?_
  rcases hlexeme : lexemes[i]? with - | lexeme <;> simp [numbered, hlexeme]

theorem Extent.SpansTokens.map {extent : Extent} {tokens : List Token} {i j : Nat}
    (h : extent.SpansTokens tokens i j) (move : Relocation) :
    (move.extent extent).SpansTokens (tokens.map move.token) i j := by
  obtain ⟨first, last, hfirst, hlast, rfl⟩ := h
  exact ⟨move.token first, move.token last, by simp [hfirst], by simp [hlast], rfl⟩

/-! ### Calculations -/

/-- **A calculation of moved tokens is the calculation, moved.** -/
theorem Relocation.ofOutcome_result (move : Relocation) (tokens : List Token) :
    (Calculation.ofOutcome (tokens.map move.token) (Expr.parse (tokens.map move.token))).result =
      move.result (Calculation.ofOutcome tokens (Expr.parse tokens)).result := by
  rw [parse_map]
  rcases Expr.parse tokens with ⟨expr?, failure?⟩
  cases failure? with
  | some failure => rfl
  | none =>
    cases expr? with
    | some expr => exact move.evaluate_expr .program Expr.depthBudget expr
    | none => rfl

namespace Source

variable {source other : Source} {tokens others : List Token} {failure : Failure}

/-- What becomes of a source is what becomes of its tokens at their indices, moved. -/
theorem calculate_result_eq (hlex : source.lex = .ok { tokens }) :
    source.calculate.result = (Relocation.onto tokens).result
      (Calculation.ofOutcome (numbered (tokens.map Token.lexeme))
        (Expr.parse (numbered (tokens.map Token.lexeme)))).result := by
  rw [← Relocation.ofOutcome_result, map_onto_numbered, calculate, hlex]

/-- Of tokens that say the same as those of a source only the last is for the end of the text. -/
theorem exists_body_of_map_lexeme (hlex : source.lex = .ok { tokens })
    (hsame : others.map Token.lexeme = tokens.map Token.lexeme) :
    ∃ body stop, others = body ++ [stop] ∧ (∀ token ∈ body, token.kind ≠ .eof) ∧
      stop.kind = .eof := by
  obtain ⟨body, stop, rfl, hbody, hstop⟩ := exists_body_of_lex hlex
  rw [List.map_append] at hsame
  obtain ⟨front, back, rfl, hfront, hback⟩ := List.map_eq_append_iff.1 hsame
  obtain ⟨last, rfl, hlast⟩ := List.map_eq_singleton_iff.1 hback
  refine ⟨front, last, rfl, fun token htoken ↦ ?_, (congrArg Lexeme.kind hlast).trans hstop⟩
  have hmem : token.lexeme ∈ front.map Token.lexeme := List.mem_map_of_mem htoken
  rw [hfront] at hmem
  obtain ⟨earlier, hearlier, heq⟩ := List.mem_map.1 hmem
  rw [Token.kind, ← heq]
  exact hbody earlier hearlier

/-- **What becomes of two sources whose tokens say the same** has a common origin, and a failure of
the origin is moved to between tokens of the same indices. -/
theorem exists_origin (hlex : source.lex = .ok { tokens })
    (hother : other.lex = .ok { tokens := others })
    (hsame : tokens.map Token.lexeme = others.map Token.lexeme) :
    ∃ (move move' : Relocation) (origin : Except Stop Number),
      source.calculate.result = move.result origin ∧
      other.calculate.result = move'.result origin ∧
      ∀ failure, origin = .error (.failure failure) →
        ∃ i j, (move.failure failure).extent.SpansTokens tokens i j ∧
          (move'.failure failure).extent.SpansTokens others i j := by
  have hresult := calculate_result_eq hlex
  have hresult' := calculate_result_eq hother
  rw [← hsame] at hresult'
  refine ⟨_, _, _, hresult, hresult', fun failure hfailed ↦ ?_⟩
  obtain ⟨body, stop, hnumbered, hbody, hstop⟩ :=
    exists_body_of_map_lexeme hlex (map_lexeme_numbered (tokens.map Token.lexeme))
  rw [hnumbered] at hfailed
  obtain ⟨i, j, -, hspans, -⟩ := Calculation.failure_cases hbody hstop hfailed
  rw [← hnumbered] at hspans
  have hhere := hspans.map (Relocation.onto tokens)
  have hthere := hspans.map (Relocation.onto others)
  rw [map_onto_numbered] at hhere
  rw [hsame, map_onto_numbered] at hthere
  exact ⟨i, j, hhere, hthere⟩

/-- Failures for the same cause on sources of the same name have the same message. -/
theorem message_eq_of_cause {alike : Failure} (hname : source.name = other.name)
    (hfailed : source.calculate.result = .error (.failure failure))
    (halike : other.calculate.result = .error (.failure alike))
    (hcause : failure.cause = alike.cause) : failure.message = alike.message := by
  obtain ⟨_, _, hstands⟩ := exists_standsBetween hfailed
  obtain ⟨_, _, hstands'⟩ := exists_standsBetween halike
  rw [hstands.message_eq, hstands'.message_eq, hname, Failure.messageOnFirstLine,
    Failure.messageOnFirstLine, hcause]

/-- Sources of one name whose tokens say the same have the same answer. -/
theorem text_calculate_eq (hname : source.name = other.name) (hlex : source.lex = .ok { tokens })
    (hother : other.lex = .ok { tokens := others })
    (hsame : tokens.map Token.lexeme = others.map Token.lexeme) :
    source.calculate.text = other.calculate.text := by
  obtain ⟨move, move', origin, hresult, hresult', -⟩ := exists_origin hlex hother hsame
  rcases origin with (failure | fault) | number
  · rw [Calculation.text, Calculation.text, hresult, hresult']
    exact message_eq_of_cause hname hresult hresult' rfl
  · rw [Calculation.text, Calculation.text, hresult, hresult']
    rfl
  · rw [Calculation.text, Calculation.text, hresult, hresult']
    rfl

/-- **Spacing does not matter.** Sources of one name whose tokens say the same have the same answer,
and if one fails so does the other, for the same cause and between tokens of the same indices. Gaps
of blanks and tabs inside no token change neither what the tokens say nor the answer. -/
theorem calculate_ignores_spacing (hname : source.name = other.name)
    (hlex : source.lex = .ok { tokens }) (hother : other.lex = .ok { tokens := others })
    (hsame : tokens.map Token.lexeme = others.map Token.lexeme) :
    source.calculate.text = other.calculate.text ∧
      (∀ failure, source.calculate.result = .error (.failure failure) →
        ∃ alike, other.calculate.result = .error (.failure alike) ∧ alike.cause = failure.cause ∧
          ∃ i j, failure.extent.SpansTokens tokens i j ∧ alike.extent.SpansTokens others i j) ∧
      ∀ gaps : Nat → List Char, (∀ index, ∀ c ∈ gaps index, c = ' ' ∨ c = '\t') →
        (∀ index : Nat, gaps index ≠ [] → ∀ token ∈ tokens, ¬ token.extent.Encloses index) →
          (∃ spaced, (source.spaced gaps).lex = .ok { tokens := spaced } ∧
            spaced.map Token.lexeme = tokens.map Token.lexeme) ∧
          (source.spaced gaps).calculate.text = source.calculate.text := by
  refine ⟨text_calculate_eq hname hlex hother hsame, fun failure hfailed ↦ ?_,
    fun gaps hblank hbetween ↦ ?_⟩
  · obtain ⟨move, move', origin, hresult, hresult', hspans⟩ := exists_origin hlex hother hsame
    rw [hresult] at hfailed
    rcases origin with (common | fault) | number
    · obtain rfl := Stop.failure.inj (Except.error.inj hfailed)
      exact ⟨_, hresult', rfl, hspans common rfl⟩
    · cases hfailed
    · cases hfailed
  · obtain ⟨spaced, hspaced, hsays⟩ := lex_spaced hlex hblank hbetween
    exact ⟨⟨spaced, hspaced, hsays⟩, text_calculate_eq rfl hspaced hlex hsays⟩

/-- A division by zero fails alike with blanks around its operator. -/
theorem division_ignores_spacing :
    (Source.mk "<stdin>" "10/0").lex = .ok { tokens := [
        ⟨.literal (.int 10), stretch ⟨"<stdin>", "10/0"⟩ (0, 2)⟩,
        ⟨.ofKind .div, stretch ⟨"<stdin>", "10/0"⟩ (2, 3)⟩,
        ⟨.literal (.int 0), stretch ⟨"<stdin>", "10/0"⟩ (3, 4)⟩,
        ⟨.ofKind .eof, stretch ⟨"<stdin>", "10/0"⟩ (4, 5)⟩] } ∧
      (Source.mk "<stdin>" "10 /\t0").lex = .ok { tokens := [
        ⟨.literal (.int 10), stretch ⟨"<stdin>", "10 /\t0"⟩ (0, 2)⟩,
        ⟨.ofKind .div, stretch ⟨"<stdin>", "10 /\t0"⟩ (3, 4)⟩,
        ⟨.literal (.int 0), stretch ⟨"<stdin>", "10 /\t0"⟩ (5, 6)⟩,
        ⟨.ofKind .eof, stretch ⟨"<stdin>", "10 /\t0"⟩ (6, 7)⟩] } ∧
      (Source.mk "<stdin>" "10/0").calculate.text =
        (Source.mk "<stdin>" "10 /\t0").calculate.text := by
  have hlex : (Source.mk "<stdin>" "10/0").lex = .ok { tokens := [
      ⟨.literal (.int 10), stretch ⟨"<stdin>", "10/0"⟩ (0, 2)⟩,
      ⟨.ofKind .div, stretch ⟨"<stdin>", "10/0"⟩ (2, 3)⟩,
      ⟨.literal (.int 0), stretch ⟨"<stdin>", "10/0"⟩ (3, 4)⟩,
      ⟨.ofKind .eof, stretch ⟨"<stdin>", "10/0"⟩ (4, 5)⟩] } := by decide +kernel
  have hother : (Source.mk "<stdin>" "10 /\t0").lex = .ok { tokens := [
      ⟨.literal (.int 10), stretch ⟨"<stdin>", "10 /\t0"⟩ (0, 2)⟩,
      ⟨.ofKind .div, stretch ⟨"<stdin>", "10 /\t0"⟩ (3, 4)⟩,
      ⟨.literal (.int 0), stretch ⟨"<stdin>", "10 /\t0"⟩ (5, 6)⟩,
      ⟨.ofKind .eof, stretch ⟨"<stdin>", "10 /\t0"⟩ (6, 7)⟩] } := by decide +kernel
  have hname : (Source.mk "<stdin>" "10/0").name = (Source.mk "<stdin>" "10 /\t0").name := rfl
  exact ⟨hlex, hother, (calculate_ignores_spacing hname hlex hother rfl).1⟩

end Source

end Calculator
