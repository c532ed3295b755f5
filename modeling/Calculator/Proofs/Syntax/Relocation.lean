import Calculator.Proofs.Syntax.Reading

/-!
# Moving tokens to other places

A `Relocation` takes the beginnings and the ends of stretches to other places, or to none. What a
token says stays what it is, so that parsing does not see the difference: the expression that is
read from moved tokens is the expression that was read before, moved, and a failure is the failure
from before, at the place to which its token was moved (`Relocation.parse_map`).

A place that is missing stays missing. Beginnings and ends are moved apart from each other, since a
place may be the end of one token and the beginning of the next.
-/

namespace Calculator

/-- Where beginnings and ends are moved. -/
structure Relocation where
  start? : Position → Option Position
  stop? : Position → Option Position

namespace Relocation

variable (move : Relocation)

/-- The stretch between the moved ends. -/
def extent (extent : Extent) : Extent :=
  ⟨extent.start?.bind move.start?, extent.stop?.bind move.stop?⟩

/-- The token at its new place. -/
def token (token : Token) : Token := { token with extent := move.extent token.extent }

/-- The expression with all its tokens moved. -/
def expr : Expr → Expr
  | .number token => .number (move.token token)
  | .unary operator operand => .unary (move.token operator) (expr operand)
  | .binary left operator right => .binary (expr left) (move.token operator) (expr right)
  | .foreign name extent => .foreign name (move.extent extent)

/-- The failure at its new place. -/
def failure (failure : Failure) : Failure := { failure with extent := move.extent failure.extent }

/-- The cursor in a list of moved tokens. -/
def cursor (cursor : TokenCursor) : TokenCursor :=
  ⟨cursor.index, move.token cursor.current, cursor.rest.map move.token⟩

/-- The answer of a rule in a list of moved tokens. -/
def answer (answer : Except SyntaxProblem Expr × TokenCursor) :
    Except SyntaxProblem Expr × TokenCursor :=
  (answer.1.map move.expr, move.cursor answer.2)

/-- What parsing comes to on moved tokens. -/
def outcome (outcome : Outcome Expr Failure) : Outcome Expr Failure :=
  ⟨outcome.value?.map move.expr, outcome.error?.map move.failure⟩

@[simp] theorem kind_token (token : Token) : (move.token token).kind = token.kind := rfl

@[simp] theorem current_cursor (cursor : TokenCursor) :
    (move.cursor cursor).current = move.token cursor.current := rfl

@[simp] theorem advance_cursor (cursor : TokenCursor) :
    (move.cursor cursor).advance = move.cursor cursor.advance := by
  obtain ⟨index, current, _ | ⟨token, rest⟩⟩ := cursor <;> rfl

@[simp] theorem answer_ok (expr : Expr) (after : TokenCursor) :
    move.answer (.ok expr, after) = (.ok (move.expr expr), move.cursor after) := rfl

/-! ### Rules -/

/-- The rule answers alike wherever the tokens stand. -/
def Keeps (rule : Rule) : Prop := ∀ cursor, rule (move.cursor cursor) = move.answer (rule cursor)

variable {move} {operand : Rule}

theorem Keeps.chain (h : move.Keeps operand) (isOperator : Kind → Bool) (rounds : List Token)
    (left : Expr) (cursor : TokenCursor) :
    Rule.chain operand isOperator (rounds.map move.token) (move.expr left) (move.cursor cursor) =
      move.answer (Rule.chain operand isOperator rounds left cursor) := by
  induction rounds generalizing left cursor with
  | nil => rfl
  | cons token rounds ih =>
    rw [List.map_cons, Rule.chain, Rule.chain, current_cursor, kind_token, advance_cursor, h]
    split
    · rcases operand cursor.advance with ⟨problem | right, after⟩
      · rfl
      · exact ih (.binary left cursor.current right) after
    · rfl

theorem Keeps.binary (h : move.Keeps operand) (isOperator : Kind → Bool) :
    move.Keeps (Rule.binary operand isOperator) := by
  intro cursor
  rw [Rule.binary, Rule.binary, h]
  rcases operand cursor with ⟨problem | left, after⟩
  · rfl
  · exact h.chain isOperator (after.current :: after.rest) left after

/-- Factors are read alike wherever the tokens stand. -/
theorem keeps_factor (budget : Nat) : move.Keeps (Rule.factor budget) := by
  -- strong induction, since a parenthesis takes five at a time
  induction budget using Nat.strongRecOn with
  | ind budget ih =>
    intro cursor
    rw [Rule.factor.eq_def, Rule.factor.eq_def, current_cursor, kind_token, advance_cursor]
    cases hkind : cursor.current.kind with
    | plus | minus =>
      cases budget with
      | zero => rfl
      | succ budget =>
        simp only [ih budget (Nat.lt_succ_self budget) cursor.advance]
        rcases Rule.factor budget cursor.advance with ⟨problem | operand, after⟩ <;> rfl
    | lparen =>
      rcases budget with - | - | - | - | - | budget
      case succ.succ.succ.succ.succ =>
        have hinner := ((ih budget (by omega)).binary Rule.isMultiplicative).binary Rule.isAdditive
        simp only [hinner cursor.advance]
        rcases Rule.binary (Rule.binary (Rule.factor budget) Rule.isMultiplicative) Rule.isAdditive
          cursor.advance with ⟨problem | inner, after⟩
        · rfl
        · simp only [answer_ok, current_cursor, kind_token, advance_cursor]
          split <;> rfl
      -- with less than five left, the parenthesis is refused
      all_goals rfl
    | _ => rfl

/-- **Parsing does not look at places.** The outcome on moved tokens is the outcome, moved. -/
theorem parse_map (move : Relocation) (tokens : List Token) :
    Expr.parse (tokens.map move.token) = move.outcome (Expr.parse tokens) := by
  rcases tokens with - | ⟨token, tokens⟩
  · rfl
  have hexpr : move.Keeps (Rule.expr nestingBudget) :=
    ((keeps_factor nestingBudget).binary Rule.isMultiplicative).binary Rule.isAdditive
  have hread := hexpr ⟨0, token, tokens⟩
  show (Rule.program nestingBudget (move.cursor ⟨0, token, tokens⟩)).1 =
    move.outcome (Rule.program nestingBudget ⟨0, token, tokens⟩).1
  rw [Rule.program, Rule.program, hread]
  rcases Rule.expr nestingBudget ⟨0, token, tokens⟩ with ⟨problem | expr, after⟩
  · rfl
  · have hkind : (move.cursor after).current.kind = after.current.kind := rfl
    simp only [answer_ok]
    by_cases hend : after.current.kind = .eof
    · rw [if_pos hend, if_pos (hkind.trans hend)]
      rfl
    · rw [if_neg hend, if_neg (hkind ▸ hend)]
      rfl

end Relocation

end Calculator
