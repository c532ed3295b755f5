import Calculator.Proofs.Evaluation.Result
import Calculator.Proofs.Syntax.Relocation

/-!
# Evaluating moved expressions

Evaluation carries places along without looking at them: a number has the place of its expression,
and a failure the places of numbers. So the value of a moved expression is the value of the
expression, and a failure has the same cause, at the place to which what is to blame was moved
(`Relocation.evaluate_expr`).

This needs that a missing place stays missing, since arithmetic makes numbers without a place.
-/

namespace Calculator.Relocation

variable (move : Relocation)

/-- The number at its new place. -/
def number (number : Number) : Number := { number with extent := move.extent number.extent }

/-- The reason for which there is no number, at its new place if it has one. -/
def stop : Stop → Stop
  | .failure failure => .failure (move.failure failure)
  | .fault fault => .fault fault

/-- What evaluation comes to on moved expressions. -/
def result : Except Stop Number → Except Stop Number
  | .ok number => .ok (move.number number)
  | .error stop => .error (move.stop stop)

variable {move} in
/-- What is done with a moved number is what is done with the number, moved. -/
theorem bind_result {answer : Except Stop Number} {next moved : Number → Except Stop Number}
    (h : ∀ number, moved (move.number number) = move.result (next number)) :
    (move.result answer >>= moved) = move.result (answer >>= next) := by
  rcases answer with stop | number
  · rfl
  · exact h number

/-! ### Places of expressions -/

theorem start?_expr (expr : Expr) : (move.expr expr).start? = expr.start?.bind move.start? := by
  induction expr with
  | binary left operator right ihl ihr => exact ihl
  | _ => rfl

theorem stop?_expr (expr : Expr) : (move.expr expr).stop? = expr.stop?.bind move.stop? := by
  induction expr with
  | unary operator operand ih => exact ih
  | binary left operator right ihl ihr => exact ihr
  | _ => rfl

theorem extent_expr (expr : Expr) : (move.expr expr).extent = move.extent expr.extent := by
  rw [Expr.extent, start?_expr, stop?_expr]
  rfl

/-! ### Numbers -/

/-- A failure blames the moved numbers. -/
theorem failure_number (left right : Number) (error : ArithmeticError) :
    Number.failure (move.number left) (move.number right) error =
      move.failure (Number.failure left right error) := by
  cases error <;> rfl

/-- **Operations do not look at places.** -/
theorem combine_number (operation : Operation) (left right : Number) :
    (move.number left).combine operation (move.number right) =
      move.result (left.combine operation right) := by
  rw [Number.combine, Number.combine]
  rcases ha : left.value? with - | a <;> rcases hb : right.value? with - | b
  case some.some =>
    simp only [number, ha, hb]
    rcases operation.apply a b with error | value
    · exact congrArg (fun failure ↦ Except.error (Stop.failure failure))
        (move.failure_number left right error)
    · rfl
  all_goals
    simp only [number, ha, hb]
    split
    · exact congrArg (fun failure ↦ Except.error (Stop.failure failure))
        (move.failure_number left right .divisionByZero)
    · rfl

theorem signed_number (number : Number) (sign : Kind) :
    (move.number number).signed sign = move.result (number.signed sign) := by
  rw [Number.signed, Number.signed]
  split
  · exact move.combine_number .mul number { value? := some (.int (-1)) }
  · rfl

/-! ### Expressions -/

/-- The number of a moved expression is the number, moved, whatever the budget. -/
theorem visit_expr (context : Context) (budget : Nat) (expr : Expr) :
    (move.expr expr).visit context budget = move.result (expr.visit context budget) := by
  induction expr generalizing budget with
  | number token | foreign name extent =>
    match budget with
    | 0 | 1 | budget + 2 => rfl
  | unary operator operand ih =>
    match budget with
    | 0 | 1 => rfl
    | budget + 2 =>
      have hextent := move.extent_expr (.unary operator operand)
      rw [expr, Expr.visit, Expr.visit, ih]
      refine bind_result fun value ↦ ?_
      rw [kind_token, signed_number]
      refine bind_result fun signed ↦ ?_
      exact congrArg (fun extent ↦ Except.ok ((move.number signed).setExtent extent)) hextent
  | binary left operator right ihl ihr =>
    match budget with
    | 0 | 1 => rfl
    | budget + 2 =>
      have hextent := move.extent_expr (.binary left operator right)
      rw [expr, Expr.visit, Expr.visit, ihl, ihr]
      refine bind_result fun a ↦ bind_result fun b ↦ ?_
      rw [kind_token]
      split
      · rw [combine_number]
        refine bind_result fun value ↦ ?_
        exact congrArg (fun extent ↦ Except.ok ((move.number value).setExtent extent)) hextent
      · rfl

/-- **Evaluation does not look at places.** -/
theorem evaluate_expr (context : Context) (budget : Nat) (expr : Expr) :
    (move.expr expr).evaluate context budget = move.result (expr.evaluate context budget) := by
  rw [Expr.evaluate, Expr.evaluate, visit_expr]
  rcases expr.visit context budget with (failure | fault) | number
  · rfl
  · cases fault with
    | tooDeep =>
      exact congrArg (fun extent ↦ Except.error (Stop.failure ⟨.runtime .tooDeep context, extent⟩))
        (move.extent_expr expr)
    | _ => rfl
  · rfl

end Calculator.Relocation
