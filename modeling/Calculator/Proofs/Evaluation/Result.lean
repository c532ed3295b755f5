import Calculator.Expr.Eval

/-!
# Evaluation without a budget

`Expr.result` is the number of an expression however deep it is: evaluation without the budget.
Within the budget the two agree (`evaluate_eq_result`), so whatever evaluation does to an expression
that is not too deep can be proved by induction on the expression alone.

The module also says once what an operation on numbers can come to (`Number.combine_cases`,
`Number.signed_cases`), what the operands of a node came to if the node has a result
(`result_unary_eq_ok`, `result_binary_eq_ok`) or has none, and which expressions evaluation is meant
for: `Expr.WellFormed` asks for the three kinds of node and for known operators, and for nothing
else. Literals may lack a value, since only operations on them are affected.
-/

namespace Calculator

/-! ### Operations on numbers -/

namespace Number

/-- The operation that a kind of token stands for, on two numbers. -/
def operate (kind : Kind) (left right : Number) : Except Stop Number :=
  match kind.operation? with
  | some operation => left.combine operation right
  | none => .error (.fault (.unknownOperator kind))

/-- An operation has a value in the context of its left operand, or fails with one of the two errors
of arithmetic, or is given up for want of an operand. -/
theorem combine_cases (operation : Operation) (left right : Number) :
    (∃ a b value, left.value? = some a ∧ right.value? = some b ∧
        operation.apply a b = .ok value ∧
        left.combine operation right = .ok { value? := some value, context := left.context }) ∨
      (∃ error, left.combine operation right = .error (.failure (failure left right error))) ∨
      ((left.value? = none ∨ right.value? = none) ∧
        left.combine operation right =
          .error (.fault (.missingOperand operation left.value? right.value?))) := by
  rw [combine]
  split
  · next a b ha hb =>
    rcases h : operation.apply a b with error | value
    · exact .inr (.inl ⟨error, rfl⟩)
    · exact .inl ⟨a, b, value, ha, hb, h, rfl⟩
  · next hmissing =>
    split
    · exact .inr (.inl ⟨.divisionByZero, rfl⟩)
    · refine .inr (.inr ⟨?_, rfl⟩)
      rcases ha : left.value? with - | a
      · exact .inl rfl
      · rcases hb : right.value? with - | b
        · exact .inr rfl
        · exact absurd hb (hmissing a b ha)

theorem combine_of_apply {operation : Operation} {left right : Number} {a b value : Value}
    (ha : left.value? = some a) (hb : right.value? = some b)
    (h : operation.apply a b = .ok value) :
    left.combine operation right = .ok { value? := some value, context := left.context } := by
  rw [combine, ha, hb]
  simp only [h]

/-- The same for a kind of token, which may not stand for an operation at all. -/
theorem operate_cases (kind : Kind) (left right : Number) :
    (∃ operation a b value, kind.operation? = some operation ∧ left.value? = some a ∧
        right.value? = some b ∧ operation.apply a b = .ok value ∧
        operate kind left right = .ok { value? := some value, context := left.context }) ∨
      (∃ error, operate kind left right = .error (.failure (failure left right error))) ∨
      ∃ fault, fault ≠ .tooDeep ∧ operate kind left right = .error (.fault fault) := by
  rw [operate]
  split
  · next operation hoperation =>
    rcases combine_cases operation left right with
      ⟨a, b, value, ha, hb, hvalue, hok⟩ | ⟨error, hfailed⟩ | ⟨-, hfault⟩
    · exact .inl ⟨operation, a, b, value, hoperation, ha, hb, hvalue, hok⟩
    · exact .inr (.inl ⟨error, hfailed⟩)
    · refine .inr (.inr ⟨_, ?_, hfault⟩)
      exact nofun
  · refine .inr (.inr ⟨_, ?_, rfl⟩)
    exact nofun

/-- What has come out of an operation came out of the values of its operands. -/
theorem eq_of_operate_eq_ok {kind : Kind} {left right number : Number}
    (h : operate kind left right = .ok number) :
    ∃ operation a b value, kind.operation? = some operation ∧ left.value? = some a ∧
      right.value? = some b ∧ operation.apply a b = .ok value ∧
      number = { value? := some value, context := left.context } := by
  rcases operate_cases kind left right with
    ⟨operation, a, b, value, hoperation, ha, hb, hvalue, hok⟩ | ⟨error, hfailed⟩ |
      ⟨fault, -, hfault⟩
  · exact ⟨operation, a, b, value, hoperation, ha, hb, hvalue, Except.ok.inj (h.symm.trans hok)⟩
  · cases hfailed.symm.trans h
  · cases hfault.symm.trans h

/-- What has failed is the operation on the two numbers. -/
theorem eq_of_operate_eq_failure {kind : Kind} {left right : Number} {reported : Failure}
    (h : operate kind left right = .error (.failure reported)) :
    ∃ error, reported = failure left right error := by
  rcases operate_cases kind left right with
    ⟨operation, a, b, value, -, -, -, -, hok⟩ | ⟨error, hfailed⟩ | ⟨fault, -, hfault⟩
  · cases hok.symm.trans h
  · exact ⟨error, Stop.failure.inj (Except.error.inj (h.symm.trans hfailed))⟩
  · cases hfault.symm.trans h

theorem operate_ne_tooDeep (kind : Kind) (left right : Number) :
    operate kind left right ≠ .error (.fault .tooDeep) := by
  intro h
  rcases operate_cases kind left right with
    ⟨operation, a, b, value, -, -, -, -, hok⟩ | ⟨error, hfailed⟩ | ⟨fault, hne, hfault⟩
  · cases hok.symm.trans h
  · cases hfailed.symm.trans h
  · cases hfault.symm.trans h
    exact hne rfl

/-- An integer under a sign. -/
theorem signed_of_int {number : Number} {n : Int} (h : number.value? = some (.int n))
    (sign : Kind) :
    ∃ signed, number.signed sign = .ok signed ∧ signed.context = number.context ∧
      signed.value? = some (.int (if sign = .minus then -n else n)) := by
  by_cases hsign : sign = .minus
  · refine ⟨{ value? := some (.int (n * -1)), context := number.context }, ?_, rfl, ?_⟩
    · rw [signed, if_pos hsign, combine, h]
      rfl
    · rw [if_pos hsign, Int.mul_neg_one]
  · exact ⟨number, if_neg hsign, rfl, by rw [h, if_neg hsign]⟩

/-- A double under a sign: minus one is a double. -/
theorem signed_of_float {number : Number} {x : Double} (h : number.value? = some (.float x))
    (sign : Kind) :
    ∃ signed y, number.signed sign = .ok signed ∧ signed.context = number.context ∧
      signed.value? = some (.float y) := by
  by_cases hsign : sign = .minus
  · obtain ⟨one, hone⟩ : ∃ one, Double.ofInt? (-1) = some one :=
      Option.isSome_iff_exists.1 (by decide +kernel)
    refine ⟨{ value? := some (.float (x.mul one)), context := number.context }, _, ?_, rfl, rfl⟩
    rw [signed, if_pos hsign, combine, h]
    simp [Operation.apply, Operation.combine?, Operation.onDoubles, hone]
  · exact ⟨number, x, if_neg hsign, rfl, h⟩

/-- A number with a value under a sign. -/
theorem signed_of_value {number : Number} {value : Value} (h : number.value? = some value)
    (sign : Kind) :
    ∃ signed signedValue, number.signed sign = .ok signed ∧ signed.context = number.context ∧
      signed.value? = some signedValue := by
  cases value with
  | int n =>
    obtain ⟨signed, hsigned, hcontext, hn⟩ := signed_of_int h sign
    exact ⟨signed, _, hsigned, hcontext, hn⟩
  | float x =>
    obtain ⟨signed, y, hsigned, hcontext, hy⟩ := signed_of_float h sign
    exact ⟨signed, _, hsigned, hcontext, hy⟩

/-- A sign has a value in the context of its operand, unless the operand has none. So a sign never
fails. -/
theorem signed_cases (number : Number) (sign : Kind) :
    (∃ signed, number.signed sign = .ok signed ∧ signed.context = number.context) ∨
      (number.value? = none ∧
        number.signed sign = .error (.fault (.missingOperand .mul none (some (.int (-1)))))) := by
  rcases h : number.value? with - | value
  · by_cases hsign : sign = .minus
    · refine .inr ⟨rfl, ?_⟩
      rw [signed, if_pos hsign, combine, h]
      rfl
    · exact .inl ⟨number, if_neg hsign, rfl⟩
  · obtain ⟨signed, signedValue, hsigned, hcontext, -⟩ := signed_of_value h sign
    exact .inl ⟨signed, hsigned, hcontext⟩

end Number

namespace Expr

/-- Expressions of the three kinds of node, with known operators. -/
inductive WellFormed : Expr → Prop where
  | number (token : Token) : WellFormed (.number token)
  | unary {operator : Token} {operand : Expr}
      (hkind : operator.kind = .plus ∨ operator.kind = .minus) (hoperand : WellFormed operand) :
    WellFormed (.unary operator operand)
  | binary {left right : Expr} {operator : Token}
      (hkind : operator.kind = .plus ∨ operator.kind = .minus ∨ operator.kind = .mul ∨
        operator.kind = .div) (hleft : WellFormed left) (hright : WellFormed right) :
    WellFormed (.binary left operator right)

/-- The literals of an expression from left to right. -/
def literals : Expr → List Token
  | number token => [token]
  | unary _ operand => operand.literals
  | binary left _ right => left.literals ++ right.literals
  | foreign _ _ => []

/-- The number that an expression stands for, with no bound on its depth. -/
def result (context : Context) : Expr → Except Stop Number
  | number token => .ok ⟨token.lexeme.value?, token.extent, context⟩
  | unary operator operand => do
    let value ← operand.result context
    let signed ← value.signed operator.kind
    return signed.setExtent (unary operator operand).extent
  | binary left operator right => do
    let a ← left.result context
    let b ← right.result context
    let value ← Number.operate operator.kind a b
    return value.setExtent (binary left operator right).extent
  | foreign name _ => .error (.fault (.unknownNode name))

section Nodes

variable {context : Context} {operator : Token} {operand left right : Expr}

theorem result_unary_of_ok {value : Number} (h : operand.result context = .ok value) :
    (unary operator operand).result context =
      (value.signed operator.kind).map (·.setExtent (unary operator operand).extent) := by
  rw [result, h]
  rfl

theorem result_binary_of_ok {a b : Number} (ha : left.result context = .ok a)
    (hb : right.result context = .ok b) :
    (binary left operator right).result context =
      (Number.operate operator.kind a b).map
        (·.setExtent (binary left operator right).extent) := by
  rw [result, ha, hb]
  rfl

/-- What a sign with a number went through. -/
theorem result_unary_eq_ok {number : Number}
    (h : (unary operator operand).result context = .ok number) :
    ∃ value signed, operand.result context = .ok value ∧ value.signed operator.kind = .ok signed ∧
      number = signed.setExtent (unary operator operand).extent := by
  rcases hoperand : operand.result context with stop | value
  · rw [result, hoperand] at h
    cases h
  rw [result_unary_of_ok hoperand] at h
  rcases hsigned : value.signed operator.kind with stop | signed
  · rw [hsigned] at h
    cases h
  · rw [hsigned] at h
    exact ⟨value, signed, rfl, hsigned, (Except.ok.inj h).symm⟩

/-- A sign stops where its operand does, or else by itself. -/
theorem result_unary_eq_error {stop : Stop}
    (h : (unary operator operand).result context = .error stop) :
    operand.result context = .error stop ∨
      ∃ value, operand.result context = .ok value ∧ value.signed operator.kind = .error stop := by
  rcases hoperand : operand.result context with stopped | value
  · rw [result, hoperand] at h
    exact .inl h
  rw [result_unary_of_ok hoperand] at h
  rcases hsigned : value.signed operator.kind with stopped | signed
  · rw [hsigned] at h
    exact .inr ⟨value, rfl, hsigned.trans (congrArg _ (Except.error.inj h))⟩
  · rw [hsigned] at h
    cases h

/-- What an operation with a number went through. -/
theorem result_binary_eq_ok {number : Number}
    (h : (binary left operator right).result context = .ok number) :
    ∃ a b combined, left.result context = .ok a ∧ right.result context = .ok b ∧
      Number.operate operator.kind a b = .ok combined ∧
      number = combined.setExtent (binary left operator right).extent := by
  rcases ha : left.result context with stop | a
  · rw [result, ha] at h
    cases h
  rcases hb : right.result context with stop | b
  · rw [result, ha, hb] at h
    cases h
  rw [result_binary_of_ok ha hb] at h
  rcases hcombined : Number.operate operator.kind a b with stop | combined
  · rw [hcombined] at h
    cases h
  · rw [hcombined] at h
    exact ⟨a, b, combined, rfl, rfl, hcombined, (Except.ok.inj h).symm⟩

/-- An operation stops where its left operand does, or else where its right operand does, or else by
itself. -/
theorem result_binary_eq_error {stop : Stop}
    (h : (binary left operator right).result context = .error stop) :
    left.result context = .error stop ∨
      (∃ a, left.result context = .ok a ∧ right.result context = .error stop) ∨
      ∃ a b, left.result context = .ok a ∧ right.result context = .ok b ∧
        Number.operate operator.kind a b = .error stop := by
  rcases ha : left.result context with stopped | a
  · rw [result, ha] at h
    exact .inl h
  rcases hb : right.result context with stopped | b
  · rw [result, ha, hb] at h
    exact .inr (.inl ⟨a, rfl, h⟩)
  rw [result_binary_of_ok ha hb] at h
  rcases hcombined : Number.operate operator.kind a b with stopped | combined
  · rw [hcombined] at h
    exact .inr (.inr ⟨a, b, rfl, rfl, hcombined.trans (congrArg _ (Except.error.inj h))⟩)
  · rw [hcombined] at h
    cases h

end Nodes

variable {context : Context}

/-- **A budget of two for every level is enough.** -/
theorem visit_eq_result {expr : Expr} {budget : Nat} (h : 2 * expr.depth ≤ budget) :
    expr.visit context budget = expr.result context := by
  induction expr generalizing budget with
  | number token =>
    obtain ⟨budget, rfl⟩ := Nat.exists_eq_add_of_le' h
    rfl
  | unary operator operand ih =>
    rw [depth] at h
    obtain ⟨budget, rfl⟩ := Nat.exists_eq_add_of_le' (by omega : 2 ≤ budget)
    rw [visit, result, ih (by omega)]
  | binary left operator right ihl ihr =>
    rw [depth] at h
    obtain ⟨budget, rfl⟩ := Nat.exists_eq_add_of_le' (by omega : 2 ≤ budget)
    rw [visit, result, ihl (by omega), ihr (by omega)]
    rcases left.result context with stop | a
    · rfl
    · rcases right.result context with stop | b
      · rfl
      · simp only [Number.operate]
        cases operator.kind.operation? <;> rfl
  | foreign name extent =>
    obtain ⟨budget, rfl⟩ := Nat.exists_eq_add_of_le' h
    rfl

/-- Every level of an expression that has a number was paid for. -/
theorem depth_le_of_visit_eq_ok {expr : Expr} {budget : Nat} {number : Number}
    (h : expr.visit context budget = .ok number) : 2 * expr.depth ≤ budget := by
  induction expr generalizing budget number with
  | number token =>
    match budget, h with
    | budget + 2, _ => exact Nat.le_add_left 2 budget
  | unary operator operand ih =>
    match budget, h with
    | budget + 2, h =>
      rcases hoperand : operand.visit context budget with stop | value
      · rw [visit, hoperand] at h
        cases h
      · have := ih hoperand
        rw [depth]
        omega
  | binary left operator right ihl ihr =>
    match budget, h with
    | budget + 2, h =>
      rcases hleft : left.visit context budget with stop | a
      · rw [visit, hleft] at h
        cases h
      rcases hright : right.visit context budget with stop | b
      · rw [visit, hleft, hright] at h
        cases h
      have := ihl hleft
      have := ihr hright
      rw [depth]
      omega
  | foreign name extent =>
    match budget, h with
    | budget + 2, _ => exact Nat.le_add_left 2 budget

/-- Without a budget nothing is too deep. -/
theorem result_ne_tooDeep (expr : Expr) : expr.result context ≠ .error (.fault .tooDeep) := by
  intro h
  induction expr with
  | number token => cases h
  | unary operator operand ih =>
    rcases result_unary_eq_error h with hoperand | ⟨value, -, hsigned⟩
    · exact ih hoperand
    · rcases value.signed_cases operator.kind with ⟨signed, hok, -⟩ | ⟨-, hfault⟩
      · cases hok.symm.trans hsigned
      · cases hfault.symm.trans hsigned
  | binary left operator right ihl ihr =>
    rcases result_binary_eq_error h with hleft | ⟨a, -, hright⟩ | ⟨a, b, -, -, hcombined⟩
    · exact ihl hleft
    · exact ihr hright
    · exact Number.operate_ne_tooDeep operator.kind a b hcombined
  | foreign name extent => cases h

/-- **Within the budget, evaluation is evaluation without one.** -/
theorem evaluate_eq_result {expr : Expr} {budget : Nat} (h : 2 * expr.depth ≤ budget) :
    expr.evaluate context budget = expr.result context := by
  rw [evaluate, visit_eq_result h]
  split
  · next hdeep => exact absurd hdeep (result_ne_tooDeep expr)
  · rfl

/-- A number that evaluation comes to is the one without a budget. -/
theorem result_of_evaluate_eq_ok {expr : Expr} {budget : Nat} {number : Number}
    (h : expr.evaluate context budget = .ok number) : expr.result context = .ok number := by
  rw [evaluate] at h
  split at h
  · cases h
  · rw [← visit_eq_result (depth_le_of_visit_eq_ok h), h]

end Expr

end Calculator
