import Calculator.Proofs.Evaluation.Result

/-!
# Integers and doubles

When the value of an expression is an integer, and which. Nothing but a literal that is a double or
a division makes a double, and whatever has one among its operands is a double again, however the
nodes in between are mixed: a quotient stays a double, even if it is integral. Integers are
unbounded, so an expression without either has the value that it has over the integers, and
evaluation cannot fail.
-/

namespace Calculator

/-- Is the value an integer? -/
def Value.isInt : Value → Bool
  | int _ => true
  | float _ => false

theorem Value.isInt_iff {value : Value} : value.isInt = true ↔ ∃ n, value = .int n := by
  cases value <;> simp [isInt]

namespace Operation

variable {operation : Operation} {a b value : Value}

theorem combine?_of_apply (h : operation.apply a b = .ok value) :
    operation.combine? a b = some value := by
  rw [apply] at h
  split at h
  · cases h
  · split at h
    · next hcombined => rw [hcombined, Except.ok.inj h]
    · cases h

/-- An operation gives an integer exactly if both operands are integers and it is no division. -/
theorem isInt_of_apply (h : operation.apply a b = .ok value) :
    value.isInt = (a.isInt && b.isInt && decide (operation ≠ .div)) := by
  have hcombined := combine?_of_apply h
  match a, b with
  | .int m, .int n =>
    cases operation with
    | div =>
      obtain ⟨x, -, rfl⟩ := Option.map_eq_some_iff.1 hcombined
      rfl
    | _ =>
      obtain rfl := Option.some.inj hcombined
      rfl
  | .int m, .float y =>
    obtain ⟨x, -, rfl⟩ := Option.map_eq_some_iff.1 hcombined
    rfl
  | .float x, .int n =>
    obtain ⟨y, -, rfl⟩ := Option.map_eq_some_iff.1 hcombined
    rfl
  | .float x, .float y =>
    obtain rfl := Option.some.inj hcombined
    rfl

end Operation

/-- The operation that a kind of token stands for over the integers, which have no division. -/
def Kind.onIntegers? : Kind → Int → Int → Option Int
  | .plus, m, n => some (m + n)
  | .minus, m, n => some (m - n)
  | .mul, m, n => some (m * n)
  | _, _, _ => none

/-- On integers the three operations other than division are exact and do not fail. -/
theorem Number.operate_of_ints {kind : Kind} {a b : Number} {m n k : Int}
    (ha : a.value? = some (.int m)) (hb : b.value? = some (.int n))
    (h : kind.onIntegers? m n = some k) :
    ∃ number, Number.operate kind a b = .ok number ∧ number.value? = some (.int k) := by
  cases kind with
  | plus =>
    obtain rfl : m + n = k := by simpa [Kind.onIntegers?] using h
    exact ⟨_, combine_of_apply ha hb rfl, rfl⟩
  | minus =>
    obtain rfl : m - n = k := by simpa [Kind.onIntegers?] using h
    exact ⟨_, combine_of_apply ha hb rfl, rfl⟩
  | mul =>
    obtain rfl : m * n = k := by simpa [Kind.onIntegers?] using h
    exact ⟨_, combine_of_apply ha hb rfl, rfl⟩
  | _ => simp [Kind.onIntegers?] at h

namespace Expr

/-- No literal of the expression is a double, and none of its operators divides. -/
def IsIntegral (expr : Expr) : Prop :=
  ∀ token ∈ expr.tokens, token.kind ≠ .float ∧ token.kind ≠ .div

theorem isIntegral_number {token : Token} :
    (number token).IsIntegral ↔ token.kind ≠ .float ∧ token.kind ≠ .div := by
  simp [IsIntegral, tokens]

theorem isIntegral_unary {operator : Token} {operand : Expr} :
    (unary operator operand).IsIntegral ↔
      (operator.kind ≠ .float ∧ operator.kind ≠ .div) ∧ operand.IsIntegral := by
  simp [IsIntegral, tokens]

theorem isIntegral_binary {left right : Expr} {operator : Token} :
    (binary left operator right).IsIntegral ↔
      left.IsIntegral ∧ (operator.kind ≠ .float ∧ operator.kind ≠ .div) ∧ right.IsIntegral := by
  rw [IsIntegral, tokens, List.forall_mem_append, List.forall_mem_cons]
  rfl

/-- The value over the integers, of an expression that has one there. -/
def integer? : Expr → Option Int
  | number token =>
    match token.lexeme.value? with
    | some (.int n) => some n
    | _ => none
  | unary operator operand => do
    let n ← operand.integer?
    return if operator.kind = .minus then -n else n
  | binary left operator right => do
    let m ← left.integer?
    let n ← right.integer?
    operator.kind.onIntegers? m n
  | foreign _ _ => none

variable {expr : Expr} {context : Context}

/-- Over the integers nothing fails. -/
theorem exists_result_of_isIntegral (hwf : expr.WellFormed)
    (hliterals : ∀ token ∈ expr.literals, ∃ value, token.lexeme = .literal value)
    (hint : expr.IsIntegral) :
    ∃ n number, expr.integer? = some n ∧ expr.result context = .ok number ∧
      number.value? = some (.int n) := by
  induction hwf with
  | number token =>
    obtain ⟨value, hvalue⟩ := hliterals token (by simp [literals])
    cases value with
    | int n =>
      refine ⟨n, _, ?_, rfl, ?_⟩
      · simp [integer?, hvalue, Lexeme.literal]
      · simp [hvalue, Lexeme.literal]
    | float x => exact absurd (by rw [Token.kind, hvalue]; rfl) (isIntegral_number.1 hint).1
  | @unary operator operand hkind hoperand ih =>
    obtain ⟨n, value, hn, hvalue, hint⟩ := ih hliterals (isIntegral_unary.1 hint).2
    obtain ⟨signed, hsigned, -, hsint⟩ := Number.signed_of_int hint operator.kind
    refine ⟨_, signed.setExtent (unary operator operand).extent, ?_, ?_, hsint⟩
    · rw [integer?, hn]
      rfl
    · rw [result_unary_of_ok hvalue, hsigned]
      rfl
  | @binary left right operator hkind hleft hright ihl ihr =>
    have hparts := isIntegral_binary.1 hint
    simp only [literals, List.forall_mem_append] at hliterals
    obtain ⟨m, a, hm, ha, hma⟩ := ihl hliterals.1 hparts.1
    obtain ⟨n, b, hn, hb, hnb⟩ := ihr hliterals.2 hparts.2.2
    obtain ⟨k, hk⟩ : ∃ k, operator.kind.onIntegers? m n = some k := by
      rcases hkind with h | h | h | h
      · exact ⟨m + n, by rw [h]; rfl⟩
      · exact ⟨m - n, by rw [h]; rfl⟩
      · exact ⟨m * n, by rw [h]; rfl⟩
      · exact absurd h hparts.2.1.2
    obtain ⟨number, hnumber, hvalue⟩ := Number.operate_of_ints hma hnb hk
    refine ⟨k, number.setExtent (binary left operator right).extent, ?_, ?_, hvalue⟩
    · rw [integer?, hm, hn]
      exact hk
    · rw [result_binary_of_ok ha hb, hnumber]
      rfl

/-- A number that evaluation comes to is an integer exactly if nothing in the expression makes it a
double. -/
theorem isInt_of_result (hwf : expr.WellFormed)
    (hliterals : ∀ token ∈ expr.literals, ∃ value, token.lexeme = .literal value)
    {number : Number} (h : expr.result context = .ok number) :
    ∃ value, number.value? = some value ∧ (value.isInt = true ↔ expr.IsIntegral) := by
  induction hwf generalizing number with
  | number token =>
    obtain ⟨value, hvalue⟩ := hliterals token (by simp [literals])
    obtain rfl := Except.ok.inj h
    refine ⟨value, ?_, ?_⟩
    · cases value <;> simp [hvalue, Lexeme.literal]
    · rw [isIntegral_number]
      cases value <;> simp [Token.kind, hvalue, Lexeme.literal, Value.isInt]
  | @unary operator operand hkind hoperand ih =>
    have hoperator : operator.kind ≠ .float ∧ operator.kind ≠ .div := by
      rcases hkind with hkind | hkind <;> rw [hkind] <;> decide
    obtain ⟨operandNumber, signed, hoperand, hsigned, rfl⟩ := result_unary_eq_ok h
    obtain ⟨value, hvalue, hint⟩ := ih hliterals hoperand
    rw [isIntegral_unary, and_iff_right hoperator, ← hint]
    cases value with
    | int n =>
      obtain ⟨other, hother, -, hn⟩ := Number.signed_of_int hvalue operator.kind
      obtain rfl := Except.ok.inj (hother.symm.trans hsigned)
      exact ⟨_, hn, by simp [Value.isInt]⟩
    | float x =>
      obtain ⟨other, y, hother, -, hy⟩ := Number.signed_of_float hvalue operator.kind
      obtain rfl := Except.ok.inj (hother.symm.trans hsigned)
      exact ⟨_, hy, by simp [Value.isInt]⟩
  | @binary left right operator hkind hleft hright ihl ihr =>
    simp only [literals, List.forall_mem_append] at hliterals
    obtain ⟨a, b, combined, ha, hb, hcombined, rfl⟩ := result_binary_eq_ok h
    obtain ⟨m, hm, hleftInt⟩ := ihl hliterals.1 ha
    obtain ⟨n, hn, hrightInt⟩ := ihr hliterals.2 hb
    obtain ⟨operation, m', n', value, hoperation, hm', hn', hvalue, rfl⟩ :=
      Number.eq_of_operate_eq_ok hcombined
    obtain rfl : m = m' := Option.some.inj (hm.symm.trans hm')
    obtain rfl : n = n' := Option.some.inj (hn.symm.trans hn')
    have hdiv : operation ≠ .div ↔ operator.kind ≠ .div := by
      rcases hkind with hkind | hkind | hkind | hkind <;> rw [hkind] at hoperation ⊢ <;>
        cases hoperation <;> decide
    have hfloat : operator.kind ≠ .float := by
      rcases hkind with hkind | hkind | hkind | hkind <;> rw [hkind] <;> decide
    refine ⟨value, rfl, ?_⟩
    rw [Operation.isInt_of_apply hvalue, Bool.and_eq_true, Bool.and_eq_true, decide_eq_true_iff,
      isIntegral_binary, and_iff_right hfloat, hleftInt, hrightInt, hdiv, and_right_comm, and_assoc]

/-- **Integers stay integers.** Within the budget, an expression with neither a double nor a
division in it has the value that it has over the integers. And a number that evaluation comes to,
within the budget or not, is an integer for such expressions only. -/
theorem evaluate_integer (hwf : expr.WellFormed)
    (hliterals : ∀ token ∈ expr.literals, ∃ value, token.lexeme = .literal value)
    (context : Context) (budget : Nat) :
    (2 * expr.depth ≤ budget → expr.IsIntegral →
        ∃ n number, expr.integer? = some n ∧ expr.evaluate context budget = .ok number ∧
          number.value? = some (.int n)) ∧
      ∀ number, expr.evaluate context budget = .ok number →
        ((∃ n, number.value? = some (.int n)) ↔ expr.IsIntegral) := by
  constructor
  · intro hdepth hint
    rw [evaluate_eq_result hdepth]
    exact exists_result_of_isIntegral hwf hliterals hint
  · intro number hnumber
    obtain ⟨value, hvalue, hint⟩ := isInt_of_result hwf hliterals (result_of_evaluate_eq_ok hnumber)
    rw [← hint, Value.isInt_iff, hvalue]
    simp

/-- The product of `-2` and `3` is an integer. -/
theorem evaluate_integer_of_product :
    ∃ product,
      evaluate .program 6 (.binary
          (.unary (.inLine "-2*3" 0 1 (.ofKind .minus))
            (.number (.inLine "-2*3" 1 2 (.literal (.int 2)))))
          (.inLine "-2*3" 2 3 (.ofKind .mul))
          (.number (.inLine "-2*3" 3 4 (.literal (.int 3))))) = .ok product ∧
        product.value? = some (.int (-6)) := by
  have hwf : WellFormed (.binary
      (.unary (.inLine "-2*3" 0 1 (.ofKind .minus))
        (.number (.inLine "-2*3" 1 2 (.literal (.int 2)))))
      (.inLine "-2*3" 2 3 (.ofKind .mul)) (.number (.inLine "-2*3" 3 4 (.literal (.int 3))))) :=
    .binary (.inr (.inr (.inl rfl))) (.unary (.inr rfl) (.number _)) (.number _)
  have hliterals : ∀ token ∈ [Token.inLine "-2*3" 1 2 (.literal (.int 2)),
      .inLine "-2*3" 3 4 (.literal (.int 3))], ∃ value, token.lexeme = .literal value :=
    List.forall_mem_cons.2 ⟨⟨.int 2, rfl⟩, List.forall_mem_singleton.2 ⟨.int 3, rfl⟩⟩
  have hint : IsIntegral (.binary
      (.unary (.inLine "-2*3" 0 1 (.ofKind .minus))
        (.number (.inLine "-2*3" 1 2 (.literal (.int 2)))))
      (.inLine "-2*3" 2 3 (.ofKind .mul)) (.number (.inLine "-2*3" 3 4 (.literal (.int 3))))) := by
    rw [IsIntegral]
    decide
  obtain ⟨n, product, hn, heval, hvalue⟩ :=
    (evaluate_integer hwf hliterals .program 6).1 (by decide) hint
  obtain rfl : -6 = n := Option.some.inj hn
  exact ⟨product, heval, hvalue⟩

end Expr

end Calculator
