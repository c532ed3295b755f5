import Calculator.Proofs.Evaluation.FirstFailure

/-!
# What evaluation can come to

Evaluation with a budget gives what evaluation without one gives, or finds the expression too deep
(`visit_cases`). Either way a failure stands where some node of the expression does
(`exists_node_of_evaluate_eq_failure`), which is between two of its tokens (`WellFormed.extent_eq`),
and it has the context of the evaluation. So it can be reported if the tokens have both of their
ends (`evaluate_outcome`).
-/

namespace Calculator

namespace Expr

variable {context : Context} {expr : Expr}

/-- A budget changes nothing, unless it is used up. -/
theorem visit_cases (context : Context) (expr : Expr) (budget : Nat) :
    expr.visit context budget = expr.result context ∨
      expr.visit context budget = .error (.fault .tooDeep) := by
  induction expr generalizing budget with
  | number token | foreign name extent =>
    match budget with
    | 0 | 1 => exact .inr rfl
    | budget + 2 => exact .inl rfl
  | unary operator operand ih =>
    match budget with
    | 0 | 1 => exact .inr rfl
    | budget + 2 =>
      rw [visit, result]
      rcases ih budget with hsame | hdeep
      · rw [hsame]
        exact .inl rfl
      · rw [hdeep]
        exact .inr rfl
  | binary left operator right ihl ihr =>
    match budget with
    | 0 | 1 => exact .inr rfl
    | budget + 2 =>
      rw [visit, result]
      rcases ihl budget with hleft | hdeep
      · rw [hleft]
        rcases left.result context with stop | a
        · exact .inl rfl
        rcases ihr budget with hright | hdeep
        · rw [hright]
          rcases right.result context with stop | b
          · exact .inl rfl
          · refine .inl ?_
            simp only [Number.operate]
            cases operator.kind.operation? <;> rfl
        · rw [hdeep]
          exact .inr rfl
      · rw [hdeep]
        exact .inr rfl

/-! ### Nodes and their tokens -/

theorem self_mem_nodes (expr : Expr) : expr ∈ expr.nodes := by
  cases expr <;> simp [nodes]

theorem tokens_sublist_of_mem_nodes {node : Expr} (h : node ∈ expr.nodes) :
    node.tokens.Sublist expr.tokens := by
  induction expr with
  | number token | foreign name extent =>
    obtain rfl := List.mem_singleton.1 h
    exact .refl _
  | unary operator operand ih =>
    rcases List.mem_append.1 h with h | h
    · exact (ih h).cons operator
    · obtain rfl := List.mem_singleton.1 h
      exact .refl _
  | binary left operator right ihl ihr =>
    rcases List.mem_append.1 h with h | h
    · rcases List.mem_append.1 h with h | h
      · exact (ihl h).trans (List.sublist_append_left _ _)
      · exact ((ihr h).cons operator).trans (List.sublist_append_right _ _)
    · obtain rfl := List.mem_singleton.1 h
      exact .refl _

theorem WellFormed.of_mem_nodes (hwf : expr.WellFormed) {node : Expr} (h : node ∈ expr.nodes) :
    node.WellFormed := by
  induction hwf with
  | number token =>
    obtain rfl := List.mem_singleton.1 h
    exact .number token
  | unary hkind hoperand ih =>
    rcases List.mem_append.1 h with h | h
    · exact ih h
    · obtain rfl := List.mem_singleton.1 h
      exact .unary hkind hoperand
  | binary hkind hleft hright ihl ihr =>
    rcases List.mem_append.1 h with h | h
    · exact (List.mem_append.1 h).elim ihl ihr
    · obtain rfl := List.mem_singleton.1 h
      exact .binary hkind hleft hright

/-- **An expression stands where its tokens do**: from the beginning of the first to the end of the
last. -/
theorem WellFormed.extent_eq (h : expr.WellFormed) :
    ∃ first last, expr.tokens.head? = some first ∧ expr.tokens.getLast? = some last ∧
      expr.extent = ⟨first.extent.start?, last.extent.stop?⟩ := by
  induction h with
  | number token => exact ⟨token, token, rfl, rfl, rfl⟩
  | @unary operator operand _ _ ih =>
    obtain ⟨_, last, -, hlast, hextent⟩ := ih
    refine ⟨operator, last, rfl, by simp [tokens, List.getLast?_cons, hlast], ?_⟩
    have hstop : operand.stop? = last.extent.stop? := congrArg Extent.stop? hextent
    rw [← hstop]
    rfl
  | @binary left right operator _ _ _ ihl ihr =>
    obtain ⟨first, _, hfirst, -, hleft⟩ := ihl
    obtain ⟨_, last, -, hlast, hright⟩ := ihr
    refine ⟨first, last, by simp [tokens, hfirst], by simp [tokens, List.getLast?_cons, hlast], ?_⟩
    have hstart : left.start? = first.extent.start? := congrArg Extent.start? hleft
    have hstop : right.stop? = last.extent.stop? := congrArg Extent.stop? hright
    rw [← hstart, ← hstop]
    rfl

/-- If the tokens of an expression have their ends, it has its ends. -/
theorem WellFormed.isKnown_extent (h : expr.WellFormed)
    (htokens : ∀ token ∈ expr.tokens, token.extent.IsKnown) : expr.extent.IsKnown := by
  obtain ⟨first, last, hfirst, hlast, hextent⟩ := h.extent_eq
  obtain ⟨start, hstart⟩ := htokens first (List.mem_of_head? hfirst)
  obtain ⟨stop, hstop⟩ := htokens last (List.mem_of_getLast? hlast)
  rw [hextent, hstart, hstop]
  exact ⟨⟨start.start, stop.stop⟩, rfl⟩

/-! ### What evaluation comes to -/

/-- **A failure stands where a node does**, and has the context of the evaluation. -/
theorem exists_node_of_result_eq_failure {failure : Failure}
    (h : expr.result context = .error (.failure failure)) :
    ∃ node ∈ expr.nodes, failure.extent = node.extent ∧
      ∃ problem, failure.cause = .runtime problem context := by
  induction expr with
  | number token => cases h
  | unary operator operand ih =>
    rcases result_unary_eq_error h with hoperand | ⟨value, -, hsigned⟩
    · obtain ⟨node, hnode, hfailure⟩ := ih hoperand
      exact ⟨node, List.mem_append_left _ hnode, hfailure⟩
    · rcases value.signed_cases operator.kind with ⟨signed, hok, -⟩ | ⟨-, hfault⟩
      · cases hok.symm.trans hsigned
      · cases hfault.symm.trans hsigned
  | binary left operator right ihl ihr =>
    rcases result_binary_eq_error h with hstop | ⟨a, -, hstop⟩ | ⟨a, b, ha, hb, hcombined⟩
    · obtain ⟨node, hnode, hfailure⟩ := ihl hstop
      exact ⟨node, List.mem_append_left _ (List.mem_append_left _ hnode), hfailure⟩
    · obtain ⟨node, hnode, hfailure⟩ := ihr hstop
      exact ⟨node, List.mem_append_left _ (List.mem_append_right _ hnode), hfailure⟩
    · obtain ⟨error, rfl⟩ := Number.eq_of_operate_eq_failure hcombined
      have hcause : (Number.failure a b error).cause = .runtime (.arithmetic error) context := by
        rw [Number.failure, result_context ha]
      cases error with
      | divisionByZero =>
        refine ⟨right, ?_, result_extent hb, _, hcause⟩
        exact List.mem_append_left _ (List.mem_append_right _ right.self_mem_nodes)
      | overflow =>
        refine ⟨_, self_mem_nodes _, ?_, _, hcause⟩
        show (⟨a.extent.start?, b.extent.stop?⟩ : Extent) = ⟨left.extent.start?, right.extent.stop?⟩
        rw [result_extent ha, result_extent hb]
  | foreign name extent => cases h

theorem exists_node_of_evaluate_eq_failure {budget : Nat} {failure : Failure}
    (h : expr.evaluate context budget = .error (.failure failure)) :
    ∃ node ∈ expr.nodes, failure.extent = node.extent ∧
      ∃ problem, failure.cause = .runtime problem context := by
  rw [evaluate] at h
  rcases visit_cases context expr budget with hsame | hdeep
  · rw [hsame] at h
    split at h
    · next hdeep => exact absurd hdeep (result_ne_tooDeep expr)
    · exact exists_node_of_result_eq_failure h
  · rw [hdeep] at h
    obtain rfl := Stop.failure.inj (Except.error.inj h)
    exact ⟨expr, expr.self_mem_nodes, rfl, .tooDeep, rfl⟩

/-- With a budget, too, an expression whose literals have values comes to a number with a value, or
fails. -/
theorem WellFormed.evaluate_cases (hwf : expr.WellFormed)
    (hliterals : ∀ token ∈ expr.literals, ∃ value, token.lexeme.value? = some value)
    (budget : Nat) :
    (∃ number value, expr.evaluate context budget = .ok number ∧ number.value? = some value) ∨
      ∃ failure, expr.evaluate context budget = .error (.failure failure) := by
  rw [evaluate]
  rcases visit_cases context expr budget with hsame | hdeep
  · rw [hsame]
    rcases hwf.result_cases hliterals with ⟨number, value, hok, hvalue⟩ | ⟨failure, hfailed⟩
    · rw [hok]
      exact .inl ⟨number, value, rfl, hvalue⟩
    · rw [hfailed]
      exact .inr ⟨failure, rfl⟩
  · rw [hdeep]
    exact .inr ⟨_, rfl⟩

/-- **What evaluation can come to**, if all tokens of the expression have their ends and its
literals have values: a number with a value, or a failure with both of its ends and in the context
of the evaluation. -/
theorem evaluate_outcome (hwf : expr.WellFormed)
    (htokens : ∀ token ∈ expr.tokens, token.extent.IsKnown)
    (hliterals : ∀ token ∈ expr.literals, ∃ value, token.lexeme.value? = some value)
    (budget : Nat) :
    (∃ number value, expr.evaluate context budget = .ok number ∧ number.value? = some value) ∨
      ∃ failure, expr.evaluate context budget = .error (.failure failure) ∧
        failure.extent.IsKnown ∧ ∃ problem, failure.cause = .runtime problem context := by
  rcases hwf.evaluate_cases hliterals budget with hvalue | ⟨failure, hfailed⟩
  · exact .inl hvalue
  obtain ⟨node, hnode, hextent, hcause⟩ := exists_node_of_evaluate_eq_failure hfailed
  refine .inr ⟨failure, hfailed, ?_, hcause⟩
  rw [hextent]
  exact (hwf.of_mem_nodes hnode).isKnown_extent fun token htoken ↦
    htokens token ((tokens_sublist_of_mem_nodes hnode).subset htoken)

end Expr

end Calculator
