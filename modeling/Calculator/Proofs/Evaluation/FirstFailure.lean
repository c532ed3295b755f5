import Calculator.Proofs.Evaluation.Result

/-!
# The first failure

Which failure evaluation reports, and where it says that it is. Operands come before their operation
and the left one before the right one, so the nodes of an expression are reached in the order of
`Expr.nodes`, and the first one that fails there by itself ends the evaluation.

The place and the context of a failure are taken from the numbers of the operands, not from the
expression. They are those of the expression because of `result_extent` and `result_context`: a
number has the place of the node that it is the number of, even if a sign has passed it on or has
multiplied it by a minus one, which has no place at all.
-/

namespace Calculator

/-! ### The first of a list -/

/-- Some element of the list is in a relation with something, and the first one of them is in it
with this. -/
def FirstWhere {α β : Type} (P : α → β → Prop) (list : List α) (b : β) : Prop :=
  ∃ before a after, list = before ++ a :: after ∧
    (∀ earlier ∈ before, ∀ other, ¬ P earlier other) ∧ P a b

namespace FirstWhere

variable {α β : Type} {P : α → β → Prop} {list : List α} {b b' : β}

theorem of_head {a : α} (h : P a b) (after : List α) : FirstWhere P (a :: after) b :=
  ⟨[], a, after, rfl, fun _ hmem ↦ absurd hmem List.not_mem_nil, h⟩

/-- Elements after the first one do not matter. -/
theorem append_right (h : FirstWhere P list b) (later : List α) :
    FirstWhere P (list ++ later) b := by
  obtain ⟨before, a, after, rfl, hbefore, ha⟩ := h
  exact ⟨before, a, after ++ later, by simp, hbefore, ha⟩

/-- Nor do elements before it that are in the relation with nothing. -/
theorem append_left {earlier : List α} (hearlier : ∀ a ∈ earlier, ∀ other, ¬ P a other)
    (h : FirstWhere P list b) : FirstWhere P (earlier ++ list) b := by
  obtain ⟨before, a, after, rfl, hbefore, ha⟩ := h
  refine ⟨earlier ++ before, a, after, by simp, ?_, ha⟩
  exact List.forall_mem_append.2 ⟨hearlier, hbefore⟩

/-- There is only one first element. -/
theorem unique (h : FirstWhere P list b) (h' : FirstWhere P list b')
    (hP : ∀ a other other', P a other → P a other' → other = other') : b = b' := by
  obtain ⟨before, a, after, rfl, hbefore, ha⟩ := h
  obtain ⟨before', a', after', hsplit, hbefore', ha'⟩ := h'
  -- an element in front of the other split would come first there
  rcases List.append_eq_append_iff.1 hsplit with ⟨more, rfl, hmore⟩ | ⟨more, rfl, hmore⟩
  · cases more with
    | nil =>
      obtain ⟨rfl, -⟩ := List.cons.inj hmore
      exact hP _ _ _ ha ha'
    | cons first more =>
      obtain ⟨rfl, -⟩ := List.cons.inj hmore
      exact absurd ha (hbefore' a (by simp) b)
  · cases more with
    | nil =>
      obtain ⟨rfl, -⟩ := List.cons.inj hmore
      exact hP _ _ _ ha ha'
    | cons first more =>
      obtain ⟨rfl, -⟩ := List.cons.inj hmore
      exact absurd ha' (hbefore a' (by simp) b')

end FirstWhere

namespace Expr

/-- The nodes of the expression, operands before their operation. -/
def nodes : Expr → List Expr
  | number token => [number token]
  | unary operator operand => operand.nodes ++ [unary operator operand]
  | binary left operator right => left.nodes ++ right.nodes ++ [binary left operator right]
  | foreign name extent => [foreign name extent]

/-- The node fails by itself: its operands have numbers, and its operation on them fails. -/
inductive Fails (context : Context) (budget : Nat) : Expr → Failure → Prop where
  | unary {operator : Token} {operand : Expr} {value : Number} {failure : Failure}
      (hoperand : operand.evaluate context budget = .ok value)
      (hfailure : value.signed operator.kind = .error (.failure failure)) :
    Fails context budget (.unary operator operand) failure
  | binary {left right : Expr} {operator : Token} {a b : Number} {failure : Failure}
      (hleft : left.evaluate context budget = .ok a)
      (hright : right.evaluate context budget = .ok b)
      (hfailure : Number.operate operator.kind a b = .error (.failure failure)) :
    Fails context budget (.binary left operator right) failure

/-- The first of the nodes to fail by itself does so with the given failure. -/
abbrev FailsFirst (context : Context) (budget : Nat) (nodes : List Expr) (failure : Failure) :
    Prop :=
  FirstWhere (Fails context budget) nodes failure

variable {expr : Expr} {context : Context} {budget : Nat} {failure : Failure}

/-! ### Places and contexts -/

/-- **A number has the context of its evaluation.** -/
theorem result_context {number : Number} (h : expr.result context = .ok number) :
    number.context = context := by
  induction expr generalizing number with
  | number token =>
    obtain rfl := Except.ok.inj h
    rfl
  | unary operator operand ih =>
    obtain ⟨value, signed, hoperand, hsigned, rfl⟩ := result_unary_eq_ok h
    rcases value.signed_cases operator.kind with ⟨other, hother, hcontext⟩ | ⟨-, hfault⟩
    · obtain rfl := Except.ok.inj (hother.symm.trans hsigned)
      exact hcontext.trans (ih hoperand)
    · cases hfault.symm.trans hsigned
  | binary left operator right ihl ihr =>
    obtain ⟨a, b, combined, ha, hb, hcombined, rfl⟩ := result_binary_eq_ok h
    obtain ⟨operation, m, n, value, -, -, -, -, rfl⟩ := Number.eq_of_operate_eq_ok hcombined
    have hcontext : a.context = context := ihl ha
    exact hcontext
  | foreign name extent => cases h

/-- **A number has the place of its expression.** -/
theorem result_extent {number : Number} (h : expr.result context = .ok number) :
    number.extent = expr.extent := by
  cases expr with
  | number token =>
    obtain rfl := Except.ok.inj h
    rfl
  | unary operator operand =>
    obtain ⟨value, signed, -, -, rfl⟩ := result_unary_eq_ok h
    rfl
  | binary left operator right =>
    obtain ⟨a, b, combined, -, -, -, rfl⟩ := result_binary_eq_ok h
    rfl
  | foreign name extent => cases h

/-! ### Nodes that fail -/

/-- A sign does not fail by itself. -/
theorem not_fails_unary {operator : Token} {operand : Expr} :
    ¬ Fails context budget (unary operator operand) failure := by
  intro h
  cases h with
  | @unary _ _ value _ hoperand hfailure =>
    rcases value.signed_cases operator.kind with ⟨signed, hsigned, -⟩ | ⟨-, hfault⟩
    · cases hsigned.symm.trans hfailure
    · cases hfault.symm.trans hfailure

/-- A node that fails is an operation. It fails in the context of the evaluation, because of its
divisor or as a whole. -/
theorem Fails.eq_binary (h : Fails context budget expr failure) :
    ∃ left operator right error, expr = .binary left operator right ∧
      failure.cause = .runtime (.arithmetic error) context ∧
      (error = .divisionByZero → failure.extent = right.extent) ∧
      (error = .overflow → failure.extent = expr.extent) := by
  cases h with
  | unary hoperand hfailure => exact absurd (.unary hoperand hfailure) not_fails_unary
  | @binary left right operator a b _ hleft hright hfailure =>
    obtain ⟨error, rfl⟩ := Number.eq_of_operate_eq_failure hfailure
    have ha := result_of_evaluate_eq_ok hleft
    have hb := result_of_evaluate_eq_ok hright
    refine ⟨left, operator, right, error, rfl, ?_, ?_, ?_⟩
    · rw [Number.failure, result_context ha]
    · rintro rfl
      exact result_extent hb
    · rintro rfl
      show (⟨a.extent.start?, b.extent.stop?⟩ : Extent) = ⟨left.extent.start?, right.extent.stop?⟩
      rw [result_extent ha, result_extent hb]

/-- Where an expression has a number, none of its nodes fails. -/
theorem not_fails_of_result_eq_ok {number : Number} (h : expr.result context = .ok number) :
    ∀ node ∈ expr.nodes, ∀ other, ¬ Fails context budget node other := by
  intro node hnode other hfails
  induction expr generalizing number with
  | number token =>
    obtain rfl := List.mem_singleton.1 hnode
    cases hfails
  | unary operator operand ih =>
    obtain ⟨value, signed, hoperand, -, -⟩ := result_unary_eq_ok h
    rcases List.mem_append.1 hnode with hnode | hnode
    · exact ih hoperand hnode
    · obtain rfl := List.mem_singleton.1 hnode
      exact not_fails_unary hfails
  | binary left operator right ihl ihr =>
    obtain ⟨a, b, combined, ha, hb, hcombined, -⟩ := result_binary_eq_ok h
    rcases List.mem_append.1 hnode with hnode | hnode
    · rcases List.mem_append.1 hnode with hnode | hnode
      · exact ihl ha hnode
      · exact ihr hb hnode
    · obtain rfl := List.mem_singleton.1 hnode
      cases hfails with
      | @binary _ _ _ a' b' _ hleft hright hfailure =>
        obtain rfl := Except.ok.inj (ha.symm.trans (result_of_evaluate_eq_ok hleft))
        obtain rfl := Except.ok.inj (hb.symm.trans (result_of_evaluate_eq_ok hright))
        cases hcombined.symm.trans hfailure
  | foreign name extent => cases h

/-- **A failure is that of the first node to fail.** -/
theorem failsFirst_of_result_eq_failure (hdepth : 2 * expr.depth ≤ budget)
    (h : expr.result context = .error (.failure failure)) :
    FailsFirst context budget expr.nodes failure := by
  induction expr with
  | number token => cases h
  | unary operator operand ih =>
    rw [depth] at hdepth
    rcases result_unary_eq_error h with hoperand | ⟨value, hoperand, hsigned⟩
    · exact (ih (by omega) hoperand).append_right _
    · have heval : operand.evaluate context budget = .ok value := by
        rw [evaluate_eq_result (by omega), hoperand]
      exact absurd (.unary heval hsigned) not_fails_unary
  | binary left operator right ihl ihr =>
    rw [depth] at hdepth
    rcases result_binary_eq_error h with hleft | ⟨a, ha, hright⟩ | ⟨a, b, ha, hb, hcombined⟩
    · exact ((ihl (by omega) hleft).append_right _).append_right _
    · exact (FirstWhere.append_left (not_fails_of_result_eq_ok ha)
        (ihr (by omega) hright)).append_right _
    · -- Neither operand contains a node that fails, so the operation itself is the first.
      refine ⟨left.nodes ++ right.nodes, _, [], rfl, ?_, ?_⟩
      · intro node hnode
        rcases List.mem_append.1 hnode with hnode | hnode
        · exact not_fails_of_result_eq_ok ha node hnode
        · exact not_fails_of_result_eq_ok hb node hnode
      · refine .binary ?_ ?_ hcombined
        · rw [evaluate_eq_result (by omega), ha]
        · rw [evaluate_eq_result (by omega), hb]
  | foreign name extent => cases h

/-- An expression whose literals have values comes to a number with a value, or fails. -/
theorem WellFormed.result_cases (hwf : expr.WellFormed)
    (hliterals : ∀ token ∈ expr.literals, ∃ value, token.lexeme.value? = some value) :
    (∃ number value, expr.result context = .ok number ∧ number.value? = some value) ∨
      ∃ failure, expr.result context = .error (.failure failure) := by
  induction hwf with
  | number token =>
    obtain ⟨value, hvalue⟩ := hliterals token (by simp [literals])
    exact .inl ⟨_, value, rfl, hvalue⟩
  | @unary operator operand hkind hoperand ih =>
    rcases ih hliterals with ⟨number, value, hnumber, hvalue⟩ | ⟨failure, hfailure⟩
    · obtain ⟨signed, signedValue, hsigned, -, hsignedValue⟩ :=
        Number.signed_of_value hvalue operator.kind
      refine .inl ⟨signed.setExtent (Expr.unary operator operand).extent, signedValue, ?_,
        hsignedValue⟩
      rw [result_unary_of_ok hnumber, hsigned]
      rfl
    · refine .inr ⟨failure, ?_⟩
      rw [result, hfailure]
      rfl
  | @binary left right operator hkind hleft hright ihl ihr =>
    simp only [literals, List.forall_mem_append] at hliterals
    rcases ihl hliterals.1 with ⟨a, m, ha, hm⟩ | ⟨failure, hfailure⟩
    · rcases ihr hliterals.2 with ⟨b, n, hb, hn⟩ | ⟨failure, hfailure⟩
      · have hknown : ∃ operation, operator.kind.operation? = some operation := by
          rcases hkind with hkind | hkind | hkind | hkind <;> exact ⟨_, by rw [hkind]; rfl⟩
        obtain ⟨operation, hoperation⟩ := hknown
        rw [result_binary_of_ok ha hb, Number.operate, hoperation]
        rcases a.combine_cases operation b with
          ⟨_, _, value, -, -, -, hok⟩ | ⟨error, hfailed⟩ | ⟨hmissing, -⟩
        · exact .inl ⟨_, value, by simp only [hok]; rfl, rfl⟩
        · exact .inr ⟨_, by simp only [hfailed]; rfl⟩
        · rw [hm, hn] at hmissing
          simp at hmissing
      · refine .inr ⟨failure, ?_⟩
        rw [result, ha, hfailure]
        rfl
    · refine .inr ⟨failure, ?_⟩
      rw [result, hfailure]
      rfl

/-- **Evaluation reports the first failure.** A number has the place of its expression and the
context of the evaluation, and none of the nodes fails. A failure is that of the first node to fail,
which is an operation, and it blames the divisor or the whole operation. Nothing else can happen to
a well-formed expression whose literals have values. -/
theorem evaluate_reports_first_failure (hdepth : 2 * expr.depth ≤ budget) :
    (∀ number, expr.evaluate context budget = .ok number →
        number.extent = expr.extent ∧ number.context = context ∧
          ∀ node ∈ expr.nodes, ∀ other, ¬ Fails context budget node other) ∧
      (∀ failure, expr.evaluate context budget = .error (.failure failure) →
        ∃ before left operator right after error,
          expr.nodes = before ++ .binary left operator right :: after ∧
          (∀ earlier ∈ before, ∀ other, ¬ Fails context budget earlier other) ∧
          Fails context budget (.binary left operator right) failure ∧
          failure.cause = .runtime (.arithmetic error) context ∧
          (error = .divisionByZero → failure.extent = right.extent) ∧
          (error = .overflow → failure.extent = ⟨left.extent.start?, right.extent.stop?⟩)) ∧
      (expr.WellFormed → (∀ token ∈ expr.literals, ∃ value, token.lexeme.value? = some value) →
        ∀ fault, expr.evaluate context budget ≠ .error (.fault fault)) := by
  rw [evaluate_eq_result hdepth]
  refine ⟨?_, ?_, ?_⟩
  · intro number h
    exact ⟨result_extent h, result_context h, not_fails_of_result_eq_ok h⟩
  · intro failure h
    obtain ⟨before, node, after, hnodes, hbefore, hnode⟩ := failsFirst_of_result_eq_failure hdepth h
    obtain ⟨left, operator, right, error, rfl, hcause, hdivision, hoverflow⟩ := hnode.eq_binary
    exact ⟨before, left, operator, right, after, error, hnodes, hbefore, hnode, hcause, hdivision,
      hoverflow⟩
  · intro hwf hliterals fault h
    rcases hwf.result_cases hliterals with ⟨number, value, hok, -⟩ | ⟨failure, hfailed⟩
    · cases hok.symm.trans h
    · cases hfailed.symm.trans h

/-- Of the two divisions in `1/0-2/0` the left one is reported, at its divisor. -/
theorem evaluate_reports_left_division :
    FailsFirst .program 6
      (nodes (.binary
        (.binary (.number (.inLine "1/0-2/0" 0 1 (.literal (.int 1))))
          (.inLine "1/0-2/0" 1 2 (.ofKind .div))
          (.number (.inLine "1/0-2/0" 2 3 (.literal (.int 0)))))
        (.inLine "1/0-2/0" 3 4 (.ofKind .minus))
        (.binary (.number (.inLine "1/0-2/0" 4 5 (.literal (.int 2))))
          (.inLine "1/0-2/0" 5 6 (.ofKind .div))
          (.number (.inLine "1/0-2/0" 6 7 (.literal (.int 0)))))))
      ⟨.runtime (.arithmetic .divisionByZero) .program,
        (Source.mk "<stdin>" "1/0-2/0").stretch (2, 3)⟩ := by
  have heval : evaluate .program 6 (.binary
      (.binary (.number (.inLine "1/0-2/0" 0 1 (.literal (.int 1))))
        (.inLine "1/0-2/0" 1 2 (.ofKind .div))
        (.number (.inLine "1/0-2/0" 2 3 (.literal (.int 0)))))
      (.inLine "1/0-2/0" 3 4 (.ofKind .minus))
      (.binary (.number (.inLine "1/0-2/0" 4 5 (.literal (.int 2))))
        (.inLine "1/0-2/0" 5 6 (.ofKind .div))
        (.number (.inLine "1/0-2/0" 6 7 (.literal (.int 0)))))) =
    .error (.failure ⟨.runtime (.arithmetic .divisionByZero) .program,
      (Source.mk "<stdin>" "1/0-2/0").stretch (2, 3)⟩) := rfl
  obtain ⟨before, left, operator, right, after, error, hnodes, hbefore, hfails, -⟩ :=
    (evaluate_reports_first_failure (by decide)).2.1 _ heval
  exact ⟨before, _, after, hnodes, hbefore, hfails⟩

end Expr

end Calculator
