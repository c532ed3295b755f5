import Calculator.Proofs.Arithmetic.Infinity
import Calculator.Proofs.Evaluation.FirstFailure

/-!
# Infinities in expressions

An expression with finite literals has a finite value, or one of its operations escaped: the
operands of the node came to finite values, and the result was beyond the largest double
(`Expr.evaluate_finite_unless_escapes`). Such a node has an infinity for its number. It does not
fail, though a node fails where an integer or a quotient of integers is too large.

What happens to an infinity on its way to the root is not said here. It may come out, or turn into a
NaN, or vanish in a quotient.
-/

namespace Calculator

/-- A finite number stays finite under a sign. -/
theorem Number.isFinite_signed {number signed : Number} {value : Value} {sign : Kind}
    (hvalue : number.value? = some value) (hfinite : value.IsFinite)
    (h : number.signed sign = .ok signed) :
    ∃ other, signed.value? = some other ∧ other.IsFinite := by
  by_cases hsign : sign = .minus
  · rw [Number.signed, if_pos hsign] at h
    rcases combine_cases .mul number { value? := some (.int (-1)) } with
      ⟨a, b, other, ha, hb, happly, hok⟩ | ⟨error, hfailed⟩ | ⟨-, hfault⟩
    · obtain rfl := Option.some.inj (hvalue.symm.trans ha)
      obtain rfl := Option.some.inj hb
      obtain rfl := Except.ok.inj (h.symm.trans hok)
      exact ⟨other, rfl,
        Operation.isFinite_of_apply hfinite (.inl ⟨_, rfl⟩) Operation.not_escapes_neg_one happly⟩
    · cases h.symm.trans hfailed
    · cases h.symm.trans hfault
  · obtain rfl := Except.ok.inj ((if_neg hsign).symm.trans h)
    exact ⟨value, hvalue, hfinite⟩

namespace Expr

/-- The node is an operation whose operands have come to values. -/
inductive Combines (context : Context) (budget : Nat) :
    Expr → Operation → Value → Value → Prop where
  | binary {left right : Expr} {operator : Token} {operation : Operation} {m n : Number}
      {a b : Value} (hkind : operator.kind.operation? = some operation)
      (hleft : left.evaluate context budget = .ok m)
      (hright : right.evaluate context budget = .ok n) (ha : m.value? = some a)
      (hb : n.value? = some b) : Combines context budget (.binary left operator right) operation a b

variable {expr : Expr} {context : Context} {budget : Nat}

theorem depth_le_of_evaluate_eq_ok {number : Number}
    (h : expr.evaluate context budget = .ok number) : 2 * expr.depth ≤ budget := by
  rw [evaluate] at h
  split at h
  · cases h
  · exact depth_le_of_visit_eq_ok h

/-- The operands of the node came to finite values whose exact result is beyond the largest
double. -/
def Escapes (context : Context) (budget : Nat) (node : Expr) : Prop :=
  ∃ operation a b, node.Combines context budget operation a b ∧ operation.Escapes a b

/-- **Without an escape all numbers are finite.** -/
theorem isFinite_of_result (hdepth : 2 * expr.depth ≤ budget)
    (hliterals : ∀ token ∈ expr.literals, ∃ value, token.lexeme.value? = some value ∧
      value.IsFinite)
    (hescapes : ∀ node ∈ expr.nodes, ¬ node.Escapes context budget) {number : Number}
    (h : expr.result context = .ok number) :
    ∃ value, number.value? = some value ∧ value.IsFinite := by
  induction expr generalizing number with
  | number token =>
    obtain rfl := Except.ok.inj h
    exact hliterals token (List.mem_singleton.2 rfl)
  | unary operator operand ih =>
    rw [depth] at hdepth
    obtain ⟨m, signed, hoperand, hsigned, rfl⟩ := result_unary_eq_ok h
    obtain ⟨value, hvalue, hfinite⟩ := ih (by omega) hliterals
      (fun node hnode ↦ hescapes node (List.mem_append_left _ hnode)) hoperand
    obtain ⟨other, hother, hfinite⟩ := Number.isFinite_signed hvalue hfinite hsigned
    exact ⟨other, hother, hfinite⟩
  | binary left operator right ihl ihr =>
    rw [depth] at hdepth
    rw [literals, List.forall_mem_append] at hliterals
    rw [nodes, List.forall_mem_append, List.forall_mem_append] at hescapes
    obtain ⟨⟨hleft, hright⟩, hself⟩ := hescapes
    obtain ⟨m, n, combined, hm, hn, hcombined, rfl⟩ := result_binary_eq_ok h
    obtain ⟨a, ha, hafinite⟩ := ihl (by omega) hliterals.1 hleft hm
    obtain ⟨b, hb, hbfinite⟩ := ihr (by omega) hliterals.2 hright hn
    obtain ⟨operation, a', b', value, hkind, ha', hb', happly, rfl⟩ :=
      Number.eq_of_operate_eq_ok hcombined
    obtain rfl := Option.some.inj (ha.symm.trans ha')
    obtain rfl := Option.some.inj (hb.symm.trans hb')
    have hcombines : (binary left operator right).Combines context budget operation a b :=
      .binary hkind ((evaluate_eq_result (by omega)).trans hm)
        ((evaluate_eq_result (by omega)).trans hn) ha hb
    refine ⟨value, rfl, Operation.isFinite_of_apply hafinite hbfinite (fun hescape ↦ ?_) happly⟩
    exact hself _ (List.mem_singleton.2 rfl) ⟨operation, a, b, hcombines, hescape⟩
  | foreign name extent => cases h

/-- What a node comes to is decided by the values of its operands. -/
theorem evaluate_of_combines {operation : Operation} {a b : Value}
    (hdepth : 2 * expr.depth ≤ budget) (h : expr.Combines context budget operation a b) :
    (∀ value, operation.apply a b = .ok value →
        expr.evaluate context budget = .ok ⟨some value, expr.extent, context⟩) ∧
      (operation.apply a b = .error .overflow → expr.evaluate context budget =
        .error (.failure ⟨.runtime (.arithmetic .overflow) context, expr.extent⟩)) := by
  cases h with
  | @binary left right operator _ m n _ _ hkind hleft hright ha hb =>
    have hm := result_of_evaluate_eq_ok hleft
    have hn := result_of_evaluate_eq_ok hright
    have hoperate : Number.operate operator.kind m n = m.combine operation n := by
      rw [Number.operate, hkind]
    rw [evaluate_eq_result hdepth, result_binary_of_ok hm hn, hoperate]
    refine ⟨fun value happly ↦ ?_, fun happly ↦ ?_⟩
    · rw [Number.combine_of_apply ha hb happly, result_context hm]
      rfl
    · have hextent : (binary left operator right).extent =
          ⟨m.extent.start?, n.extent.stop?⟩ := by
        rw [result_extent hm, result_extent hn]
        rfl
      rw [Number.combine, ha, hb, hextent, ← result_context hm]
      simp only [happly]
      rfl

/-- **Values are finite unless a node escapes**, and a node that escapes does not fail. If the
literals of an expression are finite, then so is its value, if no operation in it has a result
beyond the largest double that is calculated on doubles. Such an operation has an infinity for its
result; only one that has to convert an integer or to divide two, and has no double for the result,
fails with an overflow. -/
theorem evaluate_finite_unless_escapes
    (hliterals : ∀ token ∈ expr.literals, ∃ value, token.lexeme.value? = some value ∧
      value.IsFinite) :
    ((∀ node ∈ expr.nodes, ¬ node.Escapes context budget) → ∀ number,
        expr.evaluate context budget = .ok number →
          ∃ value, number.value? = some value ∧ value.IsFinite) ∧
      ∀ node ∈ expr.nodes, 2 * node.depth ≤ budget →
        (node.Escapes context budget → ∃ negative, node.evaluate context budget =
          .ok ⟨some (.float (.infinite negative)), node.extent, context⟩) ∧
        ∀ operation a b, node.Combines context budget operation a b → operation.Overflows a b →
          ¬ (operation = .div ∧ b.isZero = true) → node.evaluate context budget =
            .error (.failure ⟨.runtime (.arithmetic .overflow) context, node.extent⟩) := by
  refine ⟨fun hescapes number h ↦ isFinite_of_result (depth_le_of_evaluate_eq_ok h) hliterals
    hescapes (result_of_evaluate_eq_ok h), fun node _ hdepth ↦ ⟨?_, ?_⟩⟩
  · rintro ⟨operation, a, b, hcombines, hescapes⟩
    obtain ⟨negative, happly⟩ := Operation.apply_of_escapes hescapes
    exact ⟨negative, (evaluate_of_combines hdepth hcombines).1 _ happly⟩
  · intro operation a b hcombines hoverflows hzero
    refine (evaluate_of_combines hdepth hcombines).2 ?_
    rw [Operation.apply, if_neg hzero, (Operation.combine?_eq_none_iff hzero).2 hoverflows]

/-- A double, added to itself in a line where it is written twice. -/
def doubled (x : Double) (written : List Char) : Expr :=
  .binary
    (.number (.inLine (.ofList (written ++ '+' :: written)) 0 written.length
      (.literal (.float x))))
    (.inLine (.ofList (written ++ '+' :: written)) written.length (written.length + 1)
      (.ofKind .plus))
    (.number (.inLine (.ofList (written ++ '+' :: written)) (written.length + 1)
      (2 * written.length + 1) (.literal (.float x))))

theorem evaluate_doubled (x : Double) (written : List Char) :
    (doubled x written).evaluate .program depthBudget =
      .ok ⟨some (.float (x.add x)), (doubled x written).extent, .program⟩ := rfl

theorem isFinite_literals_doubled (negative : Bool) (rank : Fin Double.magnitudeCount)
    (written : List Char) : ∀ token ∈ (doubled (.finite negative rank) written).literals,
      ∃ value, token.lexeme.value? = some value ∧ value.IsFinite := by
  intro token htoken
  have hlexeme : token.lexeme = .literal (.float (.finite negative rank)) := by
    simp only [doubled, literals, List.cons_append, List.nil_append, List.mem_cons,
      List.not_mem_nil, or_false] at htoken
    rcases htoken with rfl | rfl <;> rfl
  rw [hlexeme]
  exact ⟨_, rfl, .inr ⟨negative, rank, rfl⟩⟩

/-- The largest double, written with all of its digits. -/
def largestWritten : List Char := Text.digits (Nat.pow 2 1024 - Nat.pow 2 971) ++ ['.', '0']

example : Double.ofText? largestWritten = some (.finite false (Fin.last _)) := by decide +kernel

theorem largest_add_largest :
    (Double.finite false (Fin.last _)).add (.finite false (Fin.last _)) = .infinite false := by
  decide +kernel

/-- **The largest double, added to itself, has an infinite value**, though its literals are
finite. -/
theorem evaluate_doubled_largest :
    (∀ token ∈ (doubled (.finite false (Fin.last _)) largestWritten).literals,
      ∃ value, token.lexeme.value? = some value ∧ value.IsFinite) ∧
      (doubled (.finite false (Fin.last _)) largestWritten).evaluate .program depthBudget =
        .ok ⟨some (.float (.infinite false)),
          (doubled (.finite false (Fin.last _)) largestWritten).extent, .program⟩ :=
  ⟨isFinite_literals_doubled _ _ _, largest_add_largest ▸ evaluate_doubled _ _⟩

/-- So it is a node that escapes. -/
theorem exists_escapes_doubled_largest :
    (∀ token ∈ (doubled (.finite false (Fin.last _)) largestWritten).literals,
      ∃ value, token.lexeme.value? = some value ∧ value.IsFinite) ∧
      ∃ node ∈ (doubled (.finite false (Fin.last _)) largestWritten).nodes,
        node.Escapes .program depthBudget := by
  have hliterals := isFinite_literals_doubled false (Fin.last _) largestWritten
  refine ⟨hliterals, ?_⟩
  by_contra hnone
  obtain ⟨value, hvalue, hfinite⟩ := (evaluate_finite_unless_escapes hliterals).1
    (fun node hnode hescapes ↦ hnone ⟨node, hnode, hescapes⟩)
    ⟨some (.float (.infinite false)),
      (doubled (.finite false (Fin.last _)) largestWritten).extent, .program⟩
    (largest_add_largest ▸ evaluate_doubled _ _)
  obtain rfl := Option.some.inj hvalue
  rcases hfinite with ⟨n, hn⟩ | ⟨negative, rank, hx⟩
  · cases hn
  · cases hx

end Expr

end Calculator
