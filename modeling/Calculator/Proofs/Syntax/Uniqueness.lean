import Calculator.Proofs.Syntax.Reading

/-!
# One expression to a list of tokens

A list of tokens that the grammar derives is found by its rule, wherever it stands and whatever
follows, if there is budget enough: `Derives.finds`. The rules are functions, so no list has two
expressions (`Derives.unique`); that the budget is finite is no restriction, since it can be chosen
after the derivations.

What a rule does on the way cannot be said as "it answers with the expression", since a term or a
sum may be the left operand of a longer one. So the statement for these is that the loop goes on
from there, with the expression as its left operand and rounds enough for the rest. It is the same
reading as in the grammar, where a longer sum has a shorter one to its left.
-/

namespace Calculator

open TokenCursor

namespace Rule

variable {operand : Rule} {isOperator : Kind → Bool} {left : Expr} {cursor : TokenCursor}

/-- The loop ends in front of a token that is no operator. -/
theorem chain_of_not_isOperator (h : isOperator cursor.current.kind = false) (rounds : List Token) :
    chain operand isOperator rounds left cursor = (.ok left, cursor) := by
  cases rounds with
  | nil => rfl
  | cons round rounds => rw [chain, h]; rfl

/-- The loop begins with the first operand, and with rounds enough for all tokens that are left. -/
theorem binary_of_operand {after : TokenCursor} (h : operand cursor = (.ok left, after)) :
    ∃ rounds : List Token, after.rest.length < rounds.length ∧
      binary operand isOperator cursor = chain operand isOperator rounds left after := by
  refine ⟨after.tokens, Nat.lt_succ_self _, ?_⟩
  rw [binary, h]
  rfl

/-- A round of the loop takes an operator and an operand, and leaves rounds enough for the rest. -/
theorem chain_of_isOperator {answer : Except SyntaxProblem Expr × TokenCursor} {right : Expr}
    {others : List Token} {after : TokenCursor}
    (hleft : ∃ rounds : List Token, cursor.rest.length < rounds.length ∧
      answer = chain operand isOperator rounds left cursor)
    (hop : isOperator cursor.current.kind = true)
    (hpasses : cursor.Passes (cursor.current :: others) after)
    (hright : operand cursor.advance = (.ok right, after)) :
    ∃ rounds : List Token, after.rest.length < rounds.length ∧
      answer = chain operand isOperator rounds (.binary left cursor.current right) after := by
  obtain ⟨rounds, hrounds, rfl⟩ := hleft
  have hlength := hpasses.length_rest
  rw [List.length_cons] at hlength
  cases rounds with
  | nil => exact absurd hrounds (Nat.not_lt_zero _)
  | cons round rounds =>
    refine ⟨rounds, ?_, ?_⟩
    · rw [List.length_cons] at hrounds
      omega
    · rw [chain, hop, hright]
      rfl

end Rule

/-- The rule of a rank gets over the tokens between two cursors with an expression in hand: a factor
is done, a term and a sum go on from there. -/
def Rank.Finds (budget : Nat) (cursor after : TokenCursor) (expr : Expr) : Rank → Prop
  | .factor => Rule.factor budget cursor = (.ok expr, after)
  | .term => ∃ rounds : List Token, after.rest.length < rounds.length ∧
    Rule.term budget cursor =
      Rule.chain (Rule.factor budget) Rule.isMultiplicative rounds expr after
  | .expr => Rule.isMultiplicative after.current.kind = false →
    ∃ rounds : List Token, after.rest.length < rounds.length ∧
      Rule.expr budget cursor = Rule.chain (Rule.term budget) Rule.isAdditive rounds expr after

namespace Rank

variable {budget : Nat} {cursor after : TokenCursor} {expr : Expr}

/-- In front of anything but `*` and `/`, a term is done. -/
theorem Finds.term_eq (h : Rank.Finds budget cursor after expr .term)
    (hends : Rule.isMultiplicative after.current.kind = false) :
    Rule.term budget cursor = (.ok expr, after) := by
  obtain ⟨rounds, -, hrounds⟩ := h
  rw [hrounds, Rule.chain_of_not_isOperator hends]

/-- In front of anything but an operator, a sum is done. -/
theorem Finds.expr_eq (h : Rank.Finds budget cursor after expr .expr)
    (hends : Rank.expr.goesOn after.current.kind = false) :
    Rule.expr budget cursor = (.ok expr, after) := by
  obtain ⟨hadd, hmul⟩ := Bool.or_eq_false_iff.1 hends
  obtain ⟨rounds, -, hrounds⟩ := h hmul
  rw [hrounds, Rule.chain_of_not_isOperator hadd]

end Rank

/-- **Every derivable list is found**, wherever it stands, with budget enough. -/
theorem Derives.finds {rank : Rank} {tokens : List Token} {expr : Expr}
    (h : Derives rank tokens expr) :
    ∃ enough, ∀ {budget}, enough ≤ budget → ∀ {cursor after : TokenCursor},
      cursor.Passes tokens after → rank.Finds budget cursor after expr := by
  induction h with
  | @literal token hkind =>
    refine ⟨0, fun {budget} _ {cursor after} hpasses ↦ ?_⟩
    obtain ⟨rfl, hrest⟩ := hpasses.of_cons
    show Rule.factor budget cursor = _
    rw [Rule.factor_of_literal budget hkind, hrest.eq_of_nil]
  | @signed sign tokens operand hsign hoperand ih =>
    obtain ⟨enough, ih⟩ := ih
    refine ⟨enough + 1, fun {budget} hbudget {cursor after} hpasses ↦ ?_⟩
    obtain ⟨budget, rfl⟩ := Nat.exists_eq_add_of_le' (Nat.le_trans (Nat.le_add_left 1 _) hbudget)
    obtain ⟨rfl, hrest⟩ := hpasses.of_cons
    have hfactor : Rule.factor budget cursor.advance = _ :=
      ih (Nat.le_of_succ_le_succ hbudget) hrest
    show Rule.factor (budget + 1) cursor = _
    rw [Rule.factor_succ_of_sign budget hsign, hfactor]
  | @enclosed opening closing tokens inner hopening hinner hclosing ih =>
    obtain ⟨enough, ih⟩ := ih
    refine ⟨enough + 5, fun {budget} hbudget {cursor after} hpasses ↦ ?_⟩
    obtain ⟨budget, rfl⟩ := Nat.exists_eq_add_of_le' (Nat.le_trans (Nat.le_add_left 5 _) hbudget)
    obtain ⟨rfl, hrest⟩ := hpasses.of_cons
    obtain ⟨mid, hmid, hlast⟩ := hrest.of_append
    obtain ⟨rfl, hafter⟩ := hlast.of_cons
    have hends : Rank.expr.goesOn mid.current.kind = false := by rw [hclosing]; rfl
    have hexpr := (ih (by omega : enough ≤ budget) hmid).expr_eq hends
    show Rule.factor (budget + 5) cursor = _
    rw [Rule.factor_of_paren budget hopening, hexpr, ← hafter.eq_of_nil]
    exact if_pos hclosing
  | @factor tokens expr hfactor ih =>
    obtain ⟨enough, ih⟩ := ih
    refine ⟨enough, fun {budget} hbudget {cursor after} hpasses ↦ ?_⟩
    have hfirst : Rule.factor budget cursor = _ := ih hbudget hpasses
    exact Rule.binary_of_operand hfirst
  | @product tokens others left right operator hleft hop hright ihl ihr =>
    obtain ⟨enough, ihl⟩ := ihl
    obtain ⟨enough', ihr⟩ := ihr
    refine ⟨max enough enough', fun {budget} hbudget {cursor after} hpasses ↦ ?_⟩
    obtain ⟨mid, hmid, hlast⟩ := hpasses.of_append
    obtain ⟨rfl, hothers⟩ := hlast.of_cons
    have hmul : Rule.isMultiplicative mid.current.kind = true := by
      simpa [Rule.isMultiplicative] using hop
    have hterm := ihl (by omega : enough ≤ budget) hmid
    have hfactor : Rule.factor budget mid.advance = _ := ihr (by omega) hothers
    exact Rule.chain_of_isOperator hterm hmul hlast hfactor
  | @term tokens expr hterm ih =>
    obtain ⟨enough, ih⟩ := ih
    refine ⟨enough, fun {budget} hbudget {cursor after} hpasses hends ↦ ?_⟩
    exact Rule.binary_of_operand ((ih hbudget hpasses).term_eq hends)
  | @sum tokens others left right operator hleft hop hright ihl ihr =>
    obtain ⟨enough, ihl⟩ := ihl
    obtain ⟨enough', ihr⟩ := ihr
    refine ⟨max enough enough', fun {budget} hbudget {cursor after} hpasses hends ↦ ?_⟩
    obtain ⟨mid, hmid, hlast⟩ := hpasses.of_append
    obtain ⟨rfl, hothers⟩ := hlast.of_cons
    have hadd : Rule.isAdditive mid.current.kind = true := by
      simpa [Rule.isAdditive] using hop
    -- the left operand is found as a sum that goes on, so what follows it must not be a `*` or `/`
    have hmul : Rule.isMultiplicative mid.current.kind = false := by
      rcases hop with hop | hop <;> rw [hop] <;> rfl
    have hexpr := ihl (by omega : enough ≤ budget) hmid hmul
    have hterm := (ihr (by omega : enough' ≤ budget) hothers).term_eq hends
    exact Rule.chain_of_isOperator hexpr hadd hlast hterm

/-- **No list of tokens is two expressions.** -/
theorem Derives.unique {tokens : List Token} {expr expr' : Expr} (h : Derives .expr tokens expr)
    (h' : Derives .expr tokens expr') : expr = expr' := by
  obtain ⟨enough, hfinds⟩ := h.finds
  obtain ⟨enough', hfinds'⟩ := h'.finds
  -- the tokens in front of the end of a text, so that nothing goes on behind them
  obtain ⟨cursor, -, hpasses⟩ := exists_passes tokens ⟨.ofKind .eof, {}⟩ []
  have heq := (hfinds (Nat.le_max_left enough enough') hpasses).expr_eq rfl
  have heq' := (hfinds' (Nat.le_max_right enough enough') hpasses).expr_eq rfl
  rw [heq'] at heq
  simpa [eq_comm] using heq

end Calculator
