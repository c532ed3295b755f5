import Calculator.Proofs.Syntax.Scan

/-!
# Reading by rules

What a rule of the parser does from any cursor on, measured against the grammar and against the
scan. The answer to a rule is one of three, and `Reads` says which and why:

* the rule read an expression, which the grammar derives from the tokens that were passed, and the
  token behind them cannot go on with it;
* the rule stopped at a token at which the scan stops too, and the problem is the one that the gauge
  names;
* the rule ran out of budget, at the token with which the scan opens more than the limit allows.

The limit is what the surroundings have open and the budget together. It is the same for a rule and
for all rules that it calls, since opening something takes from the budget what it adds to the cost.

The statements are about lists in which the scan stops somewhere (`Scan.StopsAt`). This is the case
if the list has a token for the end of the text, and it is what keeps the cursor from staying at the
last token for ever: a rule advances over tokens that the scan passes, and there are more behind
them.
-/

namespace Calculator

/-! ### Passing tokens -/

namespace TokenCursor

/-- The token that is looked at, and the ones behind it. -/
def tokens (cursor : TokenCursor) : List Token := cursor.current :: cursor.rest

/-- From one cursor to another by way of some tokens. -/
structure Passes (cursor : TokenCursor) (passed : List Token) (after : TokenCursor) : Prop where
  tokens_eq : cursor.tokens = passed ++ after.tokens
  index_eq : after.index = cursor.index + passed.length

theorem Passes.refl (cursor : TokenCursor) : cursor.Passes [] cursor := ⟨rfl, rfl⟩

theorem Passes.trans {cursor mid after : TokenCursor} {passed others : List Token}
    (h : cursor.Passes passed mid) (h' : mid.Passes others after) :
    cursor.Passes (passed ++ others) after where
  tokens_eq := by rw [h.tokens_eq, h'.tokens_eq, List.append_assoc]
  index_eq := by rw [h'.index_eq, h.index_eq, List.length_append, Nat.add_assoc]

/-- Where a way leads is determined by the tokens on it. -/
theorem Passes.unique {cursor after after' : TokenCursor} {passed : List Token}
    (h : cursor.Passes passed after) (h' : cursor.Passes passed after') : after = after' := by
  have htokens : after.tokens = after'.tokens :=
    List.append_cancel_left (h.tokens_eq.symm.trans h'.tokens_eq)
  have hindex : after.index = after'.index := h.index_eq.trans h'.index_eq.symm
  obtain ⟨index, current, rest⟩ := after
  obtain ⟨rfl, rfl⟩ := List.cons.inj htokens
  rw [show index = after'.index from hindex]

/-- Where nothing was passed, nothing changed. -/
theorem Passes.eq_of_nil {cursor after : TokenCursor} (h : cursor.Passes [] after) :
    cursor = after := (Passes.refl cursor).unique h

/-- The tokens that are left get fewer by the ones that are passed. -/
theorem Passes.length_rest {cursor after : TokenCursor} {passed : List Token}
    (h : cursor.Passes passed after) : cursor.rest.length = passed.length + after.rest.length := by
  have hlength := congrArg List.length h.tokens_eq
  simp only [tokens, List.length_cons, List.length_append] at hlength
  omega

theorem passes_advance {cursor : TokenCursor} (h : cursor.rest ≠ []) :
    cursor.Passes [cursor.current] cursor.advance := by
  obtain ⟨index, current, rest⟩ := cursor
  cases rest with
  | nil => exact absurd rfl h
  | cons token rest => exact ⟨rfl, rfl⟩

/-- A first token to be passed is the current one. -/
theorem Passes.of_cons {cursor after : TokenCursor} {token : Token} {passed : List Token}
    (h : cursor.Passes (token :: passed) after) :
    cursor.current = token ∧ cursor.advance.Passes passed after := by
  obtain ⟨index, current, rest⟩ := cursor
  obtain ⟨htokens, hindex⟩ := h
  obtain ⟨rfl, rfl⟩ : current = token ∧ rest = passed ++ after.tokens := by
    simpa [tokens] using htokens
  -- what the cursor advances to is the next passed token, or else the one behind all of them
  cases passed with
  | nil => exact ⟨rfl, rfl, hindex⟩
  | cons next passed =>
    refine ⟨rfl, rfl, ?_⟩
    show after.index = index + 1 + (passed.length + 1)
    simp only [List.length_cons] at hindex
    omega

/-- Tokens can be passed one list at a time. -/
theorem Passes.of_append {cursor after : TokenCursor} {passed others : List Token}
    (h : cursor.Passes (passed ++ others) after) :
    ∃ mid, cursor.Passes passed mid ∧ mid.Passes others after := by
  obtain ⟨token, rest, hmid⟩ : ∃ token rest, others ++ after.tokens = token :: rest := by
    cases others <;> exact ⟨_, _, rfl⟩
  refine ⟨⟨cursor.index + passed.length, token, rest⟩, ⟨?_, rfl⟩, ⟨hmid.symm, ?_⟩⟩
  · rw [h.tokens_eq, List.append_assoc, hmid]
    rfl
  · rw [h.index_eq, List.length_append, Nat.add_assoc]

/-- The first cursor of a list gets to every place in it. -/
theorem exists_passes (before : List Token) (token : Token) (after : List Token) :
    ∃ cursor, ofTokens? (before ++ token :: after) = some cursor ∧
      cursor.Passes before ⟨before.length, token, after⟩ := by
  cases before with
  | nil => exact ⟨_, rfl, .refl _⟩
  | cons first before => exact ⟨_, rfl, rfl, (Nat.zero_add _).symm⟩

end TokenCursor

open TokenCursor

/-- The scan does not pass all the tokens of the cursor. -/
def Scan.StopsAt (scan : Scan) (cursor : TokenCursor) : Prop := scan.run? cursor.tokens = none

namespace Scan

theorem StopsAt.of_passes {scan next : Scan} {cursor after : TokenCursor} {passed : List Token}
    (h : scan.StopsAt cursor) (hpasses : cursor.Passes passed after)
    (hrun : scan.run? passed = some next) : next.StopsAt after := by
  have hnone : scan.run? cursor.tokens = none := h
  rwa [hpasses.tokens_eq, run?_append_of_run? hrun] at hnone

/-- Behind a token that the scan passes there is another one. -/
theorem StopsAt.passes_advance {scan next : Scan} {cursor : TokenCursor} (h : scan.StopsAt cursor)
    (hstep : scan.step? cursor.current.kind = some next) :
    cursor.Passes [cursor.current] cursor.advance := by
  refine TokenCursor.passes_advance fun hrest ↦ ?_
  simp [StopsAt, TokenCursor.tokens, run?_cons, hstep, hrest] at h

theorem StopsAt.advance {scan next : Scan} {cursor : TokenCursor} (h : scan.StopsAt cursor)
    (hstep : scan.step? cursor.current.kind = some next) : next.StopsAt cursor.advance :=
  h.of_passes (h.passes_advance hstep) (run?_singleton hstep)

end Scan

/-! ### What each rule does -/

namespace Rule

variable {cursor : TokenCursor}

theorem factor_zero_of_sign (h : cursor.current.kind = .plus ∨ cursor.current.kind = .minus) :
    factor 0 cursor = (.error .tooDeep, cursor.advance) := by
  rw [factor]
  rcases h with h | h <;> simp only [h]

theorem factor_succ_of_sign (budget : Nat)
    (h : cursor.current.kind = .plus ∨ cursor.current.kind = .minus) :
    factor (budget + 1) cursor =
      match factor budget cursor.advance with
      | (.ok operand, after) => (.ok (.unary cursor.current operand), after)
      | (.error problem, after) => (.error problem, after) := by
  rw [factor.eq_def]
  rcases hoperand : factor budget cursor.advance with ⟨problem | operand, after⟩ <;>
    rcases h with h | h <;> simp only [h, hoperand]

theorem factor_of_literal (budget : Nat)
    (h : cursor.current.kind = .int ∨ cursor.current.kind = .float) :
    factor budget cursor = (.ok (.number cursor.current), cursor.advance) := by
  rw [factor.eq_def]
  rcases h with h | h <;> simp only [h]

theorem factor_of_paren_of_lt {budget : Nat} (h : cursor.current.kind = .lparen)
    (hbudget : budget < 5) : factor budget cursor = (.error .tooDeep, cursor.advance) := by
  rw [factor.eq_def, h]
  match budget, hbudget with
  | 0, _ | 1, _ | 2, _ | 3, _ | 4, _ => rfl

theorem factor_of_paren (budget : Nat) (h : cursor.current.kind = .lparen) :
    factor (budget + 5) cursor =
      match expr budget cursor.advance with
      | (.ok inner, after) =>
        if after.current.kind = .rparen then (.ok inner, after.advance)
        else (.error .expectedClosing, after)
      | (.error problem, after) => (.error problem, after) := by
  rw [factor.eq_def, h]
  rfl

/-- Nothing else begins an operand: the kinds are the ones at which the scan stops. -/
theorem factor_of_step? (budget : Nat) {opened : List Opening}
    (h : Scan.step? ⟨true, opened⟩ cursor.current.kind = none) :
    factor budget cursor = (.error .expectedOperand, cursor) := by
  rw [factor.eq_def]
  cases hkind : cursor.current.kind <;> simp_all [Scan.step?]

end Rule

/-! ### What a rule may answer -/

/-- Is this an operator that goes on with an expression of the rank? -/
def Rank.goesOn : Rank → Kind → Bool
  | factor, _ => false
  | term, kind => Rule.isMultiplicative kind
  | expr, kind => Rule.isAdditive kind || Rule.isMultiplicative kind

/-- The answer of a rule at a cursor, given what is open around it and the most that may be open at
a time. -/
inductive Reads (limit : Nat) (opened : List Opening) (rank : Rank) (cursor : TokenCursor) :
    Except SyntaxProblem Expr × TokenCursor → Prop where
  /-- The tokens that were passed are an expression, and it ends there. -/
  | derived {passed : List Token} {expr : Expr} {after : TokenCursor}
      (hpasses : cursor.Passes passed after) (hexpr : Derives rank passed expr)
      (hnesting : Scan.nesting ⟨true, opened⟩ passed ≤ limit)
      (hends : rank.goesOn after.current.kind = false) :
    Reads limit opened rank cursor (.ok expr, after)
  /-- The scan stops here too, with an operand expected or a parenthesis of this rule open. -/
  | stopped {passed : List Token} {scan : Scan} {after : TokenCursor}
      (hpasses : cursor.Passes passed after) (hrun : Scan.run? ⟨true, opened⟩ passed = some scan)
      (hnesting : Scan.nesting ⟨true, opened⟩ passed ≤ limit)
      (hstop : scan.step? after.current.kind = none)
      (hunfinished : scan.expecting = true ∨ (settle opened).length < scan.opened.length) :
    Reads limit opened rank cursor (.error scan.gauge.problem, after)
  /-- The current token opens more than the limit allows, and was advanced over. -/
  | tooDeep {passed : List Token} {scan next : Scan} {after : TokenCursor}
      (hpasses : cursor.Passes passed after) (hrun : Scan.run? ⟨true, opened⟩ passed = some scan)
      (hnesting : Scan.nesting ⟨true, opened⟩ passed ≤ limit)
      (hstep : scan.step? after.current.kind = some next)
      (htotal : limit < Opening.total next.opened) :
    Reads limit opened rank cursor (.error .tooDeep, after.advance)

/-- What is open before a rule is within the limit, since the nesting of what it passes is. -/
theorem Reads.total_le {limit : Nat} {opened : List Opening} {rank : Rank} {cursor : TokenCursor}
    {answer : Except SyntaxProblem Expr × TokenCursor} (h : Reads limit opened rank cursor answer) :
    Opening.total opened ≤ limit := by
  cases h with
  | derived _ _ hnesting => exact Nat.le_trans (Scan.total_le_nesting _ _ _) hnesting
  | stopped _ _ hnesting => exact Nat.le_trans (Scan.total_le_nesting _ _ _) hnesting
  | tooDeep _ _ hnesting => exact Nat.le_trans (Scan.total_le_nesting _ _ _) hnesting

/-- A problem further on is the problem of the whole, if the scan passes what stands in between and
as much is open there as here, or more. -/
theorem Reads.error_of_passes {limit : Nat} {opened inside : List Opening} {rank outer : Rank}
    {cursor mid after : TokenCursor} {passed : List Token} {problem : SyntaxProblem}
    (h : Reads limit inside rank mid (.error problem, after)) (hpasses : cursor.Passes passed mid)
    (hrun : Scan.run? ⟨true, opened⟩ passed = some ⟨true, inside⟩)
    (hnesting : Scan.nesting ⟨true, opened⟩ passed ≤ limit)
    (hinside : (settle opened).length ≤ (settle inside).length) :
    Reads limit opened outer cursor (.error problem, after) := by
  have hrun' : ∀ {others scan}, Scan.run? ⟨true, inside⟩ others = some scan →
      Scan.run? ⟨true, opened⟩ (passed ++ others) = some scan := by
    intro others scan hscan
    rw [Scan.run?_append_of_run? hrun, hscan]
  have hnesting' : ∀ {others}, Scan.nesting ⟨true, inside⟩ others ≤ limit →
      Scan.nesting ⟨true, opened⟩ (passed ++ others) ≤ limit := by
    intro others hothers
    rw [Scan.nesting_append hrun]
    omega
  cases h with
  | stopped hp hr hn hstop hunfinished =>
    exact .stopped (hpasses.trans hp) (hrun' hr) (hnesting' hn) hstop
      (hunfinished.imp_right (Nat.lt_of_le_of_lt hinside))
  | tooDeep hp hr hn hstep htotal =>
    exact .tooDeep (hpasses.trans hp) (hrun' hr) (hnesting' hn) hstep htotal

/-! ### Operands with operators between them -/

/-- What the loop over operands needs of two ranks and the operators between them. -/
structure Rank.Joins (inner outer : Rank) (isOperator : Kind → Bool) : Prop where
  lift : ∀ {tokens expr}, Derives inner tokens expr → Derives outer tokens expr
  join : ∀ {tokens others left right} {operator : Token}, Derives outer tokens left →
    isOperator operator.kind = true → Derives inner others right →
    Derives outer (tokens ++ operator :: others) (.binary left operator right)
  step? : ∀ {kind opened}, isOperator kind = true →
    Scan.step? ⟨false, opened⟩ kind = some ⟨true, opened⟩
  goesOn : ∀ kind, outer.goesOn kind = (isOperator kind || inner.goesOn kind)

theorem Rank.joins_term : Rank.Joins .factor .term Rule.isMultiplicative where
  lift := .factor
  join hleft hop hright := .product hleft (by simpa [Rule.isMultiplicative] using hop) hright
  step? := by
    intro kind opened hop
    rcases (by simpa [Rule.isMultiplicative] using hop : kind = .mul ∨ kind = .div) with rfl | rfl
      <;> rfl
  goesOn kind := by simp [Rank.goesOn]

theorem Rank.joins_expr : Rank.Joins .term .expr Rule.isAdditive where
  lift := .term
  join hleft hop hright := .sum hleft (by simpa [Rule.isAdditive] using hop) hright
  step? := by
    intro kind opened hop
    rcases (by simpa [Rule.isAdditive] using hop : kind = .plus ∨ kind = .minus) with rfl | rfl
      <;> rfl
  goesOn _ := rfl

section Operands

variable {limit : Nat} {opened : List Opening} {inner outer : Rank} {operand : Rule}
  {isOperator : Kind → Bool}

/-- **The loop.** The invariant is that the tokens up to the cursor are the left operand. Every
round passes an operator at least, so that the rounds last. -/
theorem reads_chain (hj : Rank.Joins inner outer isOperator) (hsettled : settle opened = opened)
    (hoperand : ∀ cursor, Scan.StopsAt ⟨true, opened⟩ cursor →
      Reads limit opened inner cursor (operand cursor)) {start : TokenCursor} :
    ∀ {rounds : List Token} {left : Expr} {cursor : TokenCursor} {passed : List Token},
      start.Passes passed cursor → Derives outer passed left →
      Scan.nesting ⟨true, opened⟩ passed ≤ limit → Scan.StopsAt ⟨false, opened⟩ cursor →
      inner.goesOn cursor.current.kind = false → cursor.rest.length < rounds.length →
      Reads limit opened outer start (Rule.chain operand isOperator rounds left cursor) := by
  intro rounds
  induction rounds with
  | nil =>
    intro left cursor passed _ _ _ _ _ hrounds
    exact absurd hrounds (Nat.not_lt_zero _)
  | cons round rounds ih =>
    intro left cursor passed hpasses hleft hnesting hstops hinner hrounds
    have hrun := hleft.run? opened
    rw [hsettled] at hrun
    rw [Rule.chain]
    split
    · next hop =>
      have hstep : Scan.step? ⟨false, opened⟩ _ = _ := hj.step? hop
      have hadvance := hstops.passes_advance hstep
      have hpasses' := hpasses.trans hadvance
      have hrun' : Scan.run? ⟨true, opened⟩ (passed ++ [cursor.current]) =
          some ⟨true, opened⟩ := by
        rw [Scan.run?_append_of_run? hrun, Scan.run?_singleton hstep]
      have hnesting' : Scan.nesting ⟨true, opened⟩ (passed ++ [cursor.current]) ≤ limit := by
        rw [Scan.nesting_append hrun, Scan.nesting_singleton hstep]
        have := Scan.total_le_nesting true opened passed
        omega
      have hright := hoperand cursor.advance (hstops.advance hstep)
      split
      · next right after heq =>
        rw [heq] at hright
        cases hright with
        | derived hp he hn hends =>
          -- with the operator and this operand, a longer left operand for the next round
          refine ih (hpasses'.trans hp) ?_ ?_ ?_ hends ?_
          · rw [List.append_assoc]
            exact hj.join hleft hop he
          · rw [Scan.nesting_append hrun']
            omega
          · have := (hstops.advance hstep).of_passes hp (he.run? opened)
            rwa [hsettled] at this
          · have := hadvance.length_rest
            have := hp.length_rest
            simp only [List.length_cons, List.length_nil] at *
            omega
      · next problem after heq =>
        rw [heq] at hright
        exact hright.error_of_passes hpasses' hrun' hnesting' (Nat.le_refl _)
    · next hop =>
      refine .derived hpasses hleft hnesting ?_
      rw [hj.goesOn, hinner, Bool.or_false]
      exact Bool.eq_false_iff.2 hop

theorem reads_binary (hj : Rank.Joins inner outer isOperator) (hsettled : settle opened = opened)
    (hoperand : ∀ cursor, Scan.StopsAt ⟨true, opened⟩ cursor →
      Reads limit opened inner cursor (operand cursor)) {cursor : TokenCursor}
    (hstops : Scan.StopsAt ⟨true, opened⟩ cursor) :
    Reads limit opened outer cursor (Rule.binary operand isOperator cursor) := by
  have hfirst := hoperand cursor hstops
  rw [Rule.binary]
  split
  · next left after heq =>
    rw [heq] at hfirst
    cases hfirst with
    | derived hp he hn hends =>
      have hstops' := hstops.of_passes hp (he.run? opened)
      rw [hsettled] at hstops'
      exact reads_chain hj hsettled hoperand hp (hj.lift he) hn hstops' hends (Nat.lt_succ_self _)
  · next problem after heq =>
    rw [heq] at hfirst
    exact hfirst.error_of_passes (.refl cursor) rfl hfirst.total_le (Nat.le_refl _)

end Operands

/-! ### The rules of the grammar -/

section Rules

variable {budget : Nat} {opened : List Opening} {cursor : TokenCursor}

theorem reads_term_of_factor {limit : Nat} (hsettled : settle opened = opened)
    (hfactor : ∀ cursor, Scan.StopsAt ⟨true, opened⟩ cursor →
      Reads limit opened .factor cursor (Rule.factor budget cursor))
    (hstops : Scan.StopsAt ⟨true, opened⟩ cursor) :
    Reads limit opened .term cursor (Rule.term budget cursor) :=
  reads_binary Rank.joins_term hsettled hfactor hstops

theorem reads_expr_of_factor {limit : Nat} (hsettled : settle opened = opened)
    (hfactor : ∀ cursor, Scan.StopsAt ⟨true, opened⟩ cursor →
      Reads limit opened .factor cursor (Rule.factor budget cursor))
    (hstops : Scan.StopsAt ⟨true, opened⟩ cursor) :
    Reads limit opened .expr cursor (Rule.expr budget cursor) :=
  reads_binary Rank.joins_expr hsettled
    (fun _ ↦ reads_term_of_factor hsettled hfactor) hstops

/-- Reading a sign, given what the rule does with the rest of the budget. -/
theorem reads_sign (hkind : cursor.current.kind = .plus ∨ cursor.current.kind = .minus)
    (hoperand : ∀ {opened cursor}, Scan.StopsAt ⟨true, opened⟩ cursor → ∀ less < budget,
      Reads (Opening.total opened + less) opened .factor cursor (Rule.factor less cursor))
    (hstops : Scan.StopsAt ⟨true, opened⟩ cursor) :
    Reads (Opening.total opened + budget) opened .factor cursor (Rule.factor budget cursor) := by
  have hstep : Scan.step? ⟨true, opened⟩ cursor.current.kind = some ⟨true, .sign :: opened⟩ := by
    rcases hkind with hkind | hkind <;> rw [hkind] <;> rfl
  have htotal : Opening.total (.sign :: opened) = 1 + Opening.total opened :=
    Opening.total_cons .sign opened
  cases budget with
  | zero =>
    rw [Rule.factor_zero_of_sign hkind]
    refine .tooDeep (.refl cursor) rfl (Nat.le_refl _) hstep ?_
    show Opening.total opened + 0 < Opening.total (.sign :: opened)
    omega
  | succ budget =>
    have hadvance := hstops.passes_advance hstep
    have hinner := hoperand (hstops.advance hstep) budget (Nat.lt_succ_self _)
    rw [htotal, show 1 + Opening.total opened + budget =
      Opening.total opened + (budget + 1) by omega] at hinner
    rw [Rule.factor_succ_of_sign budget hkind]
    split
    · next operand after heq =>
      rw [heq] at hinner
      cases hinner with
      | derived hp he hn _ =>
        refine .derived (hadvance.trans hp) (.signed hkind he) ?_ rfl
        rw [List.singleton_append, Scan.nesting_cons hstep]
        omega
    · next problem after heq =>
      rw [heq] at hinner
      refine hinner.error_of_passes hadvance (Scan.run?_singleton hstep) ?_ (Nat.le_refl _)
      rw [Scan.nesting_singleton hstep]
      exact Nat.max_le.2 ⟨Nat.le_add_right _ _, hinner.total_le⟩

/-- Behind the expression in a parenthesis, only the end of the parenthesis will do. -/
theorem reads_closing {limit : Nat} {inner : Expr} {mid after : TokenCursor} {passed : List Token}
    (hkind : cursor.current.kind = .lparen) (hopen : cursor.Passes [cursor.current] mid)
    (hlimit : Opening.total opened ≤ limit) (hpasses : mid.Passes passed after)
    (hinner : Derives .expr passed inner)
    (hnesting : Scan.nesting ⟨true, .paren :: opened⟩ passed ≤ limit)
    (hends : Rank.expr.goesOn after.current.kind = false)
    (hstops : Scan.StopsAt ⟨false, .paren :: opened⟩ after) :
    Reads limit opened .factor cursor
      (if after.current.kind = .rparen then (.ok inner, after.advance)
        else (.error .expectedClosing, after)) := by
  have hstep : Scan.step? ⟨true, opened⟩ cursor.current.kind = some ⟨true, .paren :: opened⟩ := by
    rw [hkind]
    rfl
  have hrun : Scan.run? ⟨true, opened⟩ ([cursor.current] ++ passed) =
      some ⟨false, .paren :: opened⟩ := by
    rw [List.singleton_append, Scan.run?_cons, hstep, Option.bind_some, hinner.run?]
    rfl
  have hwhole : Scan.nesting ⟨true, opened⟩ ([cursor.current] ++ passed) ≤ limit := by
    rw [List.singleton_append, Scan.nesting_cons hstep]
    exact Nat.max_le.2 ⟨hlimit, hnesting⟩
  split
  · next hclosing =>
    have hclose : Scan.step? ⟨false, .paren :: opened⟩ after.current.kind =
        some ⟨false, settle opened⟩ := by
      rw [hclosing]
      rfl
    refine .derived ((hopen.trans hpasses).trans (hstops.passes_advance hclose))
      (.enclosed hkind hinner hclosing) ?_ rfl
    rw [Scan.nesting_append hrun, Scan.nesting_singleton hclose]
    have := total_settle_le opened
    have := Scan.total_le_nesting true (.paren :: opened) passed
    omega
  · next hclosing =>
    have hstop : Scan.step? ⟨false, .paren :: opened⟩ after.current.kind = none := by
      cases hafter : after.current.kind <;>
        simp_all [Scan.step?, Rank.goesOn, Rule.isAdditive, Rule.isMultiplicative]
    have hproblem : (Scan.gauge ⟨false, .paren :: opened⟩).problem = .expectedClosing := by
      simp [Scan.gauge, Gauge.problem]
    rw [← hproblem]
    exact .stopped (hopen.trans hpasses) hrun hwhole hstop
      (.inr (Nat.lt_succ_of_le (length_settle_le opened)))

/-- Reading a parenthesis, given what the rule does with the rest of the budget. -/
theorem reads_paren (hkind : cursor.current.kind = .lparen)
    (hoperand : ∀ {opened cursor}, Scan.StopsAt ⟨true, opened⟩ cursor → ∀ less < budget,
      Reads (Opening.total opened + less) opened .factor cursor (Rule.factor less cursor))
    (hstops : Scan.StopsAt ⟨true, opened⟩ cursor) :
    Reads (Opening.total opened + budget) opened .factor cursor (Rule.factor budget cursor) := by
  have hstep : Scan.step? ⟨true, opened⟩ cursor.current.kind = some ⟨true, .paren :: opened⟩ := by
    rw [hkind]
    rfl
  have htotal : Opening.total (.paren :: opened) = 5 + Opening.total opened :=
    Opening.total_cons .paren opened
  rcases Nat.lt_or_ge budget 5 with hbudget | hbudget
  · rw [Rule.factor_of_paren_of_lt hkind hbudget]
    refine .tooDeep (.refl cursor) rfl (Nat.le_add_right _ _) hstep ?_
    show Opening.total opened + budget < Opening.total (.paren :: opened)
    omega
  · obtain ⟨budget, rfl⟩ := Nat.exists_eq_add_of_le' hbudget
    have hadvance := hstops.passes_advance hstep
    have hinside := hstops.advance hstep
    have hinner := reads_expr_of_factor (settle_paren_cons opened)
      (fun _ hstops ↦ hoperand hstops budget (by omega)) hinside
    rw [htotal, show 5 + Opening.total opened + budget =
      Opening.total opened + (budget + 5) by omega] at hinner
    rw [Rule.factor_of_paren budget hkind]
    split
    · next inner after heq =>
      rw [heq] at hinner
      cases hinner with
      | derived hp he hn hends =>
        exact reads_closing hkind hadvance (Nat.le_add_right _ _) hp he hn hends
          (hinside.of_passes hp (he.run? _))
    · next problem after heq =>
      rw [heq] at hinner
      refine hinner.error_of_passes hadvance (Scan.run?_singleton hstep) ?_ ?_
      · rw [Scan.nesting_singleton hstep]
        exact Nat.max_le.2 ⟨Nat.le_add_right _ _, hinner.total_le⟩
      · exact Nat.le_succ_of_le (length_settle_le opened)

/-- **What a factor is read as**, for every budget and whatever is open around it. -/
theorem reads_factor (budget : Nat) : ∀ {opened : List Opening} {cursor : TokenCursor},
    Scan.StopsAt ⟨true, opened⟩ cursor →
      Reads (Opening.total opened + budget) opened .factor cursor (Rule.factor budget cursor) := by
  -- strong induction, since a parenthesis takes five at a time
  induction budget using Nat.strongRecOn with
  | ind budget ih =>
    intro opened cursor hstops
    have hoperand : ∀ {opened cursor}, Scan.StopsAt ⟨true, opened⟩ cursor → ∀ less < budget,
        Reads (Opening.total opened + less) opened .factor cursor (Rule.factor less cursor) :=
      fun hstops less hless ↦ ih less hless hstops
    rcases hstep : Scan.step? ⟨true, opened⟩ cursor.current.kind with - | next
    · rw [Rule.factor_of_step? budget hstep]
      exact .stopped (.refl cursor) rfl (Nat.le_add_right _ _) hstep (.inl rfl)
    · by_cases hsign : cursor.current.kind = .plus ∨ cursor.current.kind = .minus
      · exact reads_sign hsign hoperand hstops
      by_cases hparen : cursor.current.kind = .lparen
      · exact reads_paren hparen hoperand hstops
      have hliteral : cursor.current.kind = .int ∨ cursor.current.kind = .float := by
        cases hkind : cursor.current.kind <;> simp_all [Scan.step?]
      obtain rfl : ⟨false, settle opened⟩ = next := by
        rcases hliteral with hkind | hkind <;> simpa [hkind, Scan.step?] using hstep
      rw [Rule.factor_of_literal budget hliteral]
      refine .derived (hstops.passes_advance hstep) (.literal hliteral) ?_ rfl
      rw [Scan.nesting_singleton hstep]
      have := total_settle_le opened
      omega

/-- **What an expression is read as** in a place where no sign waits for its operand. -/
theorem reads_expr (hsettled : settle opened = opened)
    (hstops : Scan.StopsAt ⟨true, opened⟩ cursor) :
    Reads (Opening.total opened + budget) opened .expr cursor (Rule.expr budget cursor) :=
  reads_expr_of_factor hsettled (fun _ ↦ reads_factor budget) hstops

end Rules

end Calculator
