import Mathlib.Computability.Partrec
import Calculator.Proofs.Syntax.Reading

/-!
# Reading without a budget

The rules of the parser with nothing to bound their nesting. `Rule.read?` is the rule of a rank, and
`Rule.goOn?` the loop over operands. Neither has a budget or a number of rounds. They call each
other as often as there are operands to read, and have no answer if that goes on for ever, as it
does in a list that ends with a sign and repeats it.

They are limits. `Rule.readWithin?` and `Rule.goOnWithin?` call each other in the same way, but only
so many calls within each other. An answer that they have come to stays the same with more of them
(`readWithin?_mono`), and the limit is the answer they ever come to (`read?_eq_some_iff`).

The answers of the rules with a budget are the same as long as the budget lasts: an answer other
than the one that nesting is too deep is the answer without a budget (`read?_eq_expr`). The proof
follows the rules with a budget, whose recursion is on the budget and on the rounds. That the rounds
last is known from `Reads`: an operand that was read leaves fewer tokens.
-/

namespace Calculator

open TokenCursor

namespace Rank

/-- The rank of the operands between which the operators of a rank stand. -/
def operand : Rank → Rank
  | factor | term => factor
  | expr => term

/-- Is this an operator between operands? No operator stands between the parts of a factor. -/
def isOperator : Rank → Kind → Bool
  | factor => fun _ ↦ false
  | term => Rule.isMultiplicative
  | expr => Rule.isAdditive

end Rank

namespace Rule

/-- What a rule says: the expression or the problem, and the cursor where it ended. -/
abbrev Answer := Except SyntaxProblem Expr × TokenCursor

mutual

/-- The answer of the rule of a rank, if it comes to one with so many calls within each other. -/
def readWithin? : Nat → Rank → TokenCursor → Option Answer
  | 0, _, _ => none
  | calls + 1, .factor, cursor =>
    match cursor.current.kind with
    | .plus | .minus => do
      match ← readWithin? calls .factor cursor.advance with
      | (.ok operand, after) => return (.ok (.unary cursor.current operand), after)
      | (.error problem, after) => return (.error problem, after)
    | .int | .float => return (.ok (.number cursor.current), cursor.advance)
    | .lparen => do
      match ← readWithin? calls .expr cursor.advance with
      | (.ok inner, after) =>
        if after.current.kind = .rparen then return (.ok inner, after.advance)
        else return (.error .expectedClosing, after)
      | (.error problem, after) => return (.error problem, after)
    | _ => return (.error .expectedOperand, cursor)
  | calls + 1, rank, cursor => do
    match ← readWithin? calls rank.operand cursor with
    | (.ok left, after) => goOnWithin? calls rank left after
    | (.error problem, after) => return (.error problem, after)

/-- Goes on after a left operand for as long as operators follow, with so many calls within each
other. -/
def goOnWithin? : Nat → Rank → Expr → TokenCursor → Option Answer
  | 0, _, _, _ => none
  | calls + 1, rank, left, cursor =>
    if rank.isOperator cursor.current.kind then do
      match ← readWithin? calls rank.operand cursor.advance with
      | (.ok right, after) => goOnWithin? calls rank (.binary left cursor.current right) after
      | (.error problem, after) => return (.error problem, after)
    else return (.ok left, cursor)

end

open Classical in
/-- The answer of the rule of a rank, if it comes to one. -/
noncomputable def read? (rank : Rank) (cursor : TokenCursor) : Option Answer :=
  (Nat.rfindOpt fun calls ↦ readWithin? calls rank cursor).toOption

open Classical in
/-- Goes on after a left operand for as long as operators follow. -/
noncomputable def goOn? (rank : Rank) (left : Expr) (cursor : TokenCursor) : Option Answer :=
  (Nat.rfindOpt fun calls ↦ goOnWithin? calls rank left cursor).toOption

/-! ### What each rule does with so many calls -/

section Calls

variable {calls more : Nat} {cursor : TokenCursor} {rank : Rank} {left : Expr} {answer : Answer}

theorem readWithin?_succ_of_sign (calls : Nat)
    (h : cursor.current.kind = .plus ∨ cursor.current.kind = .minus) :
    readWithin? (calls + 1) .factor cursor =
      (readWithin? calls .factor cursor.advance).map fun answer ↦
        (answer.1.map (.unary cursor.current), answer.2) := by
  rw [readWithin?]
  rcases h with h | h <;> rw [h] <;>
    rcases readWithin? calls .factor cursor.advance with - | ⟨problem | operand, after⟩ <;> rfl

theorem readWithin?_succ_of_literal (calls : Nat)
    (h : cursor.current.kind = .int ∨ cursor.current.kind = .float) :
    readWithin? (calls + 1) .factor cursor =
      some (.ok (.number cursor.current), cursor.advance) := by
  rw [readWithin?]
  rcases h with h | h <;> rw [h] <;> rfl

theorem readWithin?_succ_of_paren (calls : Nat) (h : cursor.current.kind = .lparen) :
    readWithin? (calls + 1) .factor cursor =
      (readWithin? calls .expr cursor.advance).map fun
        | (.ok inner, after) =>
          if after.current.kind = .rparen then (.ok inner, after.advance)
          else (.error .expectedClosing, after)
        | (.error problem, after) => (.error problem, after) := by
  rw [readWithin?, h]
  rcases readWithin? calls .expr cursor.advance with - | ⟨problem | inner, after⟩
  · rfl
  · rfl
  · by_cases hclosing : after.current.kind = .rparen <;> simp [hclosing]

/-- Nothing else begins an operand. -/
theorem readWithin?_succ_of_step? (calls : Nat) {opened : List Opening}
    (h : Scan.step? ⟨true, opened⟩ cursor.current.kind = none) :
    readWithin? (calls + 1) .factor cursor = some (.error .expectedOperand, cursor) := by
  rw [readWithin?]
  cases hkind : cursor.current.kind <;> simp_all [Scan.step?]

theorem readWithin?_succ_of_ne_factor (calls : Nat) (hrank : rank ≠ .factor) :
    readWithin? (calls + 1) rank cursor =
      (readWithin? calls rank.operand cursor).bind fun
        | (.ok left, after) => goOnWithin? calls rank left after
        | (.error problem, after) => some (.error problem, after) := by
  cases rank with
  | factor => exact absurd rfl hrank
  | term =>
    rw [readWithin?]
    · rfl
    · exact hrank
  | expr =>
    rw [readWithin?]
    · rfl
    · exact hrank

theorem goOnWithin?_succ_of_isOperator (calls : Nat)
    (hop : rank.isOperator cursor.current.kind = true) :
    goOnWithin? (calls + 1) rank left cursor =
      (readWithin? calls rank.operand cursor.advance).bind fun
        | (.ok right, after) => goOnWithin? calls rank (.binary left cursor.current right) after
        | (.error problem, after) => some (.error problem, after) := by
  rw [goOnWithin?, if_pos hop]
  rfl

theorem goOnWithin?_succ_of_not_isOperator (calls : Nat)
    (hop : rank.isOperator cursor.current.kind = false) :
    goOnWithin? (calls + 1) rank left cursor = some (.ok left, cursor) := by
  rw [goOnWithin?, hop]
  rfl

/-- One call more changes no answer that has been come to. -/
theorem within_succ (calls : Nat) :
    (∀ {rank cursor answer}, readWithin? calls rank cursor = some answer →
      readWithin? (calls + 1) rank cursor = some answer) ∧
    (∀ {rank left cursor answer}, goOnWithin? calls rank left cursor = some answer →
      goOnWithin? (calls + 1) rank left cursor = some answer) := by
  induction calls with
  | zero =>
    constructor <;> intros <;> simp_all [readWithin?, goOnWithin?]
  | succ calls ih =>
    obtain ⟨ihread, ihgoOn⟩ := ih
    constructor
    · intro rank cursor answer h
      by_cases hrank : rank = .factor
      · subst hrank
        rcases hstep : Scan.step? ⟨true, []⟩ cursor.current.kind with - | next
        · rw [readWithin?_succ_of_step? _ hstep] at h ⊢
          exact h
        by_cases hsign : cursor.current.kind = .plus ∨ cursor.current.kind = .minus
        · rw [readWithin?_succ_of_sign _ hsign, Option.map_eq_some_iff] at h ⊢
          exact h.imp fun _ ↦ And.imp_left ihread
        by_cases hparen : cursor.current.kind = .lparen
        · rw [readWithin?_succ_of_paren _ hparen, Option.map_eq_some_iff] at h ⊢
          exact h.imp fun _ ↦ And.imp_left ihread
        have hliteral : cursor.current.kind = .int ∨ cursor.current.kind = .float := by
          cases hkind : cursor.current.kind <;> simp_all [Scan.step?]
        rw [readWithin?_succ_of_literal _ hliteral] at h ⊢
        exact h
      · rw [readWithin?_succ_of_ne_factor _ hrank, Option.bind_eq_some_iff] at h ⊢
        obtain ⟨⟨problem | left, after⟩, hleft, h⟩ := h
        · exact ⟨_, ihread hleft, h⟩
        · exact ⟨_, ihread hleft, ihgoOn h⟩
    · intro rank left cursor answer h
      by_cases hop : rank.isOperator cursor.current.kind = true
      · rw [goOnWithin?_succ_of_isOperator _ hop, Option.bind_eq_some_iff] at h ⊢
        obtain ⟨⟨problem | right, after⟩, hright, h⟩ := h
        · exact ⟨_, ihread hright, h⟩
        · exact ⟨_, ihread hright, ihgoOn h⟩
      · rw [Bool.not_eq_true] at hop
        rw [goOnWithin?_succ_of_not_isOperator _ hop] at h ⊢
        exact h

theorem readWithin?_mono (hle : calls ≤ more) (h : readWithin? calls rank cursor = some answer) :
    readWithin? more rank cursor = some answer := by
  induction hle with
  | refl => exact h
  | step _ ih => exact (within_succ _).1 ih

theorem goOnWithin?_mono (hle : calls ≤ more)
    (h : goOnWithin? calls rank left cursor = some answer) :
    goOnWithin? more rank left cursor = some answer := by
  induction hle with
  | refl => exact h
  | step _ ih => exact (within_succ _).2 ih

open Classical in
/-- **The limit** is the answer that is ever come to. -/
theorem read?_eq_some_iff :
    read? rank cursor = some answer ↔ ∃ calls, readWithin? calls rank cursor = some answer := by
  rw [read?, Part.toOption_eq_some_iff]
  exact Nat.rfindOpt_mono readWithin?_mono

open Classical in
theorem goOn?_eq_some_iff :
    goOn? rank left cursor = some answer ↔
      ∃ calls, goOnWithin? calls rank left cursor = some answer := by
  rw [goOn?, Part.toOption_eq_some_iff]
  exact Nat.rfindOpt_mono goOnWithin?_mono

end Calls

/-! ### What each rule does -/

section Steps

variable {cursor after : TokenCursor} {rank : Rank} {left right : Expr} {problem : SyntaxProblem}
  {answer : Answer}

theorem read?_of_sign (h : cursor.current.kind = .plus ∨ cursor.current.kind = .minus)
    (hoperand : read? .factor cursor.advance = some answer) :
    read? .factor cursor = some (answer.1.map (.unary cursor.current), answer.2) := by
  obtain ⟨calls, hcalls⟩ := read?_eq_some_iff.1 hoperand
  refine read?_eq_some_iff.2 ⟨calls + 1, ?_⟩
  rw [readWithin?_succ_of_sign _ h, hcalls]
  rfl

theorem read?_of_literal (h : cursor.current.kind = .int ∨ cursor.current.kind = .float) :
    read? .factor cursor = some (.ok (.number cursor.current), cursor.advance) :=
  read?_eq_some_iff.2 ⟨1, readWithin?_succ_of_literal 0 h⟩

theorem read?_of_paren {inner : Expr} (h : cursor.current.kind = .lparen)
    (hinner : read? .expr cursor.advance = some (.ok inner, after)) :
    read? .factor cursor =
      some (if after.current.kind = .rparen then (.ok inner, after.advance)
        else (.error .expectedClosing, after)) := by
  obtain ⟨calls, hcalls⟩ := read?_eq_some_iff.1 hinner
  refine read?_eq_some_iff.2 ⟨calls + 1, ?_⟩
  rw [readWithin?_succ_of_paren _ h, hcalls]
  rfl

theorem read?_of_paren_of_error (h : cursor.current.kind = .lparen)
    (hinner : read? .expr cursor.advance = some (.error problem, after)) :
    read? .factor cursor = some (.error problem, after) := by
  obtain ⟨calls, hcalls⟩ := read?_eq_some_iff.1 hinner
  refine read?_eq_some_iff.2 ⟨calls + 1, ?_⟩
  rw [readWithin?_succ_of_paren _ h, hcalls]
  rfl

theorem read?_of_step? {opened : List Opening}
    (h : Scan.step? ⟨true, opened⟩ cursor.current.kind = none) :
    read? .factor cursor = some (.error .expectedOperand, cursor) :=
  read?_eq_some_iff.2 ⟨1, readWithin?_succ_of_step? 0 h⟩

theorem read?_of_ne_factor (hrank : rank ≠ .factor)
    (hleft : read? rank.operand cursor = some (.ok left, after))
    (hmore : goOn? rank left after = some answer) : read? rank cursor = some answer := by
  obtain ⟨calls, hcalls⟩ := read?_eq_some_iff.1 hleft
  obtain ⟨calls', hcalls'⟩ := goOn?_eq_some_iff.1 hmore
  refine read?_eq_some_iff.2 ⟨max calls calls' + 1, ?_⟩
  rw [readWithin?_succ_of_ne_factor _ hrank, readWithin?_mono (Nat.le_max_left ..) hcalls]
  exact goOnWithin?_mono (Nat.le_max_right ..) hcalls'

theorem read?_of_ne_factor_of_error (hrank : rank ≠ .factor)
    (hleft : read? rank.operand cursor = some (.error problem, after)) :
    read? rank cursor = some (.error problem, after) := by
  obtain ⟨calls, hcalls⟩ := read?_eq_some_iff.1 hleft
  refine read?_eq_some_iff.2 ⟨calls + 1, ?_⟩
  rw [readWithin?_succ_of_ne_factor _ hrank, hcalls]
  rfl

theorem goOn?_of_isOperator (hop : rank.isOperator cursor.current.kind = true)
    (hright : read? rank.operand cursor.advance = some (.ok right, after))
    (hmore : goOn? rank (.binary left cursor.current right) after = some answer) :
    goOn? rank left cursor = some answer := by
  obtain ⟨calls, hcalls⟩ := read?_eq_some_iff.1 hright
  obtain ⟨calls', hcalls'⟩ := goOn?_eq_some_iff.1 hmore
  refine goOn?_eq_some_iff.2 ⟨max calls calls' + 1, ?_⟩
  rw [goOnWithin?_succ_of_isOperator _ hop, readWithin?_mono (Nat.le_max_left ..) hcalls]
  exact goOnWithin?_mono (Nat.le_max_right ..) hcalls'

theorem goOn?_of_isOperator_of_error (hop : rank.isOperator cursor.current.kind = true)
    (hright : read? rank.operand cursor.advance = some (.error problem, after)) :
    goOn? rank left cursor = some (.error problem, after) := by
  obtain ⟨calls, hcalls⟩ := read?_eq_some_iff.1 hright
  refine goOn?_eq_some_iff.2 ⟨calls + 1, ?_⟩
  rw [goOnWithin?_succ_of_isOperator _ hop, hcalls]
  rfl

theorem goOn?_of_not_isOperator (hop : rank.isOperator cursor.current.kind = false) :
    goOn? rank left cursor = some (.ok left, cursor) :=
  goOn?_eq_some_iff.2 ⟨1, goOnWithin?_succ_of_not_isOperator 0 hop⟩

end Steps

/-! ### As long as the budget lasts -/

section Operands

variable {limit : Nat} {opened : List Opening} {operand : Rule}

/-- **The loop** without rounds goes on as the one with rounds does, if there is a round for every
token. -/
theorem goOn?_eq_chain {rank : Rank} (hj : Rank.Joins rank.operand rank rank.isOperator)
    (hsettled : settle opened = opened)
    (hreads : ∀ cursor, Scan.StopsAt ⟨true, opened⟩ cursor →
      Reads limit opened rank.operand cursor (operand cursor))
    (hoperand : ∀ cursor, Scan.StopsAt ⟨true, opened⟩ cursor →
      (operand cursor).1 ≠ .error .tooDeep → read? rank.operand cursor = some (operand cursor)) :
    ∀ {rounds : List Token} {left : Expr} {cursor : TokenCursor},
      Scan.StopsAt ⟨false, opened⟩ cursor → cursor.rest.length < rounds.length →
      (chain operand rank.isOperator rounds left cursor).1 ≠ .error .tooDeep →
      goOn? rank left cursor = some (chain operand rank.isOperator rounds left cursor) := by
  intro rounds
  induction rounds with
  | nil =>
    intro left cursor _ hrounds
    exact absurd hrounds (Nat.not_lt_zero _)
  | cons round rounds ih =>
    intro left cursor hstops hrounds hdeep
    by_cases hop : rank.isOperator cursor.current.kind = true
    · have hstep : Scan.step? ⟨false, opened⟩ _ = _ := hj.step? hop
      have hstops' := hstops.advance hstep
      have hread := hreads cursor.advance hstops'
      have hright := hoperand cursor.advance hstops'
      rw [chain, if_pos hop] at hdeep ⊢
      rcases heq : operand cursor.advance with ⟨problem | right, after⟩
      · rw [heq] at hdeep hright
        exact goOn?_of_isOperator_of_error hop (hright hdeep)
      · rw [heq] at hdeep hread hright
        refine goOn?_of_isOperator hop (hright (by simp)) ?_
        cases hread with
        | derived hp he hn hends =>
          have hstops'' := hstops'.of_passes hp (he.run? opened)
          rw [hsettled] at hstops''
          refine ih hstops'' ?_ hdeep
          -- the operator at least was passed
          have := (hstops.passes_advance hstep).length_rest
          have := hp.length_rest
          simp only [List.length_cons, List.length_nil] at *
          omega
    · rw [Bool.not_eq_true] at hop
      rw [goOn?_of_not_isOperator hop, chain, hop]
      rfl

theorem read?_eq_binary (rank : Rank) (hrank : rank ≠ .factor)
    (hj : Rank.Joins rank.operand rank rank.isOperator) (hsettled : settle opened = opened)
    (hreads : ∀ cursor, Scan.StopsAt ⟨true, opened⟩ cursor →
      Reads limit opened rank.operand cursor (operand cursor))
    (hoperand : ∀ cursor, Scan.StopsAt ⟨true, opened⟩ cursor →
      (operand cursor).1 ≠ .error .tooDeep → read? rank.operand cursor = some (operand cursor))
    {cursor : TokenCursor} (hstops : Scan.StopsAt ⟨true, opened⟩ cursor)
    (hdeep : (binary operand rank.isOperator cursor).1 ≠ .error .tooDeep) :
    read? rank cursor = some (binary operand rank.isOperator cursor) := by
  have hread := hreads cursor hstops
  have hfirst := hoperand cursor hstops
  rw [binary] at hdeep ⊢
  rcases heq : operand cursor with ⟨problem | left, after⟩
  · rw [heq] at hdeep hfirst
    exact read?_of_ne_factor_of_error hrank (hfirst hdeep)
  · rw [heq] at hdeep hread hfirst
    refine read?_of_ne_factor hrank (hfirst (by simp)) ?_
    cases hread with
    | derived hp he hn hends =>
      have hstops' := hstops.of_passes hp (he.run? opened)
      rw [hsettled] at hstops'
      exact goOn?_eq_chain hj hsettled hreads hoperand hstops' (Nat.lt_succ_self _) hdeep

end Operands

section Rules

variable {budget : Nat} {opened : List Opening} {cursor : TokenCursor}

/-- The rule for expressions, given what the rule for factors does with the same budget. -/
theorem read?_eq_expr_of_factor (hsettled : settle opened = opened)
    (hfactor : ∀ cursor, Scan.StopsAt ⟨true, opened⟩ cursor →
      (factor budget cursor).1 ≠ .error .tooDeep →
        read? .factor cursor = some (factor budget cursor))
    (hstops : Scan.StopsAt ⟨true, opened⟩ cursor)
    (hdeep : (expr budget cursor).1 ≠ .error .tooDeep) :
    read? .expr cursor = some (expr budget cursor) := by
  have hreads : ∀ cursor, Scan.StopsAt ⟨true, opened⟩ cursor →
      Reads (Opening.total opened + budget) opened .factor cursor (factor budget cursor) :=
    fun _ ↦ reads_factor budget
  have hterm : ∀ cursor, Scan.StopsAt ⟨true, opened⟩ cursor →
      (term budget cursor).1 ≠ .error .tooDeep → read? .term cursor = some (term budget cursor) :=
    fun _ ↦ read?_eq_binary .term (by decide) Rank.joins_term hsettled hreads hfactor
  exact read?_eq_binary .expr (by decide) Rank.joins_expr hsettled
    (fun _ ↦ reads_term_of_factor hsettled hreads) hterm hstops hdeep

/-- **What a factor is read as** within its budget, it is read as without one. -/
theorem read?_eq_factor (budget : Nat) : ∀ {opened : List Opening} {cursor : TokenCursor},
    Scan.StopsAt ⟨true, opened⟩ cursor → (factor budget cursor).1 ≠ .error .tooDeep →
      read? .factor cursor = some (factor budget cursor) := by
  -- strong induction, since a parenthesis takes five at a time
  induction budget using Nat.strongRecOn with
  | ind budget ih =>
    intro opened cursor hstops hdeep
    rcases hstep : Scan.step? ⟨true, opened⟩ cursor.current.kind with - | next
    · rw [factor_of_step? budget hstep, read?_of_step? hstep]
    by_cases hsign : cursor.current.kind = .plus ∨ cursor.current.kind = .minus
    · cases budget with
      | zero =>
        rw [factor_zero_of_sign hsign] at hdeep
        exact absurd rfl hdeep
      | succ budget =>
        have hstep : Scan.step? ⟨true, opened⟩ cursor.current.kind =
            some ⟨true, .sign :: opened⟩ := by
          rcases hsign with hkind | hkind <;> rw [hkind] <;> rfl
        have hoperand := ih budget (Nat.lt_succ_self _) (hstops.advance hstep)
        rw [factor_succ_of_sign budget hsign] at hdeep ⊢
        rcases heq : factor budget cursor.advance with ⟨problem | operand, after⟩
        · rw [heq] at hdeep hoperand
          rw [read?_of_sign hsign (hoperand hdeep)]
          rfl
        · rw [heq] at hoperand
          rw [read?_of_sign hsign (hoperand (by simp))]
          rfl
    by_cases hparen : cursor.current.kind = .lparen
    · rcases Nat.lt_or_ge budget 5 with hbudget | hbudget
      · rw [factor_of_paren_of_lt hparen hbudget] at hdeep
        exact absurd rfl hdeep
      · obtain ⟨budget, rfl⟩ := Nat.exists_eq_add_of_le' hbudget
        have hstep : Scan.step? ⟨true, opened⟩ cursor.current.kind =
            some ⟨true, .paren :: opened⟩ := by
          rw [hparen]
          rfl
        have hinner := read?_eq_expr_of_factor (settle_paren_cons opened)
          (fun _ ↦ ih budget (by omega)) (hstops.advance hstep)
        rw [factor_of_paren budget hparen] at hdeep ⊢
        rcases heq : expr budget cursor.advance with ⟨problem | inner, after⟩
        · rw [heq] at hdeep hinner
          rw [read?_of_paren_of_error hparen (hinner hdeep)]
        · rw [heq] at hinner
          rw [read?_of_paren hparen (hinner (by simp))]
    have hliteral : cursor.current.kind = .int ∨ cursor.current.kind = .float := by
      cases hkind : cursor.current.kind <;> simp_all [Scan.step?]
    rw [factor_of_literal budget hliteral, read?_of_literal hliteral]

/-- **What an expression is read as** within its budget, it is read as without one. -/
theorem read?_eq_expr (hsettled : settle opened = opened)
    (hstops : Scan.StopsAt ⟨true, opened⟩ cursor)
    (hdeep : (expr budget cursor).1 ≠ .error .tooDeep) :
    read? .expr cursor = some (expr budget cursor) :=
  read?_eq_expr_of_factor hsettled (fun _ ↦ read?_eq_factor budget) hstops hdeep

end Rules

end Rule

end Calculator
