import Calculator.Proofs.Syntax.Nesting

/-!
# Parsing comes to an end

Parsing ends on every list of tokens, whether there is a token for the end of the text, none,
several, or one in the middle. A list without one is repeated from its last token on, so that the
tokens that are left need not get fewer as rules advance. What makes an end of it is that the last
token cannot both be an operator and complete the operand behind it. Behind a repeated `*` there is
no operand, and behind a repeated `+` there is one sign more each time, until the budget is used up
(`Rule.operand_of_repeated`). So a round of a loop that reads an operand leaves fewer tokens
(`Rule.length_rest_lt_of_round`).

The loops of the parser have a bound on their rounds. That it is not what ends them is proved in two
steps. `Task.step` is the parser without it, as one step that asks for the answers to other tasks; a
loop asks for itself behind the next operand. The answers of the parser obey it (`step_result`). And
`StartedBy` is what such a step asks for. A task starts others with less of the budget, or with the
same budget and fewer tokens left, or with the same of both and further down in the grammar, so that
there is no endless way down (`wellFounded_startedBy`). Hence nothing else obeys the step
(`eq_result`).
-/

namespace Calculator

open TokenCursor

/-! ### Tokens that are left -/

namespace TokenCursor

/-- What is left behind a token is left at it. The last token stays. -/
theorem tokens_advance_suffix (cursor : TokenCursor) : cursor.advance.tokens <:+ cursor.tokens := by
  obtain ⟨index, current, _ | ⟨token, rest⟩⟩ := cursor
  · exact List.suffix_refl _
  · exact List.suffix_cons current (token :: rest)

theorem length_rest_le {cursor after : TokenCursor} (h : after.tokens <:+ cursor.tokens) :
    after.rest.length ≤ cursor.rest.length := Nat.le_of_succ_le_succ h.length_le

theorem length_rest_advance_lt {cursor : TokenCursor} (h : cursor.rest ≠ []) :
    cursor.advance.rest.length < cursor.rest.length := by
  rw [rest_advance, List.length_tail]
  exact Nat.sub_lt (List.length_pos_iff.2 h) Nat.one_pos

/-- Without another token, advancing does not leave the last one. -/
theorem advance_of_rest_eq_nil {cursor : TokenCursor} (h : cursor.rest = []) :
    cursor.advance.current = cursor.current ∧ cursor.advance.rest = [] := by
  obtain ⟨index, current, rest⟩ := cursor
  obtain rfl : rest = [] := h
  exact ⟨rfl, rfl⟩

end TokenCursor

namespace Rule

/-- What may be wrong in a rule. That an operator was expected is for the parser as a whole to say,
and a note is for a caller. -/
def problems : List SyntaxProblem := [.expectedOperand, .expectedClosing, .tooDeep]

/-- The answer of a rule at a cursor leaves tokens that were left there. -/
structure EndsBehind (cursor : TokenCursor) (answer : Answer) : Prop where
  suffix : answer.2.tokens <:+ cursor.tokens
  problem_mem : ∀ problem, answer.1 = .error problem → problem ∈ problems

/-- The rule leaves tokens that were left, wherever it is called. -/
def Advances (rule : Rule) : Prop := ∀ cursor, EndsBehind cursor (rule cursor)

variable {cursor after : TokenCursor} {answer : Answer} {operand : Rule} {isOperator : Kind → Bool}

theorem EndsBehind.ok (h : after.tokens <:+ cursor.tokens) (expr : Expr) :
    EndsBehind cursor (.ok expr, after) := ⟨h, nofun⟩

theorem EndsBehind.error {problem : SyntaxProblem} (h : after.tokens <:+ cursor.tokens)
    (hproblem : problem ∈ problems) : EndsBehind cursor (.error problem, after) := by
  refine ⟨h, fun other hother ↦ ?_⟩
  rwa [← Except.error.inj hother]

theorem EndsBehind.of_suffix (h : EndsBehind after answer)
    (hsuffix : after.tokens <:+ cursor.tokens) : EndsBehind cursor answer :=
  ⟨h.suffix.trans hsuffix, h.problem_mem⟩

theorem Advances.chain (h : Advances operand) (rounds : List Token) (left : Expr) :
    Advances (Rule.chain operand isOperator rounds left) := by
  induction rounds generalizing left with
  | nil => exact fun cursor ↦ .ok (List.suffix_refl _) left
  | cons round rounds ih =>
    intro cursor
    rw [Rule.chain]
    split
    · have hright := (h cursor.advance).of_suffix cursor.tokens_advance_suffix
      rcases heq : operand cursor.advance with ⟨problem | right, after⟩ <;> rw [heq] at hright
      · exact hright
      · exact (ih _ after).of_suffix hright.suffix
    · exact .ok (List.suffix_refl _) left

theorem Advances.binary (h : Advances operand) : Advances (Rule.binary operand isOperator) := by
  intro cursor
  have hfirst := h cursor
  rw [Rule.binary]
  rcases heq : operand cursor with ⟨problem | left, after⟩ <;> rw [heq] at hfirst
  · exact hfirst
  · exact (h.chain _ left after).of_suffix hfirst.suffix

/-- **Factors leave tokens that were left**, for every budget. -/
theorem advances_factor (budget : Nat) : Advances (factor budget) := by
  -- strong induction, since a parenthesis takes five at a time
  induction budget using Nat.strongRecOn with
  | ind budget ih =>
    intro cursor
    have hadvance := cursor.tokens_advance_suffix
    rcases hstep : Scan.step? ⟨true, []⟩ cursor.current.kind with - | next
    · rw [factor_of_step? budget hstep]
      exact .error (List.suffix_refl _) (by decide)
    by_cases hsign : cursor.current.kind = .plus ∨ cursor.current.kind = .minus
    · cases budget with
      | zero =>
        rw [factor_zero_of_sign hsign]
        exact .error hadvance (by decide)
      | succ budget =>
        have hoperand := (ih budget (Nat.lt_succ_self _) cursor.advance).of_suffix hadvance
        rw [factor_succ_of_sign budget hsign]
        rcases heq : factor budget cursor.advance with ⟨problem | operand, after⟩ <;>
          rw [heq] at hoperand
        · exact hoperand
        · exact .ok hoperand.suffix _
    by_cases hparen : cursor.current.kind = .lparen
    · rcases Nat.lt_or_ge budget 5 with hbudget | hbudget
      · rw [factor_of_paren_of_lt hparen hbudget]
        exact .error hadvance (by decide)
      · obtain ⟨budget, rfl⟩ := Nat.exists_eq_add_of_le' hbudget
        have hexpr : Advances (expr budget) := (ih budget (by omega)).binary.binary
        have hinner := (hexpr cursor.advance).of_suffix hadvance
        rw [factor_of_paren budget hparen]
        rcases heq : expr budget cursor.advance with ⟨problem | inner, after⟩ <;> rw [heq] at hinner
        · exact hinner
        · dsimp only
          split
          · exact .ok (after.tokens_advance_suffix.trans hinner.suffix) inner
          · exact .error hinner.suffix (by decide)
    have hliteral : cursor.current.kind = .int ∨ cursor.current.kind = .float := by
      cases hkind : cursor.current.kind <;> simp_all [Scan.step?]
    rw [factor_of_literal budget hliteral]
    exact .ok hadvance _

/-- The rule of a rank. -/
def ofRank (budget : Nat) : Rank → Rule
  | .factor => factor budget
  | .term => term budget
  | .expr => expr budget

theorem advances_ofRank (budget : Nat) (rank : Rank) : Advances (ofRank budget rank) := by
  have hfactor := advances_factor budget
  cases rank with
  | factor => exact hfactor
  | term => exact hfactor.binary
  | expr => exact hfactor.binary.binary

/-! ### A token that is repeated -/

/-- Repeated signs use up the budget. -/
theorem factor_of_repeated_sign (budget : Nat) {cursor : TokenCursor}
    (hsign : cursor.current.kind = .plus ∨ cursor.current.kind = .minus)
    (hrest : cursor.rest = []) : ∃ after, factor budget cursor = (.error .tooDeep, after) := by
  induction budget generalizing cursor with
  | zero => exact ⟨_, factor_zero_of_sign hsign⟩
  | succ budget ih =>
    obtain ⟨hcurrent, hnil⟩ := advance_of_rest_eq_nil hrest
    obtain ⟨after, hafter⟩ := ih (hcurrent ▸ hsign) hnil
    exact ⟨after, by rw [factor_succ_of_sign budget hsign, hafter]⟩

/-- **The last token is not both an operator and an operand.** Behind an operator that is repeated
there is no operand: it is refused there at once, or opens signs until the budget is used up. -/
theorem operand_of_repeated (budget : Nat) {rank : Rank}
    (hop : rank.isOperator cursor.current.kind = true) (hrest : cursor.rest = []) :
    ofRank budget rank.operand cursor.advance = (.error .expectedOperand, cursor.advance) ∨
      ∃ after, ofRank budget rank.operand cursor.advance = (.error .tooDeep, after) := by
  obtain ⟨hcurrent, hnil⟩ := advance_of_rest_eq_nil hrest
  cases rank with
  | factor => cases hop
  | term =>
    have hkind : cursor.current.kind = .mul ∨ cursor.current.kind = .div := by
      simpa [Rank.isOperator, isMultiplicative] using hop
    have hstep : Scan.step? ⟨true, []⟩ cursor.advance.current.kind = none := by
      rw [hcurrent]
      rcases hkind with hkind | hkind <;> rw [hkind] <;> rfl
    exact .inl (factor_of_step? budget hstep)
  | expr =>
    have hsign : cursor.advance.current.kind = .plus ∨ cursor.advance.current.kind = .minus := by
      rw [hcurrent]
      simpa [Rank.isOperator, isAdditive] using hop
    obtain ⟨after, hafter⟩ := factor_of_repeated_sign budget hsign hnil
    refine .inr ⟨after, ?_⟩
    show term budget cursor.advance = _
    rw [term, binary, hafter]

/-- A round that reads an operand leaves fewer tokens. -/
theorem length_rest_lt_of_round {budget : Nat} {rank : Rank} {right : Expr}
    (hop : rank.isOperator cursor.current.kind = true)
    (hright : ofRank budget rank.operand cursor.advance = (.ok right, after)) :
    after.rest.length < cursor.rest.length := by
  by_cases hrest : cursor.rest = []
  · rcases operand_of_repeated budget hop hrest with hfailed | ⟨other, hfailed⟩ <;>
      cases hright.symm.trans hfailed
  · have hends := (advances_ofRank budget rank.operand cursor.advance).suffix
    rw [hright] at hends
    exact Nat.lt_of_le_of_lt (length_rest_le hends) (length_rest_advance_lt hrest)

/-! ### Loops -/

/-- Goes on after a left operand for as long as operators follow. -/
def goOn (budget : Nat) (rank : Rank) (left : Expr) : Rule := fun cursor ↦
  chain (ofRank budget rank.operand) rank.isOperator cursor.tokens left cursor

/-- If every round leaves fewer tokens, it does not matter how many more rounds there are than
tokens. -/
theorem chain_eq_chain
    (hround : ∀ {cursor after : TokenCursor} {right : Expr}, isOperator cursor.current.kind = true →
      operand cursor.advance = (.ok right, after) → after.rest.length < cursor.rest.length)
    {rounds more : List Token} (left : Expr) (hrounds : cursor.rest.length < rounds.length)
    (hmore : cursor.rest.length < more.length) :
    chain operand isOperator rounds left cursor = chain operand isOperator more left cursor := by
  induction rounds generalizing more left cursor with
  | nil => exact absurd hrounds (Nat.not_lt_zero _)
  | cons round rounds ih =>
    obtain ⟨other, more, rfl⟩ :=
      List.exists_cons_of_ne_nil (List.ne_nil_of_length_pos (Nat.zero_lt_of_lt hmore))
    rw [chain, chain]
    split
    · next hop =>
      rcases heq : operand cursor.advance with ⟨problem | right, after⟩
      · rfl
      · have hless := hround hop heq
        simp only [List.length_cons] at hrounds hmore
        exact ih _ (by omega) (by omega)
    · rfl

/-- **The rounds of a loop are never short**: it goes on exactly as a loop without them. -/
theorem goOn_of_isOperator (budget : Nat) {rank : Rank} (left : Expr)
    (hop : rank.isOperator cursor.current.kind = true) :
    goOn budget rank left cursor =
      match ofRank budget rank.operand cursor.advance with
      | (.ok right, after) => goOn budget rank (.binary left cursor.current right) after
      | (.error problem, after) => (.error problem, after) := by
  rw [goOn, tokens, chain, if_pos hop]
  rcases heq : ofRank budget rank.operand cursor.advance with ⟨problem | right, after⟩
  · rfl
  · exact chain_eq_chain (fun hop heq ↦ length_rest_lt_of_round hop heq) _
      (length_rest_lt_of_round hop heq) (Nat.lt_succ_self _)

theorem goOn_of_not_isOperator (budget : Nat) {rank : Rank} (left : Expr)
    (hop : rank.isOperator cursor.current.kind = false) :
    goOn budget rank left cursor = (.ok left, cursor) := by
  rw [goOn, tokens, chain, hop]
  rfl

/-! ### What is started -/

/-- What the parser is busy with at a cursor. -/
inductive Task where
  /-- To read what a rank asks for. -/
  | read (budget : Nat) (rank : Rank) (cursor : TokenCursor)
  /-- To go on after a left operand. -/
  | goOn (budget : Nat) (rank : Rank) (left : Expr) (cursor : TokenCursor)

namespace Task

/-- The answer to a task. -/
def result : Task → Answer
  | read budget rank cursor => ofRank budget rank cursor
  | goOn budget rank left cursor => Rule.goOn budget rank left cursor

/-- What is done for a task, with the answers to the tasks that it starts given. There are no rounds
here: a loop hands over to itself. -/
def step (ask : Task → Answer) : Task → Answer
  | read budget .factor cursor =>
    match cursor.current.kind with
    | .plus | .minus =>
      match budget with
      | 0 => (.error .tooDeep, cursor.advance)
      | budget + 1 =>
        match ask (.read budget .factor cursor.advance) with
        | (.ok operand, after) => (.ok (.unary cursor.current operand), after)
        | (.error problem, after) => (.error problem, after)
    | .int | .float => (.ok (.number cursor.current), cursor.advance)
    | .lparen =>
      match budget with
      | budget + 5 =>
        match ask (.read budget .expr cursor.advance) with
        | (.ok inner, after) =>
          if after.current.kind = .rparen then (.ok inner, after.advance)
          else (.error .expectedClosing, after)
        | (.error problem, after) => (.error problem, after)
      | _ => (.error .tooDeep, cursor.advance)
    | _ => (.error .expectedOperand, cursor)
  | read budget rank cursor =>
    match ask (.read budget rank.operand cursor) with
    | (.ok left, after) => ask (.goOn budget rank left after)
    | (.error problem, after) => (.error problem, after)
  | goOn budget rank left cursor =>
    if rank.isOperator cursor.current.kind then
      match ask (.read budget rank.operand cursor.advance) with
      | (.ok right, after) => ask (.goOn budget rank (.binary left cursor.current right) after)
      | (.error problem, after) => (.error problem, after)
    else (.ok left, cursor)

/-- **The answers are those of a parser without rounds.** -/
theorem step_result (task : Task) : task.step result = task.result := by
  rcases task with ⟨budget, _ | _ | _, cursor⟩ | ⟨budget, rank, left, cursor⟩
  · show _ = factor budget cursor
    rw [factor.eq_def]
    rfl
  · rfl
  · rfl
  · rw [step]
    split
    · next hop => exact (goOn_of_isOperator budget left hop).symm
    · next hop => exact (goOn_of_not_isOperator budget left (Bool.eq_false_iff.2 hop)).symm

end Task

/-- The first task is started by the second, which waits for its answer or hands over to it. -/
inductive StartedBy : Task → Task → Prop where
  | sign {budget : Nat} {cursor : TokenCursor}
      (hkind : cursor.current.kind = .plus ∨ cursor.current.kind = .minus) :
    StartedBy (.read budget .factor cursor.advance) (.read (budget + 1) .factor cursor)
  | paren {budget : Nat} {cursor : TokenCursor} (hkind : cursor.current.kind = .lparen) :
    StartedBy (.read budget .expr cursor.advance) (.read (budget + 5) .factor cursor)
  | first {budget : Nat} {rank : Rank} {cursor : TokenCursor} (hrank : rank ≠ .factor) :
    StartedBy (.read budget rank.operand cursor) (.read budget rank cursor)
  | loop {budget : Nat} {rank : Rank} {left : Expr} {cursor after : TokenCursor}
      (hrank : rank ≠ .factor) (hleft : ofRank budget rank.operand cursor = (.ok left, after)) :
    StartedBy (.goOn budget rank left after) (.read budget rank cursor)
  | operand {budget : Nat} {rank : Rank} {left : Expr} {cursor : TokenCursor}
      (hop : rank.isOperator cursor.current.kind = true) :
    StartedBy (.read budget rank.operand cursor.advance) (.goOn budget rank left cursor)
  | round {budget : Nat} {rank : Rank} {left right : Expr} {cursor after : TokenCursor}
      (hop : rank.isOperator cursor.current.kind = true)
      (hright : ofRank budget rank.operand cursor.advance = (.ok right, after)) :
    StartedBy (.goOn budget rank (.binary left cursor.current right) after)
      (.goOn budget rank left cursor)

/-- How far up in the grammar a rank is. -/
def height : Rank → Nat
  | .factor => 0
  | .term => 1
  | .expr => 2

namespace Task

/-- What is left of a task: of the budget, of the tokens, and of the grammar below. -/
def load : Task → Nat × Nat × Nat
  | read budget rank cursor => (budget, cursor.rest.length, 2 * height rank + 1)
  | goOn budget rank _ cursor => (budget, cursor.rest.length, 2 * height rank)

/-- Less of the budget is left, or as much and fewer tokens, or as many and less of the grammar. -/
def Lighter (task other : Task) : Prop :=
  Prod.Lex Nat.lt (Prod.Lex Nat.lt Nat.lt) task.load other.load

end Task

theorem height_operand_lt {rank : Rank} (h : rank ≠ .factor) :
    height rank.operand < height rank := by
  cases rank with
  | factor => exact absurd rfl h
  | term | expr => decide

theorem ne_factor_of_isOperator {rank : Rank} {kind : Kind} (h : rank.isOperator kind = true) :
    rank ≠ .factor := by
  rintro rfl
  cases h

/-- **What is started is lighter.** -/
theorem StartedBy.lighter {task other : Task} (h : StartedBy task other) : task.Lighter other := by
  cases h with
  | sign => exact .left _ _ (Nat.lt_succ_self _)
  | @paren budget => exact .left _ _ (by show budget < budget + 5; omega)
  | @first _ rank _ hrank =>
    have := height_operand_lt hrank
    exact .right _ (.right _ (by show 2 * height rank.operand + 1 < 2 * height rank + 1; omega))
  | @loop budget rank _ cursor _ hrank hleft =>
    have hends := (advances_ofRank budget rank.operand cursor).suffix
    rw [hleft] at hends
    exact .right _ (Prod.Lex.right' _ (length_rest_le hends) (Nat.lt_succ_self _))
  | @operand _ rank _ cursor hop =>
    have := height_operand_lt (ne_factor_of_isOperator hop)
    refine .right _ (Prod.Lex.right' _ (length_rest_le cursor.tokens_advance_suffix) ?_)
    show 2 * height rank.operand + 1 < 2 * height rank
    omega
  | round hop hright => exact .right _ (.left _ _ (length_rest_lt_of_round hop hright))

/-- **Nothing is started for ever.** -/
theorem wellFounded_startedBy : WellFounded StartedBy :=
  Subrelation.wf StartedBy.lighter
    (InvImage.wf Task.load (Prod.lex Nat.lt_wfRel (Prod.lex Nat.lt_wfRel Nat.lt_wfRel)).wf)

/-- What is done for a task depends on the answers to the tasks that it starts and no others. -/
theorem Task.step_congr {ask : Task → Answer} {task : Task}
    (h : ∀ other, StartedBy other task → ask other = other.result) :
    task.step ask = task.step result := by
  -- the rule of a rank above the factors, and a loop, ask for an operand and hand over
  have hand : ∀ {budget rank cursor} {next : Expr → TokenCursor → Task},
      ask (.read budget rank cursor) = ofRank budget rank cursor →
      (∀ expr after, ofRank budget rank cursor = (.ok expr, after) →
        ask (next expr after) = (next expr after).result) →
      (match ask (.read budget rank cursor) with
        | (.ok expr, after) => ask (next expr after)
        | (.error problem, after) => (.error problem, after)) =
      match ofRank budget rank cursor with
        | (.ok expr, after) => (next expr after).result
        | (.error problem, after) => (.error problem, after) := by
    intro budget rank cursor next hread hnext
    rw [hread]
    rcases heq : ofRank budget rank cursor with ⟨problem | expr, after⟩
    · rfl
    · exact hnext expr after heq
  rcases task with ⟨budget, _ | _ | _, cursor⟩ | ⟨budget, rank, left, cursor⟩
  · rw [step.eq_def, step.eq_def]
    cases hkind : cursor.current.kind with
    | plus | minus =>
      cases budget with
      | zero => simp only [hkind]
      | succ budget => simp only [hkind, h _ (.sign (by simp [hkind]))]
    | lparen =>
      rcases budget with - | - | - | - | - | budget
      case succ.succ.succ.succ.succ => simp only [hkind, h _ (.paren hkind)]
      -- with less than five left, the parenthesis is refused
      all_goals simp only [hkind]
    | _ => simp only [hkind]
  · exact hand (h _ (.first (by decide))) fun _ _ hleft ↦ h _ (.loop (by decide) hleft)
  · exact hand (h _ (.first (by decide))) fun _ _ hleft ↦ h _ (.loop (by decide) hleft)
  · rw [step, step]
    split
    · next hop => exact hand (h _ (.operand hop)) fun _ _ hright ↦ h _ (.round hop hright)
    · rfl

/-- **There is no other way to answer**: whatever gives each task the answer that is made of its own
answers to the tasks that are started gives the answers of the parser. -/
theorem Task.eq_result {ask : Task → Answer} (h : ∀ task : Task, task.step ask = ask task) :
    ask = result := by
  funext task
  induction task using wellFounded_startedBy.induction with
  | _ task ih => rw [← h, step_congr ih, step_result]

/-! ### What parsing comes to -/

/-- A round of a loop, at an operator behind a left operand. -/
structure Round (budget : Nat) (rank : Rank) (cursor : TokenCursor) : Prop where
  /-- A token is consumed of those that are left. If none is left there is no operand: it is refused
  at once, or nests until the budget is used up. -/
  consumes : cursor.advance.rest.length < cursor.rest.length ∨
    cursor.rest = [] ∧
      (ofRank budget rank.operand cursor.advance = (.error .expectedOperand, cursor.advance) ∨
        ∃ after, ofRank budget rank.operand cursor.advance = (.error .tooDeep, after))
  /-- If there is a next round, fewer tokens are left for it. -/
  shrinks : ∀ right after, ofRank budget rank.operand cursor.advance = (.ok right, after) →
    after.rest.length < cursor.rest.length

theorem round_of_isOperator (budget : Nat) {rank : Rank}
    (hop : rank.isOperator cursor.current.kind = true) : Round budget rank cursor where
  consumes := by
    by_cases hrest : cursor.rest = []
    · exact .inr ⟨hrest, operand_of_repeated budget hop hrest⟩
    · exact .inl (length_rest_advance_lt hrest)
  shrinks _ _ hright := length_rest_lt_of_round hop hright

/-- Where nothing may follow an expression, it is the value, or there is a failure at a token of the
list. -/
theorem EndsBehind.conclude (h : EndsBehind cursor answer) :
    (∃ expr, (Rule.conclude answer).1 = { value? := some expr }) ∨
      ∃ problem ∈ .expectedOperator :: problems, ∃ token ∈ cursor.tokens,
        (Rule.conclude answer).1.error? = some ⟨.invalidSyntax problem, token.extent⟩ := by
  have hmem : answer.2.current ∈ cursor.tokens := h.suffix.subset List.mem_cons_self
  obtain ⟨problem | expr, after⟩ := answer
  · exact .inr ⟨problem, List.mem_cons_of_mem _ (h.problem_mem problem rfl), after.current, hmem,
      rfl⟩
  by_cases heof : after.current.kind = .eof
  · exact .inl ⟨expr, by rw [Rule.conclude, if_pos heof]⟩
  · refine .inr ⟨.expectedOperator, List.mem_cons_self, after.current, hmem, ?_⟩
    rw [Rule.conclude, if_neg heof]
    rfl

end Rule

/-- **Parsing comes to an end on every list of tokens** but the empty one, whatever its tokens are
and wherever the text is said to end. What the parser concludes is the result of a first task.
Results are the only answers that a parser without rounds could give, and no task starts others for
ever: a loop does not go on at an operator without consuming a token, failing, or nesting deeper.
What comes of it is an expression, or a failure at a token of the list. -/
theorem parse_ends (first : Token) (others : List Token) :
    Expr.parse (first :: others) =
        (Rule.conclude (Rule.Task.read nestingBudget .expr ⟨0, first, others⟩).result).1 ∧
      (∀ ask, (∀ task : Rule.Task, task.step ask = ask task) ↔ ask = Rule.Task.result) ∧
      WellFounded Rule.StartedBy ∧
      (∀ budget rank cursor, rank.isOperator cursor.current.kind = true →
        Rule.Round budget rank cursor) ∧
      ((∃ expr, Expr.parse (first :: others) = { value? := some expr }) ∨
        ∃ problem ∈ .expectedOperator :: Rule.problems, ∃ token ∈ first :: others,
          (Expr.parse (first :: others)).error? =
            some ⟨.invalidSyntax problem, token.extent⟩) := by
  refine ⟨Expr.parse_cons first others, fun ask ↦ ⟨Rule.Task.eq_result, ?_⟩,
    Rule.wellFounded_startedBy, fun budget rank cursor ↦ Rule.round_of_isOperator budget, ?_⟩
  · rintro rfl task
    exact task.step_result
  · rw [Expr.parse_cons]
    exact (Rule.advances_ofRank nestingBudget .expr ⟨0, first, others⟩).conclude

/-- A sign that is repeated nests until the budget is used up. -/
example : (Expr.parse [.inLine "+" 0 1 (.ofKind .plus)]).error? =
    some ⟨.invalidSyntax .tooDeep, (Source.mk "<stdin>" "+").stretch (0, 1)⟩ := by
  decide +kernel

end Calculator
