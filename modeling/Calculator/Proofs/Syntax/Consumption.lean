import Calculator.Proofs.Calculation.Records

/-!
# What rules consume

A rule can be called at any token of a list, not only where a sentence begins, and again after it
has failed. What it does there is decided by the tokens from there on. If it reads an expression, it
has consumed the longest list of tokens from there on that its nonterminal derives; if it does not,
the cursor rests on the token to blame (`rules_consume_longest`).

That the list is the longest one is a property of the grammar. Wherever the tokens of a rank are cut
in two and an operand is complete at the cut with nothing open, the token behind the cut goes on
with an expression of the rank (`Derives.goesOn_of_run?`). A rule ends only in front of a token that
does not. Cuts inside of a parenthesis are no such cuts, since a scan closes nothing that was open
before it began (`Scan.run?_inside`).

Where the cursor stands is kept by everything that moves it. `TokenCursor.StandsIn` says it in terms
of the index: the tokens that are left are those from the index on, and past the end of the list the
last one. `TokenCursor.Leads` is a number of advances and calls of rules, in any order and with any
budgets.
-/

namespace Calculator

open TokenCursor

/-! ### Cuts of a derivable list -/

theorem settle_append_paren (opened outer : List Opening) :
    settle (opened ++ .paren :: outer) = settle opened ++ .paren :: outer := by
  induction opened with
  | nil => rfl
  | cons opening opened ih =>
    cases opening with
    | sign => exact ih
    | paren => rfl

namespace Scan

variable {scan next : Scan}

/-- A token that can stand somewhere can stand there inside of a parenthesis, which stays open. -/
theorem step?_inside {kind : Kind} (h : scan.step? kind = some next) (outer : List Opening) :
    step? ⟨scan.expecting, scan.opened ++ .paren :: outer⟩ kind =
      some ⟨next.expecting, next.opened ++ .paren :: outer⟩ := by
  obtain ⟨expecting, opened⟩ := scan
  cases kind with
  | plus | minus =>
    obtain rfl := Option.some.inj h
    cases expecting <;> rfl
  | mul | div =>
    cases expecting with
    | true => cases h
    | false =>
      obtain rfl := Option.some.inj h
      rfl
  | int | float =>
    cases expecting with
    | true =>
      obtain rfl := Option.some.inj h
      exact congrArg (fun opened ↦ some (Scan.mk false opened)) (settle_append_paren opened outer)
    | false => cases h
  | lparen =>
    cases expecting with
    | true =>
      obtain rfl := Option.some.inj h
      rfl
    | false => cases h
  | rparen =>
    rw [step?] at h
    split at h
    · next hclose =>
      obtain ⟨rfl, hparen⟩ := hclose
      obtain ⟨opened, rfl⟩ := List.head?_eq_some_iff.1 hparen
      obtain rfl := Option.some.inj h
      exact congrArg (fun opened ↦ some (Scan.mk false opened)) (settle_append_paren opened outer)
    · cases h
  | eof | other name => cases h

/-- **Inside of a parenthesis a scan goes as it goes by itself**, and does not close it. -/
theorem run?_inside {tokens : List Token} (h : scan.run? tokens = some next)
    (outer : List Opening) :
    run? ⟨scan.expecting, scan.opened ++ .paren :: outer⟩ tokens =
      some ⟨next.expecting, next.opened ++ .paren :: outer⟩ := by
  induction tokens generalizing scan with
  | nil =>
    obtain rfl : scan = next := by simpa using h
    rfl
  | cons token tokens ih =>
    rw [run?_cons] at h
    obtain ⟨second, hstep, hrun⟩ := Option.bind_eq_some_iff.1 h
    rw [run?_cons, step?_inside hstep outer]
    exact ih hrun

end Scan

section Cuts

variable {rank : Rank} {tokens others before after : List Token} {expr : Expr}
  {operator token : Token} {opened : List Opening}

/-- A cut in front of a token is to the left of an operator, at it, or to the right of it. -/
theorem cut_cases (h : tokens ++ operator :: others = before ++ token :: after) :
    (∃ rest, tokens = before ++ token :: rest) ∨ (tokens = before ∧ operator = token) ∨
      ∃ rest, before = tokens ++ operator :: rest ∧ others = rest ++ token :: after := by
  rcases List.append_eq_append_iff.1 h with ⟨rest, hbefore, hright⟩ | ⟨rest, htokens, hright⟩
  · rcases List.cons_eq_append_iff.1 hright with ⟨rfl, hcons⟩ | ⟨more, rfl, hothers⟩
    · exact .inr (.inl ⟨by simpa using hbefore.symm, (List.cons.inj hcons).1.symm⟩)
    · exact .inr (.inr ⟨more, hbefore, hothers⟩)
  · rcases List.cons_eq_append_iff.1 hright with ⟨rfl, hcons⟩ | ⟨more, rfl, -⟩
    · exact .inr (.inl ⟨by simpa using htokens, (List.cons.inj hcons).1⟩)
    · exact .inl ⟨more, htokens⟩

/-- A derivable list does not close a parenthesis that was open before it. -/
theorem Derives.run?_ne_of_prefix (h : Derives rank (before ++ after) expr)
    (opened : List Opening) :
    Scan.run? ⟨true, .paren :: opened⟩ before ≠ some ⟨false, settle opened⟩ := by
  intro hrun
  obtain ⟨scan, hscan, -⟩ := Scan.run?_append_eq_some (h.run? [])
  have hinside := Scan.run?_inside hscan opened
  rw [List.nil_append, hrun] at hinside
  have hopened : settle opened = scan.opened ++ .paren :: opened := by
    simpa using congrArg (Option.map Scan.opened) hinside
  have hlength := length_settle_le opened
  rw [hopened, List.length_append, List.length_cons] at hlength
  omega

/-- A cut of two operands with an operator between them, given what is known of cuts of each. -/
theorem Rank.Joins.goesOn_of_cut {inner outer : Rank} {isOperator : Kind → Bool} {left : Expr}
    (hj : Rank.Joins inner outer isOperator) (hleft : Derives outer tokens left)
    (hop : isOperator operator.kind = true)
    (hcut : tokens ++ operator :: others = before ++ token :: after)
    (hrun : Scan.run? ⟨true, opened⟩ before = some ⟨false, settle opened⟩)
    (hwithin : ∀ {rest}, tokens = before ++ token :: rest → outer.goesOn token.kind = true)
    (hbehind : ∀ {rest}, others = rest ++ token :: after →
      Scan.run? ⟨true, settle opened⟩ rest = some ⟨false, settle (settle opened)⟩ →
      inner.goesOn token.kind = true) : outer.goesOn token.kind = true := by
  rcases cut_cases hcut with ⟨rest, hrest⟩ | ⟨-, rfl⟩ | ⟨rest, rfl, hrest⟩
  · exact hwithin hrest
  · rw [hj.goesOn, hop, Bool.true_or]
  · rw [Scan.run?_append_of_run? (hleft.run? opened), Scan.run?_cons, hj.step? hop,
      Option.bind_some] at hrun
    rw [hj.goesOn, hbehind hrest (by rw [hrun, settle_settle]), Bool.or_true]

/-- **Where an operand is complete, an operator goes on.** If a derivable list is cut where nothing
is open but what was open before it, the token behind the cut is one that its rank goes on with. -/
theorem Derives.goesOn_of_run? (h : Derives rank tokens expr)
    (hcut : tokens = before ++ token :: after)
    (hrun : Scan.run? ⟨true, opened⟩ before = some ⟨false, settle opened⟩) :
    rank.goesOn token.kind = true := by
  induction h generalizing before after opened with
  | literal =>
    -- in front of the only token no operand is complete
    obtain ⟨rfl, -⟩ | ⟨rest, -, hrest⟩ := List.cons_eq_append_iff.1 hcut
    · cases hrun
    · simp at hrest
  | @signed sign others operand hsign hoperand ih =>
    obtain ⟨rfl, -⟩ | ⟨rest, rfl, hrest⟩ := List.cons_eq_append_iff.1 hcut
    · cases hrun
    · have hstep : Scan.step? ⟨true, opened⟩ sign.kind = some ⟨true, .sign :: opened⟩ := by
        rcases hsign with hsign | hsign <;> rw [hsign] <;> rfl
      rw [Scan.run?_cons, hstep, Option.bind_some] at hrun
      exact ih hrest hrun
  | @enclosed opening closing others inner hopening hinner hclosing ih =>
    obtain ⟨rfl, -⟩ | ⟨rest, rfl, hrest⟩ := List.cons_eq_append_iff.1 hcut
    · cases hrun
    · have hstep : Scan.step? ⟨true, opened⟩ opening.kind = some ⟨true, .paren :: opened⟩ := by
        rw [hopening]
        rfl
      rw [Scan.run?_cons, hstep, Option.bind_some] at hrun
      -- the parenthesis is still open there
      have hinside : ∃ more, others = rest ++ more := by
        rcases cut_cases hrest with ⟨more, hmore⟩ | ⟨hrest, -⟩ | ⟨more, -, hmore⟩
        · exact ⟨_, hmore⟩
        · exact ⟨[], by rw [hrest, List.append_nil]⟩
        · simp at hmore
      obtain ⟨more, rfl⟩ := hinside
      exact absurd hrun (hinner.run?_ne_of_prefix opened)
  | factor _ ih => exact absurd (ih hcut hrun) Bool.false_ne_true
  | product hleft hop _ ihl ihr =>
    exact Rank.joins_term.goesOn_of_cut hleft (by simpa [Rule.isMultiplicative] using hop) hcut hrun
      (fun hwithin ↦ ihl hwithin hrun) ihr
  | term _ ih =>
    rw [Rank.joins_expr.goesOn, ih hcut hrun, Bool.or_true]
  | sum hleft hop _ ihl ihr =>
    exact Rank.joins_expr.goesOn_of_cut hleft (by simpa [Rule.isAdditive] using hop) hcut hrun
      (fun hwithin ↦ ihl hwithin hrun) ihr

/-- **A token that does not go on ends the longest list.** If such a token stands behind a derivable
list, nothing longer from there on can be derived. -/
theorem Derives.length_le_of_prefix {longer : List Token} {other : Expr}
    (h : Derives rank tokens expr) (hends : rank.goesOn token.kind = false)
    (hbegins : longer <+: tokens ++ token :: after) (hother : Derives rank longer other) :
    longer.length ≤ tokens.length := by
  by_contra hlength
  obtain ⟨rest, rfl⟩ := List.prefix_of_prefix_length_le (List.prefix_append tokens _) hbegins
    (Nat.le_of_not_le hlength)
  cases rest with
  | nil => simp at hlength
  | cons next rest =>
    obtain ⟨rfl, -⟩ := List.cons_prefix_cons.1 ((List.prefix_append_right_inj tokens).1 hbegins)
    have hgoes := hother.goesOn_of_run? rfl (h.run? [])
    rw [hends] at hgoes
    exact Bool.false_ne_true hgoes

/-- Nothing is derived from no tokens. -/
theorem Derives.ne_nil (h : Derives rank tokens expr) : tokens ≠ [] := by
  rintro rfl
  cases h.run? []

/-- What is of a rank is of the highest one. -/
theorem Derives.to_expr (h : Derives rank tokens expr) : Derives .expr tokens expr := by
  cases rank with
  | factor => exact .term (.factor h)
  | term => exact .term h
  | expr => exact h

end Cuts

/-! ### Where a cursor stands -/

namespace TokenCursor

variable {cursor after : TokenCursor} {tokens passed : List Token}

/-- The tokens that are left are those of the list from the index of the cursor on. Past the end of
the list this is the last one. -/
def StandsIn (cursor : TokenCursor) (tokens : List Token) : Prop :=
  cursor.tokens = tokens.drop (min cursor.index (tokens.length - 1))

theorem standsIn_of_ofTokens? (h : ofTokens? tokens = some cursor) : cursor.StandsIn tokens := by
  cases tokens with
  | nil => cases h
  | cons token rest =>
    obtain rfl := Option.some.inj h
    rw [StandsIn, Nat.zero_min]
    rfl

/-- The current token is the one at the index, or the last one. -/
theorem StandsIn.getElem?_eq (h : cursor.StandsIn tokens) :
    tokens[min cursor.index (tokens.length - 1)]? = some cursor.current := by
  rw [← List.head?_drop, ← h]
  rfl

theorem StandsIn.length_tokens (h : cursor.StandsIn tokens) :
    cursor.tokens.length = tokens.length - min cursor.index (tokens.length - 1) := by
  rw [h, List.length_drop]

theorem StandsIn.of_passes (h : cursor.StandsIn tokens) (hpasses : cursor.Passes passed after) :
    after.StandsIn tokens := by
  have hlength := h.length_tokens
  rw [hpasses.tokens_eq, List.length_append, TokenCursor.tokens, List.length_cons] at hlength
  have hindex : min after.index (tokens.length - 1) =
      min cursor.index (tokens.length - 1) + passed.length := by
    rw [hpasses.index_eq]
    omega
  rw [StandsIn, hindex, ← List.drop_drop, ← h, hpasses.tokens_eq, List.drop_left]

/-- **Advancing keeps the place**, also past the end of the list. -/
theorem StandsIn.advance (h : cursor.StandsIn tokens) : cursor.advance.StandsIn tokens := by
  by_cases hrest : cursor.rest = []
  · obtain ⟨hcurrent, hnil⟩ := advance_of_rest_eq_nil hrest
    have htokens : cursor.advance.tokens = cursor.tokens := by
      rw [TokenCursor.tokens, TokenCursor.tokens, hcurrent, hnil, hrest]
    have hlength := h.length_tokens
    rw [TokenCursor.tokens, hrest, List.length_singleton] at hlength
    have hindex : min cursor.advance.index (tokens.length - 1) =
        min cursor.index (tokens.length - 1) := by
      rw [index_advance]
      omega
    rw [StandsIn, htokens, hindex]
    exact h
  · exact h.of_passes (passes_advance hrest)

/-- From one cursor to another by way of advances and calls of rules, in any order. -/
inductive Leads (cursor : TokenCursor) : TokenCursor → Prop where
  | refl : Leads cursor cursor
  | advance {other : TokenCursor} (h : Leads cursor other) : Leads cursor other.advance
  | read {other : TokenCursor} (h : Leads cursor other) (budget : Nat) (rank : Rank) :
    Leads cursor (Rule.ofRank budget rank other).2

end TokenCursor

/-! ### What a call does -/

section Calls

variable {body tokens : List Token} {stop : Token} {first cursor other after : TokenCursor}
  {limit : Nat} {opened : List Opening} {rank : Rank} {answer : Rule.Answer} {expr : Expr}

/-- Where the text ends, the scan ends too. -/
theorem TokenCursor.StandsIn.stopsAt (h : cursor.StandsIn (body ++ [stop]))
    (hstop : stop.kind = .eof) : Scan.start.StopsAt cursor := by
  have hindex : min cursor.index ((body ++ [stop]).length - 1) ≤ body.length := by
    rw [List.length_append, List.length_singleton]
    omega
  rw [Scan.StopsAt, h, List.drop_append_of_le_length hindex]
  exact run?_append_stop hstop

theorem reads_ofRank (budget : Nat) (rank : Rank) (hstops : Scan.start.StopsAt cursor) :
    Reads budget [] rank cursor (Rule.ofRank budget rank cursor) := by
  have hfactor : ∀ cursor, Scan.start.StopsAt cursor →
      Reads budget [] .factor cursor (Rule.factor budget cursor) := by
    intro cursor hcursor
    have hreads : Reads (Opening.total [] + budget) [] .factor cursor _ :=
      reads_factor budget hcursor
    rwa [Opening.total, Nat.zero_add] at hreads
  cases rank with
  | factor => exact hfactor cursor hstops
  | term => exact reads_term_of_factor rfl hfactor hstops
  | expr => exact reads_expr_of_factor rfl hfactor hstops

/-- No rule moves the cursor from a token that begins no operand. -/
theorem ofRank_of_step? (budget : Nat) (rank : Rank)
    (h : Scan.start.step? cursor.current.kind = none) :
    Rule.ofRank budget rank cursor = (.error .expectedOperand, cursor) := by
  have hfactor := Rule.factor_of_step? budget h
  have hterm : Rule.term budget cursor = (.error .expectedOperand, cursor) := by
    rw [Rule.term, Rule.binary, hfactor]
  cases rank with
  | factor => exact hfactor
  | term => exact hterm
  | expr =>
    show Rule.expr budget cursor = _
    rw [Rule.expr, Rule.binary, hterm]

/-- **A call keeps the place**, and goes forward only. -/
theorem Reads.standsIn (h : Reads limit opened rank cursor answer)
    (hcursor : cursor.StandsIn tokens) :
    answer.2.StandsIn tokens ∧ cursor.index ≤ answer.2.index := by
  cases h with
  | derived hpasses | stopped hpasses =>
    exact ⟨hcursor.of_passes hpasses, by rw [hpasses.index_eq]; exact Nat.le_add_right _ _⟩
  | tooDeep hpasses =>
    refine ⟨(hcursor.of_passes hpasses).advance, ?_⟩
    rw [index_advance, hpasses.index_eq]
    omega

/-- **And so do any advances and calls** one after the other. -/
theorem TokenCursor.Leads.standsIn (h : cursor.Leads other) (hstop : stop.kind = .eof)
    (hcursor : cursor.StandsIn (body ++ [stop])) :
    other.StandsIn (body ++ [stop]) ∧ cursor.index ≤ other.index := by
  induction h with
  | refl => exact ⟨hcursor, Nat.le_refl _⟩
  | advance _ ih =>
    refine ⟨ih.1.advance, ?_⟩
    rw [index_advance]
    exact Nat.le_succ_of_le ih.2
  | read _ budget rank ih =>
    have hcall := (reads_ofRank budget rank (ih.1.stopsAt hstop)).standsIn ih.1
    exact ⟨hcall.1, Nat.le_trans ih.2 hcall.2⟩

/-- The tokens between two cursors are the longest list from the first one on that a rank derives,
and this is the one expression that they are. -/
structure ConsumesLongest (rank : Rank) (cursor : TokenCursor) (expr : Expr) (after : TokenCursor)
    (passed : List Token) : Prop where
  passes : cursor.Passes passed after
  ne_nil : passed ≠ []
  derives : Derives rank passed expr
  unique : ∀ other, Derives rank passed other → other = expr
  longest : ∀ longer other, longer <+: cursor.tokens → Derives rank longer other →
    longer.length ≤ passed.length

theorem Reads.exists_consumesLongest (h : Reads limit opened rank cursor (.ok expr, after)) :
    ∃ passed, ConsumesLongest rank cursor expr after passed := by
  cases h with
  | @derived passed _ _ hpasses hexpr _ hends =>
    refine ⟨passed, hpasses, hexpr.ne_nil, hexpr,
      fun other hother ↦ hother.to_expr.unique hexpr.to_expr, fun longer other hbegins hother ↦ ?_⟩
    rw [hpasses.tokens_eq] at hbegins
    exact hexpr.length_le_of_prefix hends hbegins hother

/-- **What rules consume.** Take a list that ends in a token for the end of the text, and a cursor
that was led from its beginning to somewhere by advances and calls of rules. The current token is
the one at the index of the cursor, or the last one. No advance and no call goes back, and no call
moves the cursor from the end of the text. A rule that reads an expression has consumed the longest
list of tokens from there on that its rank derives, a token at least, and the expression is the one
that the tokens are. A rule that does not, and has not used up its budget, has on record a failure
at the token on which the cursor rests. -/
theorem rules_consume_longest (hstop : stop.kind = .eof)
    (hfirst : ofTokens? (body ++ [stop]) = some first) (hcursor : first.Leads cursor) :
    (body ++ [stop])[min cursor.index ((body ++ [stop]).length - 1)]? = some cursor.current ∧
      cursor.tokens = (body ++ [stop]).drop (min cursor.index ((body ++ [stop]).length - 1)) ∧
      (∀ other, cursor.Leads other → cursor.index ≤ other.index) ∧
      ∀ budget rank,
        (cursor.current.kind = .eof → (Rule.ofRank budget rank cursor).2 = cursor) ∧
        (∀ expr after, Rule.ofRank budget rank cursor = (.ok expr, after) →
          ∃ passed, ConsumesLongest rank cursor expr after passed) ∧
        ∀ problem after, Rule.ofRank budget rank cursor = (.error problem, after) →
          problem ≠ .tooDeep →
          Recorder.ofRank budget rank cursor =
            (some (Outcome.failure {} ⟨.invalidSyntax problem, after.current.extent⟩), after) := by
  have hstands := (hcursor.standsIn hstop (standsIn_of_ofTokens? hfirst)).1
  refine ⟨hstands.getElem?_eq, hstands, fun other hother ↦ (hother.standsIn hstop hstands).2,
    fun budget rank ↦ ⟨fun heof ↦ ?_, fun expr after hread ↦ ?_,
      fun problem after hread hbudget ↦ ?_⟩⟩
  · have hstep : Scan.start.step? cursor.current.kind = none := by
      rw [heof]
      rfl
    rw [ofRank_of_step? budget rank hstep]
  · have hreads := reads_ofRank budget rank (hstands.stopsAt hstop)
    rw [hread] at hreads
    exact hreads.exists_consumesLongest
  · rw [Recorder.records_ofRank budget rank cursor, hread]
    cases problem with
    | tooDeep => exact absurd rfl hbudget
    | _ => rfl

/-- In `*3/2+4` a factor is refused at the first token, on which the cursor rests. A term behind
that token consumes `3/2`, and the rest is left. -/
theorem rules_consume_quotient :
    ∃ first after : TokenCursor,
      ofTokens? ([.inLine "*3/2+4" 0 1 (.ofKind .mul), .inLine "*3/2+4" 1 2 (.literal (.int 3)),
        .inLine "*3/2+4" 2 3 (.ofKind .div), .inLine "*3/2+4" 3 4 (.literal (.int 2)),
        .inLine "*3/2+4" 4 5 (.ofKind .plus), .inLine "*3/2+4" 5 6 (.literal (.int 4))] ++
        [.inLine "*3/2+4" 6 7 (.ofKind .eof)]) = some first ∧
      Recorder.ofRank nestingBudget .factor first = (some (Outcome.failure {}
        ⟨.invalidSyntax .expectedOperand, (Source.mk "<stdin>" "*3/2+4").stretch (0, 1)⟩), first) ∧
      first.Leads (Rule.ofRank nestingBudget .factor first).2.advance ∧ after.index = 4 ∧
      ∃ passed, ConsumesLongest .term (Rule.ofRank nestingBudget .factor first).2.advance
        (.binary (.number (.inLine "*3/2+4" 1 2 (.literal (.int 3))))
          (.inLine "*3/2+4" 2 3 (.ofKind .div))
          (.number (.inLine "*3/2+4" 3 4 (.literal (.int 2))))) after passed := by
  have hstop : (Token.inLine "*3/2+4" 6 7 (.ofKind .eof)).kind = .eof := rfl
  have hfirst : ofTokens? ([.inLine "*3/2+4" 0 1 (.ofKind .mul),
      .inLine "*3/2+4" 1 2 (.literal (.int 3)), .inLine "*3/2+4" 2 3 (.ofKind .div),
      .inLine "*3/2+4" 3 4 (.literal (.int 2)), .inLine "*3/2+4" 4 5 (.ofKind .plus),
      .inLine "*3/2+4" 5 6 (.literal (.int 4))] ++ [.inLine "*3/2+4" 6 7 (.ofKind .eof)]) =
        some _ := rfl
  obtain ⟨-, -, -, hfactor⟩ := rules_consume_longest hstop hfirst .refl
  obtain ⟨-, -, -, hterm⟩ := rules_consume_longest hstop hfirst
    (.advance (.read .refl nestingBudget .factor))
  exact ⟨_, ⟨4, .inLine "*3/2+4" 4 5 (.ofKind .plus),
      [.inLine "*3/2+4" 5 6 (.literal (.int 4)), .inLine "*3/2+4" 6 7 (.ofKind .eof)]⟩, hfirst,
    (hfactor nestingBudget .factor).2.2 .expectedOperand _ rfl (by decide),
    .advance (.read .refl nestingBudget .factor), rfl, (hterm nestingBudget .term).2.1 _ _ rfl⟩

end Calls

end Calculator
