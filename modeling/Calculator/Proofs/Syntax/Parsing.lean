import Calculator.Proofs.Syntax.Uniqueness

/-!
# What parsing accepts, and what it blames

The answer of the parser to a whole list of tokens. It is decided by the place where the scan of the
list stops (`parse_at_stop`): at the end of the text, with an operand complete and nothing open, the
list in front of it is an expression, and anywhere else the parser blames the token that stands
there.

Since a scan can always be completed, the tokens that it passed can be continued to an expression
(`viable_of_run?`). So the scan, which knows nothing of trees, passes a token exactly if there is
still hope behind it, and the parser neither goes on beyond the first token that ends all hope nor
stops before it.
-/

namespace Calculator

open TokenCursor

/-! ### The answer of a rule where the scan stops -/

/-- At the outermost level exactly the operators go on. -/
theorem step?_eq_none_iff_goesOn (kind : Kind) :
    Scan.step? ⟨false, []⟩ kind = none ↔ Rank.expr.goesOn kind = false := by
  cases kind <;>
    simp [Scan.step?, Rank.goesOn, Rule.isAdditive, Rule.isMultiplicative]

/-- There is one place only, from a cursor on, where the scan stops. -/
theorem Scan.place_unique {cursor stop after : TokenCursor} {before passed : List Token}
    {scan scan' : Scan} (hpasses : cursor.Passes before stop)
    (hrun : Scan.start.run? before = some scan) (hstop : scan.step? stop.current.kind = none)
    (hpasses' : cursor.Passes passed after) (hrun' : Scan.run? ⟨true, []⟩ passed = some scan')
    (hstop' : scan'.step? after.current.kind = none) :
    passed = before ∧ after = stop ∧ scan' = scan := by
  obtain ⟨rfl, -, -⟩ := Scan.stop_unique hrun' hstop' hrun hstop
    (hpasses'.tokens_eq.symm.trans hpasses.tokens_eq)
  exact ⟨rfl, hpasses'.unique hpasses, Option.some.inj (hrun'.symm.trans hrun)⟩

/-- **The rule for expressions, where the scan stops within the limit**: it reads the tokens in
front of the place if they are complete there, and otherwise stops there too. -/
theorem Reads.at_stop {limit : Nat} {cursor stop : TokenCursor} {before : List Token} {scan : Scan}
    {answer : Except SyntaxProblem Expr × TokenCursor} (h : Reads limit [] .expr cursor answer)
    (hpasses : cursor.Passes before stop) (hrun : Scan.start.run? before = some scan)
    (hstop : scan.step? stop.current.kind = none) (hlimit : Scan.start.nesting before ≤ limit) :
    (∃ expr, scan = ⟨false, []⟩ ∧ Derives .expr before expr ∧ answer = (.ok expr, stop)) ∨
      (scan ≠ ⟨false, []⟩ ∧ answer = (.error scan.gauge.problem, stop)) := by
  cases h with
  | derived hp he hn hends =>
    obtain ⟨rfl, rfl, rfl⟩ := Scan.place_unique hpasses hrun hstop hp (he.run? [])
      ((step?_eq_none_iff_goesOn _).2 hends)
    exact .inl ⟨_, rfl, he, rfl⟩
  | stopped hp hr hn hs hunfinished =>
    obtain ⟨rfl, rfl, rfl⟩ := Scan.place_unique hpasses hrun hstop hp hr hs
    refine .inr ⟨?_, rfl⟩
    rintro rfl
    simp at hunfinished
  | @tooDeep passed scan' next after hp hr hn hstep htotal =>
    -- the token would have to stand in front of the place where the scan stops
    have hwhole : Scan.start.nesting cursor.tokens ≤ limit := by
      rw [hpasses.tokens_eq, tokens, Scan.nesting_append_of_step? hrun hstop]
      exact hlimit
    rw [hp.tokens_eq, tokens, Scan.start, Scan.nesting_append hr, Scan.nesting_cons hstep] at hwhole
    have hopened : Opening.total next.opened ≤ next.nesting after.rest :=
      Scan.total_le_nesting next.expecting next.opened after.rest
    omega

/-! ### What can be continued -/

/-- The tokens that a scan passes up to a complete operand, with nothing open, are an expression. -/
theorem derives_of_run? {tokens : List Token} (h : Scan.start.run? tokens = some ⟨false, []⟩) :
    ∃ expr, Derives .expr tokens expr := by
  -- the rule reads it with a budget as large as its nesting, if the end of a text follows
  obtain ⟨cursor, -, hpasses⟩ := exists_passes tokens ⟨.ofKind .eof, {}⟩ []
  have hstops : Scan.start.StopsAt cursor := by
    rw [Scan.StopsAt, hpasses.tokens_eq, Scan.run?_append_of_run? h]
    rfl
  have hreads : Reads (Opening.total [] + Scan.start.nesting tokens) [] .expr cursor _ :=
    reads_expr rfl hstops
  rcases hreads.at_stop hpasses h rfl (Nat.le_add_left _ _) with ⟨expr, -, hexpr, -⟩ | ⟨hne, -⟩
  · exact ⟨expr, hexpr⟩
  · exact absurd rfl hne

/-- What is open behind a complete operand can be closed. -/
theorem Scan.exists_closing : ∀ {opened : List Opening}, settle opened = opened →
    ∃ rest, Scan.run? ⟨false, opened⟩ rest = some ⟨false, []⟩
  | [], _ => ⟨[], rfl⟩
  | .sign :: opened, h => by
    have hlength := length_settle_le opened
    rw [← settle_sign_cons, h, List.length_cons] at hlength
    omega
  | .paren :: opened, _ => by
    have := length_settle_le opened
    obtain ⟨rest, hrest⟩ := exists_closing (settle_settle opened)
    exact ⟨⟨.ofKind .rparen, {}⟩ :: rest, hrest⟩
  termination_by opened => opened.length

/-- **What a scan passes can be continued to an expression**: by an operand, if one is expected, and
an end for every open parenthesis. -/
theorem viable_of_run? {tokens : List Token} {scan : Scan}
    (h : Scan.start.run? tokens = some scan) : Viable tokens := by
  obtain ⟨expecting, opened⟩ := scan
  suffices hrest : ∃ rest, Scan.run? ⟨expecting, opened⟩ rest = some ⟨false, []⟩ by
    obtain ⟨rest, hrest⟩ := hrest
    refine ⟨rest, derives_of_run? ?_⟩
    rw [Scan.run?_append_of_run? h, hrest]
  cases expecting with
  | true =>
    obtain ⟨rest, hrest⟩ := Scan.exists_closing (settle_settle opened)
    exact ⟨⟨.literal (.int 0), {}⟩ :: rest, hrest⟩
  | false => exact Scan.exists_closing ((Scan.settled_start.run? h) rfl)

/-- The scan passes what can be continued to an expression. -/
theorem Viable.exists_run? {tokens : List Token} (h : Viable tokens) :
    ∃ scan, Scan.start.run? tokens = some scan := by
  obtain ⟨rest, expr, hexpr⟩ := h
  obtain ⟨scan, hscan, -⟩ := Scan.run?_append_eq_some (hexpr.run? [])
  exact ⟨scan, hscan⟩

/-! ### The answer of the parser -/

/-- The parser accepts the list, or blames the token, where the scan stops. -/
theorem parse_at_stop {before : List Token} {token : Token} {scan : Scan}
    (hrun : Scan.start.run? before = some scan) (hstop : scan.step? token.kind = none)
    (hnesting : Scan.start.nesting before ≤ nestingBudget) (after : List Token) :
    (∃ expr, token.kind = .eof ∧ Derives .expr before expr ∧
        Expr.parse (before ++ token :: after) = { value? := some expr }) ∨
      (¬ (scan = ⟨false, []⟩ ∧ token.kind = .eof) ∧
        (Expr.parse (before ++ token :: after)).error? =
          some ⟨.invalidSyntax scan.gauge.problem, token.extent⟩) := by
  obtain ⟨cursor, hcursor, hpasses⟩ := exists_passes before token after
  have hstops : Scan.start.StopsAt cursor := by
    rw [Scan.StopsAt, hpasses.tokens_eq, Scan.run?_append_of_run? hrun]
    exact Scan.run?_cons_of_none hstop after
  have hreads : Reads (Opening.total [] + nestingBudget) [] .expr cursor _ :=
    reads_expr rfl hstops
  have hparse : Expr.parse (before ++ token :: after) = (Rule.program nestingBudget cursor).1 := by
    rw [Expr.parse, hcursor]
  rw [hparse, Rule.program]
  rcases hreads.at_stop hpasses hrun hstop (Nat.le_trans hnesting (Nat.le_add_left _ _)) with
    ⟨expr, rfl, hexpr, hanswer⟩ | ⟨hne, hanswer⟩
  · rw [hanswer]
    by_cases heof : token.kind = .eof
    · exact .inl ⟨expr, heof, hexpr, by simp [heof]⟩
    · refine .inr ⟨fun h ↦ heof h.2, ?_⟩
      simp [heof, Outcome.failure, SyntaxProblem.failure, Scan.gauge, Gauge.problem]
  · rw [hanswer]
    exact .inr ⟨fun h ↦ hne h.1, rfl⟩

section Whole

variable {body : List Token} {stop : Token}

/-- A list that ends in its only token for the end of the text does not get past a scan. -/
theorem run?_append_stop (hstop : stop.kind = .eof) :
    Scan.start.run? (body ++ [stop]) = none := by
  rcases hrun : Scan.start.run? body with - | scan
  · rw [Scan.run?_append, hrun]
    rfl
  · have hnone : scan.step? stop.kind = none := by
      rw [hstop]
      rfl
    rw [Scan.run?_append_of_run? hrun, Scan.run?_cons_of_none hnone]

/-- A split of such a list at a token of that kind is the split at its end. -/
theorem eq_body_of_kind (hbody : ∀ token ∈ body, token.kind ≠ .eof) {before after : List Token}
    {token : Token} (hsplit : body ++ [stop] = before ++ token :: after)
    (htoken : token.kind = .eof) : before = body := by
  rcases List.eq_nil_or_concat after with rfl | ⟨more, last, rfl⟩
  · exact (List.append_inj_left' hsplit rfl).symm
  · rw [List.concat_eq_append, ← List.cons_append, ← List.append_assoc] at hsplit
    have hmem : token ∈ body := by
      rw [List.append_inj_left' hsplit rfl]
      exact List.mem_append_right _ List.mem_cons_self
    exact absurd htoken (hbody token hmem)

/-- A whole list is an expression and read as one, or is none and refused. -/
theorem parse_cases (hbody : ∀ token ∈ body, token.kind ≠ .eof) (hstop : stop.kind = .eof)
    (hnesting : Scan.start.nesting (body ++ [stop]) ≤ nestingBudget) :
    (∃ expr, Derives .expr body expr ∧ Expr.parse (body ++ [stop]) = { value? := some expr }) ∨
      (¬ ∃ expr, Derives .expr body expr) ∧ (Expr.parse (body ++ [stop])).error? ≠ none := by
  have hends : Scan.start.run? (body ++ [stop]) = none := run?_append_stop hstop
  obtain ⟨before, token, after, scan, hsplit, hrun, hnone⟩ := Scan.exists_stop hends
  rw [hsplit] at hnesting ⊢
  rw [Scan.nesting_append_of_step? hrun hnone] at hnesting
  rcases parse_at_stop hrun hnone hnesting after with ⟨expr, htoken, hexpr, hparse⟩ | ⟨hne, herror⟩
  · rw [eq_body_of_kind hbody hsplit htoken] at hexpr
    exact .inl ⟨expr, hexpr, hparse⟩
  · refine .inr ⟨?_, ?_⟩
    · rintro ⟨expr, hexpr⟩
      have hwhole : Scan.start.run? body = some ⟨false, []⟩ := hexpr.run? []
      obtain ⟨rfl, rfl, -⟩ := Scan.stop_unique hwhole (by rw [hstop]; rfl) hrun hnone hsplit
      exact hne ⟨Option.some.inj (hrun.symm.trans hwhole), hstop⟩
    · rw [herror]
      exact Option.some_ne_none _

/-- **What parsing accepts.** A list that ends in its only token for the end of the text, and nests
no deeper than the budget, is accepted if and only if the grammar derives what stands in front of
the end. The expression is then the one that the derivation prescribes, and there is no other. -/
theorem parse_iff_derives (hbody : ∀ token ∈ body, token.kind ≠ .eof) (hstop : stop.kind = .eof)
    (hnesting : Scan.start.nesting (body ++ [stop]) ≤ nestingBudget) :
    ((Expr.parse (body ++ [stop])).error? = none ↔ ∃ expr, Derives .expr body expr) ∧
      (∀ expr, Expr.parse (body ++ [stop]) = { value? := some expr } ↔ Derives .expr body expr) ∧
      ∀ tokens expr expr', Derives .expr tokens expr → Derives .expr tokens expr' →
        expr = expr' := by
  refine ⟨?_, fun expr ↦ ?_, fun _ _ _ h h' ↦ h.unique h'⟩
  · rcases parse_cases hbody hstop hnesting with ⟨expr, hexpr, hparse⟩ | ⟨hno, herror⟩
    · rw [hparse]
      exact ⟨fun _ ↦ ⟨expr, hexpr⟩, fun _ ↦ rfl⟩
    · exact ⟨fun h ↦ absurd h herror, fun h ↦ absurd h hno⟩
  · rcases parse_cases hbody hstop hnesting with ⟨other, hother, hparse⟩ | ⟨hno, herror⟩
    · rw [hparse]
      constructor
      · intro h
        obtain rfl : other = expr := by simpa using h
        exact hother
      · intro h
        rw [hother.unique h]
    · constructor
      · intro h
        rw [h] at herror
        exact absurd rfl herror
      · exact fun h ↦ absurd ⟨expr, h⟩ hno

/-- The expression `-2*3` is a product, since its sign binds tighter. -/
theorem derives_product_of_sign :
    Derives .expr
      [.inLine "-2*3" 0 1 (.ofKind .minus), .inLine "-2*3" 1 2 (.literal (.int 2)),
        .inLine "-2*3" 2 3 (.ofKind .mul), .inLine "-2*3" 3 4 (.literal (.int 3))]
      (.binary (.unary (.inLine "-2*3" 0 1 (.ofKind .minus))
          (.number (.inLine "-2*3" 1 2 (.literal (.int 2)))))
        (.inLine "-2*3" 2 3 (.ofKind .mul))
        (.number (.inLine "-2*3" 3 4 (.literal (.int 3))))) := by
  have hstop : (Token.inLine "-2*3" 4 5 (.ofKind .eof)).kind = .eof := rfl
  exact ((parse_iff_derives (by decide) hstop (by decide)).2.1 _).1 (by decide +kernel)

/-- **What parsing blames.** A list as above that is no expression has a first token behind which
there is no hope left, and the failure is exactly there, whatever follows that token. What is wrong
with it depends on the tokens in front of it only by whether an operand is expected and by the
number of open parentheses. -/
theorem parse_blames_first_unviable (hbody : ∀ token ∈ body, token.kind ≠ .eof)
    (hstop : stop.kind = .eof) (hnesting : Scan.start.nesting (body ++ [stop]) ≤ nestingBudget)
    (hno : ¬ ∃ expr, Derives .expr body expr) :
    (∃ before token after, body ++ [stop] = before ++ token :: after ∧
        Viable before ∧ ¬ Viable (before ++ [token])) ∧
      ∀ before token after, body ++ [stop] = before ++ token :: after →
        Viable before → ¬ Viable (before ++ [token]) →
        ∃ gauge, Gauge.start.run? before = some gauge ∧
          gauge.problem.details =
            (if gauge.expecting then "Expected int, float, '+', '-' or '('"
              else if 0 < gauge.depth then "Expected ')'"
              else "Expected '+', '-', '*' or '/'") ∧
          ∀ others, (Expr.parse (before ++ token :: others)).error? =
            some ⟨.invalidSyntax gauge.problem, token.extent⟩ := by
  constructor
  · have hends : Scan.start.run? (body ++ [stop]) = none := run?_append_stop hstop
    obtain ⟨before, token, after, scan, hsplit, hrun, hnone⟩ := Scan.exists_stop hends
    exact ⟨before, token, after, hsplit, viable_of_run? hrun, not_viable_of_step? hrun hnone⟩
  · intro before token after hsplit hviable hhopeless
    obtain ⟨scan, hrun⟩ := hviable.exists_run?
    have hnone : scan.step? token.kind = none := by
      rcases hstep : scan.step? token.kind with - | next
      · rfl
      · have hpassed : Scan.start.run? (before ++ [token]) = some next := by
          rw [Scan.run?_append_of_run? hrun, Scan.run?_singleton hstep]
        exact absurd (viable_of_run? hpassed) hhopeless
    rw [hsplit, Scan.nesting_append_of_step? hrun hnone] at hnesting
    refine ⟨scan.gauge, ?_, scan.gauge.details_problem, fun others ↦ ?_⟩
    · show Scan.start.gauge.run? before = _
      rw [← Scan.map_gauge_run? Scan.settled_start, hrun]
      rfl
    · rcases parse_at_stop hrun hnone hnesting others with
        ⟨expr, htoken, hexpr, -⟩ | ⟨-, herror⟩
      · rw [eq_body_of_kind hbody hsplit htoken] at hexpr
        exact absurd ⟨expr, hexpr⟩ hno
      · exact herror

/-- In `(1 2` the second operand is to blame, and not the end of the text, where the parenthesis is
still open. -/
theorem parse_blames_second_operand :
    (Expr.parse ([.inLine "(1 2" 0 1 (.ofKind .lparen), .inLine "(1 2" 1 2 (.literal (.int 1)),
        .inLine "(1 2" 3 4 (.literal (.int 2))] ++ [.inLine "(1 2" 4 5 (.ofKind .eof)])).error? =
      some ⟨.invalidSyntax .expectedClosing, (Source.mk "<stdin>" "(1 2").stretch (3, 4)⟩ := by
  have hno : ¬ ∃ expr, Derives .expr [.inLine "(1 2" 0 1 (.ofKind .lparen),
      .inLine "(1 2" 1 2 (.literal (.int 1)), .inLine "(1 2" 3 4 (.literal (.int 2))] expr := by
    rintro ⟨expr, hexpr⟩
    exact absurd (hexpr.run? []) (by decide)
  have hstop : (Token.inLine "(1 2" 4 5 (.ofKind .eof)).kind = .eof := rfl
  have hrun : Scan.start.run? [.inLine "(1 2" 0 1 (.ofKind .lparen),
    .inLine "(1 2" 1 2 (.literal (.int 1))] = some ⟨false, [.paren]⟩ := rfl
  have hblames := (parse_blames_first_unviable (by decide) hstop (by decide) hno).2 [_, _] _ [_] rfl
  obtain ⟨gauge, hgauge, -, herror⟩ := hblames (viable_of_run? hrun) (not_viable_of_step? hrun rfl)
  obtain rfl := Option.some.inj hgauge
  exact herror [.inLine "(1 2" 4 5 (.ofKind .eof)]

end Whole

end Calculator
