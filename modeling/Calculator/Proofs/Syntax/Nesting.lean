import Calculator.Proofs.Syntax.Parsing
import Calculator.Proofs.Syntax.Unbounded

/-!
# What the budget refuses

The parser with a budget and the parser without one differ in a single answer, that nesting is too
deep, and it is decided by the scan alone which lists get it: those in which more is open at some
token than the budget allows, in front of the token at which parsing without a budget fails.

Both tokens are found from left to right, so it matters which of the two comes first. A syntax error
ends the parsing before deeper nesting further right is seen, and too deep nesting ends it before a
syntax error further right is seen. `Scan.firstAbove?` looks for the first of the two as if there
were no syntax errors at all. It goes on behind a token that cannot stand where it stands, and what
is open there does not change.

Operators between operands open nothing, so that chains of them are as deep as their deepest operand
(`OperatorChain.run?`).
-/

namespace Calculator

open TokenCursor

/-! ### The parser with any budget and with none -/

/-- What the answer of the rule for expressions comes to if nothing may follow the expression. -/
def Rule.conclude : Rule.Answer → Outcome Expr Failure × TokenCursor
  | (.ok value, after) =>
    let outcome : Outcome Expr Failure := { value? := some value }
    if after.current.kind = .eof then (outcome, after)
    else (outcome.failure (SyntaxProblem.expectedOperator.failure after), after)
  | (.error problem, after) => ({ error? := some (problem.failure after) }, after)

theorem Rule.program_eq (budget : Nat) (cursor : TokenCursor) :
    Rule.program budget cursor = Rule.conclude (Rule.expr budget cursor) := by
  rw [Rule.program]
  rcases Rule.expr budget cursor with ⟨problem | value, after⟩ <;> rfl

theorem Expr.parse_cons (first : Token) (others : List Token) :
    Expr.parse (first :: others) =
      (Rule.conclude (Rule.expr nestingBudget ⟨0, first, others⟩)).1 :=
  congrArg Prod.fst (Rule.program_eq nestingBudget ⟨0, first, others⟩)

/-- The expression that a list of tokens is, with a given budget for its nesting. -/
def Expr.parseWithin (budget : Nat) (tokens : List Token) : Outcome Expr Failure :=
  match TokenCursor.ofTokens? tokens with
  | some cursor => (Rule.program budget cursor).1
  | none => {}

/-- The expression that a list of tokens is, and the index of the token at which parsing ended, with
no bound on its nesting. -/
noncomputable def Expr.parseFreely? (tokens : List Token) :
    Option (Outcome Expr Failure × Nat) := do
  let cursor ← TokenCursor.ofTokens? tokens
  let answer ← Rule.read? .expr cursor
  let (outcome, after) := Rule.conclude answer
  return (outcome, after.index)

/-- The failure of the parser is that nesting is too deep. -/
def Outcome.IsTooDeep (outcome : Outcome Expr Failure) : Prop :=
  ∃ extent, outcome.error? = some ⟨.invalidSyntax .tooDeep, extent⟩

theorem Rule.isTooDeep_conclude {answer : Rule.Answer} :
    (Rule.conclude answer).1.IsTooDeep ↔ answer.1 = .error .tooDeep := by
  obtain ⟨problem | value, after⟩ := answer
  · simp [Rule.conclude, Outcome.IsTooDeep, SyntaxProblem.failure]
  · by_cases heof : after.current.kind = .eof <;>
      simp [Rule.conclude, Outcome.IsTooDeep, SyntaxProblem.failure, Outcome.failure, heof]

theorem Rule.conclude_snd (answer : Rule.Answer) : (Rule.conclude answer).2 = answer.2 := by
  obtain ⟨problem | value, after⟩ := answer
  · rfl
  · by_cases heof : after.current.kind = .eof <;> simp [Rule.conclude, heof]

/-- Nothing is wrong only at the end of the text. -/
theorem Rule.kind_of_conclude {answer : Rule.Answer} (h : (Rule.conclude answer).1.error? = none) :
    answer.2.current.kind = .eof := by
  obtain ⟨problem | value, after⟩ := answer
  · cases h
  · by_cases heof : after.current.kind = .eof
    · exact heof
    · simp [Rule.conclude, Outcome.failure, heof] at h

theorem Expr.parseWithin_of_cursor {tokens : List Token} {cursor : TokenCursor}
    (h : ofTokens? tokens = some cursor) (budget : Nat) :
    Expr.parseWithin budget tokens = (Rule.conclude (Rule.expr budget cursor)).1 := by
  rw [Expr.parseWithin, h]
  exact congrArg Prod.fst (Rule.program_eq budget cursor)

/-! ### Where too much is open -/

namespace Scan

/-- The index of the first token with which more is open than a limit allows. A token that cannot
stand where it stands changes nothing. -/
def firstAbove? (limit : Nat) (scan : Scan) : List Token → Option Nat
  | [] => none
  | token :: tokens =>
    let next := (scan.step? token.kind).getD scan
    if limit < Opening.total next.opened then some 0
    else (next.firstAbove? limit tokens).map (· + 1)

variable {limit : Nat} {scan next : Scan}

/-- If tokens that the scan passes nest deeper than the limit, the first token above it is one of
them. -/
theorem exists_firstAbove?_lt {before : List Token} (hrun : scan.run? before = some next)
    (htotal : Opening.total scan.opened ≤ limit) (hnesting : limit < scan.nesting before)
    (others : List Token) :
    ∃ index, scan.firstAbove? limit (before ++ others) = some index ∧ index < before.length := by
  induction before generalizing scan with
  | nil => exact absurd htotal (Nat.not_le_of_lt hnesting)
  | cons token before ih =>
    rw [run?_cons] at hrun
    obtain ⟨second, hstep, hrun⟩ := Option.bind_eq_some_iff.1 hrun
    rw [nesting_cons hstep] at hnesting
    rw [List.cons_append, firstAbove?, hstep, Option.getD_some]
    by_cases habove : limit < Opening.total second.opened
    · exact ⟨0, if_pos habove, Nat.zero_lt_succ _⟩
    · obtain ⟨index, hindex, hlt⟩ := ih hrun (Nat.le_of_not_lt habove) (by omega)
      exact ⟨index + 1, by rw [if_neg habove, hindex]; rfl, Nat.succ_lt_succ hlt⟩

/-- If they do not, it is none of them. -/
theorem firstAbove?_append {before : List Token} (hrun : scan.run? before = some next)
    (hnesting : scan.nesting before ≤ limit) (others : List Token) :
    scan.firstAbove? limit (before ++ others) =
      (next.firstAbove? limit others).map (· + before.length) := by
  induction before generalizing scan with
  | nil =>
    obtain rfl : scan = next := by simpa using hrun
    simp
  | cons token before ih =>
    rw [run?_cons] at hrun
    obtain ⟨second, hstep, hrun⟩ := Option.bind_eq_some_iff.1 hrun
    rw [nesting_cons hstep] at hnesting
    have hle : Opening.total second.opened ≤ second.nesting before := total_le_nesting _ _ before
    rw [List.cons_append, firstAbove?, hstep, Option.getD_some, if_neg (by omega),
      ih hrun (by omega), Option.map_map]
    rfl

/-- Nor is it the token at which the scan stops, which opens nothing. -/
theorem firstAbove?_singleton {token : Token} (hstop : scan.step? token.kind = none)
    (htotal : Opening.total scan.opened ≤ limit) : scan.firstAbove? limit [token] = none := by
  rw [firstAbove?, hstop, Option.getD_none, if_neg (Nat.not_lt_of_le htotal)]
  rfl

/-- The tokens in front of the one at which the scan stops nest deeper than the limit exactly if the
first token above it is one of them, or if there is such a token at all and nothing follows the one
at which the scan stops. -/
theorem lt_nesting_iff_firstAbove? {complete : Prop} {before after : List Token} {token : Token}
    (hrun : start.run? before = some scan) (hstop : scan.step? token.kind = none)
    (hcomplete : complete → after = []) :
    limit < start.nesting before ↔
      ∃ deep, start.firstAbove? limit (before ++ token :: after) = some deep ∧
        (complete ∨ deep < before.length) := by
  constructor
  · intro hlimit
    obtain ⟨deep, habove, hlt⟩ :=
      exists_firstAbove?_lt hrun (Nat.zero_le limit) hlimit (token :: after)
    exact ⟨deep, habove, .inr hlt⟩
  · rintro ⟨deep, habove, hfirst⟩
    refine Nat.lt_of_not_le fun hlimit ↦ ?_
    rw [firstAbove?_append hrun hlimit] at habove
    obtain ⟨index, hindex, rfl⟩ := Option.map_eq_some_iff.1 habove
    rcases hfirst with hdone | hlt
    · obtain rfl := hcomplete hdone
      have htotal := Nat.le_trans (total_le_nesting_of_run? hrun) hlimit
      rw [firstAbove?_singleton hstop htotal] at hindex
      cases hindex
    · omega

end Scan

/-! ### Chains of operators -/

/-- Operands with operators between them, none of which nests deeper than a limit. -/
inductive OperatorChain (limit : Nat) : List Token → Prop where
  | operand {tokens : List Token} {expr : Expr} (hexpr : Derives .factor tokens expr)
      (hnesting : Scan.start.nesting tokens ≤ limit) : OperatorChain limit tokens
  | snoc {tokens others : List Token} {operator : Token} {expr : Expr}
      (hchain : OperatorChain limit tokens) (hop : operator.kind.operation?.isSome)
      (hexpr : Derives .factor others expr) (hnesting : Scan.start.nesting others ≤ limit) :
    OperatorChain limit (tokens ++ operator :: others)

/-- **A chain nests no deeper than its deepest operand**, however long it is. -/
theorem OperatorChain.run? {limit : Nat} {tokens : List Token} (h : OperatorChain limit tokens) :
    Scan.start.run? tokens = some ⟨false, []⟩ ∧ Scan.start.nesting tokens ≤ limit := by
  induction h with
  | operand hexpr hnesting => exact ⟨hexpr.run? [], hnesting⟩
  | @snoc tokens others operator expr hchain hop hexpr hnesting ih =>
    obtain ⟨hrun, hchain⟩ := ih
    have hstep : Scan.step? ⟨false, []⟩ operator.kind = some .start := by
      cases hkind : operator.kind <;> simp_all [Kind.operation?, Scan.step?, Scan.start]
    constructor
    · rw [Scan.run?_append_of_run? hrun, Scan.run?_cons, hstep]
      exact hexpr.run? []
    · rw [Scan.nesting_append hrun, Scan.nesting_cons hstep]
      exact Nat.max_le.2 ⟨hchain, Nat.max_le.2 ⟨Nat.zero_le _, hnesting⟩⟩

/-! ### The answers -/

theorem Gauge.problem_ne_tooDeep (gauge : Gauge) : gauge.problem ≠ .tooDeep := by
  rw [Gauge.problem]
  split
  · decide
  · split <;> decide

section AtStop

variable {limit : Nat} {cursor stop : TokenCursor} {before : List Token} {scan : Scan}

theorem reads_expr_within (limit : Nat) (hstops : Scan.start.StopsAt cursor) :
    Reads limit [] .expr cursor (Rule.expr limit cursor) := by
  have hreads : Reads (Opening.total [] + limit) [] .expr cursor _ := reads_expr rfl hstops
  rwa [Opening.total, Nat.zero_add] at hreads

/-- The rule for expressions finds nesting too deep exactly if it is, in front of the place where
the scan stops. -/
theorem expr_eq_tooDeep_iff (hpasses : cursor.Passes before stop)
    (hrun : Scan.start.run? before = some scan) (hstop : scan.step? stop.current.kind = none)
    (hstops : Scan.start.StopsAt cursor) :
    (Rule.expr limit cursor).1 = .error .tooDeep ↔ limit < Scan.start.nesting before := by
  have hreads := reads_expr_within limit hstops
  constructor
  · intro hdeep
    refine Nat.lt_of_not_le fun hlimit ↦ ?_
    rcases hreads.at_stop hpasses hrun hstop hlimit with
      ⟨expr, -, -, hanswer⟩ | ⟨-, hanswer⟩
    · rw [hanswer] at hdeep
      cases hdeep
    · rw [hanswer] at hdeep
      exact scan.gauge.problem_ne_tooDeep (Except.error.inj hdeep)
  · intro hlimit
    generalize Rule.expr limit cursor = answer at hreads
    cases hreads with
    | derived hp he hn hends =>
      obtain ⟨rfl, -, -⟩ := Scan.place_unique hpasses hrun hstop hp (he.run? [])
        ((step?_eq_none_iff_goesOn _).2 hends)
      exact absurd hn (Nat.not_le_of_lt hlimit)
    | stopped hp hr hn hs _ =>
      obtain ⟨rfl, -, -⟩ := Scan.place_unique hpasses hrun hstop hp hr hs
      exact absurd hn (Nat.not_le_of_lt hlimit)
    | tooDeep => rfl

/-- Otherwise it ends at that place. -/
theorem expr_snd_eq (hpasses : cursor.Passes before stop)
    (hrun : Scan.start.run? before = some scan) (hstop : scan.step? stop.current.kind = none)
    (hstops : Scan.start.StopsAt cursor) (hlimit : Scan.start.nesting before ≤ limit) :
    (Rule.expr limit cursor).2 = stop := by
  rcases (reads_expr_within limit hstops).at_stop hpasses hrun hstop hlimit with
    ⟨expr, -, -, hanswer⟩ | ⟨-, hanswer⟩ <;> rw [hanswer]

/-- **The parser without a budget** gives the same answer as one with a budget that is enough up to
the place where the scan stops, and ends there. -/
theorem parseFreely?_eq {tokens : List Token} (hcursor : ofTokens? tokens = some cursor)
    (hpasses : cursor.Passes before stop) (hrun : Scan.start.run? before = some scan)
    (hstop : scan.step? stop.current.kind = none) (hstops : Scan.start.StopsAt cursor)
    (hlimit : Scan.start.nesting before ≤ limit) :
    Expr.parseFreely? tokens = some (Expr.parseWithin limit tokens, stop.index) := by
  have hdeep : (Rule.expr limit cursor).1 ≠ .error .tooDeep := by
    rw [Ne, expr_eq_tooDeep_iff hpasses hrun hstop hstops]
    exact Nat.not_lt_of_le hlimit
  have hread : Rule.read? .expr cursor = some (Rule.expr limit cursor) :=
    Rule.read?_eq_expr rfl hstops hdeep
  have hindex : (Rule.conclude (Rule.expr limit cursor)).2.index = stop.index := by
    rw [Rule.conclude_snd, expr_snd_eq hpasses hrun hstop hstops hlimit]
  simp [Expr.parseFreely?, hcursor, hread, hindex, Expr.parseWithin_of_cursor hcursor]

end AtStop

section Whole

variable {body : List Token} {stop : Token}

/-- **What the budget refuses.** A list that ends in its only token for the end of the text is
refused for its nesting exactly if more than the budget is open at some token, and parsing without
a budget has not failed in front of it. All other lists get the answer of parsing without a budget.
So a larger budget changes no answer but this one, and chains of operators get it for their operands
only. -/
theorem parse_refuses_nesting (hbody : ∀ token ∈ body, token.kind ≠ .eof) (hstop : stop.kind = .eof)
    (limit : Nat) :
    (Expr.parse (body ++ [stop]) = Expr.parseWithin nestingBudget (body ++ [stop]) ∧
        SyntaxProblem.tooDeep.details = "Expression too deeply nested") ∧
      (∃ free index, Expr.parseFreely? (body ++ [stop]) = some (free, index) ∧
        ((Expr.parseWithin limit (body ++ [stop])).IsTooDeep ↔
          ∃ deep, Scan.start.firstAbove? limit (body ++ [stop]) = some deep ∧
            (free.error? = none ∨ deep < index)) ∧
        (¬ (Expr.parseWithin limit (body ++ [stop])).IsTooDeep →
          Expr.parseWithin limit (body ++ [stop]) = free)) ∧
      (∀ more ≥ limit, ¬ (Expr.parseWithin limit (body ++ [stop])).IsTooDeep →
        Expr.parseWithin more (body ++ [stop]) = Expr.parseWithin limit (body ++ [stop])) ∧
      (OperatorChain limit body → ¬ (Expr.parseWithin limit (body ++ [stop])).IsTooDeep) := by
  have hends : Scan.start.run? (body ++ [stop]) = none := run?_append_stop hstop
  obtain ⟨before, token, after, scan, hsplit, hrun, hnone⟩ := Scan.exists_stop hends
  obtain ⟨cursor, hcursor, hpasses⟩ := exists_passes before token after
  rw [← hsplit] at hcursor
  have hstops : Scan.start.StopsAt cursor := by
    rwa [Scan.StopsAt, hpasses.tokens_eq, TokenCursor.tokens, ← hsplit]
  have hdeep : ∀ budget, (Expr.parseWithin budget (body ++ [stop])).IsTooDeep ↔
      budget < Scan.start.nesting before := by
    intro budget
    rw [Expr.parseWithin_of_cursor hcursor, Rule.isTooDeep_conclude,
      expr_eq_tooDeep_iff hpasses hrun hnone hstops]
  have hfree : ∀ budget, Scan.start.nesting before ≤ budget → Expr.parseFreely? (body ++ [stop]) =
      some (Expr.parseWithin budget (body ++ [stop]), before.length) :=
    fun budget ↦ parseFreely?_eq hcursor hpasses hrun hnone hstops
  have hsame : ∀ budget, Scan.start.nesting before ≤ budget → ∀ more ≥ budget,
      Expr.parseWithin more (body ++ [stop]) = Expr.parseWithin budget (body ++ [stop]) := by
    intro budget hbudget more hmore
    have hanswer := (hfree more (Nat.le_trans hbudget hmore)).symm.trans (hfree budget hbudget)
    exact congrArg Prod.fst (Option.some.inj hanswer)
  -- parsing without a budget has not failed only if it has come to the end, where nothing follows
  have hcomplete : (Expr.parseWithin (Scan.start.nesting before) (body ++ [stop])).error? = none →
      after = [] := by
    intro hnone'
    rw [Expr.parseWithin_of_cursor hcursor] at hnone'
    have htoken := Rule.kind_of_conclude hnone'
    rw [expr_snd_eq hpasses hrun hnone hstops (Nat.le_refl _)] at htoken
    obtain rfl := eq_body_of_kind hbody hsplit htoken
    exact (List.cons.inj (List.append_cancel_left hsplit)).2.symm
  refine ⟨⟨rfl, rfl⟩, ⟨_, _, hfree _ (Nat.le_refl _), ?_, ?_⟩, ?_, ?_⟩
  · rw [hdeep, Scan.lt_nesting_iff_firstAbove? hrun hnone hcomplete, hsplit]
  · intro hshallow
    rw [hdeep, Nat.not_lt] at hshallow
    exact hsame _ (Nat.le_refl _) limit hshallow
  · intro more hmore hshallow
    rw [hdeep, Nat.not_lt] at hshallow
    exact hsame limit hshallow more hmore
  · intro hchain
    obtain ⟨hwhole, hnesting⟩ := hchain.run?
    obtain ⟨rfl, -, -⟩ := Scan.stop_unique hwhole (by rw [hstop]; rfl) hrun hnone hsplit
    rw [hdeep]
    exact Nat.not_lt_of_le hnesting

/-- In `-()` there is no operand, but where six may not be open the parenthesis is to blame. -/
theorem parse_refuses_nesting_of_parenthesis :
    (Expr.parseWithin 5 ([.inLine "-()" 0 1 (.ofKind .minus), .inLine "-()" 1 2 (.ofKind .lparen),
      .inLine "-()" 2 3 (.ofKind .rparen)] ++ [.inLine "-()" 3 4 (.ofKind .eof)])).IsTooDeep := by
  have hbody : ∀ token ∈ [Token.inLine "-()" 0 1 (.ofKind .minus),
      .inLine "-()" 1 2 (.ofKind .lparen), .inLine "-()" 2 3 (.ofKind .rparen)],
      token.kind ≠ .eof := by decide
  have hstop : (Token.inLine "-()" 3 4 (.ofKind .eof)).kind = .eof := rfl
  obtain ⟨-, ⟨free, index, hfree, hdeep, -⟩, -⟩ := parse_refuses_nesting hbody hstop 5
  obtain ⟨cursor, hcursor, hpasses⟩ := exists_passes
    [.inLine "-()" 0 1 (.ofKind .minus), .inLine "-()" 1 2 (.ofKind .lparen)]
    (.inLine "-()" 2 3 (.ofKind .rparen)) [.inLine "-()" 3 4 (.ofKind .eof)]
  have hends : Scan.start.StopsAt cursor := by
    rw [Scan.StopsAt, hpasses.tokens_eq]
    rfl
  have hplace := parseFreely?_eq hcursor hpasses rfl rfl hends (Nat.le_refl _)
  obtain rfl : index = 2 := congrArg Prod.snd (Option.some.inj (hfree.symm.trans hplace))
  exact hdeep.2 ⟨1, rfl, .inr (by decide)⟩

end Whole

end Calculator
