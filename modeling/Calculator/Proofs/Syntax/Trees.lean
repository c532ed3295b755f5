import Calculator.Proofs.Evaluation.Result
import Calculator.Proofs.Syntax.Parsing

/-!
# What parsing builds

The expression that a derivation prescribes is made of the tokens derived from, less the
parentheses, in their order (`Derives.tokens_eq`), and it is one that evaluation is meant for
(`Derives.wellFormed`). So whatever is true of all tokens of a list is true of all tokens of the
expression that the list is.

`parse_outcome` says what parsing comes to for any list that ends in its only token for the end of
the text, however deep it nests: the expression that the grammar derives, or a problem at one of the
tokens of the list.
-/

namespace Calculator

open TokenCursor

/-- Is this one of the tokens that leave no trace in an expression? -/
def Kind.isParenthesis (kind : Kind) : Bool := kind = .lparen || kind = .rparen

section Derivations

variable {rank : Rank} {tokens : List Token} {expr : Expr}

/-- **An expression consists of the tokens that it was read from**, less the parentheses. -/
theorem Derives.tokens_eq (h : Derives rank tokens expr) :
    expr.tokens = tokens.filter fun token ↦ !token.kind.isParenthesis := by
  induction h with
  | @literal token hkind =>
    rcases hkind with hkind | hkind <;> simp [Expr.tokens, hkind, Kind.isParenthesis]
  | @signed sign _ _ hsign _ ih =>
    rcases hsign with hsign | hsign <;> simp [Expr.tokens, ih, hsign, Kind.isParenthesis]
  | enclosed hopening _ hclosing ih => simp [ih, hopening, hclosing, Kind.isParenthesis]
  | factor _ ih => exact ih
  | term _ ih => exact ih
  | product _ hop _ ihl ihr =>
    rcases hop with hop | hop <;> simp [Expr.tokens, ihl, ihr, hop, Kind.isParenthesis]
  | sum _ hop _ ihl ihr =>
    rcases hop with hop | hop <;> simp [Expr.tokens, ihl, ihr, hop, Kind.isParenthesis]

/-- **What the grammar derives can be evaluated.** -/
theorem Derives.wellFormed (h : Derives rank tokens expr) : expr.WellFormed := by
  induction h with
  | @literal token _ => exact .number token
  | signed hsign _ ih => exact .unary hsign ih
  | enclosed _ _ _ ih => exact ih
  | factor _ ih => exact ih
  | term _ ih => exact ih
  | product _ hop _ ihl ihr => exact .binary (.inr (.inr hop)) ihl ihr
  | sum _ hop _ ihl ihr =>
    exact .binary (hop.elim .inl fun h ↦ .inr (.inl h)) ihl ihr

/-- The literals of an expression are literals among its tokens. -/
theorem Derives.kind_of_mem_literals (h : Derives rank tokens expr) :
    ∀ token ∈ expr.literals, token ∈ tokens ∧ (token.kind = .int ∨ token.kind = .float) := by
  induction h with
  | literal hkind =>
    intro token htoken
    obtain rfl := List.mem_singleton.1 htoken
    exact ⟨List.mem_cons_self, hkind⟩
  | signed _ _ ih => exact fun token htoken ↦ (ih token htoken).imp_left (List.mem_cons_of_mem _)
  | enclosed _ _ _ ih => exact fun token htoken ↦ (ih token htoken).imp_left fun h ↦ by simp [h]
  | factor _ ih => exact ih
  | term _ ih => exact ih
  | product _ _ _ ihl ihr | sum _ _ _ ihl ihr =>
    intro token htoken
    rcases List.mem_append.1 htoken with hleft | hright
    · exact (ihl token hleft).imp_left fun h ↦ by simp [h]
    · exact (ihr token hright).imp_left fun h ↦ by simp [h]

end Derivations

/-! ### What parsing comes to -/

theorem TokenCursor.Passes.current_mem {cursor after : TokenCursor} {passed : List Token}
    (h : cursor.Passes passed after) : after.current ∈ cursor.tokens := by
  rw [h.tokens_eq]
  exact List.mem_append_right _ List.mem_cons_self

theorem TokenCursor.current_advance_mem (cursor : TokenCursor) :
    cursor.advance.current ∈ cursor.tokens := by
  unfold advance
  split
  · exact List.mem_cons_self
  · next token rest h =>
    rw [tokens, h]
    exact List.mem_cons_of_mem _ List.mem_cons_self

/-- A rule ends at a token of the list. -/
theorem Reads.current_mem {limit : Nat} {opened : List Opening} {rank : Rank} {cursor : TokenCursor}
    {answer : Except SyntaxProblem Expr × TokenCursor} (h : Reads limit opened rank cursor answer) :
    answer.2.current ∈ cursor.tokens := by
  cases h with
  | derived hpasses => exact hpasses.current_mem
  | stopped hpasses => exact hpasses.current_mem
  | @tooDeep _ _ _ after hpasses =>
    rw [hpasses.tokens_eq]
    exact List.mem_append_right _ after.current_advance_mem

/-- **What parsing comes to**: an expression that the grammar derives from the whole list, or a
problem at a token of the list. -/
theorem parse_outcome {body : List Token} {stop : Token} (hbody : ∀ token ∈ body, token.kind ≠ .eof)
    (hstop : stop.kind = .eof) :
    (∃ expr, Derives .expr body expr ∧ Expr.parse (body ++ [stop]) = { value? := some expr }) ∨
      ∃ problem, ∃ token ∈ body ++ [stop],
        (Expr.parse (body ++ [stop])).error? = some ⟨.invalidSyntax problem, token.extent⟩ := by
  obtain ⟨cursor, hcursor, hpasses⟩ := exists_passes body stop []
  have htokens : cursor.tokens = body ++ [stop] := hpasses.tokens_eq
  have hstops : Scan.start.StopsAt cursor := by
    rw [Scan.StopsAt, htokens]
    exact run?_append_stop hstop
  have hreads : Reads (Opening.total [] + nestingBudget) [] .expr cursor _ := reads_expr rfl hstops
  have hmem := hreads.current_mem
  have hparse : Expr.parse (body ++ [stop]) = (Rule.program nestingBudget cursor).1 := by
    rw [Expr.parse, hcursor]
  rw [htokens] at hmem
  rw [hparse, Rule.program]
  rcases hanswer : Rule.expr nestingBudget cursor with ⟨problem | expr, after⟩ <;>
    rw [hanswer] at hreads hmem
  · exact .inr ⟨problem, after.current, hmem, rfl⟩
  by_cases heof : after.current.kind = .eof
  · cases hreads with
    | derived hpassed hexpr =>
      have hsplit := htokens.symm.trans hpassed.tokens_eq
      rw [eq_body_of_kind hbody hsplit heof] at hexpr
      exact .inl ⟨expr, hexpr, by simp [heof]⟩
  · refine .inr ⟨.expectedOperator, after.current, hmem, ?_⟩
    simp [heof, Outcome.failure, SyntaxProblem.failure]

section Whole

variable {body : List Token} {stop : Token} {expr : Expr}

/-- What parsing gives is what the grammar derives. -/
theorem derives_of_parse (hbody : ∀ token ∈ body, token.kind ≠ .eof) (hstop : stop.kind = .eof)
    (hparse : Expr.parse (body ++ [stop]) = { value? := some expr }) : Derives .expr body expr := by
  rcases parse_outcome hbody hstop with ⟨other, hother, heq⟩ | ⟨problem, token, -, herror⟩
  · obtain rfl : other = expr := by simpa using heq.symm.trans hparse
    exact hother
  · rw [hparse] at herror
    cases herror

/-- Within the budget, what the grammar derives is what parsing gives. -/
theorem parse_of_derives (hbody : ∀ token ∈ body, token.kind ≠ .eof) (hstop : stop.kind = .eof)
    (hexpr : Derives .expr body expr) (hnesting : Scan.start.nesting body ≤ nestingBudget) :
    Expr.parse (body ++ [stop]) = { value? := some expr } := by
  have hwhole : Scan.start.nesting (body ++ [stop]) = Scan.start.nesting body := by
    refine Scan.nesting_append_of_step? (hexpr.run? []) ?_
    rw [hstop]
    rfl
  rw [← hwhole] at hnesting
  rcases parse_cases hbody hstop hnesting with ⟨other, hother, hparse⟩ | ⟨hno, -⟩
  · rw [hparse, hother.unique hexpr]
  · exact absurd ⟨expr, hexpr⟩ hno

end Whole

end Calculator
