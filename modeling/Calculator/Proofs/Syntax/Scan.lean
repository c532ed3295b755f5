import Calculator.Expr.Parser
import Calculator.Proofs.Syntax.Grammar

/-!
# Scanning a list of tokens

A scan passes tokens from left to right and decides of each whether it can stand there. It keeps two
things: whether an operand is expected, and what has been opened and not been closed. A sign is open
until its operand is complete, a parenthesis until it is closed, so a completed operand closes all
signs directly in front of it.

The scan is the yardstick for two properties of the parser:

* where it stops. What is to blame depends only on whether an operand is expected and on how many
  parentheses are open, which is all that a `Gauge` keeps. Forgetting the signs turns the one
  into the other (`map_gauge_step?`);
* how deep it goes. An open sign costs one and an open parenthesis five, and `Scan.nesting` is the
  most that is open at a time before the scan stops.

Neither builds a tree. That the scan takes exactly what can be continued to an expression is proved
from the grammar in one direction (`Derives.run?`), and from the parser in the other.
-/

namespace Calculator

/-- What can be open. -/
inductive Opening where
  | sign
  | paren
deriving DecidableEq

/-- How much of the budget it takes while it is open. -/
def Opening.cost : Opening → Nat
  | sign => 1
  | paren => 5

/-- What all that is open costs. -/
def Opening.total : List Opening → Nat
  | [] => 0
  | opening :: opened => opening.cost + total opened

/-- What is open after an operand is complete: the signs in front of it are done with. -/
def settle (opened : List Opening) : List Opening := opened.dropWhile (· = .sign)

@[simp] theorem settle_nil : settle [] = [] := rfl

@[simp] theorem settle_sign_cons (opened : List Opening) :
    settle (.sign :: opened) = settle opened := rfl

@[simp] theorem settle_paren_cons (opened : List Opening) :
    settle (.paren :: opened) = .paren :: opened := rfl

@[simp] theorem settle_settle (opened : List Opening) : settle (settle opened) = settle opened := by
  induction opened with
  | nil => rfl
  | cons opening opened ih => cases opening <;> simp [ih]

@[simp] theorem count_settle (opened : List Opening) :
    (settle opened).count .paren = opened.count .paren := by
  induction opened with
  | nil => rfl
  | cons opening opened ih => cases opening <;> simp [ih]

theorem length_settle_le (opened : List Opening) : (settle opened).length ≤ opened.length :=
  (List.dropWhile_suffix _).length_le

@[simp] theorem Opening.total_cons (opening : Opening) (opened : List Opening) :
    total (opening :: opened) = opening.cost + total opened :=
  rfl

theorem total_settle_le (opened : List Opening) :
    Opening.total (settle opened) ≤ Opening.total opened := by
  induction opened with
  | nil => exact Nat.le_refl _
  | cons opening opened ih =>
    cases opening with
    | sign => rw [settle_sign_cons, Opening.total_cons]; omega
    | paren => exact Nat.le_refl _

/-- Where a scan stands between two tokens. -/
structure Scan where
  /-- Must an operand begin here? -/
  expecting : Bool
  /-- What is open, innermost first. -/
  opened : List Opening
deriving DecidableEq

namespace Scan

/-- Before the first token. -/
def start : Scan := ⟨true, []⟩

/-- After a token, if one of its kind can stand here. -/
def step? (scan : Scan) : Kind → Option Scan
  | .plus | .minus => some ⟨true, if scan.expecting then .sign :: scan.opened else scan.opened⟩
  | .mul | .div => if scan.expecting then none else some ⟨true, scan.opened⟩
  | .int | .float => if scan.expecting then some ⟨false, settle scan.opened⟩ else none
  | .lparen => if scan.expecting then some ⟨true, .paren :: scan.opened⟩ else none
  | .rparen =>
    if scan.expecting = false ∧ scan.opened.head? = some .paren then
      some ⟨false, settle scan.opened.tail⟩
    else none
  | .eof | .other _ => none

/-- After a list of tokens, if all of them can stand there. -/
def run? (scan : Scan) : List Token → Option Scan
  | [] => some scan
  | token :: tokens => (scan.step? token.kind).bind fun next ↦ next.run? tokens

/-- The most that is open at a time, up to the first token that cannot stand where it stands. -/
def nesting (scan : Scan) : List Token → Nat
  | [] => Opening.total scan.opened
  | token :: tokens =>
    match scan.step? token.kind with
    | some next => max (Opening.total scan.opened) (next.nesting tokens)
    | none => Opening.total scan.opened

end Scan

/-- A scan that only counts: is an operand expected, and how many parentheses are open? -/
structure Gauge where
  expecting : Bool
  depth : Nat
deriving DecidableEq

namespace Gauge

/-- Before the first token. -/
def start : Gauge := ⟨true, 0⟩

/-- After a token, if one of its kind can stand here. -/
def step? (gauge : Gauge) : Kind → Option Gauge
  | .plus | .minus => some ⟨true, gauge.depth⟩
  | .mul | .div => if gauge.expecting then none else some ⟨true, gauge.depth⟩
  | .int | .float => if gauge.expecting then some ⟨false, gauge.depth⟩ else none
  | .lparen => if gauge.expecting then some ⟨true, gauge.depth + 1⟩ else none
  | .rparen =>
    if gauge.expecting = false ∧ 0 < gauge.depth then some ⟨false, gauge.depth - 1⟩ else none
  | .eof | .other _ => none

/-- After a list of tokens, if all of them can stand there. -/
def run? (gauge : Gauge) : List Token → Option Gauge
  | [] => some gauge
  | token :: tokens => (gauge.step? token.kind).bind fun next ↦ next.run? tokens

/-- What is wrong with a token that cannot stand here. -/
def problem (gauge : Gauge) : SyntaxProblem :=
  if gauge.expecting then .expectedOperand
  else if 0 < gauge.depth then .expectedClosing
  else .expectedOperator

/-- The problem in words. -/
theorem details_problem (gauge : Gauge) :
    gauge.problem.details =
      if gauge.expecting then "Expected int, float, '+', '-' or '('"
      else if 0 < gauge.depth then "Expected ')'"
      else "Expected '+', '-', '*' or '/'" := by
  rw [problem]
  split
  · rfl
  · split <;> rfl

end Gauge

/-- Forgets the signs that are open. -/
def Scan.gauge (scan : Scan) : Gauge := ⟨scan.expecting, scan.opened.count .paren⟩

namespace Scan

/-! ### Runs -/

@[simp] theorem run?_nil (scan : Scan) : scan.run? [] = some scan := rfl

theorem run?_cons (scan : Scan) (token : Token) (tokens : List Token) :
    scan.run? (token :: tokens) = (scan.step? token.kind).bind fun next ↦ next.run? tokens := rfl

theorem run?_singleton {scan next : Scan} {token : Token} (h : scan.step? token.kind = some next) :
    scan.run? [token] = some next := by
  rw [run?_cons, h]
  rfl

theorem run?_cons_of_none {scan : Scan} {token : Token} (h : scan.step? token.kind = none)
    (tokens : List Token) : scan.run? (token :: tokens) = none := by
  rw [run?_cons, h]
  rfl

theorem run?_append (scan : Scan) (tokens others : List Token) :
    scan.run? (tokens ++ others) = (scan.run? tokens).bind fun next ↦ next.run? others := by
  induction tokens generalizing scan with
  | nil => rfl
  | cons token tokens ih =>
    rw [List.cons_append, run?_cons, run?_cons, Option.bind_assoc]
    simp only [ih]

/-- A run goes on from where it is. -/
theorem run?_append_of_run? {scan next : Scan} {tokens : List Token}
    (h : scan.run? tokens = some next) (others : List Token) :
    scan.run? (tokens ++ others) = next.run? others := by
  rw [run?_append, h, Option.bind_some]

/-- A run over a list goes through every place in it. -/
theorem run?_append_eq_some {scan last : Scan} {tokens others : List Token}
    (h : scan.run? (tokens ++ others) = some last) :
    ∃ next, scan.run? tokens = some next ∧ next.run? others = some last := by
  rw [run?_append] at h
  exact Option.bind_eq_some_iff.1 h

/-- A scan that does not pass a list stops somewhere in it. -/
theorem exists_stop {scan : Scan} {tokens : List Token} (h : scan.run? tokens = none) :
    ∃ before token after next, tokens = before ++ token :: after ∧
      scan.run? before = some next ∧ next.step? token.kind = none := by
  induction tokens generalizing scan with
  | nil => exact absurd h (by simp)
  | cons token tokens ih =>
    rcases hstep : scan.step? token.kind with - | second
    · exact ⟨[], token, tokens, scan, rfl, rfl, hstep⟩
    · rw [run?_cons, hstep, Option.bind_some] at h
      obtain ⟨before, other, after, next, rfl, hrun, hstop⟩ := ih h
      refine ⟨token :: before, other, after, next, rfl, ?_, hstop⟩
      rw [run?_cons, hstep, Option.bind_some, hrun]

/-- **A scan stops at one place only.** Two ways to split a list in front of a token that cannot
stand there are the same. -/
theorem stop_unique {scan next next' : Scan} {before before' after after' : List Token}
    {token token' : Token} (hrun : scan.run? before = some next)
    (hstop : next.step? token.kind = none) (hrun' : scan.run? before' = some next')
    (hstop' : next'.step? token'.kind = none)
    (h : before ++ token :: after = before' ++ token' :: after') :
    before = before' ∧ token = token' ∧ after = after' := by
  -- the longer of two different splits would pass the token at which the shorter one stops
  induction before generalizing scan before' with
  | nil =>
    obtain rfl : scan = next := by simpa using hrun
    cases before' with
    | nil => simpa using h
    | cons first before' =>
      obtain ⟨rfl, -⟩ := List.cons.inj h
      rw [run?_cons_of_none hstop] at hrun'
      cases hrun'
  | cons first before ih =>
    cases before' with
    | nil =>
      obtain rfl : scan = next' := by simpa using hrun'
      obtain ⟨rfl, -⟩ := List.cons.inj h
      rw [run?_cons_of_none hstop'] at hrun
      cases hrun
    | cons first' before' =>
      obtain ⟨rfl, hrest⟩ := List.cons.inj h
      rw [run?_cons] at hrun hrun'
      obtain ⟨second, hstep, hrun⟩ := Option.bind_eq_some_iff.1 hrun
      rw [hstep, Option.bind_some] at hrun'
      obtain ⟨rfl, htoken, hafter⟩ := ih hrun hrun' hrest
      exact ⟨rfl, htoken, hafter⟩

/-! ### Nesting -/

theorem total_le_nesting (expecting : Bool) (opened : List Opening) (tokens : List Token) :
    Opening.total opened ≤ nesting ⟨expecting, opened⟩ tokens := by
  cases tokens with
  | nil => exact Nat.le_refl _
  | cons token tokens =>
    rw [nesting]
    split
    · exact Nat.le_max_left _ _
    · exact Nat.le_refl _

theorem nesting_cons {expecting : Bool} {opened : List Opening} {next : Scan} {token : Token}
    (h : step? ⟨expecting, opened⟩ token.kind = some next) (tokens : List Token) :
    nesting ⟨expecting, opened⟩ (token :: tokens) =
      max (Opening.total opened) (next.nesting tokens) := by
  rw [nesting, h]

theorem nesting_singleton {expecting expecting' : Bool} {opened opened' : List Opening}
    {token : Token} (h : step? ⟨expecting, opened⟩ token.kind = some ⟨expecting', opened'⟩) :
    nesting ⟨expecting, opened⟩ [token] = max (Opening.total opened) (Opening.total opened') :=
  nesting_cons h []

theorem nesting_append {scan next : Scan} {tokens : List Token} (h : scan.run? tokens = some next)
    (others : List Token) :
    scan.nesting (tokens ++ others) = max (scan.nesting tokens) (next.nesting others) := by
  induction tokens generalizing scan with
  | nil =>
    obtain rfl : scan = next := by simpa using h
    rw [List.nil_append]
    exact (Nat.max_eq_right (total_le_nesting scan.expecting scan.opened others)).symm
  | cons token tokens ih =>
    rw [run?_cons] at h
    obtain ⟨second, hstep, hrun⟩ := Option.bind_eq_some_iff.1 h
    rw [List.cons_append, nesting_cons hstep, nesting_cons hstep, ih hrun, Nat.max_assoc]

theorem total_le_nesting_of_run? {scan next : Scan} {tokens : List Token}
    (h : scan.run? tokens = some next) : Opening.total next.opened ≤ scan.nesting tokens := by
  have happend := nesting_append h []
  rw [List.append_nil] at happend
  rw [happend]
  exact Nat.le_max_right _ _

/-- What stands behind the place where the scan stops does not count. -/
theorem nesting_append_of_step? {scan next : Scan} {before after : List Token} {token : Token}
    (hrun : scan.run? before = some next) (hstop : next.step? token.kind = none) :
    scan.nesting (before ++ token :: after) = scan.nesting before := by
  rw [nesting_append hrun, nesting, hstop]
  exact Nat.max_eq_left (total_le_nesting_of_run? hrun)

end Scan

/-! ### What a scan takes of an expression -/

/-- **A scan takes every derivable list**, in any surroundings, and has an operand complete behind
it. -/
theorem Derives.run? {rank : Rank} {tokens : List Token} {expr : Expr}
    (h : Derives rank tokens expr) (opened : List Opening) :
    Scan.run? ⟨true, opened⟩ tokens = some ⟨false, settle opened⟩ := by
  induction h generalizing opened with
  | literal hkind => rcases hkind with hkind | hkind <;> simp [Scan.run?, Scan.step?, hkind]
  | signed hsign _ ih =>
    rcases hsign with hsign | hsign <;> simp [Scan.run?, Scan.step?, hsign, ih]
  | enclosed hopening _ hclosing ih =>
    rw [List.cons_append, Scan.run?_cons, hopening]
    simp [Scan.run?_append, Scan.run?, Scan.step?, hclosing, ih]
  | factor _ ih => exact ih opened
  | product _ hop _ ihl ihr =>
    rw [Scan.run?_append_of_run? (ihl opened), Scan.run?_cons]
    rcases hop with hop | hop <;> simp [Scan.step?, hop, ihr]
  | term _ ih => exact ih opened
  | sum _ hop _ ihl ihr =>
    rw [Scan.run?_append_of_run? (ihl opened), Scan.run?_cons]
    rcases hop with hop | hop <;> simp [Scan.step?, hop, ihr]

/-- A token that cannot stand behind some tokens ends all hope for them. -/
theorem not_viable_of_step? {before : List Token} {token : Token} {scan : Scan}
    (hrun : Scan.start.run? before = some scan) (hstop : scan.step? token.kind = none) :
    ¬ Viable (before ++ [token]) := by
  rintro ⟨rest, expr, h⟩
  have hall : Scan.start.run? _ = _ := h.run? []
  rw [List.append_assoc] at hall
  obtain ⟨next, hnext, hlast⟩ := Scan.run?_append_eq_some hall
  obtain rfl : scan = next := by simpa [hrun] using hnext
  simp [Scan.run?_cons, hstop] at hlast

/-! ### From scans to gauges -/

namespace Scan

/-- No sign is open behind a complete operand. -/
def Settled (scan : Scan) : Prop := scan.expecting = false → settle scan.opened = scan.opened

theorem settled_start : start.Settled := by
  intro h
  exact absurd h (by decide)

theorem Settled.step? {scan next : Scan} {kind : Kind} (hscan : scan.Settled)
    (h : scan.step? kind = some next) : next.Settled := by
  obtain ⟨expecting, opened⟩ := scan
  cases kind <;> cases expecting <;> simp [Scan.step?] at h <;> grind [Settled, settle_settle]

theorem Settled.run? {scan next : Scan} {tokens : List Token} (hscan : scan.Settled)
    (h : scan.run? tokens = some next) : next.Settled := by
  induction tokens generalizing scan with
  | nil =>
    obtain rfl : scan = next := by simpa using h
    exact hscan
  | cons token tokens ih =>
    rw [run?_cons] at h
    obtain ⟨second, hstep, hrun⟩ := Option.bind_eq_some_iff.1 h
    exact ih (hscan.step? hstep) hrun

/-- **The gauge stops where the scan stops**: behind a complete operand only a parenthesis can be
open directly, so the number of parentheses decides whether one can be closed. -/
theorem map_gauge_step? {scan : Scan} (h : scan.Settled) (kind : Kind) :
    (scan.step? kind).map gauge = scan.gauge.step? kind := by
  obtain ⟨expecting, opened⟩ := scan
  cases expecting with
  | true => cases kind <;> simp [Scan.step?, Gauge.step?, gauge]
  | false =>
    have hsettled : settle opened = opened := h rfl
    cases opened with
    | nil => cases kind <;> simp [Scan.step?, Gauge.step?, gauge]
    | cons opening opened =>
      cases opening with
      | sign =>
        -- a sign on top is not settled
        have hlength := length_settle_le opened
        rw [← settle_sign_cons, hsettled, List.length_cons] at hlength
        omega
      | paren => cases kind <;> simp [Scan.step?, Gauge.step?, gauge]

theorem map_gauge_run? {scan : Scan} (h : scan.Settled) (tokens : List Token) :
    (scan.run? tokens).map gauge = scan.gauge.run? tokens := by
  induction tokens generalizing scan with
  | nil => rfl
  | cons token tokens ih =>
    rw [run?_cons, Gauge.run?, ← map_gauge_step? h]
    rcases hstep : scan.step? token.kind with - | next
    · rfl
    · exact ih (h.step? hstep)

end Scan

end Calculator
