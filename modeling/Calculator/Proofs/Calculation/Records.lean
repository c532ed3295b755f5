import Calculator.Proofs.Evaluation.Depth
import Calculator.Proofs.Syntax.Termination

/-!
# Outcomes, filled step by step

A rule of the grammar answers with an expression or with a problem, and evaluation with a number or
with a failure. Neither can answer with both. That is what is left of an outcome that is filled step
by step: it takes over the error of every outcome that it asks for (`Outcome.takeOver`), goes on for
as long as it has none (`Outcome.proceed`), and gets a value at the end.

In this module rules and evaluation fill outcomes in that way, each its own. A `Recorder` is a rule
that does, and it has on record what the rule answers (`Recorder.records_ofRank`); `Expr.fill` has
on record what evaluation answers (`Expr.fill_eq`). Hence each of these outcomes has either a value
or an error (`Outcome.IsExclusive`).

There is one outcome that is marked as a success before it is clear that it is one. What is read of
a list of tokens is on record as a whole when a token is left over, and the error is put beside it
in the same record. These are all the outcomes that have both, and an operator that was expected is
the error of all of them and of no others.
-/

namespace Calculator

/-! ### Outcomes that take over others -/

namespace Outcome

variable {α ε γ : Type}

/-- There is a value or an error, and not both. -/
def IsExclusive (outcome : Outcome α ε) : Prop := outcome.value?.isSome ≠ outcome.error?.isSome

instance (outcome : Outcome α ε) : Decidable outcome.IsExclusive :=
  inferInstanceAs (Decidable (outcome.value?.isSome ≠ outcome.error?.isSome))

theorem isExclusive_success (value : α) : (success {} value : Outcome α ε).IsExclusive := by
  simp [IsExclusive, success]

theorem isExclusive_failure (error : ε) : (failure {} error : Outcome α ε).IsExclusive := by
  simp [IsExclusive, failure]

/-- Takes over the error of another outcome, if it has one, and gives its value. -/
def takeOver (outcome other : Outcome α ε) : Outcome α ε × Option α :=
  match other.error? with
  | some error => (outcome.failure error, other.value?)
  | none => (outcome, other.value?)

/-- With notes for errors this is registering, unless the note is blank. -/
theorem takeOver_eq_register {outcome other : Outcome α String} (h : other.error? ≠ some "") :
    outcome.takeOver other = outcome.register other := by
  rw [takeOver, register]
  rcases herror : other.error? with - | note
  · rfl
  · have hnote : note ≠ "" := by
      rintro rfl
      exact h herror
    simp [Option.filter, hnote]

/-- Takes over another outcome. With an error this is the end of it; without one there is a next
step, which is given the value of the other. -/
def proceed (outcome other : Outcome α ε) (finish : Outcome α ε → γ)
    (next : Outcome α ε → Option α → γ) : γ :=
  let (taken, value?) := outcome.takeOver other
  if taken.error?.isSome then finish taken else next taken value?

end Outcome

/-! ### Rules -/

/-- A rule that fills an outcome. If the budget is used up there is none. -/
abbrev Recorder := TokenCursor → Option (Outcome Expr Failure) × TokenCursor

namespace Recorder

/-- What is on record of the answer of a rule. -/
def ofAnswer : Rule.Answer → Option (Outcome Expr Failure) × TokenCursor
  | (.ok expr, after) => (some (Outcome.success {} expr), after)
  | (.error .tooDeep, after) => (none, after)
  | (.error problem, after) => (some (Outcome.failure {} (problem.failure after)), after)

/-- Goes on behind a rule that was asked for. -/
def proceed (outcome : Outcome Expr Failure) (answer : Option (Outcome Expr Failure) × TokenCursor)
    (next : Outcome Expr Failure → Option Expr → Recorder) :
    Option (Outcome Expr Failure) × TokenCursor :=
  match answer with
  | (some other, after) =>
    outcome.proceed other (fun failed ↦ (some failed, after)) fun taken expr? ↦
      next taken expr? after
  | (none, after) => (none, after)

/-- Goes on after a left operand for as long as operators follow. An operand that is missing without
an error leaves the whole missing; this does not happen (`Records.chain`). -/
def chain (operand : Recorder) (isOperator : Kind → Bool) :
    List Token → Outcome Expr Failure → Option Expr → Recorder
  | [], outcome, left?, cursor => (some { outcome with value? := left? }, cursor)
  | _ :: rounds, outcome, left?, cursor =>
    if isOperator cursor.current.kind then
      proceed outcome (operand cursor.advance) fun outcome right? ↦
        chain operand isOperator rounds outcome
          (left?.bind fun left ↦ right?.map (.binary left cursor.current))
    else (some { outcome with value? := left? }, cursor)

/-- Operands with operators between them, grouped to the left. -/
def binary (operand : Recorder) (isOperator : Kind → Bool) : Recorder := fun cursor ↦
  proceed {} (operand cursor) fun outcome left? after ↦
    chain operand isOperator after.tokens outcome left? after

/-- A sign and a factor, a literal, or an expression between parentheses. -/
def factor (budget : Nat) : Recorder := fun cursor ↦
  match cursor.current.kind with
  | .plus | .minus =>
    match budget with
    | 0 => (none, cursor.advance)
    | budget + 1 =>
      proceed {} (factor budget cursor.advance) fun outcome operand? after ↦
        (some { outcome with value? := operand?.map (.unary cursor.current) }, after)
  | .int | .float => (some (Outcome.success {} (.number cursor.current)), cursor.advance)
  | .lparen =>
    match budget with
    | budget + 5 =>
      proceed {} (binary (binary (factor budget) Rule.isMultiplicative) Rule.isAdditive
          cursor.advance) fun outcome inner? after ↦
        if after.current.kind = .rparen then
          (some { outcome with value? := inner? }, after.advance)
        else (some (outcome.failure (SyntaxProblem.expectedClosing.failure after)), after)
    | _ => (none, cursor.advance)
  | _ => (some (Outcome.failure {} (SyntaxProblem.expectedOperand.failure cursor)), cursor)

/-- The rule of a rank. -/
def ofRank (budget : Nat) : Rank → Recorder
  | .factor => factor budget
  | .term => binary (factor budget) Rule.isMultiplicative
  | .expr => binary (binary (factor budget) Rule.isMultiplicative) Rule.isAdditive

/-- An expression and nothing after it. The outcome of the expression is kept, and has an error
added to it if a token is left over. -/
def program (budget : Nat) (cursor : TokenCursor) : Outcome Expr Failure × TokenCursor :=
  match ofRank budget .expr cursor with
  | (some outcome, after) =>
    if outcome.error?.isNone ∧ after.current.kind ≠ .eof then
      (outcome.failure (SyntaxProblem.expectedOperator.failure after), after)
    else (outcome, after)
  | (none, after) => (Outcome.failure {} (SyntaxProblem.tooDeep.failure after), after)

/-- The recorder has on record what the rule answers. -/
def Records (recorder : Recorder) (rule : Rule) : Prop :=
  ∀ cursor, recorder cursor = ofAnswer (rule cursor)

variable {recorder : Recorder} {operand : Rule}

/-- Behind an expression there is a next step, and a problem is taken over as it is. -/
theorem proceed_ofAnswer (answer : Rule.Answer)
    (next : Outcome Expr Failure → Option Expr → Recorder) :
    proceed {} (ofAnswer answer) next =
      match answer with
      | (.ok expr, after) => next {} (some expr) after
      | (.error problem, after) => ofAnswer (.error problem, after) := by
  obtain ⟨problem | expr, after⟩ := answer
  · cases problem <;> rfl
  · rfl

/-- As long as operands are read, the outcome of a loop stays blank. -/
theorem Records.chain (h : recorder.Records operand) (isOperator : Kind → Bool)
    (rounds : List Token) (left : Expr) (cursor : TokenCursor) :
    Recorder.chain recorder isOperator rounds {} (some left) cursor =
      ofAnswer (Rule.chain operand isOperator rounds left cursor) := by
  induction rounds generalizing left cursor with
  | nil => rfl
  | cons round rounds ih =>
    rw [Recorder.chain, Rule.chain]
    split
    · rw [h, proceed_ofAnswer]
      rcases operand cursor.advance with ⟨problem | right, after⟩
      · rfl
      · exact ih (.binary left cursor.current right) after
    · rfl

theorem Records.binary (h : recorder.Records operand) (isOperator : Kind → Bool) :
    (Recorder.binary recorder isOperator).Records (Rule.binary operand isOperator) := by
  intro cursor
  rw [Recorder.binary, Rule.binary, h, proceed_ofAnswer]
  rcases operand cursor with ⟨problem | left, after⟩
  · rfl
  · exact h.chain isOperator after.tokens left after

theorem records_factor (budget : Nat) : (factor budget).Records (Rule.factor budget) := by
  -- strong induction, since a parenthesis takes five at a time
  induction budget using Nat.strongRecOn with
  | ind budget ih =>
    intro cursor
    rw [factor.eq_def, Rule.factor.eq_def]
    cases hkind : cursor.current.kind with
    | plus | minus =>
      cases budget with
      | zero => rfl
      | succ budget =>
        simp only [ih budget (Nat.lt_succ_self budget) cursor.advance, proceed_ofAnswer]
        rcases Rule.factor budget cursor.advance with ⟨problem | operand, after⟩ <;> rfl
    | lparen =>
      rcases budget with - | - | - | - | - | budget
      case succ.succ.succ.succ.succ =>
        have hinner := ((ih budget (by omega)).binary Rule.isMultiplicative).binary Rule.isAdditive
        simp only [hinner cursor.advance, proceed_ofAnswer]
        rcases Rule.binary (Rule.binary (Rule.factor budget) Rule.isMultiplicative) Rule.isAdditive
          cursor.advance with ⟨problem | inner, after⟩
        · rfl
        · dsimp only
          split <;> rfl
      -- with less than five left, the parenthesis is refused
      all_goals rfl
    | _ => rfl

/-- **Rules have on record what they answer.** -/
theorem records_ofRank (budget : Nat) (rank : Rank) :
    (ofRank budget rank).Records (Rule.ofRank budget rank) := by
  have hfactor := records_factor budget
  cases rank with
  | factor => exact hfactor
  | term => exact hfactor.binary Rule.isMultiplicative
  | expr => exact (hfactor.binary Rule.isMultiplicative).binary Rule.isAdditive

/-- The outcome of parsing is the one that was filled. -/
theorem program_eq (budget : Nat) (cursor : TokenCursor) :
    program budget cursor = Rule.program budget cursor := by
  rw [program, Rule.program_eq, records_ofRank budget .expr cursor]
  show _ = Rule.conclude (Rule.ofRank budget .expr cursor)
  rcases Rule.ofRank budget .expr cursor with ⟨problem | expr, after⟩
  · cases problem <;> rfl
  · by_cases heof : after.current.kind = .eof
    · rw [Rule.conclude, if_pos heof]
      exact if_neg fun h ↦ h.2 heof
    · rw [Rule.conclude, if_neg heof]
      exact if_pos ⟨rfl, heof⟩

/-- What is on record of an answer has a value or an error. -/
theorem isExclusive_ofAnswer {answer : Rule.Answer} {outcome : Outcome Expr Failure}
    (h : (ofAnswer answer).1 = some outcome) : outcome.IsExclusive := by
  obtain ⟨problem | expr, after⟩ := answer
  · cases problem with
    | tooDeep => cases h
    | _ =>
      obtain rfl := Option.some.inj h
      exact Outcome.isExclusive_failure _
  · obtain rfl := Option.some.inj h
    exact Outcome.isExclusive_success expr

end Recorder

/-! ### Evaluation -/

/-- Puts the answer of an operation on record. -/
def Outcome.settle (outcome : Outcome Number Failure) :
    Except Stop Number → Except Fault (Outcome Number Failure)
  | .ok number => .ok (outcome.success number)
  | .error (.failure failure) => .ok (outcome.failure failure)
  | .error (.fault fault) => .error fault

/-- What is on record of an answer has a value or an error. -/
theorem Outcome.isExclusive_settle {answer : Except Stop Number} {outcome : Outcome Number Failure}
    (h : settle {} answer = .ok outcome) : outcome.IsExclusive := by
  rcases answer with (failure | fault) | number
  · obtain rfl := Except.ok.inj h
    exact isExclusive_failure failure
  · cases h
  · obtain rfl := Except.ok.inj h
    exact isExclusive_success number

namespace Expr

variable {context : Context} {budget : Nat} {expr : Expr}

/-- Evaluation that fills an outcome. An operand that is missing without an error leaves it as it
is; this does not happen (`fill_eq`). -/
def fill (context : Context) : Nat → Expr → Except Fault (Outcome Number Failure)
  | _ + 2, number token => .ok (Outcome.success {} ⟨token.lexeme.value?, token.extent, context⟩)
  | budget + 2, unary operator operand => do
    let other ← fill context budget operand
    Outcome.proceed {} other .ok fun outcome value? ↦
      match value? with
      | some value =>
        outcome.settle ((value.signed operator.kind).map
          (·.setExtent (unary operator operand).extent))
      | none => .ok outcome
  | budget + 2, binary left operator right => do
    let other ← fill context budget left
    Outcome.proceed {} other .ok fun outcome a? ↦ do
      let other ← fill context budget right
      outcome.proceed other .ok fun outcome b? ↦
        match a?, b? with
        | some a, some b =>
          outcome.settle ((Number.operate operator.kind a b).map
            (·.setExtent (binary left operator right).extent))
        | _, _ => .ok outcome
  | _ + 2, foreign name _ => .error (.unknownNode name)
  | _, _ => .error .tooDeep

/-- Evaluation that fills an outcome, with a new one if the expression is too deep. -/
def fillWhole (context : Context) (budget : Nat) (expr : Expr) :
    Except Fault (Outcome Number Failure) :=
  match expr.fill context budget with
  | .error .tooDeep => .ok (Outcome.failure {} ⟨.runtime .tooDeep context, expr.extent⟩)
  | result => result

/-- Behind a number there is a next step, and anything else is the end of it. -/
theorem proceed_settle (answer : Except Stop Number)
    (next : Outcome Number Failure → Option Number → Except Fault (Outcome Number Failure)) :
    (do
      let other ← Outcome.settle {} answer
      Outcome.proceed {} other .ok next) =
      match answer with
      | .ok value => next {} (some value)
      | .error stop => Outcome.settle {} (.error stop) := by
  rcases answer with (failure | fault) | number <;> rfl

/-- **Evaluation has on record what it answers.** -/
theorem fill_eq (context : Context) (budget : Nat) (expr : Expr) :
    expr.fill context budget = Outcome.settle {} (expr.visit context budget) := by
  induction expr generalizing budget with
  | number token | foreign name extent =>
    match budget with
    | 0 | 1 | budget + 2 => rfl
  | unary operator operand ih =>
    match budget with
    | 0 | 1 => rfl
    | budget + 2 =>
      rw [fill, ih, proceed_settle]
      rcases hoperand : operand.visit context budget with stop | value
      · rw [visit, hoperand]
        rfl
      · rw [visit_unary_of_ok hoperand]
  | binary left operator right ihl ihr =>
    match budget with
    | 0 | 1 => rfl
    | budget + 2 =>
      rw [fill, ihl, ihr, proceed_settle]
      rcases hleft : left.visit context budget with stop | a
      · rw [visit, hleft]
        rfl
      dsimp only
      rw [proceed_settle]
      rcases hright : right.visit context budget with stop | b
      · rw [visit, hleft, hright]
        rfl
      · rw [visit_binary_of_ok hleft hright]

theorem fillWhole_eq (context : Context) (budget : Nat) (expr : Expr) :
    expr.fillWhole context budget = Outcome.settle {} (expr.evaluate context budget) := by
  rw [fillWhole, evaluate, fill_eq]
  rcases expr.visit context budget with (failure | fault) | number
  · rfl
  · cases fault <;> rfl
  · rfl

/-- A well-formed expression whose literals have values has an outcome. -/
theorem WellFormed.exists_fillWhole (hwf : expr.WellFormed)
    (hliterals : ∀ token ∈ expr.literals, ∃ value, token.lexeme.value? = some value)
    (context : Context) (budget : Nat) :
    ∃ outcome, expr.fillWhole context budget = .ok outcome := by
  rw [fillWhole_eq]
  rcases hwf.evaluate_cases hliterals budget with ⟨number, -, hok, -⟩ | ⟨failure, hfailed⟩
  · rw [hok]
    exact ⟨_, rfl⟩
  · rw [hfailed]
    exact ⟨_, rfl⟩

end Expr

/-! ### Parsing -/

namespace Rule

variable {cursor : TokenCursor} {answer : Answer}

/-- If there is not a value or an error alone, an expression was read and a token is left over. -/
theorem isExclusive_conclude_or (answer : Answer) :
    (conclude answer).1.IsExclusive ∨
      ∃ expr after, answer = (.ok expr, after) ∧ after.current.kind ≠ .eof ∧
        (conclude answer).1 = ⟨some expr, some (SyntaxProblem.expectedOperator.failure after)⟩ := by
  obtain ⟨problem | expr, after⟩ := answer
  · exact .inl (Outcome.isExclusive_failure _)
  by_cases heof : after.current.kind = .eof
  · rw [conclude, if_pos heof]
    exact .inl (Outcome.isExclusive_success expr)
  · rw [conclude, if_neg heof]
    exact .inr ⟨expr, after, rfl, heof, rfl⟩

/-- No rule says that an operator was expected, so that this tells a token that is left over. -/
theorem isExclusive_conclude_iff (h : EndsBehind cursor answer) :
    (conclude answer).1.IsExclusive ↔
      ∀ extent, (conclude answer).1.error? ≠ some ⟨.invalidSyntax .expectedOperator, extent⟩ := by
  constructor
  · rintro hexclusive extent herror
    obtain ⟨problem | expr, after⟩ := answer
    · obtain rfl : problem = .expectedOperator := by
        simpa [conclude, SyntaxProblem.failure] using congrArg (Option.map Failure.cause) herror
      exact absurd (h.problem_mem _ rfl) (by decide)
    · by_cases heof : after.current.kind = .eof
      · rw [conclude, if_pos heof] at herror
        cases herror
      · rw [conclude, if_neg heof] at hexclusive
        exact hexclusive rfl
  · intro herror
    refine (isExclusive_conclude_or answer).resolve_right ?_
    rintro ⟨expr, after, -, -, hboth⟩
    exact herror after.current.extent (congrArg Outcome.error? hboth)

end Rule

/-- **Outcomes have a value or an error, and not both, unless a token is left over.** This is so of
every outcome of a rule for factors, terms and expressions, and of every outcome of evaluation; what
they have is what the rules and evaluation answer. The outcome of parsing as a whole has both if an
expression was read and a token other than the end of the text follows, and then the expression
is kept beside the failure. Its error tells whether this is so. -/
theorem exclusive_unless_leftover (first : Token) (others : List Token) :
    (∀ budget rank cursor,
        Recorder.ofRank budget rank cursor =
            Recorder.ofAnswer (Rule.ofRank budget rank cursor) ∧
          ∀ outcome ∈ (Recorder.ofRank budget rank cursor).1, outcome.IsExclusive) ∧
      (Recorder.program nestingBudget ⟨0, first, others⟩).1 = Expr.parse (first :: others) ∧
      ((Expr.parse (first :: others)).IsExclusive ∨
        ∃ expr after, Rule.expr nestingBudget ⟨0, first, others⟩ = (.ok expr, after) ∧
          after.current.kind ≠ .eof ∧
          Expr.parse (first :: others) =
            ⟨some expr, some (SyntaxProblem.expectedOperator.failure after)⟩) ∧
      ((Expr.parse (first :: others)).IsExclusive ↔
        ∀ extent, (Expr.parse (first :: others)).error? ≠
          some ⟨.invalidSyntax .expectedOperator, extent⟩) ∧
      ∀ (context : Context) (budget : Nat) (expr : Expr),
        expr.fill context budget = Outcome.settle {} (expr.visit context budget) ∧
          expr.fillWhole context budget = Outcome.settle {} (expr.evaluate context budget) ∧
          (∀ outcome, expr.fill context budget = .ok outcome ∨
            expr.fillWhole context budget = .ok outcome → outcome.IsExclusive) ∧
          (expr.WellFormed →
            (∀ token ∈ expr.literals, ∃ value, token.lexeme.value? = some value) →
            ∃ outcome, expr.fillWhole context budget = .ok outcome) := by
  refine ⟨fun budget rank cursor ↦ ?_, congrArg Prod.fst (Recorder.program_eq _ _), ?_, ?_,
    fun context budget expr ↦ ?_⟩
  · have hrecords := Recorder.records_ofRank budget rank cursor
    refine ⟨hrecords, fun outcome houtcome ↦ ?_⟩
    rw [hrecords] at houtcome
    exact Recorder.isExclusive_ofAnswer houtcome
  · rw [Expr.parse_cons]
    exact Rule.isExclusive_conclude_or _
  · rw [Expr.parse_cons]
    exact Rule.isExclusive_conclude_iff (Rule.advances_ofRank nestingBudget .expr _)
  · have hfill := expr.fill_eq context budget
    have hwhole := expr.fillWhole_eq context budget
    refine ⟨hfill, hwhole, ?_, fun hwf hliterals ↦ hwf.exists_fillWhole hliterals context budget⟩
    rintro outcome (h | h)
    · exact Outcome.isExclusive_settle (hfill ▸ h)
    · exact Outcome.isExclusive_settle (hwhole ▸ h)

/-- The literal `2` behind the literal `1` is left over: the outcome of parsing keeps the first, and
has an error. -/
theorem not_exclusive_of_second_literal :
    ¬ ∀ (body : List Token) (stop : Token), (∀ token ∈ body, token.kind ≠ .eof) →
      stop.kind = .eof → (Expr.parse (body ++ [stop])).IsExclusive := by
  intro h
  have hexclusive := h
    [.inLine "1 2" 0 1 (.literal (.int 1)), .inLine "1 2" 2 3 (.literal (.int 2))]
    (.inLine "1 2" 3 4 (.ofKind .eof)) (by decide) rfl
  revert hexclusive
  decide +kernel

end Calculator
