import Calculator.Calculation
import Calculator.Proofs.Arithmetic.Texts
import Calculator.Proofs.Syntax.Relocation

/-!
# Texts of expressions

The text of an expression says all of it but where its tokens stand: expressions with the same text
have the same shape, the same operators and the same literals (`Expr.write_eq_write_iff`).

The text of an operation is put between parentheses and divided by commas, and no text of a lexeme
has one of these in it. So the end of the text of a lexeme can be seen from what follows it
(`Lexeme.IsWord.write_append_inj`), and so can the end of the text of an expression
(`Expr.IsLegible.write_append_inj`). The sign of an operand and the left operand of an operator both
stand behind an opening parenthesis and in front of a comma. They differ in the first name that is
written there, which is that of an operator or that of a literal.
-/

namespace Calculator

/-! ### Lexemes -/

namespace Kind

variable {kind other : Kind}

theorem eq_of_name (h : kind ∈ known) (h' : other ∈ known) (heq : kind.name = other.name) :
    kind = other := by
  have hall : ∀ kind ∈ known, ∀ other ∈ known, kind.name = other.name → kind = other := by
    decide
  exact hall kind h other h' heq

/-- What holds of the letters of all known names holds of those of a known name. -/
theorem forall_mem_name {p : Char → Bool} (hall : known.all (·.name.toList.all p) = true)
    (h : kind ∈ known) : ∀ c ∈ kind.name.toList, p c = true :=
  List.all_eq_true.1 (List.all_eq_true.1 hall kind h)

end Kind

namespace Lexeme

variable {lexeme other : Lexeme} {after after' : List Char}

/-- The lexeme of a literal. -/
def IsLiteral (lexeme : Lexeme) : Prop := ∃ value, lexeme = literal value

/-- The lexeme of an operator, without a value. -/
def IsOperator (lexeme : Lexeme) : Prop :=
  lexeme.kind.operation?.isSome = true ∧ lexeme.value? = none

/-- The lexeme of a literal or of an operator. -/
def IsWord (lexeme : Lexeme) : Prop := lexeme.IsLiteral ∨ lexeme.IsOperator

theorem IsOperator.not_isLiteral (h : lexeme.IsOperator) : ¬ lexeme.IsLiteral := by
  rintro ⟨_ | _, rfl⟩ <;> cases h.1

theorem IsOperator.eq_ofKind (h : lexeme.IsOperator) : lexeme = ofKind lexeme.kind := by
  obtain ⟨kind, value?⟩ := lexeme
  obtain rfl : value? = none := h.2
  rfl

theorem IsWord.kind_mem_known (h : lexeme.IsWord) : lexeme.kind ∈ Kind.known := by
  rcases h with ⟨_ | _, rfl⟩ | ⟨hoperation, -⟩
  · show Kind.int ∈ Kind.known
    decide
  · show Kind.float ∈ Kind.known
    decide
  · generalize lexeme.kind = kind at hoperation
    cases kind <;> first | decide | cases hoperation

/-- What stands behind the name of the kind: nothing, or a value after a colon. -/
def valueText (lexeme : Lexeme) : List Char :=
  lexeme.value?.elim [] fun value ↦ ':' :: value.literal

theorem write_eq (lexeme : Lexeme) :
    lexeme.write = lexeme.kind.name.toList ++ lexeme.valueText := by
  obtain ⟨kind, _ | value⟩ := lexeme <;> rfl

theorem head?_valueText {c : Char} (h : lexeme.valueText.head? = some c) : c = ':' := by
  obtain ⟨kind, _ | value⟩ := lexeme
  · cases h
  · exact (Option.some.inj h).symm

theorem map_literal_of_valueText (heq : lexeme.valueText = other.valueText) :
    lexeme.value?.map Value.literal = other.value?.map Value.literal := by
  obtain ⟨kind, _ | value⟩ := lexeme <;> obtain ⟨kind', _ | value'⟩ := other
  · rfl
  · cases heq
  · cases heq
  · exact congrArg some (List.cons.inj heq).2

/-- The name is over at the colon, so that kind and value can be told from the text. -/
theorem parts_of_write (h : lexeme.kind ∈ Kind.known) (h' : other.kind ∈ Kind.known)
    (heq : lexeme.write = other.write) :
    lexeme.kind = other.kind ∧
      lexeme.value?.map Value.literal = other.value?.map Value.literal := by
  have hname : ∀ {kind}, kind ∈ Kind.known → ∀ c ∈ kind.name.toList, (c != ':') = true :=
    Kind.forall_mem_name (by decide)
  have hends : ∀ {lexeme : Lexeme} c, lexeme.valueText.head? = some c → (c != ':') = false :=
    fun c hc ↦ by rw [head?_valueText hc]; rfl
  rw [write_eq, write_eq] at heq
  obtain ⟨hkind, hvalue⟩ := append_inj_of_ends (hname h) (hname h') hends hends heq
  exact ⟨Kind.eq_of_name h h' (String.toList_inj.1 hkind), map_literal_of_valueText hvalue⟩

/-- **Words are known by their texts.** -/
theorem IsWord.write_inj (h : lexeme.IsWord) (h' : other.IsWord)
    (heq : lexeme.write = other.write) : lexeme = other := by
  obtain ⟨hkind, hvalue⟩ := parts_of_write h.kind_mem_known h'.kind_mem_known heq
  rcases h with ⟨value, rfl⟩ | hoperator <;> rcases h' with ⟨value', rfl⟩ | hoperator'
  · rw [value?_literal, value?_literal] at hvalue
    rw [Value.literal_inj hkind (Option.some.inj hvalue)]
  · rw [value?_literal, hoperator'.2] at hvalue
    cases hvalue
  · rw [value?_literal, hoperator.2] at hvalue
    cases hvalue
  · calc
      lexeme = ofKind lexeme.kind := hoperator.eq_ofKind
      _ = ofKind other.kind := congrArg ofKind hkind
      _ = other := hoperator'.eq_ofKind.symm

/-- Is the character none of those that stand around and between the parts of an operation? -/
def isInner (c : Char) : Bool := c ∉ ['(', ',', ')']

/-- The text is over, or goes on with what stands around or between parts. -/
def Closes (after : List Char) : Prop := ∀ c, after.head? = some c → isInner c = false

theorem closes_nil : Closes [] := by rintro _ ⟨⟩

theorem closes_cons {c : Char} (h : isInner c = false) : Closes (c :: after) := by
  rintro _ ⟨⟩
  exact h

theorem isInner_of_mem_literal {value : Value} {c : Char} (h : c ∈ value.literal) :
    isInner c = true := by
  rcases Value.mem_literal_cases h with hdigit | hmark
  · refine decide_eq_true fun hmem ↦ ?_
    have hall : ['(', ',', ')'].any Char.isDigit = false := by decide
    exact List.any_eq_false.1 hall c hmem hdigit
  · have hall : Text.marks.all isInner = true := by decide
    exact List.all_eq_true.1 hall c hmark

theorem isInner_of_mem_write (h : lexeme.kind ∈ Kind.known) :
    ∀ c ∈ lexeme.write, isInner c = true := by
  rw [write_eq]
  refine List.forall_mem_append.2 ⟨Kind.forall_mem_name (by decide) h, ?_⟩
  obtain ⟨kind, _ | value⟩ := lexeme
  · rintro _ ⟨⟩
  · exact List.forall_mem_cons.2 ⟨rfl, fun c ↦ isInner_of_mem_literal⟩

theorem write_ne_nil (h : lexeme.kind ∈ Kind.known) : lexeme.write ≠ [] := by
  have hname : ∀ kind ∈ Kind.known, kind.name.toList ≠ [] := by decide
  exact List.append_ne_nil_of_left_ne_nil (hname _ h) _

/-- A word does not begin like an operation. -/
theorem IsWord.write_append_ne (h : lexeme.IsWord) (rest : List Char) :
    lexeme.write ++ after ≠ '(' :: rest := by
  obtain ⟨c, behind, hfirst, hc⟩ := exists_append_eq_cons (write_ne_nil h.kind_mem_known)
    (isInner_of_mem_write h.kind_mem_known) after
  intro heq
  rw [hfirst] at heq
  rw [(List.cons.inj heq).1] at hc
  cases hc

/-- **The end of a word can be seen.** -/
theorem IsWord.write_append_inj (h : lexeme.IsWord) (h' : other.IsWord) (hafter : Closes after)
    (hafter' : Closes after') (heq : lexeme.write ++ after = other.write ++ after') :
    lexeme = other ∧ after = after' := by
  obtain ⟨htext, hrest⟩ := append_inj_of_ends (isInner_of_mem_write h.kind_mem_known)
    (isInner_of_mem_write h'.kind_mem_known) hafter hafter' heq
  exact ⟨h.write_inj h' htext, hrest⟩

end Lexeme

/-! ### Expressions -/

namespace Relocation

/-- All places are taken away. -/
def nowhere : Relocation := ⟨fun _ ↦ none, fun _ ↦ none⟩

theorem nowhere_token (token : Token) : nowhere.token token = ⟨token.lexeme, {}⟩ := by
  obtain ⟨lexeme, _ | start, _ | stop⟩ := token <;> rfl

end Relocation

namespace Expr

open Lexeme (Closes closes_nil closes_cons)

/-- The text does not depend on where the tokens stand. -/
theorem write_relocation (move : Relocation) (expr : Expr) :
    (move.expr expr).write = expr.write := by
  induction expr with
  | number | foreign => rfl
  | unary operator operand ih => simp only [Relocation.expr, write, ih, Relocation.token]
  | binary left operator right ihleft ihright =>
    simp only [Relocation.expr, write, ihleft, ihright, Relocation.token]

/-- All leaves of the expression are literals, and the operators are operators. -/
inductive IsLegible : Expr → Prop
  | number {token : Token} (h : token.lexeme.IsLiteral) : IsLegible (number token)
  | unary {operator : Token} {operand : Expr} (h : operator.lexeme.IsOperator)
      (hoperand : IsLegible operand) : IsLegible (unary operator operand)
  | binary {left right : Expr} {operator : Token} (hleft : IsLegible left)
      (h : operator.lexeme.IsOperator) (hright : IsLegible right) :
    IsLegible (binary left operator right)

variable {a b : Expr} {lexeme : Lexeme} {after after' : List Char}

/-- Where a word is read, there is no operation. -/
theorem IsLegible.eq_number (hb : b.IsLegible) (h : lexeme.IsWord) (hafter : Closes after)
    (hafter' : Closes after') (heq : lexeme.write ++ after = b.write ++ after') :
    ∃ token : Token, b = .number token ∧ token.lexeme = lexeme ∧ after = after' := by
  cases hb with
  | number hliteral =>
    obtain ⟨rfl, hrest⟩ := h.write_append_inj (.inl hliteral) hafter hafter' heq
    exact ⟨_, rfl, rfl, hrest⟩
  | unary | binary => exact absurd heq (h.write_append_ne _)

theorem write_unary_append (operator : Token) (operand : Expr) (after : List Char) :
    (unary operator operand).write ++ after =
      '(' :: (operator.lexeme.write ++ ',' :: ' ' :: (operand.write ++ ')' :: after)) := by
  simp [write]

theorem write_binary_append (left : Expr) (operator : Token) (right : Expr) (after : List Char) :
    (binary left operator right).write ++ after =
      '(' :: (left.write ++
        ',' :: ' ' :: (operator.lexeme.write ++ ',' :: ' ' :: (right.write ++ ')' :: after))) := by
  simp [write]

/-- An operator is no left operand, so that operations with one and with two operands differ. -/
theorem write_unary_ne_binary {operator operator' : Token} {operand left right : Expr}
    (h : operator.lexeme.IsOperator) (hleft : left.IsLegible) :
    (unary operator operand).write ++ after ≠ (binary left operator' right).write ++ after' := by
  intro heq
  rw [write_unary_append, write_binary_append] at heq
  obtain ⟨token, rfl, hlexeme, -⟩ := hleft.eq_number (.inr h) (closes_cons rfl) (closes_cons rfl)
    (List.cons.inj heq).2
  cases hleft with
  | number hliteral => exact h.not_isLiteral (hlexeme ▸ hliteral)

/-- **The end of an expression can be seen**, and where it is, the text says all but the places. -/
theorem IsLegible.write_append_inj (ha : a.IsLegible) (hb : b.IsLegible) (hafter : Closes after)
    (hafter' : Closes after') (heq : a.write ++ after = b.write ++ after') :
    Relocation.nowhere.expr a = Relocation.nowhere.expr b ∧ after = after' := by
  -- behind an operand there is the rest of the operation, so what follows is not fixed
  induction ha generalizing b after after' with
  | number hliteral =>
    obtain ⟨token, rfl, hlexeme, rfl⟩ := hb.eq_number (.inl hliteral) hafter hafter' heq
    simp [Relocation.expr, Relocation.nowhere_token, hlexeme]
  | unary hoperator hoperand ih =>
    cases hb with
    | number hliteral => exact absurd heq.symm (Lexeme.IsWord.write_append_ne (.inl hliteral) _)
    | unary hoperator' hoperand' =>
      rw [write_unary_append, write_unary_append] at heq
      obtain ⟨hlexeme, hrest⟩ := Lexeme.IsWord.write_append_inj (.inr hoperator) (.inr hoperator')
        (closes_cons rfl) (closes_cons rfl) (List.cons.inj heq).2
      obtain ⟨hexpr, hrest⟩ := ih hoperand' (closes_cons rfl) (closes_cons rfl)
        (List.cons.inj (List.cons.inj hrest).2).2
      simp [Relocation.expr, Relocation.nowhere_token, hlexeme, hexpr, (List.cons.inj hrest).2]
    | binary hleft' hoperator' hright' => exact absurd heq (write_unary_ne_binary hoperator hleft')
  | binary hleft hoperator hright ihleft ihright =>
    cases hb with
    | number hliteral => exact absurd heq.symm (Lexeme.IsWord.write_append_ne (.inl hliteral) _)
    | unary hoperator' hoperand' => exact absurd heq.symm (write_unary_ne_binary hoperator' hleft)
    | binary hleft' hoperator' hright' =>
      rw [write_binary_append, write_binary_append] at heq
      obtain ⟨hleftexpr, hrest⟩ := ihleft hleft' (closes_cons rfl) (closes_cons rfl)
        (List.cons.inj heq).2
      obtain ⟨hlexeme, hrest⟩ := Lexeme.IsWord.write_append_inj (.inr hoperator) (.inr hoperator')
        (closes_cons rfl) (closes_cons rfl) (List.cons.inj (List.cons.inj hrest).2).2
      obtain ⟨hrightexpr, hrest⟩ := ihright hright' (closes_cons rfl) (closes_cons rfl)
        (List.cons.inj (List.cons.inj hrest).2).2
      simp [Relocation.expr, Relocation.nowhere_token, hlexeme, hleftexpr, hrightexpr,
        (List.cons.inj hrest).2]

/-- **Expressions are known by their texts, but for the places.** Texts of expressions of literals
and operators are equal just if the expressions are equal once all places are taken away from them,
and so are the lines in which they are shown. -/
theorem write_eq_write_iff (ha : a.IsLegible) (hb : b.IsLegible) :
    (a.write = b.write ↔ Relocation.nowhere.expr a = Relocation.nowhere.expr b) ∧
      (Calculation.exprLine a = Calculation.exprLine b ↔
        Relocation.nowhere.expr a = Relocation.nowhere.expr b) := by
  have hwrite : a.write = b.write ↔ Relocation.nowhere.expr a = Relocation.nowhere.expr b := by
    constructor
    · intro heq
      exact (ha.write_append_inj hb closes_nil closes_nil (congrArg (· ++ []) heq)).1
    · intro heq
      rw [← write_relocation Relocation.nowhere a, heq, write_relocation]
  have hline : Calculation.exprLine a = Calculation.exprLine b ↔ a.write = b.write := by
    unfold Calculation.exprLine
    rw [String.append_left_inj, String.append_right_inj, String.ofList_inj]
  exact ⟨hwrite, hline.trans hwrite⟩

/-- `-(1+2)` and `(-1)+2` are shown in different lines, and `1` in the same line wherever it
stands. -/
theorem exprLine_ne_of_grouping :
    Calculation.exprLine (.unary (.inLine "-(1+2)" 0 1 (.ofKind .minus))
        (.binary (.number (.inLine "-(1+2)" 2 3 (.literal (.int 1))))
          (.inLine "-(1+2)" 3 4 (.ofKind .plus))
          (.number (.inLine "-(1+2)" 4 5 (.literal (.int 2)))))) ≠
      Calculation.exprLine (.binary
        (.unary (.inLine "(-1)+2" 1 2 (.ofKind .minus))
          (.number (.inLine "(-1)+2" 2 3 (.literal (.int 1)))))
        (.inLine "(-1)+2" 4 5 (.ofKind .plus))
        (.number (.inLine "(-1)+2" 5 6 (.literal (.int 2))))) ∧
    Calculation.exprLine (.number (.inLine "1" 0 1 (.literal (.int 1)))) =
      Calculation.exprLine (.number (.inLine " 1" 1 2 (.literal (.int 1)))) := by
  have hnumber : ∀ n extent, IsLegible (.number ⟨.literal (.int n), extent⟩) :=
    fun n extent ↦ .number ⟨.int n, rfl⟩
  have hnegatedSum : IsLegible (.unary (.inLine "-(1+2)" 0 1 (.ofKind .minus))
      (.binary (.number (.inLine "-(1+2)" 2 3 (.literal (.int 1))))
        (.inLine "-(1+2)" 3 4 (.ofKind .plus))
        (.number (.inLine "-(1+2)" 4 5 (.literal (.int 2)))))) :=
    .unary ⟨rfl, rfl⟩ (.binary (hnumber 1 _) ⟨rfl, rfl⟩ (hnumber 2 _))
  have hsum : IsLegible (.binary
      (.unary (.inLine "(-1)+2" 1 2 (.ofKind .minus))
        (.number (.inLine "(-1)+2" 2 3 (.literal (.int 1)))))
      (.inLine "(-1)+2" 4 5 (.ofKind .plus))
      (.number (.inLine "(-1)+2" 5 6 (.literal (.int 2))))) :=
    .binary (.unary ⟨rfl, rfl⟩ (hnumber 1 _)) ⟨rfl, rfl⟩ (hnumber 2 _)
  refine ⟨fun heq ↦ ?_, (write_eq_write_iff (hnumber 1 _) (hnumber 1 _)).2.2 rfl⟩
  cases (write_eq_write_iff hnegatedSum hsum).2.1 heq

end Expr

end Calculator
