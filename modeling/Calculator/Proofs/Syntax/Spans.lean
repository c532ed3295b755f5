import Mathlib.Control.Monad.Basic
import Calculator.Proofs.Evaluation.Places
import Calculator.Proofs.Syntax.Trees
import Calculator.Proofs.Tokens.FirstLine

/-!
# Where the nodes of an expression stand

An expression that was read from a source has all tokens of the source but the parentheses and the
end of the text, in order and once each, and every node of it stands where its tokens do. Since the
tokens stand one behind the other (`Source.inOrder_of_lex`), so do the parts of a node: a left
operand ends before its operator begins, and the operator before the right operand. What stands
inside a node is inside its stretch (`Source.expr_covers_tokens`).

Parentheses are in no stretch but those that go around them, so there may be more between two parts
than blanks. Nothing here depends on the shape of a tree: that the first and the last token of a
node give it its ends, and that its tokens are some of those of the expression, is all that is used
of it.
-/

namespace Calculator

namespace Extent

/-- The first extent ends where the second one begins, or before. -/
def Precedes (extent later : Extent) : Prop :=
  ∃ stop start, extent.stop? = some stop ∧ later.start? = some start ∧ stop.index ≤ start.index

/-- The extent has both ends, and covers a character at least. -/
def IsProper (extent : Extent) : Prop :=
  ∃ start stop, extent.start? = some start ∧ extent.stop? = some stop ∧ start.index < stop.index

/-- The first extent lies inside the second one, or is the same. -/
def Within (inner outer : Extent) : Prop :=
  (∃ first second, outer.start? = some first ∧ inner.start? = some second ∧
      first.index ≤ second.index) ∧
    ∃ first second, inner.stop? = some first ∧ outer.stop? = some second ∧
      first.index ≤ second.index

/-- What is behind something that covers a character is behind all in front of that. -/
theorem Precedes.trans {extent middle later : Extent} (h : extent.Precedes middle)
    (hmiddle : middle.IsProper) (hlater : middle.Precedes later) : extent.Precedes later := by
  obtain ⟨stop, start, hstop, hstart, hle⟩ := h
  obtain ⟨start', stop', hstart', hstop', hlt⟩ := hmiddle
  obtain ⟨stop'', start'', hstop'', hstart'', hle'⟩ := hlater
  obtain rfl := Option.some.inj (hstart.symm.trans hstart')
  obtain rfl := Option.some.inj (hstop'.symm.trans hstop'')
  exact ⟨stop, start'', hstop, hstart'', by omega⟩

end Extent

/-- The tokens cover a character each and stand one behind the other. -/
structure TokensInOrder (tokens : List Token) : Prop where
  proper : ∀ token ∈ tokens, token.extent.IsProper
  ordered : tokens.Pairwise fun token later ↦ token.extent.Precedes later.extent

namespace TokensInOrder

variable {tokens others : List Token} {first last token : Token}

theorem sublist (h : TokensInOrder tokens) (hsublist : others.Sublist tokens) :
    TokensInOrder others :=
  ⟨fun token htoken ↦ h.proper token (hsublist.subset htoken), h.ordered.sublist hsublist⟩

/-- Nothing begins before the first token. -/
theorem start_le (h : TokensInOrder tokens) (hfirst : tokens.head? = some first)
    (htoken : token ∈ tokens) :
    ∃ start later, first.extent.start? = some start ∧ token.extent.start? = some later ∧
      start.index ≤ later.index := by
  obtain ⟨rest, rfl⟩ := List.head?_eq_some_iff.1 hfirst
  obtain ⟨start, stop, hstart, hstop, hlt⟩ := h.proper first List.mem_cons_self
  rcases List.mem_cons.1 htoken with rfl | hrest
  · exact ⟨start, start, hstart, hstart, Int.le_refl _⟩
  · obtain ⟨stop', later, hstop', hlater, hle⟩ := (List.pairwise_cons.1 h.ordered).1 token hrest
    obtain rfl := Option.some.inj (hstop.symm.trans hstop')
    exact ⟨start, later, hstart, hlater, by omega⟩

/-- Nothing ends behind the last token. -/
theorem le_stop (h : TokensInOrder tokens) (hlast : tokens.getLast? = some last)
    (htoken : token ∈ tokens) :
    ∃ earlier stop, token.extent.stop? = some earlier ∧ last.extent.stop? = some stop ∧
      earlier.index ≤ stop.index := by
  obtain ⟨front, rfl⟩ := List.getLast?_eq_some_iff.1 hlast
  obtain ⟨start, stop, hstart, hstop, hlt⟩ := h.proper last (by simp)
  rcases List.mem_append.1 htoken with hfront | htoken
  · have hprecedes := (List.pairwise_append.1 h.ordered).2.2 token hfront last (by simp)
    obtain ⟨earlier, start', hearlier, hstart', hle⟩ := hprecedes
    obtain rfl := Option.some.inj (hstart.symm.trans hstart')
    exact ⟨earlier, stop, hearlier, hstop, by omega⟩
  · obtain rfl := List.mem_singleton.1 htoken
    exact ⟨stop, stop, hstop, hstop, Int.le_refl _⟩

end TokensInOrder

/-! ### Nodes -/

namespace Expr

variable {expr left right operand : Expr} {operator : Token}

/-- A token precedes an expression if it precedes the first token of it, and an expression precedes
a token if the last token of it does. -/
theorem WellFormed.precedes_of_tokens (hleft : left.WellFormed) (hright : right.WellFormed)
    (hordered : ∀ token ∈ left.tokens, ∀ later ∈ right.tokens,
      token.extent.Precedes later.extent) : left.extent.Precedes right.extent := by
  obtain ⟨_, last, -, hlast, hextent⟩ := hleft.extent_eq
  obtain ⟨first, _, hfirst, -, hextent'⟩ := hright.extent_eq
  rw [hextent, hextent']
  exact hordered last (List.mem_of_getLast? hlast) first (List.mem_of_head? hfirst)

/-- An expression covers a character at least. -/
theorem WellFormed.isProper_extent (h : expr.WellFormed) (htokens : TokensInOrder expr.tokens) :
    expr.extent.IsProper := by
  obtain ⟨first, last, hfirst, hlast, hextent⟩ := h.extent_eq
  obtain ⟨start, stop, hstart, hstop, hlt⟩ := htokens.proper last (List.mem_of_getLast? hlast)
  obtain ⟨start', later, hstart', hlater, hle⟩ :=
    htokens.start_le hfirst (List.mem_of_getLast? hlast)
  obtain rfl := Option.some.inj (hstart.symm.trans hlater)
  rw [hextent]
  exact ⟨start', stop, hstart', hstop, by omega⟩

/-- **What stands inside an expression is inside its stretch.** -/
theorem WellFormed.within_extent (h : expr.WellFormed) (htokens : TokensInOrder expr.tokens)
    {node : Expr} (hnode : node ∈ expr.nodes) : node.extent.Within expr.extent := by
  obtain ⟨first, last, hfirst, hlast, hextent⟩ := h.extent_eq
  obtain ⟨first', last', hfirst', hlast', hextent'⟩ := (h.of_mem_nodes hnode).extent_eq
  have hsubset := (tokens_sublist_of_mem_nodes hnode).subset
  rw [hextent, hextent']
  exact ⟨htokens.start_le hfirst (hsubset (List.mem_of_head? hfirst')),
    htokens.le_stop hlast (hsubset (List.mem_of_getLast? hlast'))⟩

/-- **The operands of an operator stand on its two sides.** -/
theorem WellFormed.precedes_binary (h : (Expr.binary left operator right).WellFormed)
    (htokens : TokensInOrder (Expr.binary left operator right).tokens) :
    left.extent.Precedes operator.extent ∧ operator.extent.IsProper ∧
      operator.extent.Precedes right.extent ∧ left.extent.Precedes right.extent := by
  cases h with
  | binary _ hleft hright =>
    obtain ⟨-, hbehind, hacross⟩ := List.pairwise_append.1 htokens.ordered
    have hoperator := (Expr.WellFormed.number operator)
    have hfirst : left.extent.Precedes operator.extent :=
      hleft.precedes_of_tokens hoperator fun token htoken later hlater ↦
        hacross token htoken later (List.mem_cons.2 (.inl (List.mem_singleton.1 hlater)))
    have hsecond : operator.extent.Precedes right.extent :=
      hoperator.precedes_of_tokens hright fun token htoken later hlater ↦
        (List.mem_singleton.1 htoken) ▸ (List.pairwise_cons.1 hbehind).1 later hlater
    have hproper : operator.extent.IsProper := htokens.proper operator (by simp [tokens])
    exact ⟨hfirst, hproper, hsecond, hfirst.trans hproper hsecond⟩

/-- **The operand of a sign stands behind it.** -/
theorem WellFormed.precedes_unary (h : (Expr.unary operator operand).WellFormed)
    (htokens : TokensInOrder (Expr.unary operator operand).tokens) :
    operator.extent.Precedes operand.extent := by
  cases h with
  | unary _ hoperand =>
    exact (Expr.WellFormed.number operator).precedes_of_tokens hoperand
      fun token htoken later hlater ↦
        (List.mem_singleton.1 htoken) ▸ (List.pairwise_cons.1 htokens.ordered).1 later hlater

end Expr

/-! ### Expressions of a source -/

namespace Source

variable {source : Source} {tokens : List Token} {expr : Expr}

/-- **The tokens of a source stand one behind the other.** -/
theorem inOrder_of_lex (h : source.lex = .ok { tokens }) : TokensInOrder tokens := by
  obtain ⟨ranges, hextents, hstretches⟩ := exists_stretches h
  constructor
  · intro token htoken
    have hmem : token.extent ∈ tokens.map Token.extent := List.mem_map_of_mem htoken
    rw [hextents] at hmem
    obtain ⟨range, hrange, heq⟩ := List.mem_map.1 hmem
    rw [← heq]
    exact ⟨_, _, rfl, rfl, (hstretches.bounds range hrange).2⟩
  · have hordered : (tokens.map Token.extent).Pairwise Extent.Precedes := by
      rw [hextents, List.pairwise_map]
      exact hstretches.ordered.imp fun hle ↦ ⟨_, _, rfl, rfl, hle⟩
    exact List.pairwise_map.1 hordered

/-- **The nodes of an expression stand where its tokens do.** An expression that was read from a
source has the tokens of the source, less the parentheses and the end of the text. Every node of it
begins with the first of its tokens and ends with the last. Its parts stand one behind the other,
and what is inside it is inside its stretch. -/
theorem expr_covers_tokens (hlex : source.lex = .ok { tokens })
    (hparse : Expr.parse tokens = { value? := some expr }) :
    expr.tokens =
        tokens.filter (fun token ↦ !token.kind.isParenthesis && decide (token.kind ≠ .eof)) ∧
      (∀ node ∈ expr.nodes, node.extent.IsProper ∧
        ∃ first last, node.tokens.head? = some first ∧ node.tokens.getLast? = some last ∧
          node.extent = ⟨first.extent.start?, last.extent.stop?⟩) ∧
      (∀ left operator right, .binary left operator right ∈ expr.nodes →
        left.extent.Precedes operator.extent ∧ operator.extent.IsProper ∧
          operator.extent.Precedes right.extent ∧ left.extent.Precedes right.extent) ∧
      (∀ operator operand, .unary operator operand ∈ expr.nodes →
        operator.extent.IsProper ∧ operator.extent.Precedes operand.extent) ∧
      ∀ node ∈ expr.nodes, ∀ inner ∈ node.nodes, inner.extent.Within node.extent := by
  have hall := inOrder_of_lex hlex
  obtain ⟨body, stop, rfl, hbody, hstop⟩ := exists_body_of_lex hlex
  have hexpr := derives_of_parse hbody hstop hparse
  have htokens : expr.tokens = (body ++ [stop]).filter
      fun token ↦ !token.kind.isParenthesis && decide (token.kind ≠ .eof) := by
    have hend : [stop].filter
        (fun token ↦ !token.kind.isParenthesis && decide (token.kind ≠ .eof)) = [] := by
      simp [hstop]
    rw [hexpr.tokens_eq, List.filter_append, hend, List.append_nil]
    exact List.filter_congr fun token htoken ↦ by simp [hbody token htoken]
  have hordered : ∀ node ∈ expr.nodes, TokensInOrder node.tokens := by
    intro node hnode
    refine (hall.sublist ?_).sublist (Expr.tokens_sublist_of_mem_nodes hnode)
    rw [htokens]
    exact List.filter_sublist
  have hwf : ∀ node ∈ expr.nodes, node.WellFormed :=
    fun _ hnode ↦ hexpr.wellFormed.of_mem_nodes hnode
  refine ⟨htokens, fun node hnode ↦ ⟨?_, (hwf node hnode).extent_eq⟩, ?_, ?_, ?_⟩
  · exact (hwf node hnode).isProper_extent (hordered node hnode)
  · exact fun left operator right hnode ↦ (hwf _ hnode).precedes_binary (hordered _ hnode)
  · exact fun operator operand hnode ↦ ⟨(hordered _ hnode).proper operator List.mem_cons_self,
      (hwf _ hnode).precedes_unary (hordered _ hnode)⟩
  · exact fun node hnode inner ↦ (hwf node hnode).within_extent (hordered node hnode)

/-- The sum in `(1+2)*3` ends in front of the parenthesis that the operator of the product stands
behind, and the product begins where the sum does, behind the other parenthesis. -/
theorem expr_covers_tokens_of_product :
    ∃ tokens sum operator three, (Source.mk "<stdin>" "(1+2)*3").lex = .ok { tokens } ∧
      Expr.parse tokens = { value? := some (.binary sum operator three) } ∧
      sum.extent = stretch ⟨"<stdin>", "(1+2)*3"⟩ (1, 4) ∧
      operator.extent = stretch ⟨"<stdin>", "(1+2)*3"⟩ (5, 6) ∧
      (Expr.binary sum operator three).extent = stretch ⟨"<stdin>", "(1+2)*3"⟩ (1, 7) ∧
      sum.extent.Precedes operator.extent ∧
      sum.extent.Within (Expr.binary sum operator three).extent := by
  have hlex : (Source.mk "<stdin>" "(1+2)*3").lex = .ok { tokens := [
      ⟨.ofKind .lparen, stretch ⟨"<stdin>", "(1+2)*3"⟩ (0, 1)⟩,
      ⟨.literal (.int 1), stretch ⟨"<stdin>", "(1+2)*3"⟩ (1, 2)⟩,
      ⟨.ofKind .plus, stretch ⟨"<stdin>", "(1+2)*3"⟩ (2, 3)⟩,
      ⟨.literal (.int 2), stretch ⟨"<stdin>", "(1+2)*3"⟩ (3, 4)⟩,
      ⟨.ofKind .rparen, stretch ⟨"<stdin>", "(1+2)*3"⟩ (4, 5)⟩,
      ⟨.ofKind .mul, stretch ⟨"<stdin>", "(1+2)*3"⟩ (5, 6)⟩,
      ⟨.literal (.int 3), stretch ⟨"<stdin>", "(1+2)*3"⟩ (6, 7)⟩,
      ⟨.ofKind .eof, stretch ⟨"<stdin>", "(1+2)*3"⟩ (7, 8)⟩] } := by decide +kernel
  refine ⟨_, _, _, _, hlex, rfl, rfl, rfl, rfl, ?_⟩
  obtain ⟨-, -, hbinary, -, hwithin⟩ := expr_covers_tokens hlex rfl
  have hself := Expr.self_mem_nodes
  exact ⟨(hbinary _ _ _ (hself _)).1,
    hwithin _ (hself _) _ (List.mem_append_left _ (List.mem_append_left _ (hself _)))⟩

end Source

end Calculator
