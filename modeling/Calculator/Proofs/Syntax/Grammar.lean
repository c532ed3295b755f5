import Calculator.Expr.Basic

/-!
# The grammar of expressions

The grammar that parsing is measured against, as a relation between a list of tokens and the
expression that it is:

```
expr   := term (('+' | '-') term)*
term   := factor (('*' | '/') factor)*
factor := ('+' | '-') factor | INT | FLOAT | '(' expr ')'
```

Nothing here knows of a cursor, of a budget or of an order in which tokens are looked at. A
repetition is written from the right: a term is a factor, or a shorter term with an operator and one
more factor behind it. So the expression that a derivation prescribes groups operators of one rank
to the left, and the enclosing parentheses are in its tokens but not in its tree.

`Viable` is what a reader may still hope for: the tokens so far begin some expression.
-/

namespace Calculator

/-- The three nonterminals, the one that binds tightest first. -/
inductive Rank where
  | factor
  | term
  | expr
deriving DecidableEq

/-- The tokens are of a rank, and this is the expression that they are. -/
inductive Derives : Rank → List Token → Expr → Prop where
  | literal {token : Token} (hkind : token.kind = .int ∨ token.kind = .float) :
    Derives .factor [token] (.number token)
  | signed {sign : Token} {tokens : List Token} {operand : Expr}
      (hsign : sign.kind = .plus ∨ sign.kind = .minus) (hoperand : Derives .factor tokens operand) :
    Derives .factor (sign :: tokens) (.unary sign operand)
  | enclosed {opening closing : Token} {tokens : List Token} {inner : Expr}
      (hopening : opening.kind = .lparen) (hinner : Derives .expr tokens inner)
      (hclosing : closing.kind = .rparen) :
    Derives .factor (opening :: tokens ++ [closing]) inner
  | factor {tokens : List Token} {expr : Expr} (hfactor : Derives .factor tokens expr) :
    Derives .term tokens expr
  | product {tokens others : List Token} {left right : Expr} {operator : Token}
      (hleft : Derives .term tokens left) (hop : operator.kind = .mul ∨ operator.kind = .div)
      (hright : Derives .factor others right) :
    Derives .term (tokens ++ operator :: others) (.binary left operator right)
  | term {tokens : List Token} {expr : Expr} (hterm : Derives .term tokens expr) :
    Derives .expr tokens expr
  | sum {tokens others : List Token} {left right : Expr} {operator : Token}
      (hleft : Derives .expr tokens left) (hop : operator.kind = .plus ∨ operator.kind = .minus)
      (hright : Derives .term others right) :
    Derives .expr (tokens ++ operator :: others) (.binary left operator right)

/-- The tokens can be continued to an expression. -/
def Viable (tokens : List Token) : Prop :=
  ∃ rest expr, Derives .expr (tokens ++ rest) expr

/-- Whatever begins a viable list is viable. -/
theorem Viable.of_append {tokens rest : List Token} (h : Viable (tokens ++ rest)) :
    Viable tokens := by
  obtain ⟨more, expr, hexpr⟩ := h
  exact ⟨rest ++ more, expr, by rwa [← List.append_assoc]⟩

end Calculator
