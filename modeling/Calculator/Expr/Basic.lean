import Calculator.Token.Basic

/-!
# Expressions

An expression is a tree of the tokens that make it up. Parentheses leave no trace: they decide what
becomes an operand of what. Where an expression stands is determined by its tokens: it goes from the
beginning of the leftmost one to the end of the rightmost one, as far as these are known.

An expression that was put together by hand may have any tokens for its literals and operators, and
nodes of a foreign kind, which have a name and a place and nothing else.
-/

namespace Calculator

/-- An expression. -/
inductive Expr where
  /-- A literal. -/
  | number (token : Token)
  /-- An operator before its operand. -/
  | unary (operator : Token) (operand : Expr)
  /-- An operator between its operands. -/
  | binary (left : Expr) (operator : Token) (right : Expr)
  /-- A node of a kind that has no meaning here. -/
  | foreign (name : String) (extent : Extent)
deriving DecidableEq

namespace Expr

/-- Where the expression begins. -/
def start? : Expr → Option Position
  | number token => token.extent.start?
  | unary operator _ => operator.extent.start?
  | binary left _ _ => left.start?
  | foreign _ extent => extent.start?

/-- Where the expression ends. -/
def stop? : Expr → Option Position
  | number token => token.extent.stop?
  | unary _ operand => operand.stop?
  | binary _ _ right => right.stop?
  | foreign _ extent => extent.stop?

/-- The stretch of the source that the expression covers. -/
def extent (expr : Expr) : Extent := ⟨expr.start?, expr.stop?⟩

/-- The tokens of the expression from left to right. -/
def tokens : Expr → List Token
  | number token => [token]
  | unary operator operand => operator :: operand.tokens
  | binary left operator right => left.tokens ++ operator :: right.tokens
  | foreign _ _ => []

/-- The number of nodes on the longest way from the root to a leaf. -/
def depth : Expr → Nat
  | number _ => 1
  | unary _ operand => operand.depth + 1
  | binary left _ right => max left.depth right.depth + 1
  | foreign _ _ => 1

/-- Are all values in the expression short enough to be written? -/
def isWritable (expr : Expr) : Bool := expr.tokens.all (·.lexeme.isWritable)

/-- The text of the expression, with the parts of every operation between parentheses. -/
def write : Expr → List Char
  | number token => token.lexeme.write
  | unary operator operand =>
    '(' :: operator.lexeme.write ++ ',' :: ' ' :: operand.write ++ [')']
  | binary left operator right =>
    '(' :: left.write ++ ',' :: ' ' :: operator.lexeme.write ++ ',' :: ' ' :: right.write ++ [')']
  | foreign name _ => name.toList

end Expr

end Calculator
