import Calculator.Token.Basic

/-!
# Reading a list of tokens

A `TokenCursor` is a token that is being looked at, with its index and the tokens after it. So there
is always a current token. Advancing past the last token counts on but keeps looking at it: a list
that does not end with a token for the end of the text repeats its last token for ever.
-/

namespace Calculator

/-- A place in a list of tokens. -/
structure TokenCursor where
  index : Nat
  current : Token
  rest : List Token
deriving DecidableEq

namespace TokenCursor

/-- The cursor at the first token, if there is one. -/
def ofTokens? : List Token → Option TokenCursor
  | [] => none
  | token :: rest => some ⟨0, token, rest⟩

/-- The cursor one token on. -/
def advance (cursor : TokenCursor) : TokenCursor :=
  match cursor.rest with
  | [] => { cursor with index := cursor.index + 1 }
  | token :: rest => ⟨cursor.index + 1, token, rest⟩

@[simp] theorem index_advance (cursor : TokenCursor) :
    cursor.advance.index = cursor.index + 1 := by
  unfold advance; split <;> rfl

@[simp] theorem rest_advance (cursor : TokenCursor) : cursor.advance.rest = cursor.rest.tail := by
  unfold advance; split <;> simp_all

end TokenCursor

end Calculator
