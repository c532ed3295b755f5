import Calculator.Failure.Basic
import Calculator.Source.Cursor
import Calculator.Token.Numeral

/-!
# Lexing

The tokens of a source: numerals, and the six characters that are tokens by themselves. Blanks and
tabs may stand between tokens. Lexing goes on to the end of the text, where it adds a token for the
end, or to the first character that begins no token, which is a failure. The tokens before that
character are kept.

Both the end and the failure leave a cursor behind, so that lexing can be asked for again: after a
failure it goes on with the next character.

A failure begins at its character, and it ends where the cursor is that lexing goes on with. This
cursor is one and the same for all calls, so that the end moves on with it: when lexing fails, it is
one character behind the beginning, and when lexing was asked for again, it is wherever that ended
(`Lexed.seenFrom`). Tokens keep both of their ends.
-/

namespace Calculator

/-- What lexing finds: the tokens, and the failure that ended it before the end of the text. -/
structure Lexed where
  tokens : List Token
  failure? : Option Failure := none
deriving DecidableEq

/-- A failure of lexing, seen when the cursor that lexing goes on with is at `now`. -/
def Failure.seenFrom (failure : Failure) (now : Cursor) : Failure :=
  { failure with extent := ⟨failure.extent.start?, some now.position⟩ }

/-- What lexing found, seen when the cursor that lexing goes on with is at `now`. -/
def Lexed.seenFrom (lexed : Lexed) (now : Cursor) : Lexed :=
  { lexed with failure? := lexed.failure?.map (·.seenFrom now) }

namespace Cursor

/-- The numeral under the cursor, and the cursor after it. A numeral that has no value is passed
over all the same. -/
def numeral (cursor : Cursor) : Except Fault Token × Cursor :=
  let numeral := Numeral.ofText cursor.rest
  let after := cursor.advanceBy numeral.text.length
  (numeral.lexeme.map fun lexeme ↦ ⟨lexeme, some cursor.position, some after.position⟩, after)

/-- The token of the one character under the cursor. -/
def symbol (cursor : Cursor) (kind : Kind) : Token :=
  ⟨.ofKind kind, (Span.single cursor.position).toExtent⟩

/-- The token for the end of the text. -/
def finish (cursor : Cursor) : Token := ⟨.ofKind .eof, (Span.single cursor.position).toExtent⟩

/-- The failure of a character that begins no token, seen when the cursor that lexing goes on with
is at `now`. -/
def illegal (cursor now : Cursor) (found : Char) : Failure where
  cause := .illegalCharacter (.singleton found)
  extent := ⟨some cursor.position, some now.position⟩

/-- Blanks and tabs separate tokens. -/
def isSeparator (c : Char) : Bool := c = ' ' || c = '\t'

theorem length_rest_numeral_lt {cursor : Cursor} {c : Char} {rest : List Char}
    (h : cursor.rest = c :: rest) (hc : c.isDigit = true) :
    cursor.numeral.2.rest.length < cursor.rest.length := by
  have hne := Numeral.text_ofText_ne_nil hc rest
  have := List.length_pos_iff.2 hne
  simp only [numeral, rest_advanceBy, List.length_drop, h, List.length_cons] at this ⊢
  omega

theorem length_rest_advance_lt {cursor : Cursor} {c : Char} {rest : List Char}
    (h : cursor.rest = c :: rest) : cursor.advance.rest.length < cursor.rest.length := by
  simp [h]

/-- The tokens from a cursor on, added to those found before, of which the last comes first. -/
def lexFrom (found : List Token) (cursor : Cursor) : Except Fault Lexed × Cursor :=
  match h : cursor.rest with
  | [] => (.ok { tokens := (cursor.finish :: found).reverse }, cursor)
  | c :: _ =>
    have := length_rest_advance_lt h
    if isSeparator c then lexFrom found cursor.advance
    else if hc : c.isDigit = true then
      match cursor.numeral, length_rest_numeral_lt h hc with
      | (.ok token, after), _ => lexFrom (token :: found) after
      | (.error fault, after), _ => (.error fault, after)
    else
      match Kind.ofSymbol? c with
      | some kind => lexFrom (cursor.symbol kind :: found) cursor.advance
      | none =>
        (.ok { tokens := found.reverse, failure? := some (cursor.illegal cursor.advance c) },
          cursor.advance)
termination_by cursor.rest.length

/-- The tokens from a cursor on, and the cursor at which lexing ended. -/
def lex (cursor : Cursor) : Except Fault Lexed × Cursor := lexFrom [] cursor

end Cursor

/-- The tokens of a source. -/
def Source.lex (source : Source) : Except Fault Lexed := source.cursor.lex.1

end Calculator
