import Calculator.Source.Basic
import Calculator.Value.Operation

/-!
# Tokens

A token is a `Lexeme`, what was written, and the stretch of a source where it was written. A lexeme
has a kind and may have a value. The lexer makes lexemes of nine kinds, gives values to numerals
only and both ends to every token. A token that was put together by hand may have any kind and any
value; a kind beyond the nine is known by its name alone.

A token by itself may also stand nowhere. Such a token can only be shown: it cannot be parsed, and
no expression can be made of it. Lists of tokens and expressions are not checked for that here; what
is proved of all of them is meant for those whose tokens have both ends.
-/

namespace Calculator

/-- The kind of a token. -/
inductive Kind where
  | int
  | float
  | plus
  | minus
  | mul
  | div
  | lparen
  | rparen
  | eof
  | other (name : String)
deriving DecidableEq

namespace Kind

/-- The name under which a kind is shown. -/
def name : Kind → String
  | int => "INT"
  | float => "FLOAT"
  | plus => "PLUS"
  | minus => "MINUS"
  | mul => "MUL"
  | div => "DIV"
  | lparen => "LPAREN"
  | rparen => "RPAREN"
  | eof => "EOF"
  | other name => name

/-- The nine kinds that have a meaning. -/
def known : List Kind := [int, float, plus, minus, mul, div, lparen, rparen, eof]

/-- The kind of a given name. -/
def ofName (name : String) : Kind := (known.find? (·.name = name)).getD (other name)

/-- The kind of token that a character makes by itself. -/
def ofSymbol? : Char → Option Kind
  | '+' => some plus
  | '-' => some minus
  | '*' => some mul
  | '/' => some div
  | '(' => some lparen
  | ')' => some rparen
  | _ => none

/-- The binary operation that a kind of token stands for. -/
def operation? : Kind → Option Operation
  | plus => some .add
  | minus => some .sub
  | mul => some .mul
  | div => some .div
  | _ => none

end Kind

/-- What a token says, apart from where it stands. -/
structure Lexeme where
  kind : Kind
  value? : Option Value := none
deriving DecidableEq

namespace Lexeme

/-- The lexeme of a kind that says all, without a value. -/
def ofKind (kind : Kind) : Lexeme := { kind }

/-- The lexeme of a literal. -/
def literal : Value → Lexeme
  | .int n => { kind := .int, value? := some (.int n) }
  | .float x => { kind := .float, value? := some (.float x) }

@[simp] theorem value?_literal (value : Value) : (literal value).value? = some value := by
  cases value <;> rfl

/-- Is the value, if there is one, short enough to be written? -/
def isWritable (lexeme : Lexeme) : Bool := lexeme.value?.all Value.isWritable

/-- The text of a lexeme: its kind, and its value after a colon. -/
def write (lexeme : Lexeme) : List Char :=
  lexeme.kind.name.toList ++
    match lexeme.value? with
    | some value => ':' :: value.literal
    | none => []

end Lexeme

/-- A lexeme and where it stands, as far as that is known. -/
structure Token where
  lexeme : Lexeme
  extent : Extent := {}
deriving DecidableEq

/-- The token of a lexeme that stands in a line on the standard input, between two indices. -/
def Token.inLine (line : String) (start stop : Int) (lexeme : Lexeme) : Token :=
  ⟨lexeme, (Source.mk "<stdin>" line).stretch (start, stop)⟩

/-- The kind of a token's lexeme. -/
abbrev Token.kind (token : Token) : Kind := token.lexeme.kind

end Calculator
