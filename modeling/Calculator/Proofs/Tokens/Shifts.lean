import Calculator.Proofs.Syntax.Relocation
import Calculator.Proofs.Tokens.FirstLine

/-!
# Texts inside other texts

What is read from a text is read from a longer text that has it inside, further on. There a place
has another index, and as long as the first line lasts another column; later lines begin where they
did (`Position.shift`). A cursor in the longer text takes every step that a cursor in the shorter
one takes (`Position.advance_shift`), so that pieces that are in both are the same tokens, shifted
(`Cursor.tokens_eq_map_shift`).
-/

namespace Calculator

/-- The place that a place of a text has in a source which has the text inside, behind so many
characters of its first line. -/
def Position.shift (source : Source) (offset : Nat) (position : Position) : Position :=
  ⟨source, position.index + offset, position.line,
    if position.line = 0 then position.column + offset else position.column⟩

namespace Position

variable {source : Source} {offset : Nat} {position : Position}

/-- Shifted places are stepped over like the places themselves. Nothing comes to the first line from
the line before it. -/
theorem advance_shift (h : 0 ≤ position.line) (left : Option Char) :
    (position.shift source offset).advance left = (position.advance left).shift source offset := by
  by_cases hleft : left = some '\n'
  · have hline : position.line + 1 ≠ 0 := by omega
    simp [advance, shift, hleft, hline, Int.add_right_comm]
  · by_cases hline : position.line = 0
    all_goals simp [advance, shift, hleft, hline, Int.add_right_comm]

/-- What is on the first line of a text is on the first line of the other. -/
theorem shift_place (source original : Source) (offset : Nat) (index : Int) :
    (original.place index).shift source offset = source.place (index + offset) := rfl

end Position

namespace Relocation

/-- Every place is moved to the one that it has in a source with the text inside. -/
def shift (source : Source) (offset : Nat) : Relocation where
  start? position := some (position.shift source offset)
  stop? position := some (position.shift source offset)

/-- What is moved twice. -/
def trans (first second : Relocation) : Relocation where
  start? position := (first.start? position).bind second.start?
  stop? position := (first.stop? position).bind second.stop?

theorem extent_trans (first second : Relocation) (extent : Extent) :
    (first.trans second).extent extent = second.extent (first.extent extent) := by
  simp [Relocation.extent, trans, Option.bind_assoc]

theorem token_trans (first second : Relocation) (token : Token) :
    (first.trans second).token token = second.token (first.token token) := by
  simp [Relocation.token, extent_trans]

/-- A text inside a text that is inside a source is inside the source. -/
theorem shift_trans_shift (middle source : Source) (m n : Nat) :
    (shift middle m).trans (shift source n) = shift source (m + n) := by
  have hplace : ∀ position : Position, (position.shift middle m).shift source n =
      position.shift source (m + n) := by
    intro position
    by_cases hline : position.line = 0
    all_goals simp [Position.shift, hline, Int.add_assoc]
  simp [trans, shift, hplace]

end Relocation

namespace Cursor

variable {source original : Source} {cursor other : Cursor} {start : Int} {offset : Nat}

/-- **Pieces that stand further on are the same tokens, shifted.** -/
theorem tokens_eq_map_shift {pieces later others : List Piece}
    (hposition : cursor.position = source.place (start + offset))
    (hother : other.position = original.place start)
    (hsplits : Splits cursor.rest (pieces ++ later))
    (hsplits' : Splits other.rest (pieces ++ others))
    (hpassed : ∀ piece ∈ pieces, piece.IsPassed) :
    cursor.tokens pieces = (other.tokens pieces).map (Relocation.shift source offset).token := by
  induction pieces generalizing cursor other start with
  | nil => rfl
  | cons piece pieces ih =>
    obtain ⟨hpiece, hlater⟩ := List.forall_mem_cons.1 hpassed
    obtain ⟨after, hrest, hfits, hafter⟩ := hsplits.of_cons
    obtain ⟨after', hrest', hfits', hafter'⟩ := hsplits'.of_cons
    have hnext := position_advanceBy hposition hrest (hfits.ne_newline hpiece.2)
    have hnext' := position_advanceBy hother hrest' (hfits'.ne_newline hpiece.2)
    rw [Int.add_right_comm] at hnext
    rw [tokens, tokens, List.map_append,
      ih hnext hnext' (by simpa [hrest] using hafter) (by simpa [hrest'] using hafter') hlater]
    congr 1
    cases piece.lexeme? with
    | none => rfl
    | some lexeme =>
      simp [token, Relocation.token, Relocation.extent, Relocation.shift, hposition, hother, hnext,
        hnext', Position.shift_place]

section Behind

variable (hposition : cursor.position = other.position.shift source offset)
  (hline : 0 ≤ other.position.line)

include hposition hline

/-- The end of the text further on is the end, shifted. -/
theorem finish_eq_shift : cursor.finish = (Relocation.shift source offset).token other.finish := by
  rw [finish, finish, Span.single, hposition, Position.advance_shift hline]
  rfl

/-- An illegal character further on is the same failure, shifted. -/
theorem illegal_eq_shift (hcurrent : cursor.current? = other.current?) (c : Char) :
    cursor.illegal cursor.advance c =
      (Relocation.shift source offset).failure (other.illegal other.advance c) := by
  rw [illegal, illegal, advance, advance, hposition, hcurrent, Position.advance_shift hline]
  rfl

end Behind

end Cursor

end Calculator
