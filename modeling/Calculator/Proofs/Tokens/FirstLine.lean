import Calculator.Proofs.Source.Lines
import Calculator.Proofs.Tokens.FirstCall

/-!
# Tokens stand on the first line

A newline begins no token and separates none, so that lexing does not get past the first line of a
text: wherever a token or a failure begins, the column is the index (`Source.place`). The only place
on another line is the end of the failure of a newline itself.

The tokens of a whole text stand where its pieces do, one behind the other, and the last one, for
the end of the text, one index beyond it (`Source.exists_stretches`).
-/

namespace Calculator

theorem Source.position_cursor (source : Source) : source.cursor.position = source.place 0 := rfl

/-- Only an illegal piece has a newline in it. -/
theorem Piece.Fits.ne_newline {piece : Piece} {after : List Char} (h : piece.Fits after)
    (hlegal : ∀ c, piece ≠ .illegal c) : ∀ c ∈ piece.spelling, c ≠ '\n' := by
  have hdigits : ∀ {digits : List Char}, (∀ c ∈ digits, c.isDigit = true) →
      ∀ c ∈ digits, c ≠ '\n' := by
    rintro digits hdigits c hc rfl
    cases hdigits _ hc
  cases h with
  | separator hc =>
    refine List.forall_mem_singleton.2 ?_
    rintro rfl
    rcases hc with hc | hc <;> cases hc
  | symbol hc =>
    refine List.forall_mem_singleton.2 ?_
    rintro rfl
    cases hc
  | integer _ hall => exact hdigits hall
  | decimal _ hwhole hfraction =>
    refine List.forall_mem_append.2 ⟨hdigits hwhole, List.forall_mem_cons.2 ⟨by decide, ?_⟩⟩
    exact hdigits hfraction
  | illegal => exact absurd rfl (hlegal _)

/-- Pieces that are passed have no newline in them. -/
theorem Splits.ne_newline {text : List Char} {pieces later : List Piece}
    (h : Splits text (pieces ++ later)) (hpassed : ∀ piece ∈ pieces, piece.IsPassed) :
    ∀ c ∈ pieces.flatMap Piece.spelling, c ≠ '\n' := by
  intro c hc
  obtain ⟨piece, hpiece, hc⟩ := List.mem_flatMap.1 hc
  obtain ⟨after, hfits⟩ := h.exists_fits piece (List.mem_append_left _ hpiece)
  exact hfits.ne_newline (hpassed piece hpiece).2 c hc

/-- Advancing over anything but a newline stays on the line. -/
theorem Source.advance_place (source : Source) (index : Int) {left : Option Char}
    (h : left ≠ some '\n') : (source.place index).advance left = source.place (index + 1) := by
  rw [Position.advance, if_neg h]
  rfl

namespace Cursor

variable {source : Source} {cursor : Cursor} {start : Int}

theorem position_advanceBy {run rest : List Char} (hposition : cursor.position = source.place start)
    (hrest : cursor.rest = run ++ rest) (hrun : ∀ c ∈ run, c ≠ '\n') :
    (cursor.advanceBy run.length).position = source.place (start + run.length) := by
  rw [position_advanceBy_of_ne_newline hrest hrun, hposition]
  rfl

/-- Behind pieces that are passed the cursor is still on the first line. -/
theorem position_behind {pieces later : List Piece}
    (hposition : cursor.position = source.place start)
    (hsplits : Splits cursor.rest (pieces ++ later)) (hpassed : ∀ piece ∈ pieces, piece.IsPassed) :
    (cursor.behind pieces).position =
      source.place (start + (pieces.flatMap Piece.spelling).length) := by
  have htext := hsplits.text_eq
  rw [List.flatMap_append] at htext
  exact position_advanceBy hposition htext (hsplits.ne_newline hpassed)

/-- **The tokens of pieces stand where the pieces do**, and the end of the text behind them. -/
theorem map_extent_tokens {pieces : List Piece} (hposition : cursor.position = source.place start)
    (hsplits : Splits cursor.rest pieces) (hpassed : ∀ piece ∈ pieces, piece.IsPassed) :
    (cursor.tokens pieces ++ [(cursor.behind pieces).finish]).map Token.extent =
      (Piece.ranges start pieces).map source.stretch := by
  induction pieces generalizing cursor start with
  | nil =>
    have hstop : (source.place start).advance none = source.place (start + 1) :=
      source.advance_place start nofun
    simp [tokens, behind, advanceBy, finish, Span.single, Span.toExtent, Piece.ranges,
      Source.stretch, hposition, hstop]
  | cons piece pieces ih =>
    obtain ⟨hpiece, hothers⟩ := List.forall_mem_cons.1 hpassed
    obtain ⟨after, hrest, hfits, hafter⟩ := hsplits.of_cons
    have hnext := position_advanceBy hposition hrest (hfits.ne_newline hpiece.2)
    have htokens := ih hnext (by simpa [hrest] using hafter) hothers
    rw [tokens, behind_cons, List.append_assoc, List.map_append, htokens]
    rcases hfits.isSome_lexeme? with htoken | ⟨c, rfl⟩ | ⟨c, rfl⟩
    · obtain ⟨lexeme, hlexeme⟩ := Option.isSome_iff_exists.1 htoken
      have hne : ∀ c, piece ≠ .separator c := by
        rintro c rfl
        cases hlexeme
      rw [Piece.ranges_cons hne, hlexeme]
      simp [token, Source.stretch, hposition, hnext]
    · rfl
    · exact absurd rfl (hpiece.2 c)

end Cursor

/-- The ranges of the pieces of a text end with the text, but for the last one, of its end. -/
theorem Splits.le_of_mem_ranges {text : List Char} {pieces : List Piece} (h : Splits text pieces) :
    ∀ (start : Int), ∀ range ∈ Piece.ranges start pieces,
      range.2 ≤ start + text.length ∨ range = (start + text.length, start + text.length + 1) := by
  induction h with
  | nil =>
    intro start range hrange
    obtain rfl := List.mem_singleton.1 hrange
    exact .inr (by simp)
  | @cons piece after pieces hfits _ ih =>
    intro start range hrange
    have hlater := ih (start + piece.spelling.length) range
    rw [List.length_append, Int.natCast_add, ← Int.add_assoc]
    by_cases hseparator : ∃ c, piece = .separator c
    · obtain ⟨c, rfl⟩ := hseparator
      exact hlater hrange
    · rw [Piece.ranges_cons fun c h ↦ hseparator ⟨c, h⟩] at hrange
      rcases List.mem_cons.1 hrange with rfl | hrange
      · exact .inl (Int.le_add_of_nonneg_right (Int.natCast_nonneg _))
      · exact hlater hrange

/-! ### Where lexing says that something is -/

/-- Stretches of a text one behind the other, of which only that of its end goes beyond the text. -/
structure Stretches (length : Nat) (ranges : List (Int × Int)) : Prop where
  bounds : ∀ range ∈ ranges, 0 ≤ range.1 ∧ range.1 < range.2
  ordered : ranges.Pairwise fun range later ↦ range.2 ≤ later.1
  within : ∀ range ∈ ranges, range.2 ≤ length ∨ range = ((length : Int), (length : Int) + 1)

/-- In front of another stretch there is only text. -/
theorem Stretches.le_of_lt {length : Nat} {ranges : List (Int × Int)} (h : Stretches length ranges)
    {i : Nat} {range : Int × Int} (hrange : ranges[i]? = some range) (hi : i + 1 < ranges.length) :
    range.2 ≤ length := by
  obtain ⟨hlt, rfl⟩ := List.getElem?_eq_some_iff.1 hrange
  have hbefore := List.pairwise_iff_getElem.1 h.ordered i (i + 1) hlt hi (Nat.lt_succ_self i)
  have hbounds := (h.bounds ranges[i + 1] (List.getElem_mem hi)).2
  rcases h.within ranges[i + 1] (List.getElem_mem hi) with hwithin | hend
  · omega
  · rw [hend] at hbefore
    exact hbefore

/-- Two stretches in order reach from one index to a later one. -/
theorem Stretches.lt_of_le {length : Nat} {ranges : List (Int × Int)} (h : Stretches length ranges)
    {i j : Nat} (hij : i ≤ j) {first last : Int × Int} (hfirst : ranges[i]? = some first)
    (hlast : ranges[j]? = some last) : first.1 < last.2 := by
  have hfirst' := (h.bounds first (List.mem_of_getElem? hfirst)).2
  have hlast' := (h.bounds last (List.mem_of_getElem? hlast)).2
  rcases Nat.eq_or_lt_of_le hij with rfl | hlt
  · obtain rfl := Option.some.inj (hfirst.symm.trans hlast)
    exact hfirst'
  · obtain ⟨hi, rfl⟩ := List.getElem?_eq_some_iff.1 hfirst
    obtain ⟨hj, rfl⟩ := List.getElem?_eq_some_iff.1 hlast
    have := List.pairwise_iff_getElem.1 h.ordered i j hi hj hlt
    omega

namespace Source

variable {source : Source}

/-- What was lexed to its end has pieces that are all passed. -/
theorem exists_pieces_of_lex {tokens : List Token} (h : source.lex = .ok { tokens }) :
    ∃ pieces, Splits source.text.toList pieces ∧ (∀ piece ∈ pieces, piece.IsPassed) ∧
      tokens = source.cursor.tokens pieces ++ [(source.cursor.behind pieces).finish] := by
  rcases source.exists_pieces with ⟨length, hlong⟩ | ⟨passed, c, later, hsplits, hpassed⟩ |
    ⟨pieces, hsplits, hpassed⟩
  · cases h.symm.trans (lex_of_hasLongInteger hlong)
  · cases h.symm.trans (lex_of_illegal hsplits hpassed)
  · have hlex := h.symm.trans (lex_of_splits hsplits hpassed)
    exact ⟨pieces, hsplits, hpassed, congrArg Lexed.tokens (Except.ok.inj hlex)⟩

/-- **Tokens stand on the first line**, one behind the other. -/
theorem exists_stretches {tokens : List Token} (h : source.lex = .ok { tokens }) :
    ∃ ranges, tokens.map Token.extent = ranges.map source.stretch ∧
      Stretches source.text.toList.length ranges := by
  obtain ⟨pieces, hsplits, hpassed, rfl⟩ := exists_pieces_of_lex h
  have hcovers := hsplits.covers 0
  refine ⟨_, Cursor.map_extent_tokens source.position_cursor hsplits hpassed,
    hcovers.bounds, hcovers.ordered, ?_⟩
  simpa using hsplits.le_of_mem_ranges 0

/-- A text that was lexed to its end is a single line. -/
theorem ne_newline_of_lex {tokens : List Token} (h : source.lex = .ok { tokens }) :
    ∀ c ∈ source.text.toList, c ≠ '\n' := by
  obtain ⟨pieces, hsplits, hpassed, -⟩ := exists_pieces_of_lex h
  rw [← List.append_nil pieces] at hsplits
  have hne := hsplits.ne_newline hpassed
  rwa [hsplits.text_eq, List.flatMap_append, List.flatMap_nil, List.append_nil]

/-- Behind pieces that are passed, an illegal piece is the failure of the character at its index,
with no newline in front of it. -/
theorem illegal_behind (source : Source) {passed later : List Piece} {c : Char}
    (hsplits : Splits source.text.toList (passed ++ .illegal c :: later))
    (hpassed : ∀ piece ∈ passed, piece.IsPassed) :
    source.text.toList[(passed.flatMap Piece.spelling).length]? = some c ∧
      (∀ other ∈ source.text.toList.take (passed.flatMap Piece.spelling).length, other ≠ '\n') ∧
      (source.cursor.behind passed).illegal (source.cursor.behind passed).advance c =
        ⟨.illegalCharacter (.singleton c),
          ⟨some (source.place (passed.flatMap Piece.spelling).length),
            some ((source.place (passed.flatMap Piece.spelling).length).advance (some c))⟩⟩ := by
  obtain ⟨after, hrest, -, -⟩ := (lex_of_forall_isPassed hsplits hpassed).1.of_cons
  obtain ⟨htext, -⟩ := source.parts_behind hsplits
  have hposition := Cursor.position_behind source.position_cursor hsplits hpassed
  rw [Int.zero_add] at hposition
  have hcurrent : (source.cursor.behind passed).current? = some c := by
    rw [Cursor.current?, hrest]
    rfl
  refine ⟨?_, ?_, ?_⟩
  · rw [htext, hrest]
    simp [Piece.spelling]
  · rw [htext, List.take_left]
    exact hsplits.ne_newline hpassed
  · rw [Cursor.illegal, Cursor.advance, hposition, hcurrent]

/-- **An illegal character stands on the first line**, and so does the end of its failure if it is
no newline. -/
theorem exists_place_of_lex {tokens : List Token} {failure : Failure}
    (h : source.lex = .ok { tokens, failure? := some failure }) :
    ∃ (index : Nat) (c : Char) (stop : Position), source.text.toList[index]? = some c ∧
      (∀ other ∈ source.text.toList.take index, other ≠ '\n') ∧
      failure.cause = .illegalCharacter (.singleton c) ∧
      failure.extent = ⟨some (source.place index), some stop⟩ ∧ stop.index = index + 1 ∧
      (c ≠ '\n' → stop = source.place (index + 1)) := by
  rcases source.exists_pieces with ⟨length, hlong⟩ | ⟨passed, c, later, hsplits, hpassed⟩ |
    ⟨pieces, hsplits, hpassed⟩
  · cases h.symm.trans (lex_of_hasLongInteger hlong)
  · have hlex := h.symm.trans (lex_of_illegal hsplits hpassed)
    obtain rfl := Option.some.inj (congrArg Lexed.failure? (Except.ok.inj hlex))
    obtain ⟨hchar, hline, hillegal⟩ := source.illegal_behind hsplits hpassed
    refine ⟨_, c, _, hchar, hline, rfl, congrArg Failure.extent hillegal,
      Position.index_advance _ _, fun hc ↦ source.advance_place _ ?_⟩
    simpa using hc
  · cases h.symm.trans (lex_of_splits hsplits hpassed)

end Source

end Calculator
