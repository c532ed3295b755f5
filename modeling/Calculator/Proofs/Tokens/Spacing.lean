import Calculator.Proofs.Tokens.FirstLine

/-!
# Blanks between tokens

`Source.spaced` puts gaps into a text, in front of any of its characters and behind the last one.
Gaps of blanks and tabs that stand inside no token change nothing about what the tokens say
(`Source.lex_spaced`): every piece of the text is still a piece of the text with the gaps, and the
gaps are separators.

A gap ends a run of digits no less than what stood there before, so that a numeral in front of a gap
goes as far as it did; and a gap begins no token, so that none gets longer.
-/

namespace Calculator

/-- The text with a gap in front of each of its indices, also that of its end. -/
def withGaps (gaps : Nat → List Char) (index : Nat) : List Char → List Char
  | [] => gaps index
  | c :: rest => gaps index ++ c :: withGaps gaps (index + 1) rest

/-- The source with gaps in its text. -/
def Source.spaced (source : Source) (gaps : Nat → List Char) : Source :=
  ⟨source.name, .ofList (withGaps gaps 0 source.text.toList)⟩

/-- The index is inside the stretch: neither where it begins nor where it ends. -/
def Extent.Encloses (extent : Extent) (index : Int) : Prop :=
  ∃ start stop, extent.indices? = some (start, stop) ∧ start < index ∧ index < stop

section Gaps

variable {gaps : Nat → List Char}

theorem head?_withGaps {index : Nat} {text : List Char} {c : Char}
    (h : (withGaps gaps index text).head? = some c) : text.head? = some c ∨ c ∈ gaps index := by
  cases text with
  | nil => exact .inr (List.mem_of_head? h)
  | cons d rest =>
    rw [withGaps, List.head?_append] at h
    rcases hgap : (gaps index).head? with - | other
    · rw [hgap] at h
      exact .inl h
    · rw [hgap] at h
      exact .inr (List.mem_of_head? (hgap.trans h))

/-- A run with no gap inside stays together. -/
theorem withGaps_append {run : List Char} (hne : run ≠ []) {index : Nat} (after : List Char)
    (hinside : ∀ k, 0 < k → k < run.length → gaps (index + k) = []) :
    withGaps gaps index (run ++ after) =
      gaps index ++ (run ++ withGaps gaps (index + run.length) after) := by
  induction run generalizing index with
  | nil => exact absurd rfl hne
  | cons c run ih =>
    rw [List.cons_append, withGaps, List.cons_append]
    congr 2
    cases run with
    | nil => rfl
    | cons d run =>
      have hgap : gaps (index + 1) = [] := hinside 1 Nat.one_pos (by simp)
      rw [ih (List.cons_ne_nil d run), hgap, List.nil_append]
      · simp [Nat.add_assoc, Nat.add_comm]
      · intro k hpos hlt
        rw [Nat.add_assoc, Nat.add_comm 1 k]
        exact hinside (k + 1) (Nat.succ_pos k) (Nat.succ_lt_succ hlt)

/-- In front of a text blanks and tabs are separators. -/
theorem Splits.gap_append {gap text : List Char} {pieces : List Piece} (h : Splits text pieces)
    (hgap : ∀ c ∈ gap, c = ' ' ∨ c = '\t') :
    Splits (gap ++ text) (gap.map .separator ++ pieces) := by
  induction gap with
  | nil => exact h
  | cons c gap ih =>
    obtain ⟨hc, hgap⟩ := List.forall_mem_cons.1 hgap
    exact .cons (.separator hc) (ih hgap)

theorem filterMap_lexeme?_gap (gap : List Char) :
    (gap.map Piece.separator).filterMap Piece.lexeme? = [] := by
  induction gap with
  | nil => rfl
  | cons c gap ih => exact ih

theorem isPassed_of_mem_gap {gap : List Char} {piece : Piece} (h : piece ∈ gap.map .separator) :
    piece.IsPassed := by
  obtain ⟨c, -, rfl⟩ := List.mem_map.1 h
  exact ⟨trivial, fun _ ↦ Piece.noConfusion⟩

/-- What is behind a piece of a text is where it is in the whole text. -/
theorem Piece.mem_ranges_cons {piece : Piece} {pieces : List Piece} {index : Int}
    {range : Int × Int} (h : range ∈ ranges (index + piece.spelling.length) pieces) :
    range ∈ ranges index (piece :: pieces) := by
  cases piece with
  | separator c => exact h
  | _ => exact List.mem_cons_of_mem _ h

/-- A gap that stands inside no range of the pieces stands inside no piece. -/
theorem gap_inside_eq_nil {piece : Piece} {pieces : List Piece} {index : Nat}
    (hbetween : ∀ k : Nat, gaps k ≠ [] →
      ∀ range ∈ Piece.ranges index (piece :: pieces), ¬ (range.1 < k ∧ k < range.2)) :
    ∀ k, 0 < k → k < piece.spelling.length → gaps (index + k) = [] := by
  intro k hpos hlt
  by_cases hseparator : ∃ c, piece = .separator c
  · obtain ⟨c, rfl⟩ := hseparator
    exact absurd hlt (Nat.not_lt_of_le hpos)
  · rw [Piece.ranges_cons fun c h ↦ hseparator ⟨c, h⟩] at hbetween
    by_cases hgap : gaps (index + k) = []
    · exact hgap
    · refine absurd ?_ (hbetween (index + k) hgap _ List.mem_cons_self)
      simp only [Int.natCast_add]
      omega

/-- **A text with gaps between its pieces has the same pieces**, and separators for the gaps. -/
theorem Splits.exists_spaced {text : List Char} {pieces : List Piece} (h : Splits text pieces)
    (hblank : ∀ index, ∀ c ∈ gaps index, c = ' ' ∨ c = '\t') (index : Nat)
    (hbetween : ∀ k : Nat, gaps k ≠ [] →
      ∀ range ∈ Piece.ranges index pieces, ¬ (range.1 < k ∧ k < range.2)) :
    ∃ spaced, Splits (withGaps gaps index text) spaced ∧
      spaced.filterMap Piece.lexeme? = pieces.filterMap Piece.lexeme? ∧
      ((∀ piece ∈ pieces, piece.IsPassed) → ∀ piece ∈ spaced, piece.IsPassed) := by
  induction h generalizing index with
  | nil =>
    have hsplits := Splits.nil.gap_append (hblank index)
    rw [List.append_nil, List.append_nil] at hsplits
    exact ⟨_, hsplits, filterMap_lexeme?_gap _, fun _ _ ↦ isPassed_of_mem_gap⟩
  | @cons piece after pieces hfits hafter ih =>
    obtain ⟨spaced, hspaced, hlexemes, hpassed⟩ :=
      ih (index + piece.spelling.length) fun k hgap range hrange ↦
        hbetween k hgap range (Piece.mem_ranges_cons (by simpa using hrange))
    have hfits' : piece.Fits (withGaps gaps (index + piece.spelling.length) after) :=
      hfits.of_head? fun c hc ↦ (head?_withGaps hc).imp_right fun hgap ↦
        Piece.ends_of_separator (hblank _ c hgap)
    rw [withGaps_append hfits.spelling_ne_nil after (gap_inside_eq_nil hbetween)]
    refine ⟨_, (Splits.cons hfits' hspaced).gap_append (hblank index), ?_, fun hall ↦ ?_⟩
    · rw [List.filterMap_append, filterMap_lexeme?_gap, List.nil_append, List.filterMap_cons,
        List.filterMap_cons, hlexemes]
    · obtain ⟨hpiece, hothers⟩ := List.forall_mem_cons.1 hall
      exact List.forall_mem_append.2 ⟨fun _ ↦ isPassed_of_mem_gap,
        List.forall_mem_cons.2 ⟨hpiece, hpassed hothers⟩⟩

end Gaps

/-- **Blanks between tokens do not matter.** With gaps of blanks and tabs inside no token, a source
is lexed to tokens that say the same. -/
theorem Source.lex_spaced {source : Source} {tokens : List Token} {gaps : Nat → List Char}
    (hlex : source.lex = .ok { tokens })
    (hblank : ∀ index, ∀ c ∈ gaps index, c = ' ' ∨ c = '\t')
    (hbetween : ∀ index : Nat, gaps index ≠ [] →
      ∀ token ∈ tokens, ¬ token.extent.Encloses index) :
    ∃ others, (source.spaced gaps).lex = .ok { tokens := others } ∧
      others.map Token.lexeme = tokens.map Token.lexeme := by
  obtain ⟨pieces, hsplits, hpassed, rfl⟩ := exists_pieces_of_lex hlex
  have hextents := Cursor.map_extent_tokens source.position_cursor hsplits hpassed
  have hranges : ∀ k : Nat, gaps k ≠ [] →
      ∀ range ∈ Piece.ranges (0 : Nat) pieces, ¬ (range.1 < k ∧ k < range.2) := by
    intro k hgap range hrange hinside
    have hmem := List.mem_map_of_mem (f := source.stretch) hrange
    obtain ⟨token, htoken, hextent⟩ := List.mem_map.1 (hextents ▸ hmem)
    exact hbetween k hgap token htoken ⟨range.1, range.2, by rw [hextent]; rfl, hinside⟩
  obtain ⟨spaced, hspaced, hlexemes, hall⟩ := hsplits.exists_spaced hblank 0 hranges
  have htext : Splits (source.spaced gaps).text.toList spaced := by
    rwa [Source.spaced, String.toList_ofList]
  refine ⟨_, lex_of_splits htext (hall hpassed), ?_⟩
  rw [List.map_append, List.map_append, Cursor.map_lexeme_tokens, Cursor.map_lexeme_tokens,
    hlexemes]
  rfl

end Calculator
