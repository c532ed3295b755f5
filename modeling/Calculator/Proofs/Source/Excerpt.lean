import Calculator.Proofs.Source.Lines
import Calculator.Proofs.Tokens.Pieces
import Calculator.Source.Excerpt

/-!
# What an excerpt shows

An excerpt between two places that a cursor comes to quotes the lines from the one place to the
other, and below each line it marks the characters between the two places, and these alone
(`Source.excerpt_marks_lines`). A line of which nothing is between them still has one mark, which
does not stand for a character: where the excerpt begins, or in front of a later line.

The excerpt takes the first line from an index, the number of lines from the line numbers of the two
places, and the marks from their columns. That these are about the same lines is what
`Source.IsAt.positionAt_eq` says.
-/

namespace Calculator

/-- A character stands at the column of the line, and between two indices. The newline behind a line
is not one of its characters. -/
def Source.Covers (source : Source) (start stop n c : Nat) : Prop :=
  ∃ index d, start ≤ index ∧ index < stop ∧ source.text.toList[index]? = some d ∧ d ≠ '\n' ∧
    source.positionAt index = ⟨source, index, n, c⟩

namespace Excerpt

/-- Marks below a line: carets behind blanks, at the columns of the characters that are between two
indices, or else a single caret at a column of its own. -/
structure Marked (source : Source) (start stop n bare : Nat) (marks : List Char) : Prop where
  shape : ∃ blanks carets, marks = List.replicate blanks ' ' ++ List.replicate carets '^'
  covered : ∀ c, source.Covers start stop n c →
    ∀ other, marks[other]? = some '^' ↔ source.Covers start stop n other
  uncovered : (∀ c, ¬ source.Covers start stop n c) → marks = List.replicate bare ' ' ++ ['^']

/-! ### Rows -/

section Rows

variable {text line : List Char} {start stop : Int}

theorem forall_ne_newline (hline : '\n' ∉ line) : ∀ c ∈ line, decide (c ≠ '\n') = true :=
  fun _ hc ↦ decide_eq_true fun heq ↦ hline (heq ▸ hc)

theorem firstLine_of_not_mem (hline : '\n' ∉ line) : firstLine line = line := by
  have htake : (line ++ []).takeWhile _ = line :=
    takeWhile_append_of_ends (forall_ne_newline hline) (by simp)
  rwa [List.append_nil] at htake

theorem firstLine_append {rest : List Char} (hline : '\n' ∉ line) :
    firstLine (line ++ '\n' :: rest) = line :=
  takeWhile_append_of_ends (forall_ne_newline hline) (by simp)

theorem afterFirstLine_append {rest : List Char} (hline : '\n' ∉ line) :
    afterFirstLine (line ++ '\n' :: rest) = rest := by
  rw [afterFirstLine, dropWhile_append_of_ends (forall_ne_newline hline) (by simp)]
  rfl

theorem length_rows (count : Nat) : (rows count start stop text).length = count := by
  induction count generalizing start text with
  | zero => rfl
  | succ count ih => rw [rows, List.length_cons, ih]

/-- **A row is for a line of the text**, which is marked from its beginning to its end, except for
the first and the last one. -/
theorem getElem?_rows {count i : Nat} (hi : i < count)
    (hline : (text.splitOn '\n')[i]? = some line) :
    (rows count start stop text)[i]? = some (line,
      marks (if i = 0 then start else 0) (if i + 1 = count then stop else line.length)) := by
  obtain ⟨count, rfl⟩ := Nat.exists_eq_succ_of_ne_zero (Nat.ne_zero_of_lt hi)
  rw [rows]
  induction text using lines_induction generalizing start count i with
  | last text htext =>
    rw [List.splitOn_eq_singleton htext] at hline
    obtain ⟨rfl, rfl⟩ : i = 0 ∧ text = line := by simpa [List.getElem?_singleton] using hline
    simp [firstLine_of_not_mem htext]
  | cons first rest hfirst ih =>
    rw [List.splitOn_append_cons_self_of_not_mem hfirst] at hline
    simp only [firstLine_append hfirst, afterFirstLine_append hfirst]
    cases i with
    | zero =>
      obtain rfl := Option.some.inj hline
      simp
    | succ i =>
      have hlt := Nat.lt_of_succ_lt_succ hi
      obtain ⟨count, rfl⟩ := Nat.exists_eq_succ_of_ne_zero (Nat.ne_zero_of_lt hlt)
      rw [List.getElem?_cons_succ, rows, ih hline count hlt]
      simp

/-- The text from the line of an index on begins with that line. -/
theorem splitOn_fromLineOf {n c : Nat} (hline : (text.splitOn '\n')[n]? = some line)
    (hc : c ≤ line.length) :
    (fromLineOf text (lineStart (text.splitOn '\n') n + c : Nat)).splitOn '\n' =
      (text.splitOn '\n').drop n := by
  obtain ⟨front, after, hat⟩ := exists_lineAt hline
  have hbefore :
      before text (lineStart (text.splitOn '\n') n + c : Nat) = front ++ line.take c := by
    rw [before, if_neg (Int.not_lt.2 (Int.natCast_nonneg _)), Int.toNat_natCast, ← hat.length_eq,
      hat.text_eq, List.take_length_add_append, List.take_append_of_le_length hc]
  have hrun : ((front ++ line.take c).reverse.takeWhile (· ≠ '\n')).length = c := by
    rw [List.reverse_append, takeWhile_append_of_ends, List.length_reverse,
      List.length_take_of_le hc]
    · exact fun d hd ↦ forall_ne_newline hat.plain d (List.mem_of_mem_take (List.mem_reverse.1 hd))
    · intro d hd
      rw [List.head?_reverse] at hd
      simp [hat.begins d hd]
  have hdrop : text.drop front.length = line ++ after := by rw [hat.text_eq, List.drop_left]
  rw [fromLineOf, hbefore, hrun, List.length_append, List.length_take_of_le hc, Nat.add_sub_cancel,
    hdrop, hat.splitOn_eq]

end Rows

/-! ### Marks -/

theorem map_blankTab_marks (start stop : Int) :
    (marks start stop).map blankTab = marks start stop := by
  simp [marks, blankTab]

theorem getElem?_marks {start c : Nat} {stop : Int} :
    (marks start stop)[c]? = some '^' ↔
      start ≤ c ∧ c < start + (max (stop - start) 1).toNat := by
  rw [marks, Int.toNat_natCast, List.getElem?_append, List.length_replicate,
    List.getElem?_replicate, List.getElem?_replicate]
  split
  · simp
    omega
  · simp
    omega

/-- Marks from one column to another stand for the characters between these, if no more is marked
than the line has, or just its end. -/
theorem marked_marks {source : Source} {start stop n first last : Nat} (length : Nat)
    (hcovers : ∀ c, source.Covers start stop n c ↔ first ≤ c ∧ c < last ∧ c < length)
    (hlast : last ≤ length ∨ length ≤ first ∧ last ≤ first + 1) :
    Marked source start stop n first (marks first last) where
  shape := ⟨_, _, rfl⟩
  covered c hc other := by
    rw [hcovers] at hc
    rw [getElem?_marks, hcovers]
    omega
  uncovered hnone := by
    have hle : (max ((last : Int) - first) 1).toNat = 1 := by
      have := mt (hcovers first).2 (hnone first)
      omega
    rw [marks, hle, Int.toNat_natCast]
    rfl

/-! ### Layout -/

theorem map_intercalate {α β : Type} (f : α → β) (separator : List α) (parts : List (List α)) :
    (separator.intercalate parts).map f =
      (separator.map f).intercalate (parts.map (List.map f)) := by
  induction parts with
  | nil => rfl
  | cons part parts ih =>
    cases parts with
    | nil => simp
    | cons next parts =>
      rw [List.intercalate_cons_cons, List.map_append, List.map_append, ih]
      simp

theorem layout_eq (rows : List (List Char × List Char)) :
    layout rows = ['\n'].intercalate
      ((rows.map fun row ↦ (row.1.map blankTab, row.2.map blankTab)).flatMap
        fun row ↦ [row.1, row.2]) := by
  rw [layout, map_intercalate, List.map_flatMap, List.flatMap_map]
  rfl

end Excerpt

namespace Source

open Excerpt

variable {source : Source} {start stop : Nat}

theorem covers_iff {n c : Nat} {line : List Char} (hline : source.lines[n]? = some line) :
    source.Covers start stop n c ↔
      c < line.length ∧ start ≤ lineStart source.lines n + c ∧
        lineStart source.lines n + c < stop := by
  constructor
  · rintro ⟨index, d, hstart, hstop, hd, hne, hposition⟩
    obtain ⟨m, e, other, hat⟩ := exists_isAt (Nat.le_of_lt (List.getElem?_eq_some_iff.1 hd).1)
    have hsame := hat.positionAt_eq.symm.trans hposition
    obtain ⟨rfl, rfl⟩ : m = n ∧ e = c := by
      simpa [Int.ofNat_inj] using hsame
    obtain rfl := Option.some.inj (hline.symm.trans hat.line_eq)
    have := hat.exists_ne_newline_iff.1 ⟨d, hd, hne⟩
    have := hat.index_eq
    omega
  · rintro ⟨hc, hstart, hstop⟩
    have hat : source.IsAt (lineStart source.lines n + c) n c line :=
      ⟨hline, Nat.le_of_lt hc, rfl⟩
    obtain ⟨d, hd, hne⟩ := hat.exists_ne_newline_iff.2 hc
    exact ⟨_, d, hstart, hstop, hd, hne, hat.positionAt_eq⟩

/-- Where an excerpt ends: at a column of a line, or behind the end of the text if it begins at the
end. -/
theorem exists_stop {first column : Nat} {line : List Char}
    (hstart : source.IsAt start first column line)
    (h : start ≤ stop ∧ stop ≤ source.text.toList.length ∨
      start = source.text.toList.length ∧ stop = source.text.toList.length + 1) :
    ∃ (last c : Nat) (later : List Char), source.lines[last]? = some later ∧ first ≤ last ∧
      source.positionAt stop = ⟨source, stop, last, c⟩ ∧ stop = lineStart source.lines last + c ∧
      (c ≤ later.length ∨ last = first ∧ later.length ≤ column ∧ c ≤ column + 1) := by
  rcases h with ⟨hle, hlength⟩ | ⟨rfl, rfl⟩
  · obtain ⟨last, c, later, hstop⟩ := exists_isAt hlength
    exact ⟨last, c, later, hstop.line_eq, hstart.line_le hstop hle, hstop.positionAt_eq,
      hstop.index_eq, .inl hstop.le_length⟩
  · have hend : line.length ≤ column := by
      refine Nat.le_of_not_lt fun hlt ↦ ?_
      obtain ⟨d, hd, -⟩ := hstart.exists_ne_newline_iff.2 hlt
      exact absurd (List.getElem?_eq_some_iff.1 hd).1 (Nat.lt_irrefl _)
    have hindex := hstart.index_eq
    refine ⟨first, column + 1, line, hstart.line_eq, Nat.le_refl _, ?_, by omega,
      .inr ⟨rfl, hend, Nat.le_refl _⟩⟩
    rw [positionAt_succ, List.getElem?_eq_none (Nat.le_refl _), hstart.positionAt_eq]
    rfl

/-- The marks of a row are those of its line: from the column where the excerpt begins on the first
line, and to the column where it ends on the last one. -/
theorem marked_row {first column last c count i : Nat} {line later quoted : List Char}
    (hstart : source.IsAt start first column line) (hlater : source.lines[last]? = some later)
    (hindex : stop = lineStart source.lines last + c)
    (hc : c ≤ later.length ∨ last = first ∧ later.length ≤ column ∧ c ≤ column + 1)
    (hcount : first + count = last + 1) (hi : i < count)
    (hquoted : source.lines[first + i]? = some quoted) :
    Marked source start stop (first + i) (if i = 0 then column else 0)
      (marks (if i = 0 then column else 0 : Nat)
        (if i + 1 = count then c else quoted.length : Nat)) := by
  have hbefore : 0 < i → lineStart source.lines first + line.length <
      lineStart source.lines (first + i) :=
    fun hpos ↦ lineStart_add_length_lt hstart.line_eq (Nat.lt_add_of_pos_right hpos)
  have hbehind : i + 1 < count → lineStart source.lines (first + i) + quoted.length <
      lineStart source.lines last :=
    fun hlt ↦ lineStart_add_length_lt hquoted (by omega)
  have hlast : i + 1 = count → lineStart source.lines (first + i) = lineStart source.lines last ∧
      quoted.length = later.length := by
    intro heq
    obtain rfl : first + i = last := by omega
    exact ⟨rfl, congrArg _ (Option.some.inj (hquoted.symm.trans hlater))⟩
  have hcolumn := hstart.le_length
  refine marked_marks quoted.length (fun d ↦ ?_) ?_
  · rw [covers_iff hquoted, hstart.index_eq, hindex]
    rcases Nat.eq_zero_or_pos i with rfl | hpos
    · simp only [Nat.add_zero, if_pos] at *
      split <;> omega
    · rw [if_neg (Nat.ne_of_gt hpos)]
      split <;> omega
  · split
    · next heq =>
      rw [(hlast heq).2]
      refine hc.imp_right fun hend ↦ ?_
      rw [if_pos (by omega)]
      exact hend.2
    · exact .inl (Nat.le_refl _)

/-- **An excerpt marks the characters between its ends.** It has a row for every line from the line
where it begins to the line where it ends: the line with blanks for tabs, and marks for those
characters of the line that are between the two indices. If there are none, the mark is at the
column where the excerpt begins, or at the beginning of a later line. -/
theorem excerpt_marks_lines
    (h : start ≤ stop ∧ stop ≤ source.text.toList.length ∨
      start = source.text.toList.length ∧ stop = source.text.toList.length + 1) :
    ∃ (first column last : Nat) (rows : List (List Char × List Char)),
      (source.positionAt start).line = first ∧ (source.positionAt start).column = column ∧
      (source.positionAt stop).line = last ∧ first + rows.length = last + 1 ∧
      Span.excerpt ⟨source.positionAt start, source.positionAt stop⟩ =
        .ofList (['\n'].intercalate (rows.flatMap fun row ↦ [row.1, row.2])) ∧
      ∀ i row, rows[i]? = some row → ∃ line, source.lines[first + i]? = some line ∧
        row.1 = line.map (fun c ↦ if c = '\t' then ' ' else c) ∧
        Marked source start stop (first + i) (if i = 0 then column else 0) row.2 := by
  obtain ⟨first, column, line, hstart⟩ : ∃ n c line, source.IsAt start n c line :=
    exists_isAt (by omega)
  obtain ⟨last, c, later, hlater, hle, hstop, hindex, hc⟩ := exists_stop hstart h
  have hcount : ((last : Int) - first + 1).toNat = last - first + 1 := by omega
  have hsplit := splitOn_fromLineOf hstart.line_eq hstart.le_length
  rw [← lines, ← hstart.index_eq] at hsplit
  refine ⟨first, column, last,
    (rows (last - first + 1) column c (fromLineOf source.text.toList start)).map
      fun row ↦ (row.1.map blankTab, row.2.map blankTab),
    by rw [hstart.positionAt_eq], by rw [hstart.positionAt_eq], by rw [hstop], ?_, ?_, ?_⟩
  · rw [List.length_map, length_rows]
    omega
  · rw [hstart.positionAt_eq, hstop, Span.excerpt, ← layout_eq, hcount]
  · intro i row hrow
    have hi : i < last - first + 1 := by
      have := (List.getElem?_eq_some_iff.1 hrow).1
      rwa [List.length_map, length_rows] at this
    obtain ⟨quoted, hquoted⟩ : ∃ quoted, source.lines[first + i]? = some quoted := by
      have := (List.getElem?_eq_some_iff.1 hlater).1
      exact ⟨_, List.getElem?_eq_getElem (by omega)⟩
    have hquoted' : ((fromLineOf source.text.toList start).splitOn '\n')[i]? = some quoted := by
      rw [hsplit, List.getElem?_drop, hquoted]
    rw [List.getElem?_map, getElem?_rows hi hquoted', Option.map_some, map_blankTab_marks] at hrow
    obtain rfl := Option.some.inj hrow
    have hmarked := marked_row hstart hlater hindex hc (by omega) hi hquoted
    rw [apply_ite Nat.cast, apply_ite Nat.cast] at hmarked
    exact ⟨quoted, hquoted, rfl, hmarked⟩

/-- Three lines are marked, one of them empty and one behind a tab. -/
theorem excerpt_marks_three_lines :
    ∃ rows : List (List Char × List Char), rows.length = 3 ∧
      ['\n'].intercalate (rows.flatMap fun row ↦ [row.1, row.2]) =
        "1+\n ^\n\n^\n 2\n^^".toList ∧
      ∀ i row, rows[i]? = some row →
        ∃ line, (Source.mk "<stdin>" "1+\n\n\t2").lines[i]? = some line ∧
          row.1 = line.map (fun c ↦ if c = '\t' then ' ' else c) ∧
          Marked (Source.mk "<stdin>" "1+\n\n\t2") 1 6 i (if i = 0 then 1 else 0) row.2 := by
  obtain ⟨first, column, last, rows, hfirst, hcolumn, hlast, hlength, hexcerpt, hrows⟩ :=
    @excerpt_marks_lines (Source.mk "<stdin>" "1+\n\n\t2") 1 6 (.inl ⟨by decide, by decide⟩)
  obtain rfl : 0 = first := Int.ofNat.inj hfirst
  obtain rfl : 1 = column := Int.ofNat.inj hcolumn
  obtain rfl : 2 = last := Int.ofNat.inj hlast
  refine ⟨rows, by omega, ?_, fun i row hrow ↦ ?_⟩
  · have htext := congrArg String.toList hexcerpt
    rw [String.toList_ofList] at htext
    exact htext.symm.trans (by decide +kernel)
  · obtain ⟨line, hline, hquoted, hmarked⟩ := hrows i row hrow
    rw [Nat.zero_add] at hline hmarked
    exact ⟨line, hline, hquoted, hmarked⟩

end Source

end Calculator
