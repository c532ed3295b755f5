import Calculator.Source.Cursor

/-!
# The lines of a source

The lines of a text are what its newlines part, so that there is always one, and behind a newline at
the end stands an empty one. A cursor that is advanced from the beginning of a source comes to every
column of every line, in order, also to the one behind the last character of a line, where the
newline is (`Source.IsAt.positionAt_eq`), and to nothing else before the text ends
(`Source.exists_isAt`).

Proofs take a text apart from line to line (`lines_induction`): it is a line without a newline, or
such a line, a newline and a text.
-/

namespace Calculator

/-- The index at which the line behind so many lines begins. -/
def lineStart : List (List Char) → Nat → Nat
  | line :: lines, n + 1 => line.length + 1 + lineStart lines n
  | _, _ => 0

/-- The lines of a source, without their newlines. -/
def Source.lines (source : Source) : List (List Char) := source.text.toList.splitOn '\n'

/-- The place of an index, which is where a cursor comes to from the beginning of the text. -/
def Source.positionAt (source : Source) (index : Nat) : Position :=
  (source.cursor.advanceBy index).position

/-! ### Lines of a text -/

/-- Induction on the lines of a text. -/
@[elab_as_elim]
theorem lines_induction {motive : List Char → Prop} (last : ∀ line, '\n' ∉ line → motive line)
    (cons : ∀ line rest, '\n' ∉ line → motive rest → motive (line ++ '\n' :: rest))
    (text : List Char) : motive text := by
  induction hlength : text.length using Nat.strongRecOn generalizing text with
  | ind length ih =>
    by_cases hmem : '\n' ∈ text
    · obtain ⟨line, rest, rfl, hline⟩ := List.eq_append_cons_of_mem hmem
      rw [List.length_append, List.length_cons] at hlength
      exact cons line rest hline (ih rest.length (by omega) rest rfl)
    · exact last text hmem

section Lines

variable {text line : List Char} {n : Nat}

@[simp] theorem lineStart_zero (lines : List (List Char)) : lineStart lines 0 = 0 := by
  cases lines <;> rfl

@[simp] theorem lineStart_cons_succ (line : List Char) (lines : List (List Char)) (n : Nat) :
    lineStart (line :: lines) (n + 1) = line.length + 1 + lineStart lines n := rfl

/-- A line ends before a later one begins. -/
theorem lineStart_add_length_lt {lines : List (List Char)} (hline : lines[n]? = some line) {m : Nat}
    (hlt : n < m) : lineStart lines n + line.length < lineStart lines m := by
  induction lines generalizing n m with
  | nil => cases hline
  | cons first lines ih =>
    obtain ⟨m, rfl⟩ := Nat.exists_eq_succ_of_ne_zero (Nat.ne_zero_of_lt hlt)
    rw [lineStart_cons_succ]
    cases n with
    | zero =>
      obtain rfl := Option.some.inj hline
      rw [lineStart_zero]
      omega
    | succ n =>
      have := ih hline (Nat.lt_of_succ_lt_succ hlt)
      rw [lineStart_cons_succ]
      omega

/-- A line of a text, with the text in front of it and the text behind it, so many lines from the
beginning. Newlines stand at both of its ends, if there is anything else there. -/
structure LineAt (text : List Char) (n : Nat) (line before after : List Char) : Prop where
  text_eq : text = before ++ (line ++ after)
  plain : '\n' ∉ line
  begins : ∀ c, before.getLast? = some c → c = '\n'
  ends : ∀ c, after.head? = some c → c = '\n'
  length_eq : before.length = lineStart (text.splitOn '\n') n
  splitOn_eq : (line ++ after).splitOn '\n' = (text.splitOn '\n').drop n

theorem exists_lineAt (hline : (text.splitOn '\n')[n]? = some line) :
    ∃ before after, LineAt text n line before after := by
  induction text using lines_induction generalizing n with
  | last text htext =>
    have hsplit := List.splitOn_eq_singleton htext
    obtain ⟨rfl, rfl⟩ : n = 0 ∧ text = line := by
      simpa [hsplit, List.getElem?_singleton] using hline
    exact ⟨[], [], by simp, htext, by simp, by simp, by simp, by simp⟩
  | cons first rest hfirst ih =>
    have hsplit := List.splitOn_append_cons_self_of_not_mem hfirst rest
    rw [hsplit] at hline
    cases n with
    | zero =>
      obtain rfl := Option.some.inj hline
      exact ⟨[], '\n' :: rest, rfl, hfirst, by simp, by simp, by simp, rfl⟩
    | succ n =>
      obtain ⟨before, after, hat⟩ := ih hline
      refine ⟨first ++ '\n' :: before, after, by simp [hat.text_eq], hat.plain, fun c hc ↦ ?_,
        hat.ends, ?_, by rw [hat.splitOn_eq, hsplit, List.drop_succ_cons]⟩
      · rw [List.getLast?_append, List.getLast?_cons] at hc
        cases hbefore : before.getLast? with
        | none => simpa [hbefore] using hc.symm
        | some d => exact hat.begins c (by simpa [hbefore] using hc)
      · rw [hsplit, lineStart_cons_succ, List.length_append, List.length_cons, hat.length_eq]
        omega

/-- Of the columns of a line just the one behind its last character is at a newline or at the end of
the text. -/
theorem LineAt.exists_ne_newline_iff {before after : List Char} {c : Nat}
    (h : LineAt text n line before after) (hc : c ≤ line.length) :
    (∃ d, text[lineStart (text.splitOn '\n') n + c]? = some d ∧ d ≠ '\n') ↔ c < line.length := by
  have hget : text[lineStart (text.splitOn '\n') n + c]? = (line ++ after)[c]? := by
    rw [← h.length_eq, h.text_eq, List.getElem?_append_right (Nat.le_add_right _ _),
      Nat.add_sub_cancel_left]
  rw [hget]
  rcases Nat.lt_or_eq_of_le hc with hlt | rfl
  · obtain ⟨d, hd⟩ : ∃ d, (line)[c]? = some d := ⟨_, List.getElem?_eq_getElem hlt⟩
    rw [List.getElem?_append_left hlt, hd]
    exact iff_of_true ⟨d, rfl, fun heq ↦ h.plain (heq ▸ List.mem_of_getElem? hd)⟩ hlt
  · refine iff_of_false ?_ (Nat.lt_irrefl _)
    rintro ⟨d, hd, hne⟩
    rw [List.getElem?_append_right (Nat.le_refl _), Nat.sub_self, ← List.head?_eq_getElem?] at hd
    exact hne (h.ends d hd)

/-- Every index up to the end of a text is a column of a line, or the end of the line. -/
theorem exists_line {index : Nat} (h : index ≤ text.length) :
    ∃ n line c, (text.splitOn '\n')[n]? = some line ∧ c ≤ line.length ∧
      index = lineStart (text.splitOn '\n') n + c := by
  induction text using lines_induction generalizing index with
  | last text htext =>
    rw [List.splitOn_eq_singleton htext]
    exact ⟨0, text, index, rfl, h, by simp⟩
  | cons first rest hfirst ih =>
    rw [List.splitOn_append_cons_self_of_not_mem hfirst]
    rw [List.length_append, List.length_cons] at h
    by_cases hle : index ≤ first.length
    · exact ⟨0, first, index, rfl, hle, by simp⟩
    · have hrest : index - (first.length + 1) ≤ rest.length := by omega
      obtain ⟨n, line, c, hline, hc, hindex⟩ := ih hrest
      refine ⟨n + 1, line, c, hline, hc, ?_⟩
      rw [lineStart_cons_succ]
      omega

end Lines

/-! ### Places on lines -/

namespace Cursor

variable {cursor : Cursor}

/-- Without a newline a cursor stays on its line. -/
theorem position_advanceBy_of_ne_newline {run rest : List Char} (hrest : cursor.rest = run ++ rest)
    (hrun : ∀ c ∈ run, c ≠ '\n') :
    (cursor.advanceBy run.length).position =
      ⟨cursor.position.source, cursor.position.index + run.length, cursor.position.line,
        cursor.position.column + run.length⟩ := by
  induction run generalizing cursor with
  | nil => simp [advanceBy]
  | cons c run ih =>
    obtain ⟨hc, hrun⟩ := List.forall_mem_cons.1 hrun
    have hcurrent : cursor.current? ≠ some '\n' := by simpa [current?, hrest] using hc
    have hnext : cursor.advance.position =
        { cursor.position with
          index := cursor.position.index + 1, column := cursor.position.column + 1 } :=
      if_neg hcurrent
    rw [List.length_cons, advanceBy, ih (by simp [hrest]) hrun, hnext]
    simp only [Position.mk.injEq, true_and]
    omega

/-- Behind a newline a cursor is at the beginning of the next line. -/
theorem position_advanceBy_newline {line rest : List Char}
    (hrest : cursor.rest = line ++ '\n' :: rest) (hline : '\n' ∉ line) :
    (cursor.advanceBy (line.length + 1)).position =
      ⟨cursor.position.source, cursor.position.index + (line.length + 1 : Nat),
        cursor.position.line + 1, 0⟩ := by
  have hcurrent : (cursor.advanceBy line.length).current? = some '\n' := by
    rw [current?, rest_advanceBy, hrest, List.drop_left]
    rfl
  have hposition := position_advanceBy_of_ne_newline hrest fun c hc ↦ fun h ↦ hline (h ▸ hc)
  rw [advanceBy_add]
  show (cursor.advanceBy line.length).position.advance _ = _
  rw [hcurrent, hposition, Position.advance, if_pos rfl]
  simp only [Position.mk.injEq, true_and, and_true]
  omega

/-- On its line a cursor comes to every column, from the beginning of the line. -/
theorem position_advanceBy_of_le {line rest : List Char} {c : Nat}
    (hrest : cursor.rest = line ++ rest) (hline : '\n' ∉ line)
    (hcolumn : cursor.position.column = 0) (hc : c ≤ line.length) :
    (cursor.advanceBy c).position =
      ⟨cursor.position.source, cursor.position.index + c, cursor.position.line, c⟩ := by
  have hrun : ∀ d ∈ line.take c, d ≠ '\n' := by
    rintro d hd rfl
    exact hline (List.mem_of_mem_take hd)
  have htaken : cursor.rest = line.take c ++ (line.drop c ++ rest) := by
    rw [← List.append_assoc, List.take_append_drop, hrest]
  have hposition := position_advanceBy_of_ne_newline htaken hrun
  rwa [List.length_take_of_le hc, hcolumn, Int.zero_add] at hposition

/-- From the beginning of a line a cursor comes to every column of every line. -/
theorem position_advanceBy_of_line {text line : List Char} {n c : Nat} (hrest : cursor.rest = text)
    (hcolumn : cursor.position.column = 0) (hline : (text.splitOn '\n')[n]? = some line)
    (hc : c ≤ line.length) :
    (cursor.advanceBy (lineStart (text.splitOn '\n') n + c)).position =
      ⟨cursor.position.source,
        cursor.position.index + (lineStart (text.splitOn '\n') n + c : Nat),
        cursor.position.line + n, c⟩ := by
  induction text using lines_induction generalizing cursor n with
  | last text htext =>
    rw [List.splitOn_eq_singleton htext] at hline ⊢
    obtain ⟨rfl, rfl⟩ : n = 0 ∧ text = line := by simpa [List.getElem?_singleton] using hline
    simpa using position_advanceBy_of_le (hrest.trans (List.append_nil _).symm) htext hcolumn hc
  | cons first rest hfirst ih =>
    rw [List.splitOn_append_cons_self_of_not_mem hfirst] at hline ⊢
    cases n with
    | zero =>
      obtain rfl := Option.some.inj hline
      simpa using position_advanceBy_of_le hrest hfirst hcolumn hc
    | succ n =>
      have hnext := position_advanceBy_newline hrest hfirst
      have hafter : (cursor.advanceBy (first.length + 1)).rest = rest := by simp [hrest]
      rw [lineStart_cons_succ, Nat.add_assoc, advanceBy_add, ih hafter (by rw [hnext]) hline, hnext]
      simp only [Position.mk.injEq, true_and, and_true]
      omega

end Cursor

namespace Source

/-- The index is the one of a column of a line, or of the end of the line. -/
structure IsAt (source : Source) (index n c : Nat) (line : List Char) : Prop where
  line_eq : source.lines[n]? = some line
  le_length : c ≤ line.length
  index_eq : index = lineStart source.lines n + c

variable {source : Source} {line : List Char} {index n c : Nat}

theorem exists_isAt (h : index ≤ source.text.toList.length) :
    ∃ n c line, source.IsAt index n c line := by
  obtain ⟨n, line, c, hline, hc, hindex⟩ := exists_line h
  exact ⟨n, c, line, hline, hc, hindex⟩

/-- **Every column of a line has a place**, which names the line and the column, and so has the end
of the line. -/
theorem IsAt.positionAt_eq (h : source.IsAt index n c line) :
    source.positionAt index = ⟨source, index, n, c⟩ := by
  have hrest : source.cursor.rest = source.text.toList := rfl
  rw [h.index_eq, positionAt, lines,
    Cursor.position_advanceBy_of_line hrest rfl h.line_eq h.le_length]
  simp [cursor, Position.origin]

/-- A character other than a newline stands at the columns of a line, and not at its end. -/
theorem IsAt.exists_ne_newline_iff (h : source.IsAt index n c line) :
    (∃ d, source.text.toList[index]? = some d ∧ d ≠ '\n') ↔ c < line.length := by
  obtain ⟨before, after, hat⟩ := exists_lineAt h.line_eq
  rw [h.index_eq]
  exact hat.exists_ne_newline_iff h.le_length

/-- Lines are in order. -/
theorem IsAt.line_le {other m d : Nat} {later : List Char} (h : source.IsAt index n c line)
    (hother : source.IsAt other m d later) (hle : index ≤ other) : n ≤ m := by
  refine Nat.le_of_not_lt fun hlt ↦ ?_
  have hbefore := lineStart_add_length_lt hother.line_eq hlt
  have := hother.le_length
  have := h.index_eq
  have := hother.index_eq
  omega

/-- The place of the next index follows from the character that is left behind. -/
theorem positionAt_succ (source : Source) (index : Nat) :
    source.positionAt (index + 1) =
      (source.positionAt index).advance source.text.toList[index]? := by
  have hcurrent : (source.cursor.advanceBy index).current? = source.text.toList[index]? := by
    rw [Cursor.current?, Cursor.rest_advanceBy, List.head?_drop]
    rfl
  rw [positionAt, Cursor.advanceBy_add, ← hcurrent]
  rfl

end Source

end Calculator
