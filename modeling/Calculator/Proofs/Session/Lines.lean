import Calculator.Proofs.Tokens.Pieces
import Calculator.Text.Blank
import Calculator.Text.Lines
import Mathlib.Data.List.TakeWhile

/-!
# What the lines of an input are

`Text.lines` reads an input character by character. `Text.IsLines` says what it comes to without
reading: a line has no character that ends lines, it is as long as it can be, and the two characters
of a carriage return and a line feed are one end and not two. The two agree (`Text.lines_eq_iff`).

Behind a line feed a line begins whatever stands in front of it, so that the lines of an input that
ends with one are lines of every longer input (`Text.lines_append`). A carriage return does not have
this property, since a line feed behind it belongs to it.

What is left of a line without its blank ends is told in the same way: `Text.Strips` says that what
is taken away at both ends is blank, and that what is left has no blank end. That leaves one text of
every line, and `Text.strip` finds it (`Text.strip_eq_iff`).
-/

namespace Calculator.Text

/-- The characters end a line in front of a text. -/
inductive EndsLine : List Char → List Char → Prop where
  | feed {rest : List Char} : EndsLine ['\n'] rest
  | both {rest : List Char} : EndsLine ['\r', '\n'] rest
  | carriage {rest : List Char} (halone : rest.head? ≠ some '\n') : EndsLine ['\r'] rest

/-- The lines of an input, in order. -/
inductive IsLines : List Char → List (List Char) → Prop where
  | nil : IsLines [] []
  /-- The last line may lack its end, if it has a character. -/
  | last {line : List Char} (hne : line ≠ []) (hline : ∀ c ∈ line, c ≠ '\n' ∧ c ≠ '\r') :
    IsLines line [line]
  | cons {line ending rest : List Char} {lines : List (List Char)}
      (hline : ∀ c ∈ line, c ≠ '\n' ∧ c ≠ '\r') (hending : EndsLine ending rest)
      (hrest : IsLines rest lines) : IsLines (line ++ (ending ++ rest)) (line :: lines)

section Reading

variable {line ending rest : List Char}

/-- What ends a line ends it in front of another text as well, unless a line feed comes to stand
behind a carriage return. -/
theorem EndsLine.of_head? {other : List Char} (h : EndsLine ending rest)
    (hhead : other.head? = some '\n' → rest.head? = some '\n' ∨ ending.getLast? = some '\n') :
    EndsLine ending other := by
  cases h with
  | feed => exact .feed
  | both => exact .both
  | carriage halone =>
    refine .carriage fun hother ↦ ?_
    rcases hhead hother with hrest | hlast
    · exact halone hrest
    · cases hlast

/-- Characters that end no line are kept. -/
theorem linesFrom_append (hline : ∀ c ∈ line, c ≠ '\n' ∧ c ≠ '\r') (before rest : List Char) :
    linesFrom before (line ++ rest) = linesFrom (line.reverse ++ before) rest := by
  induction line generalizing before with
  | nil => rfl
  | cons c line ih =>
    obtain ⟨⟨hfeed, hcarriage⟩, hline⟩ := List.forall_mem_cons.1 hline
    rw [List.cons_append, linesFrom, if_neg (not_or.2 ⟨hfeed, hcarriage⟩), ih hline]
    · simp
    · exact fun _ hc _ ↦ hcarriage hc

/-- An end of a line ends the line. -/
theorem linesFrom_of_endsLine (h : EndsLine ending rest) (before : List Char) :
    linesFrom before (ending ++ rest) = before.reverse :: lines rest := by
  cases h with
  | feed => exact (linesFrom.eq_def _ _).trans (if_pos (.inl rfl))
  | both => rfl
  | carriage halone =>
    rw [List.singleton_append, linesFrom, if_pos (.inr rfl), lines]
    rintro others - rfl
    exact halone rfl

/-- The lines of an input are read. -/
theorem IsLines.lines_eq {input : List Char} {parts : List (List Char)} (h : IsLines input parts) :
    lines input = parts := by
  induction h with
  | nil => rfl
  | @last line hne hline =>
    rw [lines, ← List.append_nil line, linesFrom_append hline, linesFrom]
    simp [hne]
  | cons hline hending _ ih =>
    rw [lines, linesFrom_append hline, linesFrom_of_endsLine hending, ih]
    simp

/-- What is read is the lines, if what was read of the first line is a part of it. -/
theorem isLines_linesFrom (before input : List Char) (hbefore : ∀ c ∈ before, c ≠ '\n' ∧ c ≠ '\r') :
    IsLines (before.reverse ++ input) (linesFrom before input) := by
  have hreverse {before : List Char} (h : ∀ c ∈ before, c ≠ '\n' ∧ c ≠ '\r') :
      ∀ c ∈ before.reverse, c ≠ '\n' ∧ c ≠ '\r' := fun c hc ↦ h c (List.mem_reverse.1 hc)
  have hnone : ∀ c ∈ ([] : List Char), c ≠ '\n' ∧ c ≠ '\r' := fun _ h ↦ absurd h List.not_mem_nil
  induction before, input using linesFrom.induct with
  | case1 before hempty =>
    rw [List.isEmpty_iff.1 hempty]
    exact .nil
  | case2 before hne =>
    rw [linesFrom, if_neg hne, List.append_nil]
    exact .last (by simpa using hne) (hreverse hbefore)
  | case3 before rest ih =>
    rw [linesFrom]
    exact .cons (hreverse hbefore) .both (ih hnone)
  | case4 before c rest halone hend ih =>
    have hending : EndsLine [c] rest := by
      rcases hend with rfl | rfl
      · exact .feed
      · refine .carriage fun hhead ↦ ?_
        obtain ⟨others, hrest⟩ := List.head?_eq_some_iff.1 hhead
        exact halone others rfl hrest
    rw [linesFrom, if_pos hend]
    · exact .cons (hreverse hbefore) hending (ih hnone)
    · exact halone
  | case5 before c rest halone hend ih =>
    rw [linesFrom, if_neg hend]
    · have hlines := ih (List.forall_mem_cons.2 ⟨not_or.1 hend, hbefore⟩)
      rwa [List.reverse_cons, List.append_assoc] at hlines
    · exact halone

end Reading

section Lines

variable {input more : List Char} {parts others : List (List Char)}

/-- **What is read is the lines of the input**, and an input has no other lines. -/
theorem lines_eq_iff : lines input = parts ↔ IsLines input parts := by
  refine ⟨?_, IsLines.lines_eq⟩
  rintro rfl
  exact isLines_linesFrom [] input fun _ h ↦ absurd h List.not_mem_nil

/-- Behind a line feed other lines begin. -/
theorem IsLines.append (h : IsLines input parts) (hother : IsLines more others)
    (hends : input = [] ∨ input.getLast? = some '\n') :
    IsLines (input ++ more) (parts ++ others) := by
  induction h with
  | nil => exact hother
  | @last line hne hline =>
    have hlast := hends.resolve_left hne
    exact absurd rfl (hline '\n' (List.mem_of_getLast? hlast)).1
  | @cons line ending rest parts hline hending hrest ih =>
    have hbehind : rest = [] ∧ ending.getLast? = some '\n' ∨ rest.getLast? = some '\n' := by
      have hne : line ++ (ending ++ rest) ≠ [] := by cases hending <;> simp
      have hlast := hends.resolve_left hne
      rw [List.getLast?_append, List.getLast?_append] at hlast
      rcases rest.eq_nil_or_concat with rfl | ⟨front, c, rfl⟩
      · cases hending with
        | carriage => simp at hlast
        | _ => exact .inl ⟨rfl, rfl⟩
      · exact .inr (by simpa using hlast)
    rw [List.append_assoc, List.append_assoc]
    refine .cons hline (hending.of_head? fun hhead ↦ ?_) (ih (hbehind.imp_left And.left))
    rcases hbehind with ⟨-, hlast⟩ | hlast
    · exact .inr hlast
    · cases rest with
      | nil => cases hlast
      | cons c rest => exact .inl hhead

/-- **Reading can begin behind a line feed.** -/
theorem lines_append (hends : input = [] ∨ input.getLast? = some '\n') (more : List Char) :
    lines (input ++ more) = lines input ++ lines more :=
  ((lines_eq_iff.1 rfl).append (lines_eq_iff.1 rfl) hends).lines_eq

end Lines

/-! ### What is left of a line -/

/-- The code points of the characters that are blank. -/
def blanks : List Nat :=
  [0x09, 0x0A, 0x0B, 0x0C, 0x0D, 0x1C, 0x1D, 0x1E, 0x1F, 0x20, 0x85, 0xA0, 0x1680, 0x2000, 0x2001,
   0x2002, 0x2003, 0x2004, 0x2005, 0x2006, 0x2007, 0x2008, 0x2009, 0x200A, 0x2028, 0x2029, 0x202F,
   0x205F, 0x3000]

/-- A text without the blank characters at its two ends. -/
structure Strips (text stripped : List Char) : Prop where
  split : ∃ front back, text = front ++ (stripped ++ back) ∧
    (∀ c ∈ front, c.toNat ∈ blanks) ∧ ∀ c ∈ back, c.toNat ∈ blanks
  head : ∀ c, stripped.head? = some c → c.toNat ∉ blanks
  last : ∀ c, stripped.getLast? = some c → c.toNat ∉ blanks

section Stripping

variable {text stripped : List Char}

theorem isBlank_iff {c : Char} : isBlank c = true ↔ c.toNat ∈ blanks := by
  simp only [isBlank, blankRanges, blanks, List.any_cons, List.any_nil, Bool.or_eq_true,
    Bool.and_eq_true, decide_eq_true_eq, Bool.or_false, List.mem_cons, List.not_mem_nil, or_false]
  omega

theorem isBlank_eq_false_iff {c : Char} : isBlank c = false ↔ c.toNat ∉ blanks := by
  rw [← isBlank_iff, Bool.not_eq_true]

theorem isBlank_of_mem_takeWhile {c : Char} (h : c ∈ text.takeWhile isBlank) :
    c.toNat ∈ blanks := isBlank_iff.1 (List.all_eq_true.1 List.all_takeWhile c h)

/-- What is stripped is taken from the two ends. -/
theorem strips_strip (text : List Char) : Strips text (strip text) := by
  -- the blank characters at the end are the first ones of the rest, read backwards
  have hrest : strip text ++ ((text.dropWhile isBlank).reverse.takeWhile isBlank).reverse =
      text.dropWhile isBlank := by
    rw [strip, ← List.reverse_append, List.takeWhile_append_dropWhile, List.reverse_reverse]
  refine ⟨⟨text.takeWhile isBlank, ((text.dropWhile isBlank).reverse.takeWhile isBlank).reverse,
    ?_, fun c ↦ isBlank_of_mem_takeWhile, fun c hc ↦ ?_⟩, fun c hc ↦ ?_, fun c hc ↦ ?_⟩
  · rw [hrest, List.takeWhile_append_dropWhile]
  · exact isBlank_of_mem_takeWhile (List.mem_reverse.1 hc)
  · refine isBlank_eq_false_iff.1 (head?_dropWhile_eq_false isBlank text ?_)
    rw [← hrest, List.head?_append, hc]
    rfl
  · rw [strip, List.getLast?_reverse] at hc
    exact isBlank_eq_false_iff.1 (head?_dropWhile_eq_false isBlank _ hc)

theorem Strips.strip_eq (h : Strips text stripped) : strip text = stripped := by
  obtain ⟨⟨front, back, rfl, hfront, hback⟩, hhead, hlast⟩ := h
  have hfront' : ∀ c ∈ front, isBlank c = true := fun c hc ↦ isBlank_iff.2 (hfront c hc)
  have hback' : ∀ c ∈ back, isBlank c = true := fun c hc ↦ isBlank_iff.2 (hback c hc)
  rw [strip]
  cases stripped with
  | nil =>
    have hall : ∀ c ∈ front ++ ([] ++ back), isBlank c = true :=
      List.forall_mem_append.2 ⟨hfront', hback'⟩
    rw [List.dropWhile_eq_nil_iff.2 hall]
    rfl
  | cons c rest =>
    have hreverse : ∀ d, (c :: rest).reverse.head? = some d → isBlank d = false := fun d hd ↦
      isBlank_eq_false_iff.2 (hlast d (by rwa [← List.head?_reverse]))
    rw [dropWhile_append_of_ends hfront', List.reverse_append, dropWhile_append_of_ends _ hreverse,
      List.reverse_reverse]
    · exact fun d hd ↦ hback' d (List.mem_reverse.1 hd)
    · exact fun d hd ↦ isBlank_eq_false_iff.2 (hhead d hd)

/-- **What is left of a line is stripped of its blank ends**, and nothing else is. -/
theorem strip_eq_iff : strip text = stripped ↔ Strips text stripped := by
  refine ⟨?_, Strips.strip_eq⟩
  rintro rfl
  exact strips_strip text

end Stripping

end Calculator.Text
