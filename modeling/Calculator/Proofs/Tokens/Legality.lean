import Mathlib.Data.List.Basic
import Calculator.Proofs.Tokens.Shifts

/-!
# Legal characters

Where lexing fails can be told without lexing. `IsLegal` looks at one character of a text, and for a
point at the digits in front of it: it is legal if there are some, as many as can be, and no point
in front of them. Lexing fails at the first character that is not legal, and if there is none it
does not fail (`Source.lex_fails_at_first_illegal`).

The point is the one character for which this is not the same question. Lexing asks whether the
numeral that it is in the middle of has a point already; the definition asks what stands in front of
the digits, and that may be a point that belongs to no numeral. But such a point is not legal
itself, so that the two agree up to the first character that is not legal.
-/

namespace Calculator

/-- The text ends with digits, as many as can be, and with no point in front of them. -/
def EndsWithWhole (text : List Char) : Prop :=
  ∃ front digits, text = front ++ digits ∧ digits ≠ [] ∧ (∀ c ∈ digits, c.isDigit = true) ∧
    ∀ c, front.getLast? = some c → c.isDigit = false ∧ c ≠ '.'

/-- The character is one that lexing does not fail at, behind a text. -/
def IsLegalBehind (before : List Char) (c : Char) : Prop :=
  c = ' ' ∨ c = '\t' ∨ c.isDigit = true ∨ c ∈ ['+', '-', '*', '/', '(', ')'] ∨
    c = '.' ∧ EndsWithWhole before

/-- At the index of the text stands a character that is legal behind what stands in front of it. -/
def IsLegal (text : List Char) (index : Nat) : Prop :=
  ∃ c, text[index]? = some c ∧ IsLegalBehind (text.take index) c

theorem isLegal_append_iff {before after : List Char} {c : Char} :
    IsLegal (before ++ c :: after) before.length ↔ IsLegalBehind before c := by
  rw [IsLegal, List.take_left, List.getElem?_append_right (Nat.le_refl _), Nat.sub_self]
  simp

theorem Kind.isSome_ofSymbol?_iff {c : Char} :
    (ofSymbol? c).isSome ↔ c ∈ ['+', '-', '*', '/', '(', ')'] := by
  constructor
  · intro h
    rw [ofSymbol?.eq_def] at h
    split at h <;> first | decide | cases h
  · simp only [List.mem_cons, List.not_mem_nil, or_false]
    rintro (rfl | rfl | rfl | rfl | rfl | rfl) <;> rfl

/-! ### Legal pieces -/

theorem EndsWithWhole.isDigit_of_getLast? {text : List Char} {c : Char} (h : EndsWithWhole text)
    (hc : text.getLast? = some c) : c.isDigit = true := by
  obtain ⟨front, digits, rfl, hne, hdigits, -⟩ := h
  rw [List.getLast?_append, List.getLast?_eq_some_getLast hne] at hc
  obtain rfl := Option.some.inj hc
  exact hdigits _ (List.getLast_mem hne)

/-- Digits behind a point are not the whole part of a numeral. -/
theorem not_endsWithWhole_of_point {front fraction : List Char}
    (hfraction : ∀ c ∈ fraction, c.isDigit = true) :
    ¬ EndsWithWhole (front ++ '.' :: fraction) := by
  rintro ⟨before, digits, htext, -, hdigits, hends⟩
  -- the digits begin behind the point, at it or in front of it
  rw [List.append_cons] at htext
  rcases List.append_eq_append_iff.1 htext with ⟨run, hbefore, hrun⟩ | ⟨run, hfront, hrun⟩
  · rcases List.eq_nil_or_concat run with rfl | ⟨others, c, rfl⟩
    · exact (hends '.' (by rw [hbefore]; simp)).2 rfl
    · have hc := (hends c (by rw [hbefore]; simp [List.getLast?_cons])).1
      rw [hfraction c (by rw [hrun]; simp)] at hc
      cases hc
  · rcases List.eq_nil_or_concat run with rfl | ⟨others, c, rfl⟩
    · exact (hends '.' (by rw [List.append_nil] at hfront; rw [← hfront]; simp)).2 rfl
    · obtain rfl : '.' = c := by simpa using congrArg List.getLast? hfront
      cases hdigits '.' (by rw [hrun]; simp)

section Pieces

variable {text : List Char} {passed later : List Piece} {piece : Piece}

/-- A piece of a text fits in front of what the pieces behind it spell. -/
theorem Splits.fits_of_append (h : Splits text (passed ++ piece :: later)) :
    piece.Fits (later.flatMap Piece.spelling) := by
  induction passed generalizing text with
  | nil =>
    obtain ⟨after, -, hfits, hafter⟩ := h.of_cons
    exact hafter.text_eq ▸ hfits
  | cons first passed ih =>
    obtain ⟨after, -, -, hafter⟩ := h.of_cons
    exact ih hafter

/-- Every character of a legal piece is legal behind the legal pieces in front of it. -/
theorem Splits.isLegalBehind (h : Splits text (passed ++ piece :: later))
    (hpassed : ∀ other ∈ passed, ∀ c, other ≠ .illegal c) (hpiece : ∀ c, piece ≠ .illegal c)
    {x y : List Char} {d : Char} (hspelling : piece.spelling = x ++ d :: y) :
    IsLegalBehind (passed.flatMap Piece.spelling ++ x) d := by
  have hfits := h.fits_of_append
  have hmem : d ∈ piece.spelling := by rw [hspelling]; simp
  cases hfits with
  | separator hc =>
    obtain rfl := List.mem_singleton.1 hmem
    exact hc.imp_right .inl
  | symbol hc =>
    obtain rfl := List.mem_singleton.1 hmem
    exact .inr (.inr (.inr (.inl (Kind.isSome_ofSymbol?_iff.1 (hc ▸ rfl)))))
  | integer _ hdigits => exact .inr (.inr (.inl (hdigits d hmem)))
  | @decimal whole fraction _ hne hwhole hfraction =>
    by_cases hpoint : d = '.'
    · -- the one point of a decimal stands behind its whole part
      subst hpoint
      have hplain : ∀ {digits : List Char}, (∀ c ∈ digits, c.isDigit = true) → '.' ∉ digits :=
        fun hdigits hmem ↦ absurd (hdigits _ hmem) (by decide)
      obtain ⟨rfl, -, -⟩ :=
        (List.append_cons_inj_of_notMem (hplain hwhole) (hplain hfraction)).1 hspelling
      obtain ⟨c, rest, hhead, hc⟩ := exists_append_eq_cons hne hwhole ('.' :: fraction)
      have hfront := h.getLast?_of_digit (d := c) hpassed (by simp [Piece.spelling, hhead]) hc
      exact .inr (.inr (.inr (.inr ⟨rfl, _, whole, rfl, hne, hwhole, hfront⟩)))
    · refine .inr (.inr (.inl ?_))
      rcases List.mem_append.1 hmem with hmem | hmem
      · exact hwhole d hmem
      · exact hfraction d (List.mem_of_ne_of_mem hpoint hmem)
  | illegal => exact absurd rfl (hpiece _)

/-- Every index of what is spelled by pieces is in one of them. -/
theorem exists_piece_of_lt {pieces : List Piece} {index : Nat}
    (h : index < (pieces.flatMap Piece.spelling).length) :
    ∃ passed piece later x d y, pieces = passed ++ piece :: later ∧
      piece.spelling = x ++ d :: y ∧ index = (passed.flatMap Piece.spelling ++ x).length := by
  induction pieces generalizing index with
  | nil => cases h
  | cons first pieces ih =>
    rw [List.flatMap_cons, List.length_append] at h
    by_cases hlt : index < first.spelling.length
    · refine ⟨[], first, pieces, first.spelling.take index, first.spelling[index],
        first.spelling.drop (index + 1), rfl, ?_, ?_⟩
      · rw [List.getElem_cons_drop, List.take_append_drop]
      · simp [Nat.min_eq_left (Nat.le_of_lt hlt)]
    · have hrest : index - first.spelling.length < (pieces.flatMap Piece.spelling).length := by
        omega
      obtain ⟨passed, piece, later, x, d, y, rfl, hspelling, hindex⟩ := ih hrest
      refine ⟨first :: passed, piece, later, x, d, y, rfl, hspelling, ?_⟩
      rw [List.flatMap_cons, List.append_assoc, List.length_append, ← hindex]
      omega

/-- **Legal pieces have only legal characters.** -/
theorem Splits.isLegal_of_lt (h : Splits text (passed ++ later))
    (hpassed : ∀ other ∈ passed, ∀ c, other ≠ .illegal c) {index : Nat}
    (hindex : index < (passed.flatMap Piece.spelling).length) : IsLegal text index := by
  obtain ⟨before, piece, after, x, d, y, rfl, hspelling, rfl⟩ := exists_piece_of_lt hindex
  have htext : text = (before.flatMap Piece.spelling ++ x) ++
      d :: (y ++ (after ++ later).flatMap Piece.spelling) := by
    rw [h.text_eq]
    simp [hspelling]
  rw [List.append_assoc, List.cons_append] at h
  rw [htext, isLegal_append_iff]
  exact h.isLegalBehind (fun other hother ↦ hpassed other (List.mem_append_left _ hother))
    (hpassed piece (by simp)) hspelling

/-- A point that belongs to no numeral does not stand behind the whole part of one. -/
theorem Splits.not_endsWithWhole (h : Splits text (passed ++ .illegal '.' :: later))
    (hpassed : ∀ other ∈ passed, ∀ c, other ≠ .illegal c) :
    ¬ EndsWithWhole (passed.flatMap Piece.spelling) := by
  intro hwhole
  rcases List.eq_nil_or_concat passed with rfl | ⟨front, last, rfl⟩
  · obtain ⟨before, digits, htext, hne, -, -⟩ := hwhole
    exact hne (List.append_eq_nil_iff.1 htext.symm).2
  rw [List.concat_eq_append] at h hpassed hwhole
  rw [List.append_assoc, List.singleton_append] at h
  rw [List.flatMap_append, List.flatMap_singleton] at hwhole
  have hlast : ∀ c, last.spelling = [c] → c.isDigit = true := fun c hc ↦
    hwhole.isDigit_of_getLast? (by rw [hc]; simp)
  -- the piece in front of the point ends with a digit, and would have taken the point
  cases h.fits_of_append with
  | separator hc => exact absurd (hlast _ rfl) (by simp [Piece.ends_of_separator hc])
  | symbol hc => exact absurd (hlast _ rfl) (by simp [Kind.plain_of_ofSymbol? hc])
  | integer _ _ hends => exact (hends '.' (by simp [Piece.spelling])).2 rfl
  | @decimal whole fraction _ _ _ hfraction =>
    rw [Piece.spelling, ← List.append_assoc] at hwhole
    exact not_endsWithWhole_of_point hfraction hwhole
  | @illegal c => exact hpassed (.illegal c) (by simp) c rfl

/-- **Behind legal pieces an illegal piece is an illegal character.** -/
theorem Splits.not_isLegalBehind {c : Char} (h : Splits text (passed ++ .illegal c :: later))
    (hpassed : ∀ other ∈ passed, ∀ d, other ≠ .illegal d) :
    ¬ IsLegalBehind (passed.flatMap Piece.spelling) c := by
  cases h.fits_of_append with
  | illegal hseparator hdigit hsymbol =>
    rintro (hc | hc | hc | hc | ⟨rfl, hwhole⟩)
    · exact hseparator.1 hc
    · exact hseparator.2 hc
    · rw [hdigit] at hc
      cases hc
    · rw [← Kind.isSome_ofSymbol?_iff, hsymbol] at hc
      cases hc
    · exact h.not_endsWithWhole hpassed hwhole

end Pieces

/-! ### The tokens in front of an index -/

/-- The source with its text up to an index. -/
def Source.upTo (source : Source) (index : Nat) : Source :=
  ⟨source.name, .ofList (source.text.toList.take index)⟩

/-- Every place is moved to the same place in another source. -/
def Relocation.into (source : Source) : Relocation where
  start? position := some { position with source }
  stop? position := some { position with source }

theorem Relocation.into_eq_shift (source : Source) : into source = shift source 0 := by
  simp [into, shift, Position.shift]

/-- Pieces at the same place are the same tokens in any source. -/
theorem Cursor.tokens_eq_map_into {source original : Source} {cursor other : Cursor} {start : Int}
    {pieces later others : List Piece} (hposition : cursor.position = source.place start)
    (hother : other.position = original.place start)
    (hsplits : Splits cursor.rest (pieces ++ later))
    (hsplits' : Splits other.rest (pieces ++ others))
    (hpassed : ∀ piece ∈ pieces, piece.IsPassed) :
    cursor.tokens pieces = (other.tokens pieces).map (Relocation.into source).token := by
  have hstart : cursor.position = source.place (start + (0 : Nat)) := by simpa using hposition
  rw [Relocation.into_eq_shift, tokens_eq_map_shift hstart hother hsplits hsplits' hpassed]

namespace Source

variable {source : Source} {lexed : Lexed} {passed later : List Piece} {c : Char} {index : Nat}

/-- Lexing failed at the character at an index, on the first line. The failure ends where the next
character is, which for a newline is the beginning of the next line, and the tokens are those of the
text up to the index, without the one for its end. -/
structure FailsAt (source : Source) (lexed : Lexed) (index : Nat) : Prop where
  start : source.positionAt index = ⟨source, index, 0, index⟩
  failure : ∃ c, source.text.toList[index]? = some c ∧
    lexed.failure? = some ⟨.illegalCharacter (.singleton c),
      ⟨some (source.positionAt index), some (source.positionAt (index + 1))⟩⟩ ∧
    source.positionAt (index + 1) =
      if c = '\n' then ⟨source, index + 1, 1, 0⟩ else ⟨source, index + 1, 0, index + 1⟩
  tokens : ∃ others stop, (source.upTo index).lex = .ok { tokens := others ++ [stop] } ∧
    stop.lexeme = .ofKind .eof ∧ lexed.tokens = others.map (Relocation.into source).token

/-- Lexing fails at an illegal piece behind pieces that are passed. -/
theorem failsAt_of_splits (hsplits : Splits source.text.toList (passed ++ .illegal c :: later))
    (hpassed : ∀ piece ∈ passed, piece.IsPassed) :
    source.FailsAt { tokens := source.cursor.tokens passed,
                     failure? := some ((source.cursor.behind passed).illegal
                       (source.cursor.behind passed).advance c) }
      (passed.flatMap Piece.spelling).length := by
  obtain ⟨hchar, -, hillegal⟩ := source.illegal_behind hsplits hpassed
  have hstart : source.positionAt (passed.flatMap Piece.spelling).length =
      source.place (passed.flatMap Piece.spelling).length := by
    have hposition := Cursor.position_behind source.position_cursor hsplits hpassed
    rwa [Int.zero_add] at hposition
  have hstop : source.positionAt ((passed.flatMap Piece.spelling).length + 1) =
      (source.place (passed.flatMap Piece.spelling).length).advance (some c) := by
    rw [positionAt_succ, hstart, hchar]
  refine ⟨hstart, ⟨c, hchar, ?_, ?_⟩, ?_⟩
  · rw [hstart, hstop, hillegal]
  · rw [hstop, Position.advance]
    simp only [Option.some.injEq]
    split <;> rfl
  · have hupTo : (source.upTo (passed.flatMap Piece.spelling).length).text.toList =
        passed.flatMap Piece.spelling := by
      rw [upTo, String.toList_ofList, hsplits.text_eq, List.flatMap_append, List.take_left]
    have hothers := hsplits.of_append
    rw [← hupTo] at hothers
    have hend : Splits (source.upTo (passed.flatMap Piece.spelling).length).cursor.rest
        (passed ++ []) := by rwa [List.append_nil]
    exact ⟨_, _, lex_of_splits hothers hpassed, rfl,
      Cursor.tokens_eq_map_into source.position_cursor (position_cursor _) hsplits hend hpassed⟩

/-- **Lexing fails at the first character that is not legal**, and only there. -/
theorem lex_fails_at_first_illegal
    (hshort : ∀ length, ¬ HasLongInteger source.text.toList length) :
    ∃ lexed, source.lex = .ok lexed ∧
      (lexed.failure? = none ↔
        ∀ index < source.text.toList.length, IsLegal source.text.toList index) ∧
      ∀ index < source.text.toList.length, ¬ IsLegal source.text.toList index →
        (∀ earlier < index, IsLegal source.text.toList earlier) → source.FailsAt lexed index := by
  rcases source.exists_pieces with ⟨length, hlong⟩ | ⟨passed, c, later, hsplits, hpassed⟩ |
    ⟨pieces, hsplits, hpassed⟩
  · exact absurd hlong (hshort length)
  · have hlegal : ∀ piece ∈ passed, ∀ d, piece ≠ .illegal d := fun piece hpiece ↦
      (hpassed piece hpiece).2
    have hillegal : ¬ IsLegal source.text.toList (passed.flatMap Piece.spelling).length := by
      rw [hsplits.text_eq, List.flatMap_append, List.flatMap_cons, Piece.spelling,
        List.singleton_append, isLegal_append_iff]
      exact hsplits.not_isLegalBehind hlegal
    have hlt : (passed.flatMap Piece.spelling).length < source.text.toList.length := by
      rw [hsplits.text_eq, List.flatMap_append, List.flatMap_cons, Piece.spelling]
      simp
    refine ⟨_, lex_of_illegal hsplits hpassed,
      iff_of_false (Option.some_ne_none _) fun hall ↦ hillegal (hall _ hlt),
      fun index _ hindex hearlier ↦ ?_⟩
    -- both are the first index where there is no legal character
    obtain rfl : index = (passed.flatMap Piece.spelling).length := Nat.le_antisymm
      (Nat.le_of_not_lt fun hbehind ↦ hillegal (hearlier _ hbehind))
      (Nat.le_of_not_lt fun hbefore ↦ hindex (hsplits.isLegal_of_lt hlegal hbefore))
    exact failsAt_of_splits hsplits hpassed
  · have hall : ∀ index < source.text.toList.length, IsLegal source.text.toList index := by
      intro index hindex
      have hsplits' := hsplits
      rw [← List.append_nil pieces] at hsplits'
      exact hsplits'.isLegal_of_lt (fun piece hpiece ↦ (hpassed piece hpiece).2)
        (hsplits.text_eq ▸ hindex)
    exact ⟨_, lex_of_splits hsplits hpassed, iff_of_true rfl hall,
      fun index hlt hindex _ ↦ absurd (hall index hlt) hindex⟩

/-- The second point of `1.2.3` stands behind digits with a point in front of them. -/
theorem lex_fails_at_second_point :
    (∀ length, ¬ HasLongInteger (Source.mk "<stdin>" "1.2.3").text.toList length) ∧
      ∃ lexed, (Source.mk "<stdin>" "1.2.3").lex = .ok lexed ∧
        (lexed.failure? = none ↔ ∀ index < (Source.mk "<stdin>" "1.2.3").text.toList.length,
          IsLegal (Source.mk "<stdin>" "1.2.3").text.toList index) ∧
        ∀ index < (Source.mk "<stdin>" "1.2.3").text.toList.length,
          ¬ IsLegal (Source.mk "<stdin>" "1.2.3").text.toList index →
          (∀ earlier < index, IsLegal (Source.mk "<stdin>" "1.2.3").text.toList earlier) →
            (Source.mk "<stdin>" "1.2.3").FailsAt lexed index := by
  have hshort : ∀ length, ¬ HasLongInteger (Source.mk "<stdin>" "1.2.3").text.toList length := by
    rintro length ⟨passed, digits, later, hsplits, -, hlong, -⟩
    have hall : HasShortIntegers (Source.mk "<stdin>" "1.2.3").text.toList :=
      hasShortIntegers_of_length_le (by decide)
    exact Nat.not_lt_of_le (hall _ hsplits (.integer digits) (by simp)) hlong
  exact ⟨hshort, lex_fails_at_first_illegal hshort⟩

end Source

end Calculator
