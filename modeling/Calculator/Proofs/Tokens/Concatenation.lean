import Mathlib.Control.Monad.Basic
import Calculator.Proofs.Tokens.Legality

/-!
# Lexing a text behind a text

Lexing carries nothing from token to token. If a text is lexed to its end, then a text behind it is
lexed like one by itself, only further on (`Source.lex_append_eq`). What may not happen is that a
numeral at the end of the first text goes on in the second one; for the tokens of the first text
this is the one thing to look at (`Source.apart_of_lex`).

The pieces of the whole text are those of the one text and then those of the other. So it is decided
in the second text how lexing ends: with its end, at its first illegal character, or at its first
integer that is too long.
-/

namespace Calculator

/-- No numeral of the text can go on with the text behind it. -/
def Apart (text rest : List Char) : Prop :=
  (∀ c, text.getLast? = some c → c.isDigit = false ∧ c ≠ '.') ∨
    ∀ c, rest.head? = some c → c.isDigit = false ∧ c ≠ '.'

/-- The pieces of texts that are apart are the pieces of the whole text. -/
theorem Splits.append_of_apart {text rest : List Char} {pieces later : List Piece}
    (h : Splits text pieces) (hrest : Splits rest later) (hapart : Apart text rest) :
    Splits (text ++ rest) (pieces ++ later) := by
  rcases hapart with hends | hbegins
  · exact h.append hrest hends
  · induction h with
    | nil => exact hrest
    | @cons piece after pieces hfits hafter ih =>
      rw [List.append_assoc]
      refine .cons (hfits.of_head? fun c hc ↦ ?_) ih
      rw [List.head?_append] at hc
      cases hhead : after.head? with
      | none => exact .inr (hbegins c (by simpa [hhead] using hc))
      | some d => exact .inl (by simpa [hhead] using hc)

/-- The character at the end of a text of such a length belongs to a numeral: one of the tokens of
the text is a literal that ends there. -/
def EndsWithNumeral (tokens : List Token) (length : Nat) : Prop :=
  ∃ token ∈ tokens, (token.kind = .int ∨ token.kind = .float) ∧
    ∃ start : Int, token.extent.indices? = some (start, (length : Int))

/-- The text begins with a digit or with a point. -/
def BeginsLikeNumeral (text : List Char) : Prop :=
  ∃ c, text.head? = some c ∧ (c.isDigit = true ∨ c = '.')

/-- A legal piece that ends like a numeral is a literal. -/
theorem Piece.Fits.exists_literal_of_getLast? {piece : Piece} {after : List Char} {c : Char}
    (h : piece.Fits after) (hlegal : ∀ d, piece ≠ .illegal d)
    (hlast : piece.spelling.getLast? = some c) (hc : ¬ (c.isDigit = false ∧ c ≠ '.')) :
    ∃ lexeme, piece.lexeme? = some lexeme ∧ (lexeme.kind = .int ∨ lexeme.kind = .float) := by
  cases piece with
  | separator d =>
    obtain rfl := Option.some.inj hlast
    cases h with
    | separator hd => exact absurd (ends_of_separator hd) hc
  | symbol d kind =>
    obtain rfl := Option.some.inj hlast
    cases h with
    | symbol hd =>
      refine absurd ⟨(Kind.plain_of_ofSymbol? hd).2.1, ?_⟩ hc
      rintro rfl
      cases hd
  | integer digits => exact ⟨_, rfl, .inl rfl⟩
  | decimal whole fraction =>
    rw [lexeme?, Numeral.ofText?_of_decimal h]
    exact ⟨_, rfl, .inr rfl⟩
  | illegal d => exact absurd rfl (hlegal d)

/-- The source with the text of another one behind its own. -/
def Source.append (source other : Source) : Source := ⟨source.name, source.text ++ other.text⟩

namespace Cursor

theorem behind_append (cursor : Cursor) (pieces later : List Piece) :
    cursor.behind (pieces ++ later) = (cursor.behind pieces).behind later := by
  rw [behind, List.flatMap_append, List.length_append, advanceBy_add]
  rfl

theorem tokens_append (cursor : Cursor) (pieces later : List Piece) :
    cursor.tokens (pieces ++ later) =
      cursor.tokens pieces ++ (cursor.behind pieces).tokens later := by
  induction pieces generalizing cursor with
  | nil => rfl
  | cons piece pieces ih =>
    rw [List.cons_append, tokens, tokens, ih, behind_cons, List.append_assoc]

end Cursor

namespace Source

variable {source other : Source} {tokens body : List Token} {stop : Token}
  {pieces passed later : List Piece}

theorem toList_text_append (source other : Source) :
    (source.append other).text.toList = source.text.toList ++ other.text.toList :=
  String.toList_append

section Pieces

variable (hsource : Splits source.text.toList pieces) (hpieces : ∀ piece ∈ pieces, piece.IsPassed)
  (hother : Splits other.text.toList (passed ++ later)) (hpassed : ∀ piece ∈ passed, piece.IsPassed)
  (hapart : Apart source.text.toList other.text.toList)

include hsource hpieces hother hpassed hapart

/-- The pieces of the whole text are passed as far as those of the two texts are. -/
theorem splits_append :
    Splits (source.append other).text.toList ((pieces ++ passed) ++ later) ∧
      ∀ piece ∈ pieces ++ passed, piece.IsPassed := by
  rw [toList_text_append, List.append_assoc]
  exact ⟨hsource.append_of_apart hother hapart, List.forall_mem_append.2 ⟨hpieces, hpassed⟩⟩

/-- The tokens of the whole text are those of the first text and, shifted, those of the second. -/
theorem tokens_cursor_append :
    (source.append other).cursor.tokens (pieces ++ passed) =
      (source.cursor.tokens pieces).map (Relocation.into (source.append other)).token ++
        (other.cursor.tokens passed).map
          (Relocation.shift (source.append other) source.text.toList.length).token := by
  have hwhole := hsource.append_of_apart hother hapart
  rw [← toList_text_append] at hwhole
  have hposition := Cursor.position_behind (position_cursor _) hwhole hpieces
  rw [← hsource.text_eq] at hposition
  have hrest := (lex_of_forall_isPassed hwhole hpieces).1
  rw [← List.append_nil pieces] at hsource
  rw [Cursor.tokens_append,
    Cursor.tokens_eq_map_into (position_cursor _) (position_cursor _) hwhole hsource hpieces,
    Cursor.tokens_eq_map_shift hposition (position_cursor _) hrest hother hpassed]

/-- Behind the pieces the cursor in the whole text has the same to read as the one in the second
text, further on. -/
theorem behind_append :
    ((source.append other).cursor.behind (pieces ++ passed)).position =
        (other.cursor.behind passed).position.shift (source.append other)
          source.text.toList.length ∧
      0 ≤ (other.cursor.behind passed).position.line ∧
      ((source.append other).cursor.behind (pieces ++ passed)).rest =
        (other.cursor.behind passed).rest := by
  obtain ⟨hwhole, hall⟩ := splits_append hsource hpieces hother hpassed hapart
  have hposition := Cursor.position_behind (position_cursor _) hwhole hall
  have hposition' := Cursor.position_behind (position_cursor _) hother hpassed
  rw [Int.zero_add] at hposition hposition'
  refine ⟨?_, ?_, ?_⟩
  · rw [hposition, hposition', Position.shift_place, List.flatMap_append, List.length_append,
      ← hsource.text_eq, Int.natCast_add, Int.add_comm]
  · rw [hposition']
    exact Int.le_refl 0
  · rw [(lex_of_forall_isPassed hwhole hall).1.text_eq,
      (lex_of_forall_isPassed hother hpassed).1.text_eq]

end Pieces

/-- **A text behind a text is lexed like one by itself**, further on. -/
theorem lex_append_eq (hlex : source.lex = .ok { tokens := body ++ [stop] })
    (hapart : Apart source.text.toList other.text.toList) :
    (source.append other).lex = other.lex.map fun lexed ↦
      { tokens := body.map (Relocation.into (source.append other)).token ++
          lexed.tokens.map
            (Relocation.shift (source.append other) source.text.toList.length).token,
        failure? := lexed.failure?.map
          (Relocation.shift (source.append other) source.text.toList.length).failure } := by
  obtain ⟨pieces, hsource, hpieces, htokens⟩ := exists_pieces_of_lex hlex
  obtain ⟨rfl, -⟩ := List.append_inj' htokens rfl
  rcases other.exists_pieces with ⟨length, passed, digits, later, hother, hpassed, hlong, rfl⟩ |
    ⟨passed, c, later, hother, hpassed⟩ | ⟨passed, hother, hpassed⟩
  · obtain ⟨hwhole, hall⟩ := splits_append hsource hpieces hother hpassed hapart
    rw [lex_of_hasLongInteger ⟨_, digits, later, hwhole, hall, hlong, rfl⟩,
      lex_of_hasLongInteger ⟨_, digits, later, hother, hpassed, hlong, rfl⟩]
    rfl
  · obtain ⟨hwhole, hall⟩ := splits_append hsource hpieces hother hpassed hapart
    obtain ⟨hposition, hline, hrest⟩ := behind_append hsource hpieces hother hpassed hapart
    rw [lex_of_illegal hwhole hall, lex_of_illegal hother hpassed,
      tokens_cursor_append hsource hpieces hother hpassed hapart,
      Cursor.illegal_eq_shift hposition hline (congrArg List.head? hrest) c]
    rfl
  · rw [← List.append_nil passed] at hother
    obtain ⟨hwhole, hall⟩ := splits_append hsource hpieces hother hpassed hapart
    obtain ⟨hposition, hline, -⟩ := behind_append hsource hpieces hother hpassed hapart
    rw [List.append_nil] at hwhole
    rw [lex_of_splits hwhole hall,
      tokens_cursor_append hsource hpieces hother hpassed hapart,
      Cursor.finish_eq_shift hposition hline]
    rw [List.append_nil] at hother
    rw [lex_of_splits hother hpassed]
    simp [Except.map]

/-! ### The end of the first text -/

/-- What is lexed to its end and ends like a numeral ends with one. -/
theorem endsWithNumeral_of_getLast? {c : Char} (hlex : source.lex = .ok { tokens })
    (hlast : source.text.toList.getLast? = some c) (hc : ¬ (c.isDigit = false ∧ c ≠ '.')) :
    EndsWithNumeral tokens source.text.toList.length := by
  obtain ⟨pieces, hsplits, hpassed, rfl⟩ := exists_pieces_of_lex hlex
  have htext := hsplits.text_eq
  rcases List.eq_nil_or_concat pieces with rfl | ⟨front, last, rfl⟩
  · rw [htext] at hlast
    cases hlast
  rw [List.concat_eq_append] at hsplits hpassed htext ⊢
  have hfits := hsplits.fits_of_append
  have hspelling : last.spelling.getLast? = some c := by
    rwa [htext, List.flatMap_append, List.flatMap_singleton,
      List.getLast?_append_of_ne_nil _ hfits.spelling_ne_nil] at hlast
  obtain ⟨lexeme, hlexeme, hkind⟩ :=
    hfits.exists_literal_of_getLast? (hpassed last (by simp)).2 hspelling hc
  obtain ⟨-, hparts⟩ := source.parts_behind hsplits
  refine ⟨(source.cursor.behind front).token lexeme last.spelling.length, ?_, hkind,
    (front.flatMap Piece.spelling).length, ?_⟩
  · simp [Cursor.tokens_append, Cursor.tokens, hlexeme]
  · rw [(hparts.spells_token hlexeme).extent, htext]
    simp

/-- If no numeral at the end of the first text goes on in the second one, they are apart. -/
theorem apart_of_lex {rest : List Char} (hlex : source.lex = .ok { tokens })
    (hnumeral : ¬ (EndsWithNumeral tokens source.text.toList.length ∧ BeginsLikeNumeral rest)) :
    Apart source.text.toList rest := by
  by_cases hbegins : BeginsLikeNumeral rest
  · refine .inl fun c hlast ↦ ?_
    by_contra hc
    exact hnumeral ⟨endsWithNumeral_of_getLast? hlex hlast hc, hbegins⟩
  · refine .inr fun c hhead ↦ ?_
    by_contra hc
    exact hbegins ⟨c, hhead, by grind⟩

/-- **Lexing carries nothing from token to token.** A text behind a text that was lexed to its end
gives the tokens of that text, less the one for its end, and then what it gives by itself: its
tokens and its failure shifted by the length of the first text, or the same fault. The one condition
is that no numeral at the end of the first text goes on in the second one. -/
theorem lex_append_shifts (hlex : source.lex = .ok { tokens })
    (hnumeral : ¬ (EndsWithNumeral tokens source.text.toList.length ∧
      BeginsLikeNumeral other.text.toList)) :
    ∃ body stop, tokens = body ++ [stop] ∧ stop.kind = .eof ∧ (∀ token ∈ body, token.kind ≠ .eof) ∧
      (source.append other).lex = other.lex.map fun lexed ↦
        { tokens := body.map (Relocation.into (source.append other)).token ++
            lexed.tokens.map
              (Relocation.shift (source.append other) source.text.toList.length).token,
          failure? := lexed.failure?.map
            (Relocation.shift (source.append other) source.text.toList.length).failure } := by
  have hapart := apart_of_lex hlex hnumeral
  obtain ⟨body, stop, rfl, hbody, hstop⟩ := exists_body_of_lex hlex
  exact ⟨body, stop, rfl, hstop, hbody, lex_append_eq hlex hapart⟩

/-- The newline behind `*` fails two characters further on behind `12`, and its failure ends at the
beginning of the next line as before. -/
theorem lex_append_shifts_newline :
    (Source.mk "<stdin>" "12").lex = .ok { tokens := [
        ⟨.literal (.int 12), stretch ⟨"<stdin>", "12"⟩ (0, 2)⟩,
        ⟨.ofKind .eof, stretch ⟨"<stdin>", "12"⟩ (2, 3)⟩] } ∧
      ¬ BeginsLikeNumeral (Source.mk "<stdin>" "*\n3").text.toList ∧
      ((Source.mk "<stdin>" "12").append ⟨"<stdin>", "*\n3"⟩).lex = .ok {
        tokens := [
          ⟨.literal (.int 12), stretch ⟨"<stdin>", "12*\n3"⟩ (0, 2)⟩,
          ⟨.ofKind .mul, stretch ⟨"<stdin>", "12*\n3"⟩ (2, 3)⟩]
        failure? := some ⟨.illegalCharacter "\n",
          ⟨some (place ⟨"<stdin>", "12*\n3"⟩ 3), some ⟨⟨"<stdin>", "12*\n3"⟩, 4, 1, 0⟩⟩⟩ } := by
  have hlex : (Source.mk "<stdin>" "12").lex = .ok { tokens := [
      ⟨.literal (.int 12), stretch ⟨"<stdin>", "12"⟩ (0, 2)⟩,
      ⟨.ofKind .eof, stretch ⟨"<stdin>", "12"⟩ (2, 3)⟩] } := by decide +kernel
  have hother : (Source.mk "<stdin>" "*\n3").lex = .ok {
      tokens := [⟨.ofKind .mul, stretch ⟨"<stdin>", "*\n3"⟩ (0, 1)⟩]
      failure? := some ⟨.illegalCharacter "\n",
        ⟨some (place ⟨"<stdin>", "*\n3"⟩ 1), some ⟨⟨"<stdin>", "*\n3"⟩, 2, 1, 0⟩⟩⟩ } := by
    decide +kernel
  have hbegins : ¬ BeginsLikeNumeral (Source.mk "<stdin>" "*\n3").text.toList := by
    rintro ⟨c, hc, hnumeral⟩
    obtain rfl : '*' = c := Option.some.inj hc
    revert hnumeral
    decide
  have hnumeral : ∀ tokens length, ¬ (EndsWithNumeral tokens length ∧
      BeginsLikeNumeral (Source.mk "<stdin>" "*\n3").text.toList) := fun _ _ h ↦ hbegins h.2
  obtain ⟨body, stop, htokens, -, -, hwhole⟩ := lex_append_shifts hlex (hnumeral _ _)
  obtain ⟨rfl, -⟩ := List.append_inj' (show [_] ++ [_] = body ++ [stop] from htokens) rfl
  rw [hother] at hwhole
  exact ⟨hlex, hbegins, hwhole⟩

end Source

end Calculator
