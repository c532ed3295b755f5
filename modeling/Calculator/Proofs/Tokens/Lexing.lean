import Calculator.Proofs.Tokens.Pieces

/-!
# Lexing piece by piece

What `Cursor.lexFrom` does with the piece of a text under its cursor: one equation for each way in
which it goes on. It passes over a separator, takes a symbol and a numeral as a token
(`lexFrom_of_lexeme`), ends with a failure at an illegal character, gives up at an integer
that is too long (`lexFrom_of_long`), and adds the last token at the end of the text.

What a numeral is has two readings that meet here. `Numeral.ofText` looks for its end, character by
character; `Piece.Fits` says what may follow it. They agree because a run of digits in front of
something else is the longest there is.
-/

namespace Calculator

/-! ### What lexing does with a piece -/

namespace Piece.Fits

theorem exists_digit_of_integer {digits after : List Char} (h : (Piece.integer digits).Fits after) :
    ∃ c rest, (Piece.integer digits).spelling ++ after = c :: rest ∧ c.isDigit = true := by
  cases h with
  | integer hne hdigits => exact exists_append_eq_cons hne hdigits after

theorem exists_digit_of_decimal {whole fraction after : List Char}
    (h : (Piece.decimal whole fraction).Fits after) :
    ∃ c rest, (Piece.decimal whole fraction).spelling ++ after = c :: rest ∧ c.isDigit = true := by
  cases h with
  | decimal hne hwhole =>
    rw [Piece.spelling, List.append_assoc]
    exact exists_append_eq_cons hne hwhole _

end Piece.Fits

/-- A point ends a run of digits. -/
theorem ends_of_point (rest : List Char) :
    ∀ c, ('.' :: rest).head? = some c → c.isDigit = false := by
  rintro c hc
  obtain rfl := Option.some.inj hc
  rfl

namespace Numeral

theorem ofText_of_integer {digits after : List Char} (h : (Piece.integer digits).Fits after) :
    ofText (digits ++ after) = ⟨digits, none⟩ := by
  cases h with
  | integer _ hdigits hends =>
    have hdigit : ∀ c, after.head? = some c → c.isDigit = false := fun c hc ↦ (hends c hc).1
    rw [ofText, takeWhile_append_of_ends hdigits hdigit, dropWhile_append_of_ends hdigits hdigit]
    split
    · exact absurd rfl (hends '.' rfl).2
    · rfl

theorem ofText_of_decimal {whole fraction after : List Char}
    (h : (Piece.decimal whole fraction).Fits after) :
    ofText (whole ++ '.' :: fraction ++ after) = ⟨whole, some fraction⟩ := by
  cases h with
  | decimal _ hwhole hfraction hends =>
    rw [List.append_assoc, List.cons_append, ofText,
      takeWhile_append_of_ends hwhole (ends_of_point _),
      dropWhile_append_of_ends hwhole (ends_of_point _)]
    simp only [takeWhile_append_of_ends hfraction hends]

theorem decimalOfText?_of_decimal {whole fraction after : List Char}
    (h : (Piece.decimal whole fraction).Fits after) :
    Decimal.ofText? (whole ++ '.' :: fraction) = some (Numeral.decimal whole fraction) := by
  cases h with
  | decimal hne hwhole hfraction _ =>
    -- the fraction is all that is left of the text, whatever stands behind the piece
    have hends : ∀ c, ([] : List Char).head? = some c → c.isDigit = false := by rintro _ ⟨⟩
    have htake := takeWhile_append_of_ends hfraction hends
    have hdrop := dropWhile_append_of_ends hfraction hends
    rw [List.append_nil] at htake hdrop
    rw [Decimal.ofText?, takeWhile_append_of_ends hwhole (ends_of_point _),
      dropWhile_append_of_ends hwhole (ends_of_point _)]
    simp [htake, hdrop, hne, Numeral.decimal]

/-- The double that a decimal spells is the one that its text is read as. -/
theorem ofText?_of_decimal {whole fraction after : List Char}
    (h : (Piece.decimal whole fraction).Fits after) :
    Double.ofText? (whole ++ '.' :: fraction) =
      some (.ofDecimal false (Numeral.decimal whole fraction)) := by
  have hread := decimalOfText?_of_decimal h
  obtain ⟨c, rest, htext, hdigit⟩ := h.exists_digit_of_decimal
  -- a digit comes first, and none of the words for a double begins with one
  have hfirst : ∀ (d : Char) (others : List Char), d.isDigit = false →
      whole ++ '.' :: fraction ≠ d :: others := by
    rintro d others hd heq
    rw [Piece.spelling, heq] at htext
    rw [(List.cons.inj htext).1, hdigit] at hd
    cases hd
  rw [Double.ofText?.eq_def]
  split
  · next text heq => exact absurd heq (hfirst '-' text rfl)
  · rw [Double.ofUnsignedText?, hread, if_neg (hfirst 'n' _ rfl), if_neg (hfirst 'i' _ rfl)]
    rfl

theorem lexeme_of_integer {digits after : List Char} (h : (Piece.integer digits).Fits after)
    (hshort : digits.length ≤ digitLimit) :
    lexeme ⟨digits, none⟩ = .ok (.literal (.int (Text.ofDigits digits))) := by
  cases h with
  | integer hne =>
    obtain ⟨c, digits, rfl⟩ := List.exists_cons_of_ne_nil hne
    exact if_pos hshort

theorem lexeme_of_long_integer {digits after : List Char} (h : (Piece.integer digits).Fits after)
    (hlong : digitLimit < digits.length) :
    lexeme ⟨digits, none⟩ = .error (.literalTooLong digits.length) := by
  cases h with
  | integer hne =>
    obtain ⟨c, digits, rfl⟩ := List.exists_cons_of_ne_nil hne
    exact if_neg (Nat.not_le_of_lt hlong)

theorem lexeme_of_decimal {whole fraction after : List Char}
    (h : (Piece.decimal whole fraction).Fits after) :
    lexeme ⟨whole, some fraction⟩ =
      .ok (.literal (.float (.ofDecimal false (decimal whole fraction)))) := by
  cases h with
  | decimal hne =>
    obtain ⟨c, whole, rfl⟩ := List.exists_cons_of_ne_nil hne
    rfl

end Numeral

/-- A piece is a token, or stands between tokens, or is illegal. -/
theorem Piece.Fits.isSome_lexeme? {piece : Piece} {after : List Char} (h : piece.Fits after) :
    piece.lexeme?.isSome ∨ (∃ c, piece = .separator c) ∨ ∃ c, piece = .illegal c := by
  cases piece with
  | separator c => exact .inr (.inl ⟨c, rfl⟩)
  | illegal c => exact .inr (.inr ⟨c, rfl⟩)
  | symbol c kind => exact .inl rfl
  | integer digits => exact .inl rfl
  | decimal whole fraction =>
    rw [lexeme?, Numeral.ofText?_of_decimal h]
    exact .inl rfl

namespace Cursor

variable {found : List Token} {cursor : Cursor} {after : List Char}

theorem lexFrom_of_nil (hrest : cursor.rest = []) :
    lexFrom found cursor = (.ok { tokens := (cursor.finish :: found).reverse }, cursor) := by
  rw [lexFrom.eq_def]
  split
  · rfl
  · next h => rw [hrest] at h; cases h

theorem lexFrom_of_cons {c : Char} (hrest : cursor.rest = c :: after) :
    lexFrom found cursor =
      if isSeparator c then lexFrom found cursor.advance
      else if c.isDigit = true then
        match cursor.numeral with
        | (.ok token, after) => lexFrom (token :: found) after
        | (.error fault, after) => (.error fault, after)
      else
        match Kind.ofSymbol? c with
        | some kind => lexFrom (cursor.symbol kind :: found) cursor.advance
        | none =>
          (.ok { tokens := found.reverse, failure? := some (cursor.illegal cursor.advance c) },
            cursor.advance) := by
  rw [lexFrom.eq_def]
  split
  · next h => rw [hrest] at h; cases h
  · next h =>
    rw [hrest] at h
    obtain ⟨rfl, rfl⟩ := List.cons.inj h
    split
    · rfl
    · split
      · split <;> simp_all
      · rfl

theorem isSeparator_iff {c : Char} : isSeparator c = true ↔ c = ' ' ∨ c = '\t' := by
  simp [isSeparator]

theorem lexFrom_of_separator {c : Char} (hrest : cursor.rest = c :: after)
    (hfits : (Piece.separator c).Fits after) :
    lexFrom found cursor = lexFrom found cursor.advance := by
  cases hfits with
  | separator hc => rw [lexFrom_of_cons hrest, if_pos (isSeparator_iff.2 hc)]

theorem not_isSeparator_of_isDigit {c : Char} (h : c.isDigit = true) : ¬ isSeparator c = true := by
  intro hc
  rcases isSeparator_iff.1 hc with rfl | rfl <;> cases h

theorem lexFrom_of_symbol {c : Char} {kind : Kind} (hrest : cursor.rest = c :: after)
    (hfits : (Piece.symbol c kind).Fits after) :
    lexFrom found cursor = lexFrom (cursor.symbol kind :: found) cursor.advance := by
  cases hfits with
  | symbol hc =>
    obtain ⟨hseparator, hdigit, -⟩ := Kind.plain_of_ofSymbol? hc
    have hplain : ¬ isSeparator c = true := fun h ↦ not_or.2 hseparator (isSeparator_iff.1 h)
    rw [lexFrom_of_cons hrest, if_neg hplain, hdigit, hc]
    rfl

theorem lexFrom_of_illegal {c : Char} (hrest : cursor.rest = c :: after)
    (hfits : (Piece.illegal c).Fits after) :
    lexFrom found cursor =
      (.ok { tokens := found.reverse, failure? := some (cursor.illegal cursor.advance c) },
        cursor.advance) := by
  cases hfits with
  | illegal hseparator hdigit hsymbol =>
    have hplain : ¬ isSeparator c = true := fun h ↦ not_or.2 hseparator (isSeparator_iff.1 h)
    rw [lexFrom_of_cons hrest, if_neg hplain, hdigit, hsymbol]
    rfl

theorem numeral_eq {numeral : Numeral} (h : Numeral.ofText cursor.rest = numeral) :
    cursor.numeral =
      (numeral.lexeme.map fun lexeme ↦ ⟨lexeme, some cursor.position,
          some (cursor.advanceBy numeral.text.length).position⟩,
        cursor.advanceBy numeral.text.length) := by
  subst h
  rfl

end Cursor

/-! ### Where a piece stands -/

/-- The indices between which a stretch lies, if both ends are known. -/
def Extent.indices? (extent : Extent) : Option (Int × Int) :=
  extent.toSpan?.map fun span ↦ (span.start.index, span.stop.index)

/-- The extent has both ends, and covers so many characters from an index on. -/
def Extent.LiesAt (extent : Extent) (index length : Nat) : Prop :=
  extent.indices? = some ((index : Int), (index : Int) + length)

theorem Extent.LiesAt.isKnown {extent : Extent} {index length : Nat}
    (h : extent.LiesAt index length) : extent.IsKnown := by
  obtain ⟨start? | start, stop? | stop⟩ := extent
  case some.some => exact ⟨⟨start, stop⟩, rfl⟩
  all_goals cases h

/-- The token says what a piece spells and covers it, behind some characters of a text. -/
structure Token.Spells (token : Token) (before : List Char) (piece : Piece) : Prop where
  lexeme : piece.lexeme? = some token.lexeme
  extent : token.extent.LiesAt before.length piece.spelling.length

/-- The cursor is behind some characters of a text, with others still to be read. -/
structure Cursor.Parts (cursor : Cursor) (before after : List Char) : Prop where
  rest : cursor.rest = after
  index : cursor.position.index = before.length

theorem Source.parts_cursor (source : Source) : source.cursor.Parts [] source.text.toList :=
  ⟨rfl, rfl⟩

namespace Cursor

variable {cursor : Cursor} {before after : List Char} {piece : Piece} {c : Char}

theorem Parts.advanceBy (h : cursor.Parts before (piece.spelling ++ after)) :
    (cursor.advanceBy piece.spelling.length).Parts (before ++ piece.spelling) after where
  rest := by simp [h.rest]
  index := by simp [h.index]

theorem Parts.liesAt_finish (h : cursor.Parts before []) :
    cursor.finish.extent.LiesAt before.length 1 := by
  simp [Extent.LiesAt, Extent.indices?, finish, Span.single, h.index]

theorem Parts.liesAt_illegal (h : cursor.Parts before (c :: after)) :
    (cursor.illegal cursor.advance c).extent.LiesAt before.length 1 := by
  simp [Extent.LiesAt, Extent.indices?, Extent.toSpan?, illegal, advance, h.index]

/-- The token of a lexeme that is spelled by so many characters from the cursor on. -/
def token (cursor : Cursor) (lexeme : Lexeme) (length : Nat) : Token :=
  ⟨lexeme, some cursor.position, some (cursor.advanceBy length).position⟩

theorem Parts.spells_token {lexeme : Lexeme} (h : cursor.Parts before after)
    (hlexeme : piece.lexeme? = some lexeme) :
    (cursor.token lexeme piece.spelling.length).Spells before piece where
  lexeme := hlexeme
  extent := by simp [Extent.LiesAt, Extent.indices?, Extent.toSpan?, token, h.index]

/-- A character that is a token by itself is no newline, so that its token ends on its line. -/
theorem symbol_eq_token {kind : Kind} (hrest : cursor.rest = c :: after)
    (hsymbol : Kind.ofSymbol? c = some kind) :
    cursor.symbol kind = cursor.token (.ofKind kind) 1 := by
  have hc : c ≠ '\n' := by
    rintro rfl
    cases hsymbol
  have hstop : cursor.advance.position = cursor.position.advance none := by
    simp [advance, Position.advance, current?, hrest, hc]
  rw [symbol, token, advanceBy, advanceBy, hstop]
  rfl

/-- A numeral is taken as the token of its lexeme. -/
theorem lexFrom_of_numeral {found : List Token} {numeral : Numeral} {lexeme : Lexeme}
    (hrest : cursor.rest = piece.spelling ++ after)
    (hdigit : ∃ c rest, piece.spelling ++ after = c :: rest ∧ c.isDigit = true)
    (hnumeral : Numeral.ofText (piece.spelling ++ after) = numeral)
    (htext : numeral.text = piece.spelling) (hlexeme : numeral.lexeme = .ok lexeme) :
    lexFrom found cursor =
      lexFrom (cursor.token lexeme piece.spelling.length :: found)
        (cursor.advanceBy piece.spelling.length) := by
  obtain ⟨c, rest, hc, hdigit⟩ := hdigit
  rw [lexFrom_of_cons (hrest.trans hc), if_neg (not_isSeparator_of_isDigit hdigit), if_pos hdigit,
    numeral_eq (hrest ▸ hnumeral), htext, hlexeme]
  rfl

/-- **Lexing takes a piece that is a token as that token**, at its place. -/
theorem lexFrom_of_lexeme (found : List Token) {lexeme : Lexeme}
    (hrest : cursor.rest = piece.spelling ++ after) (hfits : piece.Fits after)
    (hlexeme : piece.lexeme? = some lexeme) (hshort : piece.IsShort) :
    lexFrom found cursor =
      lexFrom (cursor.token lexeme piece.spelling.length :: found)
        (cursor.advanceBy piece.spelling.length) := by
  cases piece with
  | separator c => cases hlexeme
  | illegal c => cases hlexeme
  | symbol c kind =>
    obtain rfl := Option.some.inj hlexeme
    rw [lexFrom_of_symbol hrest hfits]
    cases hfits with
    | symbol hc =>
      rw [symbol_eq_token hrest hc]
      rfl
  | integer digits =>
    obtain rfl := Option.some.inj hlexeme
    exact lexFrom_of_numeral hrest hfits.exists_digit_of_integer
      (Numeral.ofText_of_integer hfits) (List.append_nil digits)
      (Numeral.lexeme_of_integer hfits hshort)
  | decimal whole fraction =>
    rw [Piece.lexeme?, Numeral.ofText?_of_decimal hfits] at hlexeme
    obtain rfl := Option.some.inj hlexeme
    exact lexFrom_of_numeral hrest hfits.exists_digit_of_decimal
      (Numeral.ofText_of_decimal hfits) rfl (Numeral.lexeme_of_decimal hfits)

/-- **Lexing is given up at an integer that is too long.** -/
theorem lexFrom_of_long (found : List Token) {digits : List Char}
    (hrest : cursor.rest = digits ++ after) (hfits : (Piece.integer digits).Fits after)
    (hlong : digitLimit < digits.length) :
    (lexFrom found cursor).1 = .error (.literalTooLong digits.length) := by
  obtain ⟨c, rest, hc, hdigit⟩ := hfits.exists_digit_of_integer
  rw [lexFrom_of_cons (hrest.trans hc), if_neg (not_isSeparator_of_isDigit hdigit), if_pos hdigit,
    numeral_eq (hrest ▸ Numeral.ofText_of_integer hfits),
    Numeral.lexeme_of_long_integer hfits hlong]
  rfl

end Cursor

end Calculator
