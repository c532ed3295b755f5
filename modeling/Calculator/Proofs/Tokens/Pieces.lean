import Calculator.Token.Lexer

/-!
# The pieces of a text

How a text falls into the pieces that lexing is measured against: separators, the characters that
are tokens by themselves, integers, decimals, and characters that begin nothing. `Piece.Fits` says
of a piece how it is spelled and what may not follow it, so that a numeral is as long as it can be.
`Splits` puts pieces one behind the other until the text is used up. Nothing here looks for the end
of a numeral: that is what the conditions on the text behind it are for.

Every text splits (`exists_splits`). A point belongs to a numeral only if digits stand in front of
it and no other point belongs to the same numeral, so the second point of `1.2.3` is a piece by
itself, and the digits behind it are an integer.
-/

namespace Calculator

/-- A character that is a token by itself neither separates tokens nor begins a numeral, and its
token is no literal and not that for the end of the text. -/
theorem Kind.plain_of_ofSymbol? {c : Char} {kind : Kind} (h : ofSymbol? c = some kind) :
    (c ≠ ' ' ∧ c ≠ '\t') ∧ c.isDigit = false ∧ kind ≠ .int ∧ kind ≠ .float ∧ kind ≠ .eof := by
  rw [ofSymbol?.eq_def] at h
  split at h <;> first | (obtain rfl := Option.some.inj h; decide) | cases h

/-- What lexing takes of a text at once. -/
inductive Piece where
  /-- A character between tokens. -/
  | separator (c : Char)
  /-- A character that is a token by itself. -/
  | symbol (c : Char) (kind : Kind)
  /-- A numeral without a point. -/
  | integer (digits : List Char)
  /-- A numeral with a point. -/
  | decimal (whole fraction : List Char)
  /-- A character that begins no token. -/
  | illegal (c : Char)

namespace Piece

/-- The characters of a piece. -/
def spelling : Piece → List Char
  | separator c => [c]
  | symbol c _ => [c]
  | integer digits => digits
  | decimal whole fraction => whole ++ '.' :: fraction
  | illegal c => [c]

/-- The lexeme that a piece is read as, if it is a token. -/
def lexeme? : Piece → Option Lexeme
  | symbol _ kind => some (.ofKind kind)
  | integer digits => some (.literal (.int (Text.ofDigits digits)))
  | decimal whole fraction =>
    (Double.ofText? (whole ++ '.' :: fraction)).map fun x ↦ .literal (.float x)
  | separator _ => none
  | illegal _ => none

/-- The piece is spelled like one of its kind, and goes as far as it can in front of a text. -/
inductive Fits : Piece → List Char → Prop where
  | separator {c : Char} {after : List Char} (hc : c = ' ' ∨ c = '\t') : Fits (separator c) after
  | symbol {c : Char} {kind : Kind} {after : List Char} (hc : Kind.ofSymbol? c = some kind) :
    Fits (symbol c kind) after
  | integer {digits after : List Char} (hne : digits ≠ [])
      (hdigits : ∀ c ∈ digits, c.isDigit = true)
      (hends : ∀ c, after.head? = some c → c.isDigit = false ∧ c ≠ '.') :
    Fits (integer digits) after
  | decimal {whole fraction after : List Char} (hne : whole ≠ [])
      (hwhole : ∀ c ∈ whole, c.isDigit = true) (hfraction : ∀ c ∈ fraction, c.isDigit = true)
      (hends : ∀ c, after.head? = some c → c.isDigit = false) :
    Fits (decimal whole fraction) after
  | illegal {c : Char} {after : List Char} (hseparator : c ≠ ' ' ∧ c ≠ '\t')
      (hdigit : c.isDigit = false) (hsymbol : Kind.ofSymbol? c = none) :
    Fits (illegal c) after

theorem Fits.spelling_ne_nil {piece : Piece} {after : List Char} (h : piece.Fits after) :
    piece.spelling ≠ [] := by
  cases h with
  | integer hne => exact hne
  | decimal hne => exact List.append_ne_nil_of_left_ne_nil hne _
  | _ => exact List.cons_ne_nil _ _

/-- No numeral goes on with a separator. -/
theorem ends_of_separator {c : Char} (h : c = ' ' ∨ c = '\t') : c.isDigit = false ∧ c ≠ '.' := by
  rcases h with rfl | rfl <;> decide

theorem ne_separator_of_isDigit {c : Char} (h : c.isDigit = true) : c ≠ ' ' ∧ c ≠ '\t' := by
  refine ⟨?_, ?_⟩ <;> rintro rfl <;> cases h

/-- Only a separator has a separator in it. -/
theorem Fits.not_separator {piece : Piece} {after : List Char} (h : piece.Fits after)
    (hpiece : ∀ c, piece ≠ .separator c) : ∀ c ∈ piece.spelling, c ≠ ' ' ∧ c ≠ '\t' := by
  intro c hc
  cases h with
  | separator => exact absurd rfl (hpiece _)
  | symbol hsymbol =>
    obtain rfl := List.mem_singleton.1 hc
    exact (Kind.plain_of_ofSymbol? hsymbol).1
  | integer _ hdigits => exact ne_separator_of_isDigit (hdigits c hc)
  | decimal _ hwhole hfraction =>
    rcases List.mem_append.1 hc with hc | hc
    · exact ne_separator_of_isDigit (hwhole c hc)
    · rcases List.mem_cons.1 hc with rfl | hc
      · exact ⟨by decide, by decide⟩
      · exact ne_separator_of_isDigit (hfraction c hc)
  | illegal hseparator =>
    obtain rfl := List.mem_singleton.1 hc
    exact hseparator

/-- What fits in front of a text fits in front of another that begins alike, or with a character
that no numeral goes on with. -/
theorem Fits.of_head? {piece : Piece} {after other : List Char} (h : piece.Fits after)
    (hhead : ∀ c, other.head? = some c → after.head? = some c ∨ c.isDigit = false ∧ c ≠ '.') :
    piece.Fits other := by
  cases h with
  | separator hc => exact .separator hc
  | symbol hc => exact .symbol hc
  | illegal hseparator hdigit hsymbol => exact .illegal hseparator hdigit hsymbol
  | integer hne hdigits hends =>
    exact .integer hne hdigits fun c hc ↦ (hhead c hc).elim (hends c) id
  | decimal hne hwhole hfraction hends =>
    exact .decimal hne hwhole hfraction fun c hc ↦ (hhead c hc).elim (hends c) And.left

/-- A piece that does not end like a numeral fits in front of every text. -/
theorem Fits.of_getLast? {piece : Piece} {after : List Char} (h : piece.Fits after)
    (hends : ∀ c, piece.spelling.getLast? = some c → c.isDigit = false ∧ c ≠ '.')
    (other : List Char) : piece.Fits other := by
  cases h with
  | separator hc => exact .separator hc
  | symbol hc => exact .symbol hc
  | illegal hseparator hdigit hsymbol => exact .illegal hseparator hdigit hsymbol
  | @integer digits _ hne hdigits _ =>
    have hlast := hends _ (List.getLast?_eq_some_getLast hne)
    exact absurd (hdigits _ (List.getLast_mem hne)) (by simp [hlast.1])
  | @decimal whole fraction _ hne hwhole hfraction _ =>
    have hpoint : (whole ++ '.' :: fraction).getLast? = ('.' :: fraction).getLast? := by
      rw [List.getLast?_append, List.getLast?_cons]
      rfl
    have hlast := hends _
      (hpoint.trans (List.getLast?_eq_some_getLast (List.cons_ne_nil '.' fraction)))
    rcases List.mem_cons.1 (List.getLast_mem (List.cons_ne_nil '.' fraction)) with hdot | hmem
    · exact absurd hdot hlast.2
    · exact absurd (hfraction _ hmem) (by simp [hlast.1])

/-- A piece in front of a digit does not end like a numeral. -/
theorem Fits.getLast?_of_digit {piece : Piece} {after : List Char} {d : Char}
    (h : piece.Fits after) (hlegal : ∀ c, piece ≠ .illegal c) (hhead : after.head? = some d)
    (hdigit : d.isDigit = true) :
    ∀ c, piece.spelling.getLast? = some c → c.isDigit = false ∧ c ≠ '.' := by
  intro c hc
  cases h with
  | separator hseparator =>
    obtain rfl := Option.some.inj hc
    exact ends_of_separator hseparator
  | symbol hsymbol =>
    obtain rfl := Option.some.inj hc
    refine ⟨(Kind.plain_of_ofSymbol? hsymbol).2.1, ?_⟩
    rintro rfl
    cases hsymbol
  | illegal => exact absurd rfl (hlegal _)
  | integer _ _ hends => exact absurd hdigit (by simp [hends d hhead])
  | decimal _ _ _ hends => exact absurd hdigit (by simp [hends d hhead])

end Piece

/-- The pieces of a text, in order. -/
inductive Splits : List Char → List Piece → Prop where
  | nil : Splits [] []
  | cons {piece : Piece} {after : List Char} {pieces : List Piece} (hfits : piece.Fits after)
      (hafter : Splits after pieces) : Splits (piece.spelling ++ after) (piece :: pieces)

theorem Splits.of_cons {text : List Char} {piece : Piece} {pieces : List Piece}
    (h : Splits text (piece :: pieces)) :
    ∃ after, text = piece.spelling ++ after ∧ piece.Fits after ∧ Splits after pieces := by
  cases h with
  | cons hfits hafter => exact ⟨_, rfl, hfits, hafter⟩

/-- Every piece of a text fits in front of what is behind it. -/
theorem Splits.exists_fits {text : List Char} {pieces : List Piece} (h : Splits text pieces) :
    ∀ piece ∈ pieces, ∃ after, piece.Fits after := by
  induction h with
  | nil => exact fun _ h ↦ absurd h List.not_mem_nil
  | cons hfits _ ih => exact List.forall_mem_cons.2 ⟨⟨_, hfits⟩, ih⟩

/-- A text is spelled by its pieces. -/
theorem Splits.text_eq {text : List Char} {pieces : List Piece} (h : Splits text pieces) :
    text = pieces.flatMap Piece.spelling := by
  induction h with
  | nil => rfl
  | cons _ _ ih => rw [List.flatMap_cons, ← ih]

/-- The pieces of a text and those of a text behind it, unless a numeral may go on from one to the
other. -/
theorem Splits.append {text rest : List Char} {pieces later : List Piece} (h : Splits text pieces)
    (hrest : Splits rest later)
    (hends : ∀ c, text.getLast? = some c → c.isDigit = false ∧ c ≠ '.') :
    Splits (text ++ rest) (pieces ++ later) := by
  induction h with
  | nil => exact hrest
  | @cons piece after pieces hfits hafter ih =>
    rw [List.append_assoc]
    refine .cons ?_ (ih fun c hc ↦ hends c (by rw [List.getLast?_append, hc]; rfl))
    cases after with
    | nil => exact hfits.of_getLast? (by simpa using hends) rest
    | cons d after => exact hfits.of_head? fun c hc ↦ .inl hc

/-- The first pieces of a text are the pieces of the text in front of the others. -/
theorem Splits.of_append {text : List Char} {pieces later : List Piece}
    (h : Splits text (pieces ++ later)) : Splits (pieces.flatMap Piece.spelling) pieces := by
  induction pieces generalizing text with
  | nil => exact .nil
  | cons piece pieces ih =>
    rw [List.cons_append] at h
    obtain ⟨after, -, hfits, hafter⟩ := h.of_cons
    have hsplits := ih hafter
    have htext := hafter.text_eq
    rw [List.flatMap_append] at htext
    rw [List.flatMap_cons]
    refine .cons (hfits.of_head? fun c hc ↦ .inl ?_) hsplits
    rw [htext, List.head?_append, hc]
    rfl

/-- Legal pieces in front of a digit do not end like a numeral. -/
theorem Splits.getLast?_of_digit {text : List Char} {pieces later : List Piece} {d : Char}
    (h : Splits text (pieces ++ later)) (hlegal : ∀ piece ∈ pieces, ∀ c, piece ≠ .illegal c)
    (hhead : (later.flatMap Piece.spelling).head? = some d) (hdigit : d.isDigit = true) :
    ∀ c, (pieces.flatMap Piece.spelling).getLast? = some c → c.isDigit = false ∧ c ≠ '.' := by
  induction pieces generalizing text with
  | nil => rintro c ⟨⟩
  | cons piece pieces ih =>
    rw [List.cons_append] at h
    obtain ⟨after, -, hfits, hafter⟩ := h.of_cons
    obtain ⟨hpiece, hothers⟩ := List.forall_mem_cons.1 hlegal
    intro c hc
    rw [List.flatMap_cons, List.getLast?_append] at hc
    rcases hlast : (pieces.flatMap Piece.spelling).getLast? with - | last
    · rw [hlast] at hc
      refine hfits.getLast?_of_digit hpiece ?_ hdigit c hc
      rw [hafter.text_eq, List.flatMap_append, List.getLast?_eq_none_iff.1 hlast]
      exact hhead
    · rw [hlast] at hc
      exact ih hafter hothers c (hlast.trans hc)

/-- An integer is spelled with no more digits than are read. Nothing else has to be short. -/
def Piece.IsShort : Piece → Prop
  | integer digits => digits.length ≤ digitLimit
  | _ => True

/-- No integer of the text is spelled with more digits than are read. -/
def HasShortIntegers (text : List Char) : Prop :=
  ∀ pieces, Splits text pieces → ∀ piece ∈ pieces, piece.IsShort

/-! ### Runs of digits -/

section Digits

variable {p : Char → Bool} {run after : List Char}

/-- A run is as long as it can be if it ends at the end of the text or at another character. -/
theorem takeWhile_append_of_ends (hrun : ∀ c ∈ run, p c = true)
    (hends : ∀ c, after.head? = some c → p c = false) : (run ++ after).takeWhile p = run := by
  rw [List.takeWhile_append_of_pos hrun]
  cases after with
  | nil => rw [List.takeWhile_nil, List.append_nil]
  | cons c after => rw [List.takeWhile_cons_of_neg (by simp [hends c rfl]), List.append_nil]

theorem dropWhile_append_of_ends (hrun : ∀ c ∈ run, p c = true)
    (hends : ∀ c, after.head? = some c → p c = false) : (run ++ after).dropWhile p = after := by
  rw [List.dropWhile_append_of_pos hrun]
  cases after with
  | nil => rfl
  | cons c after => rw [List.dropWhile_cons_of_neg (by simp [hends c rfl])]

/-- The end of a run can be seen from what follows it. -/
theorem append_inj_of_ends {run' after' : List Char} (hrun : ∀ c ∈ run, p c = true)
    (hrun' : ∀ c ∈ run', p c = true) (hends : ∀ c, after.head? = some c → p c = false)
    (hends' : ∀ c, after'.head? = some c → p c = false) (heq : run ++ after = run' ++ after') :
    run = run' ∧ after = after' := by
  have hbefore := congrArg (List.takeWhile p) heq
  have hbehind := congrArg (List.dropWhile p) heq
  rw [takeWhile_append_of_ends hrun hends, takeWhile_append_of_ends hrun' hends'] at hbefore
  rw [dropWhile_append_of_ends hrun hends, dropWhile_append_of_ends hrun' hends'] at hbehind
  exact ⟨hbefore, hbehind⟩

theorem exists_append_eq_cons (hne : run ≠ []) (hrun : ∀ c ∈ run, p c = true) (after : List Char) :
    ∃ c rest, run ++ after = c :: rest ∧ p c = true := by
  obtain ⟨c, rest, rfl⟩ := List.exists_cons_of_ne_nil hne
  exact ⟨c, rest ++ after, rfl, hrun c List.mem_cons_self⟩

theorem head?_dropWhile_eq_false (p : Char → Bool) (text : List Char) {c : Char}
    (h : (text.dropWhile p).head? = some c) : p c = false := by
  have hnot := List.head?_dropWhile_not p text
  rw [h] at hnot
  exact hnot

end Digits

theorem isDigit_of_mem_takeWhile {text : List Char} :
    ∀ c ∈ text.takeWhile Char.isDigit, c.isDigit = true :=
  List.all_eq_true.1 List.all_takeWhile

/-- A digit begins a numeral, which takes the digits and perhaps a point and more digits. -/
theorem exists_numeral {c : Char} (hc : c.isDigit = true) (rest : List Char) :
    ∃ (piece : Piece) (after : List Char),
      c :: rest = piece.spelling ++ after ∧ piece.Fits after := by
  have hne : (c :: rest).takeWhile Char.isDigit ≠ [] := by simp [hc]
  have hsplit := @List.takeWhile_append_dropWhile _ Char.isDigit (c :: rest)
  by_cases hpoint : ∃ tail, (c :: rest).dropWhile Char.isDigit = '.' :: tail
  · obtain ⟨tail, htail⟩ := hpoint
    refine ⟨.decimal _ (tail.takeWhile Char.isDigit), tail.dropWhile Char.isDigit, ?_,
      .decimal hne isDigit_of_mem_takeWhile isDigit_of_mem_takeWhile
        fun _ ↦ head?_dropWhile_eq_false Char.isDigit tail⟩
    rw [Piece.spelling, List.append_assoc, List.cons_append, List.takeWhile_append_dropWhile,
      ← htail, hsplit]
  · refine ⟨.integer ((c :: rest).takeWhile Char.isDigit), (c :: rest).dropWhile Char.isDigit,
      hsplit.symm, .integer hne isDigit_of_mem_takeWhile fun d hd ↦ ?_⟩
    refine ⟨head?_dropWhile_eq_false _ _ hd, ?_⟩
    rintro rfl
    obtain ⟨tail, htail⟩ := List.head?_eq_some_iff.1 hd
    exact hpoint ⟨tail, htail⟩

/-- A first piece can be taken of every text. -/
theorem exists_piece (c : Char) (rest : List Char) :
    ∃ (piece : Piece) (after : List Char),
      c :: rest = piece.spelling ++ after ∧ piece.Fits after := by
  by_cases hseparator : c = ' ' ∨ c = '\t'
  · exact ⟨.separator c, rest, rfl, .separator hseparator⟩
  by_cases hdigit : c.isDigit = true
  · exact exists_numeral hdigit rest
  rcases hsymbol : Kind.ofSymbol? c with - | kind
  · exact ⟨.illegal c, rest, rfl, .illegal (not_or.1 hseparator) (by simpa using hdigit) hsymbol⟩
  · exact ⟨.symbol c kind, rest, rfl, .symbol hsymbol⟩

/-- **Every text splits into pieces.** -/
theorem exists_splits (text : List Char) : ∃ pieces, Splits text pieces := by
  -- a piece has a character at least, so that what is behind it is shorter
  induction hlength : text.length using Nat.strongRecOn generalizing text with
  | ind length ih =>
    cases text with
    | nil => exact ⟨[], .nil⟩
    | cons c rest =>
      obtain ⟨piece, after, hpiece, hfits⟩ := exists_piece c rest
      have hpos := List.length_pos_iff.2 hfits.spelling_ne_nil
      rw [hpiece, List.length_append] at hlength
      obtain ⟨pieces, hpieces⟩ := ih after.length (by omega) after rfl
      rw [hpiece]
      exact ⟨piece :: pieces, .cons hfits hpieces⟩

theorem Splits.length_spelling_le {text : List Char} {pieces : List Piece}
    (h : Splits text pieces) : ∀ piece ∈ pieces, piece.spelling.length ≤ text.length := by
  induction h with
  | nil => exact fun _ h ↦ absurd h List.not_mem_nil
  | cons _ _ ih =>
    intro other hother
    rw [List.length_append]
    rcases List.mem_cons.1 hother with rfl | hother
    · exact Nat.le_add_right _ _
    · exact Nat.le_trans (ih other hother) (Nat.le_add_left _ _)

/-- A text that is not longer than an integer may be has no integer that is longer. -/
theorem hasShortIntegers_of_length_le {text : List Char} (h : text.length ≤ digitLimit) :
    HasShortIntegers text := by
  intro pieces hsplits piece hpiece
  cases piece with
  | integer digits => exact Nat.le_trans (hsplits.length_spelling_le _ hpiece) h
  | _ => trivial

end Calculator
