import Calculator.Proofs.Tokens.Coverage

/-!
# Where lexing ends

Lexing a source passes over pieces of the text up to the first that ends it, with the tokens that
the pieces are (`Cursor.tokens`). There are three ways to end (`Source.exists_pieces`): an integer
that is too long, at which lexing is given up; a character that begins no token, which is a failure;
and the end of the text. Which of them it is depends on the pieces alone, so that what stands behind
the first of the two obstacles never matters, and neither does the length of an integer behind an
illegal character.
-/

namespace Calculator

/-- Lexing goes on behind the piece. -/
def Piece.IsPassed (piece : Piece) : Prop := piece.IsShort ∧ ∀ c, piece ≠ .illegal c

/-- Pieces are all passed, or there is a first one that is not. -/
theorem exists_first_not_isPassed (pieces : List Piece) :
    (∀ piece ∈ pieces, piece.IsPassed) ∨ ∃ passed piece later, pieces = passed ++ piece :: later ∧
      (∀ other ∈ passed, other.IsPassed) ∧ ¬ piece.IsPassed := by
  induction pieces with
  | nil => exact .inl fun _ h ↦ absurd h List.not_mem_nil
  | cons piece pieces ih =>
    by_cases hpiece : piece.IsPassed
    · rcases ih with hall | ⟨passed, stop, later, rfl, hpassed, hstop⟩
      · exact .inl (List.forall_mem_cons.2 ⟨hpiece, hall⟩)
      · exact .inr ⟨piece :: passed, stop, later, rfl, List.forall_mem_cons.2 ⟨hpiece, hpassed⟩,
          hstop⟩
    · exact .inr ⟨[], piece, pieces, rfl, fun _ h ↦ absurd h List.not_mem_nil, hpiece⟩

/-- What is not passed is an integer that is too long, or is illegal. -/
theorem Piece.not_isPassed {piece : Piece} (h : ¬ piece.IsPassed) :
    (∃ digits, piece = .integer digits ∧ digitLimit < digits.length) ∨ ∃ c, piece = .illegal c := by
  cases piece with
  | illegal c => exact .inr ⟨c, rfl⟩
  | integer digits =>
    exact .inl ⟨digits, rfl, Nat.lt_of_not_le fun hle ↦ h ⟨hle, fun c ↦ Piece.noConfusion⟩⟩
  | _ => exact absurd ⟨trivial, fun c ↦ Piece.noConfusion⟩ h

/-- In front of the first illegal character of the text stands an integer with so many digits, more
than are read, and no such integer in front of it. -/
def HasLongInteger (text : List Char) (length : Nat) : Prop :=
  ∃ passed digits later, Splits text (passed ++ .integer digits :: later) ∧
    (∀ piece ∈ passed, piece.IsPassed) ∧ digitLimit < digits.length ∧ length = digits.length

namespace Cursor

variable {cursor : Cursor} {before rest : List Char} {passed later : List Piece}

/-- The cursor behind pieces. -/
def behind (cursor : Cursor) (pieces : List Piece) : Cursor :=
  cursor.advanceBy (pieces.flatMap Piece.spelling).length

/-- The tokens that pieces are, from the cursor on. -/
def tokens (cursor : Cursor) : List Piece → List Token
  | [] => []
  | piece :: pieces =>
    (piece.lexeme?.map fun lexeme ↦ cursor.token lexeme piece.spelling.length).toList ++
      (cursor.advanceBy piece.spelling.length).tokens pieces

theorem behind_cons (piece : Piece) (pieces : List Piece) :
    cursor.behind (piece :: pieces) = (cursor.advanceBy piece.spelling.length).behind pieces := by
  rw [behind, List.flatMap_cons, List.length_append, advanceBy_add, behind]

/-- A piece that is passed is a token, or nothing. -/
theorem lexFrom_of_isPassed (found : List Token) {piece : Piece} {after : List Char}
    (hrest : cursor.rest = piece.spelling ++ after) (hfits : piece.Fits after)
    (hpassed : piece.IsPassed) :
    lexFrom found cursor =
      lexFrom ((piece.lexeme?.map fun lexeme ↦ cursor.token lexeme piece.spelling.length).toList ++
        found) (cursor.advanceBy piece.spelling.length) := by
  rcases hfits.isSome_lexeme? with htoken | ⟨c, rfl⟩ | ⟨c, rfl⟩
  · obtain ⟨lexeme, hlexeme⟩ := Option.isSome_iff_exists.1 htoken
    rw [hlexeme, lexFrom_of_lexeme found hrest hfits hlexeme hpassed.1]
    rfl
  · exact lexFrom_of_separator hrest hfits
  · exact absurd rfl (hpassed.2 c)

/-- **Lexing goes on behind pieces that are passed**, with the tokens that they are. -/
theorem lexFrom_of_forall_isPassed (hsplits : Splits rest (passed ++ later))
    (hpassed : ∀ piece ∈ passed, piece.IsPassed) :
    ∀ (found : List Token) (cursor : Cursor), cursor.rest = rest →
      Splits (cursor.behind passed).rest later ∧
        lexFrom found cursor =
          lexFrom ((cursor.tokens passed).reverse ++ found) (cursor.behind passed) := by
  induction passed generalizing rest with
  | nil =>
    rintro found cursor rfl
    exact ⟨hsplits, rfl⟩
  | cons piece passed ih =>
    intro found cursor hrest
    obtain ⟨hpiece, hothers⟩ := List.forall_mem_cons.1 hpassed
    cases hsplits with
    | @cons _ after _ hfits hafter =>
      have hnext : (cursor.advanceBy piece.spelling.length).rest = after := by simp [hrest]
      obtain ⟨hleft, hlex⟩ := ih hafter hothers
        ((piece.lexeme?.map fun lexeme ↦ cursor.token lexeme piece.spelling.length).toList ++
          found) _ hnext
      rw [behind_cons]
      refine ⟨hleft, ?_⟩
      rw [lexFrom_of_isPassed found hrest hfits hpiece, hlex, tokens, List.reverse_append,
        List.append_assoc]
      congr 2
      cases piece.lexeme? <;> rfl

/-- The tokens of pieces stand in the text. -/
theorem standsIn_of_mem_tokens (hsplits : Splits rest (passed ++ later)) :
    ∀ (before : List Char) (cursor : Cursor), cursor.Parts before rest →
      ∀ token ∈ cursor.tokens passed, token.StandsIn (before ++ rest) := by
  induction passed generalizing rest with
  | nil => exact fun _ _ _ _ h ↦ absurd h List.not_mem_nil
  | cons piece passed ih =>
    intro before cursor hparts
    cases hsplits with
    | @cons _ after _ hfits hafter =>
      refine List.forall_mem_append.2 ⟨fun token htoken ↦ ?_, ?_⟩
      · obtain ⟨lexeme, hlexeme, rfl⟩ : ∃ lexeme, piece.lexeme? = some lexeme ∧
            cursor.token lexeme piece.spelling.length = token := by
          simpa using htoken
        rw [← List.append_assoc]
        exact (hparts.spells_token hlexeme).standsIn hfits
      · rw [← List.append_assoc]
        exact ih hafter _ _ hparts.advanceBy

/-- The tokens of pieces say what the pieces say. -/
theorem map_lexeme_tokens (cursor : Cursor) (pieces : List Piece) :
    (cursor.tokens pieces).map Token.lexeme = pieces.filterMap Piece.lexeme? := by
  induction pieces generalizing cursor with
  | nil => rfl
  | cons piece pieces ih =>
    rw [tokens, List.map_append, ih, List.filterMap_cons]
    cases piece.lexeme? <;> rfl

end Cursor

namespace Source

variable {source : Source} {passed later pieces : List Piece}

/-- Pieces that are passed first bring lexing to what stands behind them. -/
theorem lex_of_forall_isPassed (hsplits : Splits source.text.toList (passed ++ later))
    (hpassed : ∀ piece ∈ passed, piece.IsPassed) :
    Splits (source.cursor.behind passed).rest later ∧
      source.lex =
        ((source.cursor.behind passed).lexFrom (source.cursor.tokens passed).reverse).1 := by
  obtain ⟨hleft, hlex⟩ :=
    Cursor.lexFrom_of_forall_isPassed hsplits hpassed [] source.cursor rfl
  refine ⟨hleft, ?_⟩
  rw [Source.lex, Cursor.lex, hlex, List.append_nil]

/-- The cursor behind pieces parts the text there. -/
theorem parts_behind (source : Source) (hsplits : Splits source.text.toList (passed ++ later)) :
    source.text.toList =
        passed.flatMap Piece.spelling ++ (source.cursor.behind passed).rest ∧
      (source.cursor.behind passed).Parts (passed.flatMap Piece.spelling)
        (source.cursor.behind passed).rest := by
  have htext := hsplits.text_eq
  rw [List.flatMap_append] at htext
  have hrest : (source.cursor.behind passed).rest = later.flatMap Piece.spelling := by
    rw [Cursor.behind, Cursor.rest_advanceBy, Source.cursor, htext, List.drop_left]
  refine ⟨hrest ▸ htext, rfl, ?_⟩
  rw [Cursor.behind, Cursor.index_position_advanceBy]
  exact Int.zero_add _

theorem lex_of_hasLongInteger {length : Nat} (h : HasLongInteger source.text.toList length) :
    source.lex = .error (.literalTooLong length) := by
  obtain ⟨passed, digits, later, hsplits, hpassed, hlong, rfl⟩ := h
  obtain ⟨hleft, hlex⟩ := lex_of_forall_isPassed hsplits hpassed
  obtain ⟨after, hrest, hfits, -⟩ := hleft.of_cons
  exact hlex.trans (Cursor.lexFrom_of_long _ hrest hfits hlong)

/-- A text whose pieces are all passed consists of their tokens. -/
theorem lex_of_splits (hsplits : Splits source.text.toList pieces)
    (hpassed : ∀ piece ∈ pieces, piece.IsPassed) :
    source.lex =
      .ok { tokens := source.cursor.tokens pieces ++ [(source.cursor.behind pieces).finish] } := by
  rw [← List.append_nil pieces] at hsplits
  obtain ⟨hleft, hlex⟩ := lex_of_forall_isPassed hsplits hpassed
  rw [hlex, Cursor.lexFrom_of_nil hleft.text_eq, List.reverse_cons, List.reverse_reverse]

/-- Lexing ends at the first illegal character, with the tokens in front of it. -/
theorem lex_of_illegal {c : Char}
    (hsplits : Splits source.text.toList (passed ++ .illegal c :: later))
    (hpassed : ∀ piece ∈ passed, piece.IsPassed) :
    source.lex =
      .ok { tokens := source.cursor.tokens passed,
            failure? := some ((source.cursor.behind passed).illegal
              (source.cursor.behind passed).advance c) } := by
  obtain ⟨hleft, hlex⟩ := lex_of_forall_isPassed hsplits hpassed
  obtain ⟨after, hrest, hfits, -⟩ := hleft.of_cons
  rw [hlex, Cursor.lexFrom_of_illegal hrest hfits, List.reverse_reverse]

/-- **How lexing ends** is decided by the first piece that is not passed, if there is one. -/
theorem exists_pieces (source : Source) :
    (∃ length, HasLongInteger source.text.toList length) ∨
      (∃ passed c later, Splits source.text.toList (passed ++ .illegal c :: later) ∧
        ∀ piece ∈ passed, piece.IsPassed) ∨
      ∃ pieces, Splits source.text.toList pieces ∧ ∀ piece ∈ pieces, piece.IsPassed := by
  obtain ⟨pieces, hsplits⟩ := exists_splits source.text.toList
  rcases exists_first_not_isPassed pieces with hall | ⟨passed, piece, later, rfl, hpassed, hstop⟩
  · exact .inr (.inr ⟨pieces, hsplits, hall⟩)
  · rcases Piece.not_isPassed hstop with ⟨digits, rfl, hlong⟩ | ⟨c, rfl⟩
    · exact .inl ⟨digits.length, passed, digits, later, hsplits, hpassed, hlong, rfl⟩
    · exact .inr (.inl ⟨passed, c, later, hsplits, hpassed⟩)

/-- **Lexing a source** is given up at an integer that is too long, or ends with a failure at an
illegal character, or finds tokens of the text up to its end. -/
theorem lex_cases (source : Source) :
    (∃ length, HasLongInteger source.text.toList length ∧
        source.lex = .error (.literalTooLong length)) ∨
      (∃ tokens failure, failure.StandsIn source.text.toList ∧
        source.lex = .ok { tokens, failure? := some failure }) ∨
      ∃ body stop, (∀ token ∈ body, token.StandsIn source.text.toList) ∧
        stop.lexeme = .ofKind .eof ∧ stop.extent.LiesAt source.text.toList.length 1 ∧
        source.lex = .ok { tokens := body ++ [stop] } := by
  rcases source.exists_pieces with ⟨length, hlong⟩ | ⟨passed, c, later, hsplits, hpassed⟩ |
    ⟨pieces, hsplits, hpassed⟩
  · exact .inl ⟨length, hlong, lex_of_hasLongInteger hlong⟩
  · refine .inr (.inl ⟨_, _, ?_, lex_of_illegal hsplits hpassed⟩)
    obtain ⟨after, hafter, hfits, -⟩ := (lex_of_forall_isPassed hsplits hpassed).1.of_cons
    obtain ⟨htext, hparts⟩ := source.parts_behind hsplits
    rw [hafter] at htext hparts
    rw [htext]
    exact Failure.standsIn_of_illegal hfits rfl hparts.liesAt_illegal
  · have hlex := lex_of_splits hsplits hpassed
    rw [← List.append_nil pieces] at hsplits
    have hrest := (lex_of_forall_isPassed hsplits hpassed).1.text_eq
    obtain ⟨htext, hparts⟩ := source.parts_behind hsplits
    rw [hrest] at htext hparts
    rw [List.flatMap_nil, List.append_nil] at htext
    refine .inr (.inr ⟨_, _, Cursor.standsIn_of_mem_tokens hsplits [] _ source.parts_cursor, rfl,
      ?_, hlex⟩)
    rw [htext]
    exact hparts.liesAt_finish

/-- What was lexed to its end has one token for the end, and that comes last. -/
theorem exists_body_of_lex {tokens : List Token} (h : source.lex = .ok { tokens }) :
    ∃ body stop, tokens = body ++ [stop] ∧ (∀ token ∈ body, token.kind ≠ .eof) ∧
      stop.kind = .eof := by
  rcases source.lex_cases with ⟨length, -, hlex⟩ | ⟨others, failure, -, hlex⟩ |
    ⟨body, stop, hbody, hlexeme, -, hlex⟩
  · cases h.symm.trans hlex
  · cases h.symm.trans hlex
  · exact ⟨body, stop, congrArg Lexed.tokens (Except.ok.inj (h.symm.trans hlex)),
      fun token htoken ↦ (hbody token htoken).kind_ne_eof, congrArg Lexeme.kind hlexeme⟩

/-- In front of its last token there is none for the end. -/
theorem kinds_of_lex {body : List Token} {stop : Token}
    (h : source.lex = .ok { tokens := body ++ [stop] }) :
    (∀ token ∈ body, token.kind ≠ .eof) ∧ stop.kind = .eof := by
  obtain ⟨others, last, htokens, hothers, hlast⟩ := exists_body_of_lex h
  obtain ⟨rfl, hstop⟩ := List.append_inj' htokens rfl
  obtain rfl := List.singleton_inj.1 hstop
  exact ⟨hothers, hlast⟩

end Source

end Calculator
