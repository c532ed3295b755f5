import Calculator.Proofs.Arithmetic.Nearest
import Calculator.Proofs.Tokens.Lexing
import Mathlib.Data.List.Basic

/-!
# Nothing is lost in lexing

A cursor that lexing left behind can be lexed from again. `Cursor.LexesAgain` is lexing that is
asked for again after each failure, until there is none, with what every call found. Taken together
the calls account for the whole text: each character belongs to a token or to a failure, or is
passed over as a separator, and to no two of them (`Source.lex_accounts_for_text`). What a token
says is said without the lexer (`Piece.Says`): the digits of an integer in base ten, and for a
decimal the nearest double.

This holds of what the calls find at the time, seen from the cursor that each of them leaves. The
end of a failure moves on with the cursor, and behind the last call every failure goes on to the end
of the text, over all that was found after it (`Source.lex_overlaps_behind_at`). The stretches are
apart even then only if there is no failure in front of the last character.

`Records` stands between the code and the account: it follows the pieces of the text as the calls
do, one constructor for each kind of piece. That there are calls which record the pieces is an
induction on the pieces with the equations of lexing; what the calls say is an induction on the
record, and has nothing to do with the code any more.
-/

namespace Calculator

/-- The stretches that a call speaks of, in order: those of its tokens and that of its failure. -/
def Lexed.marks (lexed : Lexed) : List Extent :=
  lexed.tokens.map Token.extent ++ lexed.failure?.toList.map Failure.extent

/-- Lexing from a cursor on, and again after each failure: what the calls found, up to the first one
without a failure, and the cursor behind them. -/
inductive Cursor.LexesAgain : Cursor → List Lexed → Cursor → Prop where
  | last {cursor after : Cursor} {lexed : Lexed} (hlex : cursor.lex = (.ok lexed, after))
      (hnone : lexed.failure? = none) : LexesAgain cursor [lexed] after
  | again {cursor after final : Cursor} {lexed : Lexed} {failure : Failure} {later : List Lexed}
      (hlex : cursor.lex = (.ok lexed, after)) (hsome : lexed.failure? = some failure)
      (hlater : after.LexesAgain later final) : LexesAgain cursor (lexed :: later) final

/-! ### What there is to say of a text -/

/-- Ranges of indices, one behind the other, that hold the characters of a text except its
separators. The text begins at a given index. -/
structure Covers (start : Int) (text : List Char) (ranges : List (Int × Int)) : Prop where
  bounds : ∀ range ∈ ranges, start ≤ range.1 ∧ range.1 < range.2
  ordered : ranges.Pairwise fun range later ↦ range.2 ≤ later.1
  covered : ∀ (k : Nat) (c : Char), text[k]? = some c →
    ((∃ range ∈ ranges, range.1 ≤ start + k ∧ start + k < range.2) ↔ c ≠ ' ' ∧ c ≠ '\t')

/-- The characters that are tokens by themselves, and the kinds of their tokens. -/
def Kind.symbols : List (Char × Kind) :=
  [('+', .plus), ('-', .minus), ('*', .mul), ('/', .div), ('(', .lparen), (')', .rparen)]

/-- The lexeme is what a piece says as a token. -/
inductive Piece.Says : Piece → Lexeme → Prop where
  | symbol {c : Char} {kind : Kind} (hc : (c, kind) ∈ Kind.symbols) :
    Says (.symbol c kind) ⟨kind, none⟩
  | integer {digits : List Char} :
    Says (.integer digits) ⟨.int, some (.int (Text.baseTen digits))⟩
  | decimal {whole fraction : List Char} {x : Double}
      (hx : x.IsNearest false (Text.baseTen (whole ++ fraction) / 10 ^ fraction.length)) :
    Says (.decimal whole fraction) ⟨.float, some (.float x)⟩

/-- The token stands in a text where it is spelled by as many characters as can be. -/
def Token.StandsIn (text : List Char) (token : Token) : Prop :=
  ∃ (before : List Char) (piece : Piece) (after : List Char),
    text = before ++ piece.spelling ++ after ∧ piece.Fits after ∧ piece.Says token.lexeme ∧
      token.extent.LiesAt before.length piece.spelling.length

/-- The failure is that of a character in a text that begins nothing, where it stands. -/
def Failure.StandsIn (text : List Char) (failure : Failure) : Prop :=
  ∃ (before : List Char) (c : Char) (after : List Char),
    text = before ++ c :: after ∧ c ∉ [' ', '\t'] ∧ c.isDigit = false ∧
      (∀ kind, (c, kind) ∉ Kind.symbols) ∧
      failure.cause = .illegalCharacter (.singleton c) ∧
      failure.extent.LiesAt before.length 1

/-- The calls account for a text. -/
structure Accounts (text : List Char) (calls : List Lexed) : Prop where
  /-- There is one call more than there are failures. -/
  count : calls.length = (calls.filterMap Lexed.failure?).length + 1
  /-- The tokens and failures of all calls cover the text. -/
  covers : ∃ ranges, (calls.flatMap Lexed.marks).map Extent.indices? = ranges.map some ∧
    Covers 0 text ranges
  /-- The last call ends with the token for the end of the text, and there is no other such token.
  All others stand in the text. -/
  tokens : ∃ (earlier : List Lexed) (before : List Token) (finish : Token),
    calls = earlier ++ [{ tokens := before ++ [finish] }] ∧
      finish.lexeme = .ofKind .eof ∧
      finish.extent.LiesAt text.length 1 ∧
      ∀ token ∈ earlier.flatMap Lexed.tokens ++ before, token.kind ≠ .eof ∧ token.StandsIn text
  /-- The failures are illegal characters of the text. -/
  failures : ∀ failure ∈ calls.filterMap Lexed.failure?, failure.StandsIn text

/-! ### What pieces say -/

theorem Kind.mem_symbols_iff {c : Char} {kind : Kind} :
    (c, kind) ∈ symbols ↔ ofSymbol? c = some kind := by
  constructor
  · intro h
    simp only [symbols, List.mem_cons, List.not_mem_nil, or_false, Prod.mk.injEq] at h
    rcases h with ⟨rfl, rfl⟩ | ⟨rfl, rfl⟩ | ⟨rfl, rfl⟩ | ⟨rfl, rfl⟩ | ⟨rfl, rfl⟩ | ⟨rfl, rfl⟩
    all_goals rfl
  · intro h
    rw [ofSymbol?.eq_def] at h
    split at h
    case h_7 => cases h
    all_goals
      obtain rfl := Option.some.inj h
      simp [symbols]

namespace Piece

variable {piece : Piece} {lexeme : Lexeme} {after : List Char} {c : Char}

/-- **A piece is read as what it says.** -/
theorem Fits.says (h : piece.Fits after) (hlexeme : piece.lexeme? = some lexeme) :
    piece.Says lexeme := by
  cases h with
  | separator | illegal => cases hlexeme
  | symbol hc =>
    obtain rfl := Option.some.inj hlexeme
    exact .symbol (Kind.mem_symbols_iff.2 hc)
  | integer =>
    obtain rfl := Option.some.inj hlexeme
    rw [Text.ofDigits_eq_baseTen]
    exact .integer
  | decimal hne hwhole hfraction hends =>
    rw [lexeme?, Numeral.ofText?_of_decimal (.decimal hne hwhole hfraction hends)] at hlexeme
    obtain rfl := Option.some.inj hlexeme
    refine .decimal ?_
    rw [Numeral.decimal, Text.ofDigits_eq_baseTen]
    exact Double.isNearest_ofDecimal false _ _

theorem Says.kind_ne_eof (h : piece.Says lexeme) : lexeme.kind ≠ .eof := by
  cases h with
  | symbol hc => exact (Kind.plain_of_ofSymbol? (Kind.mem_symbols_iff.1 hc)).2.2.2.2
  | integer | decimal => exact Kind.noConfusion

/-- What says a literal has a value. -/
theorem Says.exists_value (h : piece.Says lexeme)
    (hkind : lexeme.kind = .int ∨ lexeme.kind = .float) : ∃ value, lexeme.value? = some value := by
  cases h with
  | symbol hc =>
    obtain ⟨-, -, hint, hfloat, -⟩ := Kind.plain_of_ofSymbol? (Kind.mem_symbols_iff.1 hc)
    exact absurd hkind (not_or.2 ⟨hint, hfloat⟩)
  | integer | decimal => exact ⟨_, rfl⟩

end Piece

section Standing

variable {text before after : List Char} {token : Token} {failure : Failure} {piece : Piece}
  {c : Char}

/-- A token that says what a piece spells stands in the text of the piece. -/
theorem Token.Spells.standsIn (h : token.Spells before piece) (hfits : piece.Fits after) :
    token.StandsIn (before ++ piece.spelling ++ after) :=
  ⟨before, piece, after, rfl, hfits, hfits.says h.lexeme, h.extent⟩

theorem Token.StandsIn.kind_ne_eof (h : token.StandsIn text) : token.kind ≠ .eof := by
  obtain ⟨before, piece, after, -, -, hsays, -⟩ := h
  exact hsays.kind_ne_eof

/-- A failure on an illegal piece stands in the text of the piece. -/
theorem Failure.standsIn_of_illegal (hfits : (Piece.illegal c).Fits after)
    (hcause : failure.cause = .illegalCharacter (.singleton c))
    (hextent : failure.extent.LiesAt before.length 1) :
    failure.StandsIn (before ++ c :: after) := by
  cases hfits with
  | illegal hseparator hdigit hsymbol =>
    refine ⟨before, c, after, rfl, by simpa using hseparator, hdigit, fun kind hmem ↦ ?_, hcause,
      hextent⟩
    cases hsymbol.symm.trans (Kind.mem_symbols_iff.1 hmem)

end Standing

/-! ### The record of the pieces -/

/-- What calls say of the pieces of a text behind others, the first of them with some tokens found
already, of which the last comes first. -/
inductive Records : List Token → List Char → List Piece → List Lexed → Prop where
  | nil {found : List Token} {before : List Char} {finish : Token}
      (hlexeme : finish.lexeme = .ofKind .eof)
      (hextent : finish.extent.LiesAt before.length 1) :
      Records found before [] [{ tokens := (finish :: found).reverse }]
  | separator {found : List Token} {before : List Char} {c : Char} {pieces : List Piece}
      {calls : List Lexed} (hpieces : Records found (before ++ [c]) pieces calls) :
      Records found before (.separator c :: pieces) calls
  | token {found : List Token} {before : List Char} {piece : Piece} {token : Token}
      {pieces : List Piece} {calls : List Lexed} (hspells : token.Spells before piece)
      (hpieces : Records (token :: found) (before ++ piece.spelling) pieces calls) :
      Records found before (piece :: pieces) calls
  | illegal {found : List Token} {before : List Char} {c : Char} {failure : Failure}
      {pieces : List Piece} {calls : List Lexed}
      (hcause : failure.cause = .illegalCharacter (.singleton c))
      (hextent : failure.extent.LiesAt before.length 1)
      (hpieces : Records [] (before ++ [c]) pieces calls) :
      Records found before (.illegal c :: pieces)
        ({ tokens := found.reverse, failure? := some failure } :: calls)

/-- **Lexing again and again records the pieces of what is left of the text**, and comes to the end
of it. -/
theorem exists_records {text : List Char} {pieces : List Piece} (hsplits : Splits text pieces)
    (hshort : ∀ piece ∈ pieces, piece.IsShort) :
    ∀ (found : List Token) (before : List Char) (cursor : Cursor), cursor.Parts before text →
      ∃ calls, Records found before pieces calls ∧
        ∀ start : Cursor, start.lex = cursor.lexFrom found →
          start.LexesAgain calls (cursor.advanceBy text.length) := by
  induction hsplits with
  | nil =>
    -- the call may have found tokens already, so it is known by the cursor that it started from
    intro found before cursor hparts
    exact ⟨_, .nil rfl hparts.liesAt_finish, fun start hstart ↦
      .last (hstart.trans (Cursor.lexFrom_of_nil hparts.rest)) rfl⟩
  | @cons piece after pieces hfits _ ih =>
    intro found before cursor hparts
    obtain ⟨hpiece, hpieces⟩ := List.forall_mem_cons.1 hshort
    have hnext := fun found ↦ ih hpieces found _ _ hparts.advanceBy
    rw [List.length_append, Cursor.advanceBy_add]
    rcases hfits.isSome_lexeme? with htoken | ⟨c, rfl⟩ | ⟨c, rfl⟩
    · obtain ⟨lexeme, hlexeme⟩ := Option.isSome_iff_exists.1 htoken
      have hlex := Cursor.lexFrom_of_lexeme found hparts.rest hfits hlexeme hpiece
      obtain ⟨calls, hrecords, hcalls⟩ := hnext (cursor.token lexeme piece.spelling.length :: found)
      exact ⟨calls, .token (hparts.spells_token hlexeme) hrecords,
        fun start hstart ↦ hcalls start (hstart.trans hlex)⟩
    · obtain ⟨calls, hrecords, hcalls⟩ := hnext found
      exact ⟨calls, .separator hrecords, fun start hstart ↦ hcalls start
        (hstart.trans (Cursor.lexFrom_of_separator hparts.rest hfits))⟩
    · obtain ⟨calls, hrecords, hcalls⟩ := hnext []
      exact ⟨_, .illegal rfl hparts.liesAt_illegal hrecords, fun start hstart ↦
        .again (hstart.trans (Cursor.lexFrom_of_illegal hparts.rest hfits)) rfl (hcalls _ rfl)⟩

/-- Lexing a source again and again records its pieces. -/
theorem Source.exists_records {source : Source} {pieces : List Piece}
    (hshort : HasShortIntegers source.text.toList) (hsplits : Splits source.text.toList pieces) :
    ∃ calls, Records [] [] pieces calls ∧ source.cursor.LexesAgain calls
      (source.cursor.advanceBy source.text.toList.length) := by
  obtain ⟨calls, hrecords, hcalls⟩ :=
    Calculator.exists_records hsplits (hshort pieces hsplits) [] [] source.cursor
      source.parts_cursor
  exact ⟨calls, hrecords, hcalls source.cursor rfl⟩

/-! ### What the record says -/

/-- The ranges of the pieces that are not passed over, and that of the end of the text. -/
def Piece.ranges (index : Int) : List Piece → List (Int × Int)
  | [] => [(index, index + 1)]
  | .separator _ :: pieces => ranges (index + 1) pieces
  | piece :: pieces =>
    (index, index + piece.spelling.length) :: ranges (index + piece.spelling.length) pieces

theorem Piece.ranges_cons {piece : Piece} (h : ∀ c, piece ≠ .separator c) (index : Int)
    (pieces : List Piece) :
    ranges index (piece :: pieces) =
      (index, index + piece.spelling.length) :: ranges (index + piece.spelling.length) pieces := by
  cases piece with
  | separator c => exact absurd rfl (h c)
  | _ => rfl

section Record

variable {text before : List Char} {found : List Token} {pieces : List Piece} {calls : List Lexed}

theorem Records.count (h : Records found before pieces calls) :
    calls.length = (calls.filterMap Lexed.failure?).length + 1 := by
  induction h with
  | nil => rfl
  | separator _ ih => exact ih
  | token _ _ ih => exact ih
  | illegal _ _ _ ih => simp [ih]

theorem Records.map_marks (h : Records found before pieces calls) :
    (calls.flatMap Lexed.marks).map Extent.indices? =
      (found.reverse.map fun token ↦ token.extent.indices?) ++
        (Piece.ranges before.length pieces).map some := by
  induction h with
  | nil _ hfinish => simp_all [Lexed.marks, Piece.ranges, Extent.LiesAt]
  | separator _ ih => simpa [Piece.ranges] using ih
  | @token _ before piece token pieces _ hspells _ ih =>
    have hpiece : ∀ c, piece ≠ .separator c := by
      rintro c rfl
      cases hspells.lexeme
    have htoken := hspells.extent
    rw [ih, Piece.ranges_cons hpiece]
    simp_all [Extent.LiesAt]
  | @illegal _ _ c _ _ _ _ hfailure _ ih =>
    have hpiece : ∀ d, Piece.illegal c ≠ .separator d := fun d h ↦ by cases h
    rw [Piece.ranges_cons hpiece]
    simp_all [Lexed.marks, Extent.LiesAt, Piece.spelling]

/-- The end comes last, and the tokens before it are those found already or stand in the text. -/
theorem Records.tokens (h : Records found before pieces calls) (hsplits : Splits text pieces) :
    ∃ (earlier : List Lexed) (others : List Token) (finish : Token),
      calls = earlier ++ [{ tokens := others ++ [finish] }] ∧
        finish.lexeme = .ofKind .eof ∧
        finish.extent.LiesAt (before ++ text).length 1 ∧
        ∀ token ∈ earlier.flatMap Lexed.tokens ++ others,
          token ∈ found ∨ token.StandsIn (before ++ text) := by
  induction h generalizing text with
  | @nil found _ finish hlexeme hfinish =>
    cases hsplits
    exact ⟨[], found.reverse, finish, by rw [List.reverse_cons, List.nil_append], hlexeme,
      by rwa [List.append_nil], fun token htoken ↦ .inl (List.mem_reverse.1 htoken)⟩
  | separator _ ih =>
    cases hsplits with
    | cons _ hafter =>
      rw [← List.append_assoc]
      exact ih hafter
  | @token _ before piece token _ _ hspells _ ih =>
    cases hsplits with
    | @cons _ after _ hfits hafter =>
      obtain ⟨earlier, others, finish, hcalls, heof, hfinish, hothers⟩ := ih hafter
      rw [← List.append_assoc]
      refine ⟨earlier, others, finish, hcalls, heof, hfinish, fun other hother ↦ ?_⟩
      rcases hothers other hother with hmem | hstands
      · rcases List.mem_cons.1 hmem with rfl | hfound
        · exact .inr (hspells.standsIn hfits)
        · exact .inl hfound
      · exact .inr hstands
  | @illegal found _ _ failure _ _ _ _ _ ih =>
    cases hsplits with
    | cons _ hafter =>
      obtain ⟨earlier, others, finish, rfl, heof, hfinish, hothers⟩ := ih hafter
      rw [← List.append_assoc]
      refine ⟨⟨found.reverse, failure⟩ :: earlier, others, finish, rfl, heof, hfinish,
        fun other hother ↦ ?_⟩
      rw [List.flatMap_cons, List.append_assoc, List.mem_append, List.mem_reverse] at hother
      exact hother.imp_right fun h ↦ (hothers other h).resolve_left List.not_mem_nil

theorem Records.failures (h : Records found before pieces calls) (hsplits : Splits text pieces) :
    ∀ failure ∈ calls.filterMap Lexed.failure?, failure.StandsIn (before ++ text) := by
  induction h generalizing text with
  | nil => simp
  | separator _ ih | token _ _ ih =>
    cases hsplits with
    | cons _ hafter =>
      rw [← List.append_assoc]
      exact ih hafter
  | @illegal _ before c failure _ _ hcause hfailure _ ih =>
    cases hsplits with
    | @cons _ after _ hfits hafter =>
      intro other hother
      rcases List.mem_cons.1 hother with rfl | hlater
      · exact Failure.standsIn_of_illegal hfits hcause hfailure
      · rw [← List.append_assoc]
        exact ih hafter other hlater

end Record

/-! ### Ranges that cover -/

section Covers

variable {start : Int} {text : List Char} {ranges : List (Int × Int)}

/-- Behind a separator the ranges stay the same. -/
theorem Covers.cons_separator {c : Char} (hc : c = ' ' ∨ c = '\t')
    (h : Covers (start + 1) text ranges) : Covers start (c :: text) ranges where
  bounds range hrange := ⟨by have := h.bounds range hrange; omega, (h.bounds range hrange).2⟩
  ordered := h.ordered
  covered k d hd := by
    cases k with
    | zero =>
      obtain rfl := Option.some.inj hd
      refine ⟨fun ⟨range, hrange, hle, _⟩ ↦ ?_, fun hplain ↦ absurd hc (not_or.2 hplain)⟩
      have := (h.bounds range hrange).1
      omega
    | succ k =>
      rw [show start + ((k + 1 : Nat) : Int) = start + 1 + k by omega]
      exact h.covered k d hd

/-- Characters that are no separators have a range in front of the others. -/
theorem Covers.append {run : List Char} (hne : run ≠ []) (hrun : ∀ c ∈ run, c ≠ ' ' ∧ c ≠ '\t')
    (h : Covers (start + run.length) text ranges) :
    Covers start (run ++ text) ((start, start + run.length) :: ranges) where
  bounds range hrange := by
    have hpos := List.length_pos_iff.2 hne
    rcases List.mem_cons.1 hrange with rfl | hrange
    · exact ⟨Int.le_refl _, by simp only; omega⟩
    · exact ⟨by have := h.bounds range hrange; omega, (h.bounds range hrange).2⟩
  ordered := List.pairwise_cons.2 ⟨fun range hrange ↦ (h.bounds range hrange).1, h.ordered⟩
  covered k d hd := by
    by_cases hk : k < run.length
    · rw [List.getElem?_append_left hk] at hd
      refine iff_of_true ⟨_, List.mem_cons_self, ?_, ?_⟩ (hrun d (List.mem_of_getElem? hd))
      all_goals simp only; omega
    · rw [List.getElem?_append_right (by omega)] at hd
      have hlater := h.covered (k - run.length) d hd
      rw [show start + run.length + ((k - run.length : Nat) : Int) = start + k by omega] at hlater
      rw [← hlater]
      refine ⟨fun ⟨range, hmem, hrange⟩ ↦ ?_, fun ⟨range, hmem, hrange⟩ ↦
        ⟨range, List.mem_cons_of_mem _ hmem, hrange⟩⟩
      rcases List.mem_cons.1 hmem with rfl | hmem
      · have hlt : start + k < start + run.length := hrange.2
        omega
      · exact ⟨range, hmem, hrange⟩

end Covers

/-- The ranges of its pieces cover a text. -/
theorem Splits.covers {text : List Char} {pieces : List Piece} (h : Splits text pieces) :
    ∀ start : Int, Covers start text (Piece.ranges start pieces) := by
  induction h with
  | nil =>
    intro start
    refine ⟨fun range hrange ↦ ?_, List.pairwise_singleton _ _, fun k c hc ↦ ?_⟩
    · obtain rfl := List.mem_singleton.1 hrange
      show start ≤ start ∧ start < start + 1
      omega
    · cases hc
  | @cons piece after pieces hfits _ ih =>
    intro start
    by_cases hseparator : ∃ c, piece = .separator c
    · obtain ⟨c, rfl⟩ := hseparator
      cases hfits with
      | separator hc => exact (ih (start + 1)).cons_separator hc
    · have hpiece : ∀ c, piece ≠ .separator c := fun c h ↦ hseparator ⟨c, h⟩
      rw [Piece.ranges_cons hpiece]
      exact (ih _).append hfits.spelling_ne_nil (hfits.not_separator hpiece)

/-! ### Seen behind the last call -/

section Seen

variable {text : List Char} {calls : List Lexed} {failure : Failure} {now : Cursor}

/-- Seen from a place further on, a failure goes on to that place. -/
theorem Failure.liesAt_seenFrom {index length length' : Nat}
    (h : failure.extent.LiesAt index length) (hnow : now.position.index = index + length') :
    (failure.seenFrom now).extent.LiesAt index length' := by
  obtain ⟨span, hspan⟩ := h.isKnown
  simp_all [Extent.LiesAt, Extent.indices?, Extent.toSpan?, seenFrom, Span.toExtent]

theorem filterMap_failure?_seenFrom (calls : List Lexed) (now : Cursor) :
    (calls.map (·.seenFrom now)).filterMap Lexed.failure? =
      (calls.filterMap Lexed.failure?).map (·.seenFrom now) := by
  rw [List.filterMap_map, List.map_filterMap]
  rfl

/-- What accounts for a text does so from wherever it is seen, if the failures stay the same. -/
theorem Accounts.seenFrom (h : Accounts text calls)
    (hsame : ∀ failure ∈ calls.filterMap Lexed.failure?,
      (failure.seenFrom now).extent.indices? = failure.extent.indices?) :
    Accounts text (calls.map (·.seenFrom now)) where
  count := by
    rw [filterMap_failure?_seenFrom, List.length_map, List.length_map]
    exact h.count
  covers := by
    obtain ⟨ranges, hmarks, hcovers⟩ := h.covers
    refine ⟨ranges, ?_, hcovers⟩
    rw [← hmarks, List.flatMap_map, List.map_flatMap, List.map_flatMap]
    refine List.flatMap_congr fun lexed hlexed ↦ ?_
    simp only [Lexed.marks, List.map_append, List.map_map]
    refine congrArg (_ ++ ·) ?_
    rcases hfailure : lexed.failure? with - | failure
    · simp [Lexed.seenFrom, hfailure]
    · simpa [Lexed.seenFrom, hfailure] using
        hsame failure (List.mem_filterMap.2 ⟨lexed, hlexed, hfailure⟩)
  tokens := by
    obtain ⟨earlier, before, finish, rfl, hlexeme, hfinish, htokens⟩ := h.tokens
    refine ⟨earlier.map (·.seenFrom now), before, finish, ?_, hlexeme, hfinish, ?_⟩
    · rw [List.map_append]
      rfl
    · rw [List.flatMap_map]
      exact htokens
  failures := by
    rw [filterMap_failure?_seenFrom]
    refine List.forall_mem_map.2 fun failure hfailure ↦ ?_
    obtain ⟨before, c, after, htext, hseparator, hdigit, hsymbol, hcause, hextent⟩ :=
      h.failures failure hfailure
    exact ⟨before, c, after, htext, hseparator, hdigit, hsymbol, hcause,
      (hsame failure hfailure).trans hextent⟩

/-- **Seen from the end of the text, failures go on to it**, and the calls account for the text as
long as they have not moved on for it. -/
theorem Accounts.seenFrom_end (h : Accounts text calls)
    (hnow : now.position.index = text.length) :
    (∀ failure ∈ calls.filterMap Lexed.failure?, ∃ index < text.length,
        failure.extent.LiesAt index 1 ∧
        (failure.seenFrom now).extent.LiesAt index (text.length - index)) ∧
      (Accounts text (calls.map (·.seenFrom now)) ↔
        ∀ failure ∈ calls.filterMap Lexed.failure?,
          failure.extent.LiesAt (text.length - 1) 1) := by
  have hlies : ∀ failure ∈ calls.filterMap Lexed.failure?, ∃ index < text.length,
      failure.extent.LiesAt index 1 ∧
      (failure.seenFrom now).extent.LiesAt index (text.length - index) := by
    intro failure hfailure
    obtain ⟨before, c, after, htext, -, -, -, -, hextent⟩ := h.failures failure hfailure
    have hlt : before.length < text.length := by
      rw [htext]
      simp
    exact ⟨before.length, hlt, hextent, Failure.liesAt_seenFrom hextent (by omega)⟩
  refine ⟨hlies, fun hseen failure hfailure ↦ ?_, fun hlast ↦ h.seenFrom fun failure hfailure ↦ ?_⟩
  · obtain ⟨index, hlt, hextent, hmoved⟩ := hlies failure hfailure
    have hmem : failure.seenFrom now ∈
        (calls.map (·.seenFrom now)).filterMap Lexed.failure? := by
      rw [filterMap_failure?_seenFrom]
      exact List.mem_map_of_mem hfailure
    obtain ⟨before, c, after, -, -, -, -, -, hstands⟩ := hseen.failures _ hmem
    -- a failure of one character that goes on to the end is the last character
    have hindices := Option.some.inj (hmoved.symm.trans hstands)
    have hindex : index = text.length - 1 := by
      simp only [Prod.mk.injEq] at hindices
      omega
    rwa [← hindex]
  · obtain ⟨index, hlt, hextent, hmoved⟩ := hlies failure hfailure
    have hindices := Option.some.inj (hextent.symm.trans (hlast failure hfailure))
    have hlength : text.length - index = 1 := by
      simp only [Prod.mk.injEq] at hindices
      omega
    rw [hlength] at hmoved
    exact hmoved.trans hextent.symm

end Seen

/-! ### The account -/

/-- **Nothing is lost in lexing.** If no integer of a text is longer than integers may be, lexing it
again and again comes to an end, and the calls account for the text by what each of them found at
the time. Seen behind the last call, every failure goes on to the end of the text, so that the calls
account for the text still if there is no failure in front of its last character, and otherwise do
not any more. -/
theorem Source.lex_accounts_for_text {source : Source}
    (hshort : HasShortIntegers source.text.toList) :
    ∃ calls after, source.cursor.LexesAgain calls after ∧ Accounts source.text.toList calls ∧
      (∀ failure ∈ calls.filterMap Lexed.failure?, ∃ index < source.text.toList.length,
        failure.extent.LiesAt index 1 ∧
        (failure.seenFrom after).extent.LiesAt index (source.text.toList.length - index)) ∧
      (Accounts source.text.toList (calls.map (·.seenFrom after)) ↔
        ∀ failure ∈ calls.filterMap Lexed.failure?,
          failure.extent.LiesAt (source.text.toList.length - 1) 1) := by
  obtain ⟨pieces, hsplits⟩ := exists_splits source.text.toList
  obtain ⟨calls, hrecords, hcalls⟩ := source.exists_records hshort hsplits
  obtain ⟨earlier, before, finish, hends, heof, hfinish, htokens⟩ := hrecords.tokens hsplits
  have hstands : ∀ token ∈ earlier.flatMap Lexed.tokens ++ before,
      token.kind ≠ .eof ∧ token.StandsIn source.text.toList := by
    intro token htoken
    have hstands := (htokens token htoken).resolve_left List.not_mem_nil
    exact ⟨hstands.kind_ne_eof, hstands⟩
  have haccounts : Accounts source.text.toList calls := {
    count := hrecords.count
    covers := ⟨_, hrecords.map_marks, hsplits.covers 0⟩
    tokens := ⟨earlier, before, finish, hends, heof, hfinish, hstands⟩
    failures := hrecords.failures hsplits }
  refine ⟨calls, _, hcalls, haccounts, haccounts.seenFrom_end ?_⟩
  rw [Cursor.index_position_advanceBy]
  exact Int.zero_add _

/-- The second point of a numeral is a failure, behind which lexing goes on. -/
theorem Source.lex_accounts_for_second_point :
    HasShortIntegers (Source.mk "<stdin>" "1.2.3").text.toList ∧
      ∃ calls after, (Source.mk "<stdin>" "1.2.3").cursor.LexesAgain calls after ∧
        Accounts (Source.mk "<stdin>" "1.2.3").text.toList calls ∧
        (∀ failure ∈ calls.filterMap Lexed.failure?,
          ∃ index < (Source.mk "<stdin>" "1.2.3").text.toList.length,
            failure.extent.LiesAt index 1 ∧ (failure.seenFrom after).extent.LiesAt index
              ((Source.mk "<stdin>" "1.2.3").text.toList.length - index)) ∧
        (Accounts (Source.mk "<stdin>" "1.2.3").text.toList (calls.map (·.seenFrom after)) ↔
          ∀ failure ∈ calls.filterMap Lexed.failure?, failure.extent.LiesAt
            ((Source.mk "<stdin>" "1.2.3").text.toList.length - 1) 1) := by
  have hshort : HasShortIntegers (Source.mk "<stdin>" "1.2.3").text.toList :=
    hasShortIntegers_of_length_le (by decide)
  exact ⟨hshort, Source.lex_accounts_for_text hshort⟩

/-- Behind the last call the failure of the first character covers the second one as well, which is
a token. -/
theorem Source.lex_overlaps_behind_at :
    ∃ calls after, (Source.mk "<stdin>" "@1").cursor.LexesAgain calls after ∧
      (calls.flatMap Lexed.marks).map Extent.indices? =
        [some (0, 1), some (1, 2), some (2, 3)] ∧
      ((calls.map (·.seenFrom after)).flatMap Lexed.marks).map Extent.indices? =
        [some (0, 2), some (1, 2), some (2, 3)] ∧
      ¬ Accounts "@1".toList (calls.map (·.seenFrom after)) := by
  have hat : (Piece.illegal '@').Fits ['1'] := .illegal (by decide) (by decide) rfl
  have hone : (Piece.integer ['1']).Fits [] :=
    .integer (by decide) (List.forall_mem_singleton.2 rfl) (by rintro _ ⟨⟩)
  have hsplits : Splits "@1".toList [.illegal '@', .integer ['1']] := .cons hat (.cons hone .nil)
  have hshort : HasShortIntegers "@1".toList := hasShortIntegers_of_length_le (by decide)
  obtain ⟨calls, hrecords, hcalls⟩ :=
    (Source.mk "<stdin>" "@1").exists_records hshort hsplits
  have hend : ((Source.mk "<stdin>" "@1").cursor.advanceBy 2).position.index = 0 + (2 : Nat) := by
    rw [Cursor.index_position_advanceBy]
    rfl
  refine ⟨calls, _, hcalls, ?_⟩
  have hseen : ((calls.map (·.seenFrom ((Source.mk "<stdin>" "@1").cursor.advanceBy 2))).flatMap
      Lexed.marks).map Extent.indices? = [some (0, 2), some (1, 2), some (2, 3)] := by
    cases hrecords with
    | token hspells => cases hspells.lexeme
    | @illegal _ _ _ failure _ _ _ hfailure hlater =>
      have hmoved := Failure.liesAt_seenFrom hfailure hend
      cases hlater with
      | @token _ _ _ token _ _ hspells hlast =>
        have htoken := hspells.extent
        cases hlast with
        | nil _ hfinish =>
          simp_all [Lexed.marks, Lexed.seenFrom, Extent.LiesAt, Piece.spelling]
  refine ⟨hrecords.map_marks, hseen, fun haccounts ↦ ?_⟩
  obtain ⟨ranges, hmarks, hcovers⟩ := haccounts.covers
  obtain rfl : ranges = [(0, 2), (1, 2), (2, 3)] := by
    refine List.map_injective_iff.2 (Option.some_injective _) (hmarks.symm.trans hseen)
  exact absurd ((List.pairwise_cons.1 hcovers.ordered).1 (1, 2) (by simp)) (by decide)

end Calculator
