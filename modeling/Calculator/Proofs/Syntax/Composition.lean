import Calculator.Proofs.Syntax.Trees
import Calculator.Proofs.Tokens.Concatenation

/-!
# Texts put together to longer texts

An expression in parentheses is a factor in whatever it is put into. What a text is read to does not
depend on what stands around it, so that texts can be put together as trees can: in parentheses,
behind a sign, and on the two sides of an operator. The trees of the parts are in the tree of the
whole, shifted to where the parts stand (`Source.parse_composes`).

`Source.ReadsAs` says of a source what is needed for this: its tokens are of a rank and nest so
deep. Each way to put texts together is one step from such sources to another. The depth can be
bounded without knowing what is open around the part, since inside of it only what is opened there
is closed (`Scan.nesting_around_le`).
-/

namespace Calculator

/-! ### Moved tokens -/

namespace Relocation

theorem map_token_map_token (first second : Relocation) (tokens : List Token) :
    (tokens.map first.token).map second.token = tokens.map (first.trans second).token := by
  rw [List.map_map]
  exact List.map_congr_left fun token _ ↦ (token_trans first second token).symm

theorem token_stretch (source original : Source) (offset : Nat) (lexeme : Lexeme)
    (start stop : Int) : (shift source offset).token ⟨lexeme, original.stretch (start, stop)⟩ =
      ⟨lexeme, source.stretch (start + offset, stop + offset)⟩ := rfl

theorem expr_trans (first second : Relocation) (expr : Expr) :
    (first.trans second).expr expr = second.expr (first.expr expr) := by
  induction expr with
  | number token => exact congrArg Expr.number (token_trans first second token)
  | unary operator operand ih =>
    rw [Relocation.expr, Relocation.expr, Relocation.expr, token_trans, ih]
  | binary left operator right ihl ihr =>
    rw [Relocation.expr, Relocation.expr, Relocation.expr, token_trans, ihl, ihr]
  | foreign name extent => exact congrArg (Expr.foreign name) (extent_trans first second extent)

end Relocation

section Moved

variable {rank : Rank} {tokens : List Token} {expr : Expr}

/-- The grammar does not look at places. -/
theorem Derives.map (h : Derives rank tokens expr) (move : Relocation) :
    Derives rank (tokens.map move.token) (move.expr expr) := by
  induction h with
  | literal hkind => exact .literal hkind
  | signed hsign _ ih => exact .signed hsign ih
  | enclosed hopening _ hclosing ih =>
    rw [List.map_append, List.map_cons, List.map_singleton]
    exact .enclosed hopening ih hclosing
  | factor _ ih => exact .factor ih
  | product _ hop _ ihl ihr =>
    rw [List.map_append, List.map_cons]
    exact .product ihl hop ihr
  | term _ ih => exact .term ih
  | sum _ hop _ ihl ihr =>
    rw [List.map_append, List.map_cons]
    exact .sum ihl hop ihr

namespace Scan

/-- Nor does the scan. -/
theorem nesting_map (move : Relocation) (scan : Scan) (tokens : List Token) :
    scan.nesting (tokens.map move.token) = scan.nesting tokens := by
  induction tokens generalizing scan with
  | nil => rfl
  | cons token tokens ih =>
    rw [List.map_cons, nesting, nesting, Relocation.kind_token]
    cases scan.step? token.kind with
    | none => rfl
    | some next => exact congrArg (max _) (ih next)

/-! ### Tokens inside of something -/

theorem exists_settle_append (opened outer : List Opening) :
    ∃ rest, settle (opened ++ outer) = settle opened ++ rest ∧
      Opening.total rest ≤ Opening.total outer := by
  induction opened with
  | nil => exact ⟨settle outer, rfl, total_settle_le outer⟩
  | cons opening opened ih =>
    cases opening with
    | sign => exact ih
    | paren => exact ⟨outer, rfl, Nat.le_refl _⟩

end Scan

theorem Opening.total_append (opened outer : List Opening) :
    total (opened ++ outer) = total opened + total outer := by
  induction opened with
  | nil => exact (Nat.zero_add _).symm
  | cons opening opened ih => rw [List.cons_append, total_cons, total_cons, ih, Nat.add_assoc]

namespace Scan

/-- A token that can stand somewhere can stand there inside of anything, and opens or closes no more
of what is around. -/
theorem exists_step?_around {expecting : Bool} {opened : List Opening} {next : Scan} {kind : Kind}
    (h : step? ⟨expecting, opened⟩ kind = some next) (outer : List Opening) :
    ∃ rest, step? ⟨expecting, opened ++ outer⟩ kind = some ⟨next.expecting, next.opened ++ rest⟩ ∧
      Opening.total rest ≤ Opening.total outer := by
  cases kind with
  | plus | minus =>
    obtain rfl := Option.some.inj h
    cases expecting <;> exact ⟨outer, rfl, Nat.le_refl _⟩
  | mul | div =>
    cases expecting with
    | true => cases h
    | false =>
      obtain rfl := Option.some.inj h
      exact ⟨outer, rfl, Nat.le_refl _⟩
  | int | float =>
    cases expecting with
    | true =>
      obtain rfl := Option.some.inj h
      obtain ⟨rest, hsettle, hrest⟩ := exists_settle_append opened outer
      exact ⟨rest, congrArg (fun opened ↦ some (Scan.mk false opened)) hsettle, hrest⟩
    | false => cases h
  | lparen =>
    cases expecting with
    | true =>
      obtain rfl := Option.some.inj h
      exact ⟨outer, rfl, Nat.le_refl _⟩
    | false => cases h
  | rparen =>
    rw [step?] at h
    split at h
    · next hclose =>
      obtain ⟨rfl, hparen⟩ := hclose
      obtain ⟨opened, rfl⟩ := List.head?_eq_some_iff.1 hparen
      obtain rfl := Option.some.inj h
      obtain ⟨rest, hsettle, hrest⟩ := exists_settle_append opened outer
      exact ⟨rest, congrArg (fun opened ↦ some (Scan.mk false opened)) hsettle, hrest⟩
    · cases h
  | eof | other name => cases h

/-- **Inside of something no more is opened than by itself.** -/
theorem nesting_around_le {expecting : Bool} {opened : List Opening} {last : Scan}
    (h : run? ⟨expecting, opened⟩ tokens = some last) (outer : List Opening) :
    nesting ⟨expecting, opened ++ outer⟩ tokens ≤
      nesting ⟨expecting, opened⟩ tokens + Opening.total outer := by
  induction tokens generalizing expecting opened outer with
  | nil => exact Nat.le_of_eq (Opening.total_append opened outer)
  | cons token tokens ih =>
    rw [run?_cons] at h
    obtain ⟨next, hstep, hrun⟩ := Option.bind_eq_some_iff.1 h
    obtain ⟨rest, haround, hrest⟩ := exists_step?_around hstep outer
    have hlater := ih hrun rest
    rw [nesting_cons hstep, nesting_cons haround, Opening.total_append]
    have hnext : nesting ⟨next.expecting, next.opened⟩ tokens = next.nesting tokens := rfl
    omega

end Scan

variable {opening closing sign operator : Token}

/-- Parentheses add what one of them costs. -/
theorem Derives.nesting_enclosed_le (h : Derives rank tokens expr)
    (hopening : opening.kind = .lparen) (hclosing : closing.kind = .rparen) :
    Scan.start.nesting (opening :: tokens ++ [closing]) ≤ Scan.start.nesting tokens + 5 := by
  have hopen : Scan.step? ⟨true, []⟩ opening.kind = some ⟨true, [.paren]⟩ := by rw [hopening]; rfl
  have hclose : Scan.step? ⟨false, [.paren]⟩ closing.kind = some ⟨false, []⟩ := by
    rw [hclosing]
    rfl
  have hinside : Scan.nesting ⟨true, [.paren]⟩ tokens ≤ Scan.start.nesting tokens + 5 :=
    Scan.nesting_around_le (h.run? []) [.paren]
  have hall : Scan.start.nesting (opening :: tokens ++ [closing]) =
      max 0 (max (Scan.nesting ⟨true, [.paren]⟩ tokens) (max 5 0)) := by
    rw [List.cons_append, Scan.start, Scan.nesting_cons hopen,
      Scan.nesting_append (h.run? [.paren]), settle_paren_cons, Scan.nesting_singleton hclose]
    rfl
  omega

/-- A sign adds what a sign costs. -/
theorem Derives.nesting_signed_le (h : Derives rank tokens expr)
    (hsign : sign.kind = .plus ∨ sign.kind = .minus) :
    Scan.start.nesting (sign :: tokens) ≤ Scan.start.nesting tokens + 1 := by
  have hopen : Scan.step? ⟨true, []⟩ sign.kind = some ⟨true, [.sign]⟩ := by
    rcases hsign with hsign | hsign <;> rw [hsign] <;> rfl
  have hinside : Scan.nesting ⟨true, [.sign]⟩ tokens ≤ Scan.start.nesting tokens + 1 :=
    Scan.nesting_around_le (h.run? []) [.sign]
  have hall : Scan.start.nesting (sign :: tokens) =
      max 0 (Scan.nesting ⟨true, [.sign]⟩ tokens) := Scan.nesting_cons hopen tokens
  omega

/-- An operator opens nothing. -/
theorem Derives.nesting_operator (h : Derives rank tokens expr) {operation : Operation}
    (hop : operator.kind.operation? = some operation) (others : List Token) :
    Scan.start.nesting (tokens ++ operator :: others) =
      max (Scan.start.nesting tokens) (Scan.start.nesting others) := by
  have hstep : Scan.step? ⟨false, []⟩ operator.kind = some Scan.start := by
    cases hkind : operator.kind with
    | plus | minus | mul | div => rfl
    | _ => rw [hkind] at hop; cases hop
  have hrun : Scan.start.run? tokens = some ⟨false, []⟩ := h.run? []
  have hnothing : Opening.total [] ≤ Scan.start.nesting others := Nat.zero_le _
  rw [Scan.nesting_append hrun, Scan.nesting_cons hstep, Nat.max_eq_right hnothing]

/-- An operator between factors makes an expression of them. -/
theorem Derives.of_factors {others : List Token} {left right : Expr}
    {operation : Operation} (hleft : Derives .factor tokens left)
    (hright : Derives .factor others right) (hop : operator.kind.operation? = some operation) :
    Derives .expr (tokens ++ operator :: others) (.binary left operator right) := by
  cases hkind : operator.kind with
  | plus => exact .sum (.term (.factor hleft)) (.inl hkind) (.factor hright)
  | minus => exact .sum (.term (.factor hleft)) (.inr hkind) (.factor hright)
  | mul => exact .term (.product (.factor hleft) (.inl hkind) hright)
  | div => exact .term (.product (.factor hleft) (.inr hkind) hright)
  | _ => rw [hkind] at hop; cases hop

end Moved

/-! ### Sources put together -/

namespace Source

variable {source other : Source} {body others tokens : List Token} {expr left right : Expr}
  {kind : Kind} {c : Char} {depth depth' : Nat} {rank : Rank}

/-- The source is lexed to these tokens, in front of the one for its end. -/
def LexesTo (source : Source) (body : List Token) : Prop :=
  ∃ stop, source.lex = .ok { tokens := body ++ [stop] }

/-- The source of a single character. -/
def symbol (name : String) (c : Char) : Source := ⟨name, .singleton c⟩

theorem LexesTo.append (h : source.LexesTo body) (hother : other.LexesTo others)
    (hapart : Apart source.text.toList other.text.toList) :
    (source.append other).LexesTo (body.map (Relocation.into (source.append other)).token ++
      others.map (Relocation.shift (source.append other) source.text.toList.length).token) := by
  obtain ⟨stop, hlex⟩ := h
  obtain ⟨stop', hlex'⟩ := hother
  refine ⟨(Relocation.shift (source.append other) source.text.toList.length).token stop', ?_⟩
  rw [lex_append_eq hlex hapart, hlex']
  simp [Except.map]

theorem lexesTo_symbol (h : Kind.ofSymbol? c = some kind) (name : String) :
    (symbol name c).LexesTo [⟨.ofKind kind, (symbol name c).stretch (0, 1)⟩] := by
  have htext : (symbol name c).text.toList = [c] := String.toList_singleton c
  have hfits : (Piece.symbol c kind).Fits [] := .symbol h
  have hsplits : Splits (symbol name c).text.toList [.symbol c kind] := by
    rw [htext]
    exact .cons hfits .nil
  have hpassed : ∀ piece ∈ [Piece.symbol c kind], piece.IsPassed :=
    List.forall_mem_singleton.2 ⟨trivial, fun _ ↦ Piece.noConfusion⟩
  have hstop := Cursor.position_advanceBy (symbol name c).position_cursor
    (show (symbol name c).cursor.rest = [c] ++ [] from htext)
    (hfits.ne_newline fun _ ↦ Piece.noConfusion)
  have htokens : (symbol name c).cursor.tokens [.symbol c kind] =
      [⟨.ofKind kind, some ((symbol name c).place 0), some ((symbol name c).place 1)⟩] :=
    congrArg (fun stop ↦ [Token.mk (.ofKind kind) ⟨some ((symbol name c).place 0), some stop⟩])
      hstop
  exact ⟨_, htokens ▸ lex_of_splits hsplits hpassed⟩

/-- A character that is a token by itself is part of no numeral. -/
theorem ends_of_mem_symbol {d : Char} {name : String} (h : Kind.ofSymbol? c = some kind)
    (hd : d ∈ (symbol name c).text.toList) : d.isDigit = false ∧ d ≠ '.' := by
  rw [symbol, String.toList_singleton] at hd
  obtain rfl := List.mem_singleton.1 hd
  refine ⟨(Kind.plain_of_ofSymbol? h).2.1, ?_⟩
  rintro rfl
  cases h

theorem LexesTo.append_symbol (h : source.LexesTo body) (hsymbol : Kind.ofSymbol? c = some kind)
    (name : String) :
    (source.append (symbol name c)).LexesTo
      (body.map (Relocation.into (source.append (symbol name c))).token ++
        [⟨.ofKind kind, (source.append (symbol name c)).stretch
          (source.text.toList.length, source.text.toList.length + 1)⟩]) := by
  have happend := h.append (lexesTo_symbol hsymbol name)
    (.inr fun d hd ↦ ends_of_mem_symbol hsymbol (List.mem_of_head? hd))
  rwa [List.map_singleton, Relocation.token_stretch, Int.zero_add, Int.add_comm] at happend

theorem LexesTo.symbol_append (h : source.LexesTo body) (hsymbol : Kind.ofSymbol? c = some kind)
    (name : String) :
    ((symbol name c).append source).LexesTo
      (⟨.ofKind kind, ((symbol name c).append source).stretch (0, 1)⟩ ::
        body.map (Relocation.shift ((symbol name c).append source) 1).token) := by
  have happend := (lexesTo_symbol hsymbol name).append h
    (.inl fun d hd ↦ ends_of_mem_symbol hsymbol (List.mem_of_getLast? hd))
  rwa [symbol, String.toList_singleton] at happend

/-- The source is lexed to tokens of a rank, which nest no deeper than a bound. -/
def ReadsAs (source : Source) (rank : Rank) (expr : Expr) (depth : Nat) : Prop :=
  ∃ body, source.LexesTo body ∧ Derives rank body expr ∧ Scan.start.nesting body ≤ depth

/-- The source in parentheses. -/
def enclosed (name : String) (source : Source) : Source :=
  ((symbol name '(').append source).append (symbol name ')')

/-- **An expression in parentheses is a factor**, one character further on. -/
theorem ReadsAs.enclosed (h : source.ReadsAs .expr expr depth) (name : String) :
    (source.enclosed name).ReadsAs .factor ((Relocation.shift (source.enclosed name) 1).expr expr)
      (depth + 5) := by
  obtain ⟨body, hlex, hexpr, hnesting⟩ := h
  have hopening : Kind.ofSymbol? '(' = some .lparen := rfl
  have hclosing : Kind.ofSymbol? ')' = some .rparen := rfl
  have hwhole := (hlex.symbol_append hopening name).append_symbol hclosing name
  rw [List.map_cons, Relocation.into_eq_shift, Relocation.map_token_map_token,
    Relocation.shift_trans_shift] at hwhole
  have hmoved := hexpr.map (Relocation.shift (source.enclosed name) 1)
  refine ⟨_, hwhole, .enclosed rfl hmoved rfl,
    Nat.le_trans (hmoved.nesting_enclosed_le rfl rfl) ?_⟩
  rw [Scan.nesting_map]
  exact Nat.add_le_add_right hnesting 5

/-- **A factor behind a sign is a factor**, one character further on. -/
theorem ReadsAs.signed (h : source.ReadsAs .factor expr depth)
    (hsymbol : Kind.ofSymbol? c = some kind) (hsign : kind = .plus ∨ kind = .minus)
    (name : String) :
    ((symbol name c).append source).ReadsAs .factor
      (.unary ⟨.ofKind kind, ((symbol name c).append source).stretch (0, 1)⟩
        ((Relocation.shift ((symbol name c).append source) 1).expr expr)) (depth + 1) := by
  obtain ⟨body, hlex, hexpr, hnesting⟩ := h
  have hmoved := hexpr.map (Relocation.shift ((symbol name c).append source) 1)
  refine ⟨_, hlex.symbol_append hsymbol name, .signed hsign hmoved,
    Nat.le_trans (hmoved.nesting_signed_le hsign) ?_⟩
  rw [Scan.nesting_map]
  exact Nat.add_le_add_right hnesting 1

/-- The sources with an operator between them. -/
def joined (name : String) (operator : Char) (source other : Source) : Source :=
  (source.append (symbol name operator)).append other

/-- **Factors with an operator between them are an expression**, the second one behind the first
one and the operator. -/
theorem ReadsAs.joined {operation : Operation} (h : source.ReadsAs .factor left depth)
    (hother : other.ReadsAs .factor right depth') (hsymbol : Kind.ofSymbol? c = some kind)
    (hop : kind.operation? = some operation) (name : String) :
    (joined name c source other).ReadsAs .expr
      (.binary ((Relocation.shift (joined name c source other) 0).expr left)
        ⟨.ofKind kind, (joined name c source other).stretch
          (source.text.toList.length, source.text.toList.length + 1)⟩
        ((Relocation.shift (joined name c source other)
          (source.text.toList.length + 1)).expr right)) (max depth depth') := by
  obtain ⟨body, hlex, hexpr, hnesting⟩ := h
  obtain ⟨others, hlex', hexpr', hnesting'⟩ := hother
  have hapart : Apart (source.append (symbol name c)).text.toList other.text.toList := by
    have hne : (symbol name c).text.toList ≠ [] := by
      rw [symbol, String.toList_singleton]
      exact List.cons_ne_nil c []
    refine .inl fun d hd ↦ ?_
    rw [toList_text_append, List.getLast?_append_of_ne_nil _ hne] at hd
    exact ends_of_mem_symbol hsymbol (List.mem_of_getLast? hd)
  have hwhole := (hlex.append_symbol hsymbol name).append hlex' hapart
  have hlength : (source.append (symbol name c)).text.toList.length =
      source.text.toList.length + 1 := by
    rw [toList_text_append, List.length_append, symbol, String.toList_singleton]
    rfl
  rw [List.map_append, List.map_singleton, Relocation.into_eq_shift, Relocation.into_eq_shift,
    Relocation.map_token_map_token, Relocation.shift_trans_shift, Relocation.token_stretch,
    hlength, List.append_assoc, List.singleton_append] at hwhole
  have hleft := hexpr.map (Relocation.shift (Source.joined name c source other) 0)
  have hright := hexpr'.map (Relocation.shift (Source.joined name c source other)
    (source.text.toList.length + 1))
  refine ⟨_, ?_, hleft.of_factors hright hop, ?_⟩
  · rwa [Int.natCast_zero, Int.add_zero, Int.add_zero] at hwhole
  · rw [hleft.nesting_operator hop, Scan.nesting_map, Scan.nesting_map]
    omega

/-! ### Parsing -/

/-- The source is lexed to these tokens, which are parsed to the expression. -/
structure Parses (source : Source) (tokens : List Token) (expr : Expr) : Prop where
  lex : source.lex = .ok { tokens }
  parse : Expr.parse tokens = { value? := some expr }

/-- What is parsed is an expression. -/
theorem Parses.readsAs (h : source.Parses tokens expr) :
    source.ReadsAs .expr expr (Scan.start.nesting tokens) := by
  obtain ⟨body, stop, rfl, hbody, hstop⟩ := exists_body_of_lex h.lex
  have hexpr := derives_of_parse hbody hstop h.parse
  have hstep : Scan.step? ⟨false, settle []⟩ stop.kind = none := by rw [hstop]; rfl
  exact ⟨body, ⟨stop, h.lex⟩, hexpr,
    Nat.le_of_eq (Scan.nesting_append_of_step? (hexpr.run? []) hstep).symm⟩

theorem ReadsAs.expr_of_factor (h : source.ReadsAs .factor expr depth) :
    source.ReadsAs .expr expr depth := by
  obtain ⟨body, hlex, hexpr, hnesting⟩ := h
  exact ⟨body, hlex, .term (.factor hexpr), hnesting⟩

/-- **An expression that does not nest too deep is parsed.** -/
theorem ReadsAs.exists_parses (h : source.ReadsAs .expr expr depth)
    (hdepth : depth ≤ nestingBudget) : ∃ tokens, source.Parses tokens expr := by
  obtain ⟨body, ⟨stop, hlex⟩, hexpr, hnesting⟩ := h
  obtain ⟨hbody, hstop⟩ := kinds_of_lex hlex
  exact ⟨_, hlex, parse_of_derives hbody hstop hexpr (Nat.le_trans hnesting hdepth)⟩

/-- The tokens of what is parsed stand on the first line, where to shift a place is to shift its
index and its column alike. -/
theorem Parses.exists_extent_eq (h : source.Parses tokens expr) {token : Token}
    (htoken : token ∈ expr.tokens) : ∃ range, token.extent = source.stretch range := by
  obtain ⟨ranges, hextents, -⟩ := exists_stretches h.lex
  obtain ⟨body, stop, rfl, hbody, hstop⟩ := exists_body_of_lex h.lex
  rw [(derives_of_parse hbody hstop h.parse).tokens_eq] at htoken
  have hmem : token ∈ body ++ [stop] := List.mem_append_left _ (List.mem_filter.1 htoken).1
  have hextent : token.extent ∈ (body ++ [stop]).map Token.extent := List.mem_map_of_mem hmem
  rw [hextents] at hextent
  obtain ⟨range, -, heq⟩ := List.mem_map.1 hextent
  exact ⟨range, heq.symm⟩

/-- The number of characters between the parentheses and the parentheses themselves. -/
theorem length_text_enclosed (name : String) (source : Source) :
    (source.enclosed name).text.toList.length = source.text.toList.length + 2 := by
  rw [enclosed, toList_text_append, toList_text_append, symbol, symbol, String.toList_singleton,
    String.toList_singleton, List.length_append, List.length_append]
  simp only [List.length_singleton]
  omega

/-- A sign in front of parentheses is a sign in front of what is in them. -/
theorem ReadsAs.negated {whole : Source} {name : String} (h : source.ReadsAs .expr expr depth)
    (hwhole : (symbol name '-').append (source.enclosed name) = whole) :
    whole.ReadsAs .factor (.unary ⟨.ofKind .minus, whole.stretch (0, 1)⟩
      ((Relocation.shift whole 2).expr expr)) (depth + 6) := by
  subst hwhole
  have hminus : Kind.ofSymbol? '-' = some .minus := rfl
  have hsigned := (h.enclosed name).signed hminus (.inr rfl) name
  rwa [← Relocation.expr_trans, Relocation.shift_trans_shift] at hsigned

/-- An operator between parentheses is an operator between what is in them. -/
theorem ReadsAs.combined {whole : Source} {name : String} {operation : Operation}
    (h : source.ReadsAs .expr left depth) (hother : other.ReadsAs .expr right depth')
    (hsymbol : Kind.ofSymbol? c = some kind) (hop : kind.operation? = some operation)
    (hwhole : Source.joined name c (source.enclosed name) (other.enclosed name) = whole) :
    whole.ReadsAs .expr (.binary ((Relocation.shift whole 1).expr left)
        ⟨.ofKind kind, whole.stretch
          (source.text.toList.length + 2, source.text.toList.length + 3)⟩
        ((Relocation.shift whole (source.text.toList.length + 4)).expr right))
      (max (depth + 5) (depth' + 5)) := by
  subst hwhole
  have hjoined := (h.enclosed name).joined (hother.enclosed name) hsymbol hop name
  have hlength : 1 + (source.text.toList.length + 2 + 1) = source.text.toList.length + 4 := by omega
  rwa [← Relocation.expr_trans, ← Relocation.expr_trans, Relocation.shift_trans_shift,
    Relocation.shift_trans_shift, length_text_enclosed, hlength, Int.natCast_add,
    Int.add_assoc] at hjoined

/-- **Texts are put together as trees are.** Of a text in parentheses the tree is that of the text,
of a text in parentheses behind a minus it is a negation of that tree, and of two texts in
parentheses with an operator between them it is that operator between their trees. All is shifted to
where the texts stand, by index and column alike since the tokens of the texts stand on first lines,
and nothing else changes. The nesting of the texts has to leave room for a sign and a parenthesis.
-/
theorem parse_composes {first second : Source} {operation : Operation}
    (hfirst : first.Parses tokens left) (hsecond : second.Parses others right)
    (hroom : Scan.start.nesting tokens + 6 ≤ nestingBudget)
    (hroom' : Scan.start.nesting others + 6 ≤ nestingBudget)
    (hsymbol : Kind.ofSymbol? c = some kind) (hop : kind.operation? = some operation) :
    (∀ token ∈ left.tokens, ∃ range, token.extent = first.stretch range) ∧
      (∀ token ∈ right.tokens, ∃ range, token.extent = second.stretch range) ∧
      (∀ whole : Source, whole.text = "(" ++ first.text ++ ")" →
        ∃ all, whole.Parses all ((Relocation.shift whole 1).expr left)) ∧
      (∀ whole : Source, whole.text = "-(" ++ first.text ++ ")" →
        ∃ all, whole.Parses all (.unary ⟨.ofKind .minus, whole.stretch (0, 1)⟩
          ((Relocation.shift whole 2).expr left))) ∧
      ∀ whole : Source,
        whole.text = "(" ++ first.text ++ ")" ++ .singleton c ++ "(" ++ second.text ++ ")" →
        ∃ all, whole.Parses all (.binary ((Relocation.shift whole 1).expr left)
          ⟨.ofKind kind, whole.stretch
            (first.text.toList.length + 2, first.text.toList.length + 3)⟩
          ((Relocation.shift whole (first.text.toList.length + 4)).expr right)) := by
  have hleft := hfirst.readsAs
  have hright := hsecond.readsAs
  refine ⟨fun _ ↦ hfirst.exists_extent_eq, fun _ ↦ hsecond.exists_extent_eq, ?_, ?_, ?_⟩
  · rintro ⟨name, text⟩ rfl
    exact (hleft.enclosed name).expr_of_factor.exists_parses (Nat.le_of_succ_le hroom)
  · rintro ⟨name, text⟩ rfl
    have htext : "-" ++ ("(" ++ first.text ++ ")") = "-(" ++ first.text ++ ")" := by
      rw [← String.append_assoc, ← String.append_assoc]
      rfl
    have hwhole : (symbol name '-').append (first.enclosed name) =
        ⟨name, "-(" ++ first.text ++ ")"⟩ := congrArg (Source.mk name) htext
    exact (hleft.negated hwhole).expr_of_factor.exists_parses hroom
  · rintro ⟨name, text⟩ rfl
    have hwhole : Source.joined name c (first.enclosed name) (second.enclosed name) =
        ⟨name, "(" ++ first.text ++ ")" ++ .singleton c ++ "(" ++ second.text ++ ")"⟩ := by
      simp only [append, enclosed, joined, symbol, String.append_assoc]
      rfl
    exact (hleft.combined hright hsymbol hop hwhole).exists_parses (by omega)

/-- The sum of `1+2` and the difference of `3-4` are the operands of the product of both in
parentheses: `*` groups neither `2` nor `3`. -/
theorem parse_composes_product : ∃ tokens others sum difference,
    (Source.mk "<stdin>" "1+2").Parses tokens sum ∧
      (Source.mk "<stdin>" "3-4").Parses others difference ∧
      ∃ all, (Source.mk "<stdin>" "(1+2)*(3-4)").Parses all
        (.binary ((Relocation.shift ⟨"<stdin>", "(1+2)*(3-4)"⟩ 1).expr sum)
          ⟨.ofKind .mul, stretch ⟨"<stdin>", "(1+2)*(3-4)"⟩ (5, 6)⟩
          ((Relocation.shift ⟨"<stdin>", "(1+2)*(3-4)"⟩ 7).expr difference)) := by
  have hlex : (Source.mk "<stdin>" "1+2").lex = .ok { tokens := [
      ⟨.literal (.int 1), stretch ⟨"<stdin>", "1+2"⟩ (0, 1)⟩,
      ⟨.ofKind .plus, stretch ⟨"<stdin>", "1+2"⟩ (1, 2)⟩,
      ⟨.literal (.int 2), stretch ⟨"<stdin>", "1+2"⟩ (2, 3)⟩,
      ⟨.ofKind .eof, stretch ⟨"<stdin>", "1+2"⟩ (3, 4)⟩] } := by decide +kernel
  have hlex' : (Source.mk "<stdin>" "3-4").lex = .ok { tokens := [
      ⟨.literal (.int 3), stretch ⟨"<stdin>", "3-4"⟩ (0, 1)⟩,
      ⟨.ofKind .minus, stretch ⟨"<stdin>", "3-4"⟩ (1, 2)⟩,
      ⟨.literal (.int 4), stretch ⟨"<stdin>", "3-4"⟩ (2, 3)⟩,
      ⟨.ofKind .eof, stretch ⟨"<stdin>", "3-4"⟩ (3, 4)⟩] } := by decide +kernel
  have hsum : (Source.mk "<stdin>" "1+2").Parses _ _ := ⟨hlex, rfl⟩
  have hdifference : (Source.mk "<stdin>" "3-4").Parses _ _ := ⟨hlex', rfl⟩
  have hmul : Kind.ofSymbol? '*' = some .mul := rfl
  obtain ⟨-, -, -, -, hwhole⟩ := parse_composes hsum hdifference (by decide) (by decide) hmul rfl
  exact ⟨_, _, _, _, hsum, hdifference, hwhole ⟨"<stdin>", "(1+2)*(3-4)"⟩ rfl⟩

end Source

end Calculator
