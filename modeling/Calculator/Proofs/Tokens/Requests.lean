import Calculator.Proofs.Source.Lines
import Calculator.Proofs.Tokens.Lexing

/-!
# Asking a cursor in any order

A cursor can be asked for three things: to advance, for the numeral under it, and for the tokens
from there on. It may be asked as often and in any order, past the end of the text, behind a
character that begins no token, and behind a numeral that has no value.

Whatever it is asked and whatever the answer, a cursor does nothing but advance. So there is one
invariant for all requests: the cursor is the one at the beginning of the source, a number of
characters on (`Cursor.Leads`). The places that an answer names are places of such cursors
(`Cursor.LeadsAlong`), although the end of a symbol, and the end of the token for the end of the
text, are found without a look at the character: neither of them stands at a newline.

What line and column such a place has is said by the text in front of its index alone
(`Position.IsIn`).
-/

namespace Calculator

/-! ### Places by the text in front of them -/

/-- The index at which the last line of a text begins: behind the last newline, or at the beginning
of the text if there is none. -/
def lastLineStart (text : List Char) : Nat := (text.reverse.dropWhile (· ≠ '\n')).length

/-- The text of a source in front of an index; all of it in front of an index past the end. -/
def Source.before (source : Source) (index : Int) : List Char :=
  source.text.toList.take index.toNat

/-- The place has the line and the column that the text in front of its index gives it. -/
structure Position.IsIn (position : Position) (source : Source) : Prop where
  source_eq : position.source = source
  index_nonneg : 0 ≤ position.index
  line_eq : position.line = (source.before position.index).count '\n'
  column_eq : position.column = position.index - lastLineStart (source.before position.index)

theorem lastLineStart_append_newline (text : List Char) :
    lastLineStart (text ++ ['\n']) = text.length + 1 := by
  simp [lastLineStart]

theorem lastLineStart_append_of_ne {c : Char} (h : c ≠ '\n') (text : List Char) :
    lastLineStart (text ++ [c]) = lastLineStart text := by
  simp [lastLineStart, h]

namespace Source

variable {source : Source}

theorem before_succ {index : Int} (h : 0 ≤ index) :
    source.before (index + 1) =
      source.before index ++ source.text.toList[index.toNat]?.toList := by
  rw [before, show (index + 1).toNat = index.toNat + 1 by omega, List.take_add_one]
  rfl

theorem length_before {index : Int} {c : Char} (h : 0 ≤ index)
    (hc : source.text.toList[index.toNat]? = some c) : (source.before index).length = index := by
  have := (List.getElem?_eq_some_iff.1 hc).1
  rw [before, List.length_take]
  omega

theorem index_positionAt (source : Source) (index : Nat) :
    (source.positionAt index).index = index := by
  rw [positionAt, Cursor.index_position_advanceBy]
  exact Int.zero_add _

end Source

/-- **The step.** A place that is left keeps line and column, if the character that is left behind
is the one at its index. Past the end of the text there is none. -/
theorem Position.IsIn.advance {source : Source} {position : Position} (h : position.IsIn source) :
    (position.advance source.text.toList[position.index.toNat]?).IsIn source := by
  obtain ⟨hsource, hindex, hline, hcolumn⟩ := h
  have hbefore := @Source.before_succ source _ hindex
  rcases hleft : source.text.toList[position.index.toNat]? with - | c
  · rw [hleft, Option.toList_none, List.append_nil] at hbefore
    refine ⟨?_, ?_, ?_, ?_⟩ <;> simp [Position.advance, hsource, hbefore, hline, hcolumn] <;> omega
  rw [hleft, Option.toList_some] at hbefore
  by_cases hc : c = '\n'
  · subst hc
    have hstart := lastLineStart_append_newline (source.before position.index)
    have hlength := Source.length_before hindex hleft
    refine ⟨?_, ?_, ?_, ?_⟩ <;>
      simp [Position.advance, hsource, hbefore, hline, hstart, hlength]
    omega
  · have hstart := lastLineStart_append_of_ne hc (source.before position.index)
    refine ⟨?_, ?_, ?_, ?_⟩ <;>
      simp [Position.advance, hc, hsource, hbefore, hline, hcolumn, hstart] <;> omega

/-- **A cursor keeps line and column** as it advances from the beginning of a source. -/
theorem Source.isIn_positionAt (source : Source) (index : Nat) :
    (source.positionAt index).IsIn source := by
  induction index with
  | zero => exact ⟨rfl, Int.le_refl 0, rfl, rfl⟩
  | succ index ih =>
    have hstep := ih.advance
    rwa [index_positionAt, Int.toNat_natCast, ← positionAt_succ] at hstep

/-! ### Requests -/

namespace Cursor

/-- What a cursor can be asked for. -/
inductive Request where
  /-- To go one character on. -/
  | advance
  /-- For the numeral under it. -/
  | numeral
  /-- For the tokens from it on. -/
  | lex
deriving DecidableEq

/-- What a cursor answers. -/
inductive Reply where
  | advanced
  | numeral (answer : Except Fault Token)
  | lexed (answer : Except Fault Lexed)

namespace Reply

/-- The tokens of an answer. -/
def tokens : Reply → List Token
  | numeral (.ok token) => [token]
  | lexed (.ok result) => result.tokens
  | _ => []

/-- The failure of an answer, if it has one. -/
def failure? : Reply → Option Failure
  | lexed (.ok result) => result.failure?
  | _ => none

/-- The stretches that an answer names. -/
def extents (reply : Reply) : List Extent :=
  reply.tokens.map Token.extent ++ reply.failure?.toList.map Failure.extent

end Reply

/-- The answer to a request, and the cursor after it. -/
def ask (cursor : Cursor) : Request → Reply × Cursor
  | .advance => (.advanced, cursor.advance)
  | .numeral => (.numeral cursor.numeral.1, cursor.numeral.2)
  | .lex => (.lexed cursor.lex.1, cursor.lex.2)

/-- The answers to requests, one after the other, with the cursor after each. -/
def answers (cursor : Cursor) : List Request → List (Reply × Cursor)
  | [] => []
  | request :: requests => cursor.ask request :: (cursor.ask request).2.answers requests

/-- The cursor, and the cursors after requests, one after the other. -/
def stations (cursor : Cursor) (requests : List Request) : List Cursor :=
  cursor :: (cursor.answers requests).map Prod.snd

/-! ### What every request keeps -/

/-- The other cursor is a number of characters on. -/
def Leads (cursor other : Cursor) : Prop := ∃ n, other = cursor.advanceBy n

/-- The ends of a stretch are places that the cursor comes to. -/
def LeadsAlong (cursor : Cursor) (extent : Extent) : Prop :=
  ∀ position, extent.start? = some position ∨ extent.stop? = some position →
    ∃ other, cursor.Leads other ∧ position = other.position

variable {cursor other : Cursor}

theorem Leads.refl (cursor : Cursor) : cursor.Leads cursor := ⟨0, rfl⟩

theorem Leads.advanceBy (h : cursor.Leads other) (n : Nat) : cursor.Leads (other.advanceBy n) := by
  obtain ⟨m, rfl⟩ := h
  exact ⟨m + n, (advanceBy_add m n cursor).symm⟩

theorem Leads.advance (h : cursor.Leads other) : cursor.Leads other.advance := h.advanceBy 1

theorem Leads.index_le (h : cursor.Leads other) : cursor.position.index ≤ other.position.index := by
  obtain ⟨n, rfl⟩ := h
  rw [index_position_advanceBy]
  omega

theorem Leads.along {start stop : Cursor} (hstart : cursor.Leads start)
    (hstop : cursor.Leads stop) :
    cursor.LeadsAlong ⟨some start.position, some stop.position⟩ := by
  rintro position (h | h)
  · exact ⟨start, hstart, (Option.some.inj h).symm⟩
  · exact ⟨stop, hstop, (Option.some.inj h).symm⟩

theorem Leads.along_token (h : cursor.Leads other) (lexeme : Lexeme) (length : Nat) :
    cursor.LeadsAlong (other.token lexeme length).extent := h.along (h.advanceBy length)

theorem Leads.along_illegal {now : Cursor} (h : cursor.Leads other) (hnow : cursor.Leads now)
    (c : Char) : cursor.LeadsAlong (other.illegal now c).extent := h.along hnow

/-- At the end of the text there is no newline to leave behind. -/
theorem Leads.along_finish (h : cursor.Leads other) (hrest : other.rest = []) :
    cursor.LeadsAlong other.finish.extent := by
  have hstop : other.position.advance none = other.advance.position := by
    rw [Cursor.advance, current?, hrest]
    rfl
  rw [finish, Span.single, hstop]
  exact h.along h.advance

/-- An answer with the cursor after it, from where the first cursor leads: what it names stands
where the first cursor comes to, and a failure ends where the cursor is left. -/
structure AnswersAlong (cursor : Cursor) (answer : Reply × Cursor) : Prop where
  leads : cursor.Leads answer.2
  tokens : ∀ token ∈ answer.1.tokens, cursor.LeadsAlong token.extent
  failure : ∀ failure, answer.1.failure? = some failure →
    cursor.LeadsAlong failure.extent ∧ failure.extent.stop? = some answer.2.position

/-- An answer without a failure. -/
theorem AnswersAlong.of_tokens {answer : Reply × Cursor} (hleads : cursor.Leads answer.2)
    (htokens : ∀ token ∈ answer.1.tokens, cursor.LeadsAlong token.extent)
    (hnone : answer.1.failure? = none) : cursor.AnswersAlong answer where
  leads := hleads
  tokens := htokens
  failure failure hfailure := by
    rw [hnone] at hfailure
    cases hfailure

/-- A fault names no place. -/
theorem Leads.answersAlong_fault (h : cursor.Leads other) (fault : Fault) :
    cursor.AnswersAlong (.lexed (.error fault), other) :=
  .of_tokens h (fun _ htoken ↦ absurd htoken List.not_mem_nil) rfl

/-- The numeral under a cursor, also where nobody but a caller would look for one. -/
theorem Leads.numeral (h : cursor.Leads other) :
    cursor.AnswersAlong (.numeral other.numeral.1, other.numeral.2) := by
  refine .of_tokens (h.advanceBy _) (fun token htoken ↦ ?_) rfl
  rw [numeral_eq rfl] at htoken
  rcases hlexeme : (Numeral.ofText other.rest).lexeme with fault | lexeme
  · rw [hlexeme] at htoken
    exact absurd htoken List.not_mem_nil
  · rw [hlexeme] at htoken
    obtain rfl := List.mem_singleton.1 htoken
    exact h.along_token lexeme _

/-- **Lexing does nothing but advance.** -/
theorem Leads.lexFrom {found : List Token} (h : cursor.Leads other)
    (hfound : ∀ token ∈ found, cursor.LeadsAlong token.extent) :
    cursor.AnswersAlong (.lexed (other.lexFrom found).1, (other.lexFrom found).2) := by
  -- the characters that are left get fewer with every round
  induction hlength : other.rest.length using Nat.strongRecOn generalizing other found with
  | ind length ih =>
    rcases hrest : other.rest with - | ⟨c, after⟩
    · rw [lexFrom_of_nil hrest]
      refine .of_tokens h (fun token htoken ↦ ?_) rfl
      rcases List.mem_cons.1 (List.mem_reverse.1 htoken) with rfl | hmem
      · exact h.along_finish hrest
      · exact hfound token hmem
    have hadvance : other.advance.rest.length < length := hlength ▸ length_rest_advance_lt hrest
    rw [lexFrom_of_cons hrest]
    split
    · exact ih _ hadvance h.advance hfound rfl
    split
    · next hdigit =>
      have hnumeral := h.numeral
      have hless : other.numeral.2.rest.length < length :=
        hlength ▸ length_rest_numeral_lt hrest hdigit
      rcases heq : other.numeral with ⟨fault | token, behind⟩
      · rw [heq] at hnumeral
        exact hnumeral.leads.answersAlong_fault fault
      · rw [heq] at hnumeral hless
        refine ih _ hless hnumeral.leads (List.forall_mem_cons.2 ⟨?_, hfound⟩) rfl
        exact hnumeral.tokens token (List.mem_singleton_self token)
    split
    · next kind hsymbol =>
      refine ih _ hadvance h.advance (List.forall_mem_cons.2 ⟨?_, hfound⟩) rfl
      rw [symbol_eq_token hrest hsymbol]
      exact h.along_token _ 1
    · refine ⟨h.advance, fun token htoken ↦ hfound token (List.mem_reverse.1 htoken), ?_⟩
      rintro failure hfailure
      obtain rfl := Option.some.inj hfailure
      exact ⟨h.along_illegal h.advance c, rfl⟩

/-- **What lexing finds is what is seen from the cursor that it leaves.** It can look different only
after another request. -/
theorem seenFrom_of_lex {after : Cursor} {lexed : Lexed} (h : cursor.lex = (.ok lexed, after)) :
    lexed.seenFrom after = lexed := by
  have hanswers := (Leads.refl cursor).lexFrom fun _ htoken ↦ absurd htoken List.not_mem_nil
  rw [← lex, h] at hanswers
  obtain ⟨tokens, - | failure⟩ := lexed
  · rfl
  · have hstop : failure.extent.stop? = some after.position :=
      (hanswers.failure failure rfl).2
    rw [Lexed.seenFrom, Option.map_some, Failure.seenFrom, ← hstop]

/-- **Every request does nothing but advance.** -/
theorem Leads.ask (h : cursor.Leads other) (request : Request) :
    cursor.AnswersAlong (other.ask request) := by
  cases request with
  | advance => exact .of_tokens h.advance (fun _ htoken ↦ absurd htoken List.not_mem_nil) rfl
  | numeral => exact h.numeral
  | lex => exact h.lexFrom fun _ htoken ↦ absurd htoken List.not_mem_nil

/-- And so do any requests one after the other. -/
theorem Leads.answers (h : cursor.Leads other) (requests : List Request) :
    ∀ answer ∈ other.answers requests, cursor.AnswersAlong answer := by
  induction requests generalizing other with
  | nil => exact fun _ hmem ↦ absurd hmem List.not_mem_nil
  | cons request requests ih =>
    exact List.forall_mem_cons.2 ⟨h.ask request, ih (h.ask request).leads⟩

theorem leads_of_mem_stations (requests : List Request) :
    ∀ station ∈ cursor.stations requests, cursor.Leads station := by
  refine List.forall_mem_cons.2 ⟨.refl cursor, List.forall_mem_map.2 fun answer hanswer ↦ ?_⟩
  exact ((Leads.refl cursor).answers requests answer hanswer).leads

/-- No request goes back. -/
theorem pairwise_stations (cursor : Cursor) (requests : List Request) :
    (cursor.stations requests).Pairwise (·.position.index ≤ ·.position.index) := by
  induction requests generalizing cursor with
  | nil => exact List.pairwise_singleton _ _
  | cons request requests ih =>
    refine List.pairwise_cons.2 ⟨fun station hstation ↦ ?_, ih (cursor.ask request).2⟩
    exact (leads_of_mem_stations (request :: requests) station
      (List.mem_cons_of_mem _ hstation)).index_le

end Cursor

/-! ### Cursors of a source -/

namespace Source

variable {source : Source} {cursor : Cursor}

theorem isIn_of_leads (h : source.cursor.Leads cursor) : cursor.position.IsIn source := by
  obtain ⟨n, rfl⟩ := h
  exact source.isIn_positionAt n

/-- The character under a cursor is the one at its index, and past the end of the text there is
none. -/
theorem current?_of_leads (h : source.cursor.Leads cursor) :
    cursor.current? = source.text.toList[cursor.position.index.toNat]? := by
  obtain ⟨n, rfl⟩ := h
  have hindex : (source.cursor.advanceBy n).position.index = n := source.index_positionAt n
  rw [hindex, Cursor.current?, Cursor.rest_advanceBy, List.head?_drop]
  rfl

/-- **Whatever a cursor is asked, it keeps its place**: after any requests, in any order, its index
has not decreased, its line and column are those that the text in front of its index gives it, and
the current character is the one at the index. The same line and column have all places that are
named in an answer, and a failure ends where the cursor is left. -/
theorem cursor_keeps_place (source : Source) (requests : List Cursor.Request) :
    (source.cursor.stations requests).Pairwise (·.position.index ≤ ·.position.index) ∧
      (∀ station ∈ source.cursor.stations requests, station.position.IsIn source ∧
        station.current? = source.text.toList[station.position.index.toNat]? ∧
        (station.current? = none ↔ source.text.toList.length ≤ station.position.index)) ∧
      ∀ answer ∈ source.cursor.answers requests,
        (∀ extent ∈ answer.1.extents, ∀ position,
          extent.start? = some position ∨ extent.stop? = some position → position.IsIn source) ∧
        ∀ failure, answer.1.failure? = some failure →
          failure.extent.stop? = some answer.2.position := by
  refine ⟨source.cursor.pairwise_stations requests, fun station hstation ↦ ?_,
    fun answer hanswer ↦ ?_⟩
  · have hleads := Cursor.leads_of_mem_stations requests station hstation
    have hplace := isIn_of_leads hleads
    have hcurrent := current?_of_leads hleads
    refine ⟨hplace, hcurrent, ?_⟩
    rw [hcurrent, List.getElem?_eq_none_iff]
    have := hplace.index_nonneg
    omega
  · have halong := (Cursor.Leads.refl source.cursor).answers requests answer hanswer
    have hplaces : ∀ extent, source.cursor.LeadsAlong extent → ∀ position,
        extent.start? = some position ∨ extent.stop? = some position → position.IsIn source := by
      intro extent hextent position hposition
      obtain ⟨other, hleads, rfl⟩ := hextent position hposition
      exact isIn_of_leads hleads
    refine ⟨fun extent hextent ↦ ?_, fun failure hfailure ↦ (halong.failure failure hfailure).2⟩
    rcases List.mem_append.1 hextent with hmem | hmem
    · obtain ⟨token, htoken, rfl⟩ := List.mem_map.1 hmem
      exact hplaces _ (halong.tokens token htoken)
    · obtain ⟨failure, hfailure, rfl⟩ := List.mem_map.1 hmem
      exact hplaces _ (halong.failure failure (Option.mem_toList.1 hfailure)).1

end Source

end Calculator
