import Mathlib.Control.Monad.Basic
import Calculator.Proofs.Evaluation.Places
import Calculator.Proofs.Syntax.Trees
import Calculator.Proofs.Tokens.FirstLine
import Calculator.Calculation

/-!
# Where failures stand

A failure of a source stands on its first line, whatever stage it comes from. A failure of lexing is
at a character, one of parsing at a token, and one of evaluation between two tokens
(`Calculation.failure_cases`). All tokens stand on the first line one behind the other, so that the
last index of a stretch from one to another is beyond the first.

So every line that a message names is the first one, and a report quotes that line and underlines
the stretch in it (`Source.failure_stands_on_first_line`). The newline itself is the exception: as a
failure it ends on the second line.
-/

namespace Calculator

/-- The extent goes from the beginning of one token of a list to the end of another. -/
def Extent.SpansTokens (extent : Extent) (tokens : List Token) (i j : Nat) : Prop :=
  ∃ first last, tokens[i]? = some first ∧ tokens[j]? = some last ∧
    extent = ⟨first.extent.start?, last.extent.stop?⟩

/-- The ends of a list that is not empty stand in order in every list that it is a part of. -/
theorem exists_getElem?_of_sublist {list whole : List Token} (h : list.Sublist whole)
    (hne : list ≠ []) :
    ∃ i j : Nat, i ≤ j ∧ whole[i]? = list.head? ∧ whole[j]? = list.getLast? := by
  induction h with
  | slnil => exact absurd rfl hne
  | cons token _ ih =>
    obtain ⟨i, j, hij, hi, hj⟩ := ih hne
    exact ⟨i + 1, j + 1, Nat.succ_le_succ hij, hi, hj⟩
  | @cons_cons list _ token _ ih =>
    cases list with
    | nil => exact ⟨0, 0, Nat.le_refl 0, rfl, rfl⟩
    | cons second list =>
      obtain ⟨-, j, -, -, hj⟩ := ih (List.cons_ne_nil _ _)
      exact ⟨0, j + 1, Nat.zero_le _, rfl, by rw [List.getLast?_cons_cons]; exact hj⟩

/-- A node of an expression spans tokens that the expression was read from. -/
theorem Derives.spansTokens_of_mem_nodes {rank : Rank} {tokens : List Token} {expr node : Expr}
    (h : Derives rank tokens expr) (hnode : node ∈ expr.nodes) :
    ∃ i j, i ≤ j ∧ node.extent.SpansTokens tokens i j := by
  obtain ⟨first, last, hfirst, hlast, hextent⟩ := (h.wellFormed.of_mem_nodes hnode).extent_eq
  have hsublist := Expr.tokens_sublist_of_mem_nodes hnode
  rw [h.tokens_eq] at hsublist
  have hne : node.tokens ≠ [] := by
    intro hnil
    rw [hnil] at hfirst
    cases hfirst
  obtain ⟨i, j, hij, hi, hj⟩ :=
    exists_getElem?_of_sublist (hsublist.trans List.filter_sublist) hne
  exact ⟨i, j, hij, first, last, hi.trans hfirst, hj.trans hlast, hextent⟩

/-- **Where a failure behind lexing stands**: at a token that is to blame for the syntax, or between
two tokens in front of the end of the text. -/
theorem Calculation.failure_cases {body : List Token} {stop : Token} {failure : Failure}
    (hbody : ∀ token ∈ body, token.kind ≠ .eof) (hstop : stop.kind = .eof)
    (h : (ofOutcome (body ++ [stop]) (Expr.parse (body ++ [stop]))).result =
      .error (.failure failure)) :
    ∃ i j, i ≤ j ∧ failure.extent.SpansTokens (body ++ [stop]) i j ∧
      ((i = j ∧ ∃ problem, failure.cause = .invalidSyntax problem) ∨
        j < body.length ∧ ∃ problem, failure.cause = .runtime problem .program) := by
  rcases parse_outcome hbody hstop with ⟨expr, hexpr, hparse⟩ | ⟨problem, token, htoken, herror⟩
  · rw [hparse, ofOutcome] at h
    obtain ⟨node, hnode, hextent, hcause⟩ := Expr.exists_node_of_evaluate_eq_failure h
    obtain ⟨i, j, hij, first, last, hfirst, hlast, hspans⟩ := hexpr.spansTokens_of_mem_nodes hnode
    have hi := (List.getElem?_eq_some_iff.1 hfirst).1
    have hj := (List.getElem?_eq_some_iff.1 hlast).1
    refine ⟨i, j, hij, ⟨first, last, ?_, ?_, hextent.trans hspans⟩, .inr ⟨hj, hcause⟩⟩
    · rwa [List.getElem?_append_left hi]
    · rwa [List.getElem?_append_left hj]
  · rw [ofOutcome, herror] at h
    obtain rfl := Stop.failure.inj (Except.error.inj h)
    obtain ⟨i, hi⟩ := List.mem_iff_getElem?.1 htoken
    exact ⟨i, i, Nat.le_refl i, ⟨token, token, hi, hi, rfl⟩, .inl ⟨rfl, problem, rfl⟩⟩

/-! ### Messages and reports on the first line -/

/-- The failure stands on the first line of a source, from one index to a later one that is beyond
the text only if an end of the text is to blame. A failure of a newline ends on the next line. -/
structure Failure.StandsBetween (failure : Failure) (source : Source) (start stop : Nat) :
    Prop where
  begins : failure.extent.start? = some (source.place start)
  ends : ∃ last : Position, failure.extent.stop? = some last ∧ last.index = stop ∧
    (failure.cause ≠ .illegalCharacter "\n" → last = source.place stop)
  ordered : start < stop
  within : stop ≤ source.text.toList.length ∨ start = source.text.toList.length ∧
    stop = source.text.toList.length + 1 ∧ ∃ problem, failure.cause = .invalidSyntax problem
  line : ∀ c ∈ source.text.toList.take start, c ≠ '\n'
  context : ∀ problem context, failure.cause = .runtime problem context → context = .program

/-- What a message says of a failure on the first line of a source, in a program as a whole. -/
def Failure.messageOnFirstLine (failure : Failure) (name : String) : String :=
  let place := "File " ++ name ++ ", Line 1"
  let traceback :=
    match failure.cause with
    | .runtime _ _ => "Traceback (most recent call last):\n" ++ (place ++ ", <program>\n")
    | _ => ""
  traceback ++ (failure.cause.title ++ ": " ++ failure.cause.details ++ " " ++ place)

/-- The first line of a text with blanks for tabs, and below it carets from a column to another. -/
def Excerpt.underlined (text : List Char) (start stop : Nat) : String :=
  .ofList (((text.takeWhile (· ≠ '\n')).map fun c ↦ if c = '\t' then ' ' else c) ++
    '\n' :: (List.replicate start ' ' ++ List.replicate (stop - start) '^'))

theorem placeText_place (source : Source) (index : Int) :
    placeText (some (source.place index)) = .ok ("File " ++ source.name ++ ", Line 1") := by
  have hline : String.ofList (Text.integer (0 + 1)) = "1" := by decide
  show Except.ok ("File " ++ source.name ++ ", Line " ++ _) = _
  rw [show (source.place index).line = 0 from rfl, hline, String.append_assoc]
  rfl

/-- The traceback of a program as a whole has a single line. -/
theorem Context.traceback_program {place? : Option Position} {place : String}
    (h : placeText place? = .ok place) :
    Context.traceback place? .program =
      .ok ("Traceback (most recent call last):\n" ++ (place ++ ", <program>\n")) := by
  have hlines : Context.lines place? .program = .ok [place ++ ", <program>\n"] := by
    rw [program, lines, h]
    simp [lines, bind, Except.bind, pure, Except.pure, String.append_assoc]
  rw [traceback, hlines]
  simp [Except.map, String.join]

namespace Excerpt

/-- Without a newline in front of it an index is on the line that begins with the text. -/
theorem fromLineOf_of_ne_newline {text : List Char} {index : Nat}
    (h : ∀ c ∈ text.take index, c ≠ '\n') : fromLineOf text index = text := by
  have hbefore : before text index = text.take index := by
    rw [before, if_neg (Int.not_lt.2 (Int.natCast_nonneg index)), Int.toNat_natCast]
  have hall : (text.take index).reverse.takeWhile (· ≠ '\n') = (text.take index).reverse := by
    have htake : ((text.take index).reverse ++ []).takeWhile (· ≠ '\n') =
        (text.take index).reverse := takeWhile_append_of_ends (by simpa using h) (by rintro _ ⟨⟩)
    rwa [List.append_nil] at htake
  rw [fromLineOf, hbefore, hall, List.length_reverse, Nat.sub_self, List.drop_zero]

theorem marks_of_lt {start stop : Nat} (h : start < stop) :
    marks start stop = List.replicate start ' ' ++ List.replicate (stop - start) '^' := by
  have hcarets : (max ((stop : Int) - start) 1).toNat = stop - start := by omega
  rw [marks, hcarets, Int.toNat_natCast]

theorem layout_singleton (line marks : List Char) :
    layout [(line, marks)] = line.map blankTab ++ '\n' :: marks.map blankTab := by
  have hnewline : blankTab '\n' = '\n' := rfl
  simp [layout, List.intercalate, hnewline]

/-- **A stretch of the first line is quoted by that line** and underlined. -/
theorem excerpt_place {source : Source} {start stop : Nat}
    (hline : ∀ c ∈ source.text.toList.take start, c ≠ '\n') (hlt : start < stop) :
    Span.excerpt ⟨source.place start, source.place stop⟩ =
      underlined source.text.toList start stop := by
  have hcount : ((0 : Int) - 0 + 1).toNat = 1 := rfl
  have hmarks : (marks start stop).map blankTab = marks start stop := by
    rw [marks_of_lt hlt]
    simp [blankTab]
  show String.ofList (layout (rows ((0 : Int) - 0 + 1).toNat start stop
    (fromLineOf source.text.toList start))) = _
  rw [hcount, fromLineOf_of_ne_newline hline, rows, rows, if_pos rfl, layout_singleton, hmarks,
    underlined, ← marks_of_lt hlt]
  rfl

end Excerpt

namespace Failure.StandsBetween

variable {failure : Failure} {source : Source} {start stop : Nat}

/-- A failure that begins on the first line names no other. -/
theorem message_eq (h : failure.StandsBetween source start stop) :
    failure.message = .ok (failure.messageOnFirstLine source.name) := by
  have hplace := placeText_place source start
  have hsummary : failure.summary = .ok (failure.cause.title ++ ": " ++ failure.cause.details ++
      " " ++ ("File " ++ source.name ++ ", Line 1")) := by
    rw [summary, h.begins, hplace]
    rfl
  rw [message, hsummary, messageOnFirstLine, traceback?.eq_def]
  cases hcause : failure.cause with
  | runtime problem context =>
    rw [h.context problem context hcause, h.begins]
    simp only [Context.traceback_program hplace]
    rfl
  | _ => rfl

/-- Unless it is of a newline, a failure is reported with its line, underlined from its first index
to its last. -/
theorem report_eq (h : failure.StandsBetween source start stop)
    (hcause : failure.cause ≠ .illegalCharacter "\n") :
    failure.report = .ok (failure.messageOnFirstLine source.name ++ "\n\n" ++
      Excerpt.underlined source.text.toList start stop) := by
  obtain ⟨last, hstop, -, hlast⟩ := h.ends
  have hspan : failure.extent.toSpan? = some ⟨source.place start, source.place stop⟩ := by
    rw [Extent.toSpan?, h.begins, hstop, hlast hcause]
  rw [report, h.message_eq]
  simp only [bind, Except.bind, hspan, Excerpt.excerpt_place h.line h.ordered]
  rfl

end Failure.StandsBetween

/-! ### From tokens to indices -/

theorem Extent.SpansTokens.exists_ranges {source : Source} {extent : Extent} {tokens : List Token}
    {ranges : List (Int × Int)} {i j : Nat}
    (hranges : tokens.map Token.extent = ranges.map source.stretch)
    (h : extent.SpansTokens tokens i j) :
    ∃ first last, ranges[i]? = some first ∧ ranges[j]? = some last ∧
      extent = source.stretch (first.1, last.2) := by
  obtain ⟨token, other, htoken, hother, rfl⟩ := h
  have hat : ∀ {k : Nat} {token : Token}, tokens[k]? = some token →
      ∃ range, ranges[k]? = some range ∧ source.stretch range = token.extent := by
    intro k token htoken
    have hk := congrArg (·[k]?) hranges
    simp only [List.getElem?_map, htoken, Option.map_some] at hk
    exact Option.map_eq_some_iff.1 hk.symm
  obtain ⟨first, hfirst, hstart⟩ := hat htoken
  obtain ⟨last, hlast, hstop⟩ := hat hother
  exact ⟨first, last, hfirst, hlast, by rw [← hstart, ← hstop]; rfl⟩

/-- A failure at tokens stands where they do: beyond the text only if it is at the last one. -/
theorem Failure.exists_standsBetween_of_spansTokens {failure : Failure} {source : Source}
    {tokens : List Token} {i j : Nat} (hlex : source.lex = .ok { tokens }) (hij : i ≤ j)
    (hspans : failure.extent.SpansTokens tokens i j)
    (hproblem : (i = j ∧ ∃ problem, failure.cause = .invalidSyntax problem) ∨ j + 1 < tokens.length)
    (hcontext : ∀ problem context, failure.cause = .runtime problem context → context = .program) :
    ∃ start stop, failure.StandsBetween source start stop := by
  obtain ⟨ranges, hranges, hstretches⟩ := Source.exists_stretches hlex
  obtain ⟨first, last, hfirst, hlast, hextent⟩ := hspans.exists_ranges hranges
  have hstart := (hstretches.bounds first (List.mem_of_getElem? hfirst)).1
  have hlt := hstretches.lt_of_le hij hfirst hlast
  obtain ⟨start, hstart⟩ := Int.eq_ofNat_of_zero_le hstart
  obtain ⟨stop, hstop⟩ : ∃ stop : Nat, last.2 = stop := Int.eq_ofNat_of_zero_le (by omega)
  rw [hstart, hstop] at hextent hlt
  refine ⟨start, stop, by rw [hextent]; rfl, ⟨_, by rw [hextent]; rfl, rfl, fun _ ↦ rfl⟩,
    Int.ofNat_lt.1 hlt, ?_,
    fun c hc ↦ Source.ne_newline_of_lex hlex c (List.mem_of_mem_take hc), hcontext⟩
  rcases hproblem with ⟨rfl, hproblem⟩ | hbefore
  · obtain rfl := Option.some.inj (hfirst.symm.trans hlast)
    rcases hstretches.within first (List.mem_of_getElem? hfirst) with hwithin | rfl
    · exact .inl (by omega)
    · exact .inr ⟨(Int.ofNat.inj hstart).symm, (Int.ofNat.inj hstop).symm, hproblem⟩
  · have hlength := congrArg List.length hranges
    rw [List.length_map, List.length_map] at hlength
    have hwithin := hstretches.le_of_lt hlast (hlength ▸ hbefore)
    exact .inl (Int.ofNat_le.1 (hstop ▸ hwithin))

namespace Source

variable {source : Source} {failure : Failure}

/-- A source that fails does so in lexing, or what it was lexed to fails. -/
theorem calculate_eq_failure (h : source.calculate.result = .error (.failure failure)) :
    (∃ tokens, source.lex = .ok { tokens, failure? := some failure }) ∨
      ∃ tokens, source.lex = .ok { tokens } ∧
        (Calculation.ofOutcome tokens (Expr.parse tokens)).result = .error (.failure failure) := by
  rw [calculate] at h
  split at h
  · cases h
  · next tokens hlex => exact .inr ⟨tokens, hlex, h⟩
  · next tokens other hlex =>
    obtain rfl := Stop.failure.inj (Except.error.inj h)
    exact .inl ⟨tokens, hlex⟩

theorem exists_standsBetween_of_illegal {tokens : List Token}
    (hlex : source.lex = .ok { tokens, failure? := some failure }) :
    ∃ start stop, failure.StandsBetween source start stop := by
  obtain ⟨index, c, stop, hc, hline, hcause, hextent, hstop, hplace⟩ := exists_place_of_lex hlex
  refine ⟨index, index + 1, by rw [hextent], ⟨stop, by rw [hextent], hstop, fun hne ↦ ?_⟩,
    Nat.lt_succ_self index, .inl (List.getElem?_eq_some_iff.1 hc).1, hline,
    fun problem context hruntime ↦ ?_⟩
  · refine hplace ?_
    rintro rfl
    exact hne hcause
  · cases hcause.symm.trans hruntime

/-- **A failure stands on the first line** of its source. -/
theorem exists_standsBetween (h : source.calculate.result = .error (.failure failure)) :
    ∃ start stop, failure.StandsBetween source start stop := by
  rcases calculate_eq_failure h with ⟨tokens, hlex⟩ | ⟨tokens, hlex, hfailed⟩
  · exact exists_standsBetween_of_illegal hlex
  · obtain ⟨body, stop, rfl, hbody, hstop⟩ := exists_body_of_lex hlex
    obtain ⟨i, j, hij, hspans, ⟨rfl, problem, hcause⟩ | ⟨hj, problem, hcause⟩⟩ :=
      Calculation.failure_cases hbody hstop hfailed
    · refine Failure.exists_standsBetween_of_spansTokens hlex hij hspans
        (.inl ⟨rfl, problem, hcause⟩) ?_
      intro other context hruntime
      cases hcause.symm.trans hruntime
    · refine Failure.exists_standsBetween_of_spansTokens hlex hij hspans
        (.inr (by simpa using hj)) ?_
      intro other context hruntime
      exact (Cause.runtime.inj (hcause.symm.trans hruntime)).2.symm

/-- **Failures stand on the first line.** A failure of a source goes from one index on its first
line to a later one, which is beyond the text only if the end of the text is to blame. So its
message names the first line, and unless it is of a newline its report is the message, that line
with blanks for tabs, and below it as many carets as the failure has characters, from its first
column on. -/
theorem failure_stands_on_first_line (h : source.calculate.result = .error (.failure failure)) :
    ∃ start stop, failure.StandsBetween source start stop ∧
      failure.message = .ok (failure.messageOnFirstLine source.name) ∧
      (failure.cause ≠ .illegalCharacter "\n" →
        failure.report = .ok (failure.messageOnFirstLine source.name ++ "\n\n" ++
          Excerpt.underlined source.text.toList start stop)) := by
  obtain ⟨start, stop, hstands⟩ := exists_standsBetween h
  exact ⟨start, stop, hstands, hstands.message_eq, hstands.report_eq⟩

/-- A divisor equal to zero is underlined from its first token to its last, behind a tab that is
shown as a blank. -/
theorem division_stands_on_first_line :
    (Source.mk "<stdin>" "2\t/ (1 - 1)").calculate.result =
        .error (.failure ⟨.runtime (.arithmetic .divisionByZero) .program,
          (Source.mk "<stdin>" "2\t/ (1 - 1)").stretch (5, 10)⟩) ∧
      Failure.report ⟨.runtime (.arithmetic .divisionByZero) .program,
          (Source.mk "<stdin>" "2\t/ (1 - 1)").stretch (5, 10)⟩ =
        .ok ("Traceback (most recent call last):\nFile <stdin>, Line 1, <program>\n" ++
          "Runtime Error: Division by zero File <stdin>, Line 1\n\n" ++
          "2 / (1 - 1)\n     ^^^^^") := by
  have hresult : (Source.mk "<stdin>" "2\t/ (1 - 1)").calculate.result =
      .error (.failure ⟨.runtime (.arithmetic .divisionByZero) .program,
        (Source.mk "<stdin>" "2\t/ (1 - 1)").stretch (5, 10)⟩) := by decide +kernel
  obtain ⟨start, stop, hstands, -, hreport⟩ := failure_stands_on_first_line hresult
  obtain rfl : 5 = start :=
    Int.ofNat.inj (congrArg Position.index (Option.some.inj hstands.begins))
  obtain ⟨last, hlast, hstop, -⟩ := hstands.ends
  obtain rfl : 10 = stop :=
    Int.ofNat.inj ((congrArg Position.index (Option.some.inj hlast)).trans hstop)
  exact ⟨hresult, (hreport Cause.noConfusion).trans (congrArg Except.ok (by decide))⟩

end Source

end Calculator
