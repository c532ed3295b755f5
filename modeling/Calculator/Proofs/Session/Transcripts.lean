import Calculator.Proofs.Calculation.Answers

/-!
# Sessions one after the other

What a session shows for a line depends on the line alone (`Session.Shows`), so that what it shows
for lines is what it shows for each of them, one after the other (`Session.Transcribes`). A session
that goes on to the end of its input could have gone on with more: it would have shown the same
before, and from there on what a session shows that begins there. A session that ended before is not
changed by any more input (`Session.run_append`).

An input can be taken apart behind a line feed only, as only there it is certain that a line ends.
All of this holds in every style, which shows in the reports on failures and nowhere else.
-/

namespace Calculator.Session

/-- What is shown for a line behind the prompt, if the line is not the one to leave: nothing for a
blank line, or the number that it comes to, or in red the report on its failure. -/
inductive Shows (style : Style) (line : List Char) : String → Prop where
  | nothing (hblank : Text.Strips line []) : Shows style line ""
  | number {text : List Char} {number : Number} {shown : String}
      (hstrips : Text.Strips line text) (hne : text ≠ [])
      (hresult : (sourceOf text).calculate.result = .ok number) (htext : number.text = .ok shown) :
    Shows style line ("fetch < " ++ shown ++ "\n")
  | failure {text : List Char} {failure : Failure} {report : String}
      (hstrips : Text.Strips line text) (hne : text ≠ [])
      (hresult : (sourceOf text).calculate.result = .error (.failure failure))
      (hreport : failure.report = .ok report) :
    Shows style line (style.red ++ report ++ style.plain ++ "\n")

/-- What is shown for lines that are all answered: for each line the prompt and its answer. -/
inductive Transcribes (style : Style) : List (List Char) → String → Prop where
  | nil : Transcribes style [] ""
  | cons {line : List Char} {lines : List (List Char)} {text shown : String}
      (hstays : ¬ Text.Strips line ['!', 'e', 'x', 'i', 't']) (hshows : Shows style line text)
      (hlines : Transcribes style lines shown) :
    Transcribes style (line :: lines) ("abacus > " ++ text ++ shown)

/-- A session ends at the line: it is the line to leave, or its calculation is given up. -/
inductive EndsAt (line : List Char) : Ending → Prop where
  | left (hleave : Text.Strips line ['!', 'e', 'x', 'i', 't']) : EndsAt line .left
  | crashed {text : List Char} {fault : Fault} (hstrips : Text.Strips line text)
      (hstays : text ≠ ['!', 'e', 'x', 'i', 't']) (hexceeds : (sourceOf text).Exceeds fault) :
    EndsAt line (.crashed fault)

theorem EndsAt.ne_exhausted {line : List Char} {ending : Ending} (h : EndsAt line ending) :
    ending ≠ .exhausted := by
  cases h <;> exact Ending.noConfusion

@[simp] theorem after_after (first second : String) (transcript : Transcript) :
    (transcript.after second).after first = transcript.after (first ++ second) := by
  simp [Transcript.after, String.append_assoc]

section Lines

variable {line text : List Char} {shown : String} {style : Style}

/-- An answer is what is shown. -/
theorem shows_of_answer (hstrips : Text.Strips line text) (hne : text ≠ [])
    (h : answer (sourceOf text).calculate style = .ok shown) : Shows style line shown := by
  rw [answer] at h
  split at h
  · next number hresult =>
    cases htext : number.text with
    | error fault => rw [htext] at h; cases h
    | ok text =>
      rw [htext] at h
      obtain rfl := Except.ok.inj h
      exact .number hstrips hne hresult htext
  · next failure hresult =>
    cases hreport : failure.report with
    | error fault => rw [hreport] at h; cases h
    | ok report =>
      rw [hreport] at h
      obtain rfl := Except.ok.inj h
      exact .failure hstrips hne hresult hreport
  · cases h

theorem shows_of_reply (hstrips : Text.Strips line text) (hstays : text ≠ leave)
    (h : reply false line style = .shown shown) : Shows style line shown := by
  by_cases hblank : text = []
  · rw [reply, hstrips.strip_eq, if_neg hstays, if_pos hblank] at h
    obtain rfl := Reply.shown.inj h
    exact .nothing (hblank ▸ hstrips)
  rw [reply_of_strips hstrips hstays hblank] at h
  split at h
  · next answered hanswer =>
    obtain rfl := Reply.shown.inj h
    exact shows_of_answer hstrips hblank hanswer
  · cases h

/-- **A line ends the session or is answered by itself**, whatever lines follow. -/
theorem onLines_cons_cases (style : Style) (line : List Char) :
    (∃ ending, EndsAt line ending ∧
        ∀ lines, onLines false (line :: lines) style = ⟨prompt, ending⟩) ∨
      ¬ Text.Strips line leave ∧ ∃ shown, Shows style line shown ∧
        ∀ lines, onLines false (line :: lines) style =
          (onLines false lines style).after (prompt ++ shown) := by
  have hstrips := Text.strips_strip line
  rcases reply_cases style hstrips with ⟨hleave, hreply⟩ |
    ⟨hstays, ⟨-, shown, hreply⟩ | ⟨fault, hexceeds, hreply⟩⟩
  · refine .inl ⟨.left, .left (Text.strip_eq_iff.1 hleave), fun lines ↦ ?_⟩
    rw [onLines, hreply]
  · refine .inr ⟨mt Text.Strips.strip_eq hstays, shown, shows_of_reply hstrips hstays hreply,
      fun lines ↦ ?_⟩
    rw [onLines, hreply]
  · refine .inl ⟨.crashed fault, .crashed hstrips hstays hexceeds, fun lines ↦ ?_⟩
    rw [onLines, hreply]
    exact congrArg (Transcript.mk · _) String.append_empty

/-- **A session on lines** answers them all and goes on with any more, or it ends at one of them and
does not come to any more. -/
theorem onLines_append_cases (style : Style) (lines : List (List Char)) :
    (∃ shown, Transcribes style lines shown ∧
        ∀ more, onLines false (lines ++ more) style = (onLines false more style).after shown) ∨
      ∃ before line later shown ending, lines = before ++ line :: later ∧
        Transcribes style before shown ∧ EndsAt line ending ∧
        ∀ more, onLines false (lines ++ more) style = ⟨shown ++ prompt, ending⟩ := by
  induction lines with
  | nil => exact .inl ⟨"", .nil, fun more ↦ by simp [Transcript.after]⟩
  | cons line lines ih =>
    rcases onLines_cons_cases style line with ⟨ending, hends, hline⟩ |
      ⟨hstays, text, hshows, hline⟩
    · refine .inr ⟨[], line, lines, "", ending, rfl, .nil, hends, fun more ↦ ?_⟩
      rw [List.cons_append, hline, String.empty_append]
    · rcases ih with ⟨shown, hlines, hmore⟩ |
        ⟨before, last, later, shown, ending, rfl, hbefore, hends, hmore⟩
      · refine .inl ⟨_, .cons hstays hshows hlines, fun more ↦ ?_⟩
        rw [List.cons_append, hline, hmore, after_after]
        rfl
      · refine .inr ⟨line :: before, last, later, _, ending, rfl, .cons hstays hshows hbefore,
          hends, fun more ↦ ?_⟩
        rw [List.cons_append, hline, hmore]
        simp [Transcript.after, prompt, String.append_assoc]

end Lines

/-- **A session on one input and then another.** If the first input is answered to its end, the
session shows what it showed for its lines, and then what a session on the other input shows, which
ends as that one does. If the session ended before, the other input is not looked at. -/
theorem run_append (style : Style) {input : List Char}
    (hends : input = [] ∨ input.getLast? = some '\n') (more : List Char) :
    ((run false input style).ending = .exhausted → ∃ lines shown, Text.IsLines input lines ∧
        Transcribes style lines shown ∧
        (run false input style).shown = shown ++ "abacus > " ++ "\n" ∧
        run false (input ++ more) style =
          ⟨shown ++ (run false more style).shown, (run false more style).ending⟩) ∧
      ((run false input style).ending ≠ .exhausted →
        run false (input ++ more) style = run false input style ∧
        ∃ before line later shown, Text.IsLines input (before ++ line :: later) ∧
          Transcribes style before shown ∧
          (run false input style).shown = shown ++ "abacus > " ∧
          EndsAt line (run false input style).ending) := by
  have hlines := Text.lines_eq_iff.1 (Eq.refl (Text.lines input))
  have happend := Text.lines_append hends more
  simp only [run]
  rw [happend]
  rcases onLines_append_cases style (Text.lines input) with ⟨shown, hshown, hmore⟩ |
    ⟨before, line, later, shown, ending, hsplit, hshown, hend, hmore⟩
  · have halone := hmore []
    rw [List.append_nil] at halone
    rw [halone]
    exact ⟨fun _ ↦ ⟨_, shown, hlines, hshown, String.append_assoc.symm, hmore _⟩,
      fun hne ↦ absurd rfl hne⟩
  · have halone := hmore []
    rw [List.append_nil] at halone
    rw [halone]
    exact ⟨fun heq ↦ absurd heq hend.ne_exhausted,
      fun _ ↦ ⟨hmore _, before, line, later, shown, hsplit ▸ hlines, hshown, rfl, hend⟩⟩

/-- Behind a failure, in red on an ANSI terminal, a session goes on, and behind the line to leave it
does not. -/
theorem run_append_two_inputs :
    ((run false "1/0\n".toList .ansi).ending = .exhausted ∧
      ∃ lines shown, Text.IsLines "1/0\n".toList lines ∧ Transcribes .ansi lines shown ∧
        (run false "1/0\n".toList .ansi).shown = shown ++ "abacus > " ++ "\n" ∧
        run false ("1/0\n".toList ++ "1+1".toList) .ansi =
          ⟨shown ++ (run false "1+1".toList .ansi).shown,
            (run false "1+1".toList .ansi).ending⟩) ∧
    (run false "!exit\n".toList .ansi).ending ≠ .exhausted ∧
      run false ("!exit\n".toList ++ "1+1".toList) .ansi = run false "!exit\n".toList .ansi := by
  have hfailed : (run false "1/0\n".toList .ansi).ending = .exhausted := by decide +kernel
  have hleft : (run false "!exit\n".toList .ansi).ending ≠ .exhausted := by decide +kernel
  have hgoes := (run_append .ansi (.inr (by decide : "1/0\n".toList.getLast? = _))
    "1+1".toList).1 hfailed
  have hends := (run_append .ansi (.inr (by decide : "!exit\n".toList.getLast? = _))
    "1+1".toList).2 hleft
  exact ⟨⟨hfailed, hgoes⟩, hleft, hends.1⟩

end Calculator.Session
