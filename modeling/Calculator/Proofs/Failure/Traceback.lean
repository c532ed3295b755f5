import Calculator.Failure.Report
import Mathlib.Data.List.Basic

/-!
# Tracebacks of any length

A traceback has a line for each frame of the context, the outermost first, and the line of a frame
shows the place where the calculation stood in it. Which place that is depends on the *next* line:
in a frame that entered another one the calculation stands where the other was entered, and in the
last one it stands where the failure begins (`Context.placeIn`).

The context is walked the other way, from the innermost frame outwards, with the place at hand when
a frame is met. So the walk is followed with any place in the role of the failure's. One more frame
inside adds a line at the end and changes no place in the frames around it, if the place at hand
when the walk leaves it is the one where it was entered (`Context.placeIn_cons_of_lt`). Where the
outermost frame was entered is the place at hand when the walk is over, and nothing shows it.
-/

namespace Calculator

/-- The file and the line of a place, in words. -/
def Position.words (position : Position) : String :=
  "File " ++ position.source.name ++ ", Line " ++ .ofList (Text.integer (position.line + 1))

/-- The line of a frame in which the calculation stands at a place. -/
def Frame.line (frame : Frame) (place : Position) : String :=
  place.words ++ ", " ++ frame.name ++ "\n"

namespace Context

/-- The place that the line of a frame shows, with the frames counted from the outermost one: where
the next frame was entered, and in the innermost frame the given place. -/
def placeIn (start : Position) (context : Context) (k : Nat) : Option Position :=
  (context.reverse[k + 1]?).elim (some start) Frame.entry?

/-- All frames but the outermost one know where they were entered. -/
def KnowsEntries (context : Context) : Prop := ∀ frame ∈ context.dropLast, frame.entry?.isSome

/-- The context with another place where its outermost frame was entered. -/
def enteredAt (place? : Option Position) : Context → Context
  | [] => []
  | [frame] => [⟨frame.name, place?⟩]
  | frame :: next :: outer => frame :: enteredAt place? (next :: outer)

variable {context outer : Context} {frame : Frame} {start entry : Position}

/-- One more frame inside changes no place around it. -/
theorem placeIn_cons_of_lt (hentry : frame.entry? = some entry) {k : Nat} (hk : k < outer.length) :
    placeIn start (frame :: outer) k = placeIn entry outer k := by
  rw [placeIn, placeIn, List.reverse_cons]
  have hreverse := outer.length_reverse
  rcases Nat.lt_or_ge (k + 1) outer.length with hlt | hge
  · have hinner : k + 1 < outer.reverse.length := hreverse ▸ hlt
    rw [List.getElem?_append_left hinner, List.getElem?_eq_getElem hinner]
    rfl
  · have hlast : outer.reverse.length = k + 1 := by omega
    rw [← hlast, List.getElem?_concat_length, List.getElem?_eq_none (Nat.le_refl _)]
    exact hentry

theorem placeIn_cons_self : placeIn start (frame :: outer) outer.length = some start := by
  rw [placeIn, List.getElem?_eq_none (by simp)]
  rfl

/-- There is a line for each frame, which shows its place. The lines are in the order of the
walk. -/
structure HasLines (start : Position) (context : Context) (lines : List String) : Prop where
  length_eq : lines.length = context.length
  line_eq : ∀ k frame, context.reverse[k]? = some frame →
    ∃ place, context.placeIn start k = some place ∧ lines.reverse[k]? = some (frame.line place)

theorem hasLines_nil (start : Position) : HasLines start [] [] :=
  ⟨rfl, fun k frame hframe ↦ absurd hframe (by simp)⟩

/-- One more frame inside adds a line in front, which is the last one of those that are shown. -/
theorem HasLines.cons {others : List String} (h : HasLines entry outer others)
    (hentry : outer ≠ [] → frame.entry? = some entry) (start : Position) :
    HasLines start (frame :: outer) (frame.line start :: others) where
  length_eq := congrArg (· + 1) h.length_eq
  line_eq k shown hshown := by
    have hlength := h.length_eq
    rw [List.reverse_cons] at hshown ⊢
    rcases Nat.lt_or_ge k outer.length with hlt | hge
    · have hk : k < outer.reverse.length ∧ k < others.reverse.length := by simp [hlength, hlt]
      rw [List.getElem?_append_left hk.1] at hshown
      rw [List.getElem?_append_left hk.2,
        placeIn_cons_of_lt (hentry (List.ne_nil_of_length_pos (by omega))) hlt]
      exact h.line_eq k shown hshown
    · have hk : k < outer.length + 1 := by simpa using (List.getElem?_eq_some_iff.1 hshown).1
      obtain rfl : k = outer.length := by omega
      obtain rfl : frame = shown := by simpa using hshown
      exact ⟨start, placeIn_cons_self, by simp [← hlength]⟩

theorem lines_cons {others : List String} (hothers : lines frame.entry? outer = .ok others) :
    lines (some start) (frame :: outer) = .ok (frame.line start :: others) := by
  rw [lines, hothers]
  rfl

/-- **The walk.** Whatever the place is in the innermost frame, there is a line for each frame. -/
theorem exists_hasLines (h : context.KnowsEntries) (start : Position) :
    ∃ lines, context.lines (some start) = .ok lines ∧ HasLines start context lines := by
  -- outwards: the place where a frame was entered is the start for the frames around it
  induction context generalizing start with
  | nil => exact ⟨[], rfl, hasLines_nil start⟩
  | cons frame outer ih =>
    rcases outer with - | ⟨next, outer⟩
    · exact ⟨_, lines_cons rfl, (hasLines_nil start).cons (fun hne ↦ absurd rfl hne) start⟩
    · obtain ⟨hframe, hknown⟩ := List.forall_mem_cons.1 h
      obtain ⟨entry, hentry⟩ := Option.isSome_iff_exists.1 hframe
      obtain ⟨others, hlines, hothers⟩ := ih hknown entry
      exact ⟨_, lines_cons (hentry ▸ hlines), hothers.cons (fun _ ↦ hentry) start⟩

/-- Where the outermost frame was entered is not shown. -/
theorem lines_enteredAt (start? place? : Option Position) (context : Context) :
    (context.enteredAt place?).lines start? = context.lines start? := by
  induction context generalizing start? with
  | nil => rfl
  | cons frame outer ih =>
    rcases outer with - | ⟨next, outer⟩
    · rw [enteredAt, lines, lines]
      rfl
    · rw [enteredAt, lines, ih, ← lines]

theorem traceback_enteredAt (start? place? : Option Position) (context : Context) :
    (context.enteredAt place?).traceback start? = context.traceback start? := by
  rw [traceback, lines_enteredAt, ← traceback]

end Context

namespace Failure

variable {failure : Failure} {problem : RuntimeProblem} {context : Context} {start : Position}

/-- The message of a failure at run time begins with the traceback. -/
theorem message_of_traceback {text : String} (hcause : failure.cause = .runtime problem context)
    (hstart : failure.extent.start? = some start)
    (htraceback : context.traceback (some start) = .ok text) :
    failure.traceback? = .ok (some text) ∧
      failure.message =
        .ok (text ++ ("Runtime Error: " ++ problem.details ++ " " ++ start.words)) := by
  have htext : failure.traceback? = .ok (some text) := by
    rw [traceback?, hcause, hstart]
    simp only [htraceback]
    rfl
  refine ⟨htext, ?_⟩
  rw [message, htext, summary, hcause, hstart]
  rfl

/-- **A traceback names the frames, the outermost first.** It is a header and a line for each frame.
A line shows where the frame in the next line was entered, and the last line where the failure
begins; without a context there is the header alone. The message is the traceback and the failure
itself, with the place where it begins. Where the outermost frame was entered changes neither. -/
theorem traceback_names_frames (hcause : failure.cause = .runtime problem context)
    (hstart : failure.extent.start? = some start) (hentries : context.KnowsEntries) :
    (∃ lines : List String,
      failure.traceback? =
          .ok (some ("Traceback (most recent call last):\n" ++ String.join lines)) ∧
        failure.message =
          .ok ("Traceback (most recent call last):\n" ++ String.join lines ++
            ("Runtime Error: " ++ problem.details ++ " " ++ start.words)) ∧
        lines.length = context.length ∧
        ∀ k frame, context.reverse[k]? = some frame →
          ∃ place, context.placeIn start k = some place ∧
            lines[k]? = some (frame.line place)) ∧
      (context = [] → failure.traceback? = .ok (some "Traceback (most recent call last):\n")) ∧
      ∀ place?,
        traceback? ⟨.runtime problem (context.enteredAt place?), failure.extent⟩ =
            failure.traceback? ∧
          message ⟨.runtime problem (context.enteredAt place?), failure.extent⟩ =
            failure.message := by
  obtain ⟨lines, hlines, hlength, hplaces⟩ := context.exists_hasLines hentries start
  have htraceback : context.traceback (some start) =
      .ok ("Traceback (most recent call last):\n" ++ String.join lines.reverse) := by
    rw [Context.traceback, hlines]
    rfl
  obtain ⟨htext, hmessage⟩ := message_of_traceback hcause hstart htraceback
  refine ⟨⟨lines.reverse, htext, hmessage, List.length_reverse.trans hlength, hplaces⟩, ?_, ?_⟩
  · rintro rfl
    obtain rfl := List.eq_nil_of_length_eq_zero hlength
    exact htext
  · intro place?
    rw [← Context.traceback_enteredAt _ place?] at htraceback
    have hother := @message_of_traceback
      ⟨.runtime problem (context.enteredAt place?), failure.extent⟩ _ _ _ _ rfl hstart htraceback
    exact ⟨hother.1.trans htext.symm, hother.2.trans hmessage.symm⟩

/-- Three frames, each of which was left in another line. -/
theorem traceback_names_three_frames :
    traceback?
        ⟨.runtime (.arithmetic .divisionByZero)
          [⟨"inner", some ⟨⟨"<test>", "1\n2\n3/0"⟩, 2, 1, 0⟩⟩,
            ⟨"outer", some ⟨⟨"<test>", "1\n2\n3/0"⟩, 0, 0, 0⟩⟩, ⟨"<program>", none⟩],
          ⟨some ⟨⟨"<test>", "1\n2\n3/0"⟩, 6, 2, 2⟩, none⟩⟩ =
      .ok (some ("Traceback (most recent call last):\n" ++ String.join
        ["File <test>, Line 1, <program>\n", "File <test>, Line 2, outer\n",
          "File <test>, Line 3, inner\n"])) := by
  obtain ⟨⟨lines, htext, -, hlength, hlines⟩, -⟩ :=
    @traceback_names_frames
      ⟨.runtime (.arithmetic .divisionByZero)
        [⟨"inner", some ⟨⟨"<test>", "1\n2\n3/0"⟩, 2, 1, 0⟩⟩,
          ⟨"outer", some ⟨⟨"<test>", "1\n2\n3/0"⟩, 0, 0, 0⟩⟩, ⟨"<program>", none⟩],
        ⟨some ⟨⟨"<test>", "1\n2\n3/0"⟩, 6, 2, 2⟩, none⟩⟩
      _ _ _ rfl rfl (by simp [Context.KnowsEntries])
  obtain ⟨program, outer, inner, rfl⟩ := List.length_eq_three.1 hlength
  obtain ⟨_, hplace, hprogram⟩ := hlines 0 _ rfl
  obtain rfl := Option.some.inj hplace
  obtain ⟨_, hplace, houter⟩ := hlines 1 _ rfl
  obtain rfl := Option.some.inj hplace
  obtain ⟨_, hplace, hinner⟩ := hlines 2 _ rfl
  obtain rfl := Option.some.inj hplace
  rw [htext, Option.some.inj hprogram, Option.some.inj houter, Option.some.inj hinner]
  decide +kernel

end Failure

end Calculator
