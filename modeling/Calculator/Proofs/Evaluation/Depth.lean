import Calculator.Proofs.Evaluation.Places

/-!
# How deep evaluation goes

Evaluation with a budget and evaluation without one go the same way through an expression, and the
one with a budget may end earlier. The way is `Expr.walk`: each node is entered, then its operands
are walked through, the left one first, and then it is operated on. Neither a budget nor a value has
a part in it.

A walk ends at the first step that goes wrong, and there are two ways for that: a node is entered at
a level beyond a limit, or a node is operated on and has no number though its operands have. That
evaluation ends there too is an induction on the expression (`answers_walk`), in which the budget
and the level of a node add up to the limit. All else follows from there being only one first step
that goes wrong. In particular a larger budget makes a larger limit, and a walk that comes to a node
without a number below the smaller limit does so below the larger one.
-/

namespace Calculator

namespace Expr

/-- A step of the walk through an expression. -/
inductive Step where
  /-- A node is entered, at a level. -/
  | enter (level : Nat)
  /-- A node is operated on, behind its operands. -/
  | operate (node : Expr)

/-- The walk through an expression that is entered at a given level. -/
def walk (level : Nat) : Expr → List Step
  | number token => [.enter level, .operate (number token)]
  | unary operator operand =>
    .enter level :: (operand.walk (level + 1) ++ [.operate (unary operator operand)])
  | binary left operator right =>
    .enter level :: (left.walk (level + 1) ++ right.walk (level + 1) ++
      [.operate (binary left operator right)])
  | foreign name extent => [.enter level, .operate (foreign name extent)]

/-- The node has no number, though its operands have numbers without a bound on their depth. -/
inductive Halts (context : Context) : Expr → Stop → Prop where
  | unary {operator : Token} {operand : Expr} {value : Number} {stop : Stop}
      (hoperand : operand.result context = .ok value)
      (hstop : value.signed operator.kind = .error stop) :
    Halts context (.unary operator operand) stop
  | binary {left right : Expr} {operator : Token} {a b : Number} {stop : Stop}
      (hleft : left.result context = .ok a) (hright : right.result context = .ok b)
      (hstop : Number.operate operator.kind a b = .error stop) :
    Halts context (.binary left operator right) stop
  | foreign (name : String) (extent : Extent) :
    Halts context (.foreign name extent) (.fault (.unknownNode name))

/-- Before a walk enters any level beyond a limit it comes to a node that halts, and this is the
first one that does. -/
def HaltsWithin (context : Context) (limit : Nat) (steps : List Step) (stop : Stop) : Prop :=
  ∃ before node after, steps = before ++ .operate node :: after ∧
    (∀ level, .enter level ∈ before → level ≤ limit) ∧
    (∀ earlier, .operate earlier ∈ before → ∀ other, ¬ Halts context earlier other) ∧
    Halts context node stop

/-- What goes wrong at a step. -/
inductive Step.Stops (context : Context) (limit : Nat) : Step → Stop → Prop where
  | tooDeep {level : Nat} (hlevel : limit < level) :
    Stops context limit (.enter level) (.fault .tooDeep)
  | halts {node : Expr} {stop : Stop} (hhalts : Halts context node stop) :
    Stops context limit (.operate node) stop

variable {context : Context} {budget limit level : Nat} {expr : Expr} {stop : Stop}

/-! ### Nodes and steps -/

theorem Halts.ne_tooDeep (h : Halts context expr stop) : stop ≠ .fault .tooDeep := by
  rintro rfl
  cases h with
  | @unary operator _ value _ _ hstop =>
    rcases value.signed_cases operator.kind with ⟨signed, hsigned, -⟩ | ⟨-, hfault⟩
    · cases hsigned.symm.trans hstop
    · cases hfault.symm.trans hstop
  | @binary _ _ operator a b _ _ _ hstop => exact Number.operate_ne_tooDeep operator.kind a b hstop

theorem Halts.unique {other : Stop} (h : Halts context expr stop) (h' : Halts context expr other) :
    stop = other := by
  cases h with
  | unary hoperand hstop =>
    cases h' with
    | unary hoperand' hstop' =>
      obtain rfl := Except.ok.inj (hoperand.symm.trans hoperand')
      exact Except.error.inj (hstop.symm.trans hstop')
  | binary hleft hright hstop =>
    cases h' with
    | binary hleft' hright' hstop' =>
      obtain rfl := Except.ok.inj (hleft.symm.trans hleft')
      obtain rfl := Except.ok.inj (hright.symm.trans hright')
      exact Except.error.inj (hstop.symm.trans hstop')
  | foreign name extent =>
    cases h'
    rfl

namespace Step

/-- A node within the limit may be entered. -/
theorem not_stops_enter (context : Context) (h : level ≤ limit) :
    ∀ step ∈ [enter level], ∀ stop, ¬ step.Stops context limit stop := by
  refine List.forall_mem_singleton.2 fun stop hstops ↦ ?_
  cases hstops with
  | tooDeep hlevel => exact Nat.not_lt_of_le h hlevel

theorem Stops.unique {step : Step} {other : Stop} (h : step.Stops context limit stop)
    (h' : step.Stops context limit other) : stop = other := by
  cases h with
  | tooDeep =>
    cases h'
    rfl
  | halts hhalts =>
    cases h' with
    | halts hhalts' => exact hhalts.unique hhalts'

end Step

/-- A node that halts in time is the first step to go wrong. -/
theorem HaltsWithin.firstWhere {steps : List Step} (h : HaltsWithin context limit steps stop) :
    FirstWhere (Step.Stops context limit) steps stop := by
  obtain ⟨before, node, after, hsteps, hlevels, hnodes, hnode⟩ := h
  refine ⟨before, .operate node, after, hsteps, fun step hstep other hstops ↦ ?_, .halts hnode⟩
  cases hstops with
  | tooDeep hlevel => exact Nat.not_lt_of_le (hlevels _ hstep) hlevel
  | halts hhalts => exact hnodes _ hstep other hhalts

/-- The first step to go wrong is a node that halts in time, or one that is too deep. -/
theorem haltsWithin_of_firstWhere {steps : List Step}
    (h : FirstWhere (Step.Stops context limit) steps stop) (hstop : stop ≠ .fault .tooDeep) :
    HaltsWithin context limit steps stop := by
  obtain ⟨before, step, after, hsteps, hbefore, hstops⟩ := h
  cases hstops with
  | tooDeep => exact absurd rfl hstop
  | @halts node _ hnode =>
    refine ⟨before, node, after, hsteps, fun level hlevel ↦ ?_, fun earlier hearlier other h ↦ ?_,
      hnode⟩
    · exact Nat.le_of_not_lt fun hdeep ↦ hbefore _ hlevel _ (.tooDeep hdeep)
    · exact hbefore _ hearlier other (.halts h)

/-- A larger limit takes nothing away. -/
theorem HaltsWithin.mono {steps : List Step} {more : Nat} (hmore : limit ≤ more)
    (h : HaltsWithin context limit steps stop) : HaltsWithin context more steps stop := by
  obtain ⟨before, node, after, hsteps, hlevels, hnodes, hnode⟩ := h
  exact ⟨before, node, after, hsteps, fun level h ↦ Nat.le_trans (hlevels level h) hmore, hnodes,
    hnode⟩

/-! ### What evaluation with a budget does with a node -/

theorem visit_unary_of_ok {operator : Token} {operand : Expr} {value : Number}
    (h : operand.visit context budget = .ok value) :
    (unary operator operand).visit context (budget + 2) =
      (value.signed operator.kind).map (·.setExtent (unary operator operand).extent) := by
  rw [visit, h]
  rfl

theorem visit_binary_of_ok {left right : Expr} {operator : Token} {a b : Number}
    (ha : left.visit context budget = .ok a) (hb : right.visit context budget = .ok b) :
    (binary left operator right).visit context (budget + 2) =
      (Number.operate operator.kind a b).map
        (·.setExtent (binary left operator right).extent) := by
  rw [visit, ha, hb, Number.operate]
  cases operator.kind.operation? <;> rfl

theorem result_of_visit_eq_ok {number : Number} (h : expr.visit context budget = .ok number) :
    expr.result context = .ok number := by
  rw [← h, visit_eq_result (depth_le_of_visit_eq_ok h)]

/-! ### Where evaluation ends -/

theorem map_setExtent_eq_error_iff {answer : Except Stop Number} {extent : Extent} :
    answer.map (·.setExtent extent) = .error stop ↔ answer = .error stop := by
  cases answer <;> simp [Except.map]

theorem halts_unary_iff {operator : Token} {operand : Expr} {value : Number}
    (h : operand.result context = .ok value) :
    Halts context (unary operator operand) stop ↔
      (value.signed operator.kind).map (·.setExtent (unary operator operand).extent) =
        .error stop := by
  rw [map_setExtent_eq_error_iff]
  refine ⟨fun hhalts ↦ ?_, .unary h⟩
  cases hhalts with
  | unary hother hstop =>
    obtain rfl := Except.ok.inj (h.symm.trans hother)
    exact hstop

theorem halts_binary_iff {left right : Expr} {operator : Token} {a b : Number}
    (ha : left.result context = .ok a) (hb : right.result context = .ok b) :
    Halts context (binary left operator right) stop ↔
      (Number.operate operator.kind a b).map (·.setExtent (binary left operator right).extent) =
        .error stop := by
  rw [map_setExtent_eq_error_iff]
  refine ⟨fun hhalts ↦ ?_, .binary ha hb⟩
  cases hhalts with
  | binary hother hother' hstop =>
    obtain rfl := Except.ok.inj (ha.symm.trans hother)
    obtain rfl := Except.ok.inj (hb.symm.trans hother')
    exact hstop

/-- The answer of evaluation agrees with a walk: there is a number if nothing goes wrong, and
otherwise what goes wrong first. -/
def Answers (context : Context) (limit : Nat) (steps : List Step) : Except Stop Number → Prop
  | .ok _ => ∀ step ∈ steps, ∀ stop, ¬ step.Stops context limit stop
  | .error stop => FirstWhere (Step.Stops context limit) steps stop

theorem Answers.error {steps : List Step} {answer : Except Stop Number}
    (h : Answers context limit steps answer) (hanswer : answer = .error stop) :
    FirstWhere (Step.Stops context limit) steps stop := by
  rwa [hanswer] at h

theorem Answers.ok {steps : List Step} {answer : Except Stop Number} {number : Number}
    (h : Answers context limit steps answer) (hanswer : answer = .ok number) :
    ∀ step ∈ steps, ∀ stop, ¬ step.Stops context limit stop := by
  rwa [hanswer] at h

/-- Behind steps that do not go wrong a node decides. -/
theorem Answers.of_operate {steps : List Step} {node : Expr} {answer : Except Stop Number}
    (hsteps : ∀ step ∈ steps, ∀ stop, ¬ step.Stops context limit stop)
    (hnode : ∀ stop, Halts context node stop ↔ answer = .error stop) :
    Answers context limit (steps ++ [.operate node]) answer := by
  cases answer with
  | error stop => exact .append_left hsteps (.of_head (.halts ((hnode stop).2 rfl)) [])
  | ok number =>
    refine List.forall_mem_append.2 ⟨hsteps, List.forall_mem_singleton.2 fun stop hstops ↦ ?_⟩
    cases hstops with
    | halts hhalts => cases (hnode stop).1 hhalts

/-- **Evaluation ends where the walk goes wrong.** The budget that is left at a node pays for the
levels from there down to the limit. -/
theorem answers_walk (expr : Expr) (hbudget : level + budget / 2 = limit + 1) :
    Answers context limit (expr.walk level) (expr.visit context budget) := by
  induction expr generalizing level budget with
  | number token =>
    match budget, hbudget with
    | 0, hbudget | 1, hbudget => exact .of_head (.tooDeep (by omega)) _
    | budget + 2, hbudget =>
      have henter := Step.not_stops_enter context (by omega : level ≤ limit)
      refine .of_operate henter fun stop ↦ ?_
      exact ⟨nofun, nofun⟩
  | unary operator operand ih =>
    match budget, hbudget with
    | 0, hbudget | 1, hbudget => exact .of_head (.tooDeep (by omega)) _
    | budget + 2, hbudget =>
      have henter := Step.not_stops_enter context (by omega : level ≤ limit)
      have hoperand := ih (by omega : level + 1 + budget / 2 = limit + 1)
      rcases hvisit : operand.visit context budget with stop | value
      · rw [visit, hvisit]
        exact .append_left henter ((hoperand.error hvisit).append_right _)
      · rw [visit_unary_of_ok hvisit]
        have hsteps := List.forall_mem_append.2 ⟨henter, hoperand.ok hvisit⟩
        exact .of_operate hsteps fun _ ↦ halts_unary_iff (result_of_visit_eq_ok hvisit)
  | binary left operator right ihl ihr =>
    match budget, hbudget with
    | 0, hbudget | 1, hbudget => exact .of_head (.tooDeep (by omega)) _
    | budget + 2, hbudget =>
      have henter := Step.not_stops_enter context (by omega : level ≤ limit)
      have hleft := ihl (by omega : level + 1 + budget / 2 = limit + 1)
      have hright := ihr (by omega : level + 1 + budget / 2 = limit + 1)
      rcases ha : left.visit context budget with stop | a
      · rw [visit, ha]
        exact .append_left henter (((hleft.error ha).append_right _).append_right _)
      rcases hb : right.visit context budget with stop | b
      · rw [visit, ha, hb]
        exact .append_left henter
          ((FirstWhere.append_left (hleft.ok ha) (hright.error hb)).append_right _)
      · rw [visit_binary_of_ok ha hb]
        have hsteps := List.forall_mem_append.2
          ⟨henter, List.forall_mem_append.2 ⟨hleft.ok ha, hright.ok hb⟩⟩
        exact .of_operate hsteps fun _ ↦
          halts_binary_iff (result_of_visit_eq_ok ha) (result_of_visit_eq_ok hb)
  | foreign name extent =>
    match budget, hbudget with
    | 0, hbudget | 1, hbudget => exact .of_head (.tooDeep (by omega)) _
    | budget + 2, hbudget =>
      have henter := Step.not_stops_enter context (by omega : level ≤ limit)
      refine .of_operate henter fun stop ↦ ?_
      constructor
      · rintro ⟨⟩
        rfl
      · rintro ⟨⟩
        exact .foreign name extent

/-- Evaluation from the root on has the whole budget for the levels of the walk. -/
theorem answers_visit (context : Context) (budget : Nat) (expr : Expr) :
    Answers context (budget / 2) (expr.walk 1) (expr.visit context budget) :=
  answers_walk expr (Nat.add_comm 1 _)

/-- **A node that halts in time decides.** -/
theorem visit_of_haltsWithin (h : HaltsWithin context (budget / 2) (expr.walk 1) stop) :
    expr.visit context budget = .error stop := by
  have hanswers := answers_visit context budget expr
  rcases hvisit : expr.visit context budget with other | number
  · have hfirst := hanswers.error hvisit
    rw [hfirst.unique h.firstWhere fun _ _ _ ↦ Step.Stops.unique]
  · obtain ⟨before, node, after, hsteps, -, -, hnode⟩ := h
    refine absurd (.halts hnode) (hanswers.ok hvisit (.operate node) ?_ stop)
    rw [hsteps]
    exact List.mem_append_right _ List.mem_cons_self

/-- **Evaluation runs out of its budget** exactly if the expression is deeper than the budget allows
and no node halts in time. -/
theorem visit_eq_tooDeep_iff :
    expr.visit context budget = .error (.fault .tooDeep) ↔
      budget / 2 < expr.depth ∧ ∀ stop, ¬ HaltsWithin context (budget / 2) (expr.walk 1) stop := by
  constructor
  · intro h
    refine ⟨Nat.lt_of_not_le fun hdepth ↦ ?_, fun stop hhalts ↦ ?_⟩
    · rw [visit_eq_result (by omega)] at h
      exact result_ne_tooDeep expr h
    · obtain ⟨-, node, -, -, -, -, hnode⟩ := id hhalts
      refine hnode.ne_tooDeep ?_
      exact Except.error.inj ((visit_of_haltsWithin hhalts).symm.trans h)
  · rintro ⟨hdepth, hnever⟩
    rcases hvisit : expr.visit context budget with stop | number
    · by_cases hstop : stop = .fault .tooDeep
      · rw [hstop]
      · have hfirst := (answers_visit context budget expr).error hvisit
        exact absurd (haltsWithin_of_firstWhere hfirst hstop) (hnever stop)
    · have := depth_le_of_visit_eq_ok hvisit
      omega

theorem evaluate_of_visit_eq_tooDeep (h : expr.visit context budget = .error (.fault .tooDeep)) :
    expr.evaluate context budget =
      .error (.failure ⟨.runtime .tooDeep context, expr.extent⟩) := by
  rw [evaluate, h]

theorem evaluate_of_visit_ne_tooDeep (h : expr.visit context budget ≠ .error (.fault .tooDeep)) :
    expr.evaluate context budget = expr.visit context budget := by
  rw [evaluate]
  split
  · next hdeep => exact absurd hdeep h
  · rfl

/-- A larger budget is not used up where a smaller one was not. -/
theorem visit_ne_tooDeep_of_le {more : Nat} (hmore : budget ≤ more)
    (h : expr.visit context budget ≠ .error (.fault .tooDeep)) :
    expr.visit context more ≠ .error (.fault .tooDeep) := by
  have hlimit : budget / 2 ≤ more / 2 := Nat.div_le_div_right hmore
  intro hdeep
  obtain ⟨hdepth, hnever⟩ := visit_eq_tooDeep_iff.1 hdeep
  refine h (visit_eq_tooDeep_iff.2 ⟨by omega, fun stop hhalts ↦ ?_⟩)
  exact hnever stop (hhalts.mono hlimit)

/-- **How deep evaluation goes.** An expression that is no deeper than half of the budget has the
result that it has without a budget. In a deeper one the walk decides: if a node halts before any
node beyond that level is entered, evaluation ends with what the first such node halts with, and if
none does, with the failure that the expression as a whole is too deep. These are the expressions
for which evaluation that does not look at the outcome runs out of its budget. So a larger budget
changes no answer but this one. -/
theorem evaluate_follows_walk (context : Context) (budget : Nat) (expr : Expr) :
    (expr.depth ≤ budget / 2 → expr.evaluate context budget = expr.result context) ∧
      (budget / 2 < expr.depth →
        (∀ stop, HaltsWithin context (budget / 2) (expr.walk 1) stop →
          expr.evaluate context budget = .error stop) ∧
        ((∀ stop, ¬ HaltsWithin context (budget / 2) (expr.walk 1) stop) →
          expr.evaluate context budget =
            .error (.failure ⟨.runtime .tooDeep context, expr.extent⟩))) ∧
      (expr.visit context budget = .error (.fault .tooDeep) ↔
        budget / 2 < expr.depth ∧
          ∀ stop, ¬ HaltsWithin context (budget / 2) (expr.walk 1) stop) ∧
      (∀ more ≥ budget,
        expr.evaluate context budget ≠
          .error (.failure ⟨.runtime .tooDeep context, expr.extent⟩) →
        expr.evaluate context more = expr.evaluate context budget) ∧
      RuntimeProblem.tooDeep.details = "Expression too deeply nested" := by
  refine ⟨fun hdepth ↦ evaluate_eq_result (by omega), fun hdepth ↦ ⟨fun stop hhalts ↦ ?_, ?_⟩,
    visit_eq_tooDeep_iff, fun more hmore hshallow ↦ ?_, rfl⟩
  · have hvisit := visit_of_haltsWithin hhalts
    rw [evaluate_of_visit_ne_tooDeep, hvisit]
    exact fun hdeep ↦ (visit_eq_tooDeep_iff.1 hdeep).2 stop hhalts
  · intro hnever
    exact evaluate_of_visit_eq_tooDeep (visit_eq_tooDeep_iff.2 ⟨hdepth, hnever⟩)
  · have hvisit : expr.visit context budget ≠ .error (.fault .tooDeep) :=
      fun hdeep ↦ hshallow (evaluate_of_visit_eq_tooDeep hdeep)
    have hvisit' := visit_ne_tooDeep_of_le hmore hvisit
    rw [evaluate_of_visit_ne_tooDeep hvisit, evaluate_of_visit_ne_tooDeep hvisit',
      (visit_cases context expr budget).resolve_right hvisit,
      (visit_cases context expr more).resolve_right hvisit']

end Expr

end Calculator
