/-!
# Outcomes

An `Outcome` is a record of a value and an error, either of which may be there. It is filled step by
step: success sets the value, failure sets the error, and neither clears the other. So an outcome
may hold both, and then the error counts.
-/

namespace Calculator

/-- A value and an error, each of which may be missing. -/
structure Outcome (α ε : Type) where
  value? : Option α := none
  error? : Option ε := none
deriving DecidableEq

namespace Outcome

variable {α ε : Type}

/-- The outcome with a value. An error that it has stays. -/
def success (outcome : Outcome α ε) (value : α) : Outcome α ε :=
  { outcome with value? := some value }

/-- The outcome with an error. A value that it has stays. -/
def failure (outcome : Outcome α ε) (error : ε) : Outcome α ε :=
  { outcome with error? := some error }

/-- Takes over the error of another outcome and gives its value. An outcome whose error is a blank
note has none to take over. -/
def register (outcome other : Outcome α String) : Outcome α String × Option α :=
  match other.error?.filter (· ≠ "") with
  | some error => (outcome.failure error, other.value?)
  | none => (outcome, other.value?)

end Outcome

end Calculator
