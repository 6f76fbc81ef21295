import Treewalk.Evaluation

/-!
# What a step of evaluation promises

`Outcome.Meets` says what holds of a step however it ends: with a value, with an error of the
language, or at an operator without meaning. Nothing is promised of a step that uses up its budget.
A promise about two steps in a row follows from a promise about each, so a fact about the whole
evaluator needs one line for each of its calls.
-/

namespace Treewalk

set_option autoImplicit false

namespace Outcome

def Meets {α : Type} (done : α → Machine → Prop) (raised : RuntimeError → Machine → Prop)
    (stuck : Prop) : Outcome α → Prop
  | .done value machine => done value machine
  | .raised error machine => raised error machine
  | .exhausted => True
  | .stuck => stuck

variable {α β : Type} {raised : RuntimeError → Machine → Prop} {stuck : Prop}

/-- Two steps in a row: what the first promises of its value carries the second. -/
theorem meets_and_then {middle : α → Machine → Prop} {done : β → Machine → Prop}
    {outcome : Outcome α} {next : α → Machine → Outcome β}
    (first : outcome.Meets middle raised stuck)
    (second : ∀ value machine, outcome = .done value machine → middle value machine →
      (next value machine).Meets done raised stuck) :
    (outcome.andThen next).Meets done raised stuck := by
  cases outcome with
  | done value machine => exact second value machine rfl first
  | raised error machine => exact first
  | exhausted => trivial
  | stuck => exact first

/-- A change on every way out carries a promise over if it does so for single machines. -/
theorem meets_on_exit {inner done : α → Machine → Prop}
    {innerRaised : RuntimeError → Machine → Prop} {outcome : Outcome α}
    {change : Machine → Machine}
    (body : outcome.Meets inner innerRaised stuck)
    (ended : ∀ value machine, inner value machine → done value (change machine))
    (failed : ∀ error machine, innerRaised error machine → raised error (change machine)) :
    (outcome.onExit change).Meets done raised stuck := by
  cases outcome with
  | done value machine => exact ended value machine body
  | raised error machine => exact failed error machine body
  | exhausted => trivial
  | stuck => exact body

theorem meets_of_meets {inner done : α → Machine → Prop}
    {innerRaised : RuntimeError → Machine → Prop} {innerStuck : Prop} {outcome : Outcome α}
    (meets : outcome.Meets inner innerRaised innerStuck)
    (ended : ∀ value machine, inner value machine → done value machine)
    (failed : ∀ error machine, innerRaised error machine → raised error machine)
    (halted : innerStuck → stuck) :
    outcome.Meets done raised stuck := by
  cases outcome with
  | done value machine => exact ended value machine meets
  | raised error machine => exact failed error machine meets
  | exhausted => trivial
  | stuck => exact halted meets

end Outcome

end Treewalk
