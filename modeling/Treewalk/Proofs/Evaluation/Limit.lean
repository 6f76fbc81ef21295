import Treewalk.Proofs.Evaluation.Run

/-!
# A larger budget and a higher limit on calls

Two runs of the same task, one with a larger budget or a higher limit on active calls, go in step
until the first one gives up: by its budget, or at a call beyond its limit. One induction on the
budget follows both runs through every nested call. With the same limit it says that a larger budget
changes nothing but whether a run is cut off; with another limit, that a run which never met the
limit did not depend on it.
-/

namespace Treewalk

set_option autoImplicit false

/-- The second outcome is the first, unless the first was cut off or ended with an error that is
excused. -/
def Outcome.HeldBy {α : Type} (excused : RuntimeError → Prop) (first second : Outcome α) : Prop :=
  first = .exhausted ∨ (∃ error machine, first = .raised error machine ∧ excused error) ∨
    second = first

namespace Outcome

variable {α β : Type} {excused : RuntimeError → Prop}

theorem held_by_self (outcome : Outcome α) : outcome.HeldBy excused outcome :=
  .inr (.inr rfl)

theorem exhausted_held_by (outcome : Outcome α) : exhausted.HeldBy excused outcome :=
  .inl rfl

theorem raised_held_by {error : RuntimeError} {machine : Machine} (outcome : Outcome α)
    (isExcused : excused error) : (raised error machine).HeldBy excused outcome :=
  .inr (.inl ⟨error, machine, rfl, isExcused⟩)

theorem and_then_held_by {first second : Outcome α} {next later : α → Machine → Outcome β}
    (held : first.HeldBy excused second)
    (behind : ∀ value machine, (next value machine).HeldBy excused (later value machine)) :
    (first.andThen next).HeldBy excused (second.andThen later) := by
  rcases held with rfl | ⟨error, machine, rfl, isExcused⟩ | rfl
  · exact exhausted_held_by _
  · exact raised_held_by _ isExcused
  · cases second with
    | done value machine => exact behind value machine
    | raised error machine => exact held_by_self _
    | exhausted => exact held_by_self _
    | stuck => exact held_by_self _

theorem on_exit_held_by {first second : Outcome α} {change : Machine → Machine}
    (held : first.HeldBy excused second) :
    (first.onExit change).HeldBy excused (second.onExit change) := by
  rcases held with rfl | ⟨error, machine, rfl, isExcused⟩ | rfl
  · exact exhausted_held_by _
  · exact raised_held_by _ isExcused
  · exact held_by_self _

end Outcome

/-- The second settings have the same clock and allow as many calls or more; if they allow more, a
call beyond the first limit is excused. -/
structure Config.Widens (excused : RuntimeError → Prop) (low high : Config) : Prop where
  clock : high.clock = low.clock
  limit : low.maxCallDepth ≤ high.maxCallDepth
  overflow : low.maxCallDepth < high.maxCallDepth → ∀ site, excused ⟨.stackOverflow, site⟩

theorem Config.widens_self (excused : RuntimeError → Prop) (config : Config) :
    Config.Widens excused config config :=
  ⟨rfl, Nat.le_refl _, fun less => absurd less (Nat.lt_irrefl _)⟩

/-- What any part of the evaluator gives with the settings `low` and the budget `less`, it gives
with `high` and `more`. -/
structure HoldsWith (excused : RuntimeError → Prop) (low high : Config) (less more : Nat) :
    Prop where
  evaluate : ∀ expression machine,
    (evaluate low less expression machine).HeldBy excused (evaluate high more expression machine)
  evaluateAll : ∀ expressions machine,
    (evaluateAll low less expressions machine).HeldBy excused
      (evaluateAll high more expressions machine)
  call : ∀ paren callee values machine,
    (call low less paren callee values machine).HeldBy excused
      (call high more paren callee values machine)
  invoke : ∀ callable values machine,
    (invoke low less callable values machine).HeldBy excused
      (invoke high more callable values machine)
  execute : ∀ statement machine,
    (execute low less statement machine).HeldBy excused (execute high more statement machine)
  iterate : ∀ condition body machine,
    (iterate low less condition body machine).HeldBy excused
      (iterate high more condition body machine)
  executeIn : ∀ body scope machine,
    (executeIn low less body scope machine).HeldBy excused (executeIn high more body scope machine)
  executeAll : ∀ body machine,
    (executeAll low less body machine).HeldBy excused (executeAll high more body machine)

namespace HoldsWith

open Outcome

variable {excused : RuntimeError → Prop} {low high : Config} {less more : Nat}

theorem zero : HoldsWith excused low high 0 more where
  evaluate _ _ := exhausted_held_by _
  evaluateAll _ _ := exhausted_held_by _
  call _ _ _ _ := exhausted_held_by _
  invoke _ _ _ := exhausted_held_by _
  execute _ _ := exhausted_held_by _
  iterate _ _ _ := exhausted_held_by _
  executeIn _ _ _ := exhausted_held_by _
  executeAll _ _ := exhausted_held_by _

theorem evaluate_succ (below : HoldsWith excused low high less more) (expression : Expr)
    (machine : Machine) :
    (Treewalk.evaluate low (less + 1) expression machine).HeldBy excused
      (Treewalk.evaluate high (more + 1) expression machine) := by
  cases expression with
  | literal value line place => exact held_by_self _
  | grouping inner place => exact below.evaluate inner machine
  | unary operator operand =>
      apply and_then_held_by (below.evaluate operand machine)
      exact fun value after => held_by_self _
  | binary left operator right =>
      apply and_then_held_by (below.evaluate left machine)
      intro first between
      apply and_then_held_by (below.evaluate right between)
      exact fun second after => held_by_self _
  | logical left operator right =>
      apply and_then_held_by (below.evaluate left machine)
      intro first between
      split
      · exact held_by_self _
      · exact below.evaluate right between
  | reference name => exact held_by_self _
  | assign name value =>
      apply and_then_held_by (below.evaluate value machine)
      exact fun result after => held_by_self _
  | call callee paren arguments =>
      apply and_then_held_by (below.evaluate callee machine)
      intro function between
      apply and_then_held_by (below.evaluateAll arguments between)
      intro values after
      exact below.call paren function values after

theorem evaluate_all_succ (below : HoldsWith excused low high less more) (expressions : List Expr)
    (machine : Machine) :
    (Treewalk.evaluateAll low (less + 1) expressions machine).HeldBy excused
      (Treewalk.evaluateAll high (more + 1) expressions machine) := by
  cases expressions with
  | nil => exact held_by_self _
  | cons first rest =>
      apply and_then_held_by (below.evaluate first machine)
      intro value between
      apply and_then_held_by (below.evaluateAll rest between)
      exact fun values after => held_by_self _

theorem call_succ (below : HoldsWith excused low high less more)
    (widens : Config.Widens excused low high) (paren : Token) (callee : Value)
    (values : List Value) (machine : Machine) :
    (Treewalk.call low (less + 1) paren callee values machine).HeldBy excused
      (Treewalk.call high (more + 1) paren callee values machine) := by
  unfold Treewalk.call
  split
  · split
    · exact held_by_self _
    · by_cases full : low.maxCallDepth ≤ machine.callDepth
      · rw [if_pos full]
        by_cases fullAsWell : high.maxCallDepth ≤ machine.callDepth
        · rw [if_pos fullAsWell]
          exact held_by_self _
        · have less : low.maxCallDepth < high.maxCallDepth :=
            Nat.lt_of_le_of_lt full (Nat.not_le.mp fullAsWell)
          exact raised_held_by _ (widens.overflow less paren)
      · have room : ¬high.maxCallDepth ≤ machine.callDepth :=
          fun other => full (Nat.le_trans widens.limit other)
        rw [if_neg full, if_neg room]
        exact on_exit_held_by (below.invoke _ values machine.enterCall)
  · exact held_by_self _

theorem call_native_widened (widens : Config.Widens excused low high) (function : Native)
    (machine : Machine) : callNative high function machine = callNative low function machine := by
  cases function
  unfold callNative
  rw [widens.clock]

theorem invoke_succ (below : HoldsWith excused low high less more)
    (widens : Config.Widens excused low high) (callable : Callable) (values : List Value)
    (machine : Machine) :
    (Treewalk.invoke low (less + 1) callable values machine).HeldBy excused
      (Treewalk.invoke high (more + 1) callable values machine) := by
  unfold Treewalk.invoke
  split
  · rw [call_native_widened widens]
    exact held_by_self _
  · apply and_then_held_by (below.executeIn _ _ _)
    exact fun flow after => held_by_self _

theorem execute_succ (below : HoldsWith excused low high less more) (statement : Stmt)
    (machine : Machine) :
    (Treewalk.execute low (less + 1) statement machine).HeldBy excused
      (Treewalk.execute high (more + 1) statement machine) := by
  cases statement with
  | expression value =>
      apply and_then_held_by (below.evaluate value machine)
      exact fun result after => held_by_self _
  | print keyword value =>
      apply and_then_held_by (below.evaluate value machine)
      exact fun result after => held_by_self _
  | declare name initial =>
      cases initial with
      | none => exact held_by_self _
      | some initial =>
          apply and_then_held_by (below.evaluate initial machine)
          exact fun result after => held_by_self _
  | block body place => exact below.executeIn body _ _
  | ifThen keyword condition consequent =>
      apply and_then_held_by (below.evaluate condition machine)
      intro value between
      split
      · exact below.execute consequent between
      · exact held_by_self _
  | ifElse keyword condition consequent alternative =>
      apply and_then_held_by (below.evaluate condition machine)
      intro value between
      split
      · exact below.execute consequent between
      · exact below.execute alternative between
  | loop keyword condition body => exact below.iterate condition body machine
  | function name parameters body => exact held_by_self _
  | returnValue keyword value =>
      cases value with
      | none => exact held_by_self _
      | some value =>
          apply and_then_held_by (below.evaluate value machine)
          exact fun result after => held_by_self _
  | breakLoop keyword => exact held_by_self _

theorem iterate_succ (below : HoldsWith excused low high less more) (condition : Expr) (body : Stmt)
    (machine : Machine) :
    (Treewalk.iterate low (less + 1) condition body machine).HeldBy excused
      (Treewalk.iterate high (more + 1) condition body machine) := by
  apply and_then_held_by (below.evaluate condition machine)
  intro value between
  split
  · apply and_then_held_by (below.execute body between)
    intro flow after
    cases flow with
    | normal => exact below.iterate condition body after
    | broke => exact held_by_self _
    | returned result => exact held_by_self _
  · exact held_by_self _

theorem execute_all_succ (below : HoldsWith excused low high less more) (body : List Stmt)
    (machine : Machine) :
    (Treewalk.executeAll low (less + 1) body machine).HeldBy excused
      (Treewalk.executeAll high (more + 1) body machine) := by
  cases body with
  | nil => exact held_by_self _
  | cons first rest =>
      apply and_then_held_by (below.execute first machine)
      intro flow between
      cases flow with
      | normal => exact below.executeAll rest between
      | broke => exact held_by_self _
      | returned result => exact held_by_self _

theorem succ (below : HoldsWith excused low high less more)
    (widens : Config.Widens excused low high) :
    HoldsWith excused low high (less + 1) (more + 1) where
  evaluate := below.evaluate_succ
  evaluateAll := below.evaluate_all_succ
  call := below.call_succ widens
  invoke := below.invoke_succ widens
  execute := below.execute_succ
  iterate := below.iterate_succ
  executeIn := fun body scope machine =>
    on_exit_held_by (below.executeAll body (machine.enter scope))
  executeAll := below.execute_all_succ

end HoldsWith

section Programs

variable {excused : RuntimeError → Prop} {low high : Config}

theorem holds_with (widens : Config.Widens excused low high) {less more : Nat}
    (enough : less ≤ more) : HoldsWith excused low high less more := by
  induction less generalizing more with
  | zero => exact .zero
  | succ less ih =>
      cases more with
      | zero => exact absurd enough (Nat.not_succ_le_zero less)
      | succ more => exact (ih (Nat.le_of_succ_le_succ enough)).succ widens

/-- A program that is neither cut off nor ends with an excused error has the same outcome with every
larger budget and every higher limit. -/
theorem interpret_held (widens : Config.Widens excused low high) {less more : Nat}
    (enough : less ≤ more) (program : Program) (machine : Machine) :
    (interpret low less program machine).HeldBy excused
      (interpret high more program machine) := by
  have below : HoldsWith excused low high less more := holds_with widens enough
  induction program using program_induction generalizing machine with
  | empty => exact Outcome.held_by_self _
  | trailing value =>
      apply Outcome.and_then_held_by (below.evaluate value machine)
      exact fun result after => Outcome.held_by_self _
  | expression value rest inside ih =>
      rw [interpret_expression low less machine value inside,
        interpret_expression high more machine value inside]
      apply Outcome.and_then_held_by (below.evaluate value machine)
      exact fun result between => ih between
  | statement first rest other ih =>
      rw [interpret_statement low less machine rest other,
        interpret_statement high more machine rest other]
      apply Outcome.and_then_held_by (below.execute first machine)
      intro flow between
      cases flow with
      | normal => exact ih between
      | broke => exact Outcome.held_by_self _
      | returned result => exact Outcome.held_by_self _

end Programs

def Outcome.KeptBy {α : Type} (first second : Outcome α) : Prop :=
  first = .exhausted ∨ second = first

/-- A program that is not cut off has the same outcome with every larger budget. -/
theorem interpret_kept {config : Config} {less more : Nat} (enough : less ≤ more)
    (program : Program) (machine : Machine) :
    (interpret config less program machine).KeptBy (interpret config more program machine) := by
  have widens : Config.Widens (fun _ => False) config config := Config.widens_self _ config
  rcases interpret_held widens enough program machine with cut | ⟨error, after, _, never⟩ | same
  · exact .inl cut
  · exact absurd never id
  · exact .inr same

end Treewalk
