import Treewalk.Proofs.Evaluation.Run

/-!
# What the budget decides

Evaluation gives up only where the budget of a run is used up, and a run that is cut off has started
another that is: so `Starts` and `Begins` leave out no call that the evaluator makes.
-/

namespace Treewalk

set_option autoImplicit false

namespace Outcome

variable {α β : Type}

theorem and_then_exhausted {outcome : Outcome α} {next : α → Machine → Outcome β}
    (cut : outcome.andThen next = .exhausted) :
    outcome = .exhausted ∨
      ∃ value machine, outcome = .done value machine ∧ next value machine = .exhausted := by
  cases outcome with
  | done value machine => exact .inr ⟨value, machine, rfl, cut⟩
  | exhausted => exact .inl rfl
  | raised error machine => cases cut
  | stuck => cases cut

theorem on_exit_exhausted {outcome : Outcome α} {change : Machine → Machine}
    (cut : outcome.onExit change = .exhausted) : outcome = .exhausted := by
  cases outcome with
  | exhausted => rfl
  | done value machine => cases cut
  | raised error machine => cases cut
  | stuck => cases cut

end Outcome

theorem Applied.outcome_not_exhausted {applied : Applied} {operator : Token} {machine : Machine} :
    applied.outcome operator machine ≠ .exhausted := by
  cases applied <;> exact nofun

def Run.CutOff (config : Config) (run : Run) : Prop :=
  match run.task with
  | .evaluate expression => evaluate config run.units expression run.machine = .exhausted
  | .evaluateAll expressions => evaluateAll config run.units expressions run.machine = .exhausted
  | .call paren callee values =>
      call config run.units paren callee values run.machine = .exhausted
  | .invoke callable values => invoke config run.units callable values run.machine = .exhausted
  | .execute statement => execute config run.units statement run.machine = .exhausted
  | .iterate condition body => iterate config run.units condition body run.machine = .exhausted
  | .executeIn body scope => executeIn config run.units body scope run.machine = .exhausted
  | .executeAll body => executeAll config run.units body run.machine = .exhausted

section Step

open Outcome

variable {config : Config} {units : Nat} {machine : Machine}

theorem evaluate_cut_off {expression : Expr}
    (cut : evaluate config (units + 1) expression machine = .exhausted) :
    ∃ inner, Starts config ⟨units + 1, .evaluate expression, machine⟩ inner ∧
      inner.CutOff config := by
  cases expression with
  | literal value line place => cases cut
  | grouping inner place => exact ⟨_, .grouping, cut⟩
  | unary operator operand =>
      rcases and_then_exhausted cut with cut | ⟨value, between, done, cut⟩
      · exact ⟨_, .operand, cut⟩
      · exact absurd cut Applied.outcome_not_exhausted
  | binary left operator right =>
      rcases and_then_exhausted cut with cut | ⟨first, between, done, cut⟩
      · exact ⟨_, .binaryLeft, cut⟩
      · rcases and_then_exhausted cut with cut | ⟨second, after, _, cut⟩
        · exact ⟨_, .binaryRight done, cut⟩
        · exact absurd cut Applied.outcome_not_exhausted
  | logical left operator right =>
      rcases and_then_exhausted cut with cut | ⟨first, between, done, cut⟩
      · exact ⟨_, .logicalLeft, cut⟩
      · split at cut
        · cases cut
        · rename_i open_
          exact ⟨_, .logicalRight done (by simpa using open_), cut⟩
  | reference name =>
      have read : readVariable name machine = .exhausted := cut
      unfold readVariable at read
      split at read <;> cases read
  | assign name value =>
      rcases and_then_exhausted cut with cut | ⟨result, between, done, cut⟩
      · exact ⟨_, .assigned, cut⟩
      · unfold writeVariable at cut
        split at cut <;> cases cut
  | call callee paren arguments =>
      rcases and_then_exhausted cut with cut | ⟨function, between, done, cut⟩
      · exact ⟨_, .callee, cut⟩
      · rcases and_then_exhausted cut with cut | ⟨values, after, passed, cut⟩
        · exact ⟨_, .arguments done, cut⟩
        · exact ⟨_, .call done passed, cut⟩

theorem execute_cut_off {statement : Stmt}
    (cut : execute config (units + 1) statement machine = .exhausted) :
    ∃ inner, Starts config ⟨units + 1, .execute statement, machine⟩ inner ∧
      inner.CutOff config := by
  cases statement with
  | expression value =>
      rcases and_then_exhausted cut with cut | ⟨result, between, done, cut⟩
      · exact ⟨_, .expression, cut⟩
      · cases cut
  | print keyword value =>
      rcases and_then_exhausted cut with cut | ⟨result, between, done, cut⟩
      · exact ⟨_, .printed, cut⟩
      · cases cut
  | declare name initial =>
      cases initial with
      | none => cases cut
      | some initial =>
          rcases and_then_exhausted cut with cut | ⟨result, between, done, cut⟩
          · exact ⟨_, .initial, cut⟩
          · cases cut
  | block body place => exact ⟨_, .block, cut⟩
  | ifThen keyword condition consequent =>
      rcases and_then_exhausted cut with cut | ⟨value, between, done, cut⟩
      · exact ⟨_, .ifThenCondition, cut⟩
      · split at cut
        · rename_i holds
          exact ⟨_, .ifThenConsequent done holds, cut⟩
        · cases cut
  | ifElse keyword condition consequent alternative =>
      rcases and_then_exhausted cut with cut | ⟨value, between, done, cut⟩
      · exact ⟨_, .ifElseCondition, cut⟩
      · split at cut
        · rename_i holds
          exact ⟨_, .ifElseConsequent done holds, cut⟩
        · rename_i fails
          exact ⟨_, .ifElseAlternative done (by simpa using fails), cut⟩
  | loop keyword condition body => exact ⟨_, .loop, cut⟩
  | function name parameters body => cases cut
  | returnValue keyword value =>
      cases value with
      | none => cases cut
      | some value =>
          rcases and_then_exhausted cut with cut | ⟨result, between, done, cut⟩
          · exact ⟨_, .result, cut⟩
          · cases cut
  | breakLoop keyword => cases cut

theorem evaluate_all_cut_off {expressions : List Expr}
    (cut : evaluateAll config (units + 1) expressions machine = .exhausted) :
    ∃ inner, Starts config ⟨units + 1, .evaluateAll expressions, machine⟩ inner ∧
      inner.CutOff config := by
  cases expressions with
  | nil => cases cut
  | cons first rest =>
      rcases and_then_exhausted cut with cut | ⟨value, between, done, cut⟩
      · exact ⟨_, .firstArgument, cut⟩
      · rcases and_then_exhausted cut with cut | ⟨values, after, _, cut⟩
        · exact ⟨_, .restArguments done, cut⟩
        · cases cut

theorem call_cut_off {paren : Token} {callee : Value} {values : List Value}
    (cut : call config (units + 1) paren callee values machine = .exhausted) :
    ∃ inner, Starts config ⟨units + 1, .call paren callee values, machine⟩ inner ∧
      inner.CutOff config := by
  unfold call at cut
  split at cut
  · split at cut
    · cases cut
    · rename_i fits
      split at cut
      · cases cut
      · rename_i allowed
        exact ⟨_, .invoke (Decidable.not_not.mp fits) (Nat.lt_of_not_le allowed),
          on_exit_exhausted cut⟩
  · cases cut

theorem invoke_cut_off {callable : Callable} {values : List Value}
    (cut : invoke config (units + 1) callable values machine = .exhausted) :
    ∃ inner, Starts config ⟨units + 1, .invoke callable values, machine⟩ inner ∧
      inner.CutOff config := by
  rcases callable with ⟨identity, code⟩
  cases code with
  | native function => cases function; cases cut
  | user declaration closure =>
      rcases and_then_exhausted cut with cut | ⟨flow, after, _, cut⟩
      · exact ⟨_, .body rfl, cut⟩
      · cases flow <;> cases cut

theorem iterate_cut_off {condition : Expr} {body : Stmt}
    (cut : iterate config (units + 1) condition body machine = .exhausted) :
    ∃ inner, Starts config ⟨units + 1, .iterate condition body, machine⟩ inner ∧
      inner.CutOff config := by
  rcases and_then_exhausted cut with cut | ⟨value, between, done, cut⟩
  · exact ⟨_, .condition, cut⟩
  · split at cut
    · rename_i holds
      rcases and_then_exhausted cut with cut | ⟨flow, after, ran, cut⟩
      · exact ⟨_, .round done holds, cut⟩
      · cases flow with
        | normal => exact ⟨_, .again done holds ran, cut⟩
        | broke => cases cut
        | returned result => cases cut
    · cases cut

theorem execute_all_cut_off {body : List Stmt}
    (cut : executeAll config (units + 1) body machine = .exhausted) :
    ∃ inner, Starts config ⟨units + 1, .executeAll body, machine⟩ inner ∧
      inner.CutOff config := by
  cases body with
  | nil => cases cut
  | cons first rest =>
      rcases and_then_exhausted cut with cut | ⟨flow, between, done, cut⟩
      · exact ⟨_, .firstStatement, cut⟩
      · cases flow with
        | normal => exact ⟨_, .restStatements done, cut⟩
        | broke => cases cut
        | returned result => cases cut

end Step

variable {config : Config}

/-- A run that has budget left and is cut off has started a run that is cut off. -/
theorem starts_of_cut_off {units : Nat} {task : Task} {machine : Machine}
    (cut : Run.CutOff config ⟨units + 1, task, machine⟩) :
    ∃ inner, Starts config ⟨units + 1, task, machine⟩ inner ∧ inner.CutOff config := by
  cases task with
  | evaluate expression => exact evaluate_cut_off cut
  | evaluateAll expressions => exact evaluate_all_cut_off cut
  | call paren callee values => exact call_cut_off cut
  | invoke callable values => exact invoke_cut_off cut
  | execute statement => exact execute_cut_off cut
  | iterate condition body => exact iterate_cut_off cut
  | executeIn body scope => exact ⟨_, .inScope, Outcome.on_exit_exhausted cut⟩
  | executeAll body => exact execute_all_cut_off cut

theorem starts_units {outer inner : Run} (starts : Starts config outer inner) :
    outer.units = inner.units + 1 := by
  cases starts <;> rfl

/-- From run to run, being cut off leads down to a run without any budget. -/
theorem run_out_of_cut_off (units : Nat) {run : Run} (left : run.units = units)
    (cut : run.CutOff config) :
    ∃ inner, Relation.ReflTransGen (Starts config) run inner ∧ inner.units = 0 := by
  induction units generalizing run with
  | zero => exact ⟨run, .refl, left⟩
  | succ units ih =>
      obtain ⟨_, task, machine⟩ := run
      cases left
      obtain ⟨inner, starts, later⟩ := starts_of_cut_off cut
      have less : units = inner.units := Nat.succ.inj (starts_units starts)
      obtain ⟨last, reached, out⟩ := ih less.symm later
      exact ⟨last, .head starts reached, out⟩

theorem begins_of_exhausted {units : Nat} {program : Program} {machine : Machine}
    (cut : interpret config units program machine = .exhausted) :
    ∃ run, Begins config units program machine run ∧ run.units = units ∧ run.CutOff config := by
  induction program using program_induction generalizing machine with
  | empty => cases cut
  | trailing value =>
      rcases Outcome.and_then_exhausted cut with cut | ⟨result, after, _, cut⟩
      · exact ⟨_, .expression, rfl, cut⟩
      · cases cut
  | expression value rest inside ih =>
      rw [interpret_expression config units machine value inside] at cut
      rcases Outcome.and_then_exhausted cut with cut | ⟨result, between, done, cut⟩
      · exact ⟨_, .expression, rfl, cut⟩
      · obtain ⟨run, begins, later⟩ := ih cut
        exact ⟨run, .behindExpression done begins, later⟩
  | statement first rest other ih =>
      rw [interpret_statement config units machine rest other] at cut
      rcases Outcome.and_then_exhausted cut with cut | ⟨flow, between, done, cut⟩
      · exact ⟨_, .statement other, rfl, cut⟩
      · cases flow with
        | normal =>
            obtain ⟨run, begins, later⟩ := ih cut
            exact ⟨run, .behindStatement other done begins, later⟩
        | broke => cases cut
        | returned result => cases cut

/-- A program is cut off only by a run, among those that happen in it, with no budget left. -/
theorem run_out_of_exhausted {units : Nat} {program : Program} {machine : Machine}
    (cut : interpret config units program machine = .exhausted) :
    ∃ run, Happens config units program machine run ∧ run.units = 0 := by
  obtain ⟨top, begins, left, cut⟩ := begins_of_exhausted cut
  obtain ⟨run, reached, out⟩ := run_out_of_cut_off units left cut
  exact ⟨run, ⟨top, begins, reached⟩, out⟩

end Treewalk
