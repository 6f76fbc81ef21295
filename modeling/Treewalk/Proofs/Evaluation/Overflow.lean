import Treewalk.Proofs.Evaluation.Restoration

/-!
# Where a stack overflow comes from

An error that ends a run ends every run around it, so what a run inside of a program raises is
raised by the program. In the other direction, a stack overflow that ends a run comes from a run
that it has started, or the run is a call that is refused. On the way in, the counter of active
calls goes up with every function that is run; as a native function starts no run of its own, what
the counter shows at any call is the number of declared functions that are being run around it.
-/

namespace Treewalk

set_option autoImplicit false

namespace Outcome

variable {α β : Type}

theorem and_then_raised {outcome : Outcome α} {next : α → Machine → Outcome β}
    {error : RuntimeError} {after : Machine} (raised : outcome.andThen next = .raised error after) :
    outcome = .raised error after ∨
      ∃ value machine, outcome = .done value machine ∧
        next value machine = .raised error after := by
  cases outcome with
  | done value machine => exact .inr ⟨value, machine, rfl, raised⟩
  | raised found machine =>
      cases raised
      exact .inl rfl
  | exhausted => cases raised
  | stuck => cases raised

theorem on_exit_raised {outcome : Outcome α} {change : Machine → Machine} {error : RuntimeError}
    {after : Machine} (raised : outcome.onExit change = .raised error after) :
    ∃ before, outcome = .raised error before := by
  cases outcome with
  | raised found machine =>
      cases raised
      exact ⟨machine, rfl⟩
  | done value machine => cases raised
  | exhausted => cases raised
  | stuck => cases raised

def Raises (outcome : Outcome α) (error : RuntimeError) : Prop :=
  ∃ after, outcome = .raised error after

theorem raises_and_then {outcome : Outcome α} {error : RuntimeError}
    (raises : outcome.Raises error) (next : α → Machine → Outcome β) :
    (outcome.andThen next).Raises error := by
  obtain ⟨after, rfl⟩ := raises
  exact ⟨after, rfl⟩

theorem raises_behind {outcome : Outcome α} {next : α → Machine → Outcome β} {value : α}
    {machine : Machine} {error : RuntimeError} (done : outcome = .done value machine)
    (raises : (next value machine).Raises error) : (outcome.andThen next).Raises error := by
  rw [done]
  exact raises

theorem raises_on_exit {outcome : Outcome α} {error : RuntimeError}
    (raises : outcome.Raises error) (change : Machine → Machine) :
    (outcome.onExit change).Raises error := by
  obtain ⟨after, rfl⟩ := raises
  exact ⟨change after, rfl⟩

end Outcome

def Run.Raises (config : Config) (run : Run) (error : RuntimeError) : Prop :=
  match run.task with
  | .evaluate expression => (evaluate config run.units expression run.machine).Raises error
  | .evaluateAll expressions => (evaluateAll config run.units expressions run.machine).Raises error
  | .call paren callee values =>
      (call config run.units paren callee values run.machine).Raises error
  | .invoke callable values => (invoke config run.units callable values run.machine).Raises error
  | .execute statement => (execute config run.units statement run.machine).Raises error
  | .iterate condition body => (iterate config run.units condition body run.machine).Raises error
  | .executeIn body scope => (executeIn config run.units body scope run.machine).Raises error
  | .executeAll body => (executeAll config run.units body run.machine).Raises error

section Outward

open Outcome

variable {config : Config} {error : RuntimeError}

/-- An error goes out to the run that has started the one that it ends. -/
theorem raises_of_starts {outer inner : Run} (starts : Starts config outer inner)
    (raises : inner.Raises config error) : outer.Raises config error := by
  cases starts with
  | grouping => exact raises
  | operand => exact raises_and_then raises _
  | binaryLeft => exact raises_and_then raises _
  | binaryRight done => exact raises_behind done (raises_and_then raises _)
  | logicalLeft => exact raises_and_then raises _
  | logicalRight done open_ =>
      refine raises_behind done ?_
      rw [open_]
      exact raises
  | assigned => exact raises_and_then raises _
  | callee => exact raises_and_then raises _
  | arguments done => exact raises_behind done (raises_and_then raises _)
  | call done passed => exact raises_behind done (raises_behind passed raises)
  | firstArgument => exact raises_and_then raises _
  | restArguments done => exact raises_behind done (raises_and_then raises _)
  | invoke fits allowed =>
      unfold Run.Raises call
      dsimp only
      rw [if_neg (Decidable.not_not.mpr fits), if_neg (Nat.not_le.mpr allowed)]
      exact raises_on_exit raises _
  | @body _ _ callable _ _ _ code =>
      rcases callable with ⟨identity, found⟩
      cases code
      exact raises_and_then raises _
  | expression => exact raises_and_then raises _
  | printed => exact raises_and_then raises _
  | initial => exact raises_and_then raises _
  | block => exact raises
  | ifThenCondition => exact raises_and_then raises _
  | ifThenConsequent done holds =>
      refine raises_behind done ?_
      rw [if_pos holds]
      exact raises
  | ifElseCondition => exact raises_and_then raises _
  | ifElseConsequent done holds =>
      refine raises_behind done ?_
      rw [if_pos holds]
      exact raises
  | ifElseAlternative done fails =>
      refine raises_behind done ?_
      rw [fails]
      exact raises
  | loop => exact raises
  | result => exact raises_and_then raises _
  | condition => exact raises_and_then raises _
  | round done holds =>
      refine raises_behind done ?_
      rw [if_pos holds]
      exact raises_and_then raises _
  | again done holds ran =>
      refine raises_behind done ?_
      rw [if_pos holds]
      exact raises_behind ran raises
  | inScope => exact raises_on_exit raises _
  | firstStatement => exact raises_and_then raises _
  | restStatements done => exact raises_behind done raises

theorem raises_of_reached {top run : Run} (reached : Relation.ReflTransGen (Starts config) top run)
    (raises : run.Raises config error) : top.Raises config error := by
  induction reached with
  | refl => exact raises
  | tail _ starts ih => exact ih (raises_of_starts starts raises)

/-- An error that ends one of the runs of a program ends the program. -/
theorem interpret_raises {units : Nat} {program : Program} {machine : Machine} {top : Run}
    (begins : Begins config units program machine top) (raises : top.Raises config error) :
    (interpret config units program machine).Raises error := by
  induction begins with
  | @expression value rest machine =>
      cases rest with
      | nil => exact raises_and_then raises _
      | cons second rest => exact raises_and_then raises _
  | @statement first rest machine other =>
      rw [interpret_statement config units machine rest other]
      exact raises_and_then raises _
  | @behindExpression value rest machine between result run done later ih =>
      have inside : rest ≠ [] := by
        rintro rfl
        cases later
      rw [interpret_expression config units machine value inside]
      exact raises_behind done (ih raises)
  | @behindStatement first rest machine between run other done later ih =>
      rw [interpret_statement config units machine rest other]
      exact raises_behind done (ih raises)

end Outward

/-- The call is refused because as many calls are active as the limit allows. -/
inductive Refused (config : Config) (paren : Token) : Run → Prop where
  | intro {units : Nat} {callable : Callable} {values : List Value} {machine : Machine}
      (fits : values.length = callable.arity) (full : config.maxCallDepth ≤ machine.callDepth) :
      Refused config paren ⟨units + 1, .call paren (.callable callable) values, machine⟩

theorem refused_raises {config : Config} {paren : Token} {run : Run}
    (refused : Refused config paren run) : run.Raises config ⟨.stackOverflow, paren⟩ := by
  cases refused with
  | intro fits full =>
      unfold Run.Raises call
      dsimp only
      rw [if_neg (Decidable.not_not.mpr fits), if_pos full]
      exact ⟨_, rfl⟩

theorem apply_unary_no_overflow (operator : Kind) (operand : Value) :
    applyUnary operator operand ≠ .error .stackOverflow := by
  unfold applyUnary
  split
  · exact nofun
  · split <;> exact nofun

theorem apply_binary_no_overflow (operator : Kind) (left right : Value) :
    applyBinary operator left right ≠ .error .stackOverflow := by
  unfold applyBinary
  split
  · exact nofun
  · exact nofun
  · unfold applyPlus
    split <;> exact nofun
  · split
    · unfold applyNumeric
      split
      case h_3 => split <;> exact nofun
      all_goals exact nofun
    · exact nofun

theorem applied_no_overflow {applied : Applied} {operator paren : Token} {machine after : Machine}
    (other : applied ≠ .error .stackOverflow) :
    applied.outcome operator machine ≠ .raised ⟨.stackOverflow, paren⟩ after := by
  cases applied with
  | value result => exact nofun
  | error cause =>
      intro same
      cases same
      exact other rfl
  | meaningless => exact nofun

section Inward

open Outcome

variable {config : Config} {units : Nat} {machine : Machine} {paren : Token}

/-- A run with budget left that ends with a stack overflow is a refused call, or has started a run
that ends in the same way. -/
def OverflowsWithin (config : Config) (paren : Token) (run : Run) : Prop :=
  Refused config paren run ∨
    ∃ inner, Starts config run inner ∧ inner.Raises config ⟨.stackOverflow, paren⟩

theorem evaluate_overflow {expression : Expr}
    (raises : (evaluate config (units + 1) expression machine).Raises ⟨.stackOverflow, paren⟩) :
    OverflowsWithin config paren ⟨units + 1, .evaluate expression, machine⟩ := by
  obtain ⟨final, raised⟩ := raises
  right
  cases expression with
  | literal value line place => cases raised
  | grouping inner place => exact ⟨_, .grouping, final, raised⟩
  | unary operator operand =>
      rcases and_then_raised raised with raised | ⟨value, between, done, raised⟩
      · exact ⟨_, .operand, final, raised⟩
      · exact absurd raised (applied_no_overflow (apply_unary_no_overflow _ _))
  | binary left operator right =>
      rcases and_then_raised raised with raised | ⟨first, between, done, raised⟩
      · exact ⟨_, .binaryLeft, final, raised⟩
      · rcases and_then_raised raised with raised | ⟨second, after, _, raised⟩
        · exact ⟨_, .binaryRight done, final, raised⟩
        · exact absurd raised (applied_no_overflow (apply_binary_no_overflow _ _ _))
  | logical left operator right =>
      rcases and_then_raised raised with raised | ⟨first, between, done, raised⟩
      · exact ⟨_, .logicalLeft, final, raised⟩
      · split at raised
        · cases raised
        · rename_i open_
          exact ⟨_, .logicalRight done (by simpa using open_), final, raised⟩
  | reference name =>
      have read : readVariable name machine = .raised ⟨.stackOverflow, paren⟩ final := raised
      unfold readVariable at read
      split at read <;> cases read
  | assign name value =>
      rcases and_then_raised raised with raised | ⟨result, between, done, raised⟩
      · exact ⟨_, .assigned, final, raised⟩
      · unfold writeVariable at raised
        split at raised <;> cases raised
  | call callee paren arguments =>
      rcases and_then_raised raised with raised | ⟨function, between, done, raised⟩
      · exact ⟨_, .callee, final, raised⟩
      · rcases and_then_raised raised with raised | ⟨values, after, passed, raised⟩
        · exact ⟨_, .arguments done, final, raised⟩
        · exact ⟨_, .call done passed, final, raised⟩

theorem evaluate_all_overflow {expressions : List Expr}
    (raises : (evaluateAll config (units + 1) expressions machine).Raises ⟨.stackOverflow, paren⟩) :
    OverflowsWithin config paren ⟨units + 1, .evaluateAll expressions, machine⟩ := by
  obtain ⟨final, raised⟩ := raises
  right
  cases expressions with
  | nil => cases raised
  | cons first rest =>
      rcases and_then_raised raised with raised | ⟨value, between, done, raised⟩
      · exact ⟨_, .firstArgument, final, raised⟩
      · rcases and_then_raised raised with raised | ⟨values, after, _, raised⟩
        · exact ⟨_, .restArguments done, final, raised⟩
        · cases raised

theorem call_overflow {closing : Token} {callee : Value} {values : List Value}
    (raises : (call config (units + 1) closing callee values machine).Raises
      ⟨.stackOverflow, paren⟩) :
    OverflowsWithin config paren ⟨units + 1, .call closing callee values, machine⟩ := by
  obtain ⟨final, raised⟩ := raises
  unfold call at raised
  split at raised
  · split at raised
    · cases raised
    · rename_i fits
      have fits := Decidable.not_not.mp fits
      split at raised
      · rename_i full
        cases raised
        exact .inl (.intro fits full)
      · rename_i allowed
        exact .inr ⟨_, .invoke fits (Nat.lt_of_not_le allowed), on_exit_raised raised⟩
  · cases raised

theorem invoke_overflow {callable : Callable} {values : List Value}
    (raises : (invoke config (units + 1) callable values machine).Raises ⟨.stackOverflow, paren⟩) :
    OverflowsWithin config paren ⟨units + 1, .invoke callable values, machine⟩ := by
  obtain ⟨final, raised⟩ := raises
  right
  rcases callable with ⟨identity, code⟩
  cases code with
  | native function => cases function; cases raised
  | user declaration closure =>
      rcases and_then_raised raised with raised | ⟨flow, after, _, raised⟩
      · exact ⟨_, .body rfl, final, raised⟩
      · cases flow <;> cases raised

theorem execute_overflow {statement : Stmt}
    (raises : (execute config (units + 1) statement machine).Raises ⟨.stackOverflow, paren⟩) :
    OverflowsWithin config paren ⟨units + 1, .execute statement, machine⟩ := by
  obtain ⟨final, raised⟩ := raises
  right
  cases statement with
  | expression value =>
      rcases and_then_raised raised with raised | ⟨result, between, done, raised⟩
      · exact ⟨_, .expression, final, raised⟩
      · cases raised
  | print keyword value =>
      rcases and_then_raised raised with raised | ⟨result, between, done, raised⟩
      · exact ⟨_, .printed, final, raised⟩
      · cases raised
  | declare name initial =>
      cases initial with
      | none => cases raised
      | some initial =>
          rcases and_then_raised raised with raised | ⟨result, between, done, raised⟩
          · exact ⟨_, .initial, final, raised⟩
          · cases raised
  | block body place => exact ⟨_, .block, final, raised⟩
  | ifThen keyword condition consequent =>
      rcases and_then_raised raised with raised | ⟨value, between, done, raised⟩
      · exact ⟨_, .ifThenCondition, final, raised⟩
      · split at raised
        · rename_i holds
          exact ⟨_, .ifThenConsequent done holds, final, raised⟩
        · cases raised
  | ifElse keyword condition consequent alternative =>
      rcases and_then_raised raised with raised | ⟨value, between, done, raised⟩
      · exact ⟨_, .ifElseCondition, final, raised⟩
      · split at raised
        · rename_i holds
          exact ⟨_, .ifElseConsequent done holds, final, raised⟩
        · rename_i fails
          exact ⟨_, .ifElseAlternative done (by simpa using fails), final, raised⟩
  | loop keyword condition body => exact ⟨_, .loop, final, raised⟩
  | function name parameters body => cases raised
  | returnValue keyword value =>
      cases value with
      | none => cases raised
      | some value =>
          rcases and_then_raised raised with raised | ⟨result, between, done, raised⟩
          · exact ⟨_, .result, final, raised⟩
          · cases raised
  | breakLoop keyword => cases raised

theorem iterate_overflow {condition : Expr} {body : Stmt}
    (raises : (iterate config (units + 1) condition body machine).Raises ⟨.stackOverflow, paren⟩) :
    OverflowsWithin config paren ⟨units + 1, .iterate condition body, machine⟩ := by
  obtain ⟨final, raised⟩ := raises
  right
  rcases and_then_raised raised with raised | ⟨value, between, done, raised⟩
  · exact ⟨_, .condition, final, raised⟩
  · split at raised
    · rename_i holds
      rcases and_then_raised raised with raised | ⟨flow, after, ran, raised⟩
      · exact ⟨_, .round done holds, final, raised⟩
      · cases flow with
        | normal => exact ⟨_, .again done holds ran, final, raised⟩
        | broke => cases raised
        | returned result => cases raised
    · cases raised

theorem execute_all_overflow {body : List Stmt}
    (raises : (executeAll config (units + 1) body machine).Raises ⟨.stackOverflow, paren⟩) :
    OverflowsWithin config paren ⟨units + 1, .executeAll body, machine⟩ := by
  obtain ⟨final, raised⟩ := raises
  right
  cases body with
  | nil => cases raised
  | cons first rest =>
      rcases and_then_raised raised with raised | ⟨flow, between, done, raised⟩
      · exact ⟨_, .firstStatement, final, raised⟩
      · cases flow with
        | normal => exact ⟨_, .restStatements done, final, raised⟩
        | broke => cases raised
        | returned result => cases raised

theorem overflows_within {task : Task}
    (raises : Run.Raises config ⟨units + 1, task, machine⟩ ⟨.stackOverflow, paren⟩) :
    OverflowsWithin config paren ⟨units + 1, task, machine⟩ := by
  cases task with
  | evaluate expression => exact evaluate_overflow raises
  | evaluateAll expressions => exact evaluate_all_overflow raises
  | call closing callee values => exact call_overflow raises
  | invoke callable values => exact invoke_overflow raises
  | execute statement => exact execute_overflow raises
  | iterate condition body => exact iterate_overflow raises
  | executeIn body scope =>
      obtain ⟨final, raised⟩ := raises
      exact .inr ⟨_, .inScope, on_exit_raised raised⟩
  | executeAll body => exact execute_all_overflow raises

theorem not_raises_without_budget {task : Task} {error : RuntimeError} :
    ¬Run.Raises config ⟨0, task, machine⟩ error := by
  cases task <;> rintro ⟨_, ⟨⟩⟩

theorem begins_of_raised {program : Program} {error : RuntimeError}
    (raises : (interpret config units program machine).Raises error) :
    ∃ top, Begins config units program machine top ∧ top.Raises config error := by
  obtain ⟨final, raised⟩ := raises
  induction program using program_induction generalizing machine with
  | empty => cases raised
  | trailing value =>
      rcases and_then_raised raised with raised | ⟨result, after, _, raised⟩
      · exact ⟨_, .expression, final, raised⟩
      · cases raised
  | expression value rest inside ih =>
      rw [interpret_expression config units machine value inside] at raised
      rcases and_then_raised raised with raised | ⟨result, between, done, raised⟩
      · exact ⟨_, .expression, final, raised⟩
      · obtain ⟨top, begins, later⟩ := ih raised
        exact ⟨top, .behindExpression done begins, later⟩
  | statement first rest other ih =>
      rw [interpret_statement config units machine rest other] at raised
      rcases and_then_raised raised with raised | ⟨flow, between, done, raised⟩
      · exact ⟨_, .statement other, final, raised⟩
      · cases flow with
        | normal =>
            obtain ⟨top, begins, later⟩ := ih raised
            exact ⟨top, .behindStatement other done begins, later⟩
        | broke => cases raised
        | returned result => cases raised

end Inward

def Task.declaredCalls : Task → Nat
  | .invoke ⟨_, .user _ _⟩ _ => 1
  | _ => 0

/-- One if the task runs a function of either kind: for such a task the counter has gone up. -/
def Task.countedCalls : Task → Nat
  | .invoke _ _ => 1
  | _ => 0

/-- The second run happens inside of the first, and on the way to it `active` declared functions are
being run. -/
inductive Nested (config : Config) (top : Run) : Nat → Run → Prop where
  | top : Nested config top 0 top
  | inside {active : Nat} {outer inner : Run} (earlier : Nested config top active outer)
      (starts : Starts config outer inner) :
      Nested config top (active + outer.task.declaredCalls) inner

section Counting

variable {config : Config}

theorem Nested.reached {top run : Run} {active : Nat} (nested : Nested config top active run) :
    Relation.ReflTransGen (Starts config) top run := by
  induction nested with
  | top => exact .refl
  | inside _ starts ih => exact .tail ih starts

theorem counted_of_starts {outer inner : Run} (starts : Starts config outer inner) :
    outer.task.countedCalls = outer.task.declaredCalls := by
  cases starts with
  | @body _ _ callable _ _ _ code =>
      rcases callable with ⟨identity, found⟩
      cases code
      rfl
  | _ => rfl

/-- From a run to one that it starts, the counter goes up exactly if that one runs a function. -/
theorem call_depth_of_starts {outer inner : Run} (starts : Starts config outer inner) :
    inner.machine.callDepth = outer.machine.callDepth + inner.task.countedCalls := by
  have evaluated : ∀ {units expression value} {before after : Machine},
      evaluate config units expression before = .done value after →
      after.callDepth = before.callDepth := by
    intro units expression value before after done
    have restored := (restores_with config units).evaluate expression before
    rw [done] at restored
    exact restored.callDepth
  have executed : ∀ {units statement flow} {before after : Machine},
      execute config units statement before = .done flow after →
      after.callDepth = before.callDepth := by
    intro units statement flow before after done
    have restored := (restores_with config units).execute statement before
    rw [done] at restored
    exact restored.callDepth
  cases starts with
  | binaryRight done => exact evaluated done
  | logicalRight done _ => exact evaluated done
  | arguments done => exact evaluated done
  | @call units _ between _ _ _ arguments _ _ done passed =>
      have restored := (restores_with config units).evaluateAll arguments between
      rw [passed] at restored
      exact restored.callDepth.trans (evaluated done)
  | restArguments done => exact evaluated done
  | ifThenConsequent done _ => exact evaluated done
  | ifElseConsequent done _ => exact evaluated done
  | ifElseAlternative done _ => exact evaluated done
  | round done _ => exact evaluated done
  | again done _ ran => exact (executed ran).trans (evaluated done)
  | restStatements done => exact executed done
  | _ => rfl

/-- The counter shows the declared functions that are being run around a run, and the function that
the run itself is. -/
theorem call_depth_of_nested {top run : Run} {active : Nat} (nested : Nested config top active run)
    (outside : top.task.countedCalls = 0) :
    run.machine.callDepth = top.machine.callDepth + active + run.task.countedCalls := by
  induction nested with
  | top => omega
  | inside earlier starts ih =>
      rw [call_depth_of_starts starts, ih, counted_of_starts starts]
      omega

theorem begins_outside {units : Nat} {program : Program} {machine : Machine} {top : Run}
    (begins : Begins config units program machine top) :
    top.task.countedCalls = 0 ∧ top.machine.callDepth = machine.callDepth := by
  induction begins with
  | expression => exact ⟨rfl, rfl⟩
  | statement other => exact ⟨rfl, rfl⟩
  | @behindExpression value rest machine between result run done later ih =>
      have restored := (restores_with config units).evaluate value machine
      rw [done] at restored
      exact ⟨ih.1, ih.2.trans restored.callDepth⟩
  | @behindStatement first rest machine between run other done later ih =>
      have restored := (restores_with config units).execute first machine
      rw [done] at restored
      exact ⟨ih.1, ih.2.trans restored.callDepth⟩

/-- From run to run, a stack overflow leads down to a call that is refused. -/
theorem refused_of_raises {top run : Run} {active : Nat} {paren : Token} (units : Nat)
    (left : run.units = units) (nested : Nested config top active run)
    (raises : run.Raises config ⟨.stackOverflow, paren⟩) :
    ∃ more inner, Nested config top more inner ∧ Refused config paren inner := by
  induction units generalizing run active with
  | zero =>
      obtain ⟨_, task, machine⟩ := run
      cases left
      exact absurd raises not_raises_without_budget
  | succ units ih =>
      obtain ⟨_, task, machine⟩ := run
      cases left
      rcases overflows_within raises with refused | ⟨inner, starts, later⟩
      · exact ⟨active, _, nested, refused⟩
      · have less : inner.units = units := by cases starts <;> rfl
        exact ih less (.inside nested starts) later

end Counting

end Treewalk
