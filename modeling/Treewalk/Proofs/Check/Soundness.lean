import Treewalk.Proofs.Check.Guarded
import Treewalk.Proofs.Session.Reached

/-!
# The static check is sound over whole sessions

In a session every function that was ever declared comes from a source that passed the check, so
the heap is checked at all times. It follows that no statement of an accepted program leaves the
program early, and that no function body that runs in the meantime ends by leaving a loop.
-/

namespace Treewalk

set_option autoImplicit false

/-- The code that a task runs has passed the check, in whatever place it stands. -/
def Task.Checked : Task → Prop
  | .evaluate expression => expression.Meaningful
  | .evaluateAll expressions => Expr.AllMeaningful expressions
  | .call _ callee values => callee.Checked ∧ ∀ value ∈ values, value.Checked
  | .invoke callable values => (Value.callable callable).Checked ∧ ∀ value ∈ values, value.Checked
  | .execute statement => ∃ context, statement.Checked context
  | .iterate condition body => condition.Meaningful ∧ ∃ context, body.Checked context
  | .executeIn body _ => ∃ context, Stmt.AllChecked context body
  | .executeAll body => ∃ context, Stmt.AllChecked context body

structure Run.Checked (run : Run) : Prop where
  task : run.task.Checked
  machine : run.machine.Checked

section Runs

variable {config : Config} {units : Nat} {machine after : Machine}

theorem evaluate_checked {expression : Expr} {value : Value} (meaningful : expression.Meaningful)
    (checked : machine.Checked)
    (done : evaluate config units expression machine = .done value after) :
    value.Checked ∧ after.Checked :=
  ((guarded_with config units).evaluate expression machine meaningful checked).done done

theorem execute_checked {context : Context} {statement : Stmt} {flow : Flow}
    (passed : statement.Checked context) (checked : machine.Checked)
    (done : execute config units statement machine = .done flow after) :
    context.Allows flow ∧ after.Checked :=
  ((guarded_with config units).execute context statement machine passed checked).done done

theorem starts_checked {outer inner : Run} (starts : Starts config outer inner)
    (checked : outer.Checked) : inner.Checked := by
  obtain ⟨task, heap⟩ := checked
  cases starts with
  | grouping => exact ⟨task, heap⟩
  | operand => exact ⟨task.2, heap⟩
  | binaryLeft => exact ⟨task.2.1, heap⟩
  | binaryRight done => exact ⟨task.2.2, (evaluate_checked task.2.1 heap done).2⟩
  | logicalLeft => exact ⟨task.2.1, heap⟩
  | logicalRight done _ => exact ⟨task.2.2, (evaluate_checked task.2.1 heap done).2⟩
  | assigned => exact ⟨task, heap⟩
  | callee => exact ⟨task.1, heap⟩
  | arguments done => exact ⟨task.2, (evaluate_checked task.1 heap done).2⟩
  | @call units _ _ _ _ _ arguments _ _ done passed =>
      have function := evaluate_checked task.1 heap done
      have values := ((guarded_with config units).evaluateAll arguments _ task.2 function.2).done
        passed
      exact ⟨⟨function.1, values.1⟩, values.2⟩
  | firstArgument => exact ⟨task.1, heap⟩
  | restArguments done => exact ⟨task.2, (evaluate_checked task.1 heap done).2⟩
  | invoke fits allowed => exact ⟨task, heap⟩
  | @body _ _ callable declaration closure _ code =>
      rcases callable with ⟨identity, found⟩
      cases code
      have body := task.1 identity declaration closure rfl
      exact ⟨⟨Context.body, body.settled, body.meaningful⟩,
        prepared_checked declaration closure task.2 heap⟩
  | expression =>
      obtain ⟨context, passed⟩ := task
      exact ⟨passed.meaningful, heap⟩
  | printed =>
      obtain ⟨context, passed⟩ := task
      exact ⟨passed.meaningful, heap⟩
  | initial =>
      obtain ⟨context, passed⟩ := task
      exact ⟨passed.meaningful, heap⟩
  | @block _ machine =>
      obtain ⟨context, passed⟩ := task
      exact ⟨⟨context, passed.block⟩, Machine.open_scope_stores machine.current heap⟩
  | ifThenCondition =>
      obtain ⟨context, passed⟩ := task
      exact ⟨passed.meaningful.1, heap⟩
  | ifThenConsequent done _ =>
      obtain ⟨context, passed⟩ := task
      exact ⟨⟨context, passed.consequent⟩, (evaluate_checked passed.meaningful.1 heap done).2⟩
  | ifElseCondition =>
      obtain ⟨context, passed⟩ := task
      exact ⟨passed.meaningful.1, heap⟩
  | ifElseConsequent done _ =>
      obtain ⟨context, passed⟩ := task
      exact ⟨⟨context, passed.branches.1⟩, (evaluate_checked passed.meaningful.1 heap done).2⟩
  | ifElseAlternative done _ =>
      obtain ⟨context, passed⟩ := task
      exact ⟨⟨context, passed.branches.2⟩, (evaluate_checked passed.meaningful.1 heap done).2⟩
  | loop =>
      obtain ⟨context, passed⟩ := task
      exact ⟨⟨passed.meaningful.1, context.loop, passed.body⟩, heap⟩
  | result =>
      obtain ⟨context, passed⟩ := task
      exact ⟨passed.meaningful, heap⟩
  | condition => exact ⟨task.1, heap⟩
  | round done _ => exact ⟨task.2, (evaluate_checked task.1 heap done).2⟩
  | again done _ ran =>
      obtain ⟨meaningful, context, passed⟩ := task
      have asked := evaluate_checked meaningful heap done
      exact ⟨⟨meaningful, context, passed⟩, (execute_checked passed asked.2 ran).2⟩
  | inScope => exact ⟨task, heap⟩
  | firstStatement =>
      obtain ⟨context, passed⟩ := task
      exact ⟨⟨context, passed.first⟩, heap⟩
  | restStatements done =>
      obtain ⟨context, passed⟩ := task
      exact ⟨⟨context, passed.rest⟩, (execute_checked passed.first heap done).2⟩

theorem reached_run_checked {top run : Run} (checked : top.Checked)
    (reached : Relation.ReflTransGen (Starts config) top run) : run.Checked := by
  induction reached with
  | refl => exact checked
  | tail _ starts ih => exact starts_checked starts ih

theorem top_flow_normal {statement : Stmt} {flow : Flow} (passed : statement.Checked Context.top)
    (checked : machine.Checked) (done : execute config units statement machine = .done flow after) :
    flow = .normal ∧ after.Checked := by
  have ended := execute_checked passed checked done
  refine ⟨?_, ended.2⟩
  cases flow with
  | normal => rfl
  | broke => cases ended.1
  | returned value => cases ended.1.1

theorem begins_checked {program : Program} {run : Run}
    (begins : Begins config units program machine run)
    (passed : Stmt.AllChecked Context.top program) (checked : machine.Checked) :
    run.Checked ∧ ∀ statement, run.task = .execute statement → statement.Checked Context.top := by
  induction begins with
  | expression =>
      refine ⟨⟨passed.first.meaningful, checked⟩, ?_⟩
      intro statement same
      cases same
  | statement other =>
      refine ⟨⟨⟨Context.top, passed.first⟩, checked⟩, ?_⟩
      intro statement same
      cases same
      exact passed.first
  | behindExpression done later ih =>
      exact ih passed.rest (evaluate_checked passed.first.meaningful checked done).2
  | behindStatement other done later ih =>
      exact ih passed.rest (top_flow_normal passed.first checked done).2

/-- Evaluating a checked program keeps the heap checked. If it is done, it has run every
statement. -/
theorem interpret_checked {program : Program} (passed : Stmt.AllChecked Context.top program)
    (checked : machine.Checked) :
    (interpret config units program machine).Meets
      (fun shown after => Completes config units program machine shown after ∧ after.Checked)
      (fun _ after => after.Checked) False := by
  have below := guarded_with config units
  induction program using program_induction generalizing machine with
  | empty => exact ⟨.empty, checked⟩
  | trailing value =>
      apply Outcome.meets_and_then
        (below.evaluate value machine passed.first.meaningful checked)
      rintro result after done ⟨-, checkedAfter⟩
      exact ⟨.trailing done, checkedAfter⟩
  | expression value rest inside ih =>
      rw [interpret_expression config units machine value inside]
      apply Outcome.meets_and_then
        (below.evaluate value machine passed.first.meaningful checked)
      rintro result between done ⟨-, checkedBetween⟩
      apply Outcome.meets_of_meets (ih passed.rest checkedBetween)
      · rintro shown after ⟨completes, checkedAfter⟩
        exact ⟨.expression inside done completes, checkedAfter⟩
      · exact fun _ _ => id
      · exact id
  | statement first rest other ih =>
      rw [interpret_statement config units machine rest other]
      apply Outcome.meets_and_then
        (below.execute Context.top first machine passed.first checked)
      rintro flow between done ⟨allowed, checkedBetween⟩
      cases flow with
      | normal =>
          apply Outcome.meets_of_meets (ih passed.rest checkedBetween)
          · rintro shown after ⟨completes, checkedAfter⟩
            exact ⟨.statement other done completes, checkedAfter⟩
          · exact fun _ _ => id
          · exact id
      | broke => cases allowed
      | returned value => cases allowed.1

/-- A program that has been run to its end shows a value exactly if it ends in an expression. -/
theorem completes_shown {program : Program} {shown : Option Value}
    (completes : Completes config units program machine shown after) :
    shown.isSome = true ↔ ∃ value, program.getLast? = some (.expression value) := by
  induction completes with
  | empty => simp
  | trailing done => simp
  | @expression value rest _ _ _ _ _ inside done later ih =>
      rw [ih, List.getLast?_cons_of_ne_nil inside]
  | @statement first rest _ _ _ _ other done later ih =>
      rw [ih]
      cases rest with
      | nil => simp [other]
      | cons second rest => rw [List.getLast?_cons_cons]

end Runs

theorem analyze_checked {source : String} {program : Program}
    (accepted : (analyze source).result = .ok program) : Stmt.AllChecked Context.top program := by
  obtain ⟨parsed, settled, -⟩ := analyze_accepted accepted
  exact ⟨settled, meaningful_of_parse parsed⟩

/-- Between the sources of a session, every function in the heap has a checked body. -/
theorem reached_checked {config : Config} {session : Session}
    (reached : Session.Reached config session) : session.machine.Checked := by
  apply And.left
  apply Session.machine_of_reached Machine.Checked ?_ ?_ ?_ reached
  · exact Machine.initial_stores
  · intro source program units session machine accepted checked evaluated
    apply Outcome.machine_of_meets _ evaluated
    · exact False
    · apply Outcome.meets_of_meets (interpret_checked (analyze_checked accepted) checked)
      · exact fun _ _ ended => ended.2
      · exact fun _ _ ended => ended
      · exact id
  · exact fun _ checked => checked

/-- An accepted source runs without stray exits in every reachable session: no statement of the
program leaves it, no body of a declared function ends by leaving a loop, and so evaluation stops
with an error or runs every statement in order, and shows a value exactly if the last statement is
an expression. -/
theorem accepted_source_runs_through (config : Config) (session : Session)
    (reached : Session.Reached config session) (source : String) (program : Program)
    (accepted : (analyze source).result = .ok program) (units : Nat) :
    (∀ statement machine flow after,
      Begins config units program session.cleared ⟨units, .execute statement, machine⟩ →
      execute config units statement machine = .done flow after → flow = .normal) ∧
    (∀ left callable declaration closure values machine flow after,
      Happens config units program session.cleared ⟨left + 1, .invoke callable values, machine⟩ →
      callable.code = .user declaration closure →
      executeIn config left declaration.body machine.heap.next
        (machine.prepared declaration closure values) = .done flow after → flow ≠ .broke) ∧
    (interpret config units program session.cleared = .exhausted ∨
      (∃ error after, interpret config units program session.cleared = .raised error after) ∨
      ∃ shown after, interpret config units program session.cleared = .done shown after ∧
        Completes config units program session.cleared shown after ∧
        (shown.isSome = true ↔ ∃ value, program.getLast? = some (.expression value))) := by
  have passed := analyze_checked accepted
  have checked : session.cleared.Checked := reached_checked reached
  refine ⟨?_, ?_, ?_⟩
  · intro statement machine flow after begins done
    obtain ⟨run, top⟩ := begins_checked begins passed checked
    exact (top_flow_normal (top statement rfl) run.machine done).1
  · rintro left callable declaration closure values machine flow after ⟨top, begins, inner⟩
      code done
    have run := reached_run_checked (begins_checked begins passed checked).1 inner
    rcases callable with ⟨identity, found⟩
    cases code
    have body := run.task.1 identity declaration closure rfl
    have prepared := prepared_checked declaration closure run.task.2 run.machine
    have ended := ((guarded_with config left).executeIn Context.body declaration.body
      machine.heap.next _ ⟨body.settled, body.meaningful⟩ prepared).done done
    rintro rfl
    cases ended.1
  · have ended : (interpret config units program session.cleared).Meets
        (fun shown after => Completes config units program session.cleared shown after ∧
          after.Checked) (fun _ after => after.Checked) False := interpret_checked passed checked
    cases evaluated : interpret config units program session.cleared with
    | exhausted => exact .inl rfl
    | raised error after => exact .inr (.inl ⟨error, after, rfl⟩)
    | done shown after =>
        rw [evaluated] at ended
        exact .inr (.inr ⟨shown, after, rfl, ended.1, completes_shown ended.1⟩)
    | stuck =>
        rw [evaluated] at ended
        exact ended.elim

theorem accepted_source_runs_through_call :
    ∃ session program shown after, Session.Reached ⟨4, fun _ => 0⟩ session ∧
      (analyze "f(0); f(2);").result = .ok program ∧
      Completes ⟨4, fun _ => 0⟩ 60 program session.cleared (some shown) after := by
  have runs : (((Session.start ⟨4, fun _ => 0⟩).run 60
      "fun f(n) { while (true) { if (n > 1) break; n = n + 1; } return n; }").any fun first =>
        (first.2.run 60 "f(0); f(2);").any fun second => second.1.result.toOption.join.isSome) =
          true := by
    decide +kernel
  rw [Option.any_eq_true] at runs
  obtain ⟨⟨_, session⟩, first, runs⟩ := runs
  have reached : Session.Reached ⟨4, fun _ => 0⟩ session := .run .start first
  obtain ⟨program, accepted⟩ : ∃ program, (analyze "f(0); f(2);").result = .ok program :=
    exists_ok (by decide +kernel)
  have ended := (accepted_source_runs_through _ session reached _ program accepted 60).2.2
  have config := Session.config_of_reached reached
  simp only [Session.run, Session.runAnalysis, accepted, config] at runs
  rcases ended with exhausted | ⟨error, after, raised⟩ | ⟨shown, after, done, completes, -⟩
  · simp [exhausted] at runs
  · simp [raised, Except.toOption] at runs
  · cases shown with
    | none => simp [done, Except.toOption] at runs
    | some value => exact ⟨session, program, value, after, reached, accepted, completes⟩

end Treewalk
