import Treewalk.Proofs.Evaluation.Invariant

/-!
# Invariants in the middle of evaluation

What evaluation keeps holds not only when it has ended: every run, at any depth, begins with the
invariant and with a task that holds nothing else than what may be held, and if it ends, with a
value or with an error, so does it. Between two moments the heap has changed as it may.
-/

namespace Treewalk

set_option autoImplicit false

open Outcome

def Flow.values : Flow → List Value
  | .normal => []
  | .broke => []
  | .returned value => [value]

/-- The step ended in this machine and gave these values; an error gives none. -/
def Outcome.Gives {α : Type} (carried : α → List Value) (outcome : Outcome α) (after : Machine)
    (values : List Value) : Prop :=
  (∃ value, outcome = .done value after ∧ values = carried value) ∨
    ∃ error, outcome = .raised error after ∧ values = []

def Run.Gives (config : Config) (run : Run) (after : Machine) (values : List Value) : Prop :=
  match run.task with
  | .evaluate expression =>
      (evaluate config run.units expression run.machine).Gives (fun value => [value]) after values
  | .evaluateAll expressions =>
      (evaluateAll config run.units expressions run.machine).Gives id after values
  | .call paren callee passed =>
      (call config run.units paren callee passed run.machine).Gives (fun value => [value]) after
        values
  | .invoke callable passed =>
      (invoke config run.units callable passed run.machine).Gives (fun value => [value]) after
        values
  | .execute statement =>
      (execute config run.units statement run.machine).Gives Flow.values after values
  | .iterate condition body =>
      (iterate config run.units condition body run.machine).Gives Flow.values after values
  | .executeIn body scope =>
      (executeIn config run.units body scope run.machine).Gives Flow.values after values
  | .executeAll body =>
      (executeAll config run.units body run.machine).Gives Flow.values after values

namespace Invariant

variable {keeps : Invariant} {config : Config}

def Fits (keeps : Invariant) (heap : Heap) : Task → Prop
  | .evaluate expression => keeps.strict → expression.Meaningful
  | .evaluateAll expressions => keeps.strict → Expr.AllMeaningful expressions
  | .call _ callee values => keeps.value heap callee ∧ keeps.values heap values
  | .invoke callable values => keeps.value heap (.callable callable) ∧ keeps.values heap values
  | .execute statement => keeps.strict → statement.Meaningful
  | .iterate condition body =>
      keeps.strict → condition.Meaningful ∧ body.Meaningful
  | .executeIn body scope => (keeps.strict → Stmt.AllMeaningful body) ∧ keeps.scope heap scope
  | .executeAll body => keeps.strict → Stmt.AllMeaningful body

structure Covers (keeps : Invariant) (run : Run) : Prop where
  holds : keeps.Holds run.machine
  fits : keeps.Fits run.machine.heap run.task

def Reaches (keeps : Invariant) (before after : Machine) : Prop :=
  keeps.Holds after ∧ keeps.change before.heap after.heap

theorem ended_of_keeps {α : Type} {fits : Heap → α → Prop} {carried : α → List Value}
    {before after : Machine} {outcome : Outcome α} {values : List Value}
    (kept : outcome.Keeps keeps fits before) (gives : outcome.Gives carried after values)
    (held : ∀ value, fits after.heap value → keeps.values after.heap (carried value)) :
    keeps.Reaches before after ∧ keeps.values after.heap values := by
  rcases gives with ⟨value, rfl, rfl⟩ | ⟨error, rfl, rfl⟩
  · exact ⟨kept.1, held value kept.2⟩
  · exact ⟨kept, List.forall_mem_nil _⟩

theorem done_of_keeps {α : Type} {fits : Heap → α → Prop} {before after : Machine}
    {outcome : Outcome α} {value : α} (kept : outcome.Keeps keeps fits before)
    (done : outcome = .done value after) : keeps.Reaches before after ∧ fits after.heap value := by
  rw [done] at kept
  exact kept

theorem values_singleton {heap : Heap} {value : Value} (fits : keeps.value heap value) :
    keeps.values heap [value] :=
  List.forall_mem_singleton.mpr fits

theorem values_of_flow {heap : Heap} {flow : Flow} (fits : keeps.flow heap flow) :
    keeps.values heap flow.values := by
  cases flow with
  | normal => exact List.forall_mem_nil _
  | broke => exact List.forall_mem_nil _
  | returned value => exact values_singleton fits

/-- A run that ends keeps the invariant and gives values that may be held. -/
theorem covers_ended {run : Run} {after : Machine} {values : List Value} (covers : keeps.Covers run)
    (gives : run.Gives config after values) :
    keeps.Reaches run.machine after ∧ keeps.values after.heap values := by
  obtain ⟨units, task, machine⟩ := run
  obtain ⟨holds, fits⟩ := covers
  have parts := kept_with keeps config units
  cases task with
  | evaluate expression =>
      exact ended_of_keeps (parts.evaluate _ _ fits holds) gives fun _ => values_singleton
  | evaluateAll expressions =>
      exact ended_of_keeps (parts.evaluateAll _ _ fits holds) gives fun _ => id
  | call paren callee passed =>
      exact ended_of_keeps (parts.call _ _ _ _ fits.1 fits.2 holds) gives fun _ => values_singleton
  | invoke callable passed =>
      exact ended_of_keeps (parts.invoke _ _ _ fits.1 fits.2 holds) gives fun _ => values_singleton
  | execute statement =>
      exact ended_of_keeps (parts.execute _ _ fits holds) gives fun _ => values_of_flow
  | iterate condition body =>
      exact ended_of_keeps (parts.iterate _ _ _ (fun s => (fits s).1) (fun s => (fits s).2) holds)
        gives fun _ => values_of_flow
  | executeIn body scope =>
      exact ended_of_keeps (parts.executeIn _ _ _ fits.1 fits.2 holds) gives fun _ => values_of_flow
  | executeAll body =>
      exact ended_of_keeps (parts.executeAll _ _ fits holds) gives fun _ => values_of_flow

theorem covers_of_starts {outer inner : Run} (starts : Starts config outer inner)
    (covers : keeps.Covers outer) :
    keeps.Covers inner ∧ keeps.change outer.machine.heap inner.machine.heap := by
  obtain ⟨holds, fits⟩ := covers
  have parts := fun units => kept_with keeps config units
  cases starts with
  | grouping => exact ⟨⟨holds, fits⟩, keeps.refl⟩
  | operand => exact ⟨⟨holds, fun s => (fits s).2⟩, keeps.refl⟩
  | binaryLeft => exact ⟨⟨holds, fun s => (fits s).2.1⟩, keeps.refl⟩
  | binaryRight done =>
      obtain ⟨⟨holds, change⟩, -⟩ := done_of_keeps
        ((parts _).evaluate _ _ (fun s => (fits s).2.1) holds) done
      exact ⟨⟨holds, fun s => (fits s).2.2⟩, change⟩
  | logicalLeft => exact ⟨⟨holds, fun s => (fits s).2.1⟩, keeps.refl⟩
  | logicalRight done open_ =>
      obtain ⟨⟨holds, change⟩, -⟩ := done_of_keeps
        ((parts _).evaluate _ _ (fun s => (fits s).2.1) holds) done
      exact ⟨⟨holds, fun s => (fits s).2.2⟩, change⟩
  | assigned => exact ⟨⟨holds, fits⟩, keeps.refl⟩
  | callee => exact ⟨⟨holds, fun s => (fits s).1⟩, keeps.refl⟩
  | arguments done =>
      obtain ⟨⟨holds, change⟩, -⟩ := done_of_keeps
        ((parts _).evaluate _ _ (fun s => (fits s).1) holds) done
      exact ⟨⟨holds, fun s => (fits s).2⟩, change⟩
  | call done passed =>
      obtain ⟨⟨holds, change⟩, function⟩ := done_of_keeps
        ((parts _).evaluate _ _ (fun s => (fits s).1) holds) done
      obtain ⟨⟨holds, further⟩, values⟩ := done_of_keeps
        ((parts _).evaluateAll _ _ (fun s => (fits s).2) holds) passed
      exact ⟨⟨holds, keeps.valueLater further function, values⟩, keeps.trans change further⟩
  | firstArgument => exact ⟨⟨holds, fun s => (fits s).1⟩, keeps.refl⟩
  | restArguments done =>
      obtain ⟨⟨holds, change⟩, -⟩ := done_of_keeps
        ((parts _).evaluate _ _ (fun s => (fits s).1) holds) done
      exact ⟨⟨holds, fun s => (fits s).2⟩, change⟩
  | invoke fit allowed => exact ⟨⟨⟨holds.heap, holds.current⟩, fits⟩, keeps.refl⟩
  | @body units machine callable declaration closure values code =>
      obtain ⟨identity, found⟩ := callable
      cases code
      obtain ⟨held, meaningful⟩ := keeps.function.mp fits.1
      obtain ⟨prepared, change, known⟩ := prepared_keeps declaration holds held fits.2
      exact ⟨⟨prepared, meaningful, known⟩, change⟩
  | expression => exact ⟨⟨holds, fits⟩, keeps.refl⟩
  | printed => exact ⟨⟨holds, fits⟩, keeps.refl⟩
  | initial => exact ⟨⟨holds, fits⟩, keeps.refl⟩
  | block =>
      obtain ⟨opened, change, known⟩ := opened_keeps holds holds.current
      exact ⟨⟨opened, fits, known⟩, change⟩
  | ifThenCondition => exact ⟨⟨holds, fun s => (fits s).1⟩, keeps.refl⟩
  | ifThenConsequent done _ =>
      obtain ⟨⟨holds, change⟩, -⟩ := done_of_keeps
        ((parts _).evaluate _ _ (fun s => (fits s).1) holds) done
      exact ⟨⟨holds, fun s => (fits s).2⟩, change⟩
  | ifElseCondition => exact ⟨⟨holds, fun s => (fits s).1⟩, keeps.refl⟩
  | ifElseConsequent done _ =>
      obtain ⟨⟨holds, change⟩, -⟩ := done_of_keeps
        ((parts _).evaluate _ _ (fun s => (fits s).1) holds) done
      exact ⟨⟨holds, fun s => (fits s).2.1⟩, change⟩
  | ifElseAlternative done _ =>
      obtain ⟨⟨holds, change⟩, -⟩ := done_of_keeps
        ((parts _).evaluate _ _ (fun s => (fits s).1) holds) done
      exact ⟨⟨holds, fun s => (fits s).2.2⟩, change⟩
  | loop => exact ⟨⟨holds, fits⟩, keeps.refl⟩
  | result => exact ⟨⟨holds, fits⟩, keeps.refl⟩
  | condition => exact ⟨⟨holds, fun s => (fits s).1⟩, keeps.refl⟩
  | round done _ =>
      obtain ⟨⟨holds, change⟩, -⟩ := done_of_keeps
        ((parts _).evaluate _ _ (fun s => (fits s).1) holds) done
      exact ⟨⟨holds, fun s => (fits s).2⟩, change⟩
  | again done _ ran =>
      obtain ⟨⟨holds, change⟩, -⟩ := done_of_keeps
        ((parts _).evaluate _ _ (fun s => (fits s).1) holds) done
      obtain ⟨⟨holds, further⟩, -⟩ := done_of_keeps
        ((parts _).execute _ _ (fun s => (fits s).2) holds) ran
      exact ⟨⟨holds, fits⟩, keeps.trans change further⟩
  | inScope => exact ⟨⟨⟨holds.heap, fits.2⟩, fits.1⟩, keeps.refl⟩
  | firstStatement => exact ⟨⟨holds, fun s => (fits s).1⟩, keeps.refl⟩
  | restStatements done =>
      obtain ⟨⟨holds, change⟩, -⟩ := done_of_keeps
        ((parts _).execute _ _ (fun s => (fits s).1) holds) done
      exact ⟨⟨holds, fun s => (fits s).2⟩, change⟩

theorem covers_of_reached {outer inner : Run}
    (reached : Relation.ReflTransGen (Starts config) outer inner) (covers : keeps.Covers outer) :
    keeps.Covers inner ∧ keeps.change outer.machine.heap inner.machine.heap := by
  induction reached with
  | refl => exact ⟨covers, keeps.refl⟩
  | tail _ starts ih =>
      obtain ⟨inside, change⟩ := covers_of_starts starts ih.1
      exact ⟨inside, keeps.trans ih.2 change⟩

/-- Every run that a program itself starts begins with the invariant. -/
theorem covers_of_begins {units : Nat} {program : Program} {machine : Machine} {run : Run}
    (begins : Begins config units program machine run)
    (meaningful : keeps.strict → Stmt.AllMeaningful program) (holds : keeps.Holds machine) :
    keeps.Covers run := by
  have parts := kept_with keeps config units
  induction begins with
  | expression => exact ⟨holds, fun s => (meaningful s).1⟩
  | statement other => exact ⟨holds, fun s => (meaningful s).1⟩
  | behindExpression done later ih =>
      obtain ⟨⟨holds, -⟩, -⟩ := done_of_keeps
        (parts.evaluate _ _ (fun s => (meaningful s).1) holds) done
      exact ih (fun s => (meaningful s).2) holds
  | behindStatement other done later ih =>
      obtain ⟨⟨holds, -⟩, -⟩ := done_of_keeps
        (parts.execute _ _ (fun s => (meaningful s).1) holds) done
      exact ih (fun s => (meaningful s).2) holds

end Invariant

end Treewalk
