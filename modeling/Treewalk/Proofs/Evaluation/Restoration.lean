import Treewalk.Proofs.Evaluation.Run
import Treewalk.Proofs.Session.Reached

/-!
# Every way out restores the machine

Blocks and calls change which scope is current, and calls are counted. However a step ends, by any
flow or by any error, the scope that was current before it is current again and as many calls are
active as before. One induction on the budget shows this of all parts of the evaluator at once.
-/

namespace Treewalk

set_option autoImplicit false

structure Machine.SamePlace (before after : Machine) : Prop where
  current : after.current = before.current
  callDepth : after.callDepth = before.callDepth

namespace Machine.SamePlace

theorem refl (machine : Machine) : machine.SamePlace machine :=
  ⟨rfl, rfl⟩

theorem trans {first second third : Machine} (earlier : first.SamePlace second)
    (later : second.SamePlace third) : first.SamePlace third :=
  ⟨later.current.trans earlier.current, later.callDepth.trans earlier.callDepth⟩

end Machine.SamePlace

/-- A step that ends, with a value or with an error, ends in the place where it began. -/
def Outcome.Restores {α : Type} (before : Machine) (outcome : Outcome α) : Prop :=
  outcome.Meets (fun _ after => before.SamePlace after) (fun _ after => before.SamePlace after) True

section Steps

variable {α β : Type}

/-- A step that begins where another machine stands restores that one as well. -/
theorem restores_of_same_place {before machine : Machine} {outcome : Outcome α}
    (same : before.SamePlace machine) (body : outcome.Restores machine) :
    outcome.Restores before := by
  apply Outcome.meets_of_meets body
  · exact fun _ _ later => same.trans later
  · exact fun _ _ later => same.trans later
  · exact id

theorem restores_and_then {before : Machine} {outcome : Outcome α}
    {next : α → Machine → Outcome β} (first : outcome.Restores before)
    (second : ∀ value machine, (next value machine).Restores machine) :
    (outcome.andThen next).Restores before := by
  apply Outcome.meets_and_then first
  intro value machine _ same
  exact restores_of_same_place same (second value machine)

theorem applied_restores (applied : Applied) (site : Token) (machine : Machine) :
    (applied.outcome site machine).Restores machine := by
  cases applied with
  | value result => exact .refl machine
  | error cause => exact .refl machine
  | meaningless => trivial

theorem read_variable_restores (name : Token) (machine : Machine) :
    (readVariable name machine).Restores machine := by
  unfold readVariable
  split
  · exact .refl machine
  · exact .refl machine

theorem write_variable_restores (name : Token) (value : Value) (machine : Machine) :
    (writeVariable name value machine).Restores machine := by
  unfold writeVariable
  split
  · exact ⟨rfl, rfl⟩
  · exact .refl machine

theorem call_native_restores (config : Config) (function : Native) (machine : Machine) :
    (callNative config function machine).Restores machine := by
  cases function
  exact ⟨rfl, rfl⟩

end Steps

/-- All parts of the evaluator restore the machine when they are given `units` of budget. -/
structure RestoresWith (config : Config) (units : Nat) : Prop where
  evaluate : ∀ expression machine,
    (evaluate config units expression machine).Restores machine
  evaluateAll : ∀ expressions machine,
    (evaluateAll config units expressions machine).Restores machine
  call : ∀ paren callee values machine,
    (call config units paren callee values machine).Restores machine
  invoke : ∀ callable values machine,
    (invoke config units callable values machine).Restores machine
  execute : ∀ statement machine,
    (execute config units statement machine).Restores machine
  iterate : ∀ condition body machine,
    (iterate config units condition body machine).Restores machine
  executeIn : ∀ body scope machine,
    (executeIn config units body scope machine).Restores machine
  executeAll : ∀ body machine,
    (executeAll config units body machine).Restores machine

namespace RestoresWith

variable {config : Config} {units : Nat}

theorem evaluate_succ (below : RestoresWith config units) (expression : Expr) (machine : Machine) :
    (Treewalk.evaluate config (units + 1) expression machine).Restores machine := by
  cases expression with
  | literal value line location => exact .refl machine
  | grouping inner location => exact below.evaluate inner machine
  | unary operator operand =>
      apply restores_and_then (below.evaluate operand machine)
      intro value after
      exact applied_restores _ operator after
  | binary left operator right =>
      apply restores_and_then (below.evaluate left machine)
      intro first between
      apply restores_and_then (below.evaluate right between)
      intro second after
      exact applied_restores _ operator after
  | logical left operator right =>
      apply restores_and_then (below.evaluate left machine)
      intro first between
      split
      · exact .refl between
      · exact below.evaluate right between
  | reference name => exact read_variable_restores name machine
  | assign name value =>
      apply restores_and_then (below.evaluate value machine)
      intro result after
      exact write_variable_restores name result after
  | call callee paren arguments =>
      apply restores_and_then (below.evaluate callee machine)
      intro function between
      apply restores_and_then (below.evaluateAll arguments between)
      intro values after
      exact below.call paren function values after

theorem evaluate_all_succ (below : RestoresWith config units) (expressions : List Expr)
    (machine : Machine) :
    (Treewalk.evaluateAll config (units + 1) expressions machine).Restores machine := by
  cases expressions with
  | nil => exact .refl machine
  | cons first rest =>
      apply restores_and_then (below.evaluate first machine)
      intro value between
      apply restores_and_then (below.evaluateAll rest between)
      intro values after
      exact .refl after

theorem call_succ (below : RestoresWith config units) (paren : Token) (callee : Value)
    (values : List Value) (machine : Machine) :
    (Treewalk.call config (units + 1) paren callee values machine).Restores machine := by
  unfold Treewalk.call
  split
  · split
    · exact .refl machine
    · split
      · exact .refl machine
      · rename_i callable _ _
        have counted : ∀ after : Machine, machine.enterCall.SamePlace after →
            machine.SamePlace after.leaveCall := by
          intro after same
          refine ⟨same.current, ?_⟩
          simp [Machine.leaveCall, same.callDepth, Machine.enterCall]
        apply Outcome.meets_on_exit (below.invoke callable values machine.enterCall)
        · exact fun _ after same => counted after same
        · exact fun _ after same => counted after same
  · exact .refl machine

theorem invoke_succ (below : RestoresWith config units) (callable : Callable)
    (values : List Value) (machine : Machine) :
    (Treewalk.invoke config (units + 1) callable values machine).Restores machine := by
  unfold Treewalk.invoke
  split
  · exact call_native_restores config _ machine
  · rename_i declaration closure _
    have prepared : machine.SamePlace ((machine.openScope closure).bindParameters
        machine.heap.next (declaration.parameters.zip values)) := ⟨rfl, rfl⟩
    have body := restores_of_same_place prepared
      (below.executeIn declaration.body machine.heap.next _)
    apply restores_and_then body
    intro flow after
    cases flow with
    | normal => exact .refl after
    | broke => exact .refl after
    | returned value => exact .refl after

theorem execute_succ (below : RestoresWith config units) (statement : Stmt) (machine : Machine) :
    (Treewalk.execute config (units + 1) statement machine).Restores machine := by
  cases statement with
  | expression value =>
      apply restores_and_then (below.evaluate value machine)
      intro _ after
      exact .refl after
  | print keyword value =>
      apply restores_and_then (below.evaluate value machine)
      intro result after
      exact ⟨rfl, rfl⟩
  | declare name initial =>
      cases initial with
      | none => exact ⟨rfl, rfl⟩
      | some initial =>
          apply restores_and_then (below.evaluate initial machine)
          intro value after
          exact ⟨rfl, rfl⟩
  | block body location =>
      have opened : machine.SamePlace (machine.openScope machine.current) := ⟨rfl, rfl⟩
      exact restores_of_same_place opened (below.executeIn body machine.heap.next _)
  | ifThen keyword condition consequent =>
      apply restores_and_then (below.evaluate condition machine)
      intro value after
      split
      · exact below.execute consequent after
      · exact .refl after
  | ifElse keyword condition consequent alternative =>
      apply restores_and_then (below.evaluate condition machine)
      intro value after
      split
      · exact below.execute consequent after
      · exact below.execute alternative after
  | loop keyword condition body => exact below.iterate condition body machine
  | function name parameters body => exact ⟨rfl, rfl⟩
  | returnValue keyword value =>
      cases value with
      | none => exact .refl machine
      | some value =>
          apply restores_and_then (below.evaluate value machine)
          intro result after
          exact .refl after
  | breakLoop keyword => exact .refl machine

theorem iterate_succ (below : RestoresWith config units) (condition : Expr) (body : Stmt)
    (machine : Machine) :
    (Treewalk.iterate config (units + 1) condition body machine).Restores machine := by
  apply restores_and_then (below.evaluate condition machine)
  intro value between
  split
  · apply restores_and_then (below.execute body between)
    intro flow after
    cases flow with
    | normal => exact below.iterate condition body after
    | broke => exact .refl after
    | returned result => exact .refl after
  · exact .refl between

/-- Whatever the statements do inside, the scope that was current is put back. -/
theorem execute_in_succ (below : RestoresWith config units) (body : List Stmt) (scope : ScopeId)
    (machine : Machine) :
    (Treewalk.executeIn config (units + 1) body scope machine).Restores machine := by
  apply Outcome.meets_on_exit (below.executeAll body (machine.enter scope))
  · exact fun _ after same => ⟨rfl, same.callDepth⟩
  · exact fun _ after same => ⟨rfl, same.callDepth⟩

theorem execute_all_succ (below : RestoresWith config units) (body : List Stmt)
    (machine : Machine) :
    (Treewalk.executeAll config (units + 1) body machine).Restores machine := by
  cases body with
  | nil => exact .refl machine
  | cons first rest =>
      apply restores_and_then (below.execute first machine)
      intro flow after
      cases flow with
      | normal => exact below.executeAll rest after
      | broke => exact .refl after
      | returned value => exact .refl after

end RestoresWith

theorem restores_with (config : Config) (units : Nat) : RestoresWith config units := by
  induction units with
  | zero =>
      constructor
      all_goals intros
      all_goals trivial
  | succ units below =>
      constructor
      · exact below.evaluate_succ
      · exact below.evaluate_all_succ
      · exact below.call_succ
      · exact below.invoke_succ
      · exact below.execute_succ
      · exact below.iterate_succ
      · exact below.execute_in_succ
      · exact below.execute_all_succ

theorem interpret_restores (config : Config) (units : Nat) (program : Program)
    (machine : Machine) : (interpret config units program machine).Restores machine := by
  have below := restores_with config units
  induction program using program_induction generalizing machine with
  | empty => exact .refl machine
  | trailing value =>
      apply restores_and_then (below.evaluate value machine)
      intro result after
      exact .refl after
  | expression value rest inside ih =>
      rw [interpret_expression config units machine value inside]
      apply restores_and_then (below.evaluate value machine)
      intro _ after
      exact ih after
  | statement first rest other ih =>
      rw [interpret_statement config units machine rest other]
      apply restores_and_then (below.execute first machine)
      intro flow after
      cases flow with
      | normal => exact ih after
      | broke => exact .refl after
      | returned value => exact .refl after

/-- Between the sources of a session the outermost scope is current and no call is active. -/
theorem reached_at_rest {config : Config} {session : Session}
    (reached : Session.Reached config session) :
    Machine.initial.SamePlace session.machine := by
  apply And.left
  apply Session.machine_of_reached Machine.initial.SamePlace ?_ ?_ ?_ reached
  · exact .refl Machine.initial
  · intro source program units session machine _ rest evaluated
    have restored := interpret_restores config units program session.cleared
    exact rest.trans (Outcome.machine_of_meets restored evaluated)
  · intro session rest
    exact ⟨rest.current, rest.callDepth⟩

/-- Every step that ends, with any flow or any error, leaves the current scope and the number of
active calls as they were; hence both are as in a fresh machine between the sources of a session,
whatever failed before. -/
theorem every_exit_restores (config : Config) :
    (∀ units expression machine,
      (evaluate config units expression machine).Restores machine) ∧
    (∀ units statement machine,
      (execute config units statement machine).Restores machine) ∧
    (∀ units body scope machine,
      (executeIn config units body scope machine).Restores machine) ∧
    (∀ units paren callee values machine,
      (call config units paren callee values machine).Restores machine) ∧
    (∀ units callable values machine,
      (invoke config units callable values machine).Restores machine) ∧
    ∀ session, Session.Reached config session →
      session.machine.current = Heap.global ∧ session.machine.callDepth = 0 := by
  refine ⟨?_, ?_, ?_, ?_, ?_, ?_⟩
  · exact fun units => (restores_with config units).evaluate
  · exact fun units => (restores_with config units).execute
  · exact fun units => (restores_with config units).executeIn
  · exact fun units => (restores_with config units).call
  · exact fun units => (restores_with config units).invoke
  · intro session reached
    have rest := reached_at_rest reached
    exact ⟨rest.current, rest.callDepth⟩

end Treewalk
