import Treewalk.Proofs.Evaluation.Run

/-!
# Lines that were printed before

Evaluation adds lines to the output and never looks at those that are there. A run on a machine that
has printed before is the run on the machine that has not, with the earlier lines in front.
-/

namespace Treewalk

set_option autoImplicit false

def Machine.behind (earlier : Array String) (machine : Machine) : Machine :=
  { machine with output := earlier ++ machine.output }

theorem Machine.behind_empty (machine : Machine) : machine.behind #[] = machine := by
  simp [Machine.behind]

theorem Machine.print_line_behind (earlier : Array String) (machine : Machine) (line : String) :
    (machine.behind earlier).printLine line = (machine.printLine line).behind earlier := by
  simp only [Machine.behind, Machine.printLine, Array.append_push]

namespace Outcome

variable {α β : Type} {change : Machine → Machine}

theorem on_exit_and_then {outcome : Outcome α} {next nextToo : α → Machine → Outcome β}
    (moves : ∀ value machine, nextToo value (change machine) = (next value machine).onExit change) :
    (outcome.onExit change).andThen nextToo = (outcome.andThen next).onExit change := by
  cases outcome with
  | done value machine => exact moves value machine
  | raised error machine => rfl
  | exhausted => rfl
  | stuck => rfl

theorem on_exit_on_exit {outcome : Outcome α} {ending : Machine → Machine}
    (moves : ∀ machine, ending (change machine) = change (ending machine)) :
    (outcome.onExit change).onExit ending = (outcome.onExit ending).onExit change := by
  cases outcome with
  | done value machine => exact congrArg (done value) (moves machine)
  | raised error machine => exact congrArg (raised error) (moves machine)
  | exhausted => rfl
  | stuck => rfl

end Outcome

section Primitives

variable (earlier : Array String) (machine : Machine)

theorem applied_behind (applied : Applied) (site : Token) :
    applied.outcome site (machine.behind earlier) =
      (applied.outcome site machine).onExit (Machine.behind earlier) := by
  cases applied <;> rfl

theorem read_variable_behind (name : Token) :
    readVariable name (machine.behind earlier) =
      (readVariable name machine).onExit (Machine.behind earlier) := by
  simp only [readVariable, Machine.behind]
  cases machine.heap.get? machine.current name.lexeme <;> rfl

theorem write_variable_behind (name : Token) (value : Value) :
    writeVariable name value (machine.behind earlier) =
      (writeVariable name value machine).onExit (Machine.behind earlier) := by
  simp only [writeVariable, Machine.behind]
  cases machine.heap.resolve machine.current name.lexeme <;> rfl

theorem call_native_behind (config : Config) (function : Native) :
    callNative config function (machine.behind earlier) =
      (callNative config function machine).onExit (Machine.behind earlier) := by
  cases function
  rfl

end Primitives

/-- Every part of the evaluator, with this budget, leaves earlier lines alone. -/
structure AppendsWith (config : Config) (earlier : Array String) (units : Nat) : Prop where
  evaluate : ∀ expression machine,
    evaluate config units expression (machine.behind earlier) =
      (evaluate config units expression machine).onExit (Machine.behind earlier)
  evaluateAll : ∀ expressions machine,
    evaluateAll config units expressions (machine.behind earlier) =
      (evaluateAll config units expressions machine).onExit (Machine.behind earlier)
  call : ∀ paren callee values machine,
    call config units paren callee values (machine.behind earlier) =
      (call config units paren callee values machine).onExit (Machine.behind earlier)
  invoke : ∀ callable values machine,
    invoke config units callable values (machine.behind earlier) =
      (invoke config units callable values machine).onExit (Machine.behind earlier)
  execute : ∀ statement machine,
    execute config units statement (machine.behind earlier) =
      (execute config units statement machine).onExit (Machine.behind earlier)
  iterate : ∀ condition body machine,
    iterate config units condition body (machine.behind earlier) =
      (iterate config units condition body machine).onExit (Machine.behind earlier)
  executeIn : ∀ body scope machine,
    executeIn config units body scope (machine.behind earlier) =
      (executeIn config units body scope machine).onExit (Machine.behind earlier)
  executeAll : ∀ body machine,
    executeAll config units body (machine.behind earlier) =
      (executeAll config units body machine).onExit (Machine.behind earlier)

namespace AppendsWith

variable {config : Config} {earlier : Array String} {units : Nat}

theorem evaluate_succ (below : AppendsWith config earlier units) (expression : Expr)
    (machine : Machine) :
    Treewalk.evaluate config (units + 1) expression (machine.behind earlier) =
      (Treewalk.evaluate config (units + 1) expression machine).onExit
        (Machine.behind earlier) := by
  unfold Treewalk.evaluate
  cases expression with
  | literal value line location => rfl
  | grouping inner location => exact below.evaluate inner machine
  | unary operator operand =>
      dsimp only
      rw [below.evaluate operand machine]
      apply Outcome.on_exit_and_then
      exact fun value after => applied_behind earlier after _ operator
  | binary left operator right =>
      dsimp only
      rw [below.evaluate left machine]
      apply Outcome.on_exit_and_then
      intro first between
      rw [below.evaluate right between]
      apply Outcome.on_exit_and_then
      exact fun second after => applied_behind earlier after _ operator
  | logical left operator right =>
      dsimp only
      rw [below.evaluate left machine]
      apply Outcome.on_exit_and_then
      intro first between
      split
      · rfl
      · exact below.evaluate right between
  | reference name => exact read_variable_behind earlier machine name
  | assign name value =>
      dsimp only
      rw [below.evaluate value machine]
      apply Outcome.on_exit_and_then
      exact fun result after => write_variable_behind earlier after name result
  | call callee paren arguments =>
      dsimp only
      rw [below.evaluate callee machine]
      apply Outcome.on_exit_and_then
      intro function between
      rw [below.evaluateAll arguments between]
      apply Outcome.on_exit_and_then
      exact fun values after => below.call paren function values after

theorem evaluate_all_succ (below : AppendsWith config earlier units) (expressions : List Expr)
    (machine : Machine) :
    Treewalk.evaluateAll config (units + 1) expressions (machine.behind earlier) =
      (Treewalk.evaluateAll config (units + 1) expressions machine).onExit
        (Machine.behind earlier) := by
  cases expressions with
  | nil => rfl
  | cons first rest =>
      unfold Treewalk.evaluateAll
      rw [below.evaluate first machine]
      apply Outcome.on_exit_and_then
      intro value between
      rw [below.evaluateAll rest between]
      apply Outcome.on_exit_and_then
      exact fun _ _ => rfl

theorem call_succ (below : AppendsWith config earlier units) (paren : Token) (callee : Value)
    (values : List Value) (machine : Machine) :
    Treewalk.call config (units + 1) paren callee values (machine.behind earlier) =
      (Treewalk.call config (units + 1) paren callee values machine).onExit
        (Machine.behind earlier) := by
  cases callee with
  | callable callable =>
      have depth : (machine.behind earlier).callDepth = machine.callDepth := rfl
      unfold Treewalk.call
      dsimp only
      rw [depth]
      split
      · rfl
      · split
        · rfl
        · rw [show (machine.behind earlier).enterCall = machine.enterCall.behind earlier from rfl,
            below.invoke callable values machine.enterCall]
          apply Outcome.on_exit_on_exit
          exact fun _ => rfl
  | nil => rfl
  | boolean value => rfl
  | number value => rfl
  | string value => rfl

theorem invoke_succ (below : AppendsWith config earlier units) (callable : Callable)
    (values : List Value) (machine : Machine) :
    Treewalk.invoke config (units + 1) callable values (machine.behind earlier) =
      (Treewalk.invoke config (units + 1) callable values machine).onExit
        (Machine.behind earlier) := by
  unfold Treewalk.invoke
  cases callable.code with
  | native function => exact call_native_behind earlier machine config function
  | user declaration closure =>
      have ran := below.executeIn declaration.body machine.heap.next
        (machine.prepared declaration closure values)
      rw [Machine.prepared] at ran
      dsimp only
      rw [show ((machine.behind earlier).openScope closure).bindParameters
          (machine.behind earlier).heap.next (declaration.parameters.zip values) =
            ((machine.openScope closure).bindParameters machine.heap.next
              (declaration.parameters.zip values)).behind earlier from rfl,
        show (machine.behind earlier).heap.next = machine.heap.next from rfl, ran]
      apply Outcome.on_exit_and_then
      intro flow after
      cases flow <;> rfl

theorem execute_succ (below : AppendsWith config earlier units) (statement : Stmt)
    (machine : Machine) :
    Treewalk.execute config (units + 1) statement (machine.behind earlier) =
      (Treewalk.execute config (units + 1) statement machine).onExit (Machine.behind earlier) := by
  unfold Treewalk.execute
  cases statement with
  | expression value =>
      dsimp only
      rw [below.evaluate value machine]
      apply Outcome.on_exit_and_then
      exact fun _ _ => rfl
  | print keyword value =>
      dsimp only
      rw [below.evaluate value machine]
      apply Outcome.on_exit_and_then
      intro result after
      rw [Machine.print_line_behind]
      rfl
  | declare name initial =>
      cases initial with
      | none => rfl
      | some initial =>
          dsimp only
          rw [below.evaluate initial machine]
          apply Outcome.on_exit_and_then
          exact fun _ _ => rfl
  | block body location =>
      exact below.executeIn body machine.heap.next (machine.openScope machine.current)
  | ifThen keyword condition consequent =>
      dsimp only
      rw [below.evaluate condition machine]
      apply Outcome.on_exit_and_then
      intro value between
      split
      · exact below.execute consequent between
      · rfl
  | ifElse keyword condition consequent alternative =>
      dsimp only
      rw [below.evaluate condition machine]
      apply Outcome.on_exit_and_then
      intro value between
      split
      · exact below.execute consequent between
      · exact below.execute alternative between
  | loop keyword condition body => exact below.iterate condition body machine
  | function name parameters body => rfl
  | returnValue keyword value =>
      cases value with
      | none => rfl
      | some value =>
          dsimp only
          rw [below.evaluate value machine]
          apply Outcome.on_exit_and_then
          exact fun _ _ => rfl
  | breakLoop keyword => rfl

theorem iterate_succ (below : AppendsWith config earlier units) (condition : Expr) (body : Stmt)
    (machine : Machine) :
    Treewalk.iterate config (units + 1) condition body (machine.behind earlier) =
      (Treewalk.iterate config (units + 1) condition body machine).onExit
        (Machine.behind earlier) := by
  unfold Treewalk.iterate
  rw [below.evaluate condition machine]
  apply Outcome.on_exit_and_then
  intro value between
  split
  · rw [below.execute body between]
    apply Outcome.on_exit_and_then
    intro flow after
    cases flow with
    | normal => exact below.iterate condition body after
    | broke => rfl
    | returned result => rfl
  · rfl

theorem execute_in_succ (below : AppendsWith config earlier units) (body : List Stmt)
    (scope : ScopeId) (machine : Machine) :
    Treewalk.executeIn config (units + 1) body scope (machine.behind earlier) =
      (Treewalk.executeIn config (units + 1) body scope machine).onExit
        (Machine.behind earlier) := by
  unfold Treewalk.executeIn
  dsimp only
  rw [show (machine.behind earlier).enter scope = (machine.enter scope).behind earlier from rfl,
    below.executeAll body (machine.enter scope)]
  apply Outcome.on_exit_on_exit
  exact fun _ => rfl

theorem execute_all_succ (below : AppendsWith config earlier units) (body : List Stmt)
    (machine : Machine) :
    Treewalk.executeAll config (units + 1) body (machine.behind earlier) =
      (Treewalk.executeAll config (units + 1) body machine).onExit (Machine.behind earlier) := by
  cases body with
  | nil => rfl
  | cons first rest =>
      unfold Treewalk.executeAll
      rw [below.execute first machine]
      apply Outcome.on_exit_and_then
      intro flow between
      cases flow with
      | normal => exact below.executeAll rest between
      | broke => rfl
      | returned value => rfl

end AppendsWith

theorem appends_with (config : Config) (earlier : Array String) (units : Nat) :
    AppendsWith config earlier units := by
  induction units with
  | zero =>
      constructor
      all_goals intros
      all_goals rfl
  | succ units below =>
      constructor
      · exact below.evaluate_succ
      · exact below.evaluate_all_succ
      · exact below.call_succ
      · exact below.invoke_succ
      · exact below.execute_succ
      · exact below.iterate_succ
      · exact below.execute_in_succ
      · exact below.execute_all_succ

/-- Running a program adds its lines to those that were printed before. -/
theorem interpret_behind (config : Config) (units : Nat) (earlier : Array String)
    (program : Program)
    (machine : Machine) :
    interpret config units program (machine.behind earlier) =
      (interpret config units program machine).onExit (Machine.behind earlier) := by
  have parts := appends_with config earlier units
  induction program using program_induction generalizing machine with
  | empty => rfl
  | trailing value =>
      unfold interpret
      rw [parts.evaluate value machine]
      apply Outcome.on_exit_and_then
      exact fun _ _ => rfl
  | expression value rest inside ih =>
      rw [interpret_expression config units _ value inside,
        interpret_expression config units machine value inside, parts.evaluate value machine]
      apply Outcome.on_exit_and_then
      exact fun _ between => ih between
  | statement first rest other ih =>
      rw [interpret_statement config units _ rest other,
        interpret_statement config units machine rest other, parts.execute first machine]
      apply Outcome.on_exit_and_then
      intro flow between
      cases flow with
      | normal => exact ih between
      | broke => rfl
      | returned value => rfl

end Treewalk
