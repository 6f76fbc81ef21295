import Treewalk.Proofs.Check.Edit
import Treewalk.Proofs.Evaluation.Alike

/-!
# Code and its edits run in step

The check reports code as unreachable on two grounds: a statement that always exits never ends
normally, and a constant condition has its constant value. So evaluation does not come to the parts
that an edit replaces. The code and its edit work on heaps that hold different functions, since a
reported part can stand in a function that is called much later; one induction on the budget shows
that all parts of the evaluator end in the same way on both sides.
-/

namespace Treewalk

set_option autoImplicit false

section Exits

open Stmt Outcome

variable (config : Config)

theorem meets_anything {α : Type} (outcome : Outcome α) :
    outcome.Meets (fun _ _ => True) (fun _ _ => True) True := by
  cases outcome <;> trivial

mutual

theorem execute_exits (statement : Stmt) (exits : statement.alwaysExits = true) (units : Nat)
    (machine : Machine) :
    (execute config units statement machine).Meets (fun flow _ => flow ≠ .normal)
      (fun _ _ => True) True := by
  cases units with
  | zero => trivial
  | succ units =>
      cases statement with
      | returnValue keyword value =>
          cases value with
          | none => exact nofun
          | some value =>
              apply meets_and_then (meets_anything _)
              exact fun _ _ _ _ => nofun
      | breakLoop keyword => exact nofun
      | block body location => exact execute_in_exits body exits units _ _
      | ifElse keyword condition consequent alternative =>
          have both : consequent.alwaysExits = true ∧ alternative.alwaysExits = true :=
            Bool.and_eq_true_iff.mp exits
          apply meets_and_then (meets_anything _)
          intro value between _ _
          split
          · exact execute_exits consequent both.1 units between
          · exact execute_exits alternative both.2 units between
      | expression value => cases exits
      | print keyword value => cases exits
      | declare name initial => cases exits
      | ifThen keyword condition consequent => cases exits
      | loop keyword condition body => cases exits
      | function name parameters body => cases exits

theorem execute_in_exits (body : List Stmt) (exits : anyAlwaysExits body = true) (units : Nat)
    (scope : ScopeId) (machine : Machine) :
    (executeIn config units body scope machine).Meets (fun flow _ => flow ≠ .normal)
      (fun _ _ => True) True := by
  cases units with
  | zero => trivial
  | succ units =>
      apply meets_on_exit (execute_all_exits body exits units _)
      · exact fun _ _ left => left
      · exact fun _ _ left => left

theorem execute_all_exits (body : List Stmt) (exits : anyAlwaysExits body = true) (units : Nat)
    (machine : Machine) :
    (executeAll config units body machine).Meets (fun flow _ => flow ≠ .normal)
      (fun _ _ => True) True := by
  cases units with
  | zero => trivial
  | succ units =>
      cases body with
      | nil => cases exits
      | cons first rest =>
          rw [anyAlwaysExits, Bool.or_eq_true_iff] at exits
          rcases exits with here | later
          · apply meets_and_then (execute_exits first here units machine)
            intro flow between _ left
            cases flow with
            | normal => exact absurd rfl left
            | broke => exact nofun
            | returned value => exact nofun
          · apply meets_and_then (meets_anything _)
            intro flow between _ _
            cases flow with
            | normal => exact execute_all_exits rest later units between
            | broke => exact nofun
            | returned value => exact nofun

end

theorem not_normal_of_exits {config : Config} {statement : Stmt} {units : Nat} {flow : Flow}
    {machine after : Machine} (exits : statement.alwaysExits = true)
    (done : execute config units statement machine = .done flow after) : flow ≠ .normal := by
  have left := execute_exits config statement exits units machine
  rw [done] at left
  exact left

theorem constant_value {config : Config} {condition : Expr} {truth : Bool} {units : Nat}
    {value : Value} {machine after : Machine} (constant : condition.constant? = some truth)
    (done : evaluate config units condition machine = .done value after) :
    value.isTruthy = truth := by
  induction units generalizing condition with
  | zero => cases done
  | succ units ih =>
      cases condition with
      | literal literal line location =>
          cases literal with
          | boolean given =>
              cases constant
              cases done
              rfl
          | nil => cases constant
          | number given => cases constant
          | string given => cases constant
      | grouping inner location =>
          have inside : inner.constant? = some truth := constant
          exact ih inside done
      | unary operator operand => cases constant
      | binary left operator right => cases constant
      | logical left operator right => cases constant
      | reference name => cases constant
      | assign name value => cases constant
      | call callee paren arguments => cases constant

end Exits

/-- Functions stand for each other if the body of the second is an edit of the first's; errors have
to be equal. -/
def Likeness.edited : Likeness where
  declaration first second := first.name = second.name ∧ first.parameters = second.parameters ∧
    ∃ log, Stmt.EditsIn false log first.body second.body
  error first second := first = second
  name alike := by rw [alike.1]
  parameters alike := by rw [alike.2.1]

section Parts

variable {config : Config} {units : Nat} {machine after : Machine} {value : Value}
  {condition : Expr} {log : List Replacement} {part edited : Stmt}

open Stmt

theorem kept_of_consequent (edits : EditsPart (consequentWarning condition part) log part edited)
    (done : evaluate config units condition machine = .done value after)
    (holds : value.isTruthy = true) : Edits log part edited := by
  cases edits with
  | kept inside => exact inside
  | replaced part other reported unreachable =>
      rw [constant_value (consequent_warning_cases reported) done] at holds
      cases holds

theorem kept_of_alternative
    (edits : EditsPart (alternativeWarning condition part) log part edited)
    (done : evaluate config units condition machine = .done value after)
    (fails : value.isTruthy = false) : Edits log part edited := by
  cases edits with
  | kept inside => exact inside
  | replaced part other reported unreachable =>
      rw [constant_value (alternative_warning_cases reported) done] at fails
      cases fails

theorem kept_of_body {keyword : Token}
    (edits : EditsPart (loopWarning keyword condition part) log part edited)
    (done : evaluate config units condition machine = .done value after)
    (holds : value.isTruthy = true) : Edits log part edited := by
  cases edits with
  | kept inside => exact inside
  | replaced part other reported unreachable =>
      rw [constant_value (loop_warning_cases reported unreachable) done] at holds
      cases holds

end Parts

/-- All parts of the evaluator end in the same way on code and on an edit of it, when they are given
`units` of budget. -/
structure InStepWith (config : Config) (units : Nat) : Prop where
  evaluate : ∀ expression machine other, machine.Alike .edited other →
    (evaluate config units expression machine).Alike .edited (Value.Alike .edited)
      (evaluate config units expression other)
  evaluateAll : ∀ expressions machine other, machine.Alike .edited other →
    (evaluateAll config units expressions machine).Alike .edited
      (List.Forall₂ (Value.Alike .edited)) (evaluateAll config units expressions other)
  call : ∀ paren callee calleeToo values valuesToo machine other, machine.Alike .edited other →
    callee.Alike .edited calleeToo → List.Forall₂ (Value.Alike .edited) values valuesToo →
    (call config units paren callee values machine).Alike .edited (Value.Alike .edited)
      (call config units paren calleeToo valuesToo other)
  invoke : ∀ callable callableToo values valuesToo machine other, machine.Alike .edited other →
    (Value.callable callable).Alike .edited (.callable callableToo) →
    List.Forall₂ (Value.Alike .edited) values valuesToo →
    (invoke config units callable values machine).Alike .edited (Value.Alike .edited)
      (invoke config units callableToo valuesToo other)
  execute : ∀ log statement edited machine other, Stmt.Edits log statement edited →
    machine.Alike .edited other →
    (execute config units statement machine).Alike .edited (Flow.Alike .edited)
      (execute config units edited other)
  iterate : ∀ log keyword condition body edited machine other,
    Stmt.EditsPart (Stmt.loopWarning keyword condition body) log body edited →
    machine.Alike .edited other →
    (iterate config units condition body machine).Alike .edited (Flow.Alike .edited)
      (iterate config units condition edited other)
  executeIn : ∀ exited log body edited scope machine other, Stmt.EditsIn exited log body edited →
    machine.Alike .edited other →
    (executeIn config units body scope machine).Alike .edited (Flow.Alike .edited)
      (executeIn config units edited scope other)
  executeAll : ∀ exited log body edited machine other, Stmt.EditsIn exited log body edited →
    machine.Alike .edited other →
    (executeAll config units body machine).Alike .edited (Flow.Alike .edited)
      (executeAll config units edited other)

namespace InStepWith

open Outcome

variable {config : Config} {units : Nat} {machine other : Machine}

theorem evaluate_succ (below : InStepWith config units) (expression : Expr)
    (machine other : Machine) (alike : machine.Alike .edited other) :
    (Treewalk.evaluate config (units + 1) expression machine).Alike .edited (Value.Alike .edited)
      (Treewalk.evaluate config (units + 1) expression other) := by
  cases expression with
  | literal value line location => exact .done (Value.alike_literal value) alike
  | grouping inner location => exact below.evaluate inner machine other alike
  | unary operator operand =>
      apply alike_and_then (below.evaluate operand machine other alike)
      intro value valueToo _ _ _ fits alike
      rw [apply_unary_alike operator.kind fits]
      exact applied_alike alike (fun _ => apply_unary_captures _ _) fun _ => rfl
  | binary left operator right =>
      apply alike_and_then (below.evaluate left machine other alike)
      intro first firstToo _ _ _ fitsFirst alike
      apply alike_and_then (below.evaluate right _ _ alike)
      intro second secondToo _ _ _ fitsSecond alike
      rw [apply_binary_alike operator.kind fitsFirst fitsSecond]
      exact applied_alike alike (fun _ => apply_binary_captures _ _ _) fun _ => rfl
  | logical left operator right =>
      apply alike_and_then (below.evaluate left machine other alike)
      intro first firstToo _ _ _ fits alike
      rw [short_circuits_alike operator.kind fits]
      split
      · exact .done fits alike
      · exact below.evaluate right _ _ alike
  | reference name => exact read_variable_alike alike rfl fun _ => rfl
  | assign name value =>
      apply alike_and_then (below.evaluate value machine other alike)
      intro result resultToo _ _ _ fits alike
      exact write_variable_alike alike rfl (fun _ => rfl) fits
  | call callee paren arguments =>
      apply alike_and_then (below.evaluate callee machine other alike)
      intro function functionToo _ _ _ fits alike
      apply alike_and_then (below.evaluateAll arguments _ _ alike)
      intro values valuesToo _ _ _ fit alike
      exact below.call paren function functionToo values valuesToo _ _ alike fits fit

theorem evaluate_all_succ (below : InStepWith config units) (expressions : List Expr)
    (machine other : Machine) (alike : machine.Alike .edited other) :
    (Treewalk.evaluateAll config (units + 1) expressions machine).Alike .edited
      (List.Forall₂ (Value.Alike .edited))
      (Treewalk.evaluateAll config (units + 1) expressions other) := by
  cases expressions with
  | nil => exact .done .nil alike
  | cons first rest =>
      apply alike_and_then (below.evaluate first machine other alike)
      intro value valueToo _ _ _ fits alike
      apply alike_and_then (below.evaluateAll rest _ _ alike)
      intro values valuesToo _ _ _ fit alike
      exact .done (.cons fits fit) alike

theorem arity_eq {callable callableToo : Callable}
    (alike : (Value.callable callable).Alike .edited (.callable callableToo)) :
    callable.arity = callableToo.arity := by
  cases alike with
  | plain => rfl
  | function identity closure declaration => exact congrArg List.length declaration.2.1

theorem call_succ (below : InStepWith config units) (paren : Token) (callee calleeToo : Value)
    (values valuesToo : List Value) (machine other : Machine)
    (alike : machine.Alike .edited other) (fits : callee.Alike .edited calleeToo)
    (fit : List.Forall₂ (Value.Alike .edited) values valuesToo) :
    (Treewalk.call config (units + 1) paren callee values machine).Alike .edited
      (Value.Alike .edited)
      (Treewalk.call config (units + 1) paren calleeToo valuesToo other) := by
  have callables : ∀ callable callableToo,
      (Value.callable callable).Alike .edited (.callable callableToo) →
      (Treewalk.call config (units + 1) paren (.callable callable) values machine).Alike .edited
        (Value.Alike .edited)
        (Treewalk.call config (units + 1) paren (.callable callableToo) valuesToo other) := by
    intro callable callableToo fits
    unfold Treewalk.call
    dsimp only
    rw [arity_eq fits, fit.length_eq, alike.callDepth]
    split
    · exact .raised rfl alike
    · split
      · exact .raised rfl alike
      · apply alike_on_exit (below.invoke callable callableToo values valuesToo _ _
          alike.enter_call fits fit)
        exact fun _ _ alike => alike.leave_call
  cases fits with
  | plain captures =>
      cases callee with
      | callable callable => exact callables callable callable (.plain captures)
      | nil => exact .raised rfl alike
      | boolean value => exact .raised rfl alike
      | number value => exact .raised rfl alike
      | string value => exact .raised rfl alike
  | function identity closure declaration =>
      exact callables _ _ (.function identity closure declaration)

/-- The two bodies run in alike scopes, and the second is an edit of the first. -/
theorem invoke_succ (below : InStepWith config units) (callable callableToo : Callable)
    (values valuesToo : List Value) (machine other : Machine)
    (alike : machine.Alike .edited other)
    (fits : (Value.callable callable).Alike .edited (.callable callableToo))
    (fit : List.Forall₂ (Value.Alike .edited) values valuesToo) :
    (Treewalk.invoke config (units + 1) callable values machine).Alike .edited
      (Value.Alike .edited)
      (Treewalk.invoke config (units + 1) callableToo valuesToo other) := by
  cases fits with
  | plain captures =>
      rcases callable with ⟨identity, code⟩
      cases code with
      | native function => exact call_native_alike config function alike
      | user declaration closure => exact absurd ⟨identity, declaration, rfl⟩ (captures closure)
  | @function first second identity closure declaration =>
      obtain ⟨log, edits⟩ := declaration.2.2
      have ready := alike.prepared declaration closure fit
      have body := below.executeIn false log first.body second.body machine.heap.next _ _ edits
        ready
      unfold Treewalk.invoke
      dsimp only
      rw [← alike.heap.next]
      rw [Machine.prepared, Machine.prepared, ← alike.heap.next] at body
      apply alike_and_then body
      intro flow flowToo _ _ _ fits alike
      cases fits with
      | normal => exact .done Value.alike_nil alike
      | broke => exact .done Value.alike_nil alike
      | returned fits => exact .done fits alike

/-- Statements that were kept do the same; those that were replaced are not come to. -/
theorem execute_succ (below : InStepWith config units) (log : List Replacement)
    (statement edited : Stmt) (machine other : Machine) (edits : Stmt.Edits log statement edited)
    (alike : machine.Alike .edited other) :
    (Treewalk.execute config (units + 1) statement machine).Alike .edited (Flow.Alike .edited)
      (Treewalk.execute config (units + 1) edited other) := by
  cases edits with
  | expression value =>
      apply alike_and_then (below.evaluate value machine other alike)
      exact fun _ _ _ _ _ _ alike => .done .normal alike
  | print keyword value =>
      apply alike_and_then (below.evaluate value machine other alike)
      intro result resultToo _ _ _ fits alike
      rw [fits.printed]
      exact .done .normal (alike.print_line _)
  | declare name initial =>
      cases initial with
      | none => exact .done .normal (alike.define _ Value.alike_nil)
      | some initial =>
          apply alike_and_then (below.evaluate initial machine other alike)
          intro value valueToo _ _ _ fits alike
          exact .done .normal (alike.define _ fits)
  | block location inside =>
      have opened := alike.open_scope other.current
      have ran := below.executeIn false log _ _ other.heap.next _ _ inside opened
      unfold Treewalk.execute
      dsimp only
      rw [alike.current, alike.heap.next]
      exact ran
  | ifThen keyword condition part =>
      apply alike_and_then (below.evaluate condition machine other alike)
      intro value valueToo _ _ done fits alike
      rw [← fits.is_truthy]
      split
      · rename_i holds
        exact below.execute _ _ _ _ _ (kept_of_consequent part done holds) alike
      · exact .done .normal alike
  | ifElse keyword condition first second =>
      apply alike_and_then (below.evaluate condition machine other alike)
      intro value valueToo _ _ done fits alike
      rw [← fits.is_truthy]
      split
      · rename_i holds
        exact below.execute _ _ _ _ _ (kept_of_consequent first done holds) alike
      · rename_i fails
        have fails : value.isTruthy = false := Bool.eq_false_iff.mpr fails
        exact below.execute _ _ _ _ _ (kept_of_alternative second done fails) alike
  | loop keyword condition part => exact below.iterate log keyword condition _ _ _ _ part alike
  | function name parameters inside =>
      exact .done .normal (alike.declare_function ⟨rfl, rfl, log, inside⟩)
  | returnValue keyword value =>
      cases value with
      | none => exact .done (.returned Value.alike_nil) alike
      | some value =>
          apply alike_and_then (below.evaluate value machine other alike)
          exact fun _ _ _ _ _ fits alike => .done (.returned fits) alike
  | breakLoop keyword => exact .done .broke alike

theorem iterate_succ (below : InStepWith config units) (log : List Replacement) (keyword : Token)
    (condition : Expr) (body edited : Stmt) (machine other : Machine)
    (part : Stmt.EditsPart (Stmt.loopWarning keyword condition body) log body edited)
    (alike : machine.Alike .edited other) :
    (Treewalk.iterate config (units + 1) condition body machine).Alike .edited
      (Flow.Alike .edited) (Treewalk.iterate config (units + 1) condition edited other) := by
  apply alike_and_then (below.evaluate condition machine other alike)
  intro value valueToo _ _ done fits alike
  rw [← fits.is_truthy]
  split
  · rename_i holds
    apply alike_and_then
      (below.execute log body edited _ _ (kept_of_body part done holds) alike)
    intro flow flowToo _ _ _ fits alike
    cases fits with
    | normal => exact below.iterate log keyword condition body edited _ _ part alike
    | broke => exact .done .normal alike
    | returned fits => exact .done (.returned fits) alike
  · exact .done .normal alike

theorem execute_in_succ (below : InStepWith config units) (exited : Bool)
    (log : List Replacement) (body edited : List Stmt) (scope : ScopeId)
    (machine other : Machine) (edits : Stmt.EditsIn exited log body edited)
    (alike : machine.Alike .edited other) :
    (Treewalk.executeIn config (units + 1) body scope machine).Alike .edited (Flow.Alike .edited)
      (Treewalk.executeIn config (units + 1) edited scope other) := by
  apply alike_on_exit
    (below.executeAll exited log body edited _ _ edits (alike.enter scope))
  intro after afterToo alikeAfter
  rw [alike.current]
  exact alikeAfter.enter other.current

theorem execute_all_succ (below : InStepWith config units) (exited : Bool)
    (log : List Replacement) (body edited : List Stmt) (machine other : Machine)
    (edits : Stmt.EditsIn exited log body edited) (alike : machine.Alike .edited other) :
    (Treewalk.executeAll config (units + 1) body machine).Alike .edited (Flow.Alike .edited)
      (Treewalk.executeAll config (units + 1) edited other) := by
  cases edits with
  | nil => exact .done .normal alike
  | cons inside later =>
      apply alike_and_then (below.execute _ _ _ machine other inside alike)
      intro flow flowToo _ _ _ fits alike
      cases fits with
      | normal => exact below.executeAll _ _ _ _ _ _ later alike
      | broke => exact .done .broke alike
      | returned fits => exact .done (.returned fits) alike
  | replaced others inside exits reported =>
      apply alike_and_then (below.execute _ _ _ machine other inside alike)
      intro flow flowToo _ _ done fits alike
      cases fits with
      | normal => exact absurd rfl (not_normal_of_exits exits done)
      | broke => exact .done .broke alike
      | returned fits => exact .done (.returned fits) alike

end InStepWith

theorem in_step_with (config : Config) (units : Nat) : InStepWith config units := by
  induction units with
  | zero =>
      constructor
      all_goals intros
      all_goals exact .exhausted
  | succ units below =>
      constructor
      · exact below.evaluate_succ
      · exact below.evaluate_all_succ
      · exact below.call_succ
      · exact below.invoke_succ
      · exact below.execute_succ
      · exact below.iterate_succ
      · exact below.execute_in_succ
      · exact below.execute_all_succ

end Treewalk
