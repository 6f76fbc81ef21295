import Treewalk.Check.Exit
import Treewalk.Proofs.Evaluation.Outcome
import Treewalk.Proofs.Evaluation.Run
import Treewalk.Proofs.Program.Meaning
import Treewalk.Proofs.Scope.Stored

/-!
# Checked code ends as its place allows

A statement that passes the static check leaves a loop or a function only if it stands in one. The
check looks at text, the evaluator calls functions that it finds in the heap; so the invariant is
that every function in the heap has a checked body. One induction on the budget shows that checked
code keeps the invariant, ends with a flow that its place allows, and meets no operator without a
meaning.
-/

namespace Treewalk

set_option autoImplicit false

/-- The body of the function passes the check on its own, and its operators have a meaning. -/
structure FunctionDecl.Checked (declaration : FunctionDecl) : Prop where
  settled : Stmt.strayExitsIn Context.body declaration.body = []
  meaningful : Stmt.AllMeaningful declaration.body

/-- The statement passes the check in its place, and its operators have a meaning. -/
structure Stmt.Checked (context : Context) (statement : Stmt) : Prop where
  settled : statement.strayExits context = []
  meaningful : statement.Meaningful

/-- The statements pass the check in their place, and their operators have a meaning. -/
structure Stmt.AllChecked (context : Context) (body : List Stmt) : Prop where
  settled : Stmt.strayExitsIn context body = []
  meaningful : Stmt.AllMeaningful body

namespace Stmt

variable {context : Context}

theorem AllChecked.first {first : Stmt} {rest : List Stmt}
    (checked : AllChecked context (first :: rest)) : first.Checked context :=
  ⟨(List.append_eq_nil_iff.mp checked.settled).1, checked.meaningful.1⟩

theorem AllChecked.rest {first : Stmt} {rest : List Stmt}
    (checked : AllChecked context (first :: rest)) : AllChecked context rest :=
  ⟨(List.append_eq_nil_iff.mp checked.settled).2, checked.meaningful.2⟩

theorem Checked.block {body : List Stmt} {location : Span}
    (checked : (block body location).Checked context) : AllChecked context body :=
  ⟨checked.settled, checked.meaningful⟩

theorem Checked.consequent {keyword : Token} {condition : Expr} {consequent : Stmt}
    (checked : (ifThen keyword condition consequent).Checked context) :
    consequent.Checked context :=
  ⟨checked.settled, checked.meaningful.2⟩

theorem Checked.branches {keyword : Token} {condition : Expr} {consequent alternative : Stmt}
    (checked : (ifElse keyword condition consequent alternative).Checked context) :
    consequent.Checked context ∧ alternative.Checked context := by
  obtain ⟨first, second⟩ := List.append_eq_nil_iff.mp checked.settled
  exact ⟨⟨first, checked.meaningful.2.1⟩, ⟨second, checked.meaningful.2.2⟩⟩

theorem Checked.body {keyword : Token} {condition : Expr} {body : Stmt}
    (checked : (loop keyword condition body).Checked context) : body.Checked context.loop :=
  ⟨checked.settled, checked.meaningful.2⟩

theorem Checked.function {name : Token} {parameters : List Token} {body : List Stmt}
    (checked : (function name parameters body).Checked context) :
    FunctionDecl.Checked ⟨name, parameters, body⟩ :=
  ⟨checked.settled, checked.meaningful⟩

theorem Checked.in_function {keyword : Token} {value : Option Expr}
    (checked : (returnValue keyword value).Checked context) : context.inFunction = true := by
  have settled := checked.settled
  unfold strayExits at settled
  split at settled
  · assumption
  · cases settled

theorem Checked.in_loop {keyword : Token} (checked : (breakLoop keyword).Checked context) :
    context.inLoop = true := by
  have settled := checked.settled
  unfold strayExits at settled
  split at settled
  · assumption
  · cases settled

end Stmt

def Value.Checked (value : Value) : Prop :=
  value.Stores FunctionDecl.Checked

def Machine.Checked (machine : Machine) : Prop :=
  machine.Stores FunctionDecl.Checked

def Context.Allows (context : Context) : Flow → Prop
  | .normal => True
  | .broke => context.inLoop = true
  | .returned value => context.inFunction = true ∧ value.Checked

namespace Outcome

variable {α β : Type}

/-- The step meets an operator without a meaning never, keeps the heap checked, and its value is
good. -/
def Sound (good : α → Prop) (outcome : Outcome α) : Prop :=
  outcome.Meets (fun value after => good value ∧ after.Checked) (fun _ after => after.Checked) False

theorem sound_and_then {first : α → Prop} {second : β → Prop} {outcome : Outcome α}
    {next : α → Machine → Outcome β} (sound : outcome.Sound first)
    (later : ∀ value machine, first value → machine.Checked → (next value machine).Sound second) :
    (outcome.andThen next).Sound second := by
  apply meets_and_then sound
  rintro value machine - ⟨fits, checked⟩
  exact later value machine fits checked

theorem Sound.done {good : α → Prop} {outcome : Outcome α} {value : α} {machine : Machine}
    (sound : outcome.Sound good) (ended : outcome = .done value machine) :
    good value ∧ machine.Checked := by
  rw [ended] at sound
  exact sound

end Outcome

open Outcome

def Applied.Plain : Applied → Prop
  | .value (.callable _) => False
  | .value _ => True
  | .error _ => True
  | .meaningless => False

theorem apply_unary_plain (operator : Kind) (operand : Value) :
    (applyUnary operator operand).Plain := by
  unfold applyUnary
  split
  · trivial
  · split <;> trivial

theorem apply_plus_plain (left right : Value) : (applyPlus left right).Plain := by
  unfold applyPlus
  split <;> trivial

theorem apply_numeric_plain {operator : Kind} (left right : Float) (sign : operator ∈ binaryKinds)
    (other : operator ∉ [Kind.equalEqual, Kind.bangEqual, Kind.plus]) :
    (applyNumeric operator left right).Plain := by
  unfold applyNumeric
  split
  all_goals try trivial
  · split <;> trivial
  · simp only [binaryKinds, List.mem_cons, List.not_mem_nil, or_false, not_or] at sign other
    simp_all

theorem apply_binary_plain {operator : Kind} (left right : Value)
    (sign : operator ∈ binaryKinds) : (applyBinary operator left right).Plain := by
  unfold applyBinary
  split
  · trivial
  · trivial
  · exact apply_plus_plain left right
  · rename_i notEqual notUnequal notPlus
    split
    · apply apply_numeric_plain _ _ sign
      simp only [List.mem_cons, List.not_mem_nil, or_false, not_or]
      exact ⟨notEqual, notUnequal, notPlus⟩
    · trivial

theorem applied_sound {applied : Applied} (site : Token) {machine : Machine}
    (plain : applied.Plain) (checked : machine.Checked) :
    (applied.outcome site machine).Sound Value.Checked := by
  cases applied with
  | value result =>
      refine ⟨?_, checked⟩
      intro identity declaration closure same
      rw [same] at plain
      cases plain
  | error cause => exact checked
  | meaningless => exact plain

theorem read_variable_sound (name : Token) {machine : Machine} (checked : machine.Checked) :
    (readVariable name machine).Sound Value.Checked := by
  unfold readVariable
  split
  · rename_i value read
    exact ⟨Heap.get_stores checked read, checked⟩
  · exact checked

theorem write_variable_sound (name : Token) {value : Value} {machine : Machine}
    (fits : value.Checked) (checked : machine.Checked) :
    (writeVariable name value machine).Sound Value.Checked := by
  unfold writeVariable
  split
  · rename_i holder _
    exact ⟨fits, Heap.define_stores holder _ fits checked⟩
  · exact checked

theorem call_native_sound (config : Config) (function : Native) {machine : Machine}
    (checked : machine.Checked) : (callNative config function machine).Sound Value.Checked := by
  cases function
  refine ⟨?_, checked⟩
  intro identity declaration closure same
  cases same

theorem prepared_checked {machine : Machine} (declaration : FunctionDecl) (closure : ScopeId)
    {values : List Value} (fit : ∀ value ∈ values, value.Checked) (checked : machine.Checked) :
    (machine.prepared declaration closure values).Checked := by
  apply Machine.bind_parameters_stores
  · intro binding inside
    exact fit binding.2 (List.of_mem_zip inside).2
  · exact Machine.open_scope_stores closure checked

/-- All parts of the evaluator are sound on checked code when they are given `units` of budget. -/
structure GuardedWith (config : Config) (units : Nat) : Prop where
  evaluate : ∀ expression machine, expression.Meaningful → machine.Checked →
    (evaluate config units expression machine).Sound Value.Checked
  evaluateAll : ∀ expressions machine, Expr.AllMeaningful expressions → machine.Checked →
    (evaluateAll config units expressions machine).Sound fun values =>
      ∀ value ∈ values, value.Checked
  call : ∀ paren callee values machine, callee.Checked → (∀ value ∈ values, value.Checked) →
    machine.Checked → (call config units paren callee values machine).Sound Value.Checked
  invoke : ∀ callable values machine, (Value.callable callable).Checked →
    (∀ value ∈ values, value.Checked) → machine.Checked →
    (invoke config units callable values machine).Sound Value.Checked
  execute : ∀ (context : Context) (statement : Stmt) (machine : Machine),
    statement.Checked context → machine.Checked →
      (execute config units statement machine).Sound context.Allows
  iterate : ∀ (context : Context) (condition : Expr) (body : Stmt) (machine : Machine),
    condition.Meaningful → body.Checked context.loop → machine.Checked →
    (iterate config units condition body machine).Sound context.Allows
  executeIn : ∀ (context : Context) (body : List Stmt) (scope : ScopeId) (machine : Machine),
    Stmt.AllChecked context body → machine.Checked →
    (executeIn config units body scope machine).Sound context.Allows
  executeAll : ∀ (context : Context) (body : List Stmt) (machine : Machine),
    Stmt.AllChecked context body → machine.Checked →
    (executeAll config units body machine).Sound context.Allows

namespace GuardedWith

variable {config : Config} {units : Nat}

theorem evaluate_succ (below : GuardedWith config units) (expression : Expr) (machine : Machine)
    (meaningful : expression.Meaningful) (checked : machine.Checked) :
    (Treewalk.evaluate config (units + 1) expression machine).Sound Value.Checked := by
  cases expression with
  | literal value line location => exact ⟨stores_of_literal value, checked⟩
  | grouping inner location => exact below.evaluate inner machine meaningful checked
  | unary operator operand =>
      apply sound_and_then (below.evaluate operand machine meaningful.2 checked)
      intro value after _ checkedAfter
      exact applied_sound operator (apply_unary_plain _ _) checkedAfter
  | binary left operator right =>
      apply sound_and_then (below.evaluate left machine meaningful.2.1 checked)
      intro first between _ checkedBetween
      apply sound_and_then (below.evaluate right between meaningful.2.2 checkedBetween)
      intro second after _ checkedAfter
      exact applied_sound operator (apply_binary_plain _ _ meaningful.1) checkedAfter
  | logical left operator right =>
      apply sound_and_then (below.evaluate left machine meaningful.2.1 checked)
      intro first between fits checkedBetween
      split
      · exact ⟨fits, checkedBetween⟩
      · exact below.evaluate right between meaningful.2.2 checkedBetween
  | reference name => exact read_variable_sound name checked
  | assign name value =>
      apply sound_and_then (below.evaluate value machine meaningful checked)
      intro result after fits checkedAfter
      exact write_variable_sound name fits checkedAfter
  | call callee paren arguments =>
      apply sound_and_then (below.evaluate callee machine meaningful.1 checked)
      intro function between fits checkedBetween
      apply sound_and_then (below.evaluateAll arguments between meaningful.2 checkedBetween)
      intro values after fit checkedAfter
      exact below.call paren function values after fits fit checkedAfter

theorem evaluate_all_succ (below : GuardedWith config units) (expressions : List Expr)
    (machine : Machine) (meaningful : Expr.AllMeaningful expressions) (checked : machine.Checked) :
    (Treewalk.evaluateAll config (units + 1) expressions machine).Sound fun values =>
      ∀ value ∈ values, value.Checked := by
  cases expressions with
  | nil =>
      refine ⟨?_, checked⟩
      intro value inside
      cases inside
  | cons first rest =>
      apply sound_and_then (below.evaluate first machine meaningful.1 checked)
      intro value between fits checkedBetween
      apply sound_and_then (below.evaluateAll rest between meaningful.2 checkedBetween)
      intro values after fit checkedAfter
      refine ⟨?_, checkedAfter⟩
      intro other inside
      rcases List.mem_cons.mp inside with rfl | inside
      · exact fits
      · exact fit other inside

theorem call_succ (below : GuardedWith config units) (paren : Token) (callee : Value)
    (values : List Value) (machine : Machine) (fits : callee.Checked)
    (fit : ∀ value ∈ values, value.Checked) (checked : machine.Checked) :
    (Treewalk.call config (units + 1) paren callee values machine).Sound Value.Checked := by
  unfold Treewalk.call
  split
  · split
    · exact checked
    · split
      · exact checked
      · rename_i callable _ _
        apply Outcome.meets_on_exit
          (below.invoke callable values machine.enterCall fits fit checked)
        · exact fun _ _ ended => ended
        · exact fun _ _ ended => ended
  · exact checked

theorem invoke_succ (below : GuardedWith config units) (callable : Callable) (values : List Value)
    (machine : Machine) (fits : (Value.callable callable).Checked)
    (fit : ∀ value ∈ values, value.Checked) (checked : machine.Checked) :
    (Treewalk.invoke config (units + 1) callable values machine).Sound Value.Checked := by
  rcases callable with ⟨identity, code⟩
  cases code with
  | native function => exact call_native_sound config function checked
  | user declaration closure =>
      have body := fits identity declaration closure rfl
      have prepared := prepared_checked declaration closure fit checked
      apply sound_and_then (below.executeIn Context.body declaration.body machine.heap.next _
        ⟨body.settled, body.meaningful⟩ prepared)
      intro flow after allowed checkedAfter
      cases flow with
      | normal => exact ⟨stores_nil, checkedAfter⟩
      | broke => exact ⟨stores_nil, checkedAfter⟩
      | returned value => exact ⟨allowed.2, checkedAfter⟩

theorem execute_succ (below : GuardedWith config units) (context : Context) (statement : Stmt)
    (machine : Machine) (passed : statement.Checked context) (checked : machine.Checked) :
    (Treewalk.execute config (units + 1) statement machine).Sound context.Allows := by
  cases statement with
  | expression value =>
      apply sound_and_then (below.evaluate value machine passed.meaningful checked)
      intro _ after _ checkedAfter
      exact ⟨trivial, checkedAfter⟩
  | print keyword value =>
      apply sound_and_then (below.evaluate value machine passed.meaningful checked)
      intro result after _ checkedAfter
      exact ⟨trivial, checkedAfter⟩
  | declare name initial =>
      cases initial with
      | none => exact ⟨trivial, Machine.define_stores _ stores_nil checked⟩
      | some initial =>
          apply sound_and_then (below.evaluate initial machine passed.meaningful checked)
          intro value after fits checkedAfter
          exact ⟨trivial, Machine.define_stores _ fits checkedAfter⟩
  | block body location =>
      exact below.executeIn context body machine.heap.next _ passed.block
        (Machine.open_scope_stores machine.current checked)
  | ifThen keyword condition consequent =>
      apply sound_and_then (below.evaluate condition machine passed.meaningful.1 checked)
      intro value after _ checkedAfter
      split
      · exact below.execute context consequent after passed.consequent checkedAfter
      · exact ⟨trivial, checkedAfter⟩
  | ifElse keyword condition consequent alternative =>
      apply sound_and_then (below.evaluate condition machine passed.meaningful.1 checked)
      intro value after _ checkedAfter
      split
      · exact below.execute context consequent after passed.branches.1 checkedAfter
      · exact below.execute context alternative after passed.branches.2 checkedAfter
  | loop keyword condition body =>
      exact below.iterate context condition body machine passed.meaningful.1 passed.body checked
  | function name parameters body =>
      exact ⟨trivial, Machine.declare_function_stores passed.function checked⟩
  | returnValue keyword value =>
      have inside := passed.in_function
      cases value with
      | none => exact ⟨⟨inside, stores_nil⟩, checked⟩
      | some value =>
          apply sound_and_then (below.evaluate value machine passed.meaningful checked)
          intro result after fits checkedAfter
          exact ⟨⟨inside, fits⟩, checkedAfter⟩
  | breakLoop keyword => exact ⟨passed.in_loop, checked⟩

/-- A loop ends the breaks of its body, so only a return comes out of it. -/
theorem iterate_succ (below : GuardedWith config units) (context : Context) (condition : Expr)
    (body : Stmt) (machine : Machine) (meaningful : condition.Meaningful)
    (passed : body.Checked context.loop) (checked : machine.Checked) :
    (Treewalk.iterate config (units + 1) condition body machine).Sound context.Allows := by
  apply sound_and_then (below.evaluate condition machine meaningful checked)
  intro value between _ checkedBetween
  split
  · apply sound_and_then (below.execute context.loop body between passed checkedBetween)
    intro flow after allowed checkedAfter
    cases flow with
    | normal => exact below.iterate context condition body after meaningful passed checkedAfter
    | broke => exact ⟨trivial, checkedAfter⟩
    | returned result => exact ⟨allowed, checkedAfter⟩
  · exact ⟨trivial, checkedBetween⟩

theorem execute_in_succ (below : GuardedWith config units) (context : Context) (body : List Stmt)
    (scope : ScopeId) (machine : Machine) (passed : Stmt.AllChecked context body)
    (checked : machine.Checked) :
    (Treewalk.executeIn config (units + 1) body scope machine).Sound context.Allows := by
  apply Outcome.meets_on_exit (below.executeAll context body (machine.enter scope) passed checked)
  · exact fun _ _ ended => ended
  · exact fun _ _ ended => ended

theorem execute_all_succ (below : GuardedWith config units) (context : Context)
    (body : List Stmt) (machine : Machine) (passed : Stmt.AllChecked context body)
    (checked : machine.Checked) :
    (Treewalk.executeAll config (units + 1) body machine).Sound context.Allows := by
  cases body with
  | nil => exact ⟨trivial, checked⟩
  | cons first rest =>
      apply sound_and_then (below.execute context first machine passed.first checked)
      intro flow after allowed checkedAfter
      cases flow with
      | normal => exact below.executeAll context rest after passed.rest checkedAfter
      | broke => exact ⟨allowed, checkedAfter⟩
      | returned value => exact ⟨allowed, checkedAfter⟩

end GuardedWith

/-- All parts of the evaluator are sound on checked code, with any budget. -/
theorem guarded_with (config : Config) (units : Nat) : GuardedWith config units := by
  induction units with
  | zero =>
      constructor
      all_goals intros
      all_goals trivial
  | succ units below =>
      constructor
      · exact below.evaluate_succ
      · exact below.evaluate_all_succ
      · exact below.call_succ
      · exact below.invoke_succ
      · exact below.execute_succ
      · exact below.iterate_succ
      · exact below.execute_in_succ
      · exact below.execute_all_succ

end Treewalk
