import Treewalk.Proofs.Evaluation.Encapsulation
import Treewalk.Proofs.Program.Blame
import Treewalk.Proofs.Scope.Stored

/-!
# Where errors come from

An error that evaluation raises is one that the code at hand can raise, or a function that is stored
in the heap. The functions that are stored at the end were stored before or are declared by the
code; so the errors to come are known in advance, whatever they are.
-/

namespace Treewalk

set_option autoImplicit false

def FunctionDecl.RaisesOnly (good : RuntimeError → Prop) (declaration : FunctionDecl) : Prop :=
  ∀ error, declaration.CanRaise error → good error

def Value.RaisesOnly (good : RuntimeError → Prop) (value : Value) : Prop :=
  value.Stores (FunctionDecl.RaisesOnly good)

def Machine.RaisesOnly (good : RuntimeError → Prop) (machine : Machine) : Prop :=
  machine.Stores (FunctionDecl.RaisesOnly good)

/-- The value with which a statement returns, if it does, raises good errors only. -/
def Flow.RaisesOnly (good : RuntimeError → Prop) : Flow → Prop
  | .normal => True
  | .broke => True
  | .returned value => value.RaisesOnly good

variable {good : RuntimeError → Prop}

namespace Outcome

variable {α β : Type}

/-- If the step raises an error it is good; the heap raises good errors only, and so does the value
of the step. -/
def Answers (good : RuntimeError → Prop) (fits : α → Prop) (outcome : Outcome α) : Prop :=
  outcome.Meets (fun value after => fits value ∧ after.RaisesOnly good)
    (fun error after => good error ∧ after.RaisesOnly good) True

theorem answers_and_then {first : α → Prop} {second : β → Prop} {outcome : Outcome α}
    {next : α → Machine → Outcome β} (answers : outcome.Answers good first)
    (later : ∀ value machine, first value → machine.RaisesOnly good →
      (next value machine).Answers good second) :
    (outcome.andThen next).Answers good second := by
  apply meets_and_then answers
  rintro value machine - ⟨fits, held⟩
  exact later value machine fits held

end Outcome

open Outcome

section Primitives

variable {machine : Machine}

theorem applied_answers {applied : Applied} {site : Token}
    (plain : ∀ value, applied = .value value → value.RaisesOnly good)
    (raises : ∀ cause, applied = .error cause → good ⟨cause, site⟩)
    (held : machine.RaisesOnly good) :
    (applied.outcome site machine).Answers good (Value.RaisesOnly good) := by
  cases applied with
  | value result => exact ⟨plain result rfl, held⟩
  | error cause => exact ⟨raises cause rfl, held⟩
  | meaningless => trivial

theorem raises_only_of_plain {value : Value} (plain : ∀ closure, ¬value.Captures closure) :
    value.RaisesOnly good := by
  intro identity declaration closure same
  exact absurd ⟨identity, declaration, same⟩ (plain closure)

theorem read_variable_answers {name : Token} (raises : good (RuntimeError.unbound name))
    (held : machine.RaisesOnly good) :
    (readVariable name machine).Answers good (Value.RaisesOnly good) := by
  unfold readVariable
  split
  · rename_i value read
    exact ⟨Heap.get_stores held read, held⟩
  · exact ⟨raises, held⟩

theorem write_variable_answers {name : Token} {value : Value}
    (raises : good (RuntimeError.unbound name)) (fits : value.RaisesOnly good)
    (held : machine.RaisesOnly good) :
    (writeVariable name value machine).Answers good (Value.RaisesOnly good) := by
  unfold writeVariable
  split
  · rename_i holder _
    exact ⟨fits, Heap.define_stores holder _ fits held⟩
  · exact ⟨raises, held⟩

end Primitives

/-- All parts of the evaluator raise good errors only, with this budget, if the code and the heap
can raise no others. -/
structure AnswersWith (good : RuntimeError → Prop) (config : Config) (units : Nat) : Prop where
  evaluate : ∀ (expression : Expr) machine, (∀ error, expression.CanRaise error → good error) →
    machine.RaisesOnly good →
    (evaluate config units expression machine).Answers good (Value.RaisesOnly good)
  evaluateAll : ∀ expressions machine, (∀ error, Expr.AnyCanRaise error expressions → good error) →
    machine.RaisesOnly good → (evaluateAll config units expressions machine).Answers good
      fun values => ∀ value ∈ values, value.RaisesOnly good
  call : ∀ paren callee values machine,
    (∀ cause : RuntimeCause, cause.OfCall → good ⟨cause, paren⟩) → callee.RaisesOnly good →
    (∀ value ∈ values, value.RaisesOnly good) → machine.RaisesOnly good →
    (call config units paren callee values machine).Answers good (Value.RaisesOnly good)
  invoke : ∀ callable values machine, (Value.callable callable).RaisesOnly good →
    (∀ value ∈ values, value.RaisesOnly good) → machine.RaisesOnly good →
    (invoke config units callable values machine).Answers good (Value.RaisesOnly good)
  execute : ∀ (statement : Stmt) machine, (∀ error, statement.CanRaise error → good error) →
    machine.RaisesOnly good →
    (execute config units statement machine).Answers good (Flow.RaisesOnly good)
  iterate : ∀ (condition : Expr) (body : Stmt) machine,
    (∀ error, condition.CanRaise error → good error) →
    (∀ error, body.CanRaise error → good error) → machine.RaisesOnly good →
    (iterate config units condition body machine).Answers good (Flow.RaisesOnly good)
  executeIn : ∀ body scope machine, (∀ error, Stmt.AnyCanRaise error body → good error) →
    machine.RaisesOnly good →
    (executeIn config units body scope machine).Answers good (Flow.RaisesOnly good)
  executeAll : ∀ body machine, (∀ error, Stmt.AnyCanRaise error body → good error) →
    machine.RaisesOnly good →
    (executeAll config units body machine).Answers good (Flow.RaisesOnly good)

namespace AnswersWith

variable {config : Config} {units : Nat}

theorem evaluate_succ (below : AnswersWith good config units) (expression : Expr)
    (machine : Machine) (raises : ∀ error, expression.CanRaise error → good error)
    (held : machine.RaisesOnly good) :
    (Treewalk.evaluate config (units + 1) expression machine).Answers good
      (Value.RaisesOnly good) := by
  cases expression with
  | literal value line location => exact ⟨stores_of_literal value, held⟩
  | grouping inner location => exact below.evaluate inner machine raises held
  | unary operator operand =>
      apply answers_and_then
        (below.evaluate operand machine (fun error inside => raises error (.inr inside)) held)
      intro value after _ heldAfter
      apply applied_answers _ _ heldAfter
      · intro result same
        exact raises_only_of_plain (apply_unary_captures _ _ same)
      · intro cause failed
        exact raises ⟨cause, operator⟩ (.inl ⟨rfl, value, failed⟩)
  | binary left operator right =>
      apply answers_and_then
        (below.evaluate left machine (fun error inside => raises error (.inr (.inl inside))) held)
      intro first between _ heldBetween
      apply answers_and_then (below.evaluate right between
        (fun error inside => raises error (.inr (.inr inside))) heldBetween)
      intro second after _ heldAfter
      apply applied_answers _ _ heldAfter
      · intro result same
        exact raises_only_of_plain (apply_binary_captures _ _ _ same)
      · intro cause failed
        exact raises ⟨cause, operator⟩ (.inl ⟨rfl, first, second, failed⟩)
  | logical left operator right =>
      apply answers_and_then
        (below.evaluate left machine (fun error inside => raises error (.inl inside)) held)
      intro first between fits heldBetween
      split
      · exact ⟨fits, heldBetween⟩
      · exact below.evaluate right between (fun error inside => raises error (.inr inside))
          heldBetween
  | reference name => exact read_variable_answers (raises _ rfl) held
  | assign name value =>
      apply answers_and_then
        (below.evaluate value machine (fun error inside => raises error (.inr inside)) held)
      intro result after fits heldAfter
      exact write_variable_answers (raises _ (.inl rfl)) fits heldAfter
  | call callee paren arguments =>
      apply answers_and_then (below.evaluate callee machine
        (fun error inside => raises error (.inr (.inl inside))) held)
      intro function between fits heldBetween
      apply answers_and_then (below.evaluateAll arguments between
        (fun error inside => raises error (.inr (.inr inside))) heldBetween)
      intro values after fit heldAfter
      exact below.call paren function values after
        (fun cause ofCall => raises ⟨cause, paren⟩ (.inl ⟨rfl, ofCall⟩)) fits fit heldAfter

theorem evaluate_all_succ (below : AnswersWith good config units) (expressions : List Expr)
    (machine : Machine) (raises : ∀ error, Expr.AnyCanRaise error expressions → good error)
    (held : machine.RaisesOnly good) :
    (Treewalk.evaluateAll config (units + 1) expressions machine).Answers good
      fun values => ∀ value ∈ values, value.RaisesOnly good := by
  cases expressions with
  | nil =>
      refine ⟨?_, held⟩
      intro value inside
      cases inside
  | cons first rest =>
      apply answers_and_then
        (below.evaluate first machine (fun error inside => raises error (.inl inside)) held)
      intro value between fits heldBetween
      apply answers_and_then (below.evaluateAll rest between
        (fun error inside => raises error (.inr inside)) heldBetween)
      intro values after fit heldAfter
      exact ⟨List.forall_mem_cons.mpr ⟨fits, fit⟩, heldAfter⟩

theorem call_succ (below : AnswersWith good config units) (paren : Token) (callee : Value)
    (values : List Value) (machine : Machine)
    (raises : ∀ cause : RuntimeCause, cause.OfCall → good ⟨cause, paren⟩)
    (fits : callee.RaisesOnly good) (fit : ∀ value ∈ values, value.RaisesOnly good)
    (held : machine.RaisesOnly good) :
    (Treewalk.call config (units + 1) paren callee values machine).Answers good
      (Value.RaisesOnly good) := by
  unfold Treewalk.call
  split
  · rename_i callable
    split
    · exact ⟨raises _ (.arityMismatch _ _), held⟩
    · split
      · exact ⟨raises _ .stackOverflow, held⟩
      · apply Outcome.meets_on_exit (below.invoke callable values machine.enterCall fits fit held)
        · exact fun _ _ ended => ended
        · exact fun _ _ ended => ended
  · exact ⟨raises _ .notCallable, held⟩

theorem invoke_succ (below : AnswersWith good config units) (callable : Callable)
    (values : List Value) (machine : Machine) (fits : (Value.callable callable).RaisesOnly good)
    (fit : ∀ value ∈ values, value.RaisesOnly good) (held : machine.RaisesOnly good) :
    (Treewalk.invoke config (units + 1) callable values machine).Answers good
      (Value.RaisesOnly good) := by
  rcases callable with ⟨identity, code⟩
  cases code with
  | native function =>
      cases function
      exact ⟨raises_only_of_plain (by rintro closure ⟨_, _, same⟩; cases same), held⟩
  | user declaration closure =>
      have ready : (machine.prepared declaration closure values).RaisesOnly good := by
        apply Machine.bind_parameters_stores
        · exact fun binding inside => fit binding.2 (List.of_mem_zip inside).2
        · exact Machine.open_scope_stores closure held
      apply answers_and_then (below.executeIn declaration.body machine.heap.next _
        (fits identity declaration closure rfl) ready)
      intro flow after returned heldAfter
      cases flow with
      | normal => exact ⟨stores_nil, heldAfter⟩
      | broke => exact ⟨stores_nil, heldAfter⟩
      | returned value => exact ⟨returned, heldAfter⟩

theorem execute_succ (below : AnswersWith good config units) (statement : Stmt) (machine : Machine)
    (raises : ∀ error, statement.CanRaise error → good error) (held : machine.RaisesOnly good) :
    (Treewalk.execute config (units + 1) statement machine).Answers good
      (Flow.RaisesOnly good) := by
  cases statement with
  | expression value =>
      apply answers_and_then (below.evaluate value machine raises held)
      exact fun _ after _ heldAfter => ⟨trivial, heldAfter⟩
  | print keyword value =>
      apply answers_and_then (below.evaluate value machine raises held)
      exact fun _ after _ heldAfter => ⟨trivial, heldAfter⟩
  | declare name initial =>
      cases initial with
      | none => exact ⟨trivial, Machine.define_stores _ stores_nil held⟩
      | some initial =>
          apply answers_and_then (below.evaluate initial machine raises held)
          intro value after fits heldAfter
          exact ⟨trivial, Machine.define_stores _ fits heldAfter⟩
  | block body location =>
      exact below.executeIn body machine.heap.next _ raises
        (Machine.open_scope_stores machine.current held)
  | ifThen keyword condition consequent =>
      apply answers_and_then
        (below.evaluate condition machine (fun error inside => raises error (.inl inside)) held)
      intro value after _ heldAfter
      split
      · exact below.execute consequent after (fun error inside => raises error (.inr inside))
          heldAfter
      · exact ⟨trivial, heldAfter⟩
  | ifElse keyword condition consequent alternative =>
      apply answers_and_then
        (below.evaluate condition machine (fun error inside => raises error (.inl inside)) held)
      intro value after _ heldAfter
      split
      · exact below.execute consequent after
          (fun error inside => raises error (.inr (.inl inside))) heldAfter
      · exact below.execute alternative after
          (fun error inside => raises error (.inr (.inr inside))) heldAfter
  | loop keyword condition body =>
      exact below.iterate condition body machine (fun error inside => raises error (.inl inside))
        (fun error inside => raises error (.inr inside)) held
  | function name parameters body =>
      exact ⟨trivial, Machine.declare_function_stores raises held⟩
  | returnValue keyword value =>
      cases value with
      | none => exact ⟨stores_nil, held⟩
      | some value =>
          apply answers_and_then (below.evaluate value machine raises held)
          exact fun _ after fits heldAfter => ⟨fits, heldAfter⟩
  | breakLoop keyword => exact ⟨trivial, held⟩

theorem iterate_succ (below : AnswersWith good config units) (condition : Expr) (body : Stmt)
    (machine : Machine) (raises : ∀ error, condition.CanRaise error → good error)
    (raisesBody : ∀ error, body.CanRaise error → good error) (held : machine.RaisesOnly good) :
    (Treewalk.iterate config (units + 1) condition body machine).Answers good
      (Flow.RaisesOnly good) := by
  apply answers_and_then (below.evaluate condition machine raises held)
  intro value between _ heldBetween
  split
  · apply answers_and_then (below.execute body between raisesBody heldBetween)
    intro flow after returned heldAfter
    cases flow with
    | normal => exact below.iterate condition body after raises raisesBody heldAfter
    | broke => exact ⟨trivial, heldAfter⟩
    | returned result => exact ⟨returned, heldAfter⟩
  · exact ⟨trivial, heldBetween⟩

theorem execute_in_succ (below : AnswersWith good config units) (body : List Stmt)
    (scope : ScopeId) (machine : Machine)
    (raises : ∀ error, Stmt.AnyCanRaise error body → good error)
    (held : machine.RaisesOnly good) :
    (Treewalk.executeIn config (units + 1) body scope machine).Answers good
      (Flow.RaisesOnly good) := by
  apply Outcome.meets_on_exit (below.executeAll body (machine.enter scope) raises held)
  · exact fun _ _ ended => ended
  · exact fun _ _ ended => ended

theorem execute_all_succ (below : AnswersWith good config units) (body : List Stmt)
    (machine : Machine) (raises : ∀ error, Stmt.AnyCanRaise error body → good error)
    (held : machine.RaisesOnly good) :
    (Treewalk.executeAll config (units + 1) body machine).Answers good (Flow.RaisesOnly good) := by
  cases body with
  | nil => exact ⟨trivial, held⟩
  | cons first rest =>
      apply answers_and_then
        (below.execute first machine (fun error inside => raises error (.inl inside)) held)
      intro flow after returned heldAfter
      cases flow with
      | normal =>
          exact below.executeAll rest after
            (fun error inside => raises error (.inr inside)) heldAfter
      | broke => exact ⟨trivial, heldAfter⟩
      | returned value => exact ⟨returned, heldAfter⟩

end AnswersWith

theorem answers_with (good : RuntimeError → Prop) (config : Config) (units : Nat) :
    AnswersWith good config units := by
  induction units with
  | zero =>
      constructor
      all_goals intros
      all_goals trivial
  | succ units below =>
      constructor
      · exact below.evaluate_succ
      · exact below.evaluate_all_succ
      · exact below.call_succ
      · exact below.invoke_succ
      · exact below.execute_succ
      · exact below.iterate_succ
      · exact below.execute_in_succ
      · exact below.execute_all_succ

/-- A program raises errors that it can raise itself or that a function in the heap can raise, and
no other functions are stored behind it. -/
theorem interpret_answers (config : Config) (units : Nat) (program : Program) {machine : Machine}
    (raises : ∀ error, Stmt.AnyCanRaise error program → good error)
    (held : machine.RaisesOnly good) :
    (interpret config units program machine).Answers good fun _ => True := by
  have below := answers_with good config units
  induction program using program_induction generalizing machine with
  | empty => exact ⟨trivial, held⟩
  | trailing value =>
      apply answers_and_then
        (below.evaluate value machine (fun error inside => raises error (.inl inside)) held)
      exact fun _ after _ heldAfter => ⟨trivial, heldAfter⟩
  | expression value rest inside ih =>
      rw [interpret_expression config units machine value inside]
      apply answers_and_then
        (below.evaluate value machine (fun error inside => raises error (.inl inside)) held)
      exact fun _ between _ heldBetween =>
        ih (fun error inside => raises error (.inr inside)) heldBetween
  | statement first rest other ih =>
      rw [interpret_statement config units machine rest other]
      apply answers_and_then
        (below.execute first machine (fun error inside => raises error (.inl inside)) held)
      intro flow between returned heldBetween
      cases flow with
      | normal => exact ih (fun error inside => raises error (.inr inside)) heldBetween
      | broke => exact ⟨trivial, heldBetween⟩
      | returned value => exact ⟨trivial, heldBetween⟩

end Treewalk
