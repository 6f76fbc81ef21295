import Treewalk.Proofs.Evaluation.Encapsulation
import Treewalk.Proofs.Check.Guarded

/-!
# Invariants of evaluation

The evaluator changes the heap in two ways only: it creates a scope inside one that it holds, and it
binds a value that it holds. A property of heaps that both keep is kept by all code, however it
ends, and holds whenever a run starts inside of another. `Invariant` lists what has to be shown of
the two changes and of looking names up; what follows for the evaluator is shown here once.
-/

namespace Treewalk

set_option autoImplicit false

/-- A property of heaps that code keeps. With it come what code holds, scopes and values, how the
heap may change in the meantime, and whether all operators of the code have to have a meaning. -/
structure Invariant where
  heap : Heap → Prop
  scope : Heap → ScopeId → Prop
  value : Heap → Value → Prop
  change : Heap → Heap → Prop
  strict : Prop
  refl : ∀ {before : Heap}, change before before
  trans : ∀ {before between after : Heap},
    change before between → change between after → change before after
  scopeLater : ∀ {before after : Heap} {held : ScopeId},
    change before after → scope before held → scope after held
  valueLater : ∀ {before after : Heap} {held : Value},
    change before after → value before held → value after held
  /-- What is no declared function may be held anywhere. -/
  plain : ∀ {before : Heap} {found : Value},
    (∀ closure, ¬found.Captures closure) → value before found
  function : ∀ {before : Heap} {identity : Nat} {declaration : FunctionDecl} {closure : ScopeId},
    value before (.callable ⟨identity, .user declaration closure⟩) ↔
      scope before closure ∧ (strict → Stmt.AllMeaningful declaration.body)
  define : ∀ {before : Heap} {holder : ScopeId} {found : Value} (name : String),
    heap before → scope before holder → value before found →
      heap (before.define holder name found) ∧ change before (before.define holder name found)
  child : ∀ {before : Heap} {outer : ScopeId}, heap before → scope before outer →
    heap (before.child outer) ∧ change before (before.child outer) ∧
      scope (before.child outer) before.next
  resolve : ∀ {before : Heap} {inner holder : ScopeId} {name : String},
    heap before → scope before inner → before.resolve inner name = some holder →
      scope before holder
  get : ∀ {before : Heap} {inner : ScopeId} {name : String} {found : Value},
    heap before → scope before inner → before.get? inner name = some found → value before found

variable {keeps : Invariant}

namespace Invariant

/-- The invariant holds of the heap, and the current scope is one that code may hold. -/
structure Holds (keeps : Invariant) (machine : Machine) : Prop where
  heap : keeps.heap machine.heap
  current : keeps.scope machine.heap machine.current

def values (keeps : Invariant) (heap : Heap) (held : List Value) : Prop :=
  ∀ value ∈ held, keeps.value heap value

def flow (keeps : Invariant) (heap : Heap) : Flow → Prop
  | .normal => True
  | .broke => True
  | .returned value => keeps.value heap value

theorem bind_all {heap : Heap} {scope : ScopeId} {bindings : List (Token × Value)}
    (holds : keeps.heap heap) (held : keeps.scope heap scope)
    (fit : ∀ binding ∈ bindings, keeps.value heap binding.2) :
    keeps.heap (bindings.foldl
        (fun heap binding => heap.define scope binding.1.lexeme binding.2) heap) ∧
      keeps.change heap (bindings.foldl
        (fun heap binding => heap.define scope binding.1.lexeme binding.2) heap) := by
  induction bindings generalizing heap with
  | nil => exact ⟨holds, keeps.refl⟩
  | cons first rest ih =>
      obtain ⟨fits, others⟩ := List.forall_mem_cons.mp fit
      obtain ⟨defined, change⟩ := keeps.define first.1.lexeme holds held fits
      obtain ⟨after, further⟩ := ih defined (keeps.scopeLater change held)
        fun binding inside => keeps.valueLater change (others binding inside)
      exact ⟨after, keeps.trans change further⟩

end Invariant

namespace Outcome

variable {α β : Type}

/-- The step ends, if it does, with the invariant on a heap that has changed as it may, and with a
value that may be held. -/
def Keeps (keeps : Invariant) (fits : Heap → α → Prop) (before : Machine) (outcome : Outcome α) :
    Prop :=
  outcome.Meets
    (fun value after => (keeps.Holds after ∧ keeps.change before.heap after.heap) ∧
      fits after.heap value)
    (fun _ after => keeps.Holds after ∧ keeps.change before.heap after.heap)
    (¬keeps.strict)

theorem keeps_done {fits : Heap → α → Prop} {value : α} {machine : Machine}
    (holds : keeps.Holds machine) (held : fits machine.heap value) :
    (done value machine).Keeps keeps fits machine :=
  ⟨⟨holds, keeps.refl⟩, held⟩

theorem keeps_raised {fits : Heap → α → Prop} {error : RuntimeError} {machine : Machine}
    (holds : keeps.Holds machine) : (raised error machine : Outcome α).Keeps keeps fits machine :=
  ⟨holds, keeps.refl⟩

/-- A step that begins on a changed heap has changed the heap before as well. -/
theorem keeps_of_change {fits : Heap → α → Prop} {before machine : Machine} {outcome : Outcome α}
    (change : keeps.change before.heap machine.heap)
    (body : outcome.Keeps keeps fits machine) : outcome.Keeps keeps fits before := by
  apply meets_of_meets body
  · exact fun _ _ ended => ⟨⟨ended.1.1, keeps.trans change ended.1.2⟩, ended.2⟩
  · exact fun _ _ ended => ⟨ended.1, keeps.trans change ended.2⟩
  · exact id

theorem keeps_and_then {first : Heap → α → Prop} {second : Heap → β → Prop} {before : Machine}
    {outcome : Outcome α} {next : α → Machine → Outcome β}
    (body : outcome.Keeps keeps first before)
    (later : ∀ value machine, keeps.Holds machine → keeps.change before.heap machine.heap →
      first machine.heap value → (next value machine).Keeps keeps second machine) :
    (outcome.andThen next).Keeps keeps second before := by
  apply meets_and_then body
  rintro value machine - ⟨⟨holds, change⟩, fits⟩
  exact keeps_of_change change (later value machine holds change fits)

end Outcome

open Outcome

section Primitives

variable {machine : Machine}

theorem applied_keeps {applied : Applied} (site : Token) (holds : keeps.Holds machine)
    (plain : ∀ result, applied = .value result → ∀ closure, ¬result.Captures closure)
    (meaning : keeps.strict → applied ≠ .meaningless) :
    (applied.outcome site machine).Keeps keeps keeps.value machine := by
  cases applied with
  | value result => exact keeps_done holds (keeps.plain (plain result rfl))
  | error cause => exact keeps_raised holds
  | meaningless => exact fun strict => meaning strict rfl

theorem read_variable_keeps (name : Token) (holds : keeps.Holds machine) :
    (readVariable name machine).Keeps keeps keeps.value machine := by
  unfold readVariable
  split
  · rename_i value read
    exact keeps_done holds (keeps.get holds.heap holds.current read)
  · exact keeps_raised holds

theorem define_keeps {value : Value} (name : String) (holds : keeps.Holds machine)
    (fits : keeps.value machine.heap value) :
    keeps.Holds (machine.define name value) ∧
      keeps.change machine.heap (machine.define name value).heap := by
  obtain ⟨defined, change⟩ := keeps.define name holds.heap holds.current fits
  exact ⟨⟨defined, keeps.scopeLater change holds.current⟩, change⟩

theorem write_variable_keeps {value : Value} (name : Token) (holds : keeps.Holds machine)
    (fits : keeps.value machine.heap value) :
    (writeVariable name value machine).Keeps keeps keeps.value machine := by
  unfold writeVariable
  split
  · rename_i holder found
    obtain ⟨defined, change⟩ := keeps.define name.lexeme holds.heap
      (keeps.resolve holds.heap holds.current found) fits
    exact ⟨⟨⟨defined, keeps.scopeLater change holds.current⟩, change⟩,
      keeps.valueLater change fits⟩
  · exact keeps_raised holds

theorem declare_function_keeps {declaration : FunctionDecl} (holds : keeps.Holds machine)
    (meaningful : keeps.strict → Stmt.AllMeaningful declaration.body) :
    keeps.Holds (declareFunction declaration machine) ∧
      keeps.change machine.heap (declareFunction declaration machine).heap := by
  have fits : keeps.value machine.heap
      (.callable ⟨machine.nextIdentity, .user declaration machine.current⟩) :=
    keeps.function.mpr ⟨holds.current, meaningful⟩
  obtain ⟨defined, change⟩ := define_keeps declaration.name.lexeme holds fits
  exact ⟨⟨defined.heap, defined.current⟩, change⟩

theorem call_native_keeps (config : Config) (function : Native) (holds : keeps.Holds machine) :
    (callNative config function machine).Keeps keeps keeps.value machine := by
  cases function
  refine ⟨⟨⟨holds.heap, holds.current⟩, keeps.refl⟩, keeps.plain ?_⟩
  rintro closure ⟨identity, declaration, same⟩
  cases same

theorem opened_keeps {outer : ScopeId} (holds : keeps.Holds machine)
    (held : keeps.scope machine.heap outer) :
    keeps.Holds (machine.openScope outer) ∧
      keeps.change machine.heap (machine.openScope outer).heap ∧
      keeps.scope (machine.openScope outer).heap machine.heap.next := by
  obtain ⟨created, change, known⟩ := keeps.child holds.heap held
  exact ⟨⟨created, keeps.scopeLater change holds.current⟩, change, known⟩

/-- Values that were held are bound in a new scope inside the closure. -/
theorem bound_keeps {closure : ScopeId} {bindings : List (Token × Value)}
    (holds : keeps.Holds machine) (held : keeps.scope machine.heap closure)
    (fit : ∀ binding ∈ bindings, keeps.value machine.heap binding.2) :
    keeps.Holds ((machine.openScope closure).bindParameters machine.heap.next bindings) ∧
      keeps.change machine.heap
        ((machine.openScope closure).bindParameters machine.heap.next bindings).heap ∧
      keeps.scope ((machine.openScope closure).bindParameters machine.heap.next bindings).heap
        machine.heap.next := by
  obtain ⟨opened, change, known⟩ := opened_keeps holds held
  obtain ⟨bound, further⟩ := Invariant.bind_all opened.heap known
    fun binding listed => keeps.valueLater change (fit binding listed)
  exact ⟨⟨bound, keeps.scopeLater further opened.current⟩, keeps.trans change further,
    keeps.scopeLater further known⟩

/-- The body of a function begins with the arguments bound to the parameters. -/
theorem prepared_keeps {closure : ScopeId} {values : List Value} (declaration : FunctionDecl)
    (holds : keeps.Holds machine) (held : keeps.scope machine.heap closure)
    (fit : keeps.values machine.heap values) :
    keeps.Holds (machine.prepared declaration closure values) ∧
      keeps.change machine.heap (machine.prepared declaration closure values).heap ∧
      keeps.scope (machine.prepared declaration closure values).heap machine.heap.next :=
  bound_keeps holds held fun binding listed => fit binding.2 (List.of_mem_zip listed).2

end Primitives

/-- All parts of the evaluator keep the invariant when they are given `units` of budget. -/
structure KeptWith (keeps : Invariant) (config : Config) (units : Nat) : Prop where
  evaluate : ∀ expression machine, (keeps.strict → expression.Meaningful) →
    keeps.Holds machine →
    (evaluate config units expression machine).Keeps keeps keeps.value machine
  evaluateAll : ∀ expressions machine, (keeps.strict → Expr.AllMeaningful expressions) →
    keeps.Holds machine →
    (evaluateAll config units expressions machine).Keeps keeps keeps.values machine
  call : ∀ paren callee values machine, keeps.value machine.heap callee →
    keeps.values machine.heap values → keeps.Holds machine →
    (call config units paren callee values machine).Keeps keeps keeps.value machine
  invoke : ∀ callable values machine, keeps.value machine.heap (.callable callable) →
    keeps.values machine.heap values → keeps.Holds machine →
    (invoke config units callable values machine).Keeps keeps keeps.value machine
  execute : ∀ statement machine, (keeps.strict → statement.Meaningful) → keeps.Holds machine →
    (execute config units statement machine).Keeps keeps keeps.flow machine
  iterate : ∀ condition body machine, (keeps.strict → condition.Meaningful) →
    (keeps.strict → body.Meaningful) → keeps.Holds machine →
    (iterate config units condition body machine).Keeps keeps keeps.flow machine
  executeIn : ∀ body scope machine, (keeps.strict → Stmt.AllMeaningful body) →
    keeps.scope machine.heap scope → keeps.Holds machine →
    (executeIn config units body scope machine).Keeps keeps keeps.flow machine
  executeAll : ∀ body machine, (keeps.strict → Stmt.AllMeaningful body) → keeps.Holds machine →
    (executeAll config units body machine).Keeps keeps keeps.flow machine

namespace KeptWith

variable {config : Config} {units : Nat}

theorem evaluate_succ (below : KeptWith keeps config units) (expression : Expr) (machine : Machine)
    (meaningful : keeps.strict → expression.Meaningful) (holds : keeps.Holds machine) :
    (Treewalk.evaluate config (units + 1) expression machine).Keeps keeps keeps.value machine := by
  cases expression with
  | literal value line location => exact keeps_done holds (keeps.plain (not_captures_literal value))
  | grouping inner location => exact below.evaluate inner machine meaningful holds
  | unary operator operand =>
      apply keeps_and_then (below.evaluate operand machine (fun s => (meaningful s).2) holds)
      intro value after holds _ _
      apply applied_keeps operator holds fun _ => apply_unary_captures _ _
      intro _ meaningless
      have plain := apply_unary_plain operator.kind value
      rw [meaningless] at plain
      exact plain
  | binary left operator right =>
      apply keeps_and_then (below.evaluate left machine (fun s => (meaningful s).2.1) holds)
      intro first between holds _ _
      apply keeps_and_then (below.evaluate right between (fun s => (meaningful s).2.2) holds)
      intro second after holds _ _
      apply applied_keeps operator holds fun _ => apply_binary_captures _ _ _
      intro strict meaningless
      have plain := apply_binary_plain first second (meaningful strict).1
      rw [meaningless] at plain
      exact plain
  | logical left operator right =>
      apply keeps_and_then (below.evaluate left machine (fun s => (meaningful s).2.1) holds)
      intro first between holds _ fits
      split
      · exact keeps_done holds fits
      · exact below.evaluate right between (fun s => (meaningful s).2.2) holds
  | reference name => exact read_variable_keeps name holds
  | assign name value =>
      apply keeps_and_then (below.evaluate value machine meaningful holds)
      intro result after holds _ fits
      exact write_variable_keeps name holds fits
  | call callee paren arguments =>
      apply keeps_and_then (below.evaluate callee machine (fun s => (meaningful s).1) holds)
      intro function between holds _ fits
      apply keeps_and_then
        (below.evaluateAll arguments between (fun s => (meaningful s).2) holds)
      intro values after holds change fit
      exact below.call paren function values after (keeps.valueLater change fits) fit holds

theorem evaluate_all_succ (below : KeptWith keeps config units) (expressions : List Expr)
    (machine : Machine) (meaningful : keeps.strict → Expr.AllMeaningful expressions)
    (holds : keeps.Holds machine) :
    (Treewalk.evaluateAll config (units + 1) expressions machine).Keeps keeps keeps.values
      machine := by
  cases expressions with
  | nil => exact keeps_done holds (List.forall_mem_nil _)
  | cons first rest =>
      apply keeps_and_then (below.evaluate first machine (fun s => (meaningful s).1) holds)
      intro value between holds _ fits
      apply keeps_and_then (below.evaluateAll rest between (fun s => (meaningful s).2) holds)
      intro values after holds change fit
      exact keeps_done holds (List.forall_mem_cons.mpr ⟨keeps.valueLater change fits, fit⟩)

theorem call_succ (below : KeptWith keeps config units) (paren : Token) (callee : Value)
    (values : List Value) (machine : Machine) (fits : keeps.value machine.heap callee)
    (fit : keeps.values machine.heap values) (holds : keeps.Holds machine) :
    (Treewalk.call config (units + 1) paren callee values machine).Keeps keeps keeps.value
      machine := by
  unfold Treewalk.call
  split
  · rename_i callable
    split
    · exact keeps_raised holds
    · split
      · exact keeps_raised holds
      · apply meets_on_exit
          (below.invoke callable values machine.enterCall fits fit ⟨holds.heap, holds.current⟩)
        · exact fun _ _ ended => ⟨⟨⟨ended.1.1.heap, ended.1.1.current⟩, ended.1.2⟩, ended.2⟩
        · exact fun _ _ ended => ⟨⟨ended.1.heap, ended.1.current⟩, ended.2⟩
  · exact keeps_raised holds

theorem invoke_succ (below : KeptWith keeps config units) (callable : Callable)
    (values : List Value) (machine : Machine)
    (fits : keeps.value machine.heap (.callable callable))
    (fit : keeps.values machine.heap values) (holds : keeps.Holds machine) :
    (Treewalk.invoke config (units + 1) callable values machine).Keeps keeps keeps.value
      machine := by
  obtain ⟨identity, code⟩ := callable
  cases code with
  | native function => exact call_native_keeps config function holds
  | user declaration closure =>
      obtain ⟨held, meaningful⟩ := keeps.function.mp fits
      obtain ⟨prepared, change, known⟩ := prepared_keeps declaration holds held fit
      apply keeps_and_then (keeps_of_change change
        (below.executeIn declaration.body machine.heap.next _ meaningful known prepared))
      intro flow after holds _ returned
      cases flow with
      | normal => exact keeps_done holds (keeps.plain not_captures_nil)
      | broke => exact keeps_done holds (keeps.plain not_captures_nil)
      | returned value => exact keeps_done holds returned

theorem execute_succ (below : KeptWith keeps config units) (statement : Stmt) (machine : Machine)
    (meaningful : keeps.strict → statement.Meaningful) (holds : keeps.Holds machine) :
    (Treewalk.execute config (units + 1) statement machine).Keeps keeps keeps.flow machine := by
  cases statement with
  | expression value =>
      apply keeps_and_then (below.evaluate value machine meaningful holds)
      intro _ after holds _ _
      exact keeps_done holds trivial
  | print keyword value =>
      apply keeps_and_then (below.evaluate value machine meaningful holds)
      intro result after holds _ _
      exact ⟨⟨⟨holds.heap, holds.current⟩, keeps.refl⟩, trivial⟩
  | declare name initial =>
      cases initial with
      | none => exact ⟨define_keeps name.lexeme holds (keeps.plain not_captures_nil), trivial⟩
      | some initial =>
          apply keeps_and_then (below.evaluate initial machine meaningful holds)
          intro value after holds _ fits
          exact ⟨define_keeps name.lexeme holds fits, trivial⟩
  | block body location =>
      obtain ⟨opened, change, known⟩ := opened_keeps holds holds.current
      exact keeps_of_change change
        (below.executeIn body machine.heap.next _ meaningful known opened)
  | ifThen keyword condition consequent =>
      apply keeps_and_then (below.evaluate condition machine (fun s => (meaningful s).1) holds)
      intro value after holds _ _
      split
      · exact below.execute consequent after (fun s => (meaningful s).2) holds
      · exact keeps_done holds trivial
  | ifElse keyword condition consequent alternative =>
      apply keeps_and_then (below.evaluate condition machine (fun s => (meaningful s).1) holds)
      intro value after holds _ _
      split
      · exact below.execute consequent after (fun s => (meaningful s).2.1) holds
      · exact below.execute alternative after (fun s => (meaningful s).2.2) holds
  | loop keyword condition body =>
      exact below.iterate condition body machine (fun s => (meaningful s).1)
        (fun s => (meaningful s).2) holds
  | function name parameters body =>
      exact ⟨declare_function_keeps holds meaningful, trivial⟩
  | returnValue keyword value =>
      cases value with
      | none => exact keeps_done holds (keeps.plain not_captures_nil)
      | some value =>
          apply keeps_and_then (below.evaluate value machine meaningful holds)
          intro result after holds _ fits
          exact keeps_done holds fits
  | breakLoop keyword => exact keeps_done holds trivial

theorem iterate_succ (below : KeptWith keeps config units) (condition : Expr) (body : Stmt)
    (machine : Machine) (asked : keeps.strict → condition.Meaningful)
    (repeated : keeps.strict → body.Meaningful) (holds : keeps.Holds machine) :
    (Treewalk.iterate config (units + 1) condition body machine).Keeps keeps keeps.flow
      machine := by
  apply keeps_and_then (below.evaluate condition machine asked holds)
  intro value between holds _ _
  split
  · apply keeps_and_then (below.execute body between repeated holds)
    intro flow after holds _ fits
    cases flow with
    | normal => exact below.iterate condition body after asked repeated holds
    | broke => exact keeps_done holds trivial
    | returned result => exact keeps_done holds fits
  · exact keeps_done holds trivial

/-- The scope that was current may still be held, since the heap has only changed as it may. -/
theorem execute_in_succ (below : KeptWith keeps config units) (body : List Stmt) (scope : ScopeId)
    (machine : Machine) (meaningful : keeps.strict → Stmt.AllMeaningful body)
    (held : keeps.scope machine.heap scope) (holds : keeps.Holds machine) :
    (Treewalk.executeIn config (units + 1) body scope machine).Keeps keeps keeps.flow machine := by
  apply meets_on_exit (below.executeAll body (machine.enter scope) meaningful ⟨holds.heap, held⟩)
  · exact fun _ _ ended =>
      ⟨⟨⟨ended.1.1.heap, keeps.scopeLater ended.1.2 holds.current⟩, ended.1.2⟩, ended.2⟩
  · exact fun _ _ ended => ⟨⟨ended.1.heap, keeps.scopeLater ended.2 holds.current⟩, ended.2⟩

theorem execute_all_succ (below : KeptWith keeps config units) (body : List Stmt)
    (machine : Machine) (meaningful : keeps.strict → Stmt.AllMeaningful body)
    (holds : keeps.Holds machine) :
    (Treewalk.executeAll config (units + 1) body machine).Keeps keeps keeps.flow machine := by
  cases body with
  | nil => exact keeps_done holds trivial
  | cons first rest =>
      apply keeps_and_then (below.execute first machine (fun s => (meaningful s).1) holds)
      intro flow after holds _ fits
      cases flow with
      | normal => exact below.executeAll rest after (fun s => (meaningful s).2) holds
      | broke => exact keeps_done holds trivial
      | returned value => exact keeps_done holds fits

end KeptWith

theorem kept_with (keeps : Invariant) (config : Config) (units : Nat) :
    KeptWith keeps config units := by
  induction units with
  | zero =>
      constructor
      all_goals intros
      all_goals trivial
  | succ units below =>
      constructor
      · exact below.evaluate_succ
      · exact below.evaluate_all_succ
      · exact below.call_succ
      · exact below.invoke_succ
      · exact below.execute_succ
      · exact below.iterate_succ
      · exact below.execute_in_succ
      · exact below.execute_all_succ

theorem interpret_keeps (keeps : Invariant) (config : Config) (units : Nat) (program : Program)
    {machine : Machine} (meaningful : keeps.strict → Stmt.AllMeaningful program)
    (holds : keeps.Holds machine) :
    (interpret config units program machine).Keeps keeps
      (fun heap shown => ∀ value, shown = some value → keeps.value heap value) machine := by
  have parts := kept_with keeps config units
  induction program using program_induction generalizing machine with
  | empty => exact keeps_done holds nofun
  | trailing value =>
      apply keeps_and_then (parts.evaluate value machine (fun s => (meaningful s).1) holds)
      intro result after holds _ fits
      refine keeps_done holds ?_
      rintro _ ⟨⟩
      exact fits
  | expression value rest inside ih =>
      rw [interpret_expression config units machine value inside]
      apply keeps_and_then (parts.evaluate value machine (fun s => (meaningful s).1) holds)
      intro _ after holds _ _
      exact ih (fun s => (meaningful s).2) holds
  | statement first rest other ih =>
      rw [interpret_statement config units machine rest other]
      apply keeps_and_then (parts.execute first machine (fun s => (meaningful s).1) holds)
      intro flow after holds _ _
      cases flow with
      | normal => exact ih (fun s => (meaningful s).2) holds
      | broke => exact keeps_done holds nofun
      | returned value => exact keeps_done holds nofun

/-- What evaluation keeps if the program comes from the parser: the operators of every function in
the heap have a meaning. -/
def Invariant.meaningful : Invariant where
  heap heap := heap.Stores fun declaration => Stmt.AllMeaningful declaration.body
  scope _ _ := True
  value _ value := value.Stores fun declaration => Stmt.AllMeaningful declaration.body
  change _ _ := True
  strict := True
  refl := trivial
  trans _ _ := trivial
  scopeLater _ held := held
  valueLater _ held := held
  plain free := fun identity declaration closure same =>
    absurd ⟨identity, declaration, same⟩ (free closure)
  function := by
    intro heap identity declaration closure
    constructor
    · exact fun held => ⟨trivial, fun _ => held identity declaration closure rfl⟩
    · rintro ⟨-, meaningful⟩ _ _ _ ⟨⟩
      exact meaningful trivial
  define name held _ fits := ⟨Heap.define_stores _ name fits held, trivial⟩
  child held _ := ⟨Heap.child_stores _ held, trivial, trivial⟩
  resolve _ _ _ := trivial
  get held _ read := Heap.get_stores held read

/-- The evaluator meets no operator without a meaning in a parsed program, checked or not. -/
theorem interpret_never_stuck (config : Config) (units : Nat) {program : Program}
    (meaningful : Stmt.AllMeaningful program) :
    interpret config units program Machine.initial ≠ .stuck := by
  intro stuck
  have kept := interpret_keeps .meaningful config units program (fun _ => meaningful)
    ⟨Machine.initial_stores, trivial⟩
  rw [stuck] at kept
  exact kept trivial

end Treewalk
