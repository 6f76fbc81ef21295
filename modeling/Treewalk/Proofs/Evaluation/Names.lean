import Mathlib.Data.Set.Insert
import Treewalk.Proofs.Evaluation.Growth
import Treewalk.Proofs.Evaluation.Restoration

/-!
# Where names are added

Code declares names in the scope that is current, and nowhere else: assignments only change what is
bound already, and parameters are bound in a scope that is made for the call. Blocks and calls make
another scope current, but a new one each. So of the scopes that exist when a step begins, only the
current one can come to bind more names, and only if the step is a statement and no block.
-/

namespace Treewalk

set_option autoImplicit false

open Outcome

namespace Heap

def namesIn (heap : Heap) (scope : ScopeId) : Set String :=
  {name | heap.binds name scope = true}

theorem mem_names_in {heap : Heap} {scope : ScopeId} {name : String} :
    name ∈ heap.namesIn scope ↔ heap.binds name scope = true :=
  Iff.rfl

section Changes

variable {heap : Heap} {scope holder : ScopeId} {name : String}

theorem names_in_eq {other : Heap} (same : heap.scopes[scope]? = other.scopes[scope]?) :
    heap.namesIn scope = other.namesIn scope := by
  unfold namesIn binds
  rw [same]

theorem binds_of_resolve (found : heap.resolve scope name = some holder) :
    heap.binds name holder = true := by
  rw [resolve, resolve_within_eq_find] at found
  exact List.find?_some found

theorem names_define_bound (bound : heap.binds name holder = true) (value : Value)
    (scope : ScopeId) : (heap.define holder name value).namesIn scope = heap.namesIn scope := by
  by_cases here : scope = holder
  · subst here
    obtain ⟨found, at_, binds⟩ := (Option.any_eq_true _ _).mp bound
    have after : ∀ other, (heap.define scope name value).binds other scope = found.binds other := by
      intro other
      rw [Heap.binds, define_here, at_, Option.map_some, Option.any_some, Bool.eq_iff_iff]
      constructor
      · intro later
        obtain ⟨binding, inside, same⟩ := List.any_eq_true.mp later
        rcases mem_put inside with rfl | inside
        · rw [← beq_iff_eq.mp same]
          exact binds
        · exact List.any_eq_true.mpr ⟨binding, inside, same⟩
      · exact binds_put_of_binds
    ext other
    rw [mem_names_in, mem_names_in, after, Heap.binds, at_]
    rfl
  · exact names_in_eq (heap.define_elsewhere name value here)

end Changes

/-- Scopes that existed bind the names that they bound, except for some that may get more. -/
structure KeepsNames (growing : Set ScopeId) (before after : Heap) : Prop where
  later : before.next ≤ after.next
  same : ∀ scope, scope < before.next → scope ∉ growing →
    after.namesIn scope = before.namesIn scope

namespace KeepsNames

variable {growing : Set ScopeId} {before between after : Heap} {scope : ScopeId} {name : String}

theorem refl (heap : Heap) : heap.KeepsNames growing heap :=
  ⟨Nat.le_refl _, fun _ _ _ => rfl⟩

theorem trans (first : before.KeepsNames growing between)
    (second : between.KeepsNames growing after) : before.KeepsNames growing after := by
  refine ⟨Nat.le_trans first.later second.later, fun scope known still => ?_⟩
  rw [second.same scope (Nat.lt_of_lt_of_le known first.later) still, first.same scope known still]

theorem define (inside : scope ∈ growing) (heap : Heap) (name : String) (value : Value) :
    heap.KeepsNames growing (heap.define scope name value) := by
  refine ⟨Nat.le_of_eq (heap.define_next scope name value).symm, fun other _ still => ?_⟩
  have different : other ≠ scope := fun same => still (same ▸ inside)
  exact names_in_eq (heap.define_elsewhere name value different)

theorem rebind {heap : Heap} (bound : heap.binds name scope = true) (value : Value) :
    heap.KeepsNames growing (heap.define scope name value) :=
  ⟨Nat.le_of_eq (heap.define_next scope name value).symm, fun other _ _ =>
    names_define_bound bound value other⟩

theorem child (heap : Heap) (enclosing : ScopeId) :
    heap.KeepsNames growing (heap.child enclosing) :=
  ⟨by simp, fun _ known _ => names_in_eq (heap.child_elsewhere known)⟩

theorem bind_all (inside : scope ∈ growing) (bindings : List (Token × Value)) (heap : Heap) :
    heap.KeepsNames growing (bindings.foldl
      (fun heap binding => heap.define scope binding.1.lexeme binding.2) heap) := by
  induction bindings generalizing heap with
  | nil => exact .refl heap
  | cons first rest ih => exact .trans (.define inside heap _ _) (ih _)

theorem of_fresh (fresh : before.next ≤ scope)
    (kept : before.KeepsNames (insert scope growing) after) : before.KeepsNames growing after := by
  refine ⟨kept.later, fun other known still => kept.same other known ?_⟩
  rintro (rfl | inside)
  · exact absurd known (Nat.not_lt.mpr fresh)
  · exact still inside

end KeepsNames

end Heap

namespace Outcome

variable {α β : Type} {growing : Set ScopeId} {before machine : Machine}

/-- However the step ends, scopes that existed bind what they bound, except for the growing ones. -/
def KeepsNames (growing : Set ScopeId) (before : Machine) (outcome : Outcome α) : Prop :=
  outcome.Meets (fun _ after => before.heap.KeepsNames growing after.heap)
    (fun _ after => before.heap.KeepsNames growing after.heap) True

theorem names_done (value : α) (machine : Machine) :
    (done value machine).KeepsNames growing machine :=
  .refl _

theorem names_raised (error : RuntimeError) (machine : Machine) :
    (raised error machine : Outcome α).KeepsNames growing machine :=
  .refl _

theorem names_behind {outcome : Outcome α}
    (earlier : before.heap.KeepsNames growing machine.heap)
    (kept : outcome.KeepsNames growing machine) : outcome.KeepsNames growing before := by
  apply meets_of_meets kept
  · exact fun _ _ later => earlier.trans later
  · exact fun _ _ later => earlier.trans later
  · exact id

theorem names_and_then {outcome : Outcome α} {next : α → Machine → Outcome β}
    (first : outcome.KeepsNames growing before)
    (second : ∀ value after, (next value after).KeepsNames growing after) :
    (outcome.andThen next).KeepsNames growing before := by
  apply meets_and_then first
  intro value after _ kept
  exact names_behind kept (second value after)

theorem names_in_place {outcome : Outcome α} {next : α → Machine → Outcome β}
    (restored : outcome.Restores before) (first : outcome.KeepsNames growing before)
    (here : before.current ∈ growing)
    (second : ∀ value after, after.current ∈ growing →
      (next value after).KeepsNames growing after) :
    (outcome.andThen next).KeepsNames growing before := by
  apply meets_and_then first
  intro value after done kept
  rw [done] at restored
  have same : before.SamePlace after := restored
  exact names_behind kept (second value after (same.current ▸ here))

theorem KeepsNames.heap {outcome : Outcome α} {after : Machine}
    (kept : outcome.KeepsNames growing before) (ended : outcome.EndsIn after) :
    before.heap.KeepsNames growing after.heap :=
  machine_of_meets kept ended

end Outcome

section Primitives

variable {growing : Set ScopeId}

theorem applied_names (applied : Applied) (site : Token) (machine : Machine) :
    (applied.outcome site machine).KeepsNames growing machine := by
  cases applied with
  | value result => exact names_done result machine
  | error cause => exact names_raised _ machine
  | meaningless => trivial

theorem read_variable_names (name : Token) (machine : Machine) :
    (readVariable name machine).KeepsNames growing machine := by
  unfold readVariable
  split
  · exact names_done _ machine
  · exact names_raised _ machine

theorem write_variable_names (name : Token) (value : Value) (machine : Machine) :
    (writeVariable name value machine).KeepsNames growing machine := by
  unfold writeVariable
  split
  · rename_i holder found
    exact .rebind (Heap.binds_of_resolve found) value
  · exact names_raised _ machine

theorem call_native_names (config : Config) (function : Native) (machine : Machine) :
    (callNative config function machine).KeepsNames growing machine := by
  cases function
  exact .refl _

end Primitives

/-- With `units` of budget, expressions add no names to scopes that existed, and statements add
names to the current scope only. -/
structure NamesKeptWith (config : Config) (units : Nat) : Prop where
  evaluate : ∀ growing expression machine,
    (evaluate config units expression machine).KeepsNames growing machine
  evaluateAll : ∀ growing expressions machine,
    (evaluateAll config units expressions machine).KeepsNames growing machine
  call : ∀ growing paren callee values machine,
    (call config units paren callee values machine).KeepsNames growing machine
  invoke : ∀ growing callable values machine,
    (invoke config units callable values machine).KeepsNames growing machine
  execute : ∀ growing statement machine, machine.current ∈ growing →
    (execute config units statement machine).KeepsNames growing machine
  iterate : ∀ growing condition body machine, machine.current ∈ growing →
    (iterate config units condition body machine).KeepsNames growing machine
  executeIn : ∀ growing body scope machine, scope ∈ growing →
    (executeIn config units body scope machine).KeepsNames growing machine
  executeAll : ∀ growing body machine, machine.current ∈ growing →
    (executeAll config units body machine).KeepsNames growing machine

namespace NamesKeptWith

variable {config : Config} {units : Nat} {growing : Set ScopeId}

theorem evaluate_succ (below : NamesKeptWith config units) (expression : Expr)
    (machine : Machine) :
    (Treewalk.evaluate config (units + 1) expression machine).KeepsNames growing machine := by
  cases expression with
  | literal value line location => exact names_done _ machine
  | grouping inner location => exact below.evaluate growing inner machine
  | unary operator operand =>
      apply names_and_then (below.evaluate growing operand machine)
      intro value after
      exact applied_names _ operator after
  | binary left operator right =>
      apply names_and_then (below.evaluate growing left machine)
      intro first between
      apply names_and_then (below.evaluate growing right between)
      intro second after
      exact applied_names _ operator after
  | logical left operator right =>
      apply names_and_then (below.evaluate growing left machine)
      intro first between
      split
      · exact names_done first between
      · exact below.evaluate growing right between
  | reference name => exact read_variable_names name machine
  | assign name value =>
      apply names_and_then (below.evaluate growing value machine)
      intro result after
      exact write_variable_names name result after
  | call callee paren arguments =>
      apply names_and_then (below.evaluate growing callee machine)
      intro function between
      apply names_and_then (below.evaluateAll growing arguments between)
      intro values after
      exact below.call growing paren function values after

theorem evaluate_all_succ (below : NamesKeptWith config units) (expressions : List Expr)
    (machine : Machine) :
    (Treewalk.evaluateAll config (units + 1) expressions machine).KeepsNames growing machine := by
  cases expressions with
  | nil => exact names_done [] machine
  | cons first rest =>
      apply names_and_then (below.evaluate growing first machine)
      intro value between
      apply names_and_then (below.evaluateAll growing rest between)
      intro values after
      exact names_done _ after

theorem call_succ (below : NamesKeptWith config units) (paren : Token) (callee : Value)
    (values : List Value) (machine : Machine) :
    (Treewalk.call config (units + 1) paren callee values machine).KeepsNames growing machine := by
  unfold Treewalk.call
  split
  · split
    · exact names_raised _ machine
    · split
      · exact names_raised _ machine
      · rename_i callable _ _
        apply meets_on_exit (below.invoke growing callable values machine.enterCall)
        · exact fun _ _ kept => kept
        · exact fun _ _ kept => kept
  · exact names_raised _ machine

/-- The scope of a call is new: its parameters and variables are of no concern to older scopes. -/
theorem invoke_succ (below : NamesKeptWith config units) (callable : Callable)
    (values : List Value) (machine : Machine) :
    (Treewalk.invoke config (units + 1) callable values machine).KeepsNames growing machine := by
  rcases callable with ⟨identity, code⟩
  cases code with
  | native function => exact call_native_names config function machine
  | user declaration closure =>
      have made : machine.heap.KeepsNames (insert machine.heap.next growing)
          (machine.prepared declaration closure values).heap :=
        .trans (.child _ closure) (.bind_all (Set.mem_insert _ _) _ _)
      have body := names_behind made (below.executeIn (insert machine.heap.next growing)
        declaration.body machine.heap.next _ (Set.mem_insert _ _))
      have older : (Treewalk.executeIn config units declaration.body machine.heap.next
          (machine.prepared declaration closure values)).KeepsNames growing machine := by
        apply meets_of_meets body
        · exact fun _ _ kept => kept.of_fresh (Nat.le_refl _)
        · exact fun _ _ kept => kept.of_fresh (Nat.le_refl _)
        · exact id
      apply names_and_then older
      intro flow after
      cases flow with
      | normal => exact names_done _ after
      | broke => exact names_done _ after
      | returned value => exact names_done value after

theorem block_succ (below : NamesKeptWith config units) (body : List Stmt) (location : Span)
    (machine : Machine) :
    (Treewalk.execute config (units + 1) (.block body location) machine).KeepsNames growing
      machine := by
  have made : machine.heap.KeepsNames (insert machine.heap.next growing)
      (machine.openScope machine.current).heap := .child _ _
  apply meets_of_meets (names_behind made (below.executeIn (insert machine.heap.next growing) body
    machine.heap.next _ (Set.mem_insert _ _)))
  · exact fun _ _ kept => kept.of_fresh (Nat.le_refl _)
  · exact fun _ _ kept => kept.of_fresh (Nat.le_refl _)
  · exact id

theorem execute_succ (below : NamesKeptWith config units) (statement : Stmt) (machine : Machine)
    (here : machine.current ∈ growing) :
    (Treewalk.execute config (units + 1) statement machine).KeepsNames growing machine := by
  have restored := restores_with config units
  cases statement with
  | expression value =>
      apply names_and_then (below.evaluate growing value machine)
      intro _ after
      exact names_done _ after
  | print keyword value =>
      apply names_and_then (below.evaluate growing value machine)
      intro result after
      exact .refl _
  | declare name initial =>
      cases initial with
      | none => exact .define here _ _ _
      | some initial =>
          apply names_in_place (restored.evaluate initial machine)
            (below.evaluate growing initial machine) here
          intro value after still
          exact .define still _ _ _
  | block body location => exact below.block_succ body location machine
  | ifThen keyword condition consequent =>
      apply names_in_place (restored.evaluate condition machine)
        (below.evaluate growing condition machine) here
      intro value after still
      split
      · exact below.execute growing consequent after still
      · exact names_done _ after
  | ifElse keyword condition consequent alternative =>
      apply names_in_place (restored.evaluate condition machine)
        (below.evaluate growing condition machine) here
      intro value after still
      split
      · exact below.execute growing consequent after still
      · exact below.execute growing alternative after still
  | loop keyword condition body => exact below.iterate growing condition body machine here
  | function name parameters body => exact .define here _ _ _
  | returnValue keyword value =>
      cases value with
      | none => exact names_done _ machine
      | some value =>
          apply names_and_then (below.evaluate growing value machine)
          intro result after
          exact names_done _ after
  | breakLoop keyword => exact names_done _ machine

theorem iterate_succ (below : NamesKeptWith config units) (condition : Expr) (body : Stmt)
    (machine : Machine) (here : machine.current ∈ growing) :
    (Treewalk.iterate config (units + 1) condition body machine).KeepsNames growing machine := by
  have restored := restores_with config units
  apply names_in_place (restored.evaluate condition machine)
    (below.evaluate growing condition machine) here
  intro value between still
  split
  · apply names_in_place (restored.execute body between) (below.execute growing body between still)
      still
    intro flow after still
    cases flow with
    | normal => exact below.iterate growing condition body after still
    | broke => exact names_done _ after
    | returned result => exact names_done _ after
  · exact names_done _ between

theorem execute_in_succ (below : NamesKeptWith config units) (body : List Stmt) (scope : ScopeId)
    (machine : Machine) (inside : scope ∈ growing) :
    (Treewalk.executeIn config (units + 1) body scope machine).KeepsNames growing machine := by
  apply meets_on_exit (below.executeAll growing body (machine.enter scope) inside)
  · exact fun _ _ kept => kept
  · exact fun _ _ kept => kept

theorem execute_all_succ (below : NamesKeptWith config units) (body : List Stmt)
    (machine : Machine) (here : machine.current ∈ growing) :
    (Treewalk.executeAll config (units + 1) body machine).KeepsNames growing machine := by
  cases body with
  | nil => exact names_done _ machine
  | cons first rest =>
      apply names_in_place ((restores_with config units).execute first machine)
        (below.execute growing first machine here) here
      intro flow after still
      cases flow with
      | normal => exact below.executeAll growing rest after still
      | broke => exact names_done _ after
      | returned value => exact names_done _ after

end NamesKeptWith

theorem names_kept_with (config : Config) (units : Nat) : NamesKeptWith config units := by
  induction units with
  | zero =>
      constructor
      all_goals intros
      all_goals trivial
  | succ units below =>
      constructor
      · exact fun _ => below.evaluate_succ
      · exact fun _ => below.evaluate_all_succ
      · exact fun _ => below.call_succ
      · exact fun _ => below.invoke_succ
      · exact fun _ => below.execute_succ
      · exact fun _ => below.iterate_succ
      · exact fun _ => below.execute_in_succ
      · exact fun _ => below.execute_all_succ

theorem block_names (config : Config) (units : Nat) (body : List Stmt) (location : Span)
    (machine : Machine) :
    (execute config units (.block body location) machine).KeepsNames ∅ machine := by
  cases units with
  | zero => trivial
  | succ units => exact (names_kept_with config units).block_succ body location machine

/-- However a step ends, with any flow or with an error: an expression, a call or a block leaves
every scope that existed with the names that it bound, and any other statement leaves all but the
current one with these, which keeps its names and may get more. -/
theorem names_added_to_current_scope_only (config : Config) (units : Nat) (machine : Machine) :
    (∀ expression after, (evaluate config units expression machine).EndsIn after →
      ∀ scope, scope < machine.heap.next →
        after.heap.namesIn scope = machine.heap.namesIn scope) ∧
    (∀ paren callee values after, (call config units paren callee values machine).EndsIn after →
      ∀ scope, scope < machine.heap.next →
        after.heap.namesIn scope = machine.heap.namesIn scope) ∧
    (∀ body location after, (execute config units (.block body location) machine).EndsIn after →
      ∀ scope, scope < machine.heap.next →
        after.heap.namesIn scope = machine.heap.namesIn scope) ∧
    (∀ statement after, (execute config units statement machine).EndsIn after →
      machine.heap.namesIn machine.current ⊆ after.heap.namesIn machine.current ∧
      ∀ scope, scope < machine.heap.next → scope ≠ machine.current →
        after.heap.namesIn scope = machine.heap.namesIn scope) := by
  have parts := names_kept_with config units
  refine ⟨?_, ?_, ?_, ?_⟩
  · intro expression after ended scope known
    exact ((parts.evaluate ∅ expression machine).heap ended).same scope known (Set.notMem_empty _)
  · intro paren callee values after ended scope known
    exact ((parts.call ∅ paren callee values machine).heap ended).same scope known
      (Set.notMem_empty _)
  · intro body location after ended scope known
    exact ((block_names config units body location machine).heap ended).same scope known
      (Set.notMem_empty _)
  · intro statement after ended
    constructor
    · have grown : machine.heap.Grown after.heap :=
        machine_of_meets (execute_grows statement) ended
      exact fun name bound => grown.names machine.current name bound
    · have kept := (parts.execute {machine.current} statement machine rfl).heap ended
      exact fun scope known different => kept.same scope known different

/-- A block calls a function that binds a parameter and a variable, assigns to a global one and
fails: the new names are in the scope of the call, and the global scope has the names that it had.
-/
theorem names_added_to_current_scope_only_failed_call :
    ∃ machine statement error after, machine.heap.get? 0 "g" = some .nil ∧
      execute ⟨4, fun _ => 0⟩ 16 statement machine = .raised error after ∧
      (after.heap.get? 0 "g").any Value.isTruthy = true ∧
      "a" ∈ after.heap.namesIn 2 ∧ "y" ∈ after.heap.namesIn 2 ∧
      after.heap.namesIn 0 = machine.heap.namesIn 0 := by
  let name (lexeme : String) : Token := ⟨.identifier, lexeme, none, 1, ⟨0, 0⟩⟩
  let machine := Machine.initial.define "g" .nil
  let body : List Stmt :=
    [.declare (name "y") (some (.reference (name "a"))),
      .expression (.assign (name "g") (.reference (name "y"))),
      .expression (.call (.reference (name "g")) (name ")") [])]
  let call : Expr :=
    .call (.reference (name "f")) (name ")") [.literal (.boolean true) 1 ⟨0, 0⟩]
  let statement : Stmt :=
    .block [.function (name "f") [name "a"] body, .expression call] ⟨0, 0⟩
  have ran : (match execute ⟨4, fun _ => 0⟩ 16 statement machine with
      | .raised _ after => (after.heap.get? 0 "g").any Value.isTruthy &&
          (after.heap.binds "a" 2 && after.heap.binds "y" 2)
      | _ => false) = true := by
    decide +kernel
  split at ran
  · rename_i error after failed
    simp only [Bool.and_eq_true] at ran
    obtain ⟨changed, parameter, declared⟩ := ran
    obtain ⟨-, -, blocks, -⟩ := names_added_to_current_scope_only ⟨4, fun _ => 0⟩ 16 machine
    have same := blocks _ _ after (.inr ⟨error, failed⟩) 0 (by decide)
    exact ⟨machine, statement, error, after, rfl, failed, changed, parameter, declared, same⟩
  · cases ran

end Treewalk
