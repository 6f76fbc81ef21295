import Mathlib.Data.List.Find
import Treewalk.Proofs.Evaluation.Names

/-!
# Names declared outside of blocks

A statement declares names in the scope in which it runs only where no block is around the
declaration. So it adds no other names to this scope, and names that it does not add are looked up
as before.
-/

namespace Treewalk

set_option autoImplicit false

open Outcome

/-- The names that the statement declares outside of blocks, in branches and bodies of loops too. -/
def Stmt.bareNames : Stmt → List String
  | declare name _ => [name.lexeme]
  | function name _ _ => [name.lexeme]
  | ifThen _ _ consequent => consequent.bareNames
  | ifElse _ _ consequent alternative => consequent.bareNames ++ alternative.bareNames
  | loop _ _ body => body.bareNames
  | expression _ => []
  | print _ _ => []
  | block _ _ => []
  | returnValue _ _ => []
  | breakLoop _ => []

namespace Heap

structure AddsOnly (names : List String) (scope : ScopeId) (before after : Heap) : Prop where
  later : before.next ≤ after.next
  added : ∀ name, after.binds name scope = true → before.binds name scope = true ∨ name ∈ names

namespace AddsOnly

variable {names more : List String} {scope : ScopeId} {before between after : Heap}

theorem refl (heap : Heap) : heap.AddsOnly names scope heap :=
  ⟨Nat.le_refl _, fun _ => .inl⟩

theorem trans (first : before.AddsOnly names scope between)
    (second : between.AddsOnly names scope after) : before.AddsOnly names scope after := by
  refine ⟨Nat.le_trans first.later second.later, fun name bound => ?_⟩
  rcases second.added name bound with bound | listed
  · exact first.added name bound
  · exact .inr listed

theorem mono (adds : before.AddsOnly names scope after) (within : names ⊆ more) :
    before.AddsOnly more scope after :=
  ⟨adds.later, fun name bound => (adds.added name bound).imp_right fun listed => within listed⟩

theorem of_keeps (known : scope < before.next) (kept : before.KeepsNames ∅ after) :
    before.AddsOnly names scope after := by
  refine ⟨kept.later, fun name bound => .inl ?_⟩
  have same := kept.same scope known (Set.notMem_empty _)
  rw [← mem_names_in, ← same]
  exact bound

theorem define (heap : Heap) (scope : ScopeId) (name : String) (value : Value) :
    heap.AddsOnly [name] scope (heap.define scope name value) := by
  refine ⟨Nat.le_of_eq (heap.define_next scope name value).symm, fun other bound => ?_⟩
  obtain ⟨found, at_, binds⟩ := (Option.any_eq_true _ _).mp bound
  rw [define_here, Option.map_eq_some_iff] at at_
  obtain ⟨old, there, rfl⟩ := at_
  obtain ⟨binding, inside, same⟩ := List.any_eq_true.mp binds
  rcases mem_put inside with rfl | inside
  · exact .inr (List.mem_singleton.mpr (beq_iff_eq.mp same).symm)
  · exact .inl ((Option.any_eq_true _ _).mpr
      ⟨old, there, List.any_eq_true.mpr ⟨binding, inside, same⟩⟩)

end AddsOnly

end Heap

namespace Outcome

variable {α β : Type} {names more : List String} {before : Machine}

/-- However the step ends, the scope in which it began binds no new names but these. -/
def AddsOnly (names : List String) (before : Machine) (outcome : Outcome α) : Prop :=
  outcome.Meets (fun _ after => before.heap.AddsOnly names before.current after.heap)
    (fun _ after => before.heap.AddsOnly names before.current after.heap) True

theorem adds_of_keeps {outcome : Outcome α} (known : before.current < before.heap.next)
    (kept : outcome.KeepsNames ∅ before) : outcome.AddsOnly names before := by
  apply meets_of_meets kept
  · exact fun _ _ kept => .of_keeps known kept
  · exact fun _ _ kept => .of_keeps known kept
  · exact id

theorem AddsOnly.mono {outcome : Outcome α} (adds : outcome.AddsOnly names before)
    (within : names ⊆ more) : outcome.AddsOnly more before := by
  apply meets_of_meets adds
  · exact fun _ _ adds => adds.mono within
  · exact fun _ _ adds => adds.mono within
  · exact id

theorem adds_done (value : α) (machine : Machine) : (done value machine).AddsOnly names machine :=
  .refl _

theorem adds_in_place {outcome : Outcome α} {next : α → Machine → Outcome β}
    (restored : outcome.Restores before) (known : before.current < before.heap.next)
    (first : outcome.AddsOnly names before)
    (second : ∀ value after, after.current < after.heap.next →
      (next value after).AddsOnly names after) :
    (outcome.andThen next).AddsOnly names before := by
  apply meets_and_then first
  intro value after done adds
  rw [done] at restored
  have same : after.current = before.current := restored.current
  have further := second value after (same ▸ Nat.lt_of_lt_of_le known adds.later)
  unfold AddsOnly at further
  rw [same] at further
  apply meets_of_meets further
  · exact fun _ _ later => adds.trans later
  · exact fun _ _ later => adds.trans later
  · exact id

end Outcome

/-- With `units` of budget, statements add no names to the current scope but their bare ones. -/
structure AddsWith (config : Config) (units : Nat) : Prop where
  execute : ∀ statement machine, machine.current < machine.heap.next →
    (execute config units statement machine).AddsOnly statement.bareNames machine
  iterate : ∀ condition body machine, machine.current < machine.heap.next →
    (iterate config units condition body machine).AddsOnly body.bareNames machine

namespace AddsWith

variable {config : Config} {units : Nat}

theorem execute_succ (below : AddsWith config units) (statement : Stmt) (machine : Machine)
    (known : machine.current < machine.heap.next) :
    (Treewalk.execute config (units + 1) statement machine).AddsOnly statement.bareNames
      machine := by
  have restored := restores_with config units
  have kept := names_kept_with config units
  have asked : ∀ {names : List String} (expression : Expr),
      (Treewalk.evaluate config units expression machine).AddsOnly names machine :=
    fun expression => adds_of_keeps known (kept.evaluate ∅ expression machine)
  cases statement with
  | expression value =>
      apply adds_in_place (restored.evaluate value machine) known (asked value)
      exact fun _ after _ => adds_done _ after
  | print keyword value =>
      apply adds_in_place (restored.evaluate value machine) known (asked value)
      exact fun _ after _ => .refl _
  | declare name initial =>
      cases initial with
      | none => exact .define _ _ _ _
      | some initial =>
          apply adds_in_place (restored.evaluate initial machine) known (asked initial)
          exact fun value after _ => .define _ _ _ _
  | block body location => exact adds_of_keeps known (kept.block_succ body location machine)
  | ifThen keyword condition consequent =>
      apply adds_in_place (restored.evaluate condition machine) known (asked condition)
      intro value after still
      split
      · exact below.execute consequent after still
      · exact adds_done _ after
  | ifElse keyword condition consequent alternative =>
      apply adds_in_place (restored.evaluate condition machine) known (asked condition)
      intro value after still
      split
      · exact (below.execute consequent after still).mono (List.subset_append_left _ _)
      · exact (below.execute alternative after still).mono (List.subset_append_right _ _)
  | loop keyword condition body => exact below.iterate condition body machine known
  | function name parameters body => exact .define _ _ _ _
  | returnValue keyword value =>
      cases value with
      | none => exact adds_done _ machine
      | some value =>
          apply adds_in_place (restored.evaluate value machine) known (asked value)
          exact fun result after _ => adds_done _ after
  | breakLoop keyword => exact adds_done _ machine

theorem iterate_succ (below : AddsWith config units) (condition : Expr) (body : Stmt)
    (machine : Machine) (known : machine.current < machine.heap.next) :
    (Treewalk.iterate config (units + 1) condition body machine).AddsOnly body.bareNames
      machine := by
  have restored := restores_with config units
  apply adds_in_place (restored.evaluate condition machine) known
    (adds_of_keeps known ((names_kept_with config units).evaluate ∅ condition machine))
  intro value between still
  split
  · apply adds_in_place (restored.execute body between) still (below.execute body between still)
    intro flow after still
    cases flow with
    | normal => exact below.iterate condition body after still
    | broke => exact adds_done _ after
    | returned result => exact adds_done _ after
  · exact adds_done _ between

end AddsWith

theorem adds_with (config : Config) (units : Nat) : AddsWith config units := by
  induction units with
  | zero => exact ⟨fun _ _ _ => trivial, fun _ _ _ _ => trivial⟩
  | succ units below => exact ⟨below.execute_succ, below.iterate_succ⟩

namespace Heap

variable {before after : Heap} {scope : ScopeId} {name : String}

theorem resolve_unchanged (rooted : before.Rooted) (known : scope < before.next)
    (grown : before.Grown after)
    (added : ∀ other, other < before.next → after.binds name other = before.binds name other) :
    after.resolve scope name = before.resolve scope name := by
  obtain ⟨chain, founded⟩ := rooted.founded known
  have later := grown.founded founded
  unfold resolve
  rw [later.finds name _ later.short, founded.finds name _ founded.short]
  apply List.find?_congr
  intro other inside
  have older := (founded.leads.newer_first rooted).2 other inside
  exact added other (Nat.lt_of_le_of_lt older known)

theorem resolve_child (rooted : before.Rooted) (known : scope < before.next) (name : String) :
    (before.child scope).resolve before.next name = before.resolve scope name := by
  obtain ⟨chain, founded⟩ := rooted.founded known
  have outer : (before.child scope).Founded scope chain :=
    (Grown.child before scope).founded founded
  have leads : (before.child scope).Chain before.next (before.next :: chain) :=
    .inside (before.around_child scope) outer.leads
  have empty : (before.child scope).binds name before.next = false := by
    simp [binds, child, next, Scope.binds]
  unfold resolve
  rw [resolve_within_of_chain leads name, founded.finds name _ founded.short, List.find?_cons,
    empty]
  · apply List.find?_congr
    intro other inside
    have older := (founded.leads.newer_first rooted).2 other inside
    unfold binds
    rw [before.child_elsewhere (Nat.lt_of_le_of_lt older known)]
  · exact Nat.succ_le_succ (Nat.le_trans founded.short known)

end Heap

end Treewalk
