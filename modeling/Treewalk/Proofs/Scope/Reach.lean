import Mathlib.Logic.Relation
import Treewalk.Scope

/-!
# Scopes within reach

From a scope one comes to the scope around it and to the scopes in which the functions that it binds
were declared. Creating a scope and binding a name add no more links than those of the new scope and
of the new value, and a name is looked up within reach.
-/

namespace Treewalk

set_option autoImplicit false

def Value.Captures (value : Value) (closure : ScopeId) : Prop :=
  ∃ identity declaration, value = .callable ⟨identity, .user declaration closure⟩

theorem not_captures_literal (literal : Literal) (closure : ScopeId) :
    ¬(Value.ofLiteral literal).Captures closure := by
  rintro ⟨identity, declaration, same⟩
  cases literal <;> cases same

theorem not_captures_nil (closure : ScopeId) : ¬Value.nil.Captures closure := by
  rintro ⟨identity, declaration, same⟩
  cases same

namespace Heap

inductive Link (heap : Heap) : ScopeId → ScopeId → Prop where
  | enclosing {inner outer : ScopeId} {scope : Scope} (found : heap.scopes[inner]? = some scope)
      (around : scope.enclosing = some outer) : Link heap inner outer
  | closure {holder closure : ScopeId} {scope : Scope} {binding : String × Value}
      (found : heap.scopes[holder]? = some scope) (bound : binding ∈ scope.bindings)
      (captured : binding.2.Captures closure) : Link heap holder closure

/-- One scope leads to another over any number of links. -/
def Reaches (heap : Heap) : ScopeId → ScopeId → Prop :=
  Relation.ReflTransGen heap.Link

@[simp]
theorem define_next (heap : Heap) (scope : ScopeId) (name : String) (value : Value) :
    (heap.define scope name value).next = heap.next := by
  simp [Heap.define, Heap.next]

@[simp]
theorem child_next (heap : Heap) (enclosing : ScopeId) :
    (heap.child enclosing).next = heap.next + 1 := by
  simp [Heap.child, Heap.next]

theorem define_here (heap : Heap) (scope : ScopeId) (name : String) (value : Value) :
    (heap.define scope name value).scopes[scope]? =
      (heap.scopes[scope]?).map fun found => found.define name value := by
  rw [Heap.define, Array.getElem?_modify, if_pos rfl]

theorem define_elsewhere (heap : Heap) {scope other : ScopeId} (name : String) (value : Value)
    (different : other ≠ scope) :
    (heap.define scope name value).scopes[other]? = heap.scopes[other]? := by
  rw [Heap.define, Array.getElem?_modify, if_neg different.symm]

theorem child_elsewhere (heap : Heap) {enclosing other : ScopeId} (earlier : other < heap.next) :
    (heap.child enclosing).scopes[other]? = heap.scopes[other]? := by
  have notFresh : other ≠ heap.scopes.size := Nat.ne_of_lt earlier
  rw [Heap.child, Array.getElem?_push, if_neg notFresh]

/-- A binding that is there after a value was put is the new one or was there before. -/
theorem mem_put {name : String} {value : Value} {bindings : List (String × Value)}
    {binding : String × Value} (found : binding ∈ Scope.put name value bindings) :
    binding = (name, value) ∨ binding ∈ bindings := by
  induction bindings with
  | nil => exact .inl (List.mem_singleton.mp found)
  | cons first rest ih =>
      unfold Scope.put at found
      split at found
      · rcases List.mem_cons.mp found with same | inside
        · exact .inl same
        · exact .inr (List.mem_cons_of_mem first inside)
      · rcases List.mem_cons.mp found with same | inside
        · exact .inr (List.mem_cons.mpr (.inl same))
        · exact (ih inside).imp_right (List.mem_cons_of_mem first)

/-- Binding a name adds the link to the scope that the value captures, and no other. -/
theorem link_of_define {heap : Heap} {scope inner outer : ScopeId} {name : String} {value : Value}
    (link : (heap.define scope name value).Link inner outer) :
    heap.Link inner outer ∨ inner = scope ∧ value.Captures outer := by
  by_cases here : scope = inner
  · subst here
    cases link with
    | enclosing found around =>
        rw [define_here, Option.map_eq_some_iff] at found
        obtain ⟨old, found, rfl⟩ := found
        exact .inl (.enclosing found around)
    | closure found bound captured =>
        rw [define_here, Option.map_eq_some_iff] at found
        obtain ⟨old, found, rfl⟩ := found
        rcases mem_put bound with rfl | inside
        · exact .inr ⟨rfl, captured⟩
        · exact .inl (.closure found inside captured)
  · left
    cases link with
    | enclosing found around =>
        rw [define_elsewhere heap name value (Ne.symm here)] at found
        exact .enclosing found around
    | closure found bound captured =>
        rw [define_elsewhere heap name value (Ne.symm here)] at found
        exact .closure found bound captured

theorem link_of_child {heap : Heap} {enclosing inner outer : ScopeId}
    (link : (heap.child enclosing).Link inner outer) :
    heap.Link inner outer ∨ inner = heap.next ∧ outer = enclosing := by
  cases link with
  | enclosing found around =>
      rw [Heap.child, Array.getElem?_push] at found
      split at found
      · rename_i fresh
        cases found
        cases around
        exact .inr ⟨fresh, rfl⟩
      · exact .inl (.enclosing found around)
  | closure found bound captured =>
      rw [Heap.child, Array.getElem?_push] at found
      split at found
      · cases found
        cases bound
      · exact .inl (.closure found bound captured)

theorem reaches_of_resolve_within {heap : Heap} {name : String} {count : Nat}
    {scope holder : ScopeId} (found : heap.resolveWithin name count scope = some holder) :
    heap.Reaches scope holder := by
  induction count generalizing scope with
  | zero => cases found
  | succ count ih =>
      unfold resolveWithin at found
      split at found
      · cases found
      · rename_i inner here
        split at found
        · cases found
          exact .refl
        · split at found
          · cases found
          · rename_i outer around
            exact .head (.enclosing here around) (ih found)

theorem reaches_of_resolve {heap : Heap} {scope holder : ScopeId} {name : String}
    (found : heap.resolve scope name = some holder) : heap.Reaches scope holder :=
  reaches_of_resolve_within found

theorem reaches_of_get {heap : Heap} {scope closure : ScopeId} {name : String} {value : Value}
    (read : heap.get? scope name = some value) (captured : value.Captures closure) :
    heap.Reaches scope closure := by
  unfold Heap.get? at read
  rw [Option.bind_eq_bind, Option.bind_eq_some_iff] at read
  obtain ⟨holder, resolved, read⟩ := read
  rw [Option.bind_eq_bind, Option.bind_eq_some_iff] at read
  obtain ⟨found, here, read⟩ := read
  unfold Scope.find? at read
  rw [Option.map_eq_some_iff] at read
  obtain ⟨binding, first, rfl⟩ := read
  exact .tail (reaches_of_resolve resolved)
    (.closure here (List.mem_of_find?_eq_some first) captured)

end Heap

end Treewalk
