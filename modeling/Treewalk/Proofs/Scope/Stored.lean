import Treewalk.Evaluation

/-!
# Functions stored in a machine

A declared function can be stored anywhere in the heap and be called much later. `Machine.Stores`
says of a property of declarations that every function in the heap has it; creating scopes and
binding values that have it keep it, and what is read has it.
-/

namespace Treewalk

set_option autoImplicit false

def Value.Stores (good : FunctionDecl → Prop) (value : Value) : Prop :=
  ∀ identity declaration closure,
    value = .callable ⟨identity, .user declaration closure⟩ → good declaration

def Scope.Stores (good : FunctionDecl → Prop) (scope : Scope) : Prop :=
  ∀ binding ∈ scope.bindings, binding.2.Stores good

def Heap.Stores (good : FunctionDecl → Prop) (heap : Heap) : Prop :=
  ∀ (index : ScopeId) (scope : Scope), heap.scopes[index]? = some scope → scope.Stores good

def Machine.Stores (good : FunctionDecl → Prop) (machine : Machine) : Prop :=
  machine.heap.Stores good

variable {good : FunctionDecl → Prop}

theorem stores_of_literal (literal : Literal) : (Value.ofLiteral literal).Stores good := by
  intro identity declaration closure same
  cases literal <;> cases same

theorem stores_nil : Value.nil.Stores good := by
  intro identity declaration closure same
  cases same

theorem stores_native (identity : Nat) (function : Native) :
    (Value.callable ⟨identity, .native function⟩).Stores good := by
  intro other declaration closure same
  cases same

theorem put_stores {name : String} {value : Value} {bindings : List (String × Value)}
    (fits : value.Stores good) (held : ∀ binding ∈ bindings, binding.2.Stores good) :
    ∀ binding ∈ Scope.put name value bindings, binding.2.Stores good := by
  induction bindings with
  | nil =>
      intro binding found
      rw [Scope.put, List.mem_singleton] at found
      rw [found]
      exact fits
  | cons first rest ih =>
      intro binding found
      have heldFirst := held first List.mem_cons_self
      have heldRest : ∀ binding ∈ rest, binding.2.Stores good :=
        fun binding inside => held binding (List.mem_cons_of_mem first inside)
      unfold Scope.put at found
      split at found
      · rcases List.mem_cons.mp found with rfl | inside
        · exact fits
        · exact heldRest binding inside
      · rcases List.mem_cons.mp found with rfl | inside
        · exact heldFirst
        · exact ih heldRest binding inside

namespace Heap

theorem define_stores {heap : Heap} {value : Value} (scope : ScopeId) (name : String)
    (fits : value.Stores good) (held : heap.Stores good) :
    (heap.define scope name value).Stores good := by
  intro index found at_
  rw [Heap.define, Array.getElem?_modify] at at_
  split at at_
  · rw [Option.map_eq_some_iff] at at_
    obtain ⟨old, at_, rfl⟩ := at_
    exact put_stores fits (held index old at_)
  · exact held index found at_

theorem child_stores {heap : Heap} (enclosing : ScopeId) (held : heap.Stores good) :
    (heap.child enclosing).Stores good := by
  intro index found at_
  rw [Heap.child, Array.getElem?_push] at at_
  split at at_
  · cases at_
    intro binding inside
    cases inside
  · exact held index found at_

theorem get_stores {heap : Heap} {scope : ScopeId} {name : String} {value : Value}
    (held : heap.Stores good) (read : heap.get? scope name = some value) :
    value.Stores good := by
  unfold Heap.get? at read
  rw [Option.bind_eq_bind, Option.bind_eq_some_iff] at read
  obtain ⟨holder, -, read⟩ := read
  rw [Option.bind_eq_bind, Option.bind_eq_some_iff] at read
  obtain ⟨found, at_, read⟩ := read
  unfold Scope.find? at read
  rw [Option.map_eq_some_iff] at read
  obtain ⟨binding, first, rfl⟩ := read
  exact held holder found at_ binding (List.mem_of_find?_eq_some first)

end Heap

namespace Machine

theorem initial_stores : initial.Stores good := by
  have empty : Heap.initial.Stores good := by
    intro index found at_ binding inside
    have single : found.bindings = [] := by
      cases index with
      | zero =>
          cases at_
          rfl
      | succ index => simp [Heap.initial] at at_
    rw [single] at inside
    cases inside
  exact Heap.define_stores Heap.global _ (stores_native 0 .clock) empty

theorem define_stores {machine : Machine} {value : Value} (name : String)
    (fits : value.Stores good) (held : machine.Stores good) :
    (machine.define name value).Stores good :=
  Heap.define_stores machine.current name fits held

theorem open_scope_stores {machine : Machine} (enclosing : ScopeId) (held : machine.Stores good) :
    (machine.openScope enclosing).Stores good :=
  Heap.child_stores enclosing held

theorem bind_parameters_stores {machine : Machine} {bindings : List (Token × Value)}
    (scope : ScopeId) (fits : ∀ binding ∈ bindings, binding.2.Stores good)
    (held : machine.Stores good) : (machine.bindParameters scope bindings).Stores good := by
  unfold Machine.bindParameters Machine.Stores at *
  generalize machine.heap = heap at held ⊢
  induction bindings generalizing heap with
  | nil => exact held
  | cons first rest ih =>
      apply ih
      · exact fun binding inside => fits binding (List.mem_cons_of_mem first inside)
      · exact Heap.define_stores scope _ (fits first List.mem_cons_self) held

theorem declare_function_stores {machine : Machine} {declaration : FunctionDecl}
    (fits : good declaration) (held : machine.Stores good) :
    (declareFunction declaration machine).Stores good := by
  apply define_stores _ _ held
  intro identity other closure same
  cases same
  exact fits

end Machine

end Treewalk
