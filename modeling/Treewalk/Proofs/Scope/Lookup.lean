import Treewalk.Proofs.Scope.Reach

/-!
# How far a name is looked up

Looking a name up passes the scopes that do not bind it, from the inside to the outside. While a
program runs, scopes get more bindings and there are more of them, but no scope moves: so a lookup
that starts in an old scope passes to fewer scopes than before, and never to a new one.
-/

namespace Treewalk

set_option autoImplicit false

theorem binds_put (name : String) (value : Value) (bindings : List (String × Value)) :
    (Scope.put name value bindings).any (fun binding => binding.1 == name) = true := by
  induction bindings with
  | nil => simp [Scope.put]
  | cons first rest ih =>
      unfold Scope.put
      split
      · simp
      · rw [List.any_cons, ih, Bool.or_true]

theorem binds_put_of_binds {name other : String} {value : Value}
    {bindings : List (String × Value)}
    (bound : bindings.any (fun binding => binding.1 == name) = true) :
    (Scope.put other value bindings).any (fun binding => binding.1 == name) = true := by
  induction bindings with
  | nil => cases bound
  | cons first rest ih =>
      unfold Scope.put
      rw [List.any_cons, Bool.or_eq_true] at bound
      split
      · rename_i same
        rw [beq_iff_eq] at same
        rw [List.any_cons, Bool.or_eq_true, ← same]
        exact bound
      · rw [List.any_cons, Bool.or_eq_true]
        exact bound.imp_right ih

namespace Heap

/-- Looking the name up in the first scope comes to the second one: no scope on the way binds it. -/
inductive Passes (heap : Heap) (name : String) : ScopeId → ScopeId → Prop where
  | here {scope : ScopeId} : Passes heap name scope scope
  | outward {inner outer scope : ScopeId} {found : Scope}
      (at_ : heap.scopes[inner]? = some found) (free : found.binds name = false)
      (around : found.enclosing = some outer) (further : Passes heap name outer scope) :
      Passes heap name inner scope

theorem passes_of_resolve_within {heap : Heap} {name : String} {count : Nat}
    {scope holder : ScopeId} (found : heap.resolveWithin name count scope = some holder) :
    heap.Passes name scope holder := by
  induction count generalizing scope with
  | zero => cases found
  | succ count ih =>
      unfold resolveWithin at found
      split at found
      · cases found
      · rename_i inner here
        split at found
        · cases found
          exact .here
        · rename_i free
          split at found
          · cases found
          · rename_i outer around
            exact .outward here (by simpa using free) around (ih found)

/-- The scope in which a name is found is one that the lookup comes to. -/
theorem passes_of_resolve {heap : Heap} {scope holder : ScopeId} {name : String}
    (found : heap.resolve scope name = some holder) : heap.Passes name scope holder :=
  passes_of_resolve_within found

/-- The scope binds the name. -/
def Bound (heap : Heap) (name : String) (scope : ScopeId) : Prop :=
  ∃ found, heap.scopes[scope]? = some found ∧ found.binds name = true

theorem Passes.eq_of_bound {heap : Heap} {name : String} {inner scope : ScopeId}
    (passes : heap.Passes name inner scope) (bound : heap.Bound name inner) : scope = inner := by
  obtain ⟨found, here, binds⟩ := bound
  cases passes with
  | here => rfl
  | outward at_ free =>
      rw [here] at at_
      cases at_
      rw [binds] at free
      cases free

def Grounded (heap : Heap) : Prop :=
  ∀ (index : ScopeId) (found : Scope) (outer : ScopeId), heap.scopes[index]? = some found →
    found.enclosing = some outer → outer < heap.next

/-- Scopes have been added and bindings made; the scopes that existed lie where they lay, and what
bound the name binds it still. -/
structure Extends (name : String) (before after : Heap) : Prop where
  grown : before.next ≤ after.next
  kept : ∀ (index : ScopeId) (found : Scope), before.scopes[index]? = some found →
    ∃ later, after.scopes[index]? = some later ∧ later.enclosing = found.enclosing ∧
      (found.binds name = true → later.binds name = true)

namespace Extends

variable {name : String} {heap before between after : Heap}

theorem refl (name : String) (heap : Heap) : Extends name heap heap :=
  ⟨Nat.le_refl _, fun _ found at_ => ⟨found, at_, rfl, id⟩⟩

theorem trans (first : Extends name before between) (second : Extends name between after) :
    Extends name before after := by
  refine ⟨Nat.le_trans first.grown second.grown, ?_⟩
  intro index found at_
  obtain ⟨middle, there, around, bound⟩ := first.kept index found at_
  obtain ⟨later, ends, outer, still⟩ := second.kept index middle there
  exact ⟨later, ends, outer.trans around, fun binds => still (bound binds)⟩

theorem define (name : String) (heap : Heap) (scope : ScopeId) (other : String) (value : Value) :
    Extends name heap (heap.define scope other value) := by
  refine ⟨Nat.le_of_eq (heap.define_next scope other value).symm, ?_⟩
  intro index found at_
  by_cases here : index = scope
  · subst here
    refine ⟨found.define other value, ?_, rfl, binds_put_of_binds⟩
    rw [define_here, at_]
    rfl
  · refine ⟨found, ?_, rfl, id⟩
    rw [heap.define_elsewhere other value here]
    exact at_

theorem child (name : String) (heap : Heap) (enclosing : ScopeId) :
    Extends name heap (heap.child enclosing) := by
  refine ⟨by simp, ?_⟩
  intro index found at_
  refine ⟨found, ?_, rfl, id⟩
  rw [heap.child_elsewhere (Array.getElem?_eq_some_iff.mp at_).1]
  exact at_

theorem bound (extends_ : Extends name before after) {scope : ScopeId}
    (bound : before.Bound name scope) : after.Bound name scope := by
  obtain ⟨found, at_, binds⟩ := bound
  obtain ⟨later, there, -, still⟩ := extends_.kept scope found at_
  exact ⟨later, there, still binds⟩

theorem passes_back (extends_ : Extends name before after) (grounded : before.Grounded)
    {inner scope : ScopeId} (passes : after.Passes name inner scope)
    (old : inner < before.next) : before.Passes name inner scope ∧ scope < before.next := by
  induction passes with
  | here => exact ⟨.here, old⟩
  | @outward inner outer scope found at_ free around _ ih =>
      have there : before.scopes[inner]? = some before.scopes[inner] :=
        Array.getElem?_eq_getElem old
      obtain ⟨later, same, unmoved, bound⟩ := extends_.kept inner _ there
      rw [at_] at same
      cases same
      rw [around] at unmoved
      have unbound : before.scopes[inner].binds name = false := by
        rw [← Bool.not_eq_true]
        intro binds
        rw [bound binds] at free
        cases free
      obtain ⟨further, known⟩ := ih (grounded inner _ outer there unmoved.symm)
      exact ⟨.outward there unbound unmoved.symm further, known⟩

end Extends

section Changes

variable {heap : Heap} {scope : ScopeId} {name : String} {value : Value}

theorem bound_define (known : scope < heap.next) :
    (heap.define scope name value).Bound name scope := by
  have there : heap.scopes[scope]? = some heap.scopes[scope] := Array.getElem?_eq_getElem known
  refine ⟨heap.scopes[scope].define name value, ?_, binds_put name value _⟩
  rw [define_here, there]
  rfl

theorem Grounded.define (grounded : heap.Grounded) : (heap.define scope name value).Grounded := by
  intro index found outer at_ around
  rw [define_next]
  by_cases here : index = scope
  · subst here
    rw [define_here, Option.map_eq_some_iff] at at_
    obtain ⟨old, there, rfl⟩ := at_
    exact grounded index old outer there around
  · rw [heap.define_elsewhere name value here] at at_
    exact grounded index found outer at_ around

theorem Grounded.child (grounded : heap.Grounded) (known : scope < heap.next) :
    (heap.child scope).Grounded := by
  intro index found outer at_ around
  rw [child_next]
  rw [Heap.child, Array.getElem?_push] at at_
  split at at_
  · cases at_
    cases around
    exact Nat.lt_succ_of_lt known
  · exact Nat.lt_succ_of_lt (grounded index found outer at_ around)

theorem passes_child {inner : ScopeId} (grounded : heap.Grounded) (known : scope < heap.next)
    (passes : (heap.child scope).Passes name heap.next inner) :
    inner = heap.next ∨ heap.Passes name scope inner ∧ inner < heap.next := by
  cases passes with
  | here => exact .inl rfl
  | outward at_ free around further =>
      rw [Heap.child, Array.getElem?_push,
        if_pos (show heap.next = heap.scopes.size from rfl)] at at_
      cases at_
      cases around
      exact .inr ((Extends.child name heap _).passes_back grounded further known)

end Changes

def AllBound (good : Value → Prop) (heap : Heap) : Prop :=
  ∀ (index : ScopeId) (found : Scope), heap.scopes[index]? = some found →
    ∀ binding ∈ found.bindings, good binding.2

namespace AllBound

variable {good better : Value → Prop} {heap : Heap} {scope : ScopeId} {name : String}
    {value : Value}

theorem imp (held : heap.AllBound good) (improves : ∀ value, good value → better value) :
    heap.AllBound better :=
  fun index found at_ binding inside => improves _ (held index found at_ binding inside)

theorem define (held : heap.AllBound good) (fits : good value) :
    (heap.define scope name value).AllBound good := by
  intro index found at_ binding inside
  by_cases here : index = scope
  · subst here
    rw [define_here, Option.map_eq_some_iff] at at_
    obtain ⟨old, there, rfl⟩ := at_
    rcases mem_put inside with rfl | inside
    · exact fits
    · exact held index old there binding inside
  · rw [heap.define_elsewhere name value here] at at_
    exact held index found at_ binding inside

theorem child (held : heap.AllBound good) : (heap.child scope).AllBound good := by
  intro index found at_ binding inside
  rw [Heap.child, Array.getElem?_push] at at_
  split at at_
  · cases at_
    cases inside
  · exact held index found at_ binding inside

theorem get (held : heap.AllBound good)
    (read : heap.get? scope name = some value) : good value := by
  unfold Heap.get? at read
  rw [Option.bind_eq_bind, Option.bind_eq_some_iff] at read
  obtain ⟨holder, -, read⟩ := read
  rw [Option.bind_eq_bind, Option.bind_eq_some_iff] at read
  obtain ⟨found, at_, read⟩ := read
  unfold Scope.find? at read
  rw [Option.map_eq_some_iff] at read
  obtain ⟨binding, first, rfl⟩ := read
  exact held holder found at_ binding (List.mem_of_find?_eq_some first)

end AllBound

end Heap

end Treewalk
