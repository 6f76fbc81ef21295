import Treewalk.Proofs.Scope.Lookup

/-!
# Chains of scopes

Closures make the heap cyclic, but the links from scopes to the scopes around them alone do not: the
global scope lies in no other, and every other one lies in an older one. So from every scope a chain
leads outward to the global scope, and names are looked up along it.
-/

namespace Treewalk

set_option autoImplicit false

namespace Heap

def around? (heap : Heap) (scope : ScopeId) : Option (Option ScopeId) :=
  (heap.scopes[scope]?).map Scope.enclosing

def binds (heap : Heap) (name : String) (scope : ScopeId) : Bool :=
  (heap.scopes[scope]?).any fun found => found.binds name

/-- The scopes from this one outward, one after the other. The last one is the global scope, and it
lies in no other. -/
inductive Chain (heap : Heap) : ScopeId → List ScopeId → Prop where
  | outermost (alone : heap.around? Heap.global = some none) : Chain heap Heap.global [Heap.global]
  | inside {scope outer : ScopeId} {chain : List ScopeId}
      (around : heap.around? scope = some (some outer)) (further : Chain heap outer chain) :
      Chain heap scope (scope :: chain)

/-- The global scope lies in no other, every other scope in an older one, and functions were
declared in scopes that exist. -/
structure Rooted (heap : Heap) : Prop where
  outermost : heap.around? Heap.global = some none
  older : ∀ (scope : ScopeId) (around : Option ScopeId), heap.around? scope = some around →
    scope ≠ Heap.global → ∃ outer, around = some outer ∧ outer < scope
  declared : heap.AllBound fun value => ∀ closure, value.Captures closure → closure < heap.next

section Changes

variable {heap : Heap} {scope : ScopeId} {name : String} {value : Value}

theorem around_define (heap : Heap) (scope : ScopeId) (name : String) (value : Value)
    (other : ScopeId) : (heap.define scope name value).around? other = heap.around? other := by
  unfold around?
  by_cases here : other = scope
  · subst here
    rw [define_here, Option.map_map]
    rfl
  · rw [define_elsewhere heap name value here]

theorem around_child (heap : Heap) (outer : ScopeId) :
    (heap.child outer).around? heap.next = some (some outer) := by
  simp [around?, Heap.child, Heap.next]

theorem around_child_elsewhere (outer : ScopeId) {other : ScopeId} (different : other ≠ heap.next) :
    (heap.child outer).around? other = heap.around? other := by
  unfold around?
  rw [Heap.child, Array.getElem?_push, if_neg (show other ≠ heap.scopes.size from different)]

theorem known_of_around {around : Option ScopeId} (exists_ : heap.around? scope = some around) :
    scope < heap.next := by
  obtain ⟨found, at_, -⟩ := Option.map_eq_some_iff.mp exists_
  exact (Array.getElem?_eq_some_iff.mp at_).1

theorem around_of_known (known : scope < heap.next) :
    ∃ around, heap.around? scope = some around := by
  have there : heap.scopes[scope]? = some heap.scopes[scope] := Array.getElem?_eq_getElem known
  exact ⟨heap.scopes[scope].enclosing, by rw [around?, there]; rfl⟩

namespace Rooted

theorem global_known (rooted : heap.Rooted) : Heap.global < heap.next :=
  known_of_around rooted.outermost

theorem outer_lt {outer : ScopeId} (rooted : heap.Rooted)
    (around : heap.around? scope = some (some outer)) : outer < scope := by
  by_cases global : scope = Heap.global
  · subst global
    rw [rooted.outermost] at around
    cases around
  · obtain ⟨_, same, older⟩ := rooted.older scope _ around global
    cases same
    exact older

theorem define (rooted : heap.Rooted)
    (fits : ∀ closure, value.Captures closure → closure < heap.next) :
    (heap.define scope name value).Rooted := by
  refine ⟨?_, fun other around exists_ => ?_, ?_⟩
  · rw [around_define]
    exact rooted.outermost
  · rw [around_define] at exists_
    exact rooted.older other around exists_
  · rw [define_next]
    exact rooted.declared.define fits

theorem child (rooted : heap.Rooted) (known : scope < heap.next) : (heap.child scope).Rooted := by
  refine ⟨?_, fun other around exists_ inner => ?_, ?_⟩
  · rw [around_child_elsewhere scope (Nat.ne_of_lt rooted.global_known)]
    exact rooted.outermost
  · by_cases new : other = heap.next
    · subst new
      rw [around_child, Option.some.injEq] at exists_
      exact ⟨scope, exists_.symm, known⟩
    · rw [around_child_elsewhere scope new] at exists_
      exact rooted.older other around exists_ inner
  · rw [child_next]
    exact rooted.declared.child.imp fun value fits closure captures =>
      Nat.lt_succ_of_lt (fits closure captures)

theorem exists_chain (rooted : heap.Rooted) (known : scope < heap.next) :
    ∃ chain, heap.Chain scope chain := by
  induction scope using Nat.strongRecOn with
  | _ scope ih =>
      by_cases global : scope = Heap.global
      · subst global
        exact ⟨[Heap.global], .outermost rooted.outermost⟩
      · obtain ⟨around, exists_⟩ := around_of_known known
        obtain ⟨outer, rfl, older⟩ := rooted.older scope around exists_ global
        obtain ⟨chain, further⟩ := ih outer older (Nat.lt_trans older known)
        exact ⟨scope :: chain, .inside exists_ further⟩

theorem known_of_link {inner outer : ScopeId} (rooted : heap.Rooted)
    (link : heap.Link inner outer) : outer < heap.next := by
  cases link with
  | enclosing at_ around =>
      have exists_ : heap.around? inner = some (some outer) := by
        rw [around?, at_, ← around]
        rfl
      exact Nat.lt_trans (rooted.outer_lt exists_) (known_of_around exists_)
  | closure at_ bound captured => exact rooted.declared _ _ at_ _ bound _ captured

end Rooted

end Changes

namespace Chain

variable {heap : Heap} {scope : ScopeId} {chain : List ScopeId}

theorem newer_first (rooted : heap.Rooted) (leads : heap.Chain scope chain) :
    chain.Pairwise (fun inner outer => outer < inner) ∧ ∀ other ∈ chain, other ≤ scope := by
  induction leads with
  | outermost alone => simp
  | @inside scope outer chain around further ih =>
      have below : ∀ other ∈ chain, other < scope := fun other inside =>
        Nat.lt_of_le_of_lt (ih.2 other inside) (rooted.outer_lt around)
      refine ⟨List.pairwise_cons.mpr ⟨below, ih.1⟩, ?_⟩
      exact List.forall_mem_cons.mpr ⟨Nat.le_refl _, fun other inside =>
        Nat.le_of_lt (below other inside)⟩

theorem nodup (rooted : heap.Rooted) (leads : heap.Chain scope chain) : chain.Nodup :=
  (leads.newer_first rooted).1.imp Nat.ne_of_gt

/-- A chain is no longer than there are indices up to its first scope. -/
theorem length_le (rooted : heap.Rooted) (leads : heap.Chain scope chain) :
    chain.length ≤ scope + 1 := by
  induction leads with
  | outermost alone => exact Nat.le_refl _
  | inside around further ih =>
      exact Nat.succ_le_succ (Nat.le_trans ih (rooted.outer_lt around))

end Chain

/-- The scopes at which looking up a name looks, among the first `count` from `scope` outward. -/
def visits (heap : Heap) (name : String) : Nat → ScopeId → List ScopeId
  | 0, _ => []
  | count + 1, scope =>
      match heap.scopes[scope]? with
      | none => []
      | some found =>
          if found.binds name then [scope]
          else
            match found.enclosing with
            | none => [scope]
            | some outer => scope :: visits heap name count outer

section Lookup

variable {heap : Heap} {scope : ScopeId} {chain : List ScopeId}

/-- Looking up a name finds the first of the scopes at which it looks that binds the name. -/
theorem resolve_within_eq_find (heap : Heap) (name : String) (count : Nat) (scope : ScopeId) :
    heap.resolveWithin name count scope =
      (heap.visits name count scope).find? (heap.binds name) := by
  induction count generalizing scope with
  | zero => rfl
  | succ count ih =>
      cases at_ : heap.scopes[scope]? with
      | none => simp only [resolveWithin, visits, at_, List.find?_nil]
      | some found =>
          have here : heap.binds name scope = found.binds name := by
            rw [binds, at_]
            rfl
          cases bound : found.binds name with
          | true => simp only [resolveWithin, visits, at_, bound, if_true, List.find?_cons, here]
          | false =>
              cases around : found.enclosing with
              | none => simp [resolveWithin, visits, at_, bound, around, here]
              | some outer => simp [resolveWithin, visits, at_, bound, around, here, ih]

theorem scope_of_around {around : Option ScopeId} (exists_ : heap.around? scope = some around) :
    ∃ found, heap.scopes[scope]? = some found ∧ found.enclosing = around :=
  Option.map_eq_some_iff.mp exists_

/-- Looking up a name looks at the scopes of the chain in order, from the first one on. -/
theorem visits_along (leads : heap.Chain scope chain) (name : String) (count : Nat) :
    heap.visits name count scope <+: chain := by
  induction leads generalizing count with
  | outermost alone =>
      cases count with
      | zero => exact List.nil_prefix
      | succ count =>
          obtain ⟨found, at_, around⟩ := scope_of_around alone
          simp [visits, at_, around]
  | @inside scope outer chain exists_ further ih =>
      cases count with
      | zero => exact List.nil_prefix
      | succ count =>
          obtain ⟨found, at_, around⟩ := scope_of_around exists_
          simp only [visits, at_, around]
          split
          · exact List.prefix_cons_inj scope |>.mpr List.nil_prefix
          · exact List.prefix_cons_inj scope |>.mpr (ih count)

/-- Looking up a name finds the first scope of the chain that binds it, however many scopes may be
looked at, if these are as many as there are in the chain. -/
theorem resolve_within_of_chain (leads : heap.Chain scope chain) (name : String) {count : Nat}
    (enough : chain.length ≤ count) :
    heap.resolveWithin name count scope = chain.find? (heap.binds name) := by
  induction leads generalizing count with
  | outermost alone =>
      obtain ⟨more, rfl⟩ := Nat.exists_eq_add_of_le' (Nat.one_le_of_lt enough)
      obtain ⟨found, at_, around⟩ := scope_of_around alone
      rw [resolve_within_eq_find]
      simp [visits, at_, around]
  | @inside scope outer chain exists_ further ih =>
      obtain ⟨more, rfl⟩ := Nat.exists_eq_add_of_le' (Nat.one_le_of_lt enough)
      obtain ⟨found, at_, around⟩ := scope_of_around exists_
      have here : heap.binds name scope = found.binds name := by
        rw [binds, at_]
        rfl
      cases bound : found.binds name with
      | true => simp only [resolveWithin, at_, bound, if_true, List.find?_cons, here]
      | false =>
          simp only [resolveWithin, at_, around, bound, List.find?_cons, here]
          exact ih (Nat.le_of_succ_le_succ enough)

theorem depth_within_of_chain (leads : heap.Chain scope chain) {count : Nat}
    (enough : chain.length ≤ count) : heap.depthWithin count scope + 1 = chain.length := by
  induction leads generalizing count with
  | outermost alone =>
      obtain ⟨more, rfl⟩ := Nat.exists_eq_add_of_le' (Nat.one_le_of_lt enough)
      obtain ⟨found, at_, around⟩ := scope_of_around alone
      simp [depthWithin, at_, around]
  | @inside scope outer chain exists_ further ih =>
      obtain ⟨more, rfl⟩ := Nat.exists_eq_add_of_le' (Nat.one_le_of_lt enough)
      obtain ⟨found, at_, around⟩ := scope_of_around exists_
      simp only [depthWithin, at_, around, Option.bind_some, List.length_cons]
      rw [ih (Nat.le_of_succ_le_succ enough)]

end Lookup

/-- From the scope a chain without repetition leads to the global scope, and whatever is looked up
from there is looked up along the chain: each scope is looked at once at most, in order, and no
lookup is cut short by the number of scopes that it may look at. -/
structure Founded (heap : Heap) (scope : ScopeId) (chain : List ScopeId) : Prop where
  leads : heap.Chain scope chain
  distinct : chain.Nodup
  short : chain.length ≤ scope + 1
  looks : ∀ name count, heap.visits name count scope <+: chain ∧
    heap.resolveWithin name count scope = (heap.visits name count scope).find? (heap.binds name)
  finds : ∀ name count, chain.length ≤ count →
    heap.resolveWithin name count scope = chain.find? (heap.binds name)
  depth : ∀ count, chain.length ≤ count → heap.depthWithin count scope + 1 = chain.length

theorem Chain.founded {heap : Heap} {scope : ScopeId} {chain : List ScopeId}
    (leads : heap.Chain scope chain) (distinct : chain.Nodup) (short : chain.length ≤ scope + 1) :
    heap.Founded scope chain where
  leads := leads
  distinct := distinct
  short := short
  looks name count := ⟨visits_along leads name count, resolve_within_eq_find heap name count scope⟩
  finds name _ enough := resolve_within_of_chain leads name enough
  depth _ enough := depth_within_of_chain leads enough

theorem Rooted.founded {heap : Heap} {scope : ScopeId} (rooted : heap.Rooted)
    (known : scope < heap.next) : ∃ chain, heap.Founded scope chain := by
  obtain ⟨chain, leads⟩ := rooted.exists_chain known
  exact ⟨chain, leads.founded (leads.nodup rooted) (leads.length_le rooted)⟩

end Heap

end Treewalk
