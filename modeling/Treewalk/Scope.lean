import Treewalk.Value

/-!
# Scopes

Scopes live in a heap and are named by their index. A scope knows the one around it, which is older
and so has a smaller index; this link never changes. Bindings are changed in place, so that all
closures over a scope see the same variables.
-/

namespace Treewalk

set_option autoImplicit false

/-- One lexical scope: the scope around it and its bindings, the oldest first. -/
structure Scope where
  enclosing : Option ScopeId
  bindings : List (String × Value)
deriving Inhabited

namespace Scope

def find? (scope : Scope) (name : String) : Option Value :=
  (scope.bindings.find? fun binding => binding.1 == name).map Prod.snd

def binds (scope : Scope) (name : String) : Bool :=
  scope.bindings.any fun binding => binding.1 == name

/-- Bindings in which a name has a value; it keeps its place if it is bound already. -/
def put (name : String) (value : Value) : List (String × Value) → List (String × Value)
  | [] => [(name, value)]
  | binding :: rest =>
      if binding.1 == name then (name, value) :: rest else binding :: put name value rest

def define (scope : Scope) (name : String) (value : Value) : Scope :=
  { scope with bindings := put name value scope.bindings }

def names (scope : Scope) : List String :=
  (scope.bindings.map Prod.fst).mergeSort fun left right => left ≤ right

end Scope

structure Heap where
  scopes : Array Scope
deriving Inhabited

namespace Heap

def global : ScopeId := 0

def initial : Heap :=
  ⟨#[⟨none, []⟩]⟩

def next (heap : Heap) : ScopeId :=
  heap.scopes.size

def child (heap : Heap) (enclosing : ScopeId) : Heap :=
  ⟨heap.scopes.push ⟨some enclosing, []⟩⟩

def define (heap : Heap) (scope : ScopeId) (name : String) (value : Value) : Heap :=
  ⟨heap.scopes.modify scope fun found => found.define name value⟩

/-- The nearest scope that binds a name, among the first `count` from `scope` outward. -/
def resolveWithin (heap : Heap) (name : String) : Nat → ScopeId → Option ScopeId
  | 0, _ => none
  | count + 1, scope =>
      match heap.scopes[scope]? with
      | none => none
      | some found =>
          if found.binds name then some scope
          else
            match found.enclosing with
            | none => none
            | some outer => resolveWithin heap name count outer

/-- The nearest scope that binds a name, from `scope` outward. Indices decrease on the way, so there
are at most `scope + 1` scopes to look at. -/
def resolve (heap : Heap) (scope : ScopeId) (name : String) : Option ScopeId :=
  heap.resolveWithin name (scope + 1) scope

def get? (heap : Heap) (scope : ScopeId) (name : String) : Option Value := do
  let holder ← heap.resolve scope name
  let found ← heap.scopes[holder]?
  found.find? name

def depthWithin (heap : Heap) : Nat → ScopeId → Nat
  | 0, _ => 0
  | count + 1, scope =>
      match (heap.scopes[scope]?).bind Scope.enclosing with
      | none => 0
      | some outer => depthWithin heap count outer + 1

def depth (heap : Heap) (scope : ScopeId) : Nat :=
  heap.depthWithin (scope + 1) scope

def bindings (heap : Heap) (scope : ScopeId) : List (String × Value) :=
  match heap.scopes[scope]? with
  | some found => found.bindings.mergeSort fun left right => left.1 ≤ right.1
  | none => []

def inspect (heap : Heap) (scope : ScopeId) : String :=
  let names := match heap.scopes[scope]? with
    | some found => found.names
    | none => []
  "Environment \x7b names: [" ++ ", ".intercalate (names.map Text.quoted) ++ "], depth: "
    ++ toString (heap.depth scope) ++ " \x7d"

end Heap

end Treewalk
