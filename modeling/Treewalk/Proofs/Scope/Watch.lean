import Treewalk.Proofs.Evaluation.Trace
import Treewalk.Proofs.Program.Variables
import Treewalk.Proofs.Scope.Lookup

/-!
# Watching the bindings of one declaration

One declaration of a variable is followed through a run: the scopes in which the binding of its name
comes from it, and the scopes in which it is about to be declared. A function is blind to it if its
name is looked up, from the scope of the function outward, in none of these scopes. That all
functions in the heap are blind is the invariant that carries over to later heaps, since a lookup
from an old scope never comes to new ones.
-/

namespace Treewalk

set_option autoImplicit false

namespace Stmt

/-- In the body the declaration is neither read behind nor caught by a function in front. -/
structure Sheltered (name : Token) (body : List Stmt) : Prop where
  unread : ¬ReadBehind name body
  uncaught : ¬CaughtBefore name body

/-- The declaration is sheltered wherever it stands in the statement, and stands in bodies only. -/
structure Tidy (name : Token) (statement : Stmt) : Prop where
  sheltered : ∀ body ∈ statement.bodies, Sheltered name body
  rooted : statement.Orderly fun branch => ¬branch.Opens name

structure AllTidy (name : Token) (statements : List Stmt) : Prop where
  sheltered : ∀ body ∈ bodiesIn statements, Sheltered name body
  rooted : AllOrderly (fun branch => ¬branch.Opens name) statements

structure TidyBody (name : Token) (body : List Stmt) : Prop where
  own : Sheltered name body
  inside : AllTidy name body

section Parts

variable {name : Token} {condition : Expr}

theorem Sheltered.rest {first : Stmt} {rest : List Stmt}
    (sheltered : Sheltered name (first :: rest)) : Sheltered name rest := by
  constructor
  · rintro ⟨before, initial, behind, rfl, reads⟩
    exact sheltered.unread ⟨first :: before, initial, behind, rfl, reads⟩
  · rintro ⟨before, initial, behind, rfl, statement, inside, catches⟩
    exact sheltered.uncaught
      ⟨first :: before, initial, behind, rfl, statement, List.mem_cons_of_mem _ inside, catches⟩

/-- Behind the declaration its name is not looked up before it is declared anew. -/
theorem Sheltered.behind {initial : Option Expr} {rest : List Stmt}
    (sheltered : Sheltered name (declare name initial :: rest)) :
    looksUpIn true name.lexeme rest = false := by
  rw [← Bool.not_eq_true]
  exact fun reads => sheltered.unread ⟨[], initial, rest, rfl, reads⟩

/-- A statement in front of the declaration declares no function that looks the name up. -/
theorem Sheltered.front {first : Stmt} {rest : List Stmt}
    (sheltered : Sheltered name (first :: rest))
    (ahead : ∃ statement ∈ rest, statement.Opens name) :
    first.looksUp false name.lexeme = false := by
  obtain ⟨_, inside, initial, rfl⟩ := ahead
  obtain ⟨before, behind, rfl⟩ := List.append_of_mem inside
  rw [← Bool.not_eq_true]
  exact fun catches => sheltered.uncaught
    ⟨first :: before, initial, behind, rfl, first, List.mem_cons_self, catches⟩

theorem AllTidy.first {first : Stmt} {rest : List Stmt} (tidy : AllTidy name (first :: rest)) :
    first.Tidy name :=
  ⟨fun body inside => tidy.sheltered body (List.mem_append_left _ inside), tidy.rooted.1⟩

theorem AllTidy.rest {first : Stmt} {rest : List Stmt} (tidy : AllTidy name (first :: rest)) :
    AllTidy name rest :=
  ⟨fun body inside => tidy.sheltered body (List.mem_append_right _ inside), tidy.rooted.2⟩

theorem TidyBody.rest {first : Stmt} {rest : List Stmt} (tidy : TidyBody name (first :: rest)) :
    TidyBody name rest :=
  ⟨tidy.own.rest, tidy.inside.rest⟩

theorem Tidy.block {body : List Stmt} {location : Span} (tidy : (block body location).Tidy name) :
    TidyBody name body :=
  ⟨tidy.sheltered body List.mem_cons_self,
    fun inner inside => tidy.sheltered inner (List.mem_cons_of_mem _ inside), tidy.rooted⟩

theorem Tidy.function {token : Token} {parameters : List Token} {body : List Stmt}
    (tidy : (function token parameters body).Tidy name) : TidyBody name body :=
  ⟨tidy.sheltered body List.mem_cons_self,
    fun inner inside => tidy.sheltered inner (List.mem_cons_of_mem _ inside), tidy.rooted⟩

theorem Tidy.consequent {keyword : Token} {consequent : Stmt}
    (tidy : (ifThen keyword condition consequent).Tidy name) :
    ¬consequent.Opens name ∧ consequent.Tidy name :=
  ⟨tidy.rooted.1, tidy.sheltered, tidy.rooted.2⟩

theorem Tidy.branches {keyword : Token} {consequent alternative : Stmt}
    (tidy : (ifElse keyword condition consequent alternative).Tidy name) :
    (¬consequent.Opens name ∧ consequent.Tidy name) ∧
      ¬alternative.Opens name ∧ alternative.Tidy name :=
  ⟨⟨tidy.rooted.1.1, fun body inside => tidy.sheltered body (List.mem_append_left _ inside),
      tidy.rooted.1.2⟩,
    tidy.rooted.2.1, fun body inside => tidy.sheltered body (List.mem_append_right _ inside),
      tidy.rooted.2.2⟩

theorem Tidy.body {keyword : Token} {body : Stmt}
    (tidy : (loop keyword condition body).Tidy name) : ¬body.Opens name ∧ body.Tidy name :=
  ⟨tidy.rooted.1, tidy.sheltered, tidy.rooted.2⟩

theorem sheltered_of_foreign {body : List Stmt} (foreign : name ∉ declaredIn body) :
    Sheltered name body :=
  ⟨fun read => foreign read.declared, fun caught => foreign caught.declared⟩

theorem tidy_body_of_foreign {body : List Stmt} (foreign : name ∉ declaredIn body) :
    TidyBody name body := by
  refine ⟨sheltered_of_foreign foreign, fun inner inside => ?_, all_orderly_of_foreign body foreign⟩
  exact sheltered_of_foreign fun among => foreign (declared_in_of_bodies_in body inside among)

/-- A body in which no function looks the name up catches no declaration of it. -/
theorem not_caught_of_all {body : List Stmt}
    (free : ∀ statement ∈ body, statement.looksUp false name.lexeme = false) :
    ¬CaughtBefore name body := by
  rintro ⟨before, initial, behind, rfl, statement, inside, catches⟩
  rw [free statement (List.mem_append_left _ inside)] at catches
  cases catches

end Parts

end Stmt

def FunctionDecl.looksUp (name : String) (declaration : FunctionDecl) : Bool :=
  !(declaration.parameters.any fun parameter => parameter.lexeme == name) &&
    Stmt.looksUpIn true name declaration.body

/-- A declaration, where the bindings of its name come from, and the scopes in which it is ahead. -/
structure Watch where
  name : Token
  origins : Origins
  pending : ScopeId → Prop

namespace Watch

/-- What is watched in the scope: with `direct` on, that the binding comes from the declaration;
otherwise, that the declaration is ahead. -/
def Covers (watch : Watch) : Bool → ScopeId → Prop
  | true, scope => watch.origins scope = some watch.name
  | false, scope => watch.pending scope

def Minds (watch : Watch) (scope : ScopeId) : Prop :=
  ∃ direct, watch.Covers direct scope

/-- Code in the scope looks the name up in no scope that is watched. Code that runs by itself now
may do so where the declaration is only ahead. -/
def Mute (watch : Watch) (heap : Heap) (scope : ScopeId) (looksUp : Bool → Bool) : Prop :=
  ∀ direct holder, watch.Covers direct holder → heap.Passes watch.name.lexeme scope holder →
    looksUp direct = false

def after (watch : Watch) (events : List Event) : Watch :=
  { watch with origins := watch.origins.after watch.name.lexeme events }

def awaiting (watch : Watch) (scope : ScopeId) (body : List Stmt) : Watch :=
  { watch with
    pending := fun other =>
      watch.pending other ∨ other = scope ∧ ∃ statement ∈ body, statement.Opens watch.name }

theorem minds_awaiting {watch : Watch} {scope holder : ScopeId} {body : List Stmt}
    (minds : (watch.awaiting scope body).Minds holder) : watch.Minds holder ∨ holder = scope := by
  obtain ⟨direct, covers⟩ := minds
  cases direct with
  | true => exact .inl ⟨true, covers⟩
  | false => exact covers.imp (fun pending => ⟨false, pending⟩) And.left

theorem minds_of_awaiting {watch : Watch} (scope : ScopeId) (body : List Stmt) {holder : ScopeId}
    (minds : watch.Minds holder) : (watch.awaiting scope body).Minds holder := by
  obtain ⟨direct, covers⟩ := minds
  cases direct with
  | true => exact ⟨true, covers⟩
  | false => exact ⟨false, .inl covers⟩

end Watch

/-- A function that was declared in the scope is blind to the watched declaration. -/
structure FunctionDecl.Blind (watch : Watch) (heap : Heap) (closure : ScopeId)
    (declaration : FunctionDecl) : Prop where
  known : closure < heap.next
  tidy : Stmt.TidyBody watch.name declaration.body
  mute : ∀ holder, watch.Minds holder → heap.Passes watch.name.lexeme closure holder →
    declaration.looksUp watch.name.lexeme = false

/-- The value is no function, or one that is blind to the watched declaration. -/
def Value.Blind (watch : Watch) (heap : Heap) (value : Value) : Prop :=
  ∀ identity declaration closure,
    value = .callable ⟨identity, .user declaration closure⟩ → declaration.Blind watch heap closure

/-- Scopes lie in scopes, what is watched exists, and all functions are blind to it. -/
structure Watch.Sound (watch : Watch) (heap : Heap) : Prop where
  grounded : heap.Grounded
  known : ∀ holder, watch.Minds holder → holder < heap.next
  blind : heap.AllBound (Value.Blind watch heap)

section Transport

variable {watch later : Watch} {heap after : Heap} {value : Value}

theorem blind_of_not_captures (plain : ∀ closure, ¬value.Captures closure) :
    value.Blind watch heap :=
  fun identity declaration closure same => absurd ⟨identity, declaration, same⟩ (plain closure)

/-- A blind value stays blind as long as no old scope comes to be watched. -/
theorem Value.Blind.carry (blind : value.Blind watch heap) (same : later.name = watch.name)
    (grounded : heap.Grounded) (extends_ : heap.Extends watch.name.lexeme after)
    (minds : ∀ holder, holder < heap.next → later.Minds holder → watch.Minds holder) :
    value.Blind later after := by
  intro identity declaration closure isFunction
  obtain ⟨known, tidy, mute⟩ := blind identity declaration closure isFunction
  refine ⟨Nat.lt_of_lt_of_le known extends_.grown, ?_, ?_⟩
  · rw [same]
    exact tidy
  · rw [same]
    intro holder minded passes
    obtain ⟨earlier, old⟩ := extends_.passes_back grounded passes known
    exact mute holder (minds holder old minded) earlier

theorem Watch.Mute.carry {scope : ScopeId} {looksUp : Bool → Bool}
    (mute : watch.Mute heap scope looksUp) (same : later.name = watch.name)
    (grounded : heap.Grounded) (extends_ : heap.Extends watch.name.lexeme after)
    (known : scope < heap.next) (covers : ∀ direct holder, holder < heap.next →
      later.Covers direct holder → watch.Covers direct holder) :
    later.Mute after scope looksUp := by
  unfold Watch.Mute
  rw [same]
  intro direct holder covered passes
  obtain ⟨earlier, old⟩ := extends_.passes_back grounded passes known
  exact mute direct holder (covers direct holder old covered) earlier

namespace Watch.Sound

theorem narrow (sound : watch.Sound heap) (same : later.name = watch.name)
    (minds : ∀ holder, later.Minds holder → watch.Minds holder) : later.Sound heap := by
  refine ⟨sound.grounded, fun holder minded => sound.known holder (minds holder minded), ?_⟩
  refine sound.blind.imp fun value blind => ?_
  exact blind.carry same sound.grounded (.refl _ heap) fun holder _ => minds holder

theorem define (sound : watch.Sound heap) (blind : value.Blind watch heap) (scope : ScopeId)
    (name : String) : watch.Sound (heap.define scope name value) := by
  have still : ∀ other : Value, other.Blind watch heap →
      other.Blind watch (heap.define scope name value) := fun other blind =>
    blind.carry rfl sound.grounded (.define _ heap scope name value) fun _ _ => id
  refine ⟨sound.grounded.define, ?_, (sound.blind.imp still).define (still value blind)⟩
  intro holder minded
  rw [Heap.define_next]
  exact sound.known holder minded

/-- What was blind stays so when a new scope is about to run a body: nothing old leads there. -/
theorem blind_child (sound : watch.Sound heap) (enclosing : ScopeId) (body : List Stmt)
    (blind : value.Blind watch heap) :
    value.Blind (watch.awaiting heap.next body) (heap.child enclosing) := by
  refine blind.carry rfl sound.grounded (.child _ heap enclosing) fun holder old minded => ?_
  apply (minds_awaiting minded).resolve_right
  rintro rfl
  exact Nat.lt_irrefl _ old

theorem child (sound : watch.Sound heap) {enclosing : ScopeId} (known : enclosing < heap.next)
    (body : List Stmt) : (watch.awaiting heap.next body).Sound (heap.child enclosing) := by
  refine ⟨sound.grounded.child known, ?_, ?_⟩
  · intro holder minded
    rw [Heap.child_next]
    rcases minds_awaiting minded with minded | rfl
    · exact Nat.lt_succ_of_lt (sound.known holder minded)
    · exact Nat.lt_succ_self _
  · exact (sound.blind.imp fun value blind => sound.blind_child enclosing body blind).child

theorem bind_all {bindings : List (Token × Value)} (sound : watch.Sound heap) (scope : ScopeId)
    (fit : ∀ binding ∈ bindings, binding.2.Blind watch heap) :
    watch.Sound (bindings.foldl (fun heap binding => heap.define scope binding.1.lexeme binding.2)
      heap) := by
  induction bindings generalizing heap with
  | nil => exact sound
  | cons first rest ih =>
      apply ih (sound.define (fit first List.mem_cons_self) scope first.1.lexeme)
      intro binding inside
      exact (fit binding (List.mem_cons_of_mem _ inside)).carry rfl sound.grounded
        (.define _ heap scope _ _) fun _ _ => id

end Watch.Sound

theorem extends_bind_all (name : String) (heap : Heap) (scope : ScopeId)
    (bindings : List (Token × Value)) :
    heap.Extends name
      (bindings.foldl (fun heap binding => heap.define scope binding.1.lexeme binding.2) heap) := by
  induction bindings generalizing heap with
  | nil => exact .refl name heap
  | cons first rest ih => exact (Heap.Extends.define name heap scope _ _).trans (ih _)

theorem bound_bind_all {name : String} {heap : Heap} {scope : ScopeId}
    {bindings : List (Token × Value)} (known : scope < heap.next)
    (among : ∃ binding ∈ bindings, binding.1.lexeme = name) :
    (bindings.foldl (fun heap binding => heap.define scope binding.1.lexeme binding.2)
      heap).Bound name scope := by
  induction bindings generalizing heap with
  | nil =>
      obtain ⟨_, inside, -⟩ := among
      cases inside
  | cons first rest ih =>
      obtain ⟨binding, inside, isName⟩ := among
      rcases List.mem_cons.mp inside with rfl | inside
      · rw [← isName]
        exact (extends_bind_all _ _ scope rest).bound (Heap.bound_define known)
      · apply ih
        · rw [Heap.define_next]
          exact known
        · exact ⟨binding, inside, isName⟩

end Transport

end Treewalk
