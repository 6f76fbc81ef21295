import Treewalk.Proofs.Evaluation.Encapsulation
import Treewalk.Proofs.Evaluation.Restoration

/-!
# Links lead to scopes that exist

In every session that can be reached, no scope lies in a scope that is not there, and no function
was declared in one. Code only makes links between scopes that it owns, and these exist.
-/

namespace Treewalk

set_option autoImplicit false

open Outcome

def Heap.Linked (heap : Heap) : Prop :=
  ∀ inner outer, heap.Link inner outer → outer < heap.next

structure Machine.Linked (machine : Machine) : Prop where
  heap : machine.heap.Linked
  current : machine.current < machine.heap.next

theorem Heap.Linked.reaches {heap : Heap} {scope other : ScopeId} (linked : heap.Linked)
    (known : scope < heap.next) (reaches : heap.Reaches scope other) : other < heap.next := by
  induction reaches with
  | refl => exact known
  | tail _ link _ => exact linked _ _ link

section Confinement

variable {origin machine : Machine}

theorem Machine.Linked.owned {heap : Heap} {scope : ScopeId} (linked : origin.Linked)
    (grown : origin.heap.next ≤ heap.next) (owned : Owned origin heap scope) :
    scope < heap.next := by
  rcases owned with reached | created
  · exact Nat.lt_of_lt_of_le (linked.heap.reaches linked.current reached) grown
  · exact created.2

/-- A scope that is not owned existed before, and its links are the same. -/
theorem linked_of_confined (linked : origin.Linked) (confined : machine.Confined origin) :
    machine.Linked := by
  have grown := confined.heap.grown
  refine ⟨fun inner outer link => ?_, linked.owned grown confined.current⟩
  by_cases owned : Owned origin machine.heap inner
  · exact linked.owned grown (confined.heap.closed inner outer owned link)
  · have there : inner < machine.heap.next := by
      cases link with
      | enclosing found => exact (Array.getElem?_eq_some_iff.mp found).1
      | closure found => exact (Array.getElem?_eq_some_iff.mp found).1
    have existed : inner < origin.heap.next :=
      Nat.lt_of_not_le fun created => owned (.inr ⟨created, there⟩)
    have kept := confined.heap.kept inner existed fun reached => owned (.inl reached)
    have before : origin.heap.Link inner outer := by
      cases link with
      | enclosing found around => exact .enclosing (kept ▸ found) around
      | closure found bound captured => exact .closure (kept ▸ found) bound captured
    exact Nat.lt_of_lt_of_le (linked.heap inner outer before) grown

theorem interpret_confined (config : Config) (units : Nat) (program : Program)
    (confined : machine.Confined origin) :
    (interpret config units program machine).Meets (fun _ after => after.Confined origin)
      (fun _ after => after.Confined origin) True := by
  have parts := stays_with origin config units
  have ended : ∀ {α : Type} {good : Heap → α → Prop} {before : Machine} {outcome : Outcome α},
      outcome.Stays origin before good → outcome.Meets (fun _ after => after.Confined origin)
        (fun _ after => after.Confined origin) True := by
    intro α good before outcome stays
    exact meets_of_meets stays (fun _ _ done => done.1.1) (fun _ _ failed => failed.1) id
  induction program using program_induction generalizing machine with
  | empty => exact confined
  | trailing value =>
      apply meets_and_then (ended (parts.evaluate value machine confined))
      exact fun _ _ _ after => after
  | expression value rest inside ih =>
      rw [interpret_expression config units machine value inside]
      apply meets_and_then (ended (parts.evaluate value machine confined))
      exact fun _ _ _ after => ih after
  | statement first rest other ih =>
      rw [interpret_statement config units machine rest other]
      apply meets_and_then (ended (parts.execute first machine confined))
      intro flow after _ confinedAfter
      cases flow with
      | normal => exact ih confinedAfter
      | broke => exact confinedAfter
      | returned value => exact confinedAfter

end Confinement

theorem initial_linked : Machine.initial.Linked := by
  refine ⟨fun inner outer link => ?_, by decide⟩
  rcases Heap.link_of_define link with link | ⟨-, identity, declaration, same⟩
  · cases link with
    | enclosing found around =>
        cases inner with
        | zero =>
            cases found
            cases around
        | succ inner => simp [Heap.initial] at found
    | closure found bound captured =>
        cases inner with
        | zero =>
            cases found
            cases bound
        | succ inner => simp [Heap.initial] at found
  · cases same

/-- The links of a session that can be reached lead to scopes that exist. -/
theorem reached_linked {config : Config} {session : Session}
    (reached : Session.Reached config session) : session.machine.Linked := by
  apply And.left
  apply Session.machine_of_reached Machine.Linked initial_linked ?_ ?_ reached
  · intro source program units session machine _ linked evaluated
    have confined := machine_of_meets
      (interpret_confined config units program (confined_self session.cleared)) evaluated
    exact linked_of_confined linked confined
  · exact fun session linked => ⟨linked.heap, linked.current⟩

end Treewalk
