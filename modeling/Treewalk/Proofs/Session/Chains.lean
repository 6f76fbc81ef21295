import Treewalk.Proofs.Evaluation.Growth
import Treewalk.Proofs.Program.Acceptance
import Treewalk.Proofs.Session.Linked

/-!
# Scope chains of a session

A session passes through many machines: those between two sources, and, while a source is evaluated,
those in which a run begins or ends and those in which a call binds its arguments. In each of them
every scope that anything holds is founded, and it is founded on the same chain in every later one.
-/

namespace Treewalk

set_option autoImplicit false

/-- What evaluation keeps about links: the heap is rooted, and code holds only scopes that exist. -/
def Invariant.rooted : Invariant where
  heap := Heap.Rooted
  scope heap scope := scope < heap.next
  value heap value := ∀ closure, value.Captures closure → closure < heap.next
  change before after := before.next ≤ after.next
  strict := False
  refl := Nat.le_refl _
  trans := Nat.le_trans
  scopeLater change held := Nat.lt_of_lt_of_le held change
  valueLater change held closure captures := Nat.lt_of_lt_of_le (held closure captures) change
  plain free closure captures := absurd captures (free closure)
  function := by
    intro heap identity declaration closure
    constructor
    · exact fun held => ⟨held closure ⟨identity, declaration, rfl⟩, False.elim⟩
    · rintro ⟨known, -⟩ _ ⟨_, _, ⟨⟩⟩
      exact known
  define name rooted _ fits := ⟨rooted.define fits, Nat.le_of_eq (Heap.define_next _ _ _ _).symm⟩
  child rooted known := by
    refine ⟨rooted.child known, ?_⟩
    rw [Heap.child_next]
    exact ⟨Nat.le_succ _, Nat.lt_succ_self _⟩
  resolve rooted known found :=
    Heap.Linked.reaches (fun _ _ => rooted.known_of_link) known (Heap.reaches_of_resolve found)
  get rooted _ read := rooted.declared.get read

theorem initial_rooted : Invariant.rooted.Holds Machine.initial := by
  have empty : Heap.initial.Rooted := by
    refine ⟨rfl, ?_, ?_⟩
    · intro scope around exists_ inner
      have known := Heap.known_of_around exists_
      exact absurd (Nat.lt_one_iff.mp known) inner
    · intro index found at_ binding bound
      obtain ⟨known, rfl⟩ := Array.getElem?_eq_some_iff.mp at_
      obtain rfl : index = 0 := Nat.lt_one_iff.mp known
      cases bound
  refine ⟨empty.define ?_, show Heap.global < Machine.initial.heap.next by decide⟩
  rintro closure ⟨identity, declaration, same⟩
  cases same

/-- What evaluation keeps whatever the code, every session that can be reached has. -/
theorem Invariant.holds_of_reached (keeps : Invariant) (lax : ¬keeps.strict)
    (initial : keeps.Holds Machine.initial) {config : Config} {session : Session}
    (reached : Session.Reached config session) : keeps.Holds session.machine := by
  apply And.left
  apply Session.machine_of_reached keeps.Holds initial ?_ ?_ reached
  · intro source program units session machine _ holds ended
    have kept := interpret_keeps keeps config units program (fun strict => absurd strict lax) holds
    apply Outcome.machine_of_meets (Outcome.meets_of_meets kept ?_ ?_ id) ended
    · exact fun _ _ done => done.1.1
    · exact fun _ _ raised => raised.1
  · exact fun session holds => ⟨holds.heap, holds.current⟩

def Captured (values : List Value) (scope : ScopeId) : Prop :=
  ∃ value ∈ values, value.Captures scope

/-- The scopes that the task holds, apart from the machine: those of the functions that it is given,
and the one in which it is to run. -/
def Task.Retains : Task → ScopeId → Prop
  | .call _ callee values => Captured (callee :: values)
  | .invoke callable values => Captured (.callable callable :: values)
  | .executeIn _ inside => fun scope => scope = inside
  | _ => fun _ => False

/-- The scopes that the machine holds: the global one, the current one, and those to which the heap
has a link, from a scope inside or from a function that is stored. -/
def Machine.Retains (machine : Machine) (scope : ScopeId) : Prop :=
  scope = Heap.global ∨ scope = machine.current ∨ ∃ holder, machine.heap.Link holder scope

namespace Session

/-- The run happens while a session that can be reached evaluates an accepted source. -/
def During (config : Config) (run : Run) : Prop :=
  ∃ session units source program, Reached config session ∧
    (analyze source).result = .ok program ∧ Happens config units program session.cleared run

/-- A machine of a session, with the scopes that are held besides those that the machine holds. -/
inductive Moment (config : Config) : Machine → (ScopeId → Prop) → Prop where
  | rest {session : Session} (reached : Reached config session) :
      Moment config session.machine fun _ => False
  | begun {run : Run} (during : During config run) : Moment config run.machine run.task.Retains
  | bound {units : Nat} {machine : Machine} {identity : Nat} {declaration : FunctionDecl}
      {closure : ScopeId} {values : List Value} {count : Nat}
      (during : During config
        ⟨units, .invoke ⟨identity, .user declaration closure⟩ values, machine⟩) :
      Moment config (machine.binding declaration closure values count)
        fun scope => scope = machine.heap.next ∨ scope = closure ∨ Captured values scope
  | ended {run : Run} {after : Machine} {values : List Value} (during : During config run)
      (gives : run.Gives config after values) : Moment config after (Captured values)

theorem precedes_of_run {config : Config} {session after : Session} {units : Nat} {source : String}
    {shown : Ran} (reached : Reached config session)
    (ended : session.run units source = some (shown, after)) :
    Relation.ReflTransGen (Precedes config) session.machine after.machine := by
  rcases run_cases ended with rfl | ⟨program, machine, -, evaluated, rfl⟩
  · exact .refl
  · rw [config_of_reached reached] at evaluated
    refine .head .cleared (.single ?_)
    rcases evaluated with ⟨value, done⟩ | ⟨error, raised⟩
    · exact .program (.inl ⟨value, done, rfl⟩)
    · exact .program (.inr ⟨error, raised, rfl⟩)

end Session

section Rooted

variable {config : Config} {heap : Heap} {scope : ScopeId}

theorem known_of_captured {values : List Value} (fit : Invariant.rooted.values heap values)
    (captured : Captured values scope) : scope < heap.next := by
  obtain ⟨value, inside, captures⟩ := captured
  exact fit value inside scope captures

theorem known_of_task {task : Task} (fits : Invariant.rooted.Fits heap task)
    (held : task.Retains scope) : scope < heap.next := by
  cases task with
  | call paren callee values =>
      exact known_of_captured (List.forall_mem_cons.mpr fits) held
  | invoke callable values =>
      exact known_of_captured (List.forall_mem_cons.mpr fits) held
  | executeIn body inside =>
      cases held
      exact fits.2
  | _ => cases held

theorem known_of_machine {machine : Machine} (holds : Invariant.rooted.Holds machine)
    (held : machine.Retains scope) : scope < machine.heap.next := by
  rcases held with rfl | rfl | ⟨holder, link⟩
  · exact holds.heap.global_known
  · exact holds.current
  · exact holds.heap.known_of_link link

theorem rooted_during {run : Run} (during : Session.During config run) :
    Invariant.rooted.Covers run := by
  obtain ⟨session, units, source, program, reached, -, top, begins, inside⟩ := during
  have holds := Invariant.rooted.holds_of_reached id initial_rooted reached
  have covers := Invariant.covers_of_begins begins False.elim
    (show Invariant.rooted.Holds session.cleared from ⟨holds.heap, holds.current⟩)
  exact (Invariant.covers_of_reached inside covers).1

theorem rooted_of_moment {machine : Machine} {held : ScopeId → Prop}
    (moment : Session.Moment config machine held) :
    Invariant.rooted.Holds machine ∧ ∀ scope, held scope → scope < machine.heap.next := by
  cases moment with
  | rest reached =>
      exact ⟨Invariant.rooted.holds_of_reached id initial_rooted reached, fun _ => False.elim⟩
  | begun during =>
      have covers := rooted_during during
      exact ⟨covers.holds, fun _ => known_of_task covers.fits⟩
  | @bound units machine identity declaration closure values count during =>
      obtain ⟨holds, function, fit⟩ := rooted_during during
      have inside := (Invariant.rooted.function.mp function).1
      obtain ⟨bound, grown, created⟩ := bound_keeps holds inside
        fun binding (listed : binding ∈ (declaration.parameters.zip values).take count) =>
          fit binding.2 (List.of_mem_zip (List.mem_of_mem_take listed)).2
      refine ⟨bound, ?_⟩
      rintro scope (rfl | rfl | captured)
      · exact created
      · exact Nat.lt_of_lt_of_le inside grown
      · exact Nat.lt_of_lt_of_le (known_of_captured fit captured) grown
  | ended during gives =>
      obtain ⟨⟨holds, -⟩, fit⟩ := Invariant.covers_ended (rooted_during during) gives
      exact ⟨holds, fun _ => known_of_captured fit⟩

end Rooted

/-- At every moment of a session, whether it is idle, in the middle of a source or at an error, the
scopes that are held are founded, and each is founded on the same chain at all later moments. So are
the scopes that runs further out hold meanwhile, such as the one to which a call returns. From one
moment to a later one the heap only grows: scopes stay where they are and keep their names. -/
theorem scope_chains_founded {config : Config} {machine : Machine} {held : ScopeId → Prop}
    (moment : Session.Moment config machine held) :
    (∀ scope, machine.Retains scope ∨ held scope → ∃ chain, ∀ later,
      Relation.ReflTransGen (Precedes config) machine later → later.heap.Founded scope chain) ∧
    ∀ later, Relation.ReflTransGen (Precedes config) machine later →
      machine.heap.Grown later.heap := by
  obtain ⟨holds, others⟩ := rooted_of_moment moment
  refine ⟨fun scope kept => ?_, fun later => grown_of_precedes⟩
  have known : scope < machine.heap.next := by
    rcases kept with kept | kept
    · exact known_of_machine holds kept
    · exact others scope kept
  obtain ⟨chain, founded⟩ := holds.heap.founded known
  exact ⟨chain, fun later follows => (grown_of_precedes follows).founded founded⟩

def Value.declaredIn (scope : ScopeId) : Value → Bool
  | .callable ⟨_, .user _ closure⟩ => closure == scope
  | _ => false

theorem captures_of_declared_in {value : Value} {scope : ScopeId}
    (declared : value.declaredIn scope = true) : value.Captures scope := by
  unfold Value.declaredIn at declared
  split at declared
  · rename_i identity declaration closure
    rw [beq_iff_eq] at declared
    exact ⟨identity, declaration, by rw [declared]⟩
  · cases declared

/-- A global variable holds a function that was declared in a block, and the source fails. -/
def storesInner (source : String) (session : Session) : Bool :=
  (session.machine.heap.scopes[Heap.global]?.any fun found =>
    found.bindings.any fun binding => binding.2.declaredIn 1) &&
  (session.run 60 source).any fun ran => !ran.1.result.isOk

/-- The block is left, but its scope is held by a global variable; the second source fails inside of
another block. -/
theorem scope_chains_founded_stored :
    ∃ session after shown, Session.Reached ⟨4, fun _ => 0⟩ session ∧
      session.machine.heap.Link Heap.global 1 ∧
      session.run 60 "{ g(1); }" = some (shown, after) ∧ shown.result.isOk = false ∧
      ∃ chain, session.machine.heap.Founded 1 chain ∧ after.machine.heap.Founded 1 chain := by
  have ran : ((Session.start ⟨4, fun _ => 0⟩).run 60 "var g; { fun f() { } g = f; }").any
      (fun ran => storesInner "{ g(1); }" ran.2) = true := by
    decide +kernel
  obtain ⟨⟨first, session⟩, ended, test⟩ := (Option.any_eq_true _ _).mp ran
  obtain ⟨stored, further⟩ := Bool.and_eq_true_iff.mp test
  obtain ⟨⟨shown, after⟩, again, failed⟩ := (Option.any_eq_true _ _).mp further
  obtain ⟨found, at_, inside⟩ := (Option.any_eq_true _ _).mp stored
  obtain ⟨binding, bound, declared⟩ := List.any_eq_true.mp inside
  have reached : Session.Reached ⟨4, fun _ => 0⟩ session := .run .start ended
  have link : session.machine.heap.Link Heap.global 1 :=
    .closure at_ bound (captures_of_declared_in declared)
  have held : session.machine.Retains 1 := .inr (.inr ⟨Heap.global, link⟩)
  obtain ⟨chain, founded⟩ := (scope_chains_founded (.rest reached)).1 1 (.inl held)
  exact ⟨session, after, shown, reached, link, again, (Bool.not_eq_true' _).mp failed, chain,
    founded _ .refl, founded _ (Session.precedes_of_run reached again)⟩

end Treewalk
