import Treewalk.Proofs.Evaluation.Moment
import Treewalk.Proofs.Scope.Chain

/-!
# The heap only grows

From one moment of evaluation to every later one, scopes stay where they are and keep the names that
they bind. A run begins before the runs that it starts, which end before it does; `Precedes` lists
the pairs of moments that follow on each other, and the rest is transitivity.
-/

namespace Treewalk

set_option autoImplicit false

open Outcome

/-- Every scope is still there and lies where it lay, and what was bound in it is bound still. -/
structure Heap.Grown (before after : Heap) : Prop where
  around : ∀ scope around, before.around? scope = some around → after.around? scope = some around
  names : ∀ scope name, before.binds name scope = true → after.binds name scope = true

namespace Heap.Grown

variable {before between after : Heap}

theorem refl (heap : Heap) : heap.Grown heap :=
  ⟨fun _ _ => id, fun _ _ => id⟩

theorem trans (first : before.Grown between) (second : between.Grown after) : before.Grown after :=
  ⟨fun scope around found => second.around scope around (first.around scope around found),
    fun scope name bound => second.names scope name (first.names scope name bound)⟩

theorem of_extends (extends_ : ∀ name, Extends name before after) : before.Grown after := by
  constructor
  · intro scope around exists_
    obtain ⟨found, at_, rfl⟩ := scope_of_around exists_
    obtain ⟨later, there, same, -⟩ := (extends_ "").kept scope found at_
    rw [around?, there, ← same]
    rfl
  · intro scope name bound
    obtain ⟨found, at_, binds⟩ := (Option.any_eq_true _ _).mp bound
    obtain ⟨later, there, -, still⟩ := (extends_ name).kept scope found at_
    exact (Option.any_eq_true _ _).mpr ⟨later, there, still binds⟩

theorem chain {scope : ScopeId} {scopes : List ScopeId} (grown : before.Grown after)
    (leads : before.Chain scope scopes) : after.Chain scope scopes := by
  induction leads with
  | outermost alone => exact .outermost (grown.around _ _ alone)
  | inside around further ih => exact .inside (grown.around _ _ around) ih

/-- So does all that is looked up along them find its scopes in the same order. -/
theorem founded {scope : ScopeId} {scopes : List ScopeId} (grown : before.Grown after)
    (founded : before.Founded scope scopes) : after.Founded scope scopes :=
  (grown.chain founded.leads).founded founded.distinct founded.short

theorem define (heap : Heap) (scope : ScopeId) (name : String) (value : Value) :
    heap.Grown (heap.define scope name value) :=
  of_extends fun other => .define other heap scope name value

theorem child (heap : Heap) (outer : ScopeId) : heap.Grown (heap.child outer) :=
  of_extends fun name => .child name heap outer

end Heap.Grown

def Invariant.growing : Invariant where
  heap _ := True
  scope _ _ := True
  value _ _ := True
  change := Heap.Grown
  strict := False
  refl := .refl _
  trans := .trans
  scopeLater _ held := held
  valueLater _ held := held
  plain _ := trivial
  function := ⟨fun _ => ⟨trivial, False.elim⟩, fun _ => trivial⟩
  define name _ _ _ := ⟨trivial, .define _ _ name _⟩
  child _ _ := ⟨trivial, .child _ _, trivial⟩
  resolve _ _ _ := trivial
  get _ _ _ := trivial

theorem growing_holds (machine : Machine) : Invariant.growing.Holds machine :=
  ⟨trivial, trivial⟩

theorem growing_covers (run : Run) : Invariant.growing.Covers run := by
  obtain ⟨units, task, machine⟩ := run
  refine ⟨growing_holds machine, ?_⟩
  cases task with
  | call paren callee values => exact ⟨trivial, fun _ _ => trivial⟩
  | invoke callable values => exact ⟨trivial, fun _ _ => trivial⟩
  | executeIn body scope => exact ⟨False.elim, trivial⟩
  | _ => exact False.elim

namespace Outcome

variable {α β : Type}

def Grows (before : Heap) (outcome : Outcome α) : Prop :=
  outcome.Meets (fun _ after => before.Grown after.heap) (fun _ after => before.Grown after.heap)
    True

theorem grows_of_keeps {fits : Heap → α → Prop} {before : Machine} {outcome : Outcome α}
    (kept : outcome.Keeps .growing fits before) : outcome.Grows before.heap := by
  apply meets_of_meets kept
  · exact fun _ _ ended => ended.1.2
  · exact fun _ _ ended => ended.2
  · exact fun _ => trivial

theorem grows_done (value : α) (machine : Machine) : (done value machine).Grows machine.heap :=
  .refl _

theorem grows_and_then {before : Heap} {outcome : Outcome α} {next : α → Machine → Outcome β}
    (first : outcome.Grows before)
    (second : ∀ value machine, (next value machine).Grows machine.heap) :
    (outcome.andThen next).Grows before := by
  apply meets_and_then first
  intro value machine _ grown
  apply meets_of_meets (second value machine)
  · exact fun _ _ further => grown.trans further
  · exact fun _ _ further => grown.trans further
  · exact id

variable {carried : α → List Value} {given : β → List Value} {between after : Machine}
  {values results : List Value}

theorem grown_of_gives {before : Heap} {outcome : Outcome α} (grows : outcome.Grows before)
    (gives : outcome.Gives carried after values) : before.Grown after.heap := by
  rcases gives with ⟨value, rfl, -⟩ | ⟨error, rfl, -⟩
  · exact grows
  · exact grows

theorem grown_of_done {before : Heap} {outcome : Outcome α} {value : α}
    (grows : outcome.Grows before) (done : outcome = .done value after) :
    before.Grown after.heap := by
  rw [done] at grows
  exact grows

/-- What a step does behind the step inside it lets the heap grow further; an error ends both. -/
theorem grown_behind {outcome : Outcome α} {next : α → Machine → Outcome β}
    (inner : outcome.Gives carried between values)
    (whole : (outcome.andThen next).Gives given after results)
    (rest : ∀ value, (next value between).Grows between.heap) : between.heap.Grown after.heap := by
  rcases inner with ⟨value, rfl, -⟩ | ⟨error, rfl, -⟩
  · exact grown_of_gives (rest value) whole
  · rcases whole with ⟨_, same, -⟩ | ⟨_, same, -⟩
    · cases same
    · cases same
      exact .refl _

theorem grown_tail {outcome : Outcome α} (inner : outcome.Gives carried between values)
    (whole : outcome.Gives carried after results) : between.heap.Grown after.heap := by
  rcases inner with ⟨value, rfl, -⟩ | ⟨error, rfl, -⟩
  · rcases whole with ⟨_, same, -⟩ | ⟨_, same, -⟩
    · cases same
      exact .refl _
    · cases same
  · rcases whole with ⟨_, same, -⟩ | ⟨_, same, -⟩
    · cases same
    · cases same
      exact .refl _

theorem grown_on_exit {outcome : Outcome α} {change : Machine → Machine}
    (inner : outcome.Gives carried between values)
    (whole : (outcome.onExit change).Gives carried after results)
    (same : ∀ machine : Machine, (change machine).heap = machine.heap) :
    between.heap.Grown after.heap := by
  rcases inner with ⟨value, rfl, -⟩ | ⟨error, rfl, -⟩
  · rcases whole with ⟨_, ended, -⟩ | ⟨_, ended, -⟩
    · cases ended
      rw [same]
      exact .refl _
    · cases ended
  · rcases whole with ⟨_, ended, -⟩ | ⟨_, ended, -⟩
    · cases ended
    · cases ended
      rw [same]
      exact .refl _

theorem gives_behind {outcome : Outcome α} {next : α → Machine → Outcome β} {value : α}
    (done : outcome = .done value between)
    (whole : (outcome.andThen next).Gives given after results) :
    (next value between).Gives given after results := by
  rw [done] at whole
  exact whole

end Outcome

section Outward

variable {config : Config} {units : Nat} {machine : Machine}

theorem evaluate_grows (expression : Expr) :
    (evaluate config units expression machine).Grows machine.heap :=
  grows_of_keeps ((kept_with .growing config units).evaluate expression machine False.elim
    (growing_holds machine))

theorem evaluate_all_grows (expressions : List Expr) :
    (evaluateAll config units expressions machine).Grows machine.heap :=
  grows_of_keeps ((kept_with .growing config units).evaluateAll expressions machine False.elim
    (growing_holds machine))

theorem call_grows (paren : Token) (callee : Value) (values : List Value) :
    (call config units paren callee values machine).Grows machine.heap :=
  grows_of_keeps ((kept_with .growing config units).call paren callee values machine trivial
    (fun _ _ => trivial) (growing_holds machine))

theorem execute_grows (statement : Stmt) :
    (execute config units statement machine).Grows machine.heap :=
  grows_of_keeps ((kept_with .growing config units).execute statement machine False.elim
    (growing_holds machine))

theorem iterate_grows (condition : Expr) (body : Stmt) :
    (iterate config units condition body machine).Grows machine.heap :=
  grows_of_keeps ((kept_with .growing config units).iterate condition body machine False.elim
    False.elim (growing_holds machine))

theorem execute_all_grows (body : List Stmt) :
    (executeAll config units body machine).Grows machine.heap :=
  grows_of_keeps ((kept_with .growing config units).executeAll body machine False.elim
    (growing_holds machine))

theorem applied_grows (applied : Applied) (site : Token) :
    (applied.outcome site machine).Grows machine.heap := by
  cases applied with
  | value result => exact .refl _
  | error cause => exact .refl _
  | meaningless => trivial

theorem write_variable_grows (name : Token) (value : Value) :
    (writeVariable name value machine).Grows machine.heap :=
  grows_of_keeps (write_variable_keeps name (growing_holds machine) trivial)

theorem grown_outward {outer inner : Run} {between after : Machine} {values results : List Value}
    (starts : Starts config outer inner) (first : inner.Gives config between values)
    (whole : outer.Gives config after results) : between.heap.Grown after.heap := by
  cases starts with
  | grouping => exact grown_tail first whole
  | operand => exact grown_behind first whole fun _ => applied_grows _ _
  | binaryLeft =>
      exact grown_behind first whole fun _ =>
        grows_and_then (evaluate_grows _) fun _ _ => applied_grows _ _
  | binaryRight done =>
      exact grown_behind first (gives_behind done whole) fun _ => applied_grows _ _
  | logicalLeft =>
      refine grown_behind first whole fun _ => ?_
      split
      · exact grows_done _ _
      · exact evaluate_grows _
  | logicalRight done open_ =>
      have behind := gives_behind done whole
      rw [open_] at behind
      exact grown_tail first behind
  | assigned => exact grown_behind first whole fun _ => write_variable_grows _ _
  | callee =>
      exact grown_behind first whole fun _ =>
        grows_and_then (evaluate_all_grows _) fun _ _ => call_grows _ _ _
  | arguments done => exact grown_behind first (gives_behind done whole) fun _ => call_grows _ _ _
  | call done passed => exact grown_tail first (gives_behind passed (gives_behind done whole))
  | firstArgument =>
      exact grown_behind first whole fun _ =>
        grows_and_then (evaluate_all_grows _) fun _ _ => grows_done _ _
  | restArguments done => exact grown_behind first (gives_behind done whole) fun _ => grows_done _ _
  | invoke fits allowed =>
      unfold Run.Gives call at whole
      dsimp only at whole
      rw [if_neg (Decidable.not_not.mpr fits), if_neg (Nat.not_le.mpr allowed)] at whole
      exact grown_on_exit first whole fun _ => rfl
  | @body _ _ callable _ _ _ code =>
      rcases callable with ⟨identity, found⟩
      cases code
      refine grown_behind first whole fun flow => ?_
      cases flow <;> exact grows_done _ _
  | expression => exact grown_behind first whole fun _ => grows_done _ _
  | printed => exact grown_behind first whole fun _ => .refl _
  | initial => exact grown_behind first whole fun _ => .define _ _ _ _
  | block => exact grown_tail first whole
  | ifThenCondition =>
      refine grown_behind first whole fun _ => ?_
      split
      · exact execute_grows _
      · exact grows_done _ _
  | ifThenConsequent done holds =>
      have behind := gives_behind done whole
      rw [if_pos holds] at behind
      exact grown_tail first behind
  | ifElseCondition =>
      refine grown_behind first whole fun _ => ?_
      split
      · exact execute_grows _
      · exact execute_grows _
  | ifElseConsequent done holds =>
      have behind := gives_behind done whole
      rw [if_pos holds] at behind
      exact grown_tail first behind
  | ifElseAlternative done fails =>
      have behind := gives_behind done whole
      rw [if_neg (by simp [fails])] at behind
      exact grown_tail first behind
  | loop => exact grown_tail first whole
  | result => exact grown_behind first whole fun _ => grows_done _ _
  | condition =>
      refine grown_behind first whole fun _ => ?_
      split
      · refine grows_and_then (execute_grows _) fun flow _ => ?_
        cases flow with
        | normal => exact iterate_grows _ _
        | broke => exact grows_done _ _
        | returned result => exact grows_done _ _
      · exact grows_done _ _
  | round done holds =>
      have behind := gives_behind done whole
      rw [if_pos holds] at behind
      refine grown_behind first behind fun flow => ?_
      cases flow with
      | normal => exact iterate_grows _ _
      | broke => exact grows_done _ _
      | returned result => exact grows_done _ _
  | again done holds ran =>
      have behind := gives_behind done whole
      rw [if_pos holds] at behind
      have further := gives_behind ran behind
      exact grown_tail first further
  | inScope => exact grown_on_exit first whole fun _ => rfl
  | firstStatement =>
      refine grown_behind first whole fun flow => ?_
      cases flow with
      | normal => exact execute_all_grows _
      | broke => exact grows_done _ _
      | returned value => exact grows_done _ _
  | restStatements done =>
      have behind := gives_behind done whole
      exact grown_tail first behind

theorem interpret_grows (program : Program) :
    (interpret config units program machine).Grows machine.heap :=
  grows_of_keeps (interpret_keeps .growing config units program False.elim (growing_holds machine))

theorem grown_begins {program : Program} {run : Run}
    (begins : Begins config units program machine run) : machine.heap.Grown run.machine.heap := by
  induction begins with
  | expression => exact .refl _
  | statement other => exact .refl _
  | behindExpression done later ih => exact .trans (grown_of_done (evaluate_grows _) done) ih
  | behindStatement other done later ih => exact .trans (grown_of_done (execute_grows _) done) ih

theorem grown_finish {program : Program} {run : Run} {between after : Machine}
    {values results : List Value} (begins : Begins config units program machine run)
    (first : run.Gives config between values)
    (whole : (interpret config units program machine).Gives Option.toList after results) :
    between.heap.Grown after.heap := by
  induction begins with
  | @expression value rest machine =>
      cases rest with
      | nil => exact grown_behind first whole fun _ => grows_done _ _
      | cons second rest => exact grown_behind first whole fun _ => interpret_grows _
  | @statement statement rest machine other =>
      rw [interpret_statement config units machine rest other] at whole
      refine grown_behind first whole fun flow => ?_
      cases flow with
      | normal => exact interpret_grows _
      | broke => exact grows_done _ _
      | returned value => exact grows_done _ _
  | @behindExpression value rest machine _ _ _ done later ih =>
      have inside : rest ≠ [] := by
        rintro rfl
        cases later
      rw [interpret_expression config units machine value inside] at whole
      have behind := gives_behind done whole
      exact ih first behind
  | @behindStatement statement rest machine _ _ other done later ih =>
      rw [interpret_statement config units machine rest other] at whole
      have behind := gives_behind done whole
      exact ih first behind

end Outward

/-- The machine of a call that has made the scope for a function and bound some of the parameters.
-/
def Machine.binding (machine : Machine) (declaration : FunctionDecl) (closure : ScopeId)
    (values : List Value) (count : Nat) : Machine :=
  (machine.openScope closure).bindParameters machine.heap.next
    ((declaration.parameters.zip values).take count)

theorem Heap.Grown.bind_all (heap : Heap) (scope : ScopeId) (bindings : List (Token × Value)) :
    heap.Grown (bindings.foldl
      (fun heap binding => heap.define scope binding.1.lexeme binding.2) heap) := by
  induction bindings generalizing heap with
  | nil => exact .refl heap
  | cons first rest ih => exact .trans (.define heap scope _ _) (ih _)

theorem grown_binding (machine : Machine) (declaration : FunctionDecl) (closure : ScopeId)
    (values : List Value) (count more : Nat) :
    (machine.binding declaration closure values count).heap.Grown
      (machine.binding declaration closure values (count + more)).heap := by
  simp only [Machine.binding, Machine.bindParameters]
  rw [List.take_add, List.foldl_append]
  exact .bind_all _ _ _

/-- The first machine is that of one moment of a session, the second one that of a later moment: a
run begins before the runs that it starts, these end before it does, and so do the statements of a
program before the program. -/
inductive Precedes (config : Config) : Machine → Machine → Prop where
  | inward {outer inner : Run} (starts : Starts config outer inner) :
      Precedes config outer.machine inner.machine
  | through {run : Run} {after : Machine} {values : List Value}
      (ended : run.Gives config after values) : Precedes config run.machine after
  | outward {outer inner : Run} {between after : Machine} {values results : List Value}
      (starts : Starts config outer inner) (first : inner.Gives config between values)
      (ended : outer.Gives config after results) : Precedes config between after
  | begin {units : Nat} {program : Program} {machine : Machine} {run : Run}
      (begins : Begins config units program machine run) : Precedes config machine run.machine
  | finish {units : Nat} {program : Program} {machine between after : Machine} {run : Run}
      {values results : List Value} (begins : Begins config units program machine run)
      (first : run.Gives config between values)
      (ended : (interpret config units program machine).Gives Option.toList after results) :
      Precedes config between after
  | program {units : Nat} {program : Program} {machine after : Machine} {results : List Value}
      (ended : (interpret config units program machine).Gives Option.toList after results) :
      Precedes config machine after
  | opened {machine : Machine} {declaration : FunctionDecl} {closure : ScopeId}
      {values : List Value} :
      Precedes config machine (machine.binding declaration closure values 0)
  | bound {machine : Machine} {declaration : FunctionDecl} {closure : ScopeId}
      {values : List Value} {count : Nat} :
      Precedes config (machine.binding declaration closure values count)
        (machine.binding declaration closure values (count + 1))
  | cleared {session : Session} : Precedes config session.machine session.cleared

/-- Whatever happens in the meantime, scopes stay where they are and keep their names. -/
theorem grown_of_precedes {config : Config} {before after : Machine}
    (later : Relation.ReflTransGen (Precedes config) before after) :
    before.heap.Grown after.heap := by
  induction later with
  | refl => exact .refl _
  | tail _ next ih =>
      apply ih.trans
      cases next with
      | inward starts => exact (Invariant.covers_of_starts starts (growing_covers _)).2
      | through ended => exact (Invariant.covers_ended (growing_covers _) ended).1.2
      | outward starts first ended => exact grown_outward starts first ended
      | begin begins => exact grown_begins begins
      | finish begins first ended => exact grown_finish begins first ended
      | program ended => exact grown_of_gives (interpret_grows _) ended
      | opened => exact .child _ _
      | bound => exact grown_binding _ _ _ _ _ 1
      | cleared => exact .refl _

end Treewalk
