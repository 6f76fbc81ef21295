import Treewalk.Proofs.Evaluation.Run
import Treewalk.Proofs.Scope.Reach
import Treewalk.Proofs.Session.Reached

/-!
# Scopes out of reach stay as they are

Code sees the scopes that its own scope leads to, and no others. What it leads to changes while the
code runs: functions are stored, passed on and returned, and every call runs in another scope. So
the invariant is about one set that only grows: the scopes within reach at the start and those
created since. No link leads out of this set, the current scope is in it, and no other scope has
changed.
-/

namespace Treewalk

set_option autoImplicit false

/-- The scopes that code which starts on the machine `origin` comes by: those within reach at the
start, and those created until the heap is `heap`. -/
def Owned (origin : Machine) (heap : Heap) (scope : ScopeId) : Prop :=
  origin.heap.Reaches origin.current scope ∨ origin.heap.next ≤ scope ∧ scope < heap.next

def Value.Owned (origin : Machine) (heap : Heap) (value : Value) : Prop :=
  ∀ closure, value.Captures closure → Treewalk.Owned origin heap closure

def Flow.Captures (flow : Flow) (closure : ScopeId) : Prop :=
  ∃ value, flow = .returned value ∧ value.Captures closure

def Flow.Owned (origin : Machine) (heap : Heap) (flow : Flow) : Prop :=
  ∀ closure, flow.Captures closure → Treewalk.Owned origin heap closure

/-- No link leads out of the owned scopes, and what existed outside of them is unchanged. -/
structure Heap.Confined (origin : Machine) (heap : Heap) : Prop where
  grown : origin.heap.next ≤ heap.next
  closed : ∀ inner outer, Owned origin heap inner → heap.Link inner outer →
    Owned origin heap outer
  kept : ∀ scope, scope < origin.heap.next → ¬origin.heap.Reaches origin.current scope →
    heap.scopes[scope]? = origin.heap.scopes[scope]?

structure Machine.Confined (machine origin : Machine) : Prop where
  heap : machine.heap.Confined origin
  current : Owned origin machine.heap machine.current

section Ownership

variable {origin : Machine} {heap later : Heap} {scope : ScopeId} {value : Value}

theorem Owned.mono (owned : Owned origin heap scope) (grown : heap.next ≤ later.next) :
    Owned origin later scope :=
  owned.imp_right fun created => ⟨created.1, Nat.lt_of_lt_of_le created.2 grown⟩

theorem Value.Owned.mono (owned : value.Owned origin heap) (grown : heap.next ≤ later.next) :
    value.Owned origin later :=
  fun closure captured => (owned closure captured).mono grown

theorem owned_literal (literal : Literal) : (Value.ofLiteral literal).Owned origin heap :=
  fun closure captured => absurd captured (not_captures_literal literal closure)

theorem owned_nil : Value.nil.Owned origin heap :=
  fun closure captured => absurd captured (not_captures_nil closure)

theorem owned_returned (owned : value.Owned origin heap) :
    (Flow.returned value).Owned origin heap := by
  rintro closure ⟨other, same, captured⟩
  cases same
  exact owned closure captured

theorem owned_of_returned (owned : (Flow.returned value).Owned origin heap) :
    value.Owned origin heap :=
  fun closure captured => owned closure ⟨value, rfl, captured⟩

theorem owned_normal : Flow.normal.Owned origin heap := by
  rintro closure ⟨_, same, _⟩
  cases same

theorem owned_broke : Flow.broke.Owned origin heap := by
  rintro closure ⟨_, same, _⟩
  cases same

theorem Heap.Confined.owned_of_reaches {other : ScopeId} (confined : heap.Confined origin)
    (owned : Treewalk.Owned origin heap scope) (reaches : heap.Reaches scope other) :
    Treewalk.Owned origin heap other := by
  induction reaches with
  | refl => exact owned
  | tail _ link ih => exact confined.closed _ _ ih link

theorem Heap.Confined.define (confined : heap.Confined origin)
    (owned : Treewalk.Owned origin heap scope) (name : String)
    (fits : value.Owned origin heap) : (heap.define scope name value).Confined origin := by
  have same : heap.next ≤ (heap.define scope name value).next :=
    Nat.le_of_eq (heap.define_next scope name value).symm
  have back : (heap.define scope name value).next ≤ heap.next :=
    Nat.le_of_eq (heap.define_next scope name value)
  refine ⟨Nat.le_trans confined.grown same, ?_, ?_⟩
  · intro inner outer inside link
    rcases Heap.link_of_define link with link | ⟨rfl, captured⟩
    · exact (confined.closed inner outer (inside.mono back) link).mono same
    · exact (fits outer captured).mono same
  · intro other existed away
    have different : other ≠ scope := by
      rintro rfl
      rcases owned with reached | created
      · exact away reached
      · exact absurd existed (Nat.not_lt.mpr created.1)
    rw [heap.define_elsewhere name value different]
    exact confined.kept other existed away

theorem Heap.Confined.child (confined : heap.Confined origin)
    (owned : Treewalk.Owned origin heap scope) : (heap.child scope).Confined origin := by
  have grown : heap.next ≤ (heap.child scope).next := by simp
  refine ⟨Nat.le_trans confined.grown grown, ?_, ?_⟩
  · intro inner outer inside link
    rcases Heap.link_of_child link with link | ⟨rfl, rfl⟩
    · have earlier : Treewalk.Owned origin heap inner := by
        refine inside.imp_right fun created => ⟨created.1, ?_⟩
        cases link with
        | enclosing found => exact (Array.getElem?_eq_some_iff.mp found).1
        | closure found => exact (Array.getElem?_eq_some_iff.mp found).1
      exact (confined.closed inner outer earlier link).mono grown
    · exact owned.mono grown
  · intro other existed away
    rw [heap.child_elsewhere (Nat.lt_of_lt_of_le existed confined.grown)]
    exact confined.kept other existed away

theorem Heap.Confined.owned_next (confined : heap.Confined origin) (enclosing : ScopeId) :
    Treewalk.Owned origin (heap.child enclosing) heap.next :=
  .inr ⟨confined.grown, by simp⟩

theorem Heap.Confined.bind_all {bindings : List (Token × Value)} (confined : heap.Confined origin)
    (owned : Treewalk.Owned origin heap scope)
    (fit : ∀ binding ∈ bindings, binding.2.Owned origin heap) :
    (bindings.foldl (fun heap binding => heap.define scope binding.1.lexeme binding.2)
      heap).Confined origin := by
  induction bindings generalizing heap with
  | nil => exact confined
  | cons first rest ih =>
      have same : heap.next ≤ (heap.define scope first.1.lexeme first.2).next :=
        Nat.le_of_eq (heap.define_next scope first.1.lexeme first.2).symm
      apply ih (confined.define owned _ (fit first List.mem_cons_self)) (owned.mono same)
      exact fun binding inside => (fit binding (List.mem_cons_of_mem first inside)).mono same

theorem bind_all_next (bindings : List (Token × Value)) (heap : Heap) (scope : ScopeId) :
    (bindings.foldl (fun heap binding => heap.define scope binding.1.lexeme binding.2)
      heap).next = heap.next := by
  induction bindings generalizing heap with
  | nil => rfl
  | cons first rest ih =>
      rw [List.foldl_cons, ih]
      exact heap.define_next scope first.1.lexeme first.2

end Ownership

namespace Outcome

variable {α β : Type} {origin before : Machine}

/-- However the step ends, the machine is confined and no scope has been removed; the value is good
on the heap that the step leaves. -/
def Stays (origin before : Machine) (good : Heap → α → Prop) (outcome : Outcome α) : Prop :=
  outcome.Meets
    (fun value after => (after.Confined origin ∧ before.heap.next ≤ after.heap.next) ∧
      good after.heap value)
    (fun _ after => after.Confined origin ∧ before.heap.next ≤ after.heap.next) True

theorem stays_done {good : Heap → α → Prop} {value : α} (confined : before.Confined origin)
    (fits : good before.heap value) : (done value before).Stays origin before good :=
  ⟨⟨confined, Nat.le_refl _⟩, fits⟩

theorem stays_raised {good : Heap → α → Prop} (error : RuntimeError)
    (confined : before.Confined origin) :
    (raised error before : Outcome α).Stays origin before good :=
  ⟨confined, Nat.le_refl _⟩

theorem stays_of_grown {machine : Machine} {good : Heap → α → Prop} {outcome : Outcome α}
    (grown : before.heap.next ≤ machine.heap.next) (stays : outcome.Stays origin machine good) :
    outcome.Stays origin before good := by
  apply meets_of_meets stays
  · exact fun _ _ ended => ⟨⟨ended.1.1, Nat.le_trans grown ended.1.2⟩, ended.2⟩
  · exact fun _ _ ended => ⟨ended.1, Nat.le_trans grown ended.2⟩
  · exact id

theorem stays_and_then {middle : Heap → α → Prop} {good : Heap → β → Prop} {outcome : Outcome α}
    {next : α → Machine → Outcome β} (first : outcome.Stays origin before middle)
    (second : ∀ value machine, machine.Confined origin → before.heap.next ≤ machine.heap.next →
      middle machine.heap value → (next value machine).Stays origin machine good) :
    (outcome.andThen next).Stays origin before good := by
  apply meets_and_then first
  rintro value machine - ⟨⟨confined, grown⟩, fits⟩
  exact stays_of_grown grown (second value machine confined grown fits)

end Outcome

open Outcome

section Primitives

variable {origin machine : Machine}

theorem apply_unary_captures (operator : Kind) (operand : Value) {result : Value}
    (applied : applyUnary operator operand = .value result) (closure : ScopeId) :
    ¬result.Captures closure := by
  rintro ⟨identity, declaration, rfl⟩
  unfold applyUnary at applied
  split at applied
  · cases applied
  · split at applied <;> cases applied

theorem apply_binary_captures (operator : Kind) (left right : Value) {result : Value}
    (applied : applyBinary operator left right = .value result) (closure : ScopeId) :
    ¬result.Captures closure := by
  rintro ⟨identity, declaration, rfl⟩
  unfold applyBinary at applied
  split at applied
  · cases applied
  · cases applied
  · unfold applyPlus at applied
    split at applied <;> cases applied
  · split at applied
    · unfold applyNumeric at applied
      split at applied
      all_goals try cases applied
      split at applied <;> cases applied
    · cases applied

theorem applied_stays {applied : Applied} (site : Token) (confined : machine.Confined origin)
    (plain : ∀ result, applied = .value result → ∀ closure, ¬result.Captures closure) :
    (applied.outcome site machine).Stays origin machine (Value.Owned origin) := by
  cases applied with
  | value result =>
      exact stays_done confined fun closure captured => absurd captured (plain result rfl closure)
  | error cause => exact stays_raised _ confined
  | meaningless => trivial

theorem read_variable_stays (name : Token) (confined : machine.Confined origin) :
    (readVariable name machine).Stays origin machine (Value.Owned origin) := by
  unfold readVariable
  split
  · rename_i value read
    apply stays_done confined
    intro closure captured
    exact confined.heap.owned_of_reaches confined.current (Heap.reaches_of_get read captured)
  · exact stays_raised _ confined

theorem write_variable_stays (name : Token) {value : Value} (confined : machine.Confined origin)
    (fits : value.Owned origin machine.heap) :
    (writeVariable name value machine).Stays origin machine (Value.Owned origin) := by
  unfold writeVariable
  split
  · rename_i holder resolved
    have owned := confined.heap.owned_of_reaches confined.current
      (Heap.reaches_of_resolve resolved)
    have same := Nat.le_of_eq (machine.heap.define_next holder name.lexeme value).symm
    exact ⟨⟨⟨confined.heap.define owned _ fits, confined.current.mono same⟩, same⟩, fits.mono same⟩
  · exact stays_raised _ confined

theorem define_stays (name : String) {value : Value} (confined : machine.Confined origin)
    (fits : value.Owned origin machine.heap) :
    (machine.define name value).Confined origin ∧
      machine.heap.next ≤ (machine.define name value).heap.next := by
  have same := Nat.le_of_eq (machine.heap.define_next machine.current name value).symm
  exact ⟨⟨confined.heap.define confined.current name fits, confined.current.mono same⟩, same⟩

/-- A function captures the scope in which it is declared, which is the current one. -/
theorem declare_function_stays (declaration : FunctionDecl) (confined : machine.Confined origin) :
    (declareFunction declaration machine).Confined origin ∧
      machine.heap.next ≤ (declareFunction declaration machine).heap.next := by
  have fits : (Value.callable ⟨machine.nextIdentity, .user declaration machine.current⟩).Owned
      origin machine.heap := by
    rintro closure ⟨identity, other, same⟩
    cases same
    exact confined.current
  obtain ⟨after, grown⟩ := define_stays declaration.name.lexeme confined fits
  exact ⟨⟨after.heap, after.current⟩, grown⟩

theorem call_native_stays (config : Config) (function : Native)
    (confined : machine.Confined origin) :
    (callNative config function machine).Stays origin machine (Value.Owned origin) := by
  cases function
  refine ⟨⟨⟨confined.heap, confined.current⟩, Nat.le_refl _⟩, ?_⟩
  rintro closure ⟨identity, declaration, same⟩
  cases same

/-- The scope of a call is new, inside an owned closure, and binds owned values. -/
theorem prepared_stays (declaration : FunctionDecl) {closure : ScopeId} {values : List Value}
    (confined : machine.Confined origin) (owned : Owned origin machine.heap closure)
    (fit : ∀ value ∈ values, value.Owned origin machine.heap) :
    (machine.prepared declaration closure values).Confined origin ∧
      Owned origin (machine.prepared declaration closure values).heap machine.heap.next ∧
      machine.heap.next ≤ (machine.prepared declaration closure values).heap.next := by
  have grown : machine.heap.next ≤ (machine.heap.child closure).next := by simp
  have bound : (machine.heap.child closure).next ≤
      (machine.prepared declaration closure values).heap.next :=
    Nat.le_of_eq (bind_all_next _ _ _).symm
  have fresh := confined.heap.owned_next closure
  refine ⟨⟨?_, confined.current.mono (Nat.le_trans grown bound)⟩, fresh.mono bound,
    Nat.le_trans grown bound⟩
  apply (confined.heap.child owned).bind_all fresh
  intro binding inside
  exact (fit binding.2 (List.of_mem_zip inside).2).mono grown

end Primitives

/-- All parts of the evaluator stay within the owned scopes when they are given `units` of budget.
-/
structure StaysWith (origin : Machine) (config : Config) (units : Nat) : Prop where
  evaluate : ∀ expression machine, machine.Confined origin →
    (evaluate config units expression machine).Stays origin machine (Value.Owned origin)
  evaluateAll : ∀ expressions machine, machine.Confined origin →
    (evaluateAll config units expressions machine).Stays origin machine fun heap values =>
      ∀ value ∈ values, value.Owned origin heap
  call : ∀ paren callee values machine, machine.Confined origin →
    callee.Owned origin machine.heap → (∀ value ∈ values, value.Owned origin machine.heap) →
    (call config units paren callee values machine).Stays origin machine (Value.Owned origin)
  invoke : ∀ callable values machine, machine.Confined origin →
    (Value.callable callable).Owned origin machine.heap →
    (∀ value ∈ values, value.Owned origin machine.heap) →
    (invoke config units callable values machine).Stays origin machine (Value.Owned origin)
  execute : ∀ statement machine, machine.Confined origin →
    (execute config units statement machine).Stays origin machine (Flow.Owned origin)
  iterate : ∀ condition body machine, machine.Confined origin →
    (iterate config units condition body machine).Stays origin machine (Flow.Owned origin)
  executeIn : ∀ body scope machine, machine.Confined origin → Owned origin machine.heap scope →
    (executeIn config units body scope machine).Stays origin machine (Flow.Owned origin)
  executeAll : ∀ body machine, machine.Confined origin →
    (executeAll config units body machine).Stays origin machine (Flow.Owned origin)

namespace StaysWith

variable {origin : Machine} {config : Config} {units : Nat}

theorem evaluate_succ (below : StaysWith origin config units) (expression : Expr)
    (machine : Machine) (confined : machine.Confined origin) :
    (Treewalk.evaluate config (units + 1) expression machine).Stays origin machine
      (Value.Owned origin) := by
  cases expression with
  | literal value line location => exact stays_done confined (owned_literal value)
  | grouping inner location => exact below.evaluate inner machine confined
  | unary operator operand =>
      apply stays_and_then (below.evaluate operand machine confined)
      intro value after confined _ _
      exact applied_stays operator confined fun _ => apply_unary_captures _ _
  | binary left operator right =>
      apply stays_and_then (below.evaluate left machine confined)
      intro first between confined _ _
      apply stays_and_then (below.evaluate right between confined)
      intro second after confined _ _
      exact applied_stays operator confined fun _ => apply_binary_captures _ _ _
  | logical left operator right =>
      apply stays_and_then (below.evaluate left machine confined)
      intro first between confined _ fits
      split
      · exact stays_done confined fits
      · exact below.evaluate right between confined
  | reference name => exact read_variable_stays name confined
  | assign name value =>
      apply stays_and_then (below.evaluate value machine confined)
      intro result after confined _ fits
      exact write_variable_stays name confined fits
  | call callee paren arguments =>
      apply stays_and_then (below.evaluate callee machine confined)
      intro function between confined _ fits
      apply stays_and_then (below.evaluateAll arguments between confined)
      intro values after confined grown fit
      exact below.call paren function values after confined (fits.mono grown) fit

theorem evaluate_all_succ (below : StaysWith origin config units) (expressions : List Expr)
    (machine : Machine) (confined : machine.Confined origin) :
    (Treewalk.evaluateAll config (units + 1) expressions machine).Stays origin machine
      fun heap values => ∀ value ∈ values, value.Owned origin heap := by
  cases expressions with
  | nil =>
      apply stays_done confined
      intro value inside
      cases inside
  | cons first rest =>
      apply stays_and_then (below.evaluate first machine confined)
      intro value between confined _ fits
      apply stays_and_then (below.evaluateAll rest between confined)
      intro values after confined grown fit
      apply stays_done confined
      intro other inside
      rcases List.mem_cons.mp inside with rfl | inside
      · exact fits.mono grown
      · exact fit other inside

theorem call_succ (below : StaysWith origin config units) (paren : Token) (callee : Value)
    (values : List Value) (machine : Machine) (confined : machine.Confined origin)
    (fits : callee.Owned origin machine.heap)
    (fit : ∀ value ∈ values, value.Owned origin machine.heap) :
    (Treewalk.call config (units + 1) paren callee values machine).Stays origin machine
      (Value.Owned origin) := by
  unfold Treewalk.call
  split
  · split
    · exact stays_raised _ confined
    · split
      · exact stays_raised _ confined
      · rename_i callable _ _
        have entered : machine.enterCall.Confined origin := ⟨confined.heap, confined.current⟩
        apply meets_on_exit (below.invoke callable values machine.enterCall entered fits fit)
        · exact fun _ _ ended => ⟨⟨⟨ended.1.1.heap, ended.1.1.current⟩, ended.1.2⟩, ended.2⟩
        · exact fun _ _ ended => ⟨⟨ended.1.heap, ended.1.current⟩, ended.2⟩
  · exact stays_raised _ confined

theorem invoke_succ (below : StaysWith origin config units) (callable : Callable)
    (values : List Value) (machine : Machine) (confined : machine.Confined origin)
    (fits : (Value.callable callable).Owned origin machine.heap)
    (fit : ∀ value ∈ values, value.Owned origin machine.heap) :
    (Treewalk.invoke config (units + 1) callable values machine).Stays origin machine
      (Value.Owned origin) := by
  rcases callable with ⟨identity, code⟩
  cases code with
  | native function => exact call_native_stays config function confined
  | user declaration closure =>
      have owned := fits closure ⟨identity, declaration, rfl⟩
      obtain ⟨ready, scope, grown⟩ := prepared_stays declaration confined owned fit
      apply stays_of_grown grown
      apply stays_and_then (below.executeIn declaration.body machine.heap.next _ ready scope)
      intro flow after confined _ fits
      cases flow with
      | normal => exact stays_done confined owned_nil
      | broke => exact stays_done confined owned_nil
      | returned value => exact stays_done confined (owned_of_returned fits)

theorem execute_succ (below : StaysWith origin config units) (statement : Stmt)
    (machine : Machine) (confined : machine.Confined origin) :
    (Treewalk.execute config (units + 1) statement machine).Stays origin machine
      (Flow.Owned origin) := by
  cases statement with
  | expression value =>
      apply stays_and_then (below.evaluate value machine confined)
      intro _ after confined _ _
      exact stays_done confined owned_normal
  | print keyword value =>
      apply stays_and_then (below.evaluate value machine confined)
      intro result after confined _ _
      exact ⟨⟨⟨confined.heap, confined.current⟩, Nat.le_refl _⟩, owned_normal⟩
  | declare name initial =>
      cases initial with
      | none => exact ⟨define_stays name.lexeme confined owned_nil, owned_normal⟩
      | some initial =>
          apply stays_and_then (below.evaluate initial machine confined)
          intro value after confined _ fits
          exact ⟨define_stays name.lexeme confined fits, owned_normal⟩
  | block body location =>
      have grown : machine.heap.next ≤ (machine.heap.child machine.current).next := by simp
      have opened : (machine.openScope machine.current).Confined origin :=
        ⟨confined.heap.child confined.current, confined.current.mono grown⟩
      exact stays_of_grown grown
        (below.executeIn body machine.heap.next _ opened (confined.heap.owned_next _))
  | ifThen keyword condition consequent =>
      apply stays_and_then (below.evaluate condition machine confined)
      intro value after confined _ _
      split
      · exact below.execute consequent after confined
      · exact stays_done confined owned_normal
  | ifElse keyword condition consequent alternative =>
      apply stays_and_then (below.evaluate condition machine confined)
      intro value after confined _ _
      split
      · exact below.execute consequent after confined
      · exact below.execute alternative after confined
  | loop keyword condition body => exact below.iterate condition body machine confined
  | function name parameters body =>
      exact ⟨declare_function_stays ⟨name, parameters, body⟩ confined, owned_normal⟩
  | returnValue keyword value =>
      cases value with
      | none => exact stays_done confined (owned_returned owned_nil)
      | some value =>
          apply stays_and_then (below.evaluate value machine confined)
          intro result after confined _ fits
          exact stays_done confined (owned_returned fits)
  | breakLoop keyword => exact stays_done confined owned_broke

theorem iterate_succ (below : StaysWith origin config units) (condition : Expr) (body : Stmt)
    (machine : Machine) (confined : machine.Confined origin) :
    (Treewalk.iterate config (units + 1) condition body machine).Stays origin machine
      (Flow.Owned origin) := by
  apply stays_and_then (below.evaluate condition machine confined)
  intro value between confined _ _
  split
  · apply stays_and_then (below.execute body between confined)
    intro flow after confined _ fits
    cases flow with
    | normal => exact below.iterate condition body after confined
    | broke => exact stays_done confined owned_normal
    | returned result => exact stays_done confined fits
  · exact stays_done confined owned_normal

/-- The scope that was current is owned, however much the heap has grown in the meantime. -/
theorem execute_in_succ (below : StaysWith origin config units) (body : List Stmt)
    (scope : ScopeId) (machine : Machine) (confined : machine.Confined origin)
    (owned : Owned origin machine.heap scope) :
    (Treewalk.executeIn config (units + 1) body scope machine).Stays origin machine
      (Flow.Owned origin) := by
  have entered : (machine.enter scope).Confined origin := ⟨confined.heap, owned⟩
  apply meets_on_exit (below.executeAll body (machine.enter scope) entered)
  · exact fun _ _ ended =>
      ⟨⟨⟨ended.1.1.heap, confined.current.mono ended.1.2⟩, ended.1.2⟩, ended.2⟩
  · exact fun _ _ ended => ⟨⟨ended.1.heap, confined.current.mono ended.2⟩, ended.2⟩

theorem execute_all_succ (below : StaysWith origin config units) (body : List Stmt)
    (machine : Machine) (confined : machine.Confined origin) :
    (Treewalk.executeAll config (units + 1) body machine).Stays origin machine
      (Flow.Owned origin) := by
  cases body with
  | nil => exact stays_done confined owned_normal
  | cons first rest =>
      apply stays_and_then (below.execute first machine confined)
      intro flow after confined _ fits
      cases flow with
      | normal => exact below.executeAll rest after confined
      | broke => exact stays_done confined owned_broke
      | returned value => exact stays_done confined fits

end StaysWith

theorem stays_with (origin : Machine) (config : Config) (units : Nat) :
    StaysWith origin config units := by
  induction units with
  | zero =>
      constructor
      all_goals intros
      all_goals trivial
  | succ units below =>
      constructor
      · exact below.evaluate_succ
      · exact below.evaluate_all_succ
      · exact below.call_succ
      · exact below.invoke_succ
      · exact below.execute_succ
      · exact below.iterate_succ
      · exact below.execute_in_succ
      · exact below.execute_all_succ

theorem confined_self (machine : Machine) : machine.Confined machine := by
  refine ⟨⟨Nat.le_refl _, ?_, fun _ _ _ => rfl⟩, .inl .refl⟩
  intro inner outer owned link
  rcases owned with reached | ⟨late, early⟩
  · exact .inl (.tail reached link)
  · exact absurd early (Nat.not_lt.mpr late)

/-- Every scope that existed and was out of reach of the current scope is as it was. -/
def Machine.Spares (before after : Machine) : Prop :=
  ∀ scope, scope < before.heap.next → ¬before.heap.Reaches before.current scope →
    after.heap.scopes[scope]? = before.heap.scopes[scope]?

/-- What a confined step promises at its end, read off the machine on which it began. -/
theorem Outcome.Stays.spares {α : Type} {good : Heap → α → Prop} {outcome : Outcome α}
    {before after : Machine} (stays : outcome.Stays before before good)
    (ended : outcome.EndsIn after) : before.Spares after := by
  have spared : outcome.Meets (fun _ after => before.Spares after)
      (fun _ after => before.Spares after) True := by
    apply meets_of_meets stays
    · exact fun _ _ ended => ended.1.1.heap.kept
    · exact fun _ _ ended => ended.1.heap.kept
    · exact id
  exact machine_of_meets spared ended

/-- Code touches only the scopes that its scope leads to and those that it creates, however it ends;
and a function that it evaluates to or returns was declared in one of these. -/
theorem scopes_out_of_reach_unchanged (config : Config) (units : Nat) (machine : Machine) :
    (∀ expression after, (evaluate config units expression machine).EndsIn after →
      machine.Spares after) ∧
    (∀ statement after, (execute config units statement machine).EndsIn after →
      machine.Spares after) ∧
    (∀ expression value after closure,
      evaluate config units expression machine = .done value after → value.Captures closure →
      machine.heap.Reaches machine.current closure ∨
        machine.heap.next ≤ closure ∧ closure < after.heap.next) ∧
    (∀ statement flow after closure,
      execute config units statement machine = .done flow after → flow.Captures closure →
      machine.heap.Reaches machine.current closure ∨
        machine.heap.next ≤ closure ∧ closure < after.heap.next) := by
  have parts := stays_with machine config units
  have start := confined_self machine
  refine ⟨?_, ?_, ?_, ?_⟩
  · exact fun expression after ended => (parts.evaluate expression machine start).spares ended
  · exact fun statement after ended => (parts.execute statement machine start).spares ended
  · intro expression value after closure done captured
    have stays := parts.evaluate expression machine start
    rw [done] at stays
    exact stays.2 closure captured
  · intro statement flow after closure done captured
    have stays := parts.execute statement machine start
    rw [done] at stays
    exact stays.2 closure captured

/-- In front of a finished block, whose scope nothing leads to any more, a block declares a function
and returns it. -/
theorem scopes_out_of_reach_unchanged_block :
    ∃ machine statement flow after, machine.heap.scopes[1]? = some ⟨some 0, [("x", .nil)]⟩ ∧
      ¬machine.heap.Reaches machine.current 1 ∧
      execute ⟨4, fun _ => 0⟩ 9 statement machine = .done flow after ∧
      after.heap.scopes[1]? = machine.heap.scopes[1]? ∧
      flow.Captures 2 ∧ ¬machine.heap.Reaches machine.current 2 ∧ 2 < after.heap.next := by
  let name : Token := ⟨.identifier, "f", none, 1, ⟨0, 0⟩⟩
  let statement : Stmt :=
    .block [.function name [] [], .returnValue name (some (.reference name))] ⟨0, 0⟩
  let machine : Machine :=
    { Machine.initial with heap := (Machine.initial.heap.child 0).define 1 "x" .nil }
  have alone : ∀ scope, machine.heap.Reaches machine.current scope → scope = 0 := by
    intro scope reaches
    induction reaches with
    | refl => rfl
    | tail _ link ih =>
        subst ih
        cases link with
        | enclosing found around =>
            cases found
            cases around
        | closure found bound captured =>
            cases found
            obtain ⟨identity, declaration, captured⟩ := captured
            rw [List.mem_singleton.mp bound] at captured
            cases captured
  have far : ¬machine.heap.Reaches machine.current 1 :=
    fun reaches => absurd (alone 1 reaches) (by decide)
  have new : ¬machine.heap.Reaches machine.current 2 :=
    fun reaches => absurd (alone 2 reaches) (by decide)
  obtain ⟨flow, after, done, captures⟩ : ∃ flow after,
      execute ⟨4, fun _ => 0⟩ 9 statement machine = .done flow after ∧ flow.Captures 2 :=
    ⟨_, _, rfl, _, rfl, _, _, rfl⟩
  obtain ⟨-, spares, -, captured⟩ := scopes_out_of_reach_unchanged ⟨4, fun _ => 0⟩ 9 machine
  refine ⟨machine, statement, flow, after, rfl, far, done, ?_, captures, new, ?_⟩
  · exact spares statement after (.inl ⟨flow, done⟩) 1 (by decide) far
  · exact ((captured statement flow after 2 done captures).resolve_left new).2

end Treewalk
