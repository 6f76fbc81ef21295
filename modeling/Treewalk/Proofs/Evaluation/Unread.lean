import Treewalk.Proofs.Evaluation.Encapsulation
import Treewalk.Proofs.Scope.Watch

/-!
# A sheltered declaration is never read

A declaration is watched while a program runs. Code that runs in some scope is mute if it looks the
name up in no scope where the binding comes from the declaration; a body is sheltered if behind the
declaration the name is not looked up, and no function in front of it does so. One induction on the
budget shows of all parts of the evaluator: from a heap of blind functions, mute code reads no
binding that comes from the declaration, and leaves a heap of blind functions. What it does not see
until it is called, a function, is blind from the time it is declared, since its scope is then ahead
of the declaration or mute.
-/

namespace Treewalk

set_option autoImplicit false

def Event.Misses (name : Token) (origins : Origins) : Event → Prop
  | read holder token => token.lexeme = name.lexeme → origins holder ≠ some name
  | declared _ _ => True
  | taken _ _ => True

def Origins.Misses (name : Token) : Origins → List Event → Prop
  | _, [] => True
  | origins, event :: events =>
      event.Misses name origins ∧ Misses name (origins.next name.lexeme event) events

theorem misses_nil {name : Token} {origins : Origins} : origins.Misses name [] :=
  trivial

theorem misses_append {name : Token} {origins : Origins} {events more : List Event}
    (first : origins.Misses name events)
    (second : (origins.after name.lexeme events).Misses name more) :
    origins.Misses name (events ++ more) := by
  induction events generalizing origins with
  | nil => exact second
  | cons event events ih => exact ⟨first.1, ih first.2 second⟩

theorem origin_of_misses {name token : Token} {origins : Origins} {past future : List Event}
    {holder : ScopeId} (misses : origins.Misses name (past ++ .read holder token :: future))
    (same : token.lexeme = name.lexeme) : origins.after name.lexeme past holder ≠ some name := by
  induction past generalizing origins with
  | nil => exact misses.1 same
  | cons event past ih => exact ih misses.2

def Flow.Blind (watch : Watch) (heap : Heap) (flow : Flow) : Prop :=
  ∀ value, flow = .returned value → value.Blind watch heap

theorem blind_normal {watch : Watch} {heap : Heap} : Flow.normal.Blind watch heap := by
  intro value same
  cases same

theorem blind_broke {watch : Watch} {heap : Heap} : Flow.broke.Blind watch heap := by
  intro value same
  cases same

theorem blind_returned {watch : Watch} {heap : Heap} {value : Value}
    (blind : value.Blind watch heap) : (Flow.returned value).Blind watch heap := by
  rintro _ ⟨⟩
  exact blind

namespace Watch

structure Steady (watch : Watch) (machine : Machine) : Prop where
  heap : watch.Sound machine.heap
  current : machine.current < machine.heap.next

/-- From one machine to a later one: it is steady again, in the same place, and the binding of an
old scope has come from the declaration before, unless the scope is an `own` one of the code. -/
structure Leads (watch : Watch) (own : ScopeId → Prop) (events : List Event)
    (before after : Machine) : Prop where
  steady : (watch.after events).Steady after
  heap : before.heap.Extends watch.name.lexeme after.heap
  current : after.current = before.current
  fresh : ∀ holder, (watch.after events).origins holder = some watch.name →
    watch.origins holder = some watch.name ∨ before.heap.next ≤ holder ∨ own holder

/-- A step with these events reads nothing that comes from the declaration, and if it is done, it
leads on and gives a good value. -/
structure Safe {α : Type} (watch : Watch) (own : ScopeId → Prop) (before : Machine)
    (events : List Event) (good : Watch → Heap → α → Prop) (outcome : Outcome α) : Prop where
  misses : watch.origins.Misses watch.name events
  ends : ∀ value after, outcome = .done value after →
    watch.Leads own events before after ∧ good (watch.after events) after.heap value

def nowhere : ScopeId → Prop :=
  fun _ => False

section Parts

variable {watch : Watch} {heap : Heap} {scope : ScopeId}

theorem Mute.names {names more : List String}
    (mute : watch.Mute heap scope fun direct => direct && names.contains watch.name.lexeme)
    (subset : more ⊆ names) :
    watch.Mute heap scope fun direct => direct && more.contains watch.name.lexeme := by
  intro direct holder covers passes
  have silent : (direct && names.contains watch.name.lexeme) = false :=
    mute direct holder covers passes
  cases direct with
  | false => rfl
  | true =>
      simp only [Bool.true_and, List.contains_eq_mem, decide_eq_false_iff_not] at silent ⊢
      exact fun inside => silent (subset inside)

theorem Mute.left {first second : Bool → Bool}
    (mute : watch.Mute heap scope fun direct => first direct || second direct) :
    watch.Mute heap scope first :=
  fun direct holder covers passes =>
    (Bool.or_eq_false_iff.mp (mute direct holder covers passes)).1

theorem Mute.right {first second : Bool → Bool}
    (mute : watch.Mute heap scope fun direct => first direct || second direct) :
    watch.Mute heap scope second :=
  fun direct holder covers passes =>
    (Bool.or_eq_false_iff.mp (mute direct holder covers passes)).2

end Parts

section Steps

variable {α β : Type} {watch : Watch} {own : ScopeId → Prop}
    {before between after machine : Machine}
  {events more : List Event} {good : Watch → Heap → α → Prop} {better : Watch → Heap → β → Prop}
  {value : Value}

theorem Steady.apart (steady : watch.Steady machine) : ¬watch.pending machine.heap.next :=
  fun pending => Nat.lt_irrefl _ (steady.heap.known _ ⟨false, pending⟩)

theorem after_append (watch : Watch) (events more : List Event) :
    watch.after (events ++ more) = (watch.after events).after more := by
  unfold after
  rw [Origins.after_append]

theorem leads_refl (steady : watch.Steady machine) : watch.Leads own [] machine machine :=
  ⟨steady, .refl _ _, rfl, fun _ covered => .inl covered⟩

theorem Leads.widen (leads : watch.Leads nowhere events before after) :
    watch.Leads own events before after :=
  ⟨leads.steady, leads.heap, leads.current, fun holder covered =>
    (leads.fresh holder covered).imp_right fun new => new.imp_right False.elim⟩

theorem Leads.trans (first : watch.Leads own events before between)
    (second : (watch.after events).Leads own more between after) :
    watch.Leads own (events ++ more) before after := by
  refine ⟨?_, first.heap.trans second.heap, second.current.trans first.current, ?_⟩
  · rw [after_append]
    exact second.steady
  · rw [after_append]
    intro holder covered
    rcases second.fresh holder covered with covered | new | owned
    · exact first.fresh holder covered
    · exact .inr (.inl (Nat.le_trans first.heap.grown new))
    · exact .inr (.inr owned)

theorem Leads.forget {inner : ScopeId → Prop} {scope : ScopeId} {body : List Stmt}
    (leads : (watch.awaiting scope body).Leads inner events before after)
    (within : ∀ scope, inner scope → own scope) : watch.Leads own events before after := by
  refine ⟨⟨leads.steady.heap.narrow rfl ?_, leads.steady.current⟩, leads.heap, leads.current, ?_⟩
  · exact fun holder minds => minds_of_awaiting scope body minds
  · exact fun holder covered => (leads.fresh holder covered).imp_right
      fun new => new.imp_right (within holder)

theorem Leads.covers (leads : watch.Leads nowhere events before after) (direct : Bool)
    (holder : ScopeId) (old : holder < before.heap.next)
    (covers : (watch.after events).Covers direct holder) : watch.Covers direct holder := by
  cases direct with
  | false => exact covers
  | true =>
      rcases leads.fresh holder covers with covered | new | impossible
      · exact covered
      · exact absurd old (Nat.not_lt.mpr new)
      · exact impossible.elim

theorem Leads.blind (leads : watch.Leads nowhere events before after)
    (steady : watch.Steady before) (blind : value.Blind watch before.heap) :
    value.Blind (watch.after events) after.heap := by
  refine blind.carry rfl steady.heap.grounded leads.heap fun holder old minds => ?_
  obtain ⟨direct, covers⟩ := minds
  exact ⟨direct, leads.covers direct holder old covers⟩

theorem Leads.mute (leads : watch.Leads nowhere events before after) (steady : watch.Steady before)
    {looksUp : Bool → Bool} (mute : watch.Mute before.heap before.current looksUp) :
    (watch.after events).Mute after.heap after.current looksUp := by
  rw [leads.current]
  exact mute.carry rfl steady.heap.grounded leads.heap steady.current leads.covers

theorem safe_done (steady : watch.Steady machine) {result : α}
    (fits : good watch machine.heap result) :
    watch.Safe own machine [] good (.done result machine) := by
  refine ⟨trivial, ?_⟩
  rintro _ _ ⟨⟩
  exact ⟨leads_refl steady, fits⟩

theorem safe_of_not_done {outcome : Outcome α} (misses : watch.origins.Misses watch.name events)
    (ended : ∀ value after, outcome ≠ .done value after) :
    watch.Safe own machine events good outcome :=
  ⟨misses, fun value after done => absurd done (ended value after)⟩

theorem safe_raised (misses : watch.origins.Misses watch.name events) (error : RuntimeError)
    (after : Machine) : watch.Safe own machine events good (.raised error after) :=
  safe_of_not_done misses nofun

theorem safe_exhausted (misses : watch.origins.Misses watch.name events) :
    watch.Safe own machine events good .exhausted :=
  safe_of_not_done misses nofun

theorem safe_stuck (misses : watch.origins.Misses watch.name events) :
    watch.Safe own machine events good .stuck :=
  safe_of_not_done misses nofun

theorem Safe.behind {outcome : Outcome α} (misses : watch.origins.Misses watch.name events)
    (leads : watch.Leads own events before between)
    (safe : (watch.after events).Safe own between more good outcome) :
    watch.Safe own before (events ++ more) good outcome := by
  refine ⟨misses_append misses safe.misses, fun value after done => ?_⟩
  obtain ⟨leadsOn, fits⟩ := safe.ends value after done
  refine ⟨leads.trans leadsOn, ?_⟩
  rw [after_append]
  exact fits

/-- Two steps in a row, the events of the second behind those of the first. -/
theorem safe_and_then {outcome : Outcome α} {next : α → Machine → Outcome β}
    {later : α → Machine → List Event} (first : watch.Safe nowhere before events good outcome)
    (second : ∀ value between, watch.Leads nowhere events before between →
      (watch.after events).Steady between → good (watch.after events) between.heap value →
      (watch.after events).Safe own between (later value between) better (next value between)) :
    watch.Safe own before (events ++ outcome.events later) better (outcome.andThen next) := by
  cases outcome with
  | done value between =>
      obtain ⟨leads, fits⟩ := first.ends value between rfl
      exact (second value between leads leads.steady fits).behind first.misses leads.widen
  | raised error between => exact safe_raised (misses_append first.misses misses_nil) error between
  | exhausted => exact safe_exhausted (misses_append first.misses misses_nil)
  | stuck => exact safe_stuck (misses_append first.misses misses_nil)

theorem safe_then {outcome : Outcome α} {next : α → Machine → Outcome β}
    (first : watch.Safe nowhere before events good outcome)
    (second : ∀ value between, watch.Leads nowhere events before between →
      (watch.after events).Steady between → good (watch.after events) between.heap value →
      (watch.after events).Safe own between [] better (next value between)) :
    watch.Safe own before events better (outcome.andThen next) := by
  have both := safe_and_then first second
  have none : outcome.events (fun _ _ => []) = [] := by cases outcome <;> rfl
  rw [none, List.append_nil] at both
  exact both

/-- A step that begins on a machine with more scopes, of which the new ones may be its own. -/
theorem Safe.enter {outcome : Outcome α} (safe : watch.Safe own between events good outcome)
    (extends_ : before.heap.Extends watch.name.lexeme between.heap)
    (current : between.current = before.current)
    (new : ∀ holder, own holder → before.heap.next ≤ holder) :
    watch.Safe nowhere before events good outcome := by
  refine ⟨safe.misses, fun value after done => ?_⟩
  obtain ⟨leads, fits⟩ := safe.ends value after done
  refine ⟨⟨leads.steady, extends_.trans leads.heap, leads.current.trans current, ?_⟩, fits⟩
  intro holder covered
  rcases leads.fresh holder covered with covered | later | owned
  · exact .inl covered
  · exact .inr (.inl (Nat.le_trans extends_.grown later))
  · exact .inr (.inl (new holder owned))

theorem Safe.widen {outcome : Outcome α}
    (safe : watch.Safe nowhere before events good outcome) :
    watch.Safe own before events good outcome :=
  ⟨safe.misses, fun value after done => (safe.ends value after done).imp_left Leads.widen⟩

theorem Safe.closed {outcome : Outcome α} (safe : watch.Safe own before events good outcome)
    (none : ∀ scope, ¬own scope) : watch.Safe nowhere before events good outcome :=
  safe.enter (.refl _ _) rfl fun scope owned => absurd owned (none scope)

theorem Safe.leave_call {outcome : Outcome α} (safe : watch.Safe own before events good outcome) :
    watch.Safe own before events good (outcome.onExit Machine.leaveCall) := by
  refine ⟨safe.misses, fun value after done => ?_⟩
  cases outcome with
  | done result ended =>
      cases done
      obtain ⟨leads, fits⟩ := safe.ends _ _ rfl
      exact ⟨⟨⟨leads.steady.heap, leads.steady.current⟩, leads.heap, leads.current, leads.fresh⟩,
        fits⟩
  | raised error ended => cases done
  | exhausted => cases done
  | stuck => cases done

end Steps

section Primitives

variable {watch : Watch} {machine : Machine} {own : ScopeId → Prop}

theorem applied_safe {applied : Applied} (site : Token) (steady : watch.Steady machine)
    (plain : ∀ result, applied = .value result → ∀ closure, ¬result.Captures closure) :
    watch.Safe own machine [] Value.Blind (applied.outcome site machine) := by
  cases applied with
  | value result => exact safe_done steady (blind_of_not_captures (plain result rfl))
  | error cause => exact safe_raised misses_nil _ _
  | meaningless => exact safe_stuck misses_nil

/-- Mute code that reads the name finds a binding that comes from elsewhere. -/
theorem read_variable_safe (name : Token) (steady : watch.Steady machine)
    (mute : watch.Mute machine.heap machine.current fun direct =>
      (Expr.reference name).looksUp direct watch.name.lexeme) :
    watch.Safe nowhere machine
      (match machine.heap.resolve machine.current name.lexeme with
        | some holder => [Event.read holder name]
        | none => [])
      Value.Blind (readVariable name machine) := by
  have unbound : machine.heap.resolve machine.current name.lexeme = none →
      machine.heap.get? machine.current name.lexeme = none := by
    intro missing
    unfold Heap.get?
    rw [missing]
    rfl
  unfold readVariable
  split
  · rename_i holder resolved
    constructor
    · refine ⟨?_, trivial⟩
      intro same covered
      have passes := Heap.passes_of_resolve resolved
      rw [same] at passes
      have silent := mute true holder covered passes
      simp [Expr.looksUp, Expr.reads, same] at silent
    · intro value after done
      split at done
      · rename_i found read
        cases done
        exact ⟨⟨steady, .refl _ _, rfl, fun _ covered => .inl covered⟩, steady.heap.blind.get read⟩
      · cases done
  · rename_i missing
    rw [unbound missing]
    exact safe_raised misses_nil _ _

theorem write_variable_safe (name : Token) {value : Value} (steady : watch.Steady machine)
    (blind : value.Blind watch machine.heap) :
    watch.Safe own machine [] Value.Blind (writeVariable name value machine) := by
  unfold writeVariable
  split
  · rename_i holder _
    have extends_ := Heap.Extends.define watch.name.lexeme machine.heap holder name.lexeme value
    refine ⟨trivial, ?_⟩
    rintro _ _ ⟨⟩
    refine ⟨⟨⟨steady.heap.define blind holder name.lexeme, ?_⟩, extends_, rfl,
      fun _ covered => .inl covered⟩, ?_⟩
    · exact Nat.lt_of_lt_of_le steady.current extends_.grown
    · exact blind.carry rfl steady.heap.grounded extends_ fun _ _ => id
  · exact safe_raised misses_nil _ _

/-- Binding a blind value in the current scope, where events say where the binding comes from. -/
theorem define_safe {events : List Event} {name : String} {value : Value}
    (steady : watch.Steady machine) (blind : value.Blind watch machine.heap)
    (misses : watch.origins.Misses watch.name events)
    (origins : ∀ holder, (watch.after events).origins holder = some watch.name →
      watch.origins holder = some watch.name ∨ own holder)
    (expected : ∀ holder, own holder → watch.pending holder) (identities : Nat) :
    watch.Safe own machine events Flow.Blind
      (.done .normal { machine.define name value with nextIdentity := identities }) := by
  have extends_ := Heap.Extends.define watch.name.lexeme machine.heap machine.current name value
  have sound : (watch.after events).Sound (machine.heap.define machine.current name value) := by
    refine (steady.heap.define blind machine.current name).narrow rfl ?_
    rintro holder ⟨direct, covers⟩
    cases direct with
    | false => exact ⟨false, covers⟩
    | true =>
        rcases origins holder covers with covered | owned
        · exact ⟨true, covered⟩
        · exact ⟨false, expected holder owned⟩
  refine ⟨misses, ?_⟩
  rintro _ _ ⟨⟩
  refine ⟨⟨⟨sound, Nat.lt_of_lt_of_le steady.current extends_.grown⟩, extends_, rfl, ?_⟩,
    blind_normal⟩
  exact fun holder covered => (origins holder covered).imp_right .inr

theorem call_native_safe (config : Config) (function : Native) (steady : watch.Steady machine) :
    watch.Safe own machine [] Value.Blind (callNative config function machine) := by
  cases function
  refine ⟨trivial, ?_⟩
  rintro _ _ ⟨⟩
  refine ⟨⟨⟨steady.heap, steady.current⟩, .refl _ _, rfl, fun _ covered => .inl covered⟩, ?_⟩
  apply blind_of_not_captures
  rintro closure ⟨identity, declaration, same⟩
  cases same

theorem origin_of_declared {scope holder : ScopeId} {token : Token}
    (covered : (watch.after [.declared scope token]).origins holder = some watch.name) :
    watch.origins holder = some watch.name ∨ token = watch.name ∧ holder = scope := by
  simp only [after, Origins.after, List.foldl_cons, List.foldl_nil, Origins.next] at covered
  split at covered
  · unfold Origins.set at covered
    split at covered
    · rename_i here
      exact .inr ⟨Option.some.inj covered, here⟩
    · exact .inl covered
  · exact .inl covered

theorem origin_of_taken {scope holder : ScopeId} {name : String}
    (covered : (watch.after [.taken scope name]).origins holder = some watch.name) :
    watch.origins holder = some watch.name := by
  simp only [after, Origins.after, List.foldl_cons, List.foldl_nil, Origins.next] at covered
  split at covered
  · unfold Origins.set at covered
    split at covered
    · cases covered
    · exact covered
  · exact covered

/-- Declaring a variable: if it is the watched one, it has been ahead in the current scope. -/
theorem declare_safe {token : Token} {value : Value} (steady : watch.Steady machine)
    (blind : value.Blind watch machine.heap)
    (owned : ∀ holder, token = watch.name → holder = machine.current → own holder)
    (expected : ∀ holder, own holder → watch.pending holder) :
    watch.Safe own machine [.declared machine.current token] Flow.Blind
      (.done .normal (machine.define token.lexeme value)) := by
  have misses : watch.origins.Misses watch.name [.declared machine.current token] :=
    ⟨trivial, trivial⟩
  refine define_safe steady blind misses (fun holder covered => ?_) expected machine.nextIdentity
  exact (origin_of_declared covered).imp_right fun here => owned holder here.1 here.2

theorem declare_function_safe (declaration : FunctionDecl) (steady : watch.Steady machine)
    (blind : declaration.Blind watch machine.heap machine.current)
    (expected : ∀ holder, own holder → watch.pending holder) :
    watch.Safe own machine [.taken machine.current declaration.name.lexeme] Flow.Blind
      (.done .normal (declareFunction declaration machine)) := by
  have misses : watch.origins.Misses watch.name
      [.taken machine.current declaration.name.lexeme] := ⟨trivial, trivial⟩
  refine define_safe steady ?_ misses (fun holder covered => ?_) expected
    (machine.nextIdentity + 1)
  · rintro identity other closure ⟨⟩
    exact blind
  · exact .inl (origin_of_taken covered)

theorem print_safe (line : String) (steady : watch.Steady machine) :
    watch.Safe own machine [] Flow.Blind (.done .normal (machine.printLine line)) := by
  refine ⟨trivial, ?_⟩
  rintro _ _ ⟨⟩
  exact ⟨⟨⟨steady.heap, steady.current⟩, .refl _ _, rfl, fun _ covered => .inl covered⟩,
    blind_normal⟩

/-- The body of a blind function is mute in the scope of the call: that scope is new, and it binds
the name if a parameter has it. -/
theorem prepared_mute {declaration : FunctionDecl} {closure : ScopeId} {values : List Value}
    (steady : watch.Steady machine) (blind : declaration.Blind watch machine.heap closure)
    (fits : values.length = declaration.parameters.length) :
    watch.Mute (machine.prepared declaration closure values).heap machine.heap.next fun direct =>
      Stmt.looksUpIn direct watch.name.lexeme declaration.body := by
  intro direct holder covers passes
  have different : holder ≠ machine.heap.next :=
    Nat.ne_of_lt (steady.heap.known holder ⟨direct, covers⟩)
  have new : machine.heap.next < (machine.heap.child closure).next := by simp
  have extends_ := extends_bind_all watch.name.lexeme (machine.heap.child closure)
    machine.heap.next (declaration.parameters.zip values)
  by_cases among : ∃ parameter ∈ declaration.parameters, parameter.lexeme = watch.name.lexeme
  · obtain ⟨parameter, inside, isName⟩ := among
    rw [← List.map_fst_zip (Nat.le_of_eq fits.symm)] at inside
    obtain ⟨binding, listed, rfl⟩ := List.mem_map.mp inside
    exact absurd (passes.eq_of_bound (bound_bind_all new ⟨binding, listed, isName⟩)) different
  · obtain ⟨passes, -⟩ := extends_.passes_back (steady.heap.grounded.child blind.known) passes new
    rcases Heap.passes_child steady.heap.grounded blind.known passes with same | ⟨passes, -⟩
    · exact absurd same different
    · have silent := blind.mute holder ⟨direct, covers⟩ passes
      have unbound : (declaration.parameters.any fun parameter =>
          parameter.lexeme == watch.name.lexeme) = false := by
        simpa using among
      rw [FunctionDecl.looksUp, unbound, Bool.not_false, Bool.true_and] at silent
      cases direct with
      | true => exact silent
      | false =>
          rw [← Bool.not_eq_true] at silent ⊢
          exact fun indirect => silent (Stmt.looks_up_in_of_indirect _ indirect)

/-- A block is mute in its new scope if it is mute in the scope around. -/
theorem opened_mute {body : List Stmt} (steady : watch.Steady machine)
    (mute : watch.Mute machine.heap machine.current fun direct =>
      Stmt.looksUpIn direct watch.name.lexeme body) :
    watch.Mute (machine.openScope machine.current).heap machine.heap.next fun direct =>
      Stmt.looksUpIn direct watch.name.lexeme body := by
  intro direct holder covers passes
  have different : holder ≠ machine.heap.next :=
    Nat.ne_of_lt (steady.heap.known holder ⟨direct, covers⟩)
  rcases Heap.passes_child steady.heap.grounded steady.current passes with same | ⟨passes, -⟩
  · exact absurd same different
  · exact mute direct holder covers passes

end Primitives

end Watch

open Watch

/-- All parts of the evaluator pass by the watched declaration when they are given `units` of
budget. -/
structure PassesByWith (config : Config) (units : Nat) : Prop where
  evaluate : ∀ (watch : Watch) expression machine, watch.Steady machine →
    (watch.Mute machine.heap machine.current fun direct =>
      expression.looksUp direct watch.name.lexeme) →
    watch.Safe nowhere machine (trace config units (.evaluate expression) machine) Value.Blind
      (evaluate config units expression machine)
  evaluateAll : ∀ (watch : Watch) expressions machine, watch.Steady machine →
    (watch.Mute machine.heap machine.current fun direct =>
      direct && (Expr.argumentReads expressions).contains watch.name.lexeme) →
    watch.Safe nowhere machine (trace config units (.evaluateAll expressions) machine)
      (fun watch heap values => ∀ value ∈ values, value.Blind watch heap)
      (evaluateAll config units expressions machine)
  call : ∀ (watch : Watch) paren callee values machine, watch.Steady machine →
    callee.Blind watch machine.heap → (∀ value ∈ values, value.Blind watch machine.heap) →
    watch.Safe nowhere machine (trace config units (.call paren callee values) machine) Value.Blind
      (call config units paren callee values machine)
  invoke : ∀ (watch : Watch) callable values machine, watch.Steady machine →
    (Value.callable callable).Blind watch machine.heap →
    (∀ value ∈ values, value.Blind watch machine.heap) → values.length = callable.arity →
    watch.Safe nowhere machine (trace config units (.invoke callable values) machine) Value.Blind
      (invoke config units callable values machine)
  execute : ∀ (watch : Watch) statement machine, watch.Steady machine →
    statement.Tidy watch.name → (statement.Opens watch.name → watch.pending machine.current) →
    (watch.Mute machine.heap machine.current fun direct =>
      statement.looksUp direct watch.name.lexeme) →
    watch.Safe (fun scope => statement.Opens watch.name ∧ scope = machine.current) machine
      (trace config units (.execute statement) machine) Flow.Blind
      (execute config units statement machine)
  iterate : ∀ (watch : Watch) condition body machine, watch.Steady machine →
    ¬body.Opens watch.name → body.Tidy watch.name →
    (watch.Mute machine.heap machine.current fun direct =>
      condition.looksUp direct watch.name.lexeme || body.looksUp direct watch.name.lexeme) →
    watch.Safe nowhere machine (trace config units (.iterate condition body) machine) Flow.Blind
      (iterate config units condition body machine)
  executeIn : ∀ (watch : Watch) body scope machine,
    (watch.awaiting scope body).Sound machine.heap → machine.current < machine.heap.next →
    scope < machine.heap.next → ¬watch.pending scope → Stmt.TidyBody watch.name body →
    (watch.Mute machine.heap scope fun direct =>
      Stmt.looksUpIn direct watch.name.lexeme body) →
    watch.Safe (fun other => other = scope) machine
      (trace config units (.executeIn body scope) machine) Flow.Blind
      (executeIn config units body scope machine)
  executeAll : ∀ (watch : Watch) body machine,
    (watch.awaiting machine.current body).Steady machine → ¬watch.pending machine.current →
    Stmt.TidyBody watch.name body →
    (watch.Mute machine.heap machine.current fun direct =>
      Stmt.looksUpIn direct watch.name.lexeme body) →
    watch.Safe (fun other => other = machine.current) machine
      (trace config units (.executeAll body) machine) Flow.Blind
      (executeAll config units body machine)

namespace PassesByWith

variable {config : Config} {units : Nat} {watch : Watch} {machine : Machine}

theorem evaluate_succ (below : PassesByWith config units) (watch : Watch) (expression : Expr)
    (machine : Machine) (steady : watch.Steady machine)
    (mute : watch.Mute machine.heap machine.current fun direct =>
      expression.looksUp direct watch.name.lexeme) :
    watch.Safe nowhere machine (trace config (units + 1) (.evaluate expression) machine)
      Value.Blind (Treewalk.evaluate config (units + 1) expression machine) := by
  cases expression with
  | literal value line location =>
      exact safe_done steady (blind_of_not_captures (not_captures_literal value))
  | grouping inner location => exact below.evaluate watch inner machine steady mute
  | unary operator operand =>
      apply safe_then (below.evaluate watch operand machine steady mute)
      intro value after leads steadyAfter blind
      exact applied_safe operator steadyAfter fun result same =>
        apply_unary_captures operator.kind value same
  | binary left operator right =>
      have muteLeft := mute.names (List.subset_append_left left.reads right.reads)
      have muteRight := mute.names (List.subset_append_right left.reads right.reads)
      apply safe_and_then (below.evaluate watch left machine steady muteLeft)
      intro first between leads steadyBetween _
      apply safe_then (below.evaluate _ right between steadyBetween (leads.mute steady muteRight))
      intro second after _ steadyAfter _
      exact applied_safe operator steadyAfter fun result same =>
        apply_binary_captures operator.kind first second same
  | logical left operator right =>
      have muteLeft := mute.names (List.subset_append_left left.reads right.reads)
      have muteRight := mute.names (List.subset_append_right left.reads right.reads)
      apply safe_and_then (below.evaluate watch left machine steady muteLeft)
      intro first between leads steadyBetween blind
      split
      · exact safe_done steadyBetween blind
      · exact below.evaluate _ right between steadyBetween (leads.mute steady muteRight)
  | reference name => exact read_variable_safe name steady mute
  | assign name value =>
      apply safe_then (below.evaluate watch value machine steady mute)
      intro result after _ steadyAfter blind
      exact write_variable_safe name steadyAfter blind
  | call callee paren arguments =>
      have muteCallee := mute.names
        (List.subset_append_left callee.reads (Expr.argumentReads arguments))
      have muteArguments := mute.names
        (List.subset_append_right callee.reads (Expr.argumentReads arguments))
      apply safe_and_then (below.evaluate watch callee machine steady muteCallee)
      intro function between leads steadyBetween blind
      apply safe_and_then (below.evaluateAll _ arguments between steadyBetween
        (leads.mute steady muteArguments))
      intro values after leadsOn steadyAfter blindAll
      exact below.call _ paren function values after steadyAfter
        (leadsOn.blind steadyBetween blind) blindAll

theorem evaluate_all_succ (below : PassesByWith config units) (watch : Watch)
    (expressions : List Expr) (machine : Machine) (steady : watch.Steady machine)
    (mute : watch.Mute machine.heap machine.current fun direct =>
      direct && (Expr.argumentReads expressions).contains watch.name.lexeme) :
    watch.Safe nowhere machine (trace config (units + 1) (.evaluateAll expressions) machine)
      (fun watch heap values => ∀ value ∈ values, value.Blind watch heap)
      (Treewalk.evaluateAll config (units + 1) expressions machine) := by
  cases expressions with
  | nil => exact safe_done steady (List.forall_mem_nil _)
  | cons first rest =>
      have muteFirst := mute.names (List.subset_append_left first.reads (Expr.argumentReads rest))
      have muteRest := mute.names (List.subset_append_right first.reads (Expr.argumentReads rest))
      apply safe_and_then (below.evaluate watch first machine steady muteFirst)
      intro value between leads steadyBetween blind
      apply safe_then (below.evaluateAll _ rest between steadyBetween (leads.mute steady muteRest))
      intro values after leadsOn steadyAfter blindAll
      exact safe_done steadyAfter
        (List.forall_mem_cons.mpr ⟨leadsOn.blind steadyBetween blind, blindAll⟩)

theorem call_succ (below : PassesByWith config units) (watch : Watch) (paren : Token)
    (callee : Value) (values : List Value) (machine : Machine) (steady : watch.Steady machine)
    (blind : callee.Blind watch machine.heap)
    (blindAll : ∀ value ∈ values, value.Blind watch machine.heap) :
    watch.Safe nowhere machine (trace config (units + 1) (.call paren callee values) machine)
      Value.Blind (Treewalk.call config (units + 1) paren callee values machine) := by
  cases callee with
  | callable callable =>
      simp only [Treewalk.call, trace]
      split
      · exact safe_raised misses_nil _ _
      · rename_i fits
        split
        · exact safe_raised misses_nil _ _
        · have inner := below.invoke watch callable values machine.enterCall
            ⟨steady.heap, steady.current⟩ blind blindAll (not_not.mp fits)
          apply Safe.leave_call
          exact inner.enter (.refl _ _) rfl fun _ => False.elim
  | _ => exact safe_raised misses_nil _ _

theorem invoke_succ (below : PassesByWith config units) (watch : Watch) (callable : Callable)
    (values : List Value) (machine : Machine) (steady : watch.Steady machine)
    (blind : (Value.callable callable).Blind watch machine.heap)
    (blindAll : ∀ value ∈ values, value.Blind watch machine.heap)
    (fits : values.length = callable.arity) :
    watch.Safe nowhere machine (trace config (units + 1) (.invoke callable values) machine)
      Value.Blind (Treewalk.invoke config (units + 1) callable values machine) := by
  obtain ⟨identity, code⟩ := callable
  cases code with
  | native function => exact call_native_safe config function steady
  | user declaration closure =>
      have body := blind identity declaration closure rfl
      have opened := steady.heap.child body.known declaration.body
      have extends_ := (Heap.Extends.child watch.name.lexeme machine.heap closure).trans
        (extends_bind_all _ _ machine.heap.next (declaration.parameters.zip values))
      have prepared : (watch.awaiting machine.heap.next declaration.body).Sound
          (machine.prepared declaration closure values).heap := by
        apply opened.bind_all
        intro binding inside
        exact steady.heap.blind_child closure _ (blindAll _ (List.of_mem_zip inside).2)
      have fresh : machine.heap.next < (machine.heap.child closure).next := by simp
      have new : machine.heap.next < (machine.prepared declaration closure values).heap.next :=
        Nat.lt_of_lt_of_le fresh (extends_bind_all watch.name.lexeme _ _ _).grown
      have inner := below.executeIn watch declaration.body machine.heap.next
        (machine.prepared declaration closure values) prepared
        (Nat.lt_trans steady.current new) new steady.apart body.tidy
          (prepared_mute steady body fits)
      apply safe_then (inner.enter extends_ rfl fun holder same => Nat.le_of_eq same.symm)
      intro flow after _ steadyAfter blindFlow
      cases flow with
      | returned value => exact safe_done steadyAfter (blindFlow value rfl)
      | normal => exact safe_done steadyAfter (blind_of_not_captures not_captures_nil)
      | broke => exact safe_done steadyAfter (blind_of_not_captures not_captures_nil)

theorem execute_branch (below : PassesByWith config units) {own : ScopeId → Prop}
    {branch : Stmt} (steady : watch.Steady machine)
    (tidy : ¬branch.Opens watch.name ∧ branch.Tidy watch.name)
    (mute : watch.Mute machine.heap machine.current fun direct =>
      branch.looksUp direct watch.name.lexeme) :
    watch.Safe own machine (trace config units (.execute branch) machine) Flow.Blind
      (Treewalk.execute config units branch machine) := by
  have safe := below.execute watch branch machine steady tidy.2
    (fun opens => absurd opens tidy.1) mute
  exact (safe.closed fun scope owned => tidy.1 owned.1).widen

theorem execute_succ (below : PassesByWith config units) (watch : Watch) (statement : Stmt)
    (machine : Machine) (steady : watch.Steady machine) (tidy : statement.Tidy watch.name)
    (expected : statement.Opens watch.name → watch.pending machine.current)
    (mute : watch.Mute machine.heap machine.current fun direct =>
      statement.looksUp direct watch.name.lexeme) :
    watch.Safe (fun scope => statement.Opens watch.name ∧ scope = machine.current) machine
      (trace config (units + 1) (.execute statement) machine) Flow.Blind
      (Treewalk.execute config (units + 1) statement machine) := by
  cases statement with
  | expression value =>
      apply safe_then (below.evaluate watch value machine steady mute)
      intro _ after _ steadyAfter _
      exact safe_done steadyAfter blind_normal
  | print keyword value =>
      apply safe_then (below.evaluate watch value machine steady mute)
      intro result after _ steadyAfter _
      exact print_safe _ steadyAfter
  | declare token initial =>
      have pending : ∀ holder, (Stmt.declare token initial).Opens watch.name ∧
          holder = machine.current → watch.pending holder := by
        rintro holder ⟨opens, rfl⟩
        exact expected opens
      have owned : token = watch.name → (Stmt.declare token initial).Opens watch.name := by
        rintro rfl
        exact ⟨initial, rfl⟩
      cases initial with
      | none =>
          exact declare_safe steady (blind_of_not_captures not_captures_nil)
            (fun holder same here => ⟨owned same, here⟩) pending
      | some initial =>
          apply safe_and_then (below.evaluate watch initial machine steady mute)
          intro value after leads steadyAfter blind
          exact declare_safe steadyAfter blind
            (fun holder same here => ⟨owned same, here.trans leads.current⟩) pending
  | block body location =>
      have opened := steady.heap.child steady.current body
      have new : machine.heap.next < (machine.openScope machine.current).heap.next := by
        simp [Machine.openScope]
      have inner := below.executeIn watch body machine.heap.next
        (machine.openScope machine.current) opened (Nat.lt_trans steady.current new) new
        steady.apart tidy.block (opened_mute steady mute)
      have extends_ := Heap.Extends.child watch.name.lexeme machine.heap machine.current
      exact (inner.enter extends_ rfl fun holder same => Nat.le_of_eq same.symm).widen
  | ifThen keyword condition consequent =>
      apply safe_and_then (below.evaluate watch condition machine steady mute.left)
      intro value between leads steadyBetween _
      split
      · exact below.execute_branch steadyBetween tidy.consequent (leads.mute steady mute.right)
      · exact safe_done steadyBetween blind_normal
  | ifElse keyword condition consequent alternative =>
      apply safe_and_then (below.evaluate watch condition machine steady mute.left.left)
      intro value between leads steadyBetween _
      split
      · exact below.execute_branch steadyBetween tidy.branches.1
          (leads.mute steady mute.left.right)
      · exact below.execute_branch steadyBetween tidy.branches.2 (leads.mute steady mute.right)
  | loop keyword condition body =>
      exact (below.iterate watch condition body machine steady tidy.body.1 tidy.body.2 mute).widen
  | function token parameters body =>
      have blind : FunctionDecl.Blind watch machine.heap machine.current
          ⟨token, parameters, body⟩ :=
        ⟨steady.current, tidy.function, fun holder ⟨direct, covers⟩ passes =>
          mute direct holder covers passes⟩
      apply declare_function_safe _ steady blind
      rintro holder ⟨opens, rfl⟩
      exact expected opens
  | returnValue keyword value =>
      cases value with
      | none => exact safe_done steady (blind_returned (blind_of_not_captures not_captures_nil))
      | some value =>
          apply safe_then (below.evaluate watch value machine steady mute)
          intro result after _ steadyAfter blind
          exact safe_done steadyAfter (blind_returned blind)
  | breakLoop keyword => exact safe_done steady blind_broke

theorem iterate_succ (below : PassesByWith config units) (watch : Watch) (condition : Expr)
    (body : Stmt) (machine : Machine) (steady : watch.Steady machine)
    (plain : ¬body.Opens watch.name) (tidy : body.Tidy watch.name)
    (mute : watch.Mute machine.heap machine.current fun direct =>
      condition.looksUp direct watch.name.lexeme || body.looksUp direct watch.name.lexeme) :
    watch.Safe nowhere machine (trace config (units + 1) (.iterate condition body) machine)
      Flow.Blind (Treewalk.iterate config (units + 1) condition body machine) := by
  apply safe_and_then (below.evaluate watch condition machine steady mute.left)
  intro value between leads steadyBetween _
  have muteBetween := leads.mute steady mute
  split
  · apply safe_and_then (below.execute_branch steadyBetween ⟨plain, tidy⟩ muteBetween.right)
    intro flow after leadsOn steadyAfter blind
    cases flow with
    | normal =>
        exact below.iterate _ condition body after steadyAfter plain tidy
          (leadsOn.mute steadyBetween muteBetween)
    | broke => exact safe_done steadyAfter blind_normal
    | returned result => exact safe_done steadyAfter blind
  · exact safe_done steadyBetween blind_normal

/-- The scope that was current is put back; the scope of the body is the body's own. -/
theorem execute_in_succ (below : PassesByWith config units) (watch : Watch) (body : List Stmt)
    (scope : ScopeId) (machine : Machine) (sound : (watch.awaiting scope body).Sound machine.heap)
    (current : machine.current < machine.heap.next) (known : scope < machine.heap.next)
    (apart : ¬watch.pending scope) (tidy : Stmt.TidyBody watch.name body)
    (mute : watch.Mute machine.heap scope fun direct =>
      Stmt.looksUpIn direct watch.name.lexeme body) :
    watch.Safe (fun other => other = scope) machine
      (trace config (units + 1) (.executeIn body scope) machine) Flow.Blind
      (Treewalk.executeIn config (units + 1) body scope machine) := by
  have inner := below.executeAll watch body (machine.enter scope) ⟨sound, known⟩ apart tidy mute
  refine ⟨inner.misses, fun flow after done => ?_⟩
  simp only [Treewalk.executeIn] at done
  cases ran : Treewalk.executeAll config units body (machine.enter scope) with
  | done result ended =>
      rw [ran] at done
      cases done
      obtain ⟨leads, blind⟩ := inner.ends _ _ ran
      refine ⟨⟨⟨leads.steady.heap, ?_⟩, leads.heap, rfl, leads.fresh⟩, blind⟩
      exact Nat.lt_of_lt_of_le current leads.heap.grown
  | raised error ended =>
      rw [ran] at done
      cases done
  | exhausted =>
      rw [ran] at done
      cases done
  | stuck =>
      rw [ran] at done
      cases done

/-- The first statement of a sheltered body is mute while the declaration is ahead. -/
theorem mute_first {first : Stmt} {rest : List Stmt}
    (tidy : Stmt.TidyBody watch.name (first :: rest))
    (mute : watch.Mute machine.heap machine.current fun direct =>
      Stmt.looksUpIn direct watch.name.lexeme (first :: rest)) :
    (watch.awaiting machine.current (first :: rest)).Mute machine.heap machine.current fun direct =>
      first.looksUp direct watch.name.lexeme := by
  intro direct holder covers passes
  cases direct with
  | true => exact (Bool.or_eq_false_iff.mp (mute true holder covers passes)).1
  | false =>
      rcases covers with pending | ⟨-, statement, inside, opens⟩
      · exact (Bool.or_eq_false_iff.mp (mute false holder pending passes)).1
      · rcases List.mem_cons.mp inside with rfl | inside
        · obtain ⟨initial, rfl⟩ := opens
          cases initial <;> rfl
        · exact tidy.own.front ⟨statement, inside, opens⟩

/-- A declaration of the name hides what is around; if it is the watched one, it is not read
behind. -/
theorem mute_behind_declare {token : Token} {initial : Option Expr} {rest : List Stmt} {flow : Flow}
    {between : Machine} (isName : token.lexeme = watch.name.lexeme)
    (sheltered : Stmt.Sheltered watch.name (.declare token initial :: rest))
    (apart : ¬watch.pending between.current)
    (done : Treewalk.execute config units (.declare token initial) machine = .done flow between)
    (known : between.current < between.heap.next) :
    (watch.after (trace config units (.execute (.declare token initial)) machine)).Mute
      between.heap between.current fun direct =>
        Stmt.looksUpIn direct watch.name.lexeme rest := by
  intro direct holder covers passes
  obtain ⟨value, before, past, rfl, events⟩ := declared_of_done done
  rw [Machine.define, Heap.define_next] at known
  have bound : (before.define token.lexeme value).heap.Bound watch.name.lexeme before.current :=
    isName ▸ Heap.bound_define known
  obtain rfl := passes.eq_of_bound bound
  cases direct with
  | false => exact absurd covers apart
  | true =>
      have same : token = watch.name := by
        unfold Covers after at covers
        rw [events, Origins.after_append] at covers
        simpa [Origins.after, Origins.next, Origins.set, isName] using covers
      subst same
      exact sheltered.behind

/-- A statement that does not declare the name leaves what is behind it as mute as it was. -/
theorem mute_behind_other {first : Stmt} {rest ahead : List Stmt} {events : List Event}
    {between : Machine} (other : first.declares watch.name.lexeme = false)
    (steady : (watch.awaiting machine.current ahead).Steady machine)
    (mute : watch.Mute machine.heap machine.current fun direct =>
      Stmt.looksUpIn direct watch.name.lexeme (first :: rest))
    (leads : (watch.awaiting machine.current ahead).Leads
      (fun scope => first.Opens watch.name ∧ scope = machine.current) events machine between) :
    (watch.after events).Mute between.heap between.current fun direct =>
      Stmt.looksUpIn direct watch.name.lexeme rest := by
  intro direct holder covers passes
  rw [leads.current] at passes
  obtain ⟨passes, old⟩ := leads.heap.passes_back steady.heap.grounded passes steady.current
  have covered : watch.Covers direct holder := by
    cases direct with
    | false => exact covers
    | true =>
        rcases leads.fresh holder covers with covered | new | ⟨⟨initial, rfl⟩, -⟩
        · exact covered
        · exact absurd old (Nat.not_lt.mpr new)
        · simp [Stmt.declares] at other
  have silent := (Bool.or_eq_false_iff.mp (mute direct holder covered passes)).2
  rwa [other, Bool.not_false, Bool.true_and] at silent

theorem mute_rest {first : Stmt} {rest : List Stmt} {flow : Flow} {between : Machine}
    (tidy : Stmt.TidyBody watch.name (first :: rest)) (apart : ¬watch.pending machine.current)
    (steady : (watch.awaiting machine.current (first :: rest)).Steady machine)
    (mute : watch.Mute machine.heap machine.current fun direct =>
      Stmt.looksUpIn direct watch.name.lexeme (first :: rest))
    (done : Treewalk.execute config units first machine = .done flow between)
    (leads : (watch.awaiting machine.current (first :: rest)).Leads
      (fun scope => first.Opens watch.name ∧ scope = machine.current)
      (trace config units (.execute first) machine) machine between) :
    (watch.after (trace config units (.execute first) machine)).Mute between.heap between.current
      fun direct => Stmt.looksUpIn direct watch.name.lexeme rest := by
  cases declares : first.declares watch.name.lexeme with
  | false => exact mute_behind_other declares steady mute leads
  | true =>
      cases first with
      | declare token initial =>
          have isName : token.lexeme = watch.name.lexeme := by simpa [Stmt.declares] using declares
          exact mute_behind_declare isName tidy.own (leads.current ▸ apart) done
            leads.steady.current
      | _ => cases declares

theorem execute_all_succ (below : PassesByWith config units) (watch : Watch) (body : List Stmt)
    (machine : Machine) (steady : (watch.awaiting machine.current body).Steady machine)
    (apart : ¬watch.pending machine.current) (tidy : Stmt.TidyBody watch.name body)
    (mute : watch.Mute machine.heap machine.current fun direct =>
      Stmt.looksUpIn direct watch.name.lexeme body) :
    watch.Safe (fun other => other = machine.current) machine
      (trace config (units + 1) (.executeAll body) machine) Flow.Blind
      (Treewalk.executeAll config (units + 1) body machine) := by
  cases body with
  | nil =>
      have narrowed : watch.Steady machine :=
        ⟨steady.heap.narrow rfl fun _ minds => minds_of_awaiting machine.current [] minds,
          steady.current⟩
      exact safe_done narrowed blind_normal
  | cons first rest =>
      have safeFirst := below.execute (watch.awaiting machine.current (first :: rest)) first machine
        steady tidy.inside.first (fun opens => .inr ⟨rfl, first, List.mem_cons_self, opens⟩)
        (mute_first tidy mute)
      have misses : watch.origins.Misses watch.name (trace config units (.execute first) machine) :=
        safeFirst.misses
      simp only [Treewalk.executeAll, trace]
      cases done : Treewalk.execute config units first machine with
      | done flow between =>
          obtain ⟨leads, blind⟩ := safeFirst.ends flow between done
          have leadsOn : watch.Leads (fun other => other = machine.current)
              (trace config units (.execute first) machine) machine between :=
            leads.forget fun _ owned => owned.2
          apply Safe.behind misses leadsOn
          cases flow with
          | normal =>
              have ahead : ((watch.after (trace config units (.execute first) machine)).awaiting
                  between.current rest).Steady between := by
                refine ⟨leads.steady.heap.narrow rfl ?_, leads.steady.current⟩
                rintro holder ⟨direct, covers⟩
                cases direct with
                | true => exact ⟨true, covers⟩
                | false =>
                    refine ⟨false, covers.imp_right ?_⟩
                    rintro ⟨rfl, statement, inside, opens⟩
                    exact ⟨leads.current, statement, List.mem_cons_of_mem _ inside, opens⟩
              have still : ¬watch.pending between.current := by
                rw [leads.current]
                exact apart
              have inner := below.executeAll _ rest between ahead still tidy.rest
                (mute_rest tidy apart steady mute done leads)
              rw [leads.current] at inner
              exact inner
          | broke => exact safe_done leadsOn.steady blind_broke
          | returned value =>
              apply safe_done leadsOn.steady
              apply blind_returned
              refine (blind value rfl).carry rfl leads.steady.heap.grounded (.refl _ _) ?_
              exact fun holder _ minds => minds_of_awaiting machine.current (first :: rest) minds
      | raised error between => exact safe_raised (misses_append misses misses_nil) error between
      | exhausted => exact safe_exhausted (misses_append misses misses_nil)
      | stuck => exact safe_stuck (misses_append misses misses_nil)

end PassesByWith

/-- All parts of the evaluator pass by the watched declaration, with any budget. -/
theorem passes_by_with (config : Config) (units : Nat) : PassesByWith config units := by
  induction units with
  | zero =>
      constructor
      all_goals intros
      all_goals exact safe_exhausted misses_nil
  | succ units below =>
      constructor
      · exact below.evaluate_succ
      · exact below.evaluate_all_succ
      · exact below.call_succ
      · exact below.invoke_succ
      · exact below.execute_succ
      · exact below.iterate_succ
      · exact below.execute_in_succ
      · exact below.execute_all_succ

end Treewalk
