import Mathlib.Data.List.Find
import Treewalk.Proofs.Evaluation.Growth

/-!
# Trees of scopes and their histories

A tree of scopes grows out of the global scope: scopes are put inside others, names are defined,
looked up and assigned, in any order. What is looked up afterwards can be told from this history
alone: a name stands for the nearest scope outward that has it, and there for the value that came
last. Scopes that share an ancestor share what is written to it, as far as nothing in between hides
it; everything else stays as it was.
-/

namespace Treewalk

set_option autoImplicit false

namespace Outcome

variable {α : Type}

/-- The machine in which the step ends; the one before it if the step does not end. -/
def machineAfter (before : Machine) : Outcome α → Machine
  | .done _ machine => machine
  | .raised _ machine => machine
  | .exhausted => before
  | .stuck => before

def answer? : Outcome α → Option (Except RuntimeError α)
  | .done value _ => some (.ok value)
  | .raised error _ => some (.error error)
  | .exhausted => none
  | .stuck => none

end Outcome

section Values

theorem Scope.find_define (scope : Scope) (name : String) (value : Value) (sought : String) :
    (scope.define name value).find? sought =
      if sought = name then some value else scope.find? sought := by
  show ((Scope.put name value scope.bindings).find? _).map Prod.snd =
    if sought = name then some value else (scope.bindings.find? _).map Prod.snd
  induction scope.bindings with
  | nil => by_cases same : sought = name <;> simp [Scope.put, same, Ne.symm]
  | cons binding rest ih =>
      unfold Scope.put
      by_cases here : binding.1 = name
      · -- The binding is replaced, and a lookup of another name passes both the old and the new
        -- one.
        by_cases same : sought = name
        · simp [here, same]
        · have passed : (name == sought) = false := beq_eq_false_iff_ne.mpr (Ne.symm same)
          simp [here, same, passed]
      · by_cases found : binding.1 = sought
        · have other : sought ≠ name := fun same => here (found.trans same)
          simp [found, other]
        · have passed : (binding.1 == sought) = false := beq_eq_false_iff_ne.mpr found
          simpa [here, List.find?_cons, passed] using ih

namespace Heap

def valueIn? (heap : Heap) (scope : ScopeId) (name : String) : Option Value :=
  (heap.scopes[scope]?).bind fun found => found.find? name

variable {heap : Heap} {scope : ScopeId}

theorem binds_eq_value (heap : Heap) (name : String) (scope : ScopeId) :
    heap.binds name scope = (heap.valueIn? scope name).isSome := by
  unfold binds valueIn?
  cases heap.scopes[scope]? with
  | none => rfl
  | some found =>
      show found.bindings.any _ = ((found.bindings.find? _).map Prod.snd).isSome
      rw [Option.isSome_map, List.isSome_find?]

theorem get_eq (heap : Heap) (scope : ScopeId) (name : String) :
    heap.get? scope name =
      (heap.resolve scope name).bind fun holder => heap.valueIn? holder name :=
  rfl

theorem value_define (known : scope < heap.next) (name : String) (value : Value)
    (other : ScopeId) (sought : String) :
    (heap.define scope name value).valueIn? other sought =
      if other = scope ∧ sought = name then some value else heap.valueIn? other sought := by
  unfold valueIn?
  by_cases here : other = scope
  · subst here
    rw [define_here, show heap.scopes[other]? = some _ from Array.getElem?_eq_getElem known]
    simp only [Option.map_some, Option.bind_some, true_and, Scope.find_define]
  · rw [define_elsewhere heap name value here, if_neg fun both => here both.1]

theorem value_child (heap : Heap) (enclosing other : ScopeId) (sought : String) :
    (heap.child enclosing).valueIn? other sought = heap.valueIn? other sought := by
  unfold valueIn?
  rw [Heap.child, Array.getElem?_push]
  split
  · rename_i new
    rw [new, Array.getElem?_size]
    rfl
  · rfl

theorem resolve_along {chain : List ScopeId} (leads : heap.Chain scope chain)
    (short : chain.length ≤ scope + 1) (name : String) :
    heap.resolve scope name = chain.find? fun holder => (heap.valueIn? holder name).isSome := by
  rw [resolve, resolve_within_of_chain leads name short]
  exact List.find?_congr fun holder _ => heap.binds_eq_value name holder

/-- A search that does not end at this scope is not changed by what holds of this scope. -/
theorem find_away {first second : ScopeId → Bool} {chain : List ScopeId}
    (agree : ∀ other, other ≠ scope → first other = second other) (holds : first scope = true)
    (away : chain.find? first ≠ some scope) : chain.find? first = chain.find? second := by
  induction chain with
  | nil => rfl
  | cons other rest ih =>
      have different : other ≠ scope := by
        rintro rfl
        exact away (List.find?_cons_of_pos holds)
      rw [List.find?_cons] at away ⊢
      rw [List.find?_cons, ← agree other different]
      cases found : first other with
      | true => rfl
      | false =>
          rw [found] at away
          exact ih away

/-- Once a value has been put into a scope, it is what a lookup gives that comes to this scope with
this name. Other lookups give what they gave before. -/
theorem get_define {other : ScopeId} {chain : List ScopeId} (leads : heap.Chain other chain)
    (short : chain.length ≤ other + 1) (known : scope < heap.next) (name : String) (value : Value)
    (sought : String) :
    (heap.define scope name value).get? other sought =
      if sought = name ∧ (heap.define scope name value).resolve other name = some scope
      then some value else heap.get? other sought := by
  have later := (Grown.define heap scope name value).chain leads
  have written := value_define known name value
  by_cases same : sought = name
  · subst same
    by_cases ends : (heap.define scope sought value).resolve other sought = some scope
    · rw [if_pos ⟨rfl, ends⟩, get_eq, ends, Option.bind_some, written, if_pos ⟨rfl, rfl⟩]
    · rw [if_neg fun both => ends both.2, get_eq, get_eq]
      have unchanged : (heap.define scope sought value).resolve other sought =
          heap.resolve other sought := by
        rw [resolve_along later short] at ends ⊢
        rw [resolve_along leads short]
        refine find_away (fun between different => ?_) ?_ ends
        · rw [written, if_neg fun both => different both.1]
        · rw [written, if_pos ⟨rfl, rfl⟩]
          rfl
      rw [unchanged] at ends ⊢
      refine Option.bind_congr fun holder found => ?_
      rw [written, if_neg]
      rintro ⟨rfl, -⟩
      exact ends found
  · rw [if_neg fun both => same both.1, get_eq, get_eq, resolve_along later short,
      resolve_along leads short]
    have unchanged : ∀ holder, (heap.define scope name value).valueIn? holder sought =
        heap.valueIn? holder sought := fun holder => by rw [written, if_neg fun both => same both.2]
    simp only [unchanged]

end Heap

end Values

section Variables

variable {name : Token} {machine : Machine}

theorem read_some {value : Value}
    (found : machine.heap.get? machine.current name.lexeme = some value) :
    readVariable name machine = .done value machine := by
  unfold readVariable
  rw [found]

theorem read_none (none : machine.heap.get? machine.current name.lexeme = none) :
    readVariable name machine = .raised ⟨.undefinedVariable name.lexeme, name⟩ machine := by
  unfold readVariable
  rw [none]

theorem write_some {holder : ScopeId} (value : Value)
    (found : machine.heap.resolve machine.current name.lexeme = some holder) :
    writeVariable name value machine =
      .done value { machine with heap := machine.heap.define holder name.lexeme value } := by
  unfold writeVariable
  rw [found]

theorem write_none (value : Value)
    (none : machine.heap.resolve machine.current name.lexeme = none) :
    writeVariable name value machine =
      .raised ⟨.undefinedVariable name.lexeme, name⟩ machine := by
  unfold writeVariable
  rw [none]

theorem machine_after_read (name : Token) (machine : Machine) :
    (readVariable name machine).machineAfter machine = machine := by
  unfold readVariable
  split <;> rfl

/-- What a reader learns depends on what the lookup gives and on nothing else. -/
theorem answer_of_lookup {other : Machine}
    (same : machine.heap.get? machine.current name.lexeme =
      other.heap.get? other.current name.lexeme) :
    (readVariable name machine).answer? = (readVariable name other).answer? := by
  unfold readVariable
  rw [same]
  cases other.heap.get? other.current name.lexeme <;> rfl

end Variables

/-- How a tree of so many scopes has come about. -/
inductive History : Nat → Type where
  | start : History 1
  | child {count : Nat} (earlier : History count) (enclosing : Fin count) : History (count + 1)
  | define {count : Nat} (earlier : History count) (scope : Fin count) (name : String)
      (value : Value) : History count
  | get {count : Nat} (earlier : History count) (scope : Fin count) (name : Token) : History count
  | assign {count : Nat} (earlier : History count) (scope : Fin count) (name : Token)
      (value : Value) : History count

namespace History

def machine (origin : Machine) : {count : Nat} → History count → Machine
  | _, start => { origin with heap := Heap.initial }
  | _, child earlier enclosing => (earlier.machine origin).openScope enclosing
  | _, define earlier scope name value => ((earlier.machine origin).enter scope).define name value
  | _, get earlier scope name =>
      let before := (earlier.machine origin).enter scope
      (readVariable name before).machineAfter before
  | _, assign earlier scope name value =>
      let before := (earlier.machine origin).enter scope
      (writeVariable name value before).machineAfter before

def chain : {count : Nat} → History count → ScopeId → List ScopeId
  | _, start, _ => [Heap.global]
  | _, @child count earlier enclosing, scope =>
      if scope = count then scope :: earlier.chain enclosing else earlier.chain scope
  | _, define earlier _ _ _, scope => earlier.chain scope
  | _, get earlier _ _, scope => earlier.chain scope
  | _, assign earlier _ _ _, scope => earlier.chain scope

/-- The value that the name got last in this scope, where an assignment gives it to the name in the
nearest scope outward that has the name at that time. -/
def last? : {count : Nat} → History count → ScopeId → String → Option Value
  | _, start, _, _ => none
  | _, child earlier _, scope, name => earlier.last? scope name
  | _, define earlier holder other value, scope, name =>
      if scope = holder ∧ name = other then some value else earlier.last? scope name
  | _, get earlier _ _, scope, name => earlier.last? scope name
  | _, assign earlier inner other value, scope, name =>
      let holder? := (earlier.chain inner).find? fun holder =>
        (earlier.last? holder other.lexeme).isSome
      if holder? = some scope ∧ name = other.lexeme then some value else earlier.last? scope name

variable {count : Nat}

def resolved? (history : History count) (scope : ScopeId) (name : String) : Option ScopeId :=
  (history.chain scope).find? fun holder => (history.last? holder name).isSome

theorem last_of_resolved {history : History count} {scope holder : ScopeId} {name : String}
    (found : history.resolved? scope name = some holder) :
    ∃ value, history.last? holder name = some value := by
  have bound := List.find?_some found
  exact Option.isSome_iff_exists.mp bound

/-- The first scope lies on the way outward from the second, and no scope in front of it has the
name. -/
def Exposed (history : History count) (name : String) (scope other : ScopeId) : Prop :=
  ∃ inner outer, history.chain other = inner ++ scope :: outer ∧
    ∀ between ∈ inner, history.last? between name = none

def within (history : History count) (origin : Machine) (scope : ScopeId) : Machine :=
  (history.machine origin).enter scope

/-- For a reader, the change gives this value to the name in these scopes, and changes nothing
else. -/
structure Changed (history : History count) (origin after : Machine) (name : String)
    (value : Value) (reaches : ScopeId → Prop) : Prop where
  there : ∀ (other : Fin count) (sought : Token), sought.lexeme = name → reaches other →
    readVariable sought (after.enter other) = .done value (after.enter other)
  elsewhere : ∀ (other : Fin count) (sought : Token), ¬(sought.lexeme = name ∧ reaches other) →
    (readVariable sought (after.enter other)).answer? =
      (readVariable sought (history.within origin other)).answer?

structure Lawful (history : History count) (origin : Machine) : Prop where
  /-- What is read is the value that the name got last in the scope that it stands for. -/
  read : ∀ (scope : Fin count) (name : Token) (holder : ScopeId),
    history.resolved? scope name.lexeme = some holder →
      ∃ value, history.last? holder name.lexeme = some value ∧
        readVariable name (history.within origin scope) =
          .done value (history.within origin scope)
  /-- Reading fails exactly if the name stands for nothing. -/
  unread : ∀ (scope : Fin count) (name : Token),
    readVariable name (history.within origin scope) =
        .raised ⟨.undefinedVariable name.lexeme, name⟩ (history.within origin scope) ↔
      history.resolved? scope name.lexeme = none
  /-- So does assigning, which then changes nothing. -/
  unassigned : ∀ (scope : Fin count) (name : Token) (value : Value),
    writeVariable name value (history.within origin scope) =
        .raised ⟨.undefinedVariable name.lexeme, name⟩ (history.within origin scope) ↔
      history.resolved? scope name.lexeme = none
  /-- Otherwise assigning changes the name wherever it stands for the same scope. -/
  assigned : ∀ (scope : Fin count) (name : Token) (value : Value) (holder : ScopeId),
    history.resolved? scope name.lexeme = some holder →
      ∃ after, writeVariable name value (history.within origin scope) = .done value after ∧
        history.Changed origin after name.lexeme value fun other =>
          history.resolved? other name.lexeme = some holder
  /-- Defining changes the name wherever the scope is seen. -/
  defined : ∀ (scope : Fin count) (name : String) (value : Value),
    history.Changed origin ((history.within origin scope).define name value) name value
      (history.Exposed name scope)

structure Shows (history : History count) (heap : Heap) : Prop where
  next : heap.next = count
  leads : ∀ scope < count, heap.Chain scope (history.chain scope)
  short : ∀ scope < count, (history.chain scope).length ≤ scope + 1
  values : ∀ scope name, heap.valueIn? scope name = history.last? scope name

namespace Shows

variable {history : History count} {heap : Heap} {scope : ScopeId}

theorem resolve (shows_ : history.Shows heap) (known : scope < count) (name : String) :
    heap.resolve scope name = history.resolved? scope name := by
  rw [Heap.resolve_along (shows_.leads scope known) (shows_.short scope known)]
  simp only [shows_.values]
  rfl

theorem get (shows_ : history.Shows heap) (known : scope < count) (name : String) :
    heap.get? scope name =
      (history.resolved? scope name).bind fun holder => history.last? holder name := by
  rw [Heap.get_eq, shows_.resolve known]
  simp only [shows_.values]

theorem start : History.start.Shows Heap.initial where
  next := rfl
  leads scope known := by
    obtain rfl : scope = Heap.global := Nat.lt_one_iff.mp known
    exact .outermost rfl
  short scope known := Nat.le_add_left 1 scope
  values scope name := by
    cases scope <;> rfl

theorem child (shows_ : history.Shows heap) (enclosing : Fin count) :
    (history.child enclosing).Shows (heap.child enclosing) where
  next := by rw [Heap.child_next, shows_.next]
  leads scope known := by
    rw [chain]
    have grown := Heap.Grown.child heap enclosing
    split
    · rename_i new
      rw [new.trans shows_.next.symm]
      exact .inside (heap.around_child enclosing) (grown.chain (shows_.leads _ enclosing.isLt))
    · rename_i old
      exact grown.chain (shows_.leads scope (Nat.lt_of_le_of_ne (Nat.le_of_lt_succ known) old))
  short scope known := by
    rw [chain]
    split
    · rename_i new
      have further := shows_.short enclosing enclosing.isLt
      rw [List.length_cons, new]
      exact Nat.succ_le_succ (Nat.le_trans further enclosing.isLt)
    · rename_i old
      exact shows_.short scope (Nat.lt_of_le_of_ne (Nat.le_of_lt_succ known) old)
  values scope name := by rw [Heap.value_child, shows_.values, last?]

/-- Whatever puts a value into a scope is told of by a history that has the same chains and this
value last. -/
theorem put {later : History count} (shows_ : history.Shows heap) {holder : ScopeId}
    {name : String} {value : Value} (known : holder < count) (chains : later.chain = history.chain)
    (last : ∀ scope sought, later.last? scope sought =
      if scope = holder ∧ sought = name then some value else history.last? scope sought) :
    later.Shows (heap.define holder name value) where
  next := by rw [Heap.define_next, shows_.next]
  leads scope known := by
    rw [chains]
    exact (Heap.Grown.define heap holder name value).chain (shows_.leads scope known)
  short scope known := by
    rw [chains]
    exact shows_.short scope known
  values scope sought := by
    rw [Heap.value_define (by rwa [shows_.next]), last, shows_.values]

theorem holder_known (shows_ : history.Shows heap) {name : String} {holder : ScopeId}
    (found : history.resolved? scope name = some holder) : holder < count := by
  obtain ⟨value, last⟩ := last_of_resolved found
  rw [← shows_.values] at last
  obtain ⟨scope, at_, -⟩ := Option.bind_eq_some_iff.mp last
  rw [← shows_.next]
  exact (Array.getElem?_eq_some_iff.mp at_).1

end Shows

section Writes

variable {history : History count} {heap : Heap}

theorem last_assign {scope : Fin count} {name : Token} {holder : ScopeId}
    (found : history.resolved? scope name.lexeme = some holder) (value : Value) (other : ScopeId)
    (sought : String) :
    (history.assign scope name value).last? other sought =
      if other = holder ∧ sought = name.lexeme then some value else history.last? other sought := by
  show (if history.resolved? scope name.lexeme = some other ∧ sought = name.lexeme then some value
    else history.last? other sought) = _
  by_cases both : other = holder ∧ sought = name.lexeme
  · rw [if_pos both, if_pos ⟨found.trans (congrArg some both.1.symm), both.2⟩]
  · rw [if_neg both, if_neg]
    rintro ⟨same, named⟩
    exact both ⟨Option.some.inj (same.symm.trans found), named⟩

theorem last_assign_of_none {scope : Fin count} {name : Token}
    (none : history.resolved? scope name.lexeme = none) (value : Value) :
    (history.assign scope name value).last? = history.last? := by
  funext other sought
  show (if history.resolved? scope name.lexeme = some other ∧ sought = name.lexeme then some value
    else history.last? other sought) = _
  rw [if_neg]
  rintro ⟨same, -⟩
  rw [none] at same
  cases same

theorem resolved_assign {scope : Fin count} {name : Token} {holder : ScopeId}
    (found : history.resolved? scope name.lexeme = some holder) (value : Value) (other : ScopeId) :
    (history.assign scope name value).resolved? other name.lexeme =
      history.resolved? other name.lexeme := by
  obtain ⟨_, last⟩ := last_of_resolved found
  refine List.find?_congr fun between _ => ?_
  rw [last_assign found]
  split
  · rename_i same
    rw [same.1, last]
    rfl
  · rfl

/-- A name that has just been defined stands for the scope where this scope is seen. -/
theorem resolved_define_iff {scope : Fin count} {name : String} {value : Value}
    {other : ScopeId} :
    (history.define scope name value).resolved? other name = some ↑scope ↔
      history.Exposed name scope other := by
  have bound : ∀ between, ((history.define scope name value).last? between name).isSome =
      (decide (between = ↑scope) || (history.last? between name).isSome) := by
    intro between
    rw [last?]
    by_cases here : between = ↑scope <;> simp [here]
  unfold resolved? Exposed
  simp only [bound]
  constructor
  · intro found
    obtain ⟨-, inner, outer, split, free⟩ := List.find?_eq_some_iff_append.mp found
    refine ⟨inner, outer, split, fun between inside => ?_⟩
    have passed := free between inside
    simp only [Bool.not_or, Bool.and_eq_true, Bool.not_eq_true'] at passed
    simpa using passed.2
  · rintro ⟨inner, outer, split, free⟩
    -- If the search ends in front of this occurrence of the scope, then at an earlier one.
    rw [show (history.define scope name value).chain other = history.chain other from rfl, split,
      List.find?_append]
    cases early : inner.find? _ with
    | none => simp
    | some between =>
        have inside := List.mem_of_find?_eq_some early
        have stops := List.find?_some early
        simp [free between inside] at stops
        rw [stops]
        rfl

end Writes

theorem shows_machine (origin : Machine) (history : History count) :
    history.Shows (history.machine origin).heap := by
  induction history with
  | start => exact .start
  | child earlier enclosing ih => exact ih.child enclosing
  | define earlier scope name value ih => exact ih.put scope.isLt rfl fun _ _ => rfl
  | get earlier scope name ih =>
      show (earlier.get scope name).Shows
        ((readVariable name (earlier.within origin scope)).machineAfter
          (earlier.within origin scope)).heap
      rw [machine_after_read]
      exact ⟨ih.next, ih.leads, ih.short, ih.values⟩
  | assign earlier scope name value ih =>
      have resolved := ih.resolve scope.isLt name.lexeme
      show (earlier.assign scope name value).Shows
        ((writeVariable name value (earlier.within origin scope)).machineAfter
          (earlier.within origin scope)).heap
      cases found : earlier.resolved? scope name.lexeme with
      | none =>
          rw [write_none value (resolved.trans found)]
          refine ⟨ih.next, ih.leads, ih.short, ?_⟩
          rw [last_assign_of_none found]
          exact ih.values
      | some holder =>
          rw [write_some value (resolved.trans found)]
          exact ih.put (ih.holder_known found) rfl (last_assign found value)

section Laws

variable (origin : Machine) (history : History count)

/-- A reader sees a value that was put into a scope where the name stands for that scope. -/
theorem changed_of_put {after : Machine} {holder : ScopeId} {name : String} {value : Value}
    {reaches : ScopeId → Prop} (known : holder < count)
    (put : after.heap = (history.machine origin).heap.define holder name value)
    (reach : ∀ other < count, after.heap.resolve other name = some holder ↔ reaches other) :
    history.Changed origin after name value reaches := by
  have shows_ := history.shows_machine origin
  have looks : ∀ (other : Fin count) (sought : String), after.heap.get? other sought =
      if sought = name ∧ after.heap.resolve other name = some holder then some value
      else (history.machine origin).heap.get? other sought := by
    intro other sought
    rw [put]
    exact Heap.get_define (shows_.leads other other.isLt) (shows_.short other other.isLt)
      (by rwa [shows_.next]) name value sought
  constructor
  · intro other sought same reached
    exact read_some ((looks other sought.lexeme).trans
      (if_pos ⟨same, (reach other other.isLt).mpr reached⟩))
  · intro other sought away
    exact answer_of_lookup ((looks other sought.lexeme).trans
      (if_neg fun both => away ⟨both.1, (reach other other.isLt).mp both.2⟩))

variable {origin history}

theorem read_law {scope : Fin count} {name : Token} {holder : ScopeId}
    (found : history.resolved? scope name.lexeme = some holder) :
    ∃ value, history.last? holder name.lexeme = some value ∧
      readVariable name (history.within origin scope) =
        .done value (history.within origin scope) := by
  obtain ⟨value, last⟩ := last_of_resolved found
  have looks := (history.shows_machine origin).get scope.isLt name.lexeme
  rw [found, Option.bind_some, last] at looks
  exact ⟨value, last, read_some looks⟩

theorem unread_law {scope : Fin count} {name : Token} :
    readVariable name (history.within origin scope) =
        .raised ⟨.undefinedVariable name.lexeme, name⟩ (history.within origin scope) ↔
      history.resolved? scope name.lexeme = none := by
  constructor
  · intro failed
    cases found : history.resolved? scope name.lexeme with
    | none => rfl
    | some holder =>
        obtain ⟨value, -, read⟩ := read_law found
        rw [read] at failed
        cases failed
  · intro none
    have looks := (history.shows_machine origin).get scope.isLt name.lexeme
    rw [none, Option.bind_none] at looks
    exact read_none looks

theorem write_law {scope : Fin count} {name : Token} {holder : ScopeId} (value : Value)
    (found : history.resolved? scope name.lexeme = some holder) :
    writeVariable name value (history.within origin scope) =
      .done value { history.within origin scope with
        heap := (history.machine origin).heap.define holder name.lexeme value } :=
  write_some value (((history.shows_machine origin).resolve scope.isLt name.lexeme).trans found)

theorem unassigned_law {scope : Fin count} {name : Token} {value : Value} :
    writeVariable name value (history.within origin scope) =
        .raised ⟨.undefinedVariable name.lexeme, name⟩ (history.within origin scope) ↔
      history.resolved? scope name.lexeme = none := by
  constructor
  · intro failed
    cases found : history.resolved? scope name.lexeme with
    | none => rfl
    | some holder =>
        rw [write_law value found] at failed
        cases failed
  · intro none
    exact write_none value
      (((history.shows_machine origin).resolve scope.isLt name.lexeme).trans none)

theorem assigned_law {scope : Fin count} {name : Token} {holder : ScopeId} (value : Value)
    (found : history.resolved? scope name.lexeme = some holder) :
    history.Changed origin { history.within origin scope with
        heap := (history.machine origin).heap.define holder name.lexeme value }
      name.lexeme value fun other => history.resolved? other name.lexeme = some holder := by
  have shows_ := history.shows_machine origin
  have known := shows_.holder_known found
  have later : (history.assign scope name value).Shows
      ((history.machine origin).heap.define holder name.lexeme value) :=
    shows_.put known rfl (last_assign found value)
  refine changed_of_put origin history known rfl fun other inside => ?_
  rw [later.resolve inside, resolved_assign found]

theorem defined_law {scope : Fin count} {name : String} {value : Value} :
    history.Changed origin ((history.within origin scope).define name value) name value
      (history.Exposed name scope) := by
  have later : (history.define scope name value).Shows
      ((history.within origin scope).define name value).heap :=
    (history.shows_machine origin).put scope.isLt rfl fun _ _ => rfl
  refine changed_of_put origin history scope.isLt rfl fun other inside => ?_
  rw [later.resolve inside, resolved_define_iff]

end Laws

/-- The laws hold in every tree of scopes, however it has come about. -/
theorem scope_lookup_laws (history : History count) (origin : Machine) : history.Lawful origin where
  read _ _ _ found := read_law found
  unread _ _ := unread_law
  unassigned _ _ _ := unassigned_law
  assigned _ _ value _ found := ⟨_, write_law value found, assigned_law value found⟩
  defined _ _ _ := defined_law

/-- Of two scopes inside one, each sees what is defined around both, and not what is defined in the
other. -/
example :
    let history := ((start.child 0).child 0).define 1 "a" .nil
    history.resolved? 1 "a" = some 1 ∧ history.resolved? 2 "a" = none ∧
      (history.define 0 "a" .nil).resolved? 2 "a" = some 0 := by
  decide

end History

end Treewalk
