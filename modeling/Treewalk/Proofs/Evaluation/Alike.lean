import Mathlib.Data.List.Forall2
import Treewalk.Proofs.Evaluation.Encapsulation

/-!
# Machines that differ only in their functions

Two runs of programs that differ in places work on heaps that hold different functions. Values are
alike if they are equal or are functions with the same identity and closure whose declarations may
stand for each other; scopes, heaps and machines are alike if they hold alike values and agree in
everything else. What an operator, a lookup or a binding does to alike machines leaves them alike.
-/

namespace Treewalk

set_option autoImplicit false

/-- What two runs may differ in: which declarations stand for each other, and which errors do.
Declarations that do have the same name and parameters, as far as these can be seen. -/
structure Likeness where
  declaration : FunctionDecl → FunctionDecl → Prop
  error : RuntimeError → RuntimeError → Prop
  name : ∀ {first second}, declaration first second → first.name.lexeme = second.name.lexeme
  parameters : ∀ {first second}, declaration first second →
    first.parameters.map Token.lexeme = second.parameters.map Token.lexeme

variable {like : Likeness}

inductive Value.Alike (like : Likeness) : Value → Value → Prop where
  | plain {value : Value} (captures : ∀ closure, ¬value.Captures closure) : Alike like value value
  | function {first second : FunctionDecl} (identity : Nat) (closure : ScopeId)
      (declaration : like.declaration first second) :
      Alike like (.callable ⟨identity, .user first closure⟩)
        (.callable ⟨identity, .user second closure⟩)

namespace Value

variable {value other left right leftToo rightToo : Value}

theorem alike_literal (literal : Literal) :
    (Value.ofLiteral literal).Alike like (Value.ofLiteral literal) :=
  .plain (not_captures_literal literal)

theorem alike_nil : Value.nil.Alike like .nil :=
  .plain not_captures_nil

theorem Alike.is_truthy (alike : value.Alike like other) : value.isTruthy = other.isTruthy := by
  cases alike with
  | plain => rfl
  | function => rfl

theorem Alike.printed (alike : value.Alike like other) : value.printed = other.printed := by
  cases alike with
  | plain => rfl
  | function identity closure declaration =>
      have name := like.name declaration
      simp only [Value.printed, Value.text, Callable.text, name]

theorem Alike.same (alike : left.Alike like leftToo) (also : right.Alike like rightToo) :
    left.same right = leftToo.same rightToo := by
  cases alike with
  | plain =>
      cases also with
      | plain => rfl
      | function => cases left <;> rfl
  | function =>
      cases also with
      | plain => cases right <;> rfl
      | function => rfl

end Value

section Operators

variable {left right leftToo rightToo operand other : Value}

theorem apply_unary_alike (operator : Kind) (alike : operand.Alike like other) :
    applyUnary operator operand = applyUnary operator other := by
  cases alike with
  | plain => rfl
  | function =>
      unfold applyUnary
      split
      · rfl
      · rfl

theorem apply_plus_alike (alike : left.Alike like leftToo) (also : right.Alike like rightToo) :
    applyPlus left right = applyPlus leftToo rightToo := by
  cases alike with
  | plain =>
      cases also with
      | plain => rfl
      | function => cases left <;> rfl
  | function => rfl

theorem apply_binary_alike (operator : Kind) (alike : left.Alike like leftToo)
    (also : right.Alike like rightToo) :
    applyBinary operator left right = applyBinary operator leftToo rightToo := by
  unfold applyBinary
  split
  · rw [alike.same also]
  · rw [alike.same also]
  · exact apply_plus_alike alike also
  · cases alike with
    | plain =>
        cases also with
        | plain => rfl
        | function => cases left <;> rfl
    | function => rfl

theorem short_circuits_alike (operator : Kind) (alike : operand.Alike like other) :
    shortCircuits operator operand = shortCircuits operator other := by
  unfold shortCircuits
  rw [alike.is_truthy]

end Operators

structure Scope.Alike (like : Likeness) (scope other : Scope) : Prop where
  enclosing : scope.enclosing = other.enclosing
  bindings : List.Forall₂ (fun first second => first.1 = second.1 ∧ first.2.Alike like second.2)
    scope.bindings other.bindings

structure Heap.Alike (like : Likeness) (heap other : Heap) : Prop where
  next : heap.next = other.next
  scopes : ∀ index : ScopeId, Option.Rel (Scope.Alike like) heap.scopes[index]? other.scopes[index]?

/-- The machines agree in everything but the declarations of functions in their heaps. -/
structure Machine.Alike (like : Likeness) (machine other : Machine) : Prop where
  heap : machine.heap.Alike like other.heap
  current : machine.current = other.current
  callDepth : machine.callDepth = other.callDepth
  nextIdentity : machine.nextIdentity = other.nextIdentity
  clockReadings : machine.clockReadings = other.clockReadings
  output : machine.output = other.output

namespace Scope

variable {scope other : Scope}

theorem put_alike {value valueToo : Value} {bindings others : List (String × Value)} (name : String)
    (fits : value.Alike like valueToo)
    (alike : List.Forall₂ (fun first second => first.1 = second.1 ∧ first.2.Alike like second.2)
      bindings others) :
    List.Forall₂ (fun first second => first.1 = second.1 ∧ first.2.Alike like second.2)
      (put name value bindings) (put name valueToo others) := by
  induction alike with
  | nil => exact .cons ⟨rfl, fits⟩ .nil
  | @cons first second rest more head tail ih =>
      unfold put
      rw [head.1]
      split
      · exact .cons ⟨rfl, fits⟩ tail
      · exact .cons head ih

theorem Alike.define {value valueToo : Value} (alike : scope.Alike like other) (name : String)
    (fits : value.Alike like valueToo) :
    (scope.define name value).Alike like (other.define name valueToo) :=
  ⟨alike.enclosing, put_alike name fits alike.bindings⟩

theorem Alike.find (alike : scope.Alike like other) (name : String) :
    Option.Rel (Value.Alike like) (scope.find? name) (other.find? name) := by
  unfold find?
  have pairs := alike.bindings
  generalize scope.bindings = bindings at pairs ⊢
  generalize other.bindings = others at pairs ⊢
  induction pairs with
  | nil => exact .none
  | @cons first second rest more head tail ih =>
      rw [List.find?_cons, List.find?_cons, head.1]
      split
      · exact .some head.2
      · exact ih

theorem Alike.binds (alike : scope.Alike like other) (name : String) :
    scope.binds name = other.binds name := by
  unfold Scope.binds
  have pairs := alike.bindings
  generalize scope.bindings = bindings at pairs ⊢
  generalize other.bindings = others at pairs ⊢
  induction pairs with
  | nil => rfl
  | @cons first second rest more head tail ih => rw [List.any_cons, List.any_cons, head.1, ih]

end Scope

namespace Heap

variable {heap other : Heap}

theorem Alike.define {value valueToo : Value} (alike : heap.Alike like other) (scope : ScopeId)
    (name : String) (fits : value.Alike like valueToo) :
    (heap.define scope name value).Alike like (other.define scope name valueToo) := by
  refine ⟨by rw [define_next, define_next, alike.next], ?_⟩
  intro index
  by_cases here : index = scope
  · subst here
    rw [define_here, define_here]
    have rel := alike.scopes index
    generalize heap.scopes[index]? = found at rel ⊢
    generalize other.scopes[index]? = foundToo at rel ⊢
    cases rel with
    | none => exact .none
    | some same => exact .some (same.define name fits)
  · rw [define_elsewhere heap name value here, define_elsewhere other name valueToo here]
    exact alike.scopes index

theorem Alike.child (alike : heap.Alike like other) (enclosing : ScopeId) :
    (heap.child enclosing).Alike like (other.child enclosing) := by
  refine ⟨by rw [child_next, child_next, alike.next], ?_⟩
  intro index
  have sizes : heap.scopes.size = other.scopes.size := alike.next
  rw [Heap.child, Heap.child, Array.getElem?_push, Array.getElem?_push, sizes]
  split
  · exact .some ⟨rfl, .nil⟩
  · exact alike.scopes index

theorem Alike.resolve_within (alike : heap.Alike like other) (name : String) (count : Nat)
    (scope : ScopeId) :
    heap.resolveWithin name count scope = other.resolveWithin name count scope := by
  induction count generalizing scope with
  | zero => rfl
  | succ count ih =>
      unfold resolveWithin
      have rel := alike.scopes scope
      generalize heap.scopes[scope]? = found at rel ⊢
      generalize other.scopes[scope]? = foundToo at rel ⊢
      cases rel with
      | none => rfl
      | some same =>
          dsimp only
          rw [same.binds name, same.enclosing]
          split
          · rfl
          · split
            · rfl
            · exact ih _

theorem Alike.resolve (alike : heap.Alike like other) (scope : ScopeId) (name : String) :
    heap.resolve scope name = other.resolve scope name :=
  alike.resolve_within name (scope + 1) scope

theorem Alike.get (alike : heap.Alike like other) (scope : ScopeId) (name : String) :
    Option.Rel (Value.Alike like) (heap.get? scope name) (other.get? scope name) := by
  unfold get?
  rw [alike.resolve scope name]
  cases other.resolve scope name with
  | none => exact .none
  | some holder =>
      have rel := alike.scopes holder
      simp only [Option.bind_eq_bind, Option.bind_some]
      generalize heap.scopes[holder]? = found at rel ⊢
      generalize other.scopes[holder]? = foundToo at rel ⊢
      cases rel with
      | none => exact .none
      | some same => exact same.find name

theorem Alike.bind_all {names namesToo : List Token} {values valuesToo : List Value}
    (alike : heap.Alike like other) (scope : ScopeId)
    (same : names.map Token.lexeme = namesToo.map Token.lexeme)
    (fit : List.Forall₂ (Value.Alike like) values valuesToo) :
    ((names.zip values).foldl (fun heap binding => heap.define scope binding.1.lexeme binding.2)
      heap).Alike like ((namesToo.zip valuesToo).foldl
        (fun heap binding => heap.define scope binding.1.lexeme binding.2) other) := by
  induction names generalizing namesToo values valuesToo heap other with
  | nil =>
      cases namesToo with
      | nil => exact alike
      | cons second more => cases same
  | cons first rest ih =>
      cases namesToo with
      | nil => cases same
      | cons second more =>
          rw [List.map_cons, List.map_cons, List.cons.injEq] at same
          cases fit with
          | nil => exact alike
          | cons head tail =>
              simp only [List.zip_cons_cons, List.foldl_cons]
              rw [same.1]
              exact ih (alike.define scope _ head) same.2 tail

end Heap

namespace Machine

variable {machine other : Machine}

theorem Alike.define {value valueToo : Value} (alike : machine.Alike like other) (name : String)
    (fits : value.Alike like valueToo) :
    (machine.define name value).Alike like (other.define name valueToo) := by
  refine { alike with heap := ?_ }
  unfold Machine.define
  rw [alike.current]
  exact alike.heap.define other.current name fits

theorem Alike.enter (alike : machine.Alike like other) (scope : ScopeId) :
    (machine.enter scope).Alike like (other.enter scope) :=
  { alike with current := rfl }

theorem Alike.open_scope (alike : machine.Alike like other) (enclosing : ScopeId) :
    (machine.openScope enclosing).Alike like (other.openScope enclosing) :=
  { alike with heap := alike.heap.child enclosing }

theorem Alike.print_line (alike : machine.Alike like other) (line : String) :
    (machine.printLine line).Alike like (other.printLine line) :=
  { alike with output := congrArg (fun output => output.push line) alike.output }

theorem Alike.enter_call (alike : machine.Alike like other) :
    machine.enterCall.Alike like other.enterCall :=
  { alike with callDepth := congrArg (fun depth => depth + 1) alike.callDepth }

theorem Alike.leave_call (alike : machine.Alike like other) :
    machine.leaveCall.Alike like other.leaveCall :=
  { alike with callDepth := congrArg (fun depth => depth - 1) alike.callDepth }

theorem Alike.declare_function {first second : FunctionDecl} (alike : machine.Alike like other)
    (declaration : like.declaration first second) :
    (declareFunction first machine).Alike like (declareFunction second other) := by
  have defined := alike.define first.name.lexeme
    (.function machine.nextIdentity machine.current declaration)
  rw [like.name declaration] at defined
  unfold declareFunction
  rw [← alike.current, ← alike.nextIdentity, like.name declaration]
  exact { defined with nextIdentity := rfl }

/-- The bodies of two functions that stand for each other begin on alike machines. -/
theorem Alike.prepared {first second : FunctionDecl} {values valuesToo : List Value}
    (alike : machine.Alike like other) (declaration : like.declaration first second)
    (closure : ScopeId) (fit : List.Forall₂ (Value.Alike like) values valuesToo) :
    (machine.prepared first closure values).Alike like
      (other.prepared second closure valuesToo) := by
  refine { alike.open_scope closure with heap := ?_ }
  have opened := (alike.open_scope closure).heap
  have bound := opened.bind_all machine.heap.next (like.parameters declaration) fit
  unfold Machine.prepared Machine.bindParameters
  rw [← alike.heap.next]
  exact bound

theorem alike_initial : Machine.initial.Alike like Machine.initial := by
  refine ⟨⟨rfl, ?_⟩, rfl, rfl, rfl, rfl, rfl⟩
  intro index
  cases index with
  | zero =>
      refine .some ⟨rfl, .cons ⟨rfl, .plain ?_⟩ .nil⟩
      rintro closure ⟨identity, declaration, same⟩
      cases same
  | succ index =>
      have none : Machine.initial.heap.scopes[index + 1]? = none :=
        Array.getElem?_eq_none (Nat.le_add_left 1 index)
      rw [none]
      exact .none

end Machine

inductive Flow.Alike (like : Likeness) : Flow → Flow → Prop where
  | normal : Alike like .normal .normal
  | broke : Alike like .broke .broke
  | returned {value other : Value} (fits : value.Alike like other) :
      Alike like (.returned value) (.returned other)

/-- The steps end in the same way on alike machines: both with values that fit together, both with
errors that stand for each other, both without budget, or both at an operator without meaning. -/
inductive Outcome.Alike {α β : Type} (like : Likeness) (fit : α → β → Prop) :
    Outcome α → Outcome β → Prop where
  | done {value : α} {valueToo : β} {machine other : Machine} (fits : fit value valueToo)
      (alike : machine.Alike like other) :
        Alike like fit (.done value machine) (.done valueToo other)
  | raised {error errorToo : RuntimeError} {machine other : Machine}
      (blames : like.error error errorToo) (alike : machine.Alike like other) :
      Alike like fit (.raised error machine) (.raised errorToo other)
  | exhausted : Alike like fit .exhausted .exhausted
  | stuck : Alike like fit .stuck .stuck

namespace Outcome

variable {α β γ δ : Type} {fit : α → β → Prop} {outcome : Outcome α} {other : Outcome β}

theorem alike_and_then {later : γ → δ → Prop} {next : α → Machine → Outcome γ}
    {nextToo : β → Machine → Outcome δ} (first : outcome.Alike like fit other)
    (second : ∀ value valueToo machine machineToo, outcome = .done value machine →
      fit value valueToo → machine.Alike like machineToo →
      (next value machine).Alike like later (nextToo valueToo machineToo)) :
    (outcome.andThen next).Alike like later (other.andThen nextToo) := by
  cases first with
  | done fits alike => exact second _ _ _ _ rfl fits alike
  | raised blames alike => exact .raised blames alike
  | exhausted => exact .exhausted
  | stuck => exact .stuck

theorem alike_on_exit {change changeToo : Machine → Machine} (body : outcome.Alike like fit other)
    (changed : ∀ machine machineToo, machine.Alike like machineToo →
      (change machine).Alike like (changeToo machineToo)) :
    (outcome.onExit change).Alike like fit (other.onExit changeToo) := by
  cases body with
  | done fits alike => exact .done fits (changed _ _ alike)
  | raised blames alike => exact .raised blames (changed _ _ alike)
  | exhausted => exact .exhausted
  | stuck => exact .stuck

theorem Alike.done_of_done {valueToo : β} {machineToo : Machine}
    (alike : outcome.Alike like fit other) (done : other = .done valueToo machineToo) :
    ∃ value machine, outcome = .done value machine ∧ fit value valueToo ∧
      machine.Alike like machineToo := by
  subst done
  cases alike with
  | done fits alike => exact ⟨_, _, rfl, fits, alike⟩

end Outcome

section Primitives

variable {machine other : Machine}

theorem applied_alike {applied : Applied} {site siteToo : Token} (alike : machine.Alike like other)
    (plain : ∀ result, applied = .value result → ∀ closure, ¬result.Captures closure)
    (blames : ∀ cause, like.error ⟨cause, site⟩ ⟨cause, siteToo⟩) :
    (applied.outcome site machine).Alike like (Value.Alike like)
    (applied.outcome siteToo other) := by
  cases applied with
  | value result => exact .done (.plain (plain result rfl)) alike
  | error cause => exact .raised (blames cause) alike
  | meaningless => exact .stuck

theorem read_variable_alike {name nameToo : Token} (alike : machine.Alike like other)
    (same : name.lexeme = nameToo.lexeme)
    (blames : ∀ cause, like.error ⟨cause, name⟩ ⟨cause, nameToo⟩) :
    (readVariable name machine).Alike like (Value.Alike like) (readVariable nameToo other) := by
  unfold readVariable
  have rel := alike.heap.get machine.current name.lexeme
  rw [alike.current, same] at rel ⊢
  generalize machine.heap.get? other.current nameToo.lexeme = found at rel ⊢
  generalize other.heap.get? other.current nameToo.lexeme = foundToo at rel ⊢
  cases rel with
  | none => exact .raised (blames _) alike
  | some fits => exact .done fits alike

theorem write_variable_alike {name nameToo : Token} {value valueToo : Value}
    (alike : machine.Alike like other) (same : name.lexeme = nameToo.lexeme)
    (blames : ∀ cause, like.error ⟨cause, name⟩ ⟨cause, nameToo⟩)
    (fits : value.Alike like valueToo) :
    (writeVariable name value machine).Alike like (Value.Alike like)
      (writeVariable nameToo valueToo other) := by
  unfold writeVariable
  rw [alike.current, same, alike.heap.resolve]
  split
  · exact .done fits { alike with heap := alike.heap.define _ _ fits, current := rfl }
  · exact .raised (blames _) alike

theorem call_native_alike (config : Config) (function : Native) (alike : machine.Alike like other) :
    (callNative config function machine).Alike like (Value.Alike like)
      (callNative config function other) := by
  cases function
  unfold callNative
  dsimp only
  rw [alike.clockReadings]
  refine .done (.plain ?_) { alike with clockReadings := rfl }
  rintro closure ⟨identity, declaration, same⟩
  cases same

end Primitives

end Treewalk
