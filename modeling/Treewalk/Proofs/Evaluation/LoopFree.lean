import Treewalk.Proofs.Evaluation.Encapsulation
import Treewalk.Proofs.Evaluation.Restoration
import Treewalk.Proofs.Scope.Stored

/-!
# Evaluation without loops ends

A call runs a body that is no part of the calling expression, so trees alone do not get smaller.
What does get smaller is the number of calls that the limit still allows, and between two calls the
tree. If every body in the heap weighs at most `bound`, a task needs no more budget than its own
weight and, for each call that is still allowed, a little more than `bound`. The heap stays that way
because evaluation declares only functions that stand in code of at most that weight.
-/

namespace Treewalk

set_option autoImplicit false

namespace Expr

mutual

/-- How deep evaluation of the expression goes at most, not counting the functions that it calls. -/
def weight : Expr → Nat
  | literal _ _ _ => 0
  | grouping inner _ => inner.weight + 1
  | unary _ operand => operand.weight + 1
  | binary left _ right => left.weight + right.weight + 1
  | logical left _ right => left.weight + right.weight + 1
  | reference _ => 0
  | assign _ value => value.weight + 1
  | call callee _ arguments => callee.weight + totalWeight arguments + 1

def totalWeight : List Expr → Nat
  | [] => 0
  | first :: rest => first.weight + totalWeight rest + 1

end

end Expr

namespace Stmt

mutual

/-- How deep execution of the statement goes at most, apart from calls and repetitions. The body of
a declared function counts, so that it weighs no more than the code around it. -/
def weight : Stmt → Nat
  | expression value => value.weight + 1
  | print _ value => value.weight + 1
  | declare _ none => 0
  | declare _ (some initial) => initial.weight + 1
  | block body _ => totalWeight body + 2
  | ifThen _ condition consequent => condition.weight + consequent.weight + 1
  | ifElse _ condition consequent alternative =>
      condition.weight + consequent.weight + alternative.weight + 1
  | loop _ condition body => condition.weight + body.weight + 1
  | function _ _ body => totalWeight body
  | returnValue _ none => 0
  | returnValue _ (some value) => value.weight + 1
  | breakLoop _ => 0

def totalWeight : List Stmt → Nat
  | [] => 0
  | first :: rest => first.weight + totalWeight rest + 1

end

mutual

def loopFree : Stmt → Bool
  | expression _ => true
  | print _ _ => true
  | declare _ _ => true
  | block body _ => allLoopFree body
  | ifThen _ _ consequent => consequent.loopFree
  | ifElse _ _ consequent alternative => consequent.loopFree && alternative.loopFree
  | loop _ _ _ => false
  | function _ _ body => allLoopFree body
  | returnValue _ _ => true
  | breakLoop _ => true

def allLoopFree : List Stmt → Bool
  | [] => true
  | first :: rest => first.loopFree && allLoopFree rest

end

structure AllTame (bound : Nat) (body : List Stmt) : Prop where
  loopFree : allLoopFree body = true
  light : totalWeight body ≤ bound

structure Tame (bound : Nat) (statement : Stmt) : Prop where
  loopFree : statement.loopFree = true
  light : statement.weight ≤ bound

section Parts

variable {bound : Nat}

theorem AllTame.first {first : Stmt} {rest : List Stmt} (tame : AllTame bound (first :: rest)) :
    first.Tame bound := by
  obtain ⟨free, light⟩ := tame
  simp only [allLoopFree, Bool.and_eq_true] at free
  simp only [totalWeight] at light
  exact ⟨free.1, by omega⟩

theorem AllTame.rest {first : Stmt} {rest : List Stmt} (tame : AllTame bound (first :: rest)) :
    AllTame bound rest := by
  obtain ⟨free, light⟩ := tame
  simp only [allLoopFree, Bool.and_eq_true] at free
  simp only [totalWeight] at light
  exact ⟨free.2, by omega⟩

theorem Tame.block {body : List Stmt} {location : Span}
    (tame : (block body location).Tame bound) : AllTame bound body := by
  obtain ⟨free, light⟩ := tame
  simp only [weight] at light
  exact ⟨free, by omega⟩

theorem Tame.function {name : Token} {parameters : List Token} {body : List Stmt}
    (tame : (function name parameters body).Tame bound) : AllTame bound body :=
  ⟨tame.loopFree, tame.light⟩

theorem Tame.consequent {keyword : Token} {condition : Expr} {consequent : Stmt}
    (tame : (ifThen keyword condition consequent).Tame bound) : consequent.Tame bound := by
  obtain ⟨free, light⟩ := tame
  simp only [weight] at light
  exact ⟨free, by omega⟩

theorem Tame.branches {keyword : Token} {condition : Expr} {consequent alternative : Stmt}
    (tame : (ifElse keyword condition consequent alternative).Tame bound) :
    consequent.Tame bound ∧ alternative.Tame bound := by
  obtain ⟨free, light⟩ := tame
  simp only [Stmt.loopFree, Bool.and_eq_true] at free
  simp only [weight] at light
  exact ⟨⟨free.1, by omega⟩, ⟨free.2, by omega⟩⟩

end Parts

end Stmt

def FunctionDecl.Tame (bound : Nat) (declaration : FunctionDecl) : Prop :=
  Stmt.AllTame bound declaration.body

def Value.Tame (bound : Nat) (value : Value) : Prop :=
  value.Stores (FunctionDecl.Tame bound)

/-- Every function in the heap has a body without loops that weighs at most `bound`. -/
def Machine.Tame (bound : Nat) (machine : Machine) : Prop :=
  machine.Stores (FunctionDecl.Tame bound)

def Flow.Tame (bound : Nat) (flow : Flow) : Prop :=
  ∀ value, flow = .returned value → value.Tame bound

def Machine.room (config : Config) (bound : Nat) (machine : Machine) : Nat :=
  (config.maxCallDepth - machine.callDepth) * (bound + 3)

theorem Machine.room_of_same_place (config : Config) (bound : Nat) {before after : Machine}
    (same : before.SamePlace after) : after.room config bound = before.room config bound := by
  unfold Machine.room
  rw [same.callDepth]

theorem Machine.room_enter_call {config : Config} (bound : Nat) {machine : Machine}
    (allowed : machine.callDepth < config.maxCallDepth) :
    machine.room config bound = machine.enterCall.room config bound + (bound + 3) := by
  have less : config.maxCallDepth - machine.callDepth =
      config.maxCallDepth - (machine.callDepth + 1) + 1 := by omega
  simp only [Machine.room, Machine.enterCall, less, Nat.add_mul, Nat.one_mul]

namespace Outcome

variable {α β : Type} {bound : Nat}

def Settles (bound : Nat) (good : α → Prop) : Outcome α → Prop
  | .done value after => good value ∧ after.Tame bound
  | .raised _ after => after.Tame bound
  | .exhausted => False
  | .stuck => True

theorem settles_and_then (config : Config) {before : Machine} {first : α → Prop}
    {second : β → Prop} {outcome : Outcome α} {next : α → Machine → Outcome β}
    (restores : outcome.Restores before) (settles : outcome.Settles bound first)
    (later : ∀ value machine, first value → machine.Tame bound →
      machine.room config bound = before.room config bound →
      (next value machine).Settles bound second) :
    (outcome.andThen next).Settles bound second := by
  cases outcome with
  | done value machine =>
      exact later value machine settles.1 settles.2
        (Machine.room_of_same_place config bound restores)
  | raised error machine => exact settles
  | exhausted => exact settles
  | stuck => exact settles

theorem settles_on_exit {good : α → Prop} {outcome : Outcome α} {change : Machine → Machine}
    (settles : outcome.Settles bound good)
    (kept : ∀ machine : Machine, machine.Tame bound → (change machine).Tame bound) :
    (outcome.onExit change).Settles bound good := by
  cases outcome with
  | done value machine => exact ⟨settles.1, kept machine settles.2⟩
  | raised error machine => exact kept machine settles
  | exhausted => exact settles
  | stuck => exact settles

end Outcome

open Outcome

section Steps

variable {bound : Nat} {machine : Machine}

theorem tame_of_plain {value : Value} (plain : ∀ closure, ¬value.Captures closure) :
    value.Tame bound :=
  fun identity declaration closure same => absurd ⟨identity, declaration, same⟩ (plain closure)

theorem tame_normal : Flow.Tame bound .normal := by
  intro value same
  cases same

theorem tame_broke : Flow.Tame bound .broke := by
  intro value same
  cases same

theorem applied_settles {applied : Applied} (site : Token)
    (plain : ∀ result, applied = .value result → ∀ closure, ¬result.Captures closure)
    (tame : machine.Tame bound) :
    (applied.outcome site machine).Settles bound (Value.Tame bound) := by
  cases applied with
  | value result => exact ⟨tame_of_plain (plain result rfl), tame⟩
  | error cause => exact tame
  | meaningless => trivial

theorem read_variable_settles (name : Token) (tame : machine.Tame bound) :
    (readVariable name machine).Settles bound (Value.Tame bound) := by
  unfold readVariable
  split
  · rename_i value read
    exact ⟨Heap.get_stores tame read, tame⟩
  · exact tame

theorem write_variable_settles (name : Token) {value : Value} (fits : value.Tame bound)
    (tame : machine.Tame bound) :
    (writeVariable name value machine).Settles bound (Value.Tame bound) := by
  unfold writeVariable
  split
  · rename_i holder _
    exact ⟨fits, Heap.define_stores holder _ fits tame⟩
  · exact tame

theorem prepared_tame (declaration : FunctionDecl) (closure : ScopeId) {values : List Value}
    (fit : ∀ value ∈ values, value.Tame bound) (tame : machine.Tame bound) :
    (machine.prepared declaration closure values).Tame bound := by
  apply Machine.bind_parameters_stores
  · intro binding inside
    exact fit binding.2 (List.of_mem_zip inside).2
  · exact Machine.open_scope_stores closure tame

end Steps

/-- The parts of the evaluator that code without loops uses settle on a tame heap, given `units` of
budget, if that is more than the task needs. -/
structure SettlesWith (config : Config) (bound units : Nat) : Prop where
  evaluate : ∀ expression machine, machine.Tame bound →
    expression.weight + machine.room config bound < units →
    (evaluate config units expression machine).Settles bound (Value.Tame bound)
  evaluateAll : ∀ expressions machine, machine.Tame bound →
    Expr.totalWeight expressions + machine.room config bound < units →
    (evaluateAll config units expressions machine).Settles bound fun values =>
      ∀ value ∈ values, value.Tame bound
  call : ∀ paren callee values machine, callee.Tame bound →
    (∀ value ∈ values, value.Tame bound) → machine.Tame bound →
    machine.room config bound < units →
    (call config units paren callee values machine).Settles bound (Value.Tame bound)
  invoke : ∀ callable values machine, (Value.callable callable).Tame bound →
    (∀ value ∈ values, value.Tame bound) → machine.Tame bound →
    bound + 2 + machine.room config bound < units →
    (invoke config units callable values machine).Settles bound (Value.Tame bound)
  execute : ∀ (statement : Stmt) (machine : Machine), statement.Tame bound → machine.Tame bound →
    statement.weight + machine.room config bound < units →
    (execute config units statement machine).Settles bound (Flow.Tame bound)
  executeIn : ∀ body scope machine, Stmt.AllTame bound body → machine.Tame bound →
    Stmt.totalWeight body + 1 + machine.room config bound < units →
    (executeIn config units body scope machine).Settles bound (Flow.Tame bound)
  executeAll : ∀ body machine, Stmt.AllTame bound body → machine.Tame bound →
    Stmt.totalWeight body + machine.room config bound < units →
    (executeAll config units body machine).Settles bound (Flow.Tame bound)

namespace SettlesWith

variable {config : Config} {bound units : Nat}

theorem evaluate_succ (below : SettlesWith config bound units) (expression : Expr)
    (machine : Machine) (tame : machine.Tame bound)
    (enough : expression.weight + machine.room config bound < units + 1) :
    (Treewalk.evaluate config (units + 1) expression machine).Settles bound (Value.Tame bound) := by
  have restores := restores_with config units
  cases expression with
  | literal value line location => exact ⟨stores_of_literal value, tame⟩
  | grouping inner location =>
      simp only [Expr.weight] at enough
      exact below.evaluate inner machine tame (by omega)
  | unary operator operand =>
      simp only [Expr.weight] at enough
      apply settles_and_then config (restores.evaluate operand machine)
        (below.evaluate operand machine tame (by omega))
      intro value after _ tameAfter _
      exact applied_settles operator
        (fun result applied => apply_unary_captures _ _ applied) tameAfter
  | binary left operator right =>
      simp only [Expr.weight] at enough
      apply settles_and_then config (restores.evaluate left machine)
        (below.evaluate left machine tame (by omega))
      intro first between _ tameBetween room
      apply settles_and_then config (restores.evaluate right between)
        (below.evaluate right between tameBetween (by omega))
      intro second after _ tameAfter _
      exact applied_settles operator
        (fun result applied => apply_binary_captures _ _ _ applied) tameAfter
  | logical left operator right =>
      simp only [Expr.weight] at enough
      apply settles_and_then config (restores.evaluate left machine)
        (below.evaluate left machine tame (by omega))
      intro first between fits tameBetween room
      split
      · exact ⟨fits, tameBetween⟩
      · exact below.evaluate right between tameBetween (by omega)
  | reference name => exact read_variable_settles name tame
  | assign name value =>
      simp only [Expr.weight] at enough
      apply settles_and_then config (restores.evaluate value machine)
        (below.evaluate value machine tame (by omega))
      intro result after fits tameAfter _
      exact write_variable_settles name fits tameAfter
  | call callee paren arguments =>
      simp only [Expr.weight] at enough
      apply settles_and_then config (restores.evaluate callee machine)
        (below.evaluate callee machine tame (by omega))
      intro function between fits tameBetween room
      apply settles_and_then config (restores.evaluateAll arguments between)
        (below.evaluateAll arguments between tameBetween (by omega))
      intro values after fit tameAfter roomAfter
      exact below.call paren function values after fits fit tameAfter (by omega)

theorem evaluate_all_succ (below : SettlesWith config bound units) (expressions : List Expr)
    (machine : Machine) (tame : machine.Tame bound)
    (enough : Expr.totalWeight expressions + machine.room config bound < units + 1) :
    (Treewalk.evaluateAll config (units + 1) expressions machine).Settles bound fun values =>
      ∀ value ∈ values, value.Tame bound := by
  have restores := restores_with config units
  cases expressions with
  | nil => exact ⟨List.forall_mem_nil _, tame⟩
  | cons first rest =>
      simp only [Expr.totalWeight] at enough
      apply settles_and_then config (restores.evaluate first machine)
        (below.evaluate first machine tame (by omega))
      intro value between fits tameBetween room
      apply settles_and_then config (restores.evaluateAll rest between)
        (below.evaluateAll rest between tameBetween (by omega))
      intro values after fit tameAfter _
      refine ⟨?_, tameAfter⟩
      intro other inside
      rcases List.mem_cons.mp inside with rfl | inside
      · exact fits
      · exact fit other inside

theorem call_succ (below : SettlesWith config bound units) (paren : Token) (callee : Value)
    (values : List Value) (machine : Machine) (fits : callee.Tame bound)
    (fit : ∀ value ∈ values, value.Tame bound) (tame : machine.Tame bound)
    (enough : machine.room config bound < units + 1) :
    (Treewalk.call config (units + 1) paren callee values machine).Settles bound
      (Value.Tame bound) := by
  unfold Treewalk.call
  split
  · split
    · exact tame
    · split
      · exact tame
      · rename_i callable _ allowed
        have share := Machine.room_enter_call bound (Nat.not_le.mp allowed)
        apply settles_on_exit
        · exact below.invoke callable values machine.enterCall fits fit tame (by omega)
        · exact fun after tameAfter => tameAfter
  · exact tame

theorem invoke_succ (below : SettlesWith config bound units) (callable : Callable)
    (values : List Value) (machine : Machine) (fits : (Value.callable callable).Tame bound)
    (fit : ∀ value ∈ values, value.Tame bound) (tame : machine.Tame bound)
    (enough : bound + 2 + machine.room config bound < units + 1) :
    (Treewalk.invoke config (units + 1) callable values machine).Settles bound
      (Value.Tame bound) := by
  rcases callable with ⟨identity, code⟩
  cases code with
  | native function =>
      cases function
      refine ⟨tame_of_plain ?_, tame⟩
      rintro closure ⟨identity, declaration, same⟩
      cases same
  | user declaration closure =>
      have body : Stmt.AllTame bound declaration.body := fits identity declaration closure rfl
      have light := body.light
      have opened : machine.SamePlace (machine.prepared declaration closure values) := ⟨rfl, rfl⟩
      have room := Machine.room_of_same_place config bound opened
      apply settles_and_then config ((restores_with config units).executeIn declaration.body _ _)
        (below.executeIn declaration.body machine.heap.next
          (machine.prepared declaration closure values) body
          (prepared_tame declaration closure fit tame) (by omega))
      intro flow after returned tameAfter _
      cases flow with
      | normal => exact ⟨stores_nil, tameAfter⟩
      | broke => exact ⟨stores_nil, tameAfter⟩
      | returned value => exact ⟨returned value rfl, tameAfter⟩

theorem execute_succ (below : SettlesWith config bound units) (statement : Stmt)
    (machine : Machine) (passed : statement.Tame bound) (tame : machine.Tame bound)
    (enough : statement.weight + machine.room config bound < units + 1) :
    (Treewalk.execute config (units + 1) statement machine).Settles bound (Flow.Tame bound) := by
  have restores := restores_with config units
  cases statement with
  | expression value =>
      simp only [Stmt.weight] at enough
      apply settles_and_then config (restores.evaluate value machine)
        (below.evaluate value machine tame (by omega))
      exact fun _ after _ tameAfter _ => ⟨tame_normal, tameAfter⟩
  | print keyword value =>
      simp only [Stmt.weight] at enough
      apply settles_and_then config (restores.evaluate value machine)
        (below.evaluate value machine tame (by omega))
      exact fun _ after _ tameAfter _ => ⟨tame_normal, tameAfter⟩
  | declare name initial =>
      cases initial with
      | none => exact ⟨tame_normal, Machine.define_stores _ stores_nil tame⟩
      | some initial =>
          simp only [Stmt.weight] at enough
          apply settles_and_then config (restores.evaluate initial machine)
            (below.evaluate initial machine tame (by omega))
          intro value after fits tameAfter _
          exact ⟨tame_normal, Machine.define_stores _ fits tameAfter⟩
  | block body location =>
      simp only [Stmt.weight] at enough
      have opened : machine.SamePlace (machine.openScope machine.current) := ⟨rfl, rfl⟩
      have room := Machine.room_of_same_place config bound opened
      exact below.executeIn body machine.heap.next _ passed.block
        (Machine.open_scope_stores machine.current tame) (by omega)
  | ifThen keyword condition consequent =>
      simp only [Stmt.weight] at enough
      apply settles_and_then config (restores.evaluate condition machine)
        (below.evaluate condition machine tame (by omega))
      intro value after _ tameAfter room
      split
      · exact below.execute consequent after passed.consequent tameAfter (by omega)
      · exact ⟨tame_normal, tameAfter⟩
  | ifElse keyword condition consequent alternative =>
      simp only [Stmt.weight] at enough
      apply settles_and_then config (restores.evaluate condition machine)
        (below.evaluate condition machine tame (by omega))
      intro value after _ tameAfter room
      split
      · exact below.execute consequent after passed.branches.1 tameAfter (by omega)
      · exact below.execute alternative after passed.branches.2 tameAfter (by omega)
  | loop keyword condition body => cases passed.loopFree
  | function name parameters body =>
      exact ⟨tame_normal, Machine.declare_function_stores passed.function tame⟩
  | returnValue keyword value =>
      cases value with
      | none =>
          refine ⟨?_, tame⟩
          rintro value ⟨⟩
          exact stores_nil
      | some value =>
          simp only [Stmt.weight] at enough
          apply settles_and_then config (restores.evaluate value machine)
            (below.evaluate value machine tame (by omega))
          intro result after fits tameAfter _
          refine ⟨?_, tameAfter⟩
          rintro value ⟨⟩
          exact fits
  | breakLoop keyword => exact ⟨tame_broke, tame⟩

theorem execute_all_succ (below : SettlesWith config bound units) (body : List Stmt)
    (machine : Machine) (passed : Stmt.AllTame bound body) (tame : machine.Tame bound)
    (enough : Stmt.totalWeight body + machine.room config bound < units + 1) :
    (Treewalk.executeAll config (units + 1) body machine).Settles bound (Flow.Tame bound) := by
  cases body with
  | nil => exact ⟨tame_normal, tame⟩
  | cons first rest =>
      simp only [Stmt.totalWeight] at enough
      apply settles_and_then config ((restores_with config units).execute first machine)
        (below.execute first machine passed.first tame (by omega))
      intro flow after fits tameAfter room
      cases flow with
      | normal => exact below.executeAll rest after passed.rest tameAfter (by omega)
      | broke => exact ⟨fits, tameAfter⟩
      | returned value => exact ⟨fits, tameAfter⟩

end SettlesWith

theorem settles_with (config : Config) (bound units : Nat) : SettlesWith config bound units := by
  induction units with
  | zero =>
      constructor
      all_goals intros
      all_goals exact absurd ‹_ < 0› (Nat.not_lt_zero _)
  | succ units below =>
      constructor
      · exact below.evaluate_succ
      · exact below.evaluate_all_succ
      · exact below.call_succ
      · exact below.invoke_succ
      · exact below.execute_succ
      · intro body scope machine passed tame enough
        have room : (machine.enter scope).room config bound = machine.room config bound := rfl
        apply settles_on_exit
        · exact below.executeAll body (machine.enter scope) passed tame (by omega)
        · exact fun after tameAfter => tameAfter
      · exact below.execute_all_succ

/-- A program without loops is not cut off if the budget is more than its own weight and the share
of every call that the limit allows. -/
theorem interpret_settles {config : Config} {bound units : Nat} (program : Program)
    {machine : Machine} (passed : Stmt.AllTame bound program) (tame : machine.Tame bound)
    (enough : bound + machine.room config bound < units) :
    (interpret config units program machine).Settles bound fun _ => True := by
  have below := settles_with config bound units
  have restores := restores_with config units
  induction program using program_induction generalizing machine with
  | empty => exact ⟨trivial, tame⟩
  | trailing value =>
      have light := passed.first.light
      simp only [Stmt.weight] at light
      apply settles_and_then config (restores.evaluate value machine)
        (below.evaluate value machine tame (by omega))
      exact fun _ after _ tameAfter _ => ⟨trivial, tameAfter⟩
  | expression value rest inside ih =>
      have light := passed.first.light
      simp only [Stmt.weight] at light
      rw [interpret_expression config units machine value inside]
      apply settles_and_then config (restores.evaluate value machine)
        (below.evaluate value machine tame (by omega))
      exact fun _ between _ tameBetween room => ih passed.rest tameBetween (by omega)
  | statement first rest other ih =>
      have light := passed.first.light
      rw [interpret_statement config units machine rest other]
      apply settles_and_then config (restores.execute first machine)
        (below.execute first machine passed.first tame (by omega))
      intro flow between _ tameBetween room
      cases flow with
      | normal => exact ih passed.rest tameBetween (by omega)
      | broke => exact ⟨trivial, tameBetween⟩
      | returned value => exact ⟨trivial, tameBetween⟩

end Treewalk
