import Treewalk.Proofs.Evaluation.Limit

/-!
# Conclusions without a budget

A budget that is large enough does not matter: evaluation concludes with an outcome if some budget
leads to it. Steps in a row conclude if one behind the other does, so a conclusion of compound code
is made up of conclusions of its parts, each with a budget of its own.
-/

namespace Treewalk

set_option autoImplicit false

/-- With some budget, and without using it up, evaluation ends in this way. -/
def Concludes {α : Type} (run : Nat → Outcome α) (outcome : Outcome α) : Prop :=
  outcome ≠ .exhausted ∧ ∃ units, run units = outcome

def Lasting {α : Type} (run : Nat → Outcome α) : Prop :=
  ∀ less more, less ≤ more → (run less).KeptBy (run more)

/-- The first step gives no value, and what is around it ends for the same reason. -/
inductive Outcome.Aborts {α β : Type} : Outcome α → Outcome β → Prop where
  | raised (error : RuntimeError) (machine : Machine) :
      Aborts (.raised error machine) (.raised error machine)
  | stuck : Aborts .stuck .stuck

theorem Flow.broke_ne_normal : Flow.broke ≠ .normal :=
  nofun

theorem Flow.returned_ne_normal (value : Value) : Flow.returned value ≠ .normal :=
  nofun

section Calculus

variable {α β : Type} {run : Nat → Outcome α} {outcome : Outcome α}

theorem not_aborts_done {first : Outcome α} {value : β} {machine : Machine} :
    ¬first.Aborts (Outcome.done value machine) :=
  nofun

/-- Two steps in a row that end do so by the second one, or by the first one without a value. -/
theorem and_then_ends {first : Outcome α} {next : α → Machine → Outcome β} {outcome : Outcome β}
    (same : first.andThen next = outcome) (ended : outcome ≠ .exhausted) :
    first ≠ .exhausted ∧
      ((∃ value machine, first = .done value machine ∧ next value machine = outcome) ∨
        first.Aborts outcome) := by
  subst same
  cases first with
  | done value machine => exact ⟨nofun, .inl ⟨value, machine, rfl, rfl⟩⟩
  | raised error machine => exact ⟨nofun, .inr (.raised error machine)⟩
  | exhausted => exact absurd rfl ended
  | stuck => exact ⟨nofun, .inr .stuck⟩

theorem and_then_done {first : Outcome α} {next : α → Machine → Outcome β} {value : β}
    {machine : Machine} (same : first.andThen next = .done value machine) :
    ∃ result between, first = .done result between ∧ next result between = .done value machine := by
  obtain ⟨-, both | aborts⟩ := and_then_ends same nofun
  · exact both
  · exact absurd aborts not_aborts_done

theorem Concludes.from_on (concludes : Concludes run outcome) (lasting : Lasting run) :
    ∃ enough, ∀ units, enough ≤ units → run units = outcome := by
  obtain ⟨ended, enough, ran⟩ := concludes
  refine ⟨enough, fun units more => ?_⟩
  rcases lasting enough units more with cut | same
  · exact absurd (ran.symm.trans cut) ended
  · exact same.trans ran

theorem lasting_const (outcome : Outcome α) : Lasting fun _ => outcome :=
  fun _ _ _ => .inr rfl

theorem Lasting.shift (lasting : Lasting run) (count : Nat) :
    Lasting fun units => run (units + count) :=
  fun _ _ more => lasting _ _ (Nat.add_le_add_right more count)

theorem Lasting.and_then {next : Nat → α → Machine → Outcome β} (first : Lasting run)
    (second : ∀ value machine, Lasting fun units => next units value machine) :
    Lasting fun units => (run units).andThen (next units) := by
  intro less more larger
  show ((run less).andThen (next less)).KeptBy ((run more).andThen (next more))
  rcases first less more larger with cut | same
  · rw [cut]
    exact .inl rfl
  · rw [same]
    cases run less with
    | done value machine => exact second value machine less more larger
    | raised error machine => exact .inr rfl
    | exhausted => exact .inr rfl
    | stuck => exact .inr rfl

theorem concludes_done {value : α} {machine : Machine} :
    Concludes (fun _ => .done value machine) outcome ↔ outcome = .done value machine := by
  constructor
  · rintro ⟨-, units, same⟩
    exact same.symm
  · rintro rfl
    exact ⟨nofun, 0, rfl⟩

theorem concludes_shift (lasting : Lasting run) (count : Nat) :
    Concludes (fun units => run (units + count)) outcome ↔ Concludes run outcome := by
  constructor
  · rintro ⟨ended, units, ran⟩
    exact ⟨ended, units + count, ran⟩
  · intro concludes
    obtain ⟨enough, ran⟩ := concludes.from_on lasting
    exact ⟨concludes.1, enough, ran _ (Nat.le_add_right enough count)⟩

/-- Two steps in a row conclude as the second does behind the first, or as the first one if it gives
no value. -/
theorem concludes_and_then {next : Nat → α → Machine → Outcome β} {outcome : Outcome β}
    (first : Lasting run)
    (second : ∀ value machine, Lasting fun units => next units value machine) :
    Concludes (fun units => (run units).andThen (next units)) outcome ↔
      (∃ value machine, Concludes run (.done value machine) ∧
        Concludes (fun units => next units value machine) outcome) ∨
      ∃ failed, Concludes run failed ∧ failed.Aborts outcome := by
  constructor
  · rintro ⟨ended, units, same⟩
    obtain ⟨ends, ⟨value, machine, ran, later⟩ | aborts⟩ := and_then_ends same ended
    · exact .inl ⟨value, machine, ⟨nofun, units, ran⟩, ended, units, later⟩
    · exact .inr ⟨run units, ⟨ends, units, rfl⟩, aborts⟩
  · rintro (⟨value, machine, started, later⟩ | ⟨failed, started, aborts⟩)
    · obtain ⟨enough, ran⟩ := started.from_on first
      obtain ⟨further, ranLater⟩ := later.from_on (second value machine)
      refine ⟨later.1, max enough further, ?_⟩
      dsimp only
      rw [ran _ (Nat.le_max_left _ _)]
      exact ranLater _ (Nat.le_max_right _ _)
    · obtain ⟨-, units, ran⟩ := started
      have same := congrArg (fun first => first.andThen (next units)) ran
      cases aborts with
      | raised error machine => exact ⟨nofun, units, same⟩
      | stuck => exact ⟨nofun, units, same⟩

theorem concludes_on_exit {change : Machine → Machine} :
    Concludes (fun units => (run units).onExit change) outcome ↔
      ∃ inner, Concludes run inner ∧ outcome = inner.onExit change := by
  constructor
  · rintro ⟨ended, units, rfl⟩
    exact ⟨run units, ⟨fun cut => ended (congrArg (·.onExit change) cut), units, rfl⟩, rfl⟩
  · rintro ⟨inner, ⟨ended, units, rfl⟩, rfl⟩
    refine ⟨?_, units, rfl⟩
    cases ran : run units with
    | exhausted => exact absurd ran ended
    | _ => exact nofun

end Calculus

section Evaluator

variable (config : Config)

theorem Outcome.kept_of_held {α : Type} {first second : Outcome α}
    (held : first.HeldBy (fun _ => False) second) : first.KeptBy second := by
  rcases held with cut | ⟨_, _, _, never⟩ | same
  · exact .inl cut
  · exact never.elim
  · exact .inr same

theorem holds_with_self {less more : Nat} (larger : less ≤ more) :
    HoldsWith (fun _ => False) config config less more :=
  holds_with (Config.widens_self _ config) larger

theorem evaluate_lasting (expression : Expr) (machine : Machine) :
    Lasting fun units => evaluate config units expression machine :=
  fun _ _ larger => Outcome.kept_of_held ((holds_with_self config larger).evaluate _ _)

theorem execute_lasting (statement : Stmt) (machine : Machine) :
    Lasting fun units => execute config units statement machine :=
  fun _ _ larger => Outcome.kept_of_held ((holds_with_self config larger).execute _ _)

theorem iterate_lasting (condition : Expr) (body : Stmt) (machine : Machine) :
    Lasting fun units => iterate config units condition body machine :=
  fun _ _ larger => Outcome.kept_of_held ((holds_with_self config larger).iterate _ _ _)

/-- Goes on behind a statement that ended normally. A break ends with the flow `broken`: a loop
ends normally then, a block breaks out of the loop around it. -/
def goOn (broken : Flow) (next : Machine → Outcome Flow) : Flow → Machine → Outcome Flow
  | .normal, machine => next machine
  | .broke, machine => .done broken machine
  | .returned value, machine => .done (.returned value) machine

theorem go_on_lasting (broken : Flow) {next : Nat → Machine → Outcome Flow}
    (lasting : ∀ machine, Lasting fun units => next units machine) (flow : Flow)
    (machine : Machine) : Lasting fun units => goOn broken (next units) flow machine := by
  cases flow with
  | normal => exact lasting machine
  | broke => exact lasting_const _
  | returned value => exact lasting_const _

def turn (units : Nat) (condition : Expr) (body : Stmt) (value : Value) (machine : Machine) :
    Outcome Flow :=
  if value.isTruthy then
    (execute config units body machine).andThen
      (goOn .normal (iterate config units condition body))
  else .done .normal machine

theorem turn_lasting (condition : Expr) (body : Stmt) (value : Value) (machine : Machine) :
    Lasting fun units => turn config units condition body value machine := by
  unfold turn
  cases value.isTruthy with
  | true =>
      exact (execute_lasting config body machine).and_then
        (go_on_lasting .normal (iterate_lasting config condition body))
  | false => exact lasting_const _

theorem iterate_eq (units : Nat) (condition : Expr) (body : Stmt) (machine : Machine) :
    iterate config (units + 1) condition body machine =
      (evaluate config units condition machine).andThen (turn config units condition body) := by
  unfold iterate
  congr 1
  funext value between
  unfold turn
  congr 2
  funext flow after
  cases flow <;> rfl

variable {config} {condition : Expr} {body : Stmt} {machine : Machine} {value : Value}
  {outcome : Outcome Flow}

theorem concludes_iterate :
    Concludes (fun units => iterate config units condition body machine) outcome ↔
      (∃ value between,
        Concludes (fun units => evaluate config units condition machine) (.done value between) ∧
        Concludes (fun units => turn config units condition body value between) outcome) ∨
      ∃ failed, Concludes (fun units => evaluate config units condition machine) failed ∧
        failed.Aborts outcome := by
  rw [← concludes_shift (iterate_lasting config condition body machine) 1]
  simp only [iterate_eq]
  exact concludes_and_then (evaluate_lasting config condition machine)
    (turn_lasting config condition body)

theorem concludes_turn (truthy : value.isTruthy = true) :
    Concludes (fun units => turn config units condition body value machine) outcome ↔
      (∃ flow after, Concludes (fun units => execute config units body machine) (.done flow after) ∧
        Concludes (fun units => goOn .normal (iterate config units condition body) flow after)
          outcome) ∨
      ∃ failed, Concludes (fun units => execute config units body machine) failed ∧
        failed.Aborts outcome := by
  unfold turn
  simp only [truthy, if_true]
  exact concludes_and_then (execute_lasting config body machine)
    (go_on_lasting .normal (iterate_lasting config condition body))

def Machine.nested (machine : Machine) : Machine :=
  (machine.openScope machine.current).enter machine.heap.next

theorem execute_pair (config : Config) (units : Nat) (first second : Stmt) (location : Span)
    (machine : Machine) :
    execute config (units + 5) (.block [first, second] location) machine =
      ((execute config (units + 2) first machine.nested).andThen
        (goOn .broke (execute config (units + 1) second))).onExit
          fun after => after.enter machine.current := by
  have last : ∀ between, executeAll config (units + 2) [second] between =
      execute config (units + 1) second between := by
    intro between
    show (execute config (units + 1) second between).andThen _ = _
    cases execute config (units + 1) second between with
    | done flow after => cases flow <;> rfl
    | _ => rfl
  have both : executeAll config (units + 3) [first, second] machine.nested =
      (execute config (units + 2) first machine.nested).andThen
        (goOn .broke (execute config (units + 1) second)) := by
    show (execute config (units + 2) first machine.nested).andThen _ = _
    cases execute config (units + 2) first machine.nested with
    | done flow between =>
        cases flow with
        | normal => exact last between
        | _ => rfl
    | _ => rfl
  show (executeAll config (units + 3) [first, second] machine.nested).onExit _ = _
  rw [both]
  rfl

/-- A block of two statements ends as the second one, if the first one ends normally, and else as
the first one, and the scope around it is current again. -/
theorem concludes_pair {first second : Stmt} {location : Span} :
    Concludes (fun units => execute config units (.block [first, second] location) machine)
        outcome ↔
      ∃ inner, outcome = inner.onExit (fun after => after.enter machine.current) ∧
        ((∃ between,
            Concludes (fun units => execute config units first machine.nested)
              (.done .normal between) ∧
            Concludes (fun units => execute config units second between) inner) ∨
          (∃ flow after,
            Concludes (fun units => execute config units first machine.nested) (.done flow after) ∧
            flow ≠ .normal ∧ inner = .done flow after) ∨
          ∃ failed, Concludes (fun units => execute config units first machine.nested) failed ∧
            failed.Aborts inner) := by
  have lastingFirst := execute_lasting config first machine.nested
  have lastingSecond := execute_lasting config second
  rw [← concludes_shift (execute_lasting config _ machine) 5]
  simp only [execute_pair]
  rw [concludes_on_exit]
  constructor
  · rintro ⟨inner, concludes, rfl⟩
    refine ⟨inner, rfl, ?_⟩
    rw [concludes_and_then (lastingFirst.shift 2)
      (go_on_lasting .broke fun between => (lastingSecond between).shift 1)] at concludes
    rcases concludes with ⟨flow, between, ran, later⟩ | ⟨failed, ran, aborts⟩
    · rw [concludes_shift lastingFirst] at ran
      cases flow with
      | normal => exact .inl ⟨between, ran, (concludes_shift (lastingSecond between) 1).mp later⟩
      | broke =>
          rw [concludes_done.mp later]
          exact .inr (.inl ⟨.broke, between, ran, Flow.broke_ne_normal, rfl⟩)
      | returned value =>
          rw [concludes_done.mp later]
          exact .inr (.inl ⟨.returned value, between, ran, Flow.returned_ne_normal value, rfl⟩)
    · exact .inr (.inr ⟨failed, (concludes_shift lastingFirst 2).mp ran, aborts⟩)
  · rintro ⟨inner, rfl, concludes⟩
    refine ⟨inner, ?_, rfl⟩
    rw [concludes_and_then (lastingFirst.shift 2)
      (go_on_lasting .broke fun between => (lastingSecond between).shift 1)]
    rcases concludes with ⟨between, ran, later⟩ | ⟨flow, after, ran, leaves, rfl⟩ |
      ⟨failed, ran, aborts⟩
    · exact .inl ⟨.normal, between, (concludes_shift lastingFirst 2).mpr ran,
        (concludes_shift (lastingSecond between) 1).mpr later⟩
    · refine .inl ⟨flow, after, (concludes_shift lastingFirst 2).mpr ran, ?_⟩
      cases flow with
      | normal => exact absurd rfl leaves
      | broke => exact concludes_done.mpr rfl
      | returned value => exact concludes_done.mpr rfl
    · exact .inr ⟨failed, (concludes_shift lastingFirst 2).mpr ran, aborts⟩

end Evaluator

end Treewalk
