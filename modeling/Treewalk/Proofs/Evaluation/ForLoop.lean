import Mathlib
import Treewalk.Proofs.Evaluation.Bare
import Treewalk.Proofs.Evaluation.Concluded
import Treewalk.Proofs.Session.Chains

/-!
# Loops with three clauses

The parser builds a `for` from blocks and a loop with a condition. Its meaning is told here without
them: the initial clause runs in a scope of its own, and each round tests the condition, runs the
body and then evaluates the increment, in one more scope if there is an increment. Both agree, for
every choice of clauses and on every way out.
-/

namespace Treewalk

set_option autoImplicit false

open Grammar Outcome

/-- The parts of a `for`. The initial clause declares a variable or evaluates an expression. -/
structure ForLoop where
  keyword : Token
  initial : Option Stmt
  condition : Option Expr
  increment : Option Expr
  body : Stmt
  simple : ∀ first, initial = some first →
    (∃ name value, first = .declare name value) ∨ ∃ value, first = .expression value

namespace ForLoop

def tree (loop : ForLoop) : Stmt :=
  whileForm loop.keyword loop.initial loop.condition loop.increment loop.body

/-- The loop is written with these tokens. -/
def Written (loop : ForLoop) (tokens : List Token) : Prop :=
  ∃ clauses repeated waiting, tokens = loop.keyword :: (clauses ++ repeated) ∧
    loop.keyword.kind = .forWord ∧
    Parser.ForClauses (loop.initial, loop.condition, loop.increment) clauses ∧
    Forms (.statement waiting loop.body) repeated

/-- A condition or an increment ends in this way; without one, the value is `true`. -/
def Evaluates (config : Config) (clause : Option Expr) (machine : Machine)
    (outcome : Outcome Value) : Prop :=
  match clause with
  | none => outcome = .done (.boolean true) machine
  | some expression => Concludes (fun units => evaluate config units expression machine) outcome

/-- Where a pass begins: in a new scope inside the loop scope, if there is an increment. -/
def pass (loop : ForLoop) (machine : Machine) : Machine :=
  match loop.increment with
  | none => machine
  | some _ => machine.nested

/-- Behind the body, every name stands for the variable that it stood for in the loop scope in front
of the body, unless the body declares it outside of all blocks. -/
def Sees (loop : ForLoop) (machine inside : Machine) : Prop :=
  ∀ name, name ∉ loop.body.bareNames →
    inside.heap.resolve inside.current name = machine.heap.resolve machine.current name

inductive Passes (config : Config) (loop : ForLoop) (machine : Machine) : Outcome Flow → Prop where
  | whole {inside after : Machine} {value : Value}
      (body : Concludes (fun units => execute config units loop.body (loop.pass machine))
        (.done .normal inside))
      (sees : loop.Sees machine inside)
      (increment : Evaluates config loop.increment inside (.done value after)) :
      Passes config loop machine (.done .normal (after.enter machine.current))
  | left {flow : Flow} {inside : Machine}
      (body : Concludes (fun units => execute config units loop.body (loop.pass machine))
        (.done flow inside))
      (leaves : flow ≠ .normal) :
      Passes config loop machine (.done flow (inside.enter machine.current))
  | failedBody {failed outcome : Outcome Flow}
      (body : Concludes (fun units => execute config units loop.body (loop.pass machine)) failed)
      (aborts : failed.Aborts outcome) :
      Passes config loop machine (outcome.onExit fun after => after.enter machine.current)
  | failedIncrement {inside : Machine} {failed : Outcome Value} {outcome : Outcome Flow}
      (body : Concludes (fun units => execute config units loop.body (loop.pass machine))
        (.done .normal inside))
      (sees : loop.Sees machine inside)
      (increment : Evaluates config loop.increment inside failed)
      (aborts : failed.Aborts outcome) :
      Passes config loop machine (outcome.onExit fun after => after.enter machine.current)

/-- The rounds of the loop, in the loop scope. -/
inductive Rounds (config : Config) (loop : ForLoop) : Machine → Outcome Flow → Prop where
  | finished {machine after : Machine} {value : Value}
      (test : Evaluates config loop.condition machine (.done value after))
      (falsy : value.isTruthy = false) : Rounds config loop machine (.done .normal after)
  | failedTest {machine : Machine} {failed : Outcome Value} {outcome : Outcome Flow}
      (test : Evaluates config loop.condition machine failed) (aborts : failed.Aborts outcome) :
      Rounds config loop machine outcome
  | again {machine between after : Machine} {value : Value} {outcome : Outcome Flow}
      (test : Evaluates config loop.condition machine (.done value between))
      (truthy : value.isTruthy = true)
      (pass : loop.Passes config between (.done .normal after))
      (later : Rounds config loop after outcome) : Rounds config loop machine outcome
  | broke {machine between after : Machine} {value : Value}
      (test : Evaluates config loop.condition machine (.done value between))
      (truthy : value.isTruthy = true) (pass : loop.Passes config between (.done .broke after)) :
      Rounds config loop machine (.done .normal after)
  | returned {machine between after : Machine} {value result : Value}
      (test : Evaluates config loop.condition machine (.done value between))
      (truthy : value.isTruthy = true)
      (pass : loop.Passes config between (.done (.returned result) after)) :
      Rounds config loop machine (.done (.returned result) after)
  | failedPass {machine between : Machine} {value : Value} {failed outcome : Outcome Flow}
      (test : Evaluates config loop.condition machine (.done value between))
      (truthy : value.isTruthy = true) (pass : loop.Passes config between failed)
      (aborts : failed.Aborts outcome) : Rounds config loop machine outcome

/-- The whole loop: the initial clause in a new scope, and there the rounds. -/
inductive Runs (config : Config) (loop : ForLoop) (machine : Machine) : Outcome Flow → Prop where
  | plain {outcome : Outcome Flow} (absent : loop.initial = none)
      (rounds : loop.Rounds config machine outcome) : Runs config loop machine outcome
  | started {first : Stmt} {inside : Machine} {outcome : Outcome Flow}
      (present : loop.initial = some first)
      (opening : Concludes (fun units => execute config units first machine.nested)
        (.done .normal inside))
      (rounds : loop.Rounds config inside outcome) :
      Runs config loop machine (outcome.onExit fun after => after.enter machine.current)
  | failedStart {first : Stmt} {failed outcome : Outcome Flow} (present : loop.initial = some first)
      (opening : Concludes (fun units => execute config units first machine.nested) failed)
      (aborts : failed.Aborts outcome) :
      Runs config loop machine (outcome.onExit fun after => after.enter machine.current)

section Sight

variable {config : Config} {loop : ForLoop} {machine inside : Machine}

theorem nested_holds (holds : Invariant.rooted.Holds machine) :
    Invariant.rooted.Holds machine.nested := by
  obtain ⟨opened, -, known⟩ := opened_keeps holds holds.current
  exact ⟨opened.heap, known⟩

theorem pass_holds (holds : Invariant.rooted.Holds machine) :
    Invariant.rooted.Holds (loop.pass machine) := by
  unfold pass
  split
  · exact holds
  · exact nested_holds holds

theorem pass_resolve (holds : Invariant.rooted.Holds machine) (name : String) :
    (loop.pass machine).heap.resolve (loop.pass machine).current name =
      machine.heap.resolve machine.current name := by
  unfold pass
  split
  · rfl
  · exact Heap.resolve_child holds.heap holds.current name

/-- The body hides no name but those that it declares outside of its blocks. -/
theorem sees_behind_body (holds : Invariant.rooted.Holds machine)
    (body : Concludes (fun units => execute config units loop.body (loop.pass machine))
      (.done .normal inside)) : loop.Sees machine inside := by
  intro name hidden
  obtain ⟨-, units, ran⟩ := body
  have ended : (execute config units loop.body (loop.pass machine)).EndsIn inside :=
    .inl ⟨.normal, ran⟩
  obtain ⟨heap, known⟩ : Invariant.rooted.Holds (loop.pass machine) := pass_holds holds
  have place : (loop.pass machine).SamePlace inside :=
    machine_of_meets ((restores_with config units).execute _ _) ended
  have grown : (loop.pass machine).heap.Grown inside.heap :=
    machine_of_meets (execute_grows _) ended
  have kept := ((names_kept_with config units).execute {(loop.pass machine).current} loop.body _
    rfl).heap ended
  have adds := machine_of_meets ((adds_with config units).execute _ _ known) ended
  rw [← pass_resolve holds, place.current]
  apply Heap.resolve_unchanged heap known grown
  intro other older
  by_cases here : other = (loop.pass machine).current
  · subst here
    rw [Bool.eq_iff_iff]
    exact ⟨fun bound => (adds.added name bound).resolve_right hidden, grown.names _ _⟩
  · rw [Bool.eq_iff_iff, ← Heap.mem_names_in, ← Heap.mem_names_in, kept.same other older here]

end Sight

section Agreement

variable {config : Config} {loop : ForLoop} {machine : Machine} {outcome : Outcome Flow}

/-- A statement ends in the scope in which it began, so nothing is left to restore. -/
theorem concludes_in_place {statement : Stmt}
    (concludes : Concludes (fun units => execute config units statement machine) outcome) :
    (outcome.onExit fun after => after.enter machine.current) = outcome := by
  obtain ⟨-, units, rfl⟩ := concludes
  have restores := (restores_with config units).execute statement machine
  dsimp only
  cases ran : execute config units statement machine with
  | done flow after =>
      rw [ran] at restores
      have same : machine.SamePlace after := restores
      simp only [onExit, ← same.current]
      rfl
  | raised error after =>
      rw [ran] at restores
      have same : machine.SamePlace after := restores
      simp only [onExit, ← same.current]
      rfl
  | exhausted => rfl
  | stuck => rfl

theorem guard_iff {outcome : Outcome Value} (keyword : Token) (condition : Option Expr) :
    Concludes (fun units => evaluate config units (guard keyword condition) machine) outcome ↔
      Evaluates config condition machine outcome := by
  cases condition with
  | some condition => exact Iff.rfl
  | none =>
      rw [← concludes_shift (evaluate_lasting config _ machine) 1]
      exact concludes_done

theorem increment_iff (increment : Expr) :
    Concludes (fun units => execute config units (.expression increment) machine) outcome ↔
      (∃ value after, Evaluates config (some increment) machine (.done value after) ∧
        outcome = .done .normal after) ∨
      ∃ failed, Evaluates config (some increment) machine failed ∧ failed.Aborts outcome := by
  let next : Nat → Value → Machine → Outcome Flow := fun _ _ after => .done .normal after
  rw [← concludes_shift (execute_lasting config _ machine) 1]
  refine (@concludes_and_then _ _ _ next outcome (evaluate_lasting config increment machine)
    fun _ _ => lasting_const _).trans ?_
  simp only [next, concludes_done]
  rfl

theorem passes_of_concludes (holds : Invariant.rooted.Holds machine)
    (concludes : Concludes (fun units =>
      execute config units (stepped loop.body loop.increment) machine) outcome) :
    loop.Passes config machine outcome := by
  have sees : ∀ {inside}, Concludes (fun units =>
      execute config units loop.body (loop.pass machine)) (.done .normal inside) →
      loop.Sees machine inside := sees_behind_body holds
  cases present : loop.increment with
  | none =>
      rw [present] at concludes
      have here : loop.pass machine = machine := by rw [pass, present]
      have ran : Concludes (fun units => execute config units loop.body (loop.pass machine))
          outcome := by
        rw [here]
        exact concludes
      rw [← concludes_in_place concludes]
      cases outcome with
      | done flow inside =>
          cases flow with
          | normal => exact .whole ran (sees ran) (by rw [present]; rfl)
          | broke => exact .left ran Flow.broke_ne_normal
          | returned result => exact .left ran (Flow.returned_ne_normal result)
      | raised error inside => exact .failedBody ran (.raised error inside)
      | exhausted => exact absurd rfl concludes.1
      | stuck => exact .failedBody ran .stuck
  | some increment =>
      rw [present] at concludes
      have there : machine.nested = loop.pass machine := by rw [pass, present]
      obtain ⟨inner, rfl, ended⟩ := concludes_pair.mp concludes
      rw [there] at ended
      rcases ended with ⟨inside, ran, later⟩ | ⟨flow, inside, ran, leaves, rfl⟩ |
        ⟨failed, ran, aborts⟩
      · rcases (increment_iff increment).mp later with ⟨value, after, evaluated, rfl⟩ |
          ⟨failed, evaluated, aborts⟩
        · exact .whole ran (sees ran) (by rw [present]; exact evaluated)
        · exact .failedIncrement ran (sees ran) (by rw [present]; exact evaluated) aborts
      · exact .left ran leaves
      · exact .failedBody ran aborts

theorem concludes_of_passes (passes : loop.Passes config machine outcome) :
    Concludes (fun units => execute config units (stepped loop.body loop.increment) machine)
      outcome := by
  cases present : loop.increment with
  | none =>
      have here : loop.pass machine = machine := by rw [pass, present]
      have back : ∀ {inner : Outcome Flow}, Concludes (fun units =>
          execute config units loop.body (loop.pass machine)) inner →
          Concludes (fun units => execute config units loop.body machine)
            (inner.onExit fun after => after.enter machine.current) := by
        intro inner body
        rw [here] at body
        rw [concludes_in_place body]
        exact body
      cases passes with
      | whole body sees increment =>
          rw [present] at increment
          cases increment
          exact back body
      | left body leaves => exact back body
      | failedBody body aborts =>
          cases aborts with
          | raised error after => exact back body
          | stuck => exact back body
      | failedIncrement body sees increment aborts =>
          rw [present] at increment
          cases increment
          cases aborts
  | some increment =>
      have there : machine.nested = loop.pass machine := by rw [pass, present]
      apply concludes_pair.mpr
      rw [there]
      cases passes with
      | whole body sees evaluated =>
          rw [present] at evaluated
          have stepped := (increment_iff increment).mpr (.inl ⟨_, _, evaluated, rfl⟩)
          exact ⟨_, rfl, .inl ⟨_, body, stepped⟩⟩
      | left body leaves => exact ⟨_, rfl, .inr (.inl ⟨_, _, body, leaves, rfl⟩)⟩
      | failedBody body aborts => exact ⟨_, rfl, .inr (.inr ⟨_, body, aborts⟩)⟩
      | failedIncrement body sees evaluated aborts =>
          rw [present] at evaluated
          have stepped := (increment_iff increment).mpr (.inr ⟨_, evaluated, aborts⟩)
          exact ⟨_, rfl, .inl ⟨_, body, stepped⟩⟩

theorem rounds_of_iterate {units : Nat} (holds : Invariant.rooted.Holds machine)
    (ran : iterate config units (guard loop.keyword loop.condition)
      (stepped loop.body loop.increment) machine = outcome) (ended : outcome ≠ .exhausted) :
    loop.Rounds config machine outcome := by
  induction units generalizing machine with
  | zero => exact absurd ran.symm ended
  | succ units ih =>
      have kept := kept_with .rooted config units
      rw [iterate_eq] at ran
      obtain ⟨ends, behind⟩ := and_then_ends ran ended
      have test := (guard_iff loop.keyword loop.condition).mp ⟨ends, units, rfl⟩
      rcases behind with ⟨value, between, done, ran⟩ | aborts
      · have holds : Invariant.rooted.Holds between :=
          (Invariant.done_of_keeps (kept.evaluate _ machine False.elim holds) done).1.1
        rw [done] at test
        unfold turn at ran
        split at ran
        · rename_i truthy
          obtain ⟨ends, behind⟩ := and_then_ends ran ended
          have pass := passes_of_concludes holds ⟨ends, units, rfl⟩
          rcases behind with ⟨flow, after, done, ran⟩ | aborts
          · rw [done] at pass
            cases flow with
            | normal =>
                have holds : Invariant.rooted.Holds after :=
                  (Invariant.done_of_keeps (kept.execute _ between False.elim holds) done).1.1
                exact .again test truthy pass (ih holds ran)
            | broke =>
                subst ran
                exact .broke test truthy pass
            | returned result =>
                subst ran
                exact .returned test truthy pass
          · exact .failedPass test truthy pass aborts
        · rename_i falsy
          subst ran
          exact .finished test (Bool.eq_false_iff.mpr falsy)
      · exact .failedTest test aborts

theorem concludes_behind_test {between : Machine} {value : Value}
    (test : Evaluates config loop.condition machine (.done value between))
    (turned : Concludes (fun units => turn config units (guard loop.keyword loop.condition)
      (stepped loop.body loop.increment) value between) outcome) :
    Concludes (fun units => iterate config units (guard loop.keyword loop.condition)
      (stepped loop.body loop.increment) machine) outcome :=
  concludes_iterate.mpr (.inl ⟨value, between, (guard_iff _ _).mpr test, turned⟩)

theorem concludes_of_rounds (rounds : loop.Rounds config machine outcome) :
    Concludes (fun units => iterate config units (guard loop.keyword loop.condition)
      (stepped loop.body loop.increment) machine) outcome := by
  induction rounds with
  | finished test falsy =>
      apply concludes_behind_test test
      simp only [turn, falsy, Bool.false_eq_true, if_false]
      exact concludes_done.mpr rfl
  | failedTest test aborts =>
      exact concludes_iterate.mpr (.inr ⟨_, (guard_iff _ _).mpr test, aborts⟩)
  | again test truthy pass later ih =>
      apply concludes_behind_test test
      exact (concludes_turn truthy).mpr (.inl ⟨_, _, concludes_of_passes pass, ih⟩)
  | broke test truthy pass =>
      apply concludes_behind_test test
      exact (concludes_turn truthy).mpr
        (.inl ⟨_, _, concludes_of_passes pass, concludes_done.mpr rfl⟩)
  | returned test truthy pass =>
      apply concludes_behind_test test
      exact (concludes_turn truthy).mpr
        (.inl ⟨_, _, concludes_of_passes pass, concludes_done.mpr rfl⟩)
  | failedPass test truthy pass aborts =>
      apply concludes_behind_test test
      exact (concludes_turn truthy).mpr (.inr ⟨_, concludes_of_passes pass, aborts⟩)

theorem rounds_iff (holds : Invariant.rooted.Holds machine) :
    Concludes (fun units => execute config units
      (.loop loop.keyword (guard loop.keyword loop.condition)
        (stepped loop.body loop.increment)) machine) outcome ↔
      loop.Rounds config machine outcome := by
  rw [← concludes_shift (execute_lasting config _ machine) 1]
  constructor
  · rintro ⟨ended, units, ran⟩
    exact rounds_of_iterate holds ran ended
  · exact concludes_of_rounds

theorem initial_normal {first : Stmt} {flow : Flow} {after : Machine}
    (present : loop.initial = some first)
    (opening : Concludes (fun units => execute config units first machine) (.done flow after)) :
    flow = .normal := by
  obtain ⟨-, units, ran⟩ := opening
  cases units with
  | zero => cases ran
  | succ units =>
      rcases loop.simple first present with ⟨name, value, rfl⟩ | ⟨value, rfl⟩
      · cases value with
        | none =>
            cases ran
            rfl
        | some value =>
            obtain ⟨_, _, -, done⟩ := and_then_done ran
            cases done
            rfl
      · obtain ⟨_, _, -, done⟩ := and_then_done ran
        cases done
        rfl

theorem runs_iff (holds : Invariant.rooted.Holds machine) :
    Concludes (fun units => execute config units loop.tree machine) outcome ↔
      loop.Runs config machine outcome := by
  unfold tree whileForm
  cases present : loop.initial with
  | none =>
      rw [rounds_iff holds]
      constructor
      · exact .plain present
      · rintro (⟨-, rounds⟩ | ⟨other, -, -⟩ | ⟨other, -, -⟩)
        · exact rounds
        · rw [present] at other
          cases other
        · rw [present] at other
          cases other
  | some first =>
      have holdsInside : ∀ {inside}, Concludes (fun units =>
          execute config units first machine.nested) (.done .normal inside) →
          Invariant.rooted.Holds inside := by
        rintro inside ⟨-, units, ran⟩
        exact (Invariant.done_of_keeps ((kept_with .rooted config units).execute first _
          False.elim (nested_holds holds)) ran).1.1
      rw [concludes_pair]
      constructor
      · rintro ⟨inner, rfl, ended⟩
        rcases ended with ⟨inside, opening, later⟩ | ⟨flow, inside, opening, leaves, -⟩ |
          ⟨failed, opening, aborts⟩
        · exact .started present opening ((rounds_iff (holdsInside opening)).mp later)
        · exact absurd (initial_normal present opening) leaves
        · exact .failedStart present opening aborts
      · rintro (⟨absent, -⟩ | ⟨same, opening, rounds⟩ | ⟨same, opening, aborts⟩)
        · rw [present] at absent
          cases absent
        · rw [present] at same
          cases same
          exact ⟨_, rfl, .inl ⟨_, opening, (rounds_iff (holdsInside opening)).mpr rounds⟩⟩
        · rw [present] at same
          cases same
          exact ⟨_, rfl, .inr (.inr ⟨_, opening, aborts⟩)⟩

end Agreement

section Leaving

variable {config : Config} {loop : ForLoop} {machine : Machine} {outcome : Outcome Flow}

theorem runs_restore (holds : Invariant.rooted.Holds machine)
    (runs : loop.Runs config machine outcome) : outcome.Restores machine := by
  obtain ⟨-, units, rfl⟩ := (runs_iff holds).mpr runs
  exact (restores_with config units).execute loop.tree machine

/-- With an initial clause the whole loop is in a block, so no name gets out. -/
theorem runs_keep_names (holds : Invariant.rooted.Holds machine)
    (runs : loop.Runs config machine outcome) (present : loop.initial ≠ none) :
    outcome.KeepsNames ∅ machine := by
  obtain ⟨-, units, rfl⟩ := (runs_iff holds).mpr runs
  obtain ⟨first, same⟩ := Option.ne_none_iff_exists'.mp present
  unfold tree whileForm
  rw [same]
  exact block_names config units _ _ machine

end Leaving

end ForLoop

namespace Parser

open Rule ParseState ParseState

theorem simple_of_clauses {initial : Option Stmt} {condition increment : Option Expr}
    {tokens : List Token} (formed : ForClauses (initial, condition, increment) tokens)
    (first : Stmt) (present : initial = some first) :
    (∃ name value, first = .declare name value) ∨ ∃ value, first = .expression value := by
  obtain ⟨-, start, -, -, -, -⟩ := formed
  cases start with
  | absent ended => cases present
  | declared whole =>
      cases present
      cases whole with
      | bare _ _ _ => exact .inl ⟨_, _, rfl⟩
      | initialized _ _ _ _ _ => exact .inl ⟨_, _, rfl⟩
  | expression whole =>
      cases present
      cases whole
      exact .inr ⟨_, rfl⟩

/-- What the parser accepts from the word `for` on is the tree of a loop that is written there. -/
theorem for_statement_read {units : Nat} {before after : ParseState} {tree : Stmt}
    (closed : before.Closed) (word : before.current.kind = .forWord)
    (parsed : Parser.statement units before = .done tree after) (accepted : after.recorded = []) :
    ∃ (loop : ForLoop) (tokens : List Token), before.ahead = tokens ++ after.ahead ∧
      loop.Written tokens ∧ tree = loop.tree := by
  obtain ⟨units, parsed⟩ : ∃ fewer, Parser.forStatement (fewer + 1) before = .done tree after := by
    cases units with
    | zero => cases parsed
    | succ units =>
        unfold Parser.statement at parsed
        obtain ⟨_, _, looked, parsed⟩ := bind_done.mp parsed
        obtain ⟨rfl, rfl⟩ := current_done.mp looked
        rw [word] at parsed
        cases units with
        | zero => cases parsed
        | succ units => exact ⟨units, parsed⟩
  unfold Parser.forStatement at parsed
  obtain ⟨_, _, taken, parsed⟩ := bind_done.mp parsed
  obtain ⟨rfl, rfl⟩ := take_done.mp taken
  obtain ⟨⟨initial, condition, increment⟩, between, parsedClauses, parsed⟩ :=
    bind_done.mp parsed
  obtain ⟨body, _, parsedBody, parsed⟩ := bind_done.mp parsed
  obtain ⟨rfl, rfl⟩ := pure_done.mp parsed
  have closedBetween := (for_clauses_advances.leads parsedClauses).closed closed.skip
  have toBody := (statements_advance units).statement.leads parsedBody
  obtain ⟨clauses, clausesAhead, formedClauses⟩ :=
    for_clauses_sound _ _ _ closed.skip parsedClauses (toBody.clean accepted)
  obtain ⟨waiting, repeated, repeatedAhead, formedBody, -⟩ :=
    (statements_sound units).statement _ _ _ closedBetween parsedBody accepted
  refine ⟨⟨before.current, initial, condition, increment, body,
    simple_of_clauses formedClauses⟩, before.current :: (clauses ++ repeated), ?_, ?_,
    for_loop_eq _ _ _ _ _⟩
  · rw [ahead_of_kind closed word (by decide), clausesAhead, repeatedAhead, List.cons_append,
      List.append_assoc]
  · exact ⟨clauses, repeated, waiting, rfl, word, formedClauses, formedBody⟩

end Parser

/-- A `for` that the parser accepts runs as the loop that is written there, in every machine whose
scopes are rooted. On every way out the scope around the loop is current again, and with an initial
clause no scope that existed binds more names. -/
theorem for_statement_runs_as_loop {units : Nat} {before after : ParseState} {tree : Stmt}
    (closed : before.Closed) (word : before.current.kind = .forWord)
    (parsed : Parser.statement units before = .done tree after) (accepted : after.recorded = []) :
    ∃ (loop : ForLoop) (tokens : List Token), before.ahead = tokens ++ after.ahead ∧
      loop.Written tokens ∧ tree = loop.tree ∧
      ∀ config machine outcome, Invariant.rooted.Holds machine →
        (Concludes (fun units => execute config units tree machine) outcome ↔
          loop.Runs config machine outcome) ∧
        (loop.Runs config machine outcome → outcome.Restores machine ∧
          (loop.initial ≠ none → outcome.KeepsNames ∅ machine)) := by
  obtain ⟨loop, tokens, ahead, written, rfl⟩ :=
    Parser.for_statement_read closed word parsed accepted
  refine ⟨loop, tokens, ahead, written, rfl, fun config machine outcome holds => ?_⟩
  exact ⟨ForLoop.runs_iff holds, fun runs =>
    ⟨ForLoop.runs_restore holds runs, ForLoop.runs_keep_names holds runs⟩⟩

def Parsed.doneWith {α : Type} (test : α → ParseState → Bool) : Parsed ParseState α → Bool
  | .done value state => test value state
  | .failed _ _ => false
  | .exhausted => false

theorem exists_done {α : Type} {test : α → ParseState → Bool} {parsed : Parsed ParseState α}
    (passed : parsed.doneWith test = true) :
    ∃ value state, parsed = .done value state ∧ test value state = true := by
  cases parsed with
  | done value state => exact ⟨value, state, rfl, passed⟩
  | failed error state => cases passed
  | exhausted => cases passed

def Outcome.normalWith (test : Machine → Bool) : Outcome Flow → Bool
  | .done .normal machine => test machine
  | _ => false

theorem exists_normal {test : Machine → Bool} {outcome : Outcome Flow}
    (passed : outcome.normalWith test = true) :
    ∃ machine, outcome = .done .normal machine ∧ test machine = true := by
  unfold Outcome.normalWith at passed
  split at passed
  · exact ⟨_, rfl, passed⟩
  · cases passed

/-- The body declares a variable with the name of the loop variable in its block; the increment and
the condition see the loop variable. -/
theorem for_statement_runs_as_loop_block :
    ∃ (loop : ForLoop) (machine : Machine),
      loop.Written (Scanned.ofText
        "for (var i = true; i; i = false) \x7b var i = \"x\"; print i; \x7d".toList).tokens ∧
      loop.Runs ⟨4, fun _ => 0⟩ Machine.initial (.done .normal machine) ∧
      machine.output = #["x"] ∧ machine.current = Heap.global := by
  let before := Parser.start (Scanned.ofText
    "for (var i = true; i; i = false) \x7b var i = \"x\"; print i; \x7d".toList)
  obtain ⟨tree, after, parsed, tested⟩ := exists_done (show (Parser.statement 40 before).doneWith
    (fun tree after => after.recorded.isEmpty && (after.ahead.isEmpty &&
      (execute ⟨4, fun _ => 0⟩ 40 tree Machine.initial).normalWith (·.output == #["x"]))) = true by
    decide +kernel)
  obtain ⟨accepted, tested⟩ := Bool.and_eq_true_iff.mp tested
  obtain ⟨ended, tested⟩ := Bool.and_eq_true_iff.mp tested
  obtain ⟨machine, executed, printed⟩ := exists_normal tested
  have closed : before.Closed := rfl
  obtain ⟨loop, tokens, ahead, written, rfl, meaning⟩ :=
    for_statement_runs_as_loop closed (by decide +kernel) parsed (List.isEmpty_iff.mp accepted)
  rw [List.isEmpty_iff.mp ended, List.append_nil] at ahead
  obtain ⟨agrees, leaves⟩ := meaning ⟨4, fun _ => 0⟩ Machine.initial (.done .normal machine)
    initial_rooted
  have runs := agrees.mp ⟨nofun, 40, executed⟩
  have place : Machine.initial.SamePlace machine := (leaves runs).1
  rw [← ahead] at written
  exact ⟨loop, machine, written, runs, beq_iff_eq.mp printed, place.current⟩

/-- The body may be a function with the name of the loop variable, and no block is around it then:
the increment sees the function. -/
theorem increment_misses_loop_variable :
    ∃ (loop : ForLoop) (first : Stmt) (begun inside after : Machine) (site : Token),
      parse "for (var i = \"\"; i == \"\"; i = i + \"x\") fun i() \x7b\x7d" = .ok [loop.tree] ∧
      loop.initial = some first ∧
      Concludes (fun units => execute ⟨4, fun _ => 0⟩ units first Machine.initial.nested)
        (.done .normal begun) ∧
      ForLoop.Evaluates ⟨4, fun _ => 0⟩ loop.condition begun (.done (.boolean true) begun) ∧
      Concludes (fun units => execute ⟨4, fun _ => 0⟩ units loop.body (loop.pass begun))
        (.done .normal inside) ∧
      begun.heap.resolve begun.current "i" = some begun.current ∧
      inside.heap.resolve inside.current "i" = some inside.current ∧
      inside.current ≠ begun.current ∧
      Concludes (fun units => execute ⟨4, fun _ => 0⟩ units loop.tree Machine.initial)
        (.raised ⟨.invalidAddition, site⟩ after) := by
  let token (kind : Kind) (lexeme : String) (start stop : Nat) : Token :=
    ⟨kind, lexeme, none, 1, ⟨start, stop⟩⟩
  let site := token .plus "+" 32 33
  let first : Stmt :=
    .declare (token .identifier "i" 9 10) (some (.literal (.string "") 1 ⟨13, 15⟩))
  let loop : ForLoop :=
    { keyword := token .forWord "for" 0 3
      initial := some first
      condition := some (.binary (.reference (token .identifier "i" 17 18))
        (token .equalEqual "==" 19 21) (.literal (.string "") 1 ⟨22, 24⟩))
      increment := some (.assign (token .identifier "i" 26 27)
        (.binary (.reference (token .identifier "i" 30 31)) site
          (.literal (.string "x") 1 ⟨34, 37⟩)))
      body := .function (token .identifier "i" 43 44) [] []
      simple := fun _ same => .inl ⟨_, _, (Option.some.inj same).symm⟩ }
  let begun := Machine.initial.nested.define "i" (.string "")
  let inside := declareFunction ⟨token .identifier "i" 43 44, [], []⟩ begun.nested
  refine ⟨loop, first, begun, inside, inside.enter Heap.global, site, ?_, rfl, ⟨nofun, 9, rfl⟩,
    ⟨nofun, 9, rfl⟩, ⟨nofun, 9, rfl⟩, ?_, ?_, ?_, ⟨nofun, 20, ?_⟩⟩
  · rw [parse_eq_parsed]
    cbv
  · decide +kernel
  · decide +kernel
  · decide +kernel
  · rfl

end Treewalk
