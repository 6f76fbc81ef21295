import Treewalk.Session
import Treewalk.Proofs.Evaluation.Outcome

/-!
# Reachable sessions

A session is reached by running sources one after the other on a fresh machine. Sources may fail at
any stage; a source whose evaluation does not end leads nowhere.
-/

namespace Treewalk

set_option autoImplicit false

def Outcome.EndsIn {α : Type} (outcome : Outcome α) (machine : Machine) : Prop :=
  (∃ value, outcome = .done value machine) ∨ ∃ error, outcome = .raised error machine

/-- What a step promises at both ends holds of the machine in which it ended. -/
theorem Outcome.machine_of_meets {α : Type} {outcome : Outcome α} {machine : Machine}
    {good : Machine → Prop} {stuck : Prop}
    (meets : outcome.Meets (fun _ after => good after) (fun _ after => good after) stuck)
    (ended : outcome.EndsIn machine) : good machine := by
  rcases ended with ⟨value, done⟩ | ⟨error, raised⟩
  · rw [done] at meets
    exact meets
  · rw [raised] at meets
    exact meets

/-- The front end accepts what parses and has no stray exits; its warnings are those of the check.
-/
theorem analyze_accepted {source : String} {program : Program}
    (accepted : (analyze source).result = .ok program) :
    parse source = .ok program ∧ Stmt.strayExitsIn Context.top program = [] ∧
      (analyze source).warnings = program.problems.warnings := by
  unfold analyze checkParsed at accepted ⊢
  cases parsed : parse source with
  | error errors =>
      rw [parsed] at accepted
      cases accepted
  | ok found =>
      rw [parsed] at accepted
      dsimp only at accepted ⊢
      cases faults : found.problems.errors with
      | cons first rest =>
          rw [faults] at accepted
          cases accepted
      | nil =>
          rw [faults] at accepted
          cases accepted
          refine ⟨rfl, ?_, rfl⟩
          simp only [Program.problems, Program.problemsWith, Problems.sorted] at faults
          rw [← List.length_eq_zero_iff, List.length_mergeSort, List.length_eq_zero_iff] at faults
          exact faults

namespace Session

/-- The sessions that some sequence of sources leads to, each run to its end or to its failure. -/
inductive Reached (config : Config) : Session → Prop where
  | start : Reached config (Session.start config)
  | run {session after : Session} {units : Nat} {source : String} {shown : Ran}
      (earlier : Reached config session)
      (ended : session.run units source = some (shown, after)) : Reached config after

/-- Running a source leaves the session alone if the front end refuses the source; otherwise the
machine is the one in which evaluation ended. -/
theorem run_cases {session after : Session} {units : Nat} {source : String} {shown : Ran}
    (ended : session.run units source = some (shown, after)) :
    after = session ∨
      ∃ program machine, (analyze source).result = .ok program ∧
        (interpret session.config units program session.cleared).EndsIn machine ∧
        after = { session with machine := machine } := by
  unfold Session.run Session.runAnalysis at ended
  split at ended
  · left
    simp only [Option.some.injEq, Prod.mk.injEq] at ended
    exact ended.2.symm
  · rename_i program accepted
    right
    split at ended
    · rename_i value machine evaluated
      simp only [Option.some.injEq, Prod.mk.injEq] at ended
      exact ⟨program, machine, accepted, .inl ⟨value, evaluated⟩, ended.2.symm⟩
    · rename_i error machine evaluated
      simp only [Option.some.injEq, Prod.mk.injEq] at ended
      exact ⟨program, machine, accepted, .inr ⟨error, evaluated⟩, ended.2.symm⟩
    · cases ended
    · cases ended

/-- A property of machines holds in every reachable session if it holds at the start and evaluating
an accepted program keeps it. -/
theorem machine_of_reached {config : Config} (good : Machine → Prop)
    (initial : good Machine.initial)
    (kept : ∀ (source : String) (program : Program) (units : Nat) (session : Session)
      (machine : Machine), (analyze source).result = .ok program → good session.cleared →
      (interpret config units program session.cleared).EndsIn machine → good machine)
    (cleared : ∀ session : Session, good session.machine → good session.cleared)
    {session : Session} (reached : Reached config session) :
    good session.machine ∧ session.config = config := by
  induction reached with
  | start => exact ⟨initial, rfl⟩
  | @run session after units source shown earlier ended ih =>
      rcases ih with ⟨before, same⟩
      rcases run_cases ended with rfl | ⟨program, machine, accepted, evaluated, rfl⟩
      · exact ⟨before, same⟩
      · rw [same] at evaluated
        exact ⟨kept source program units session machine accepted
          (cleared session before) evaluated,
          same⟩

theorem config_of_reached {config : Config} {session : Session}
    (reached : Reached config session) : session.config = config := by
  apply And.right
  apply machine_of_reached (fun _ => True) ?_ ?_ ?_ reached
  · trivial
  · intros
    trivial
  · intros
    trivial

end Session

end Treewalk
