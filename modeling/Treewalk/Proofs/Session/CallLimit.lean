import Treewalk.Proofs.Evaluation.Limit
import Treewalk.Session

/-!
# The limit on active calls

How many calls may be active at once shows in a run only where the limit stops a call. A source that
ends in any other way ends in the same way under every higher limit: it prints the same lines, has
the same value or the same error, and leaves the same machine behind.
-/

namespace Treewalk

set_option autoImplicit false

/-- The run of a source was ended by the limit on active calls. -/
def Ran.Overflows (shown : Ran) : Prop :=
  ∃ site, shown.result = .error (.running ⟨.stackOverflow, site⟩)

/-- Two sessions on the same machine whose settings differ in the limit show the same. -/
theorem Session.run_widened (low high : Config) {machine : Machine} {less more : Nat}
    {source : String} {shown : Ran} {after : Session} (clock : high.clock = low.clock)
    (limit : low.maxCallDepth ≤ high.maxCallDepth) (enough : less ≤ more)
    (ran : Session.run less source ⟨low, machine⟩ = some (shown, after))
    (within : ¬shown.Overflows) :
    Session.run more source ⟨high, machine⟩ = some (shown, ⟨high, after.machine⟩) := by
  have widens : Config.Widens (fun error => ∃ site, error = ⟨.stackOverflow, site⟩) low high :=
    ⟨clock, limit, fun _ site => ⟨site, rfl⟩⟩
  unfold Session.run Session.runAnalysis at ran ⊢
  cases accepted : (analyze source).result with
  | error failure =>
      rw [accepted] at ran
      cases ran
      rfl
  | ok program =>
      rw [accepted] at ran
      dsimp only at ran ⊢
      have held := interpret_held widens enough program (Session.cleared ⟨low, machine⟩)
      rcases held with cut | ⟨error, final, raised, site, rfl⟩ | same
      · rw [cut] at ran
        cases ran
      · rw [raised] at ran
        cases ran
        exact absurd ⟨site, rfl⟩ within
      · rw [show Session.cleared ⟨high, machine⟩ = Session.cleared ⟨low, machine⟩ from rfl, same]
        cases ended : interpret low less program (Session.cleared ⟨low, machine⟩) with
        | done value final =>
            rw [ended] at ran
            cases ran
            rfl
        | raised error final =>
            rw [ended] at ran
            cases ran
            rfl
        | exhausted =>
            rw [ended] at ran
            cases ran
        | stuck =>
            rw [ended] at ran
            cases ran

/-- A source that ends in a fresh session, and not by the limit on active calls, ends under every
higher limit and with every larger budget: it shows the same lines and the same value or error, and
leaves the same globals, indeed the same machine. -/
theorem higher_limit_shows_the_same (source : String) (clock : Nat → Float) (low high units : Nat)
    (shown : Ran) (after : Session) (wider : low ≤ high)
    (ran : (Session.start ⟨low, clock⟩).run units source = some (shown, after))
    (within : ¬shown.Overflows) :
    ∀ more, units ≤ more →
      ∃ again, (Session.start ⟨high, clock⟩).run more source = some (shown, again) ∧
        again.globals = after.globals ∧ again.machine = after.machine := by
  intro more enough
  have widened := Session.run_widened ⟨low, clock⟩ ⟨high, clock⟩ rfl wider enough ran within
  exact ⟨⟨⟨high, clock⟩, after.machine⟩, widened, rfl, rfl⟩

/-- Two calls are active, as many as the lower limit allows, when the error is raised. -/
theorem higher_limit_shows_the_same_error :
    ∃ shown after error, (Session.start ⟨2, fun _ => 0⟩).run 30
        "fun f(a) { print a; if (a) return f(nil); return b; } f(true);" = some (shown, after) ∧
      shown.output = #["true", "nil"] ∧ shown.result = .error (.running error) ∧
      error.cause = .undefinedVariable "b" ∧
      ∀ more, 30 ≤ more →
        ∃ again, (Session.start ⟨1024, fun _ => 0⟩).run more
            "fun f(a) { print a; if (a) return f(nil); return b; } f(true);" = some (shown, again) ∧
          again.globals = after.globals ∧ again.machine = after.machine := by
  generalize written : "fun f(a) { print a; if (a) return f(nil); return b; } f(true);" = source
  have checked : ((Session.start ⟨2, fun _ => 0⟩).run 30 source).any (fun ran =>
      decide (ran.1.output = #["true", "nil"]) &&
        match ran.1.result with
        | .error (.running error) => decide (error.cause = .undefinedVariable "b")
        | _ => false) = true := by
    rw [← written]
    decide +kernel
  rw [Option.any_eq_true] at checked
  obtain ⟨⟨shown, after⟩, ran, checked⟩ := checked
  rw [Bool.and_eq_true, decide_eq_true_eq] at checked
  obtain ⟨output, checked⟩ := checked
  split at checked
  · rename_i error result
    have cause : error.cause = .undefinedVariable "b" := of_decide_eq_true checked
    have within : ¬shown.Overflows := by
      rintro ⟨site, overflow⟩
      rw [show shown.result = _ from result] at overflow
      cases overflow
      cases cause
    exact ⟨shown, after, error, ran, output, result, cause,
      higher_limit_shows_the_same source (fun _ => 0) 2 1024 30 shown after (by decide) ran within⟩
  · cases checked

end Treewalk
