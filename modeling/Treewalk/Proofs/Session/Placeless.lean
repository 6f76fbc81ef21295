import Treewalk.Proofs.Evaluation.Invariant
import Treewalk.Proofs.Reprint.Rerun
import Treewalk.Proofs.Session.OneSource

/-!
# Two texts of one program

A budget only cuts evaluation off, so a program on a fresh machine either uses up every budget or
has one outcome with all budgets that are large enough. Programs that differ in places only agree in
which of the two it is and in everything that is seen of the outcome.
-/

namespace Treewalk

set_option autoImplicit false

/-- Evaluation of the program on a fresh machine uses up every budget. -/
def Diverges (config : Config) (program : Program) : Prop :=
  ∀ units, interpret config units program Machine.initial = .exhausted

/-- Evaluation of the program on a fresh machine has this outcome, whatever the budget, if it is
large enough. -/
structure EndsWith (config : Config) (program : Program) (outcome : Outcome (Option Value)) :
    Prop where
  ended : outcome ≠ .exhausted
  always : ∃ bound, ∀ units, bound ≤ units →
    interpret config units program Machine.initial = outcome

theorem ends_with_of_interpret {config : Config} {units : Nat} {program : Program}
    (ended : interpret config units program Machine.initial ≠ .exhausted) :
    EndsWith config program (interpret config units program Machine.initial) := by
  refine ⟨ended, units, ?_⟩
  intro more enough
  rcases interpret_kept enough program Machine.initial with cut | same
  · exact absurd cut ended
  · exact same

theorem diverges_or_ends (config : Config) (program : Program) :
    Diverges config program ∨ ∃ units,
      EndsWith config program (interpret config units program Machine.initial) := by
  by_cases diverges : Diverges config program
  · exact .inl diverges
  · obtain ⟨units, ended⟩ := not_forall.mp diverges
    exact .inr ⟨units, ends_with_of_interpret ended⟩

/-- The machines have printed the same lines and bind the same globals to values that are alike up
to places. -/
structure Machine.SeenAlike (machine other : Machine) : Prop where
  output : machine.output = other.output
  globals : List.Forall₂ (fun first second => first.1 = second.1 ∧ first.2.Alike .erased second.2)
    (machine.heap.bindings Heap.global) (other.heap.bindings Heap.global)

/-- Two programs have ended in the same way, as far as can be seen: with values that are alike up to
places, or with errors of the same cause. -/
inductive Outcome.SeenAlike : Outcome (Option Value) → Outcome (Option Value) → Prop where
  | done {shown again : Option Value} {machine other : Machine}
      (fits : Option.Rel (Value.Alike .erased) shown again) (seen : machine.SeenAlike other) :
      SeenAlike (.done shown machine) (.done again other)
  | raised {error again : RuntimeError} {machine other : Machine}
      (cause : error.cause = again.cause) (seen : machine.SeenAlike other) :
      SeenAlike (.raised error machine) (.raised again other)

theorem Machine.Alike.seen_alike {machine other : Machine} (alike : machine.Alike .erased other) :
    machine.SeenAlike other := by
  refine ⟨alike.output, ?_⟩
  have sessions := @Session.globals_alike .erased ⟨⟨0, fun _ => 0⟩, machine⟩
    ⟨⟨0, fun _ => 0⟩, other⟩ alike.heap
  exact sessions

/-- A parsed program, and every program that is equal to it without lines, spans and the keywords of
loops, both run forever, or both end: with the same lines printed, with the same value, functions
compared by name, parameters and erased body, or with the same cause, and with the same globals. -/
theorem evaluation_ignores_places (config : Config) (source : String) (program other : Program)
    (parsed : parse source = .ok program) (same : Program.erase program = Program.erase other) :
    (Diverges config program ∧ Diverges config other) ∨
      ∃ outcome outcomeToo, EndsWith config program outcome ∧ EndsWith config other outcomeToo ∧
        outcome.SeenAlike outcomeToo := by
  have alike := fun units => interpret_placeless config units same
    (show Machine.initial.Alike .erased Machine.initial from Machine.alike_initial)
  rcases diverges_or_ends config program with diverges | ⟨units, ends⟩
  · left
    refine ⟨diverges, fun units => ?_⟩
    have both := alike units
    rw [diverges units] at both
    generalize interpret config units other Machine.initial = outcome at both
    cases both with
    | exhausted => rfl
  · right
    have both := alike units
    have unstuck := interpret_never_stuck config units (meaningful_of_parse parsed)
    refine ⟨_, interpret config units other Machine.initial, ends, ?_, ?_⟩
    · apply ends_with_of_interpret
      intro cut
      rw [cut] at both
      generalize interpret config units program Machine.initial = outcome at both ends
      cases both with
      | exhausted => exact ends.ended rfl
    · have ended := ends.ended
      generalize interpret config units program Machine.initial = outcome at both unstuck ended
      generalize interpret config units other Machine.initial = outcomeToo at both
      cases both with
      | done fits alike => exact .done fits alike.seen_alike
      | raised blames alike => exact .raised blames.1 alike.seen_alike
      | exhausted => exact absurd rfl ended
      | stuck => exact absurd rfl unstuck

theorem evaluation_ignores_places_loop :
    ∃ program other,
      parse "fun f(a) {  for (; a < 2;)  a = a + n;   return f; }\nvar n = 1; print f(0); f - n;" =
        .ok program ∧
      parse "fun f(a) { while (a < 2) a = a + n; return f; }\nvar n = 1;\nprint f(0);\nf - n;" =
        .ok other ∧
      ((Diverges ⟨4, fun _ => 0⟩ program ∧ Diverges ⟨4, fun _ => 0⟩ other) ∨
        ∃ outcome outcomeToo, EndsWith ⟨4, fun _ => 0⟩ program outcome ∧
          EndsWith ⟨4, fun _ => 0⟩ other outcomeToo ∧ outcome.SeenAlike outcomeToo) := by
  generalize written :
    "fun f(a) {  for (; a < 2;)  a = a + n;   return f; }\nvar n = 1; print f(0); f - n;" = source
  generalize twin :
    "fun f(a) { while (a < 2) a = a + n; return f; }\nvar n = 1;\nprint f(0);\nf - n;" = printed
  obtain ⟨tokens, lexed, finite⟩ : ∃ tokens, scan source = .ok tokens ∧
      (tokens.all fun token => token.literal.all Literal.isFinite) = true := by
    rw [← written]
    exact exists_ok_of_any (by decide +kernel)
  obtain ⟨program, accepted, text⟩ : ∃ program, (analyze source).result = .ok program ∧
      decide (Program.source program = printed) = true := by
    rw [← written, ← twin]
    exact exists_ok_of_any (by decide +kernel)
  -- The second text is the printed form of the first, and so is parsed to the same program.
  obtain ⟨other, acceptedToo, same⟩ :=
    printed_program_accepted lexed accepted (List.all_eq_true.mp finite)
  rw [of_decide_eq_true text] at acceptedToo
  have parsed := (analyze_ok_iff.mp accepted).1
  exact ⟨program, other, parsed, (analyze_ok_iff.mp acceptedToo).1,
    evaluation_ignores_places _ source program other parsed same.symm⟩

end Treewalk
