import Treewalk.Proofs.Evaluation.Erased
import Treewalk.Proofs.Reprint.Program
import Treewalk.Proofs.Session.Accepted

/-!
# Printing and running again

The printed form of an accepted program is accepted and behaves like the program: it prints the same
lines and ends in the same way. That takes finite numbers. A number too large for its type is
infinite, and is printed as a word, which is read as the name of a variable.
-/

namespace Treewalk

set_option autoImplicit false

open Grammar

/-- Two sources ended in the same way: with values that are alike up to places, or with errors of
the same cause. -/
inductive SameEnd : Except Failure (Option Value) → Except Failure (Option Value) → Prop where
  | value {shown again : Option Value} (fits : Option.Rel (Value.Alike .erased) shown again) :
      SameEnd (.ok shown) (.ok again)
  | error {error again : RuntimeError} (cause : error.cause = again.cause) :
      SameEnd (.error (.running error)) (.error (.running again))

/-- Sources of programs that differ in places only are run to the same end. -/
theorem Session.run_placeless {source twin : String} {program other : Program}
    (accepted : (analyze source).result = .ok program)
    (acceptedToo : (analyze twin).result = .ok other)
    (same : Program.erase program = Program.erase other) (config : Config) (units : Nat) :
    Option.Rel (fun ran again => ran.1.output = again.1.output ∧
        SameEnd ran.1.result again.1.result)
      ((Session.start config).run units source) ((Session.start config).run units twin) := by
  have ended := interpret_placeless config units same
    (show (Session.start config).cleared.Alike .erased (Session.start config).cleared from
      Machine.alike_initial)
  unfold Session.run Session.runAnalysis
  rw [accepted, acceptedToo]
  dsimp only
  rw [show (Session.start config).config = config from rfl]
  generalize interpret config units program (Session.start config).cleared = outcome at ended
  generalize interpret config units other (Session.start config).cleared = outcomeToo at ended
  cases ended with
  | done fits alike => exact .some ⟨alike.output, .value fits⟩
  | raised blames alike => exact .some ⟨alike.output, .error blames.1⟩
  | exhausted => exact .none
  | stuck => exact .none

/-- The tokens of an accepted source can be printed if the numbers among them are finite. -/
theorem printed_program_accepted {source : String} {tokens : List Token} {program : Program}
    (lexed : scan source = .ok tokens) (accepted : (analyze source).result = .ok program)
    (finite : ∀ token ∈ tokens, token.literal.all Literal.isFinite = true) :
    ∃ again, (analyze (Program.source program)).result = .ok again ∧
      Program.erase again = Program.erase program := by
  obtain ⟨parsed, settled⟩ := analyze_ok_iff.mp accepted
  obtain ⟨_, relexed, derived⟩ := parse_ok_iff.mp parsed
  rw [lexed] at relexed
  cases relexed
  cases derived with
  | @intro _ inside closing whole ended =>
      obtain ⟨-, scanned⟩ := scan_ok_iff.mp lexed
      obtain ⟨same, -⟩ := List.append_inj' scanned rfl
      have printable : ∀ token ∈ inside, token.Printable := by
        intro token found
        refine ⟨?_, finite token (List.mem_append_left _ found)⟩
        rw [← same] at found
        exact tokens_proper source token found
      obtain ⟨written, writes, reforms⟩ := redeclares_lines (reprints_of_forms whole printable)
      have spells := writes [] stops_nil
      rw [List.append_nil, show spelled [] = [] from rfl, List.append_nil] at spells
      obtain ⟨again, reparsed, sameTrees⟩ := parse_of_spelled spells reforms
      exact ⟨again, analyze_ok_iff.mpr ⟨reparsed, settled_of_erase _ sameTrees.symm settled⟩,
        sameTrees⟩

/-- The printed form of an accepted program, if the numbers in it are finite, behaves like its
source: whatever the limits and the clock, both print the same lines and end with the same value, up
to the places of functions, or with an error of the same cause, or neither comes to an end. -/
theorem printed_program_runs_alike (source : String) (tokens : List Token) (program : Program)
    (lexed : scan source = .ok tokens) (accepted : (analyze source).result = .ok program)
    (finite : ∀ token ∈ tokens, token.literal.all Literal.isFinite = true) (config : Config)
    (units : Nat) :
    Option.Rel (fun ran again => ran.1.output = again.1.output ∧
        SameEnd ran.1.result again.1.result)
      ((Session.start config).run units source)
      ((Session.start config).run units (Program.source program)) := by
  obtain ⟨again, acceptedAgain, same⟩ := printed_program_accepted lexed accepted finite
  exact Session.run_placeless accepted acceptedAgain same.symm config units

theorem printed_program_runs_alike_loop :
    ∃ tokens program,
      scan "fun f(n) { for (var i = 0; i < n; i = i + 0.5) print i; return f; } f(1)(-\"a\");" =
        .ok tokens ∧
      (∀ token ∈ tokens, token.literal.all Literal.isFinite = true) ∧
      Option.Rel (fun ran again => ran.1.output = again.1.output ∧
          SameEnd ran.1.result again.1.result)
        ((Session.start ⟨4, fun _ => 0⟩).run 60
          "fun f(n) { for (var i = 0; i < n; i = i + 0.5) print i; return f; } f(1)(-\"a\");")
        ((Session.start ⟨4, fun _ => 0⟩).run 60 (Program.source program)) ∧
      ((Session.start ⟨4, fun _ => 0⟩).run 60 (Program.source program)).map
        (fun again => again.1.output) = some #["0", "0.500000"] := by
  generalize written :
    "fun f(n) { for (var i = 0; i < n; i = i + 0.5) print i; return f; } f(1)(-\"a\");" = source
  obtain ⟨tokens, lexed⟩ : ∃ tokens, scan source = .ok tokens := by
    rw [← written]
    exact exists_ok (by decide +kernel)
  obtain ⟨program, accepted⟩ : ∃ program, (analyze source).result = .ok program := by
    rw [← written]
    exact exists_ok (by decide +kernel)
  have finite : ∀ token ∈ tokens, token.literal.all Literal.isFinite = true := by
    have all : (scan source).toOption.all (List.all · fun token =>
        token.literal.all Literal.isFinite) = true := by
      rw [← written]
      decide +kernel
    rw [lexed] at all
    exact List.all_eq_true.mp all
  have same := printed_program_runs_alike source tokens program lexed accepted finite
    ⟨4, fun _ => 0⟩ 60
  have lines : ((Session.start ⟨4, fun _ => 0⟩).run 60 source).map (fun ran => ran.1.output) =
      some #["0", "0.500000"] := by
    rw [← written]
    decide +kernel
  refine ⟨tokens, program, lexed, finite, same, ?_⟩
  generalize (Session.start ⟨4, fun _ => 0⟩).run 60 source = ran at same lines
  generalize (Session.start ⟨4, fun _ => 0⟩).run 60 (Program.source program) = again at same
  cases same with
  | none => cases lines
  | some related =>
      rw [Option.map_some, ← related.1]
      exact lines

/-- A statement that prints a number with more digits than any finite number has. -/
def overlong : String :=
  "print " ++ String.ofList (List.replicate 310 '9') ++ ";"

/-- An infinite number does not survive printing: a program that prints one is printed as a program
that reads a variable. -/
theorem printed_program_runs_apart :
    ∃ program, (analyze overlong).result = .ok program ∧
      ¬Option.Rel (fun ran again => ran.1.output = again.1.output ∧
          SameEnd ran.1.result again.1.result)
        ((Session.start ⟨4, fun _ => 0⟩).run 5 overlong)
        ((Session.start ⟨4, fun _ => 0⟩).run 5 (Program.source program)) := by
  -- The characters are named, since it takes long to read them off the bytes of the text.
  have characters : overlong.toList =
      'p' :: 'r' :: 'i' :: 'n' :: 't' :: ' ' :: (List.replicate 310 '9' ++ [';']) := by
    simp only [overlong, String.toList_append, String.toList_ofList, List.append_assoc]
    rfl
  have front : (analyze overlong).result.toOption.any (fun program =>
      decide (Program.source program = "print inf;")) = true ∧
      ((Session.start ⟨4, fun _ => 0⟩).run 5 overlong).map (fun ran => ran.1.output) =
        some #["inf"] := by
    unfold Session.run analyze
    rw [parse_eq_parsed, Scanned.ofSource, characters]
    decide +kernel
  have rerun : ((Session.start ⟨4, fun _ => 0⟩).run 5 "print inf;").map
      (fun ran => ran.1.output) = some #[] := by
    decide +kernel
  obtain ⟨text, lines⟩ := front
  obtain ⟨program, accepted, text⟩ := exists_ok_of_any text
  refine ⟨program, accepted, ?_⟩
  rw [of_decide_eq_true text]
  generalize (Session.start ⟨4, fun _ => 0⟩).run 5 overlong = first at lines
  generalize (Session.start ⟨4, fun _ => 0⟩).run 5 "print inf;" = second at rerun
  intro same
  cases same with
  | none => cases lines
  | some related =>
      simp only [Option.map_some, related.1, Option.some.injEq] at lines rerun
      rw [lines] at rerun
      cases rerun

end Treewalk
