import Treewalk.Proofs.Evaluation.Blame
import Treewalk.Proofs.Session.Reached
import Treewalk.Proofs.Token.Proper
import Treewalk.Proofs.Token.Tiling

/-!
# Where the errors of a session point

An error keeps the token that raised it, and a token has its place in the text that it was scanned
from. In a session that is the source at hand, unless a function that an earlier source declared
raises the error: then the place is one of that earlier source, and the text at hand need not even
reach so far.
-/

namespace Treewalk

set_option autoImplicit false

/-- The error points into the source: its span cuts no character in two, the text there is the
lexeme of the token that raised the error, and its line is the one on which the span starts. -/
structure RuntimeError.PointsInto (source : String) (error : RuntimeError) : Prop where
  fits : error.site.span.fits source = true
  lexeme : error.site.span.Holds source.toList error.site.lexeme.toList
  line : error.site.line = error.site.span.lineIn source

theorem word_without_break {char : Char} (inside : Chunk.continuesWord char = true) :
    char ≠ '\n' := by
  rintro rfl
  cases inside

theorem fixed_without_break : ∀ kind ∈ fixedKinds, '\n' ∉ kind.spelling.toList := by
  decide +kernel

theorem RuntimeError.Apt.without_break {error : RuntimeError} (apt : error.Apt)
    (proper : error.site.Proper) : '\n' ∉ error.site.lexeme.toList := by
  have open_ : error.site.kind ≠ .number ∧ error.site.kind ≠ .string := by
    obtain ⟨cause, site⟩ := error
    unfold RuntimeError.Apt at apt
    dsimp only at apt ⊢
    generalize site.kind = kind at apt ⊢
    constructor
    all_goals
      rintro rfl
      cases cause <;> simp at apt
  cases proper with
  | identifier kind lexeme starts inside free literal =>
      rw [lexeme, String.toList_ofList]
      intro found
      rcases List.mem_cons.mp found with isFirst | found
      · exact word_without_break (by simp [Chunk.continuesWord, starts]) isFirst.symm
      · exact word_without_break (inside _ found) rfl
  | number kind => exact absurd kind open_.1
  | string kind => exact absurd kind open_.2
  | fixed kind lexeme literal =>
      rw [lexeme]
      exact fixed_without_break _ kind

/-- A token of a source stands at its span, and on one line has the line on which the span
starts. -/
theorem token_points_into {source : String} {token : Token} (short : source.utf8ByteSize < 2 ^ 32)
    (among : token ∈ (Scanned.ofSource source).tokens) (single : '\n' ∉ token.lexeme.toList) :
    token.span.fits source = true ∧ token.span.Holds source.toList token.lexeme.toList ∧
      token.line = token.span.lineIn source := by
  have tiled : Tiled 0 1 source.toList (Scanned.ofText source.toList).items
      (Scanned.ofText source.toList).closing := tiled_items source.toList 0 1
  rw [of_source_of_short short] at among
  obtain ⟨item, inside, isToken⟩ := List.mem_filterMap.mp among
  cases item with
  | error fault => cases isToken
  | token found =>
      injection isToken with same
      rw [same] at inside
      obtain ⟨lexeme, located, spelled⟩ :=
        tiled.listed_located _ (List.mem_append_left _ inside)
      have isLexeme : token.lexeme.toList = lexeme := by
        rw [spelled _ rfl, String.toList_ofList]
      refine ⟨located.fits, ?_, ?_⟩
      · rw [isLexeme]
        exact located.holds
      · rw [isLexeme] at single
        obtain ⟨before, behind, whole, span, row⟩ := located
        have none : newlines lexeme = 0 := List.count_eq_zero.mpr single
        simp only [Item.span, Item.line] at span row
        rw [row, span, Span.lineIn, whole, newlines_before_behind, newlines_append, none,
          Nat.add_zero]

theorem RuntimeError.Among.points_into {source : String} {error : RuntimeError}
    (short : source.utf8ByteSize < 2 ^ 32)
    (among : error.Among (Scanned.ofSource source).tokens) : error.PointsInto source := by
  have single := among.apt.without_break (tokens_proper source _ among.site)
  obtain ⟨fits, lexeme, line⟩ := token_points_into short among.site single
  exact ⟨fits, lexeme, line⟩

def Machine.Holds (machine : Machine) (declaration : FunctionDecl) : Prop :=
  ∃ (index : ScopeId) (scope : Scope) (binding : String × Value) (identity : Nat)
    (closure : ScopeId), machine.heap.scopes[index]? = some scope ∧ binding ∈ scope.bindings ∧
      binding.2 = .callable ⟨identity, .user declaration closure⟩

/-- What is said of the functions in the heap may use that they are there. -/
theorem Machine.Stores.of_holds {machine : Machine} {good better : FunctionDecl → Prop}
    (held : machine.Stores good)
    (improves : ∀ declaration, machine.Holds declaration → good declaration → better declaration) :
    machine.Stores better := by
  intro index scope found binding inside identity declaration closure same
  exact improves declaration ⟨index, scope, binding, identity, closure, found, inside, same⟩
    (held index scope found binding inside identity declaration closure same)

namespace Session

/-- The sessions that these sources lead to, the latest source first, each run to its end or to its
failure. -/
inductive History (config : Config) : List String → Session → Prop where
  | start : History config [] (Session.start config)
  | run {sources : List String} {session after : Session} {units : Nat} {source : String}
      {shown : Ran} (earlier : History config sources session)
      (ended : session.run units source = some (shown, after)) :
      History config (source :: sources) after

def Recorded (sources : List String) (error : RuntimeError) : Prop :=
  ∃ earlier ∈ sources, error.Among (Scanned.ofSource earlier).tokens

/-- Between two sources, the functions in the heap can raise errors at tokens of earlier sources
only. -/
theorem history_raises_only {config : Config} {sources : List String} {session : Session}
    (history : History config sources session) :
    session.machine.RaisesOnly (Recorded sources) := by
  induction history with
  | start => exact Machine.initial_stores
  | @run sources session after units source shown earlier ended ih =>
      have later : session.machine.RaisesOnly (Recorded (source :: sources)) := by
        refine ih.of_holds fun declaration _ raises error inside => ?_
        obtain ⟨found, among, recorded⟩ := raises error inside
        exact ⟨found, List.mem_cons_of_mem source among, recorded⟩
      rcases run_cases ended with rfl | ⟨program, machine, accepted, evaluated, rfl⟩
      · exact later
      · have parsed := (analyze_accepted accepted).1
        have answers := interpret_answers session.config units program
          (fun error raises => ⟨source, List.mem_cons_self, parse_among parsed raises⟩)
          (show session.cleared.RaisesOnly (Recorded (source :: sources)) from later)
        exact Outcome.machine_of_meets (Outcome.meets_of_meets answers
          (fun _ _ held => held.2) (fun _ _ held => held.2) id) evaluated

/-- A source that fails while it runs has been accepted and raised the error. -/
theorem run_raised {session after : Session} {units : Nat} {source : String} {shown : Ran}
    {error : RuntimeError} (ended : session.run units source = some (shown, after))
    (failed : shown.result = .error (.running error)) :
    ∃ program machine, (analyze source).result = .ok program ∧
      interpret session.config units program session.cleared = .raised error machine := by
  unfold Session.run Session.runAnalysis at ended
  split at ended
  · rename_i failure refused
    injection ended with ended
    injection ended with isShown
    rw [← isShown] at failed
    injection failed with failed
    rw [failed] at refused
    unfold analyze checkParsed at refused
    split at refused
    · injection refused with refused
      cases refused
    · dsimp only at refused
      split at refused
      · cases refused
      · injection refused with refused
        cases refused
  · rename_i program accepted
    split at ended
    · cases ended
      cases failed
    · rename_i found machine evaluated
      cases ended
      cases failed
      exact ⟨program, machine, accepted, evaluated⟩
    · cases ended
    · cases ended

end Session

/-- If the sources of a session are short enough for their places to fit in 32 bits, the error of a
failing source stands at a token that goes with its cause. It points into the
source, or a function that was in the heap before has raised it, and then it points into an earlier
source of the session. In particular, the errors of the first source always point into it. -/
theorem runtime_error_points_into_source (config : Config) (sources : List String)
    (session : Session) (history : Session.History config sources session) (units : Nat)
    (source : String) (short : ∀ text ∈ source :: sources, text.utf8ByteSize < 2 ^ 32) (shown : Ran)
    (after : Session) (error : RuntimeError)
    (ended : session.run units source = some (shown, after))
    (failed : shown.result = .error (.running error)) :
    error.Apt ∧ (error.PointsInto source ∨
      ∃ earlier ∈ sources, error.PointsInto earlier ∧
        ∃ declaration, session.machine.Holds declaration ∧ declaration.CanRaise error) := by
  obtain ⟨program, machine, accepted, raised⟩ := Session.run_raised ended failed
  have parsed := (analyze_accepted accepted).1
  have held : session.cleared.RaisesOnly fun error =>
      error.Among (Scanned.ofSource source).tokens ∨ (Session.Recorded sources error ∧
        ∃ declaration, session.machine.Holds declaration ∧ declaration.CanRaise error) :=
    (Session.history_raises_only history).of_holds fun declaration holds raises error inside =>
      .inr ⟨raises error inside, declaration, holds, inside⟩
  have answers := interpret_answers session.config units program
    (fun error raises => .inl (parse_among parsed raises)) held
  rw [raised] at answers
  rcases answers.1 with here | ⟨⟨earlier, among, recorded⟩, stored⟩
  · exact ⟨here.apt, .inl (here.points_into (short source List.mem_cons_self))⟩
  · have points := recorded.points_into (short earlier (List.mem_cons_of_mem source among))
    exact ⟨recorded.apt, .inr ⟨earlier, among, points, stored⟩⟩

def runtimeError? {α : Type} : Except Failure α → Option RuntimeError
  | .error (.running error) => some error
  | _ => none

theorem raised_of_any {α : Type} {result : Except Failure α} {test : RuntimeError → Bool}
    (passed : (runtimeError? result).any test = true) :
    ∃ error, result = .error (.running error) ∧ test error = true := by
  rw [Option.any_eq_true] at passed
  obtain ⟨error, found, passed⟩ := passed
  unfold runtimeError? at found
  split at found
  · cases found
    exact ⟨error, rfl, passed⟩
  · cases found

theorem runtime_error_points_into_source_sum :
    ∃ shown after error,
      (Session.start ⟨4, fun _ => 0⟩).run 20 "print \"é\";\nprint 1 +\n  nil;" =
        some (shown, after) ∧
      shown.result = .error (.running error) ∧
      error.PointsInto "print \"é\";\nprint 1 +\n  nil;" := by
  have short : "print \"é\";\nprint 1 +\n  nil;".utf8ByteSize < 2 ^ 32 := by decide
  generalize written : "print \"é\";\nprint 1 +\n  nil;" = source at short
  have ran : ((Session.start ⟨4, fun _ => 0⟩).run 20 source).any (fun first =>
      (runtimeError? first.1.result).any fun _ => true) = true := by
    rw [← written]
    decide +kernel
  rw [Option.any_eq_true] at ran
  obtain ⟨⟨shown, after⟩, ended, ran⟩ := ran
  obtain ⟨error, failed, -⟩ := raised_of_any ran
  have points := runtime_error_points_into_source _ [] _ .start 20 source
    (List.forall_mem_singleton.mpr short) shown after error ended
    failed
  refine ⟨shown, after, error, ended, failed, ?_⟩
  rcases points.2 with here | ⟨earlier, among, -⟩
  · exact here
  · cases among

/-- A function that an earlier source declared takes its places along: its error is reported for a
source that does not reach so far. -/
theorem runtime_error_points_elsewhere :
    ∃ session shown after error,
      Session.History ⟨4, fun _ => 0⟩ ["fun f() { return nil + 1; }"] session ∧
      session.run 20 "f();" = some (shown, after) ∧ shown.result = .error (.running error) ∧
      ¬error.PointsInto "f();" := by
  generalize declared : "fun f() { return nil + 1; }" = declaration
  have ran : ((Session.start ⟨4, fun _ => 0⟩).run 20 declaration).any (fun first =>
      (first.2.run 20 "f();").any fun second =>
        (runtimeError? second.1.result).any fun error => !error.site.span.fits "f();") = true := by
    rw [← declared]
    decide +kernel
  rw [Option.any_eq_true] at ran
  obtain ⟨⟨_, session⟩, ranFirst, ran⟩ := ran
  rw [Option.any_eq_true] at ran
  obtain ⟨⟨shown, after⟩, ended, ran⟩ := ran
  obtain ⟨error, failed, outside⟩ := raised_of_any ran
  refine ⟨session, shown, after, error, .run .start ranFirst, ended, failed, ?_⟩
  intro points
  rw [points.fits] at outside
  cases outside

end Treewalk
