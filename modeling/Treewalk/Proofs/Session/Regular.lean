import Treewalk.Proofs.Check.Soundness
import Treewalk.Proofs.Evaluation.Overflow
import Treewalk.Proofs.Token.Quotes

/-!
# Cases that no program comes to

Some cases of the evaluator are there because a function has to say something for every argument: an
operator that is none of the parser's, parameters without a value, a counter of calls that goes
below zero. Which operators stand in a tree is known from the parser alone, and a function body may
come from any earlier source; so what the parser promises is carried through the heap, and every run
that happens in a session stays with the regular cases.
-/

namespace Treewalk

set_option autoImplicit false

/-- The run takes only such cases of the evaluator as are meant for it. -/
structure Run.Regular (config : Config) (run : Run) : Prop where
  /-- What is not a negation of truth is a negation of a number. -/
  unary : ∀ operator operand, run.task = .evaluate (.unary operator operand) →
    operator.kind ≠ .bang → operator.kind = .minus
  /-- What is not a disjunction is a conjunction. -/
  logical : ∀ left operator right, run.task = .evaluate (.logical left operator right) →
    operator.kind ≠ .orWord → operator.kind = .andWord
  /-- An operator between two operands has a meaning for all of them. -/
  binary : ∀ left operator right, run.task = .evaluate (.binary left operator right) →
    ∀ first second, applyBinary operator.kind first second ≠ .meaningless
  /-- Every parameter gets a value, and every value goes to a parameter. -/
  bound : ∀ callable values declaration closure, run.task = .invoke callable values →
    callable.code = .user declaration closure →
      (declaration.parameters.zip values).map Prod.fst = declaration.parameters ∧
      (declaration.parameters.zip values).map Prod.snd = values
  /-- When a function has ended, its call still counts, so the counter can go down. -/
  counted : ∀ callable values after, run.task = .invoke callable values →
    (invoke config run.units callable values run.machine).EndsIn after → 0 < after.callDepth

section Runs

variable {config : Config} {units : Nat} {program : Program} {machine : Machine} {run : Run}

/-- A function is run only by a call that has compared the number of arguments and has been
counted. -/
theorem called_of_happens (happens : Happens config units program machine run)
    {callable : Callable} {values : List Value} (isInvoke : run.task = .invoke callable values) :
    values.length = callable.arity ∧ 0 < run.machine.callDepth := by
  obtain ⟨top, begins, reached⟩ := happens
  rcases Relation.ReflTransGen.cases_tail reached with isTop | ⟨outer, -, starts⟩
  · have outside := (begins_outside begins).1
    rw [← isTop, isInvoke] at outside
    cases outside
  · cases starts with
    | invoke fits allowed =>
        cases isInvoke
        exact ⟨fits, Nat.succ_pos _⟩
    | _ => cases isInvoke

theorem call_depth_of_invoke {callable : Callable} {values : List Value} {after : Machine}
    (ended : (invoke config units callable values machine).EndsIn after) :
    after.callDepth = machine.callDepth := by
  have restored := (restores_with config units).invoke callable values machine
  exact (Outcome.machine_of_meets restored ended).callDepth

theorem arity_of_user {callable : Callable} {declaration : FunctionDecl} {closure : ScopeId}
    (code : callable.code = .user declaration closure) :
    callable.arity = declaration.parameters.length := by
  unfold Callable.arity
  rw [code]

theorem regular_of_happens (passed : Stmt.AllChecked Context.top program)
    (checked : machine.Checked) (happens : Happens config units program machine run) :
    run.Regular config := by
  have isChecked : run.task.Checked := by
    obtain ⟨top, begins, reached⟩ := happens
    exact (reached_run_checked (begins_checked begins passed checked).1 reached).task
  constructor
  · intro operator operand isTask other
    rw [isTask] at isChecked
    have sign : operator.kind ∈ [Kind.bang, Kind.minus] := isChecked.1
    simpa [other] using sign
  · intro left operator right isTask other
    rw [isTask] at isChecked
    have sign : operator.kind ∈ [Kind.orWord, Kind.andWord] := isChecked.1
    simpa [other] using sign
  · intro left operator right isTask first second meaningless
    rw [isTask] at isChecked
    have plain := apply_binary_plain first second isChecked.1
    rw [meaningless] at plain
    exact plain
  · intro callable values declaration closure isTask code
    have fits := (called_of_happens happens isTask).1
    rw [arity_of_user code] at fits
    exact ⟨List.map_fst_zip (Nat.le_of_eq fits.symm), List.map_snd_zip (Nat.le_of_eq fits)⟩
  · intro callable values after isTask ended
    rw [call_depth_of_invoke ended]
    exact (called_of_happens happens isTask).2

end Runs

/-- In every session, each run that happens while an accepted source is evaluated is regular,
however many sources ago its code was read, and no operator leaves evaluation stuck. In every file,
a round of the scanner that ends a string has a lexeme of at least two bytes, in quotes; what is cut
off are the quotes. -/
theorem impossible_cases_never_taken (config : Config) :
    (∀ session, Session.Reached config session → ∀ source program,
      (analyze source).result = .ok program → ∀ units,
        interpret config units program session.cleared ≠ .stuck ∧
        ∀ run, Happens config units program session.cleared run → run.Regular config) ∧
    ∀ pulls bound scanner opened found, Scanner.Rounds pulls bound scanner →
      { scanner with lexeme := "" }.take = (some '"', opened) →
      (opened.skipWhile (· != '"') bound).peek = some found →
        ∃ body token, (opened.skipWhile (· != '"') bound).advance.lexeme = "\"" ++ body ++ "\"" ∧
          2 ≤ ("\"" ++ body ++ "\"").utf8ByteSize ∧
          (scanner.round bound).1 = .item (.token token) ∧ token.kind = .string ∧
          token.literal = some (.string body) := by
  constructor
  · intro session reached source program accepted units
    have passed := analyze_checked accepted
    have checked : session.cleared.Checked := reached_checked reached
    refine ⟨?_, fun run => regular_of_happens passed checked⟩
    intro stuck
    have ended := @interpret_checked config units _ _ passed checked
    rw [stuck] at ended
    exact ended
  · intro pulls bound scanner opened found rounds opens closes
    obtain ⟨body, token, lexeme, given, kind, literal⟩ := rounds.between_quotes opens closes
    refine ⟨body, token, lexeme, ?_, given, kind, literal⟩
    rw [String.utf8ByteSize_append, String.utf8ByteSize_append]
    have quote : "\"".utf8ByteSize = 1 := rfl
    omega

def negatesNumber : Program → Bool
  | [.expression (.unary operator _)] => decide (operator.kind ≠ .bang)
  | _ => false

/-- The number that is negated comes from a function of an earlier source; the string holds a letter
of two bytes. -/
theorem impossible_cases_never_taken_negation :
    (∃ session program operator operand, Session.Reached ⟨4, fun _ => 0⟩ session ∧
      (analyze "-f(1, nil);").result = .ok program ∧
      Happens ⟨4, fun _ => 0⟩ 60 program session.cleared
        ⟨60, .evaluate (.unary operator operand), session.cleared⟩ ∧
      operator.kind = .minus) ∧
    ∃ opened body token,
      { Scanner.start (.ofPulls ("\"é\"".toList.map .char)) with lexeme := "" }.take =
        (some '"', opened) ∧
      (opened.skipWhile (· != '"') 3).advance.lexeme = "\"" ++ body ++ "\"" ∧
      ((Scanner.start (.ofPulls ("\"é\"".toList.map .char))).round 3).1 = .item (.token token) ∧
      token.literal = some (.string body) := by
  obtain ⟨runs, rounds⟩ := impossible_cases_never_taken ⟨4, fun _ => 0⟩
  constructor
  · have declared : ((Session.start ⟨4, fun _ => 0⟩).run 60
        "fun f(a, b) { return b or a; }").isSome = true := by
      decide +kernel
    obtain ⟨⟨_, session⟩, ran⟩ := Option.isSome_iff_exists.mp declared
    have reached : Session.Reached ⟨4, fun _ => 0⟩ session := .run .start ran
    generalize written : "-f(1, nil);" = source
    have shape : (analyze source).result.toOption.any negatesNumber = true := by
      rw [← written]
      decide +kernel
    obtain ⟨program, accepted, shape⟩ := exists_ok_of_any shape
    unfold negatesNumber at shape
    split at shape
    · rename_i operator operand
      have happens : Happens ⟨4, fun _ => 0⟩ 60 [.expression (.unary operator operand)]
          session.cleared ⟨60, .evaluate (.unary operator operand), session.cleared⟩ :=
        ⟨_, .expression, .refl⟩
      have regular := (runs session reached source _ accepted 60).2 _ happens
      exact ⟨session, _, operator, operand, reached, accepted, happens,
        regular.unary operator operand rfl (of_decide_eq_true shape)⟩
    · cases shape
  · obtain ⟨body, token, lexeme, -, given, -, literal⟩ :=
      rounds ("\"é\"".toList.map .char) 3 (Scanner.start _)
        { Scanner.start (.ofPulls ("\"é\"".toList.map .char)) with lexeme := "" }.advance '"' .start
          rfl rfl
    exact ⟨_, body, token, rfl, lexeme, given, literal⟩

end Treewalk
