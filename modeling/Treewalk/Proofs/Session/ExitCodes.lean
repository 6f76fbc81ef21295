import Treewalk.Proofs.Evaluation.Invariant
import Treewalk.Proofs.Session.Accepted
import Treewalk.Proofs.Session.FromFile

/-!
# Exit codes

Four commands look at a file: two read it as a whole before they scan it, two parse it while they
read it, and each goes one stage further than the one before. Their exit codes tell which stage
refuses the file, and all of them agree about that.
-/

namespace Treewalk

set_option autoImplicit false

def IsText (bytes : List UInt8) : Prop :=
  ∃ source : String, source.toUTF8.data.toList = bytes

/-- The exit code of a command; none if its budget is used up. -/
def Command.code? [CharReader] (units : Nat) (around : Surroundings)
    (command : Command) : Option Nat :=
  (command.perform units around).map Finished.code

def stageCode {ε α : Type} : Except ε α → Nat
  | .ok _ => 0
  | .error _ => 65

theorem stage_code_refused {ε α : Type} {result : Except ε α} :
    stageCode result = 65 ↔ ∀ value, result ≠ .ok value := by
  cases result with
  | ok value => simp [stageCode]
  | error errors => simp [stageCode]

theorem stage_code_accepted {ε α : Type} {result : Except ε α} (accepted : stageCode result = 0) :
    ∃ value, result = .ok value := by
  cases result with
  | ok value => exact ⟨value, rfl⟩
  | error errors => cases accepted

/-- The front end refuses a text with errors of parsing or of the check. -/
theorem exit_code_of_analyze {source : String} {failure : Failure}
    (refused : (analyze source).result = .error failure) : failure.exitCode = 65 := by
  unfold analyze checkParsed at refused
  split at refused
  · cases refused
    rfl
  · dsimp only at refused
    split at refused
    · cases refused
    · cases refused
      rfl

theorem read_whole_of_text (source : String) :
    readWhole source.toUTF8.data.toList = .ok source := by
  have valid : source.toUTF8.IsValidUTF8 := source.isValidUTF8
  have whole : (⟨source.toUTF8.data.toList.toArray⟩ : ByteArray) = source.toUTF8 := rfl
  rw [readWhole, whole, String.fromUTF8?, dif_pos valid]
  rfl

theorem read_whole_of_other {bytes : List UInt8} (other : ¬IsText bytes) :
    readWhole bytes = .error .invalidData := by
  have invalid : ¬(⟨bytes.toArray⟩ : ByteArray).IsValidUTF8 := by
    intro valid
    exact other ⟨String.fromUTF8 ⟨bytes.toArray⟩ valid, rfl⟩
  rw [readWhole, String.fromUTF8?, dif_neg invalid]

namespace Command

variable (units : Nat) {around : Surroundings} {source : String}
variable [CharReader] (sound : CharReader.Sound)

section Text

variable (file : around.file = .ok source.toUTF8.data.toList)

include file

theorem tokens_code (path : String) :
    (tokens path).code? units around = some (stageCode (scan source)) := by
  simp only [code?, perform, listTokens, file, Except.bind, read_whole_of_text]
  cases scan source with
  | ok listed => rfl
  | error errors => rfl

theorem parse_code (path : String) (dump : Bool) :
    (parse path dump).code? units around = some (stageCode (Treewalk.parse source)) := by
  simp only [code?, perform, printProgram, file, Except.bind, read_whole_of_text]
  cases Treewalk.parse source with
  | ok program => rfl
  | error errors => rfl

include sound

theorem check_code (path : String) :
    (check path).code? units around = some (stageCode (analyze source).result) := by
  simp only [code?, perform, checkFile, file, analyze_file_of_text sound, showAnalyzed]
  cases result : (analyze source).result with
  | ok program => rfl
  | error failure => exact congrArg some (exit_code_of_analyze result)

theorem run_code_refused (path : String) (limit : Nat)
    (refused : stageCode (analyze source).result = 65) :
    (run path limit).code? units around = some 65 := by
  simp only [code?, perform, runScript, file, analyze_file_of_text sound, Session.runAnalysis]
  cases result : (analyze source).result with
  | ok program => exact absurd result (stage_code_refused.mp refused program)
  | error failure => exact congrArg some (exit_code_of_analyze result)

/-- A program that the front end accepts is run: the code tells how evaluation ends, and there is
one unless the budget is used up. -/
theorem run_code_accepted (path : String) (limit : Nat) {program : Program}
    (accepted : (analyze source).result = .ok program) :
    (∃ value machine,
        interpret ⟨limit, around.clock⟩ units program Machine.initial = .done value machine ∧
        (run path limit).code? units around = some 0) ∨
      (∃ error machine,
        interpret ⟨limit, around.clock⟩ units program Machine.initial = .raised error machine ∧
        (run path limit).code? units around = some 70) ∨
      (interpret ⟨limit, around.clock⟩ units program Machine.initial = .exhausted ∧
        (run path limit).code? units around = none) := by
  have unstuck := interpret_never_stuck ⟨limit, around.clock⟩ units
    (meaningful_of_parse (analyze_ok_iff.mp accepted).1)
  simp only [code?, perform, runScript, file, analyze_file_of_text sound, Session.runAnalysis,
    accepted]
  rw [show (Session.start ⟨limit, around.clock⟩).cleared = Machine.initial from rfl,
    show (Session.start ⟨limit, around.clock⟩).config = ⟨limit, around.clock⟩ from rfl]
  generalize interpret ⟨limit, around.clock⟩ units program Machine.initial = outcome at unstuck
  cases outcome with
  | done value machine => exact .inl ⟨value, machine, rfl, rfl⟩
  | raised error machine => exact .inr (.inl ⟨error, machine, rfl, rfl⟩)
  | exhausted => exact .inr (.inr ⟨rfl, rfl⟩)
  | stuck => exact absurd rfl unstuck

theorem code_of_text (path : String) (dump : Bool) (limit : Nat) :
    ∀ command ∈ [tokens path, parse path dump, check path, run path limit],
      command.code? units around ≠ some 74 := by
  have stage : ∀ {ε α : Type} (result : Except ε α), some (stageCode result) ≠ some 74 := by
    intro ε α result
    cases result with
    | ok value => exact nofun
    | error errors => exact nofun
  intro command listed
  simp only [List.mem_cons, List.not_mem_nil, or_false] at listed
  rcases listed with rfl | rfl | rfl | rfl
  · rw [tokens_code units file]
    exact stage _
  · rw [parse_code units file]
    exact stage _
  · rw [check_code units sound file]
    exact stage _
  · cases result : (analyze source).result with
    | error failure => simp [run_code_refused units sound file path limit (by rw [result]; rfl)]
    | ok program =>
        rcases run_code_accepted units sound file path limit result with
          ⟨_, _, -, code⟩ | ⟨_, _, -, code⟩ | ⟨-, code⟩
        all_goals simp [code]

end Text

include sound

/-- Every command that reads a file refuses bytes that are no text with the code of a fault. -/
theorem code_of_other {bytes : List UInt8} (file : around.file = .ok bytes) (other : ¬IsText bytes)
    (path : String) (dump : Bool) (limit : Nat) :
    ∀ command ∈ [tokens path, parse path dump, check path, run path limit],
      command.code? units around = some 74 := by
  obtain ⟨fault, unreadable⟩ := analyze_file_of_other sound (not_exists.mp other)
  intro command listed
  simp only [List.mem_cons, List.not_mem_nil, or_false] at listed
  rcases listed with rfl | rfl | rfl | rfl
  · simp only [code?, perform, listTokens, file, Except.bind, read_whole_of_other other]
    rfl
  · simp only [code?, perform, printProgram, file, Except.bind, read_whole_of_other other]
    rfl
  · simp only [code?, perform, checkFile, file, unreadable]
    rfl
  · simp only [code?, perform, runScript, file, unreadable]
    rfl

end Command

/-- With any sound reader, the commands agree about every file. Each of them refuses a file as
unreadable exactly if its bytes are no text. What has lexical errors does not parse, what does not
parse fails the check, and what fails the check is what is not run. A file that passes the check is
run, and unless that goes on forever, the code tells whether evaluation ended with a runtime error.
-/
theorem commands_agree_on_file [CharReader] (sound : CharReader.Sound) (units : Nat)
    (around : Surroundings) (bytes : List UInt8) (path : String) (dump : Bool) (limit : Nat)
    (file : around.file = .ok bytes) :
    (∀ command ∈ [Command.tokens path, .parse path dump, .check path, .run path limit],
      command.code? units around = some 74 ↔ ¬IsText bytes) ∧
    ((Command.tokens path).code? units around = some 65 →
      (Command.parse path dump).code? units around = some 65) ∧
    ((Command.parse path dump).code? units around = some 65 →
      (Command.check path).code? units around = some 65) ∧
    ((Command.check path).code? units around = some 65 ↔
      (Command.run path limit).code? units around = some 65) ∧
    ((Command.check path).code? units around = some 0 →
      ∃ program, (analyzeFile around.file).analysis.result = .ok program ∧
        ((Command.run path limit).code? units around = none ↔
          interpret ⟨limit, around.clock⟩ units program Machine.initial = .exhausted) ∧
        ((Command.run path limit).code? units around = some 0 ↔ ∃ value machine,
          interpret ⟨limit, around.clock⟩ units program Machine.initial = .done value machine) ∧
        ((Command.run path limit).code? units around = some 70 ↔ ∃ error machine,
          interpret ⟨limit, around.clock⟩ units program Machine.initial = .raised error machine) ∧
        ∀ code, (Command.run path limit).code? units around = some code →
          code = 0 ∨ code = 70) := by
  by_cases text : IsText bytes
  · obtain ⟨source, rfl⟩ := text
    have analyzed : (analyzeFile around.file).analysis = analyze source := by
      rw [file, analyze_file_of_text sound]
    have isText : IsText source.toUTF8.data.toList := ⟨source, rfl⟩
    rw [analyzed, Command.tokens_code units file, Command.parse_code units file,
      Command.check_code units sound file]
    simp only [Option.some.injEq]
    refine ⟨?_, ?_, ?_, ?_, ?_⟩
    · intro command listed
      have readable := Command.code_of_text units sound file path dump limit command listed
      exact iff_of_false readable (not_not_intro isText)
    · rw [stage_code_refused, stage_code_refused]
      intro refused program parsed
      obtain ⟨tokens, lexed, -⟩ := parse_ok_iff.mp parsed
      exact refused tokens lexed
    · rw [stage_code_refused, stage_code_refused]
      intro refused program accepted
      exact refused program (analyze_ok_iff.mp accepted).1
    · constructor
      · exact Command.run_code_refused units sound file path limit
      · intro refused
        rw [stage_code_refused]
        intro program accepted
        rcases Command.run_code_accepted units sound file path limit accepted with
          ⟨_, _, -, code⟩ | ⟨_, _, -, code⟩ | ⟨-, code⟩
        all_goals simp [code] at refused
    · intro passed
      obtain ⟨program, accepted⟩ := stage_code_accepted passed
      refine ⟨program, accepted, ?_⟩
      rcases Command.run_code_accepted units sound file path limit accepted with
        ⟨_, _, ended, code⟩ | ⟨_, _, ended, code⟩ | ⟨ended, code⟩
      all_goals simp [ended, code]
  · have all := Command.code_of_other units sound file text path dump limit
    simp only [List.forall_mem_cons] at all ⊢
    obtain ⟨tokens, parse, check, run, -⟩ := all
    simp [tokens, parse, check, run, text]

theorem commands_agree_on_file_negation :
    ∃ program,
      (analyzeFile (.ok "print 1; -nil;".toUTF8.data.toList)).analysis.result = .ok program ∧
      ∃ error machine,
        interpret ⟨4, fun _ => 0⟩ 20 program Machine.initial = .raised error machine := by
  have agree := commands_agree_on_file decode_sound 20
    ⟨.ok "print 1; -nil;".toUTF8.data.toList, "", false, fun _ => 0, "0.00s"⟩
    "print 1; -nil;".toUTF8.data.toList "negation" false 4 rfl
  obtain ⟨program, accepted, -, -, raised, -⟩ := agree.2.2.2.2 (by decide +kernel)
  exact ⟨program, accepted, raised.mp (by decide +kernel)⟩

end Treewalk
