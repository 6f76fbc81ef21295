import Treewalk.Proofs.Program.Completeness.Statement
import Treewalk.Proofs.Program.Pulled
import Treewalk.Proofs.Program.Target
import Treewalk.Proofs.Token.Lexed

/-!
# The parser accepts exactly its grammar

A text that scans without errors is parsed if and only if its tokens form a program, and the
statements that come back are those of the derivation.
-/

namespace Treewalk

set_option autoImplicit false

open Grammar

namespace Parser

open Rule ParseState ParseState

/-- A clean run over all tokens reads declarations up to the last token. -/
theorem program_sound {before after : ParseState} {trees : Program} (closed : before.Closed)
    (done : program before = .done trees after) (clean : after.recorded = []) :
    Forms (.declarations trees) before.ahead := by
  obtain ⟨tokens, ahead, formed⟩ :=
    (statements_sound _).declarations false _ _ _ closed done clean
  rw [ahead, declarations_ahead done, List.append_nil]
  exact formed

theorem program_complete {before : ParseState} {trees : Program} (closed : before.Closed)
    (formed : Forms (.declarations trees) before.ahead) :
    program before = .done trees { before with ahead := [] } := by
  have parsed := admits_of_forms formed false (budget before.ahead.length)
    { before with ahead := [] } (by unfold budget; omega) ⟨rfl, closed⟩
  have whole : ParseState.prepend before.ahead { before with ahead := [] } = before := by
    simp [prepend]
  rw [whole] at parsed
  exact parsed

end Parser

theorem ParseError.merge_eq_nil {lexical : List LexError} {recorded : List SyntaxError} :
    ParseError.merge lexical recorded = [] ↔ lexical = [] ∧ recorded = [] := by
  unfold ParseError.merge
  rw [← List.length_eq_zero_iff, List.length_mergeSort]
  simp

theorem parse_ok_iff_done {source : String} {program : Program} :
    parse source = .ok program ↔ (Scanned.ofSource source).errors = [] ∧
      ∃ after, after.recorded = [] ∧
        Parser.program (Parser.start (Scanned.ofSource source)) = .done program after := by
  rw [parse_eq_parsed, Scanned.parsed]
  cases ran : Parser.program (Parser.start (Scanned.ofSource source)) with
  | done found after =>
      dsimp only
      split
      · rename_i none
        obtain ⟨lexical, recorded⟩ := ParseError.merge_eq_nil.mp none
        constructor
        · intro same
          cases same
          exact ⟨lexical, after, recorded, rfl⟩
        · rintro ⟨_, _, _, same⟩
          cases same
          rfl
      · rename_i some
        constructor
        · intro same
          cases same
        · rintro ⟨lexical, _, recorded, same⟩
          cases same
          exact absurd (ParseError.merge_eq_nil.mpr ⟨lexical, recorded⟩) some
  | failed error after => simp
  | exhausted => simp

/-- A text is parsed exactly if it has tokens, and these can be derived. -/
theorem parse_ok_iff {source : String} {program : Program} :
    parse source = .ok program ↔
      ∃ tokens, scan source = .ok tokens ∧ Grammar.Program tokens program := by
  have closed : (Parser.start (Scanned.ofSource source)).Closed := rfl
  rw [parse_ok_iff_done]
  constructor
  · rintro ⟨clean, after, recorded, done⟩
    exact ⟨_, scan_ok_iff.mpr ⟨clean, rfl⟩,
      .intro (Parser.program_sound closed done recorded) rfl⟩
  · rintro ⟨tokens, lexed, derived⟩
    obtain ⟨clean, whole⟩ := scan_ok_iff.mp lexed
    refine ⟨clean, ?_⟩
    cases derived with
    | intro formed ended =>
        obtain ⟨same, -⟩ := List.append_inj' whole rfl
        rw [← same] at formed
        exact ⟨_, rfl, Parser.program_complete closed formed⟩

theorem exists_ok {ε α : Type} {result : Except ε α} (some : result.toOption.isSome = true) :
    ∃ value, result = .ok value := by
  cases result with
  | error cause => cases some
  | ok value => exact ⟨value, rfl⟩

theorem exists_ok_of_any {ε α : Type} {result : Except ε α} {test : α → Bool}
    (passed : result.toOption.any test = true) :
    ∃ value, result = .ok value ∧ test value = true := by
  cases result with
  | error failure => cases passed
  | ok value => exact ⟨value, rfl, passed⟩

/-- A text without lexical errors is parsed exactly if its tokens can be derived, and the result is
the tree of the derivation. An operation in front of an equals sign of such a text is one name. -/
theorem parse_ok_iff_derivable (source : String) (tokens : List Token)
    (lexed : scan source = .ok tokens) :
    (∀ program, parse source = .ok program ↔ Grammar.Program tokens program) ∧
      ∀ program, parse source = .ok program → ∀ before target equals behind left,
        tokens = before ++ (target ++ equals :: behind) → equals.kind = .equal →
        Derives (.operation .disjunction left) target →
        ∃ name, target = [name] ∧ name.kind = .identifier := by
  have accepted : ∀ program, parse source = .ok program ↔ Grammar.Program tokens program := by
    intro program
    rw [parse_ok_iff]
    constructor
    · rintro ⟨others, lexedOthers, derived⟩
      rw [lexed] at lexedOthers
      cases lexedOthers
      exact derived
    · intro derived
      exact ⟨tokens, lexed, derived⟩
  constructor
  · exact accepted
  · intro program parsed before target equals behind left found sign operation
    exact target_is_name ((accepted program).mp parsed) found sign operation

theorem parse_ok_iff_derivable_dangling_else :
    ∃ tokens program, scan "if (a) if (b) c = 1; else c = d = -2;" = .ok tokens ∧
      parse "if (a) if (b) c = 1; else c = d = -2;" = .ok program ∧
      Grammar.Program tokens program := by
  obtain ⟨tokens, lexed⟩ : ∃ tokens, scan "if (a) if (b) c = 1; else c = d = -2;" = .ok tokens :=
    exists_ok (by decide +kernel)
  obtain ⟨program, parsed⟩ :
      ∃ program, parse "if (a) if (b) c = 1; else c = d = -2;" = .ok program :=
    exists_ok (by decide +kernel)
  exact ⟨tokens, program, lexed, parsed,
    ((parse_ok_iff_derivable _ tokens lexed).1 program).mp parsed⟩

end Treewalk
