import Treewalk.Proofs.Program.Acceptance
import Treewalk.Proofs.Reprint.Statement

/-!
# Printing and parsing again

A parsed program is printed as a text that is parsed to the same program, up to lines, spans and the
keywords of loops.
-/

namespace Treewalk

set_option autoImplicit false

open Grammar

theorem redeclares_lines {trees : List Stmt} (all : ∀ tree ∈ trees, tree.Redeclares) :
    ∃ tokens, Writes (Program.source trees).toList tokens ∧ Redeclaring trees tokens := by
  induction trees with
  | nil => exact ⟨[], Writes.nil, redeclaring_nil⟩
  | cons tree trees ih =>
      rw [List.forall_mem_cons] at all
      obtain ⟨before, writes, reforms⟩ := all.1
      obtain ⟨behind, written, others⟩ := ih all.2
      refine ⟨before ++ behind, ?_, redeclaring_cons reforms others⟩
      cases trees with
      | nil =>
          have none : behind = [] := by
            have spells := written [] stops_nil
            cases behind with
            | nil => rfl
            | cons token behind => cases spells
          rw [none, List.append_nil, Program.source, List.map_singleton,
            String.intercalate_singleton]
          exact writes
      | cons second trees =>
          have text : (Program.source (tree :: second :: trees)).toList =
              tree.source.toList ++ '\n' :: (Program.source (second :: trees)).toList := by
            rw [Program.source, List.map_cons, List.map_cons, String.intercalate_cons_cons]
            simp only [String.toList_append, List.append_assoc]
            rfl
          rw [text]
          refine writes.append (fun _ => stops_cons (by decide)) ?_
          intro rest stops
          rw [List.cons_append, spelled_blank (by decide), written rest stops]

/-- A text that spells tokens of a program, in whatever places, is parsed to this program. -/
theorem parse_of_spelled {source : String} {trees : List Stmt} {tokens : List Token}
    (spells : spelled source.toList = tokens.map .ok) (reforms : Redeclaring trees tokens) :
    ∃ again, parse source = .ok again ∧ Program.erase again = Program.erase trees := by
  obtain ⟨found, closing, scanned, ended, sameTokens⟩ := scan_of_spelled spells
  obtain ⟨again, sameTrees, formed⟩ := reforms found sameTokens
  exact ⟨again, parse_ok_iff.mpr ⟨_, scanned, .intro formed ended⟩, sameTrees⟩

/-- The printed form of a parsed program, if the numbers in it are finite, is parsed to the same
program up to lines, spans and the keywords of loops. -/
theorem printed_program_parses (source : String) (tokens : List Token) (program : Program)
    (lexed : scan source = .ok tokens) (parsed : parse source = .ok program)
    (finite : ∀ token ∈ tokens, token.literal.all Literal.isFinite = true) :
    ∃ again, parse (Program.source program) = .ok again ∧
      Program.erase again = Program.erase program := by
  obtain ⟨_, relexed, derived⟩ := parse_ok_iff.mp parsed
  rw [lexed] at relexed
  cases relexed
  cases derived with
  | @intro _ inside closing whole ended =>
      obtain ⟨-, scanned⟩ := scan_ok_iff.mp lexed
      obtain ⟨same, -⟩ := List.append_inj' scanned rfl
      have printable : ∀ token ∈ inside, token.Printable := by
        intro token found
        refine ⟨?_, finite token (List.mem_append_left _ found)⟩
        rw [← same] at found
        exact tokens_proper source token found
      obtain ⟨written, writes, reforms⟩ := redeclares_lines (reprints_of_forms whole printable)
      have spells : spelled (Program.source program).toList = written.map .ok := by
        have alone := writes [] stops_nil
        rw [List.append_nil] at alone
        rw [alone]
        exact List.append_nil _
      obtain ⟨found, last, rescanned, ended, sameTokens⟩ := scan_of_spelled spells
      obtain ⟨again, sameTrees, formed⟩ := reforms found sameTokens
      exact ⟨again, parse_ok_iff.mpr ⟨_, rescanned, .intro formed ended⟩, sameTrees⟩

theorem printed_program_parses_loop :
    ∃ tokens program again,
      scan "for (var i = 2.50; !(i > 1); i = i + 1) if (i) p(i, \"a\"); else break;" = .ok tokens ∧
      parse "for (var i = 2.50; !(i > 1); i = i + 1) if (i) p(i, \"a\"); else break;" =
        .ok program ∧
      (∀ token ∈ tokens, token.literal.all Literal.isFinite = true) ∧
      parse (Program.source program) = .ok again ∧
      Program.erase again = Program.erase program := by
  generalize written : "for (var i = 2.50; !(i > 1); i = i + 1) if (i) p(i, \"a\"); else break;" =
    source
  obtain ⟨tokens, lexed⟩ : ∃ tokens, scan source = .ok tokens := by
    rw [← written]
    exact exists_ok (by decide +kernel)
  obtain ⟨program, parsed⟩ : ∃ program, parse source = .ok program := by
    rw [← written]
    exact exists_ok (by decide +kernel)
  have finite : ∀ token ∈ tokens, token.literal.all Literal.isFinite = true := by
    have all : (scan source).toOption.all (List.all · fun token =>
        token.literal.all Literal.isFinite) = true := by
      rw [← written]
      decide +kernel
    rw [lexed] at all
    exact List.all_eq_true.mp all
  obtain ⟨again, reparsed, same⟩ :=
    printed_program_parses source tokens program lexed parsed finite
  exact ⟨tokens, program, again, lexed, parsed, finite, reparsed, same⟩

end Treewalk
