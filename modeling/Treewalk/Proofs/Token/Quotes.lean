import Treewalk.Proofs.Token.Streamed

/-!
# The quotes of a string

The scanner takes the text of a string off its lexeme by cutting one character off at each end. In
every round of every file that comes to this, the lexeme is a text between two quotes, so that
nothing else is cut off.
-/

namespace Treewalk

set_option autoImplicit false

namespace Scanner

/-- While a file is scanned, a round starts in this state; the bound is the one of its loops. -/
inductive Rounds (pulls : List Pull) : Nat → Scanner → Prop where
  | start : Rounds pulls pulls.length (start (.ofPulls pulls))
  | next {bound : Nat} {scanner after : Scanner} {round : Round}
      (earlier : Rounds pulls (bound + 1) scanner)
      (took : scanner.round (bound + 1) = (round, after))
      (goes : ∀ closing, round ≠ .finished closing) : Rounds pulls bound after

variable {pulls : List Pull} {bound : Nat} {scanner opened : Scanner} {found : Char}

theorem Rounds.stands (rounds : Rounds pulls bound scanner) :
    ∃ origin line taken text, Stands pulls origin line taken text scanner ∧
      text.length ≤ bound := by
  induction rounds with
  | start => exact ⟨0, 1, [], _, stands_start pulls, leading_text_length pulls⟩
  | @next bound scanner after round earlier took goes ih =>
      obtain ⟨origin, line, taken, text, stands, enough⟩ := ih
      cases text with
      | nil =>
          have ended := (round_at_end (bound + 1) stands).1
          rw [took] at ended
          exact absurd ended (goes _)
      | cons first rest =>
          have shorter := Chunk.munch_length first rest
          rw [List.length_cons] at enough
          have behind := (took_round (bound + 1) stands (by omega)).stands
          rw [took] at behind
          exact ⟨_, _, _, _, behind, by omega⟩

theorem Stands.text_of_take {origin line : Nat} {taken text : List Char} {first : Char}
    (stands : Stands pulls origin line taken text scanner)
    (found : scanner.take = (some first, opened)) :
    ∃ rest, text = first :: rest ∧ Stands pulls origin line (taken ++ [first]) rest opened := by
  cases text with
  | nil =>
      have same := stands.ahead
      unfold Scanner.take at found
      unfold Scanner.ahead at same
      cases current : scanner.current with
      | none =>
          rw [current] at found
          cases found
      | some next =>
          rw [current] at same
          cases same
  | cons char rest =>
      obtain ⟨isFirst, behind⟩ := stands.take
      unfold Scanner.advance at behind
      rw [found] at isFirst behind
      cases isFirst
      exact ⟨rest, rfl, behind⟩

/-- A round that opens a string and finds its end takes a text between two quotes, and gives the
token with that text. -/
theorem Rounds.between_quotes (rounds : Rounds pulls bound scanner)
    (opens : { scanner with lexeme := "" }.take = (some '"', opened))
    (closes : (opened.skipWhile (· != '"') bound).peek = some found) :
    ∃ body token, (opened.skipWhile (· != '"') bound).advance.lexeme = "\"" ++ body ++ "\"" ∧
      (scanner.round bound).1 = .item (.token token) ∧ token.kind = .string ∧
      token.literal = some (.string body) := by
  obtain ⟨origin, line, taken, text, stands, enough⟩ := rounds.stands
  obtain ⟨rest, rfl, behind⟩ := stands.clear.text_of_take opens
  have short : rest.length ≤ bound := Nat.le_of_succ_le enough
  have inside := behind.skip_while (· != '"') short
  rw [inside.peek] at closes
  obtain ⟨after, split⟩ := List.head?_eq_some_iff.mp closes
  have isQuote : found = '"' := by
    have stopped := List.head?_dropWhile_not (· != '"') rest
    rw [split] at stopped
    simpa using stopped
  subst isQuote
  rw [split] at inside
  have took := (took_round bound stands short).round
  have munched : Chunk.munch '"' rest =
      (⟨.token .string (some (.string (String.ofList (rest.takeWhile (· != '"'))))),
        '"' :: rest.takeWhile (· != '"') ++ ['"']⟩, after) := by
    show Chunk.string rest = _
    unfold Chunk.string
    dsimp only
    rw [split]
  have quoted : String.ofList ('"' :: rest.takeWhile (· != '"') ++ ['"']) =
      "\"" ++ String.ofList (rest.takeWhile (· != '"')) ++ "\"" := by
    rw [List.cons_append, ← List.singleton_append, String.ofList_append, String.ofList_append]
    simp [String.append_assoc]
  rw [munched] at took
  refine ⟨String.ofList (rest.takeWhile (· != '"')), _, ?_, took, rfl, rfl⟩
  rw [inside.take.2.lexeme, ← quoted]
  rfl

end Scanner

end Treewalk
