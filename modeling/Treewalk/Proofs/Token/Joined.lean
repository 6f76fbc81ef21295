import Treewalk.Proofs.Token.Stable

/-!
# Texts joined by a line break

No token goes on over the end of a line unless a quote or a block comment is open there. So chunks
without faults stay as they are if a line break follows them and then something else: a number or a
word ends at the break, and a line comment ends there too.
-/

namespace Treewalk

set_option autoImplicit false

/-- The first character of a text and what the first chunk adds to it. -/
theorem chunks_split {text : List Char} {chunk : Chunk} {ahead : List Chunk}
    (cut : chunks text = chunk :: ahead) :
    ∃ first body behind, text = first :: (body ++ behind) ∧ chunk.lexeme = first :: body ∧
      Chunk.munch first (body ++ behind) = (chunk, behind) ∧ chunks behind = ahead := by
  cases text with
  | nil => cases cut
  | cons first rest =>
      rw [chunks_cons] at cut
      injection cut with head tail
      obtain ⟨body, lexeme, split⟩ := Chunk.munch_split first rest
      refine ⟨first, body, (Chunk.munch first rest).2, by rw [← split], head ▸ lexeme, ?_, tail⟩
      rw [← split, ← head]

/-- Texts that begin with the same chunks stop a chunk in the same way, if a line break follows
these chunks in the second text. -/
theorem stops_alike_of_chunks {behind : List Char} {first second : List Chunk}
    (cut : chunks behind = first ++ second) (more : List Char) :
    Chunk.StopsAlike behind (first.flatMap Chunk.lexeme ++ '\n' :: more) := by
  cases first with
  | nil => exact .line behind more
  | cons chunk first =>
      rw [List.cons_append] at cut
      obtain ⟨char, body, others, rfl, lexeme, -, later⟩ := chunks_split cut
      have covered : others = first.flatMap Chunk.lexeme ++ second.flatMap Chunk.lexeme := by
        rw [← chunks_cover others, later, List.flatMap_append]
      rw [List.flatMap_cons, lexeme, covered, List.append_assoc, List.cons_append]
      apply Chunk.StopsAlike.same
      intro _ digit found isNumber
      rw [← List.append_assoc] at found ⊢
      cases common : body ++ first.flatMap Chunk.lexeme with
      | nil =>
          rw [common] at found
          cases found
          cases isNumber
      | cons next rest =>
          rw [common] at found
          exact ⟨digit, found, isNumber⟩

/-- Chunks without faults are still there if the text goes on behind them with a line break. -/
theorem chunks_cut {text : List Char} {first second : List Chunk}
    (cut : chunks text = first ++ second)
    (sound : ∀ chunk ∈ first, ∀ cause, chunk.sort ≠ .fault cause) (more : List Char) :
    chunks (first.flatMap Chunk.lexeme ++ '\n' :: more) = first ++ chunks ('\n' :: more) := by
  induction first generalizing text with
  | nil => rfl
  | cons chunk first ih =>
      rw [List.cons_append] at cut
      obtain ⟨char, body, behind, -, lexeme, munched, later⟩ := chunks_split cut
      have stable := Chunk.munch_stable munched (stops_alike_of_chunks later more)
        fun _ _ => sound chunk List.mem_cons_self
      have shown := ih later fun chunk found => sound chunk (List.mem_cons_of_mem _ found)
      rw [List.flatMap_cons, lexeme, List.append_assoc, List.cons_append, chunks_cons, stable,
        shown]
      rfl

/-- A text that spells tokens only spells them in front of a line break, and what follows the break
is read for itself. -/
theorem spelled_line {text : List Char} {tokens : List Token}
    (spells : spelled text = tokens.map .ok)
    (rest : List Char) : spelled (text ++ '\n' :: rest) = tokens.map .ok ++ spelled rest := by
  have sound : ∀ chunk ∈ chunks text, ∀ cause, chunk.sort ≠ .fault cause := by
    intro chunk found cause fault
    have listed : .error cause ∈ spelled text :=
      List.mem_filterMap.mpr ⟨chunk, found, by rw [Chunk.spelled?, fault]⟩
    rw [spells] at listed
    obtain ⟨token, -, same⟩ := List.mem_map.mp listed
    cases same
  have joined := chunks_cut (List.append_nil (chunks text)).symm sound rest
  rw [chunks_cover] at joined
  have behind : spelled ('\n' :: rest) = spelled rest := spelled_blank (by decide) rest
  rw [← behind, ← spells, spelled, joined, List.filterMap_append]
  rfl

end Treewalk
