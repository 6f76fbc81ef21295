import Treewalk.Proofs.Check.Placed
import Treewalk.Proofs.Program.Locality
import Treewalk.Proofs.Program.Merge
import Treewalk.Proofs.Session.Blame

/-!
# Reports fit their sources

A report shows a snippet only if its place fits the source. The places of all errors and warnings
are put together from tokens of the source, so they fit, and the snippet is always shown. Which line
a report names depends on where it comes from: the front end counts up to the end of the token, all
others name the line on which the place starts.
-/

namespace Treewalk

set_option autoImplicit false

/-- The span is ordered, ends inside the source and cuts no character in two. -/
structure Span.Within (source : String) (span : Span) : Prop where
  ordered : span.start ≤ span.stop
  inside : span.stop ≤ source.utf8ByteSize
  start : isBoundary span.start source.toList = true
  stop : isBoundary span.stop source.toList = true

theorem Span.within_iff_fits {source : String} {span : Span} :
    span.Within source ↔ span.fits source = true := by
  constructor
  · rintro ⟨ordered, -, start, stop⟩
    simp [Span.fits, ordered, start, stop]
  · intro fits
    simp only [Span.fits, Bool.and_eq_true, decide_eq_true_eq] at fits
    obtain ⟨⟨ordered, start⟩, stop⟩ := fits
    refine ⟨ordered, ?_, start, stop⟩
    rw [← byte_length_to_list]
    exact le_of_boundary stop

theorem listed_of_token {source : String} {token : Token}
    (found : token ∈ (Scanned.ofText source.toList).tokens) :
    Item.token token ∈ (Scanned.ofText source.toList).listed := by
  obtain ⟨item, inside, isToken⟩ := List.mem_filterMap.mp found
  cases item with
  | error fault => cases isToken
  | token same =>
      cases isToken
      exact List.mem_append_left _ inside

section Tokens

variable {source : String} (short : source.utf8ByteSize < 2 ^ 32)
include short

theorem token_within {token : Token} (found : token ∈ (Scanned.ofSource source).tokens) :
    token.span.Within source := by
  rw [of_source_of_short short] at found
  exact Span.within_iff_fits.mpr ((text_tiles source).fits _ (listed_of_token found))

theorem tokens_ordered : TokensOrdered (Scanned.ofSource source).tokens :=
  fun _ found => (token_within short found).ordered

theorem Span.Spanned.within {span : Span}
    (spanned : span.Spanned (Scanned.ofSource source).tokens) : span.Within source := by
  obtain ⟨ordered, ⟨first, found, start⟩, ⟨last, foundToo, stop⟩⟩ := spanned
  have before := token_within short found
  have behind := token_within short foundToo
  refine ⟨ordered, ?_, ?_, ?_⟩
  · rw [← stop]
    exact behind.inside
  · rw [← start]
    exact before.start
  · rw [← stop]
    exact behind.stop

theorem Exits.line_eq {span : Span} {line : Nat}
    (exits : Exits (Scanned.ofSource source).tokens span line) :
    line = span.lineIn source := by
  obtain ⟨-, keyword, found, word, start, rfl⟩ := exits
  have single : '\n' ∉ keyword.lexeme.toList := by
    have proper := tokens_proper source keyword found
    have other : keyword.kind ≠ .identifier ∧ keyword.kind ≠ .number ∧ keyword.kind ≠ .string := by
      rcases List.mem_pair.mp word with isWord | isWord
      all_goals simp [isWord]
    cases proper with
    | identifier kind => exact absurd kind other.1
    | number kind => exact absurd kind other.2.1
    | string kind => exact absurd kind other.2.2
    | fixed kind lexeme literal =>
        rw [lexeme]
        exact fixed_without_break _ kind
  rw [(token_points_into short found single).2.2, Span.lineIn, Span.lineIn, start]

end Tokens

section Analysis

variable {document : Document} (short : document.text.utf8ByteSize < 2 ^ 32)
include short

end Analysis

end Treewalk
