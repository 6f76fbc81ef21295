import Treewalk.Proofs.Token.Extended
import Treewalk.Proofs.Token.Moved
import Treewalk.Proofs.Token.Munched

/-!
# Texts cut out of other texts

What follows a lexeme can keep it from going on, but never makes it longer. So a text can be cut in
front of one of its tokens and behind another one: read by itself, what is left gives the tokens
from the one to the other, moved by what stood in front.
-/

namespace Treewalk

set_option autoImplicit false

open Chunk

/-- The span goes from the start of the first token to the end of the last one. -/
structure Span.Bounds (tokens : List Token) (span : Span) : Prop where
  begins : ∃ first ∈ tokens.head?, first.span.start = span.start
  ends : ∃ last ∈ tokens.getLast?, last.span.stop = span.stop

instance (tokens : List Token) (span : Span) : Decidable (span.Bounds tokens) :=
  decidable_of_iff ((∃ first ∈ tokens.head?, first.span.start = span.start) ∧
      ∃ last ∈ tokens.getLast?, last.span.stop = span.stop)
    ⟨fun ⟨begins, ends⟩ => ⟨begins, ends⟩, fun ⟨begins, ends⟩ => ⟨begins, ends⟩⟩

/-- What is cut off in front of a text is cut off in front of every beginning of that text. -/
theorem Chunk.Cut.shorten {chunk : Chunk} {rest more : List Char} (cut : Cut chunk (rest ++ more)) :
    Cut chunk rest := by
  generalize whole : rest ++ more = behind at cut
  cases cut with
  | blank blank => exact .blank blank
  | line inside ended =>
      refine .line inside fun char found => ended char ?_
      rw [← whole, List.head?_append, Option.mem_def.mp found]
      rfl
  | block inside => exact .block inside
  | @token lexeme _ kind literal spelled longest apart =>
      have begins : lexeme ++ rest <+: lexeme ++ behind :=
        ⟨more, by rw [← whole, List.append_assoc]⟩
      refine .token spelled ?_ fun opens => apart ?_
      · exact fun other kind literal again starts =>
          longest other kind literal again (starts.trans begins)
      · exact opens.imp (fun starts => starts.trans begins) fun starts => starts.trans begins
  | openString inside =>
      rw [(List.append_eq_nil_iff.mp whole).1]
      exact .openString inside
  | openComment inside =>
      rw [(List.append_eq_nil_iff.mp whole).1]
      exact .openComment inside
  | @stray char _ solid notQuote none =>
      refine .stray solid notQuote fun lexeme kind literal spelled starts => ?_
      exact none lexeme kind literal spelled (starts.trans ⟨more, congrArg (List.cons char) whole⟩)

namespace Munched

variable {offset line : Nat} {text : List Char} {front rest : List Token} {token : Token}
  {closing : Token}

/-- Somewhere in the text the token starts, and from there on the text is cut up into the token and
those that follow it. -/
def OpensWith (offset line : Nat) (text : List Char) (token : Token) (rest : List Token)
    (closing : Token) : Prop :=
  ∃ before after, text = before ++ after ∧ token.span.start = offset + byteLength before ∧
    Munched (offset + byteLength before) (line + newlines before) after
      ((token :: rest).map .token) closing

theorem OpensWith.behind {lexeme : List Char}
    (opens : OpensWith (offset + byteLength lexeme) (line + newlines lexeme) text token rest
      closing) : OpensWith offset line (lexeme ++ text) token rest closing := by
  obtain ⟨before, after, rfl, start, munched⟩ := opens
  refine ⟨lexeme ++ before, after, (List.append_assoc _ _ _).symm, ?_, ?_⟩
  · rw [start, byte_length_append, Nat.add_assoc]
  · rw [byte_length_append, newlines_append, ← Nat.add_assoc, ← Nat.add_assoc]
    exact munched

theorem from_token
    (munched : Munched offset line text ((front ++ token :: rest).map .token) closing) :
    OpensWith offset line text token rest closing := by
  generalize listed : (front ++ token :: rest).map Item.token = items at munched
  induction munched generalizing front with
  | finish => simp at listed
  | layout cut later ih => exact (ih listed).behind
  | token cut later ih =>
      cases front with
      | nil =>
          cases listed
          exact ⟨[], _, rfl, rfl, .token cut later⟩
      | cons found front =>
          injection listed with _ listed
          exact (ih listed).behind
  | fault cut later ih => cases front <;> cases listed

theorem to_token
    (munched : Munched offset line text ((front ++ token :: rest).map .token) closing) :
    ∃ before after ended, text = before ++ after ∧
      token.span.stop = offset + byteLength before ∧
      Munched offset line before ((front ++ [token]).map .token) ended := by
  generalize listed : (front ++ token :: rest).map Item.token = items at munched
  induction munched generalizing front with
  | finish => simp at listed
  | @layout offset line lexeme _ _ _ cut later ih =>
      obtain ⟨before, after, ended, rfl, stop, munched⟩ := ih listed
      refine ⟨lexeme ++ before, after, ended, (List.append_assoc _ _ _).symm, ?_,
        .layout cut.shorten munched⟩
      rw [stop, byte_length_append, Nat.add_assoc]
  | @token offset line lexeme behind _ _ _ _ cut later ih =>
      cases front with
      | nil =>
          cases listed
          have short : Chunk.Cut _ [] := cut.shorten
          have alone := Munched.token short
            (@Munched.finish (offset + byteLength lexeme) (line + newlines lexeme))
          rw [List.append_nil] at alone
          exact ⟨lexeme, behind, _, rfl, rfl, alone⟩
      | cons found front =>
          injection listed with same listed
          obtain ⟨before, after, ended, rfl, stop, munched⟩ := ih listed
          refine ⟨lexeme ++ before, after, ended, (List.append_assoc _ _ _).symm, ?_, ?_⟩
          · rw [stop, byte_length_append, Nat.add_assoc]
          · rw [List.cons_append, List.map_cons, same]
            exact .token cut.shorten munched
  | fault cut later ih => cases front <;> cases listed

end Munched

/-- A text that is cut up into tokens behind some place gives these tokens by itself, and they have
moved to the place. -/
theorem scanned_of_munched {shift : Shift} {text : List Char} {tokens : List Token}
    {closing : Token}
    (munched : Munched (0 + shift.bytes) (1 + shift.lines) text (tokens.map .token) closing) :
    (Scanned.ofText text).errors = [] ∧
      (Scanned.ofText text).tokens.map (Token.moved shift) = tokens := by
  have moves : Cursor.Moves shift (Cursor.start text)
      ⟨chunks text, 0 + shift.bytes, 1 + shift.lines⟩ := ⟨rfl, rfl⟩
  have items : (Scanned.ofText text).items.map (Item.moved shift) = tokens.map .token :=
    (Cursor.items_moved moves (chunks text)).1.symm.trans munched.items_eq.1.symm
  have none := errors_of_tokens tokens
  have all := tokens_of_tokens tokens
  rw [← items, errors_moved, List.map_eq_nil_iff] at none
  rw [← items, tokens_moved] at all
  exact ⟨none, all⟩

/-- Tokens that stand one after the other in a text without faults are the tokens of the text
between the start of the first and the end of the last of them. -/
theorem scanned_slice {source : List Char} {front covered behind : List Token} {span : Span}
    (clean : (Scanned.ofText source).errors = [])
    (tokens : (Scanned.ofText source).tokens = front ++ (covered ++ behind))
    (bounds : span.Bounds covered) :
    ∃ before text after, source = before ++ (text ++ after) ∧
      span = ⟨byteLength before, byteLength (before ++ text)⟩ ∧
      (Scanned.ofText text).errors = [] ∧
      (Scanned.ofText text).tokens.map (Token.moved ⟨byteLength before, newlines before⟩) =
        covered := by
  obtain ⟨⟨first, isFirst, start⟩, ⟨last, isLast, stop⟩⟩ := bounds
  obtain ⟨others, rfl⟩ := List.head?_eq_some_iff.mp isFirst
  have whole := munched_items source 0 1
  have items : (Scanned.ofText source).items =
      (front ++ first :: (others ++ behind)).map .token := by
    rw [items_of_clean clean, ← Scanned.tokens, tokens]
    rfl
  rw [show Cursor.itemsFrom (chunks source) ⟨chunks source, 0, 1⟩ = _ from items] at whole
  obtain ⟨before, rest, rfl, begins, munched⟩ := whole.from_token
  obtain ⟨inside, ends⟩ := List.getLast?_eq_some_iff.mp isLast
  rw [← List.cons_append, ends, List.append_assoc, List.singleton_append] at munched
  obtain ⟨text, after, ended, rfl, endsAt, munched⟩ := munched.to_token
  refine ⟨before, text, after, rfl, ?_, ?_⟩
  · rw [byte_length_append, ← Nat.zero_add (byteLength before), ← endsAt, stop, ← begins, start]
  · rw [← ends] at munched
    exact scanned_of_munched munched

end Treewalk
