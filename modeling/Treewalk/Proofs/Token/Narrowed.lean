import Mathlib
import Treewalk.Token.Scan
import Treewalk.Proofs.Source.Span
import Treewalk.Proofs.Token.Chunk

/-!
# Places in 32 bits

The items of a text have places that are counted without a bound; the items that are scanned have
them in 32 bits. A source that is shorter than the bound is scanned with the places of its text. In
a longer one places say less, but kinds, lexemes, literals and lines are still those of the text.
-/

namespace Treewalk

set_option autoImplicit false

theorem narrow_of_lt {number : Nat} (small : number < 2 ^ 32) : narrow number = number :=
  Nat.mod_eq_of_lt small

theorem narrow_add (number more : Nat) : narrow (narrow number + more) = narrow (number + more) :=
  Nat.mod_add_mod number UInt32.size more

def Span.narrowed (span : Span) : Span :=
  ⟨narrow span.start, narrow span.stop⟩

def Token.narrowed (token : Token) : Token :=
  { token with span := token.span.narrowed }

def LexError.narrowed (error : LexError) : LexError :=
  { error with span := error.span.narrowed }

def Item.narrowed : Item → Item
  | .token found => .token found.narrowed
  | .error found => .error found.narrowed

def Scanned.narrowed (scanned : Scanned) : Scanned :=
  ⟨scanned.items.map Item.narrowed, scanned.closing.narrowed⟩

/-- The items of a source with the places that scanning gives them. -/
def Scanned.ofSource (source : String) : Scanned :=
  (Scanned.ofText source.toList).narrowed

theorem tokens_narrowed (items : List Item) :
    (items.map Item.narrowed).filterMap Item.token? =
      (items.filterMap Item.token?).map Token.narrowed := by
  rw [List.filterMap_map, List.map_filterMap]
  congr 1
  funext item
  cases item <;> rfl

theorem errors_narrowed (items : List Item) :
    (items.map Item.narrowed).filterMap Item.error? =
      (items.filterMap Item.error?).map LexError.narrowed := by
  rw [List.filterMap_map, List.map_filterMap]
  congr 1
  funext item
  cases item <;> rfl

theorem tokens_of_source (source : String) :
    (Scanned.ofSource source).tokens =
      (Scanned.ofText source.toList).tokens.map Token.narrowed :=
  tokens_narrowed _

theorem errors_of_source (source : String) :
    (Scanned.ofSource source).errors =
      (Scanned.ofText source.toList).errors.map LexError.narrowed :=
  errors_narrowed _

theorem Cursor.items_length (ahead : List Chunk) (cursor : Cursor) :
    (itemsFrom ahead cursor).length ≤ ahead.length := by
  induction ahead generalizing cursor with
  | nil => exact Nat.le_refl 0
  | cons chunk ahead ih =>
      unfold itemsFrom
      dsimp only
      split
      · exact Nat.succ_le_succ (ih _)
      · exact Nat.le_succ_of_le (ih _)

theorem tokens_length (text : List Char) : (Scanned.ofText text).tokens.length ≤ text.length :=
  Nat.le_trans (List.length_filterMap_le _ _)
    (Nat.le_trans (Cursor.items_length _ _) (chunks_length text))

section Short

variable {ahead : List Chunk} {cursor : Cursor}

theorem finish_narrowed (small : cursor.offset < 2 ^ 32) :
    cursor.finish.narrowed = cursor.finish := by
  simp only [Token.narrowed, Span.narrowed, Cursor.finish, narrow_of_lt small]

theorem item_narrowed {chunk : Chunk} {after : Cursor} (small : cursor.offset < 2 ^ 32)
    (smallToo : after.offset < 2 ^ 32) :
    (Cursor.item? chunk cursor after).map Item.narrowed = Cursor.item? chunk cursor after := by
  unfold Cursor.item?
  split
  all_goals simp [Item.narrowed, Token.narrowed, LexError.narrowed, Span.narrowed,
    narrow_of_lt small, narrow_of_lt smallToo]

/-- Behind the chunks lies no place beyond the bound, so in front of them there is none either. -/
theorem items_narrowed
    (small : cursor.offset + byteLength (ahead.flatMap Chunk.lexeme) < 2 ^ 32) :
    (Cursor.itemsFrom ahead cursor).map Item.narrowed = Cursor.itemsFrom ahead cursor ∧
      (Cursor.last ahead cursor).finish.narrowed = (Cursor.last ahead cursor).finish := by
  induction ahead generalizing cursor with
  | nil => exact ⟨rfl, finish_narrowed (Nat.lt_of_le_of_lt (Nat.le_add_right _ _) small)⟩
  | cons chunk ahead ih =>
      rw [List.flatMap_cons, byte_length_append, ← Nat.add_assoc] at small
      obtain ⟨later, closing⟩ := @ih (cursor.past chunk.lexeme ahead) small
      have behind := Nat.lt_of_le_of_lt (Nat.le_add_right _ _) small
      have same := @item_narrowed cursor chunk (cursor.past chunk.lexeme ahead)
        (Nat.lt_of_le_of_lt (Nat.le_add_right _ _) behind) behind
      refine ⟨?_, closing⟩
      unfold Cursor.itemsFrom
      dsimp only
      split
      · rename_i item found
        rw [found, Option.map_some, Option.some.injEq] at same
        rw [List.map_cons, same, later]
      · exact later

end Short

theorem of_text_narrowed {text : List Char} (short : byteLength text < 2 ^ 32) :
    (Scanned.ofText text).narrowed = Scanned.ofText text := by
  have small : (Cursor.start text).offset + byteLength ((chunks text).flatMap Chunk.lexeme) <
      2 ^ 32 := by
    rw [chunks_cover]
    exact (Nat.zero_add _).symm ▸ short
  obtain ⟨items, closing⟩ := items_narrowed small
  exact (Scanned.mk.injEq ..).mpr ⟨items, closing⟩

theorem of_source_of_short {source : String} (short : source.utf8ByteSize < 2 ^ 32) :
    Scanned.ofSource source = Scanned.ofText source.toList :=
  of_text_narrowed (by rwa [byte_length_to_list])

end Treewalk
