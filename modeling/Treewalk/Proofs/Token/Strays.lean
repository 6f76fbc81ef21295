import Treewalk.Proofs.Source.Span
import Treewalk.Proofs.Token.Stable

/-!
# Characters that start no token

A character that starts no token is a fault of its own, and the text around it is read as if there
were blanks in its place: a chunk that ended in front of it ends in front of a blank, too. So with
one blank for each byte of such a character, the text has the same tokens at the same places, and
the same other faults.
-/

namespace Treewalk

set_option autoImplicit false

def errorsOf {ε α : Type} : Except (List ε) α → List ε
  | .error errors => errors
  | .ok _ => []

theorem error_of_errors {ε α : Type} {result : Except (List ε) α} {first : ε} {later : List ε}
    (errors : errorsOf result = first :: later) : result = .error (first :: later) := by
  cases result with
  | ok value => cases errors
  | error found => exact congrArg Except.error errors

theorem errors_of_scan (source : String) :
    errorsOf (scan source) = (Scanned.ofSource source).errors := by
  unfold scan
  rw [Scanner.scan_source]
  dsimp only
  split
  · rename_i clean
    rw [clean]
    rfl
  · rfl

/-- The byte offset of the error if it reports a character that starts no token. -/
def LexError.stray? (error : LexError) : Option Nat :=
  match error.cause with
  | .unexpectedCharacter _ => some error.span.start
  | .unterminatedString => none
  | .unterminatedComment => none

/-- The text from the byte `offset` on, with blanks in place of the characters at the given offsets,
as many as the character has bytes. -/
def blanked (offsets : List Nat) : Nat → List Char → List Char
  | _, [] => []
  | offset, char :: rest =>
      (if offset ∈ offsets then List.replicate char.utf8Size ' ' else [char]) ++
        blanked offsets (offset + char.utf8Size) rest

/-- The source with blanks in place of the characters that scanning reports, which are found where
they stand in the text even if their places do not fit in 32 bits. -/
def withoutStrays (source : String) : String :=
  let strays := (Scanned.ofText source.toList).errors.filterMap LexError.stray?
  String.ofList (blanked strays 0 source.toList)

example : withoutStrays "print €1 @;" = "print    1  ;" := by decide +kernel

namespace Chunk

def isStray (chunk : Chunk) : Bool :=
  match chunk.sort with
  | .fault (.unexpectedCharacter _) => true
  | _ => false

def withoutStray (chunk : Chunk) : List Chunk :=
  if chunk.isStray then List.replicate (byteLength chunk.lexeme) ⟨.layout, [' ']⟩ else [chunk]

end Chunk

def spaced (text : List Char) : List Char :=
  ((chunks text).flatMap Chunk.withoutStray).flatMap Chunk.lexeme

section Chunks

open Chunk

theorem stray_munch {first : Char} {rest : List Char}
    (stray : (munch first rest).1.isStray = true) :
    (munch first rest).1.lexeme = [first] ∧ (munch first rest).2 = rest ∧ first ≠ '\n' := by
  unfold munch at stray ⊢
  split
  · rename_i blank
    rw [if_pos blank] at stray
    cases stray
  · rename_i solid
    rw [if_neg solid] at stray
    have notBreak : first ≠ '\n' := by
      rintro rfl
      exact solid rfl
    split
    · rename_i isSlash
      rw [if_pos isSlash] at stray
      unfold slash at stray
      split at stray
      · cases stray
      · split at stray <;> cases stray
      · cases stray
    · rename_i notSlash
      rw [if_neg notSlash] at stray
      split
      · rename_i isQuote
        rw [if_pos isQuote] at stray
        unfold string at stray
        dsimp only at stray
        split at stray <;> cases stray
      · rename_i notQuote
        rw [if_neg notQuote] at stray
        split
        · rename_i digit
          rw [if_pos digit] at stray
          cases stray
        · rename_i notDigit
          rw [if_neg notDigit] at stray
          split
          · rename_i starts
            rw [if_pos starts] at stray
            cases stray
          · rename_i notWord
            rw [if_neg notWord] at stray
            unfold sign at stray ⊢
            split at stray
            · cases stray
            · split at stray
              · cases stray
              · exact ⟨rfl, rfl, notBreak⟩

theorem stray_lexeme {text : List Char} {chunk : Chunk} (found : chunk ∈ chunks text)
    (stray : chunk.isStray = true) : ∃ char, chunk.lexeme = [char] ∧ char ≠ '\n' := by
  obtain ⟨first, rest, rfl⟩ := chunk_of_mem found
  obtain ⟨lexeme, -, notBreak⟩ := stray_munch stray
  exact ⟨first, lexeme, notBreak⟩

theorem spaced_cons (first : Char) (rest : List Char) :
    spaced (first :: rest) =
      ((munch first rest).1.withoutStray).flatMap Chunk.lexeme ++ spaced (munch first rest).2 := by
  unfold spaced
  rw [chunks_cons, List.flatMap_cons, List.flatMap_append]

theorem spaced_stray {first : Char} {rest : List Char}
    (stray : (munch first rest).1.isStray = true) :
    spaced (first :: rest) = List.replicate first.utf8Size ' ' ++ spaced rest := by
  obtain ⟨lexeme, behind, -⟩ := stray_munch stray
  have size : byteLength [first] = first.utf8Size := by simp [byteLength]
  rw [spaced_cons, withoutStray, if_pos stray, lexeme, behind, size, List.flatMap_replicate]
  simp [List.flatten_replicate_singleton]

theorem spaced_other {first : Char} {rest : List Char}
    (other : (munch first rest).1.isStray = false) :
    spaced (first :: rest) = (munch first rest).1.lexeme ++ spaced (munch first rest).2 := by
  rw [spaced_cons, withoutStray, if_neg (by simp [other])]
  simp

theorem spaced_head (first : Char) (rest : List Char) :
    ∃ more, spaced (first :: rest) = first :: more ∨
      (spaced (first :: rest) = ' ' :: more ∧ (munch first rest).1.isStray = true) := by
  cases stray : (munch first rest).1.isStray with
  | true =>
      obtain ⟨size, isSize⟩ : ∃ size, first.utf8Size = size + 1 :=
        ⟨first.utf8Size - 1, by have := first.utf8Size_pos; omega⟩
      refine ⟨List.replicate size ' ' ++ spaced rest, .inr ⟨?_, rfl⟩⟩
      rw [spaced_stray stray, isSize]
      rfl
  | false =>
      obtain ⟨body, lexeme, -⟩ := munch_split first rest
      refine ⟨body ++ spaced (munch first rest).2, .inl ?_⟩
      rw [spaced_other stray, lexeme]
      rfl

theorem stops_alike_spaced (text : List Char) : StopsAlike text (spaced text) := by
  cases text with
  | nil => exact .ended
  | cons first rest =>
      obtain ⟨more, same | ⟨same, stray⟩⟩ := spaced_head first rest
      · rw [same]
        apply StopsAlike.same
        rintro rfl digit found isNumber
        -- A point is a chunk of its own, so the second character starts the next chunk.
        have point : spaced ('.' :: rest) = '.' :: spaced rest := spaced_cons '.' rest
        rw [point] at same
        injection same with _ same
        rw [← same] at found
        cases rest with
        | nil => cases found
        | cons second rest =>
            obtain ⟨others, same | ⟨same, -⟩⟩ := spaced_head second rest
            · rw [same] at found
              exact ⟨digit, found, isNumber⟩
            · rw [same] at found
              cases found
              cases isNumber
      · rw [same]
        exact .blank (stray_munch stray).2.2 rest more

theorem chunks_blanks (count : Nat) (text : List Char) :
    chunks (List.replicate count ' ' ++ text) =
      List.replicate count ⟨.layout, [' ']⟩ ++ chunks text := by
  induction count with
  | zero => rfl
  | succ count ih =>
      rw [List.replicate_succ, List.cons_append, chunks_cons, List.replicate_succ,
        List.cons_append, ← ih]
      rfl

/-- With blanks in place of stray characters, the other chunks are as before. -/
theorem chunks_spaced (text : List Char) :
    chunks (spaced text) = (chunks text).flatMap Chunk.withoutStray := by
  induction size : text.length using Nat.strongRecOn generalizing text with
  | _ size ih =>
      cases text with
      | nil => rfl
      | cons first rest =>
          have shorter := munch_length first rest
          rw [List.length_cons] at size
          have later := ih _ (by omega) (munch first rest).2 rfl
          rw [chunks_cons first rest, List.flatMap_cons, ← later]
          cases stray : (munch first rest).1.isStray with
          | true =>
              obtain ⟨lexeme, behind, -⟩ := stray_munch stray
              have length : byteLength [first] = first.utf8Size := by simp [byteLength]
              rw [spaced_stray stray, chunks_blanks, behind, withoutStray, if_pos stray, lexeme,
                length]
          | false =>
              obtain ⟨body, lexeme, split⟩ := munch_split first rest
              have munched : munch first (body ++ (munch first rest).2) =
                  ((munch first rest).1, (munch first rest).2) := by rw [← split]
              have stable := munch_stable munched (stops_alike_spaced _)
                (fun ended more => absurd (by rw [ended]; rfl) more)
              rw [spaced_other stray, lexeme, List.cons_append, chunks_cons, stable, withoutStray,
                if_neg (by simp [stray])]
              rfl

end Chunks

def strayOffsets : Nat → List Chunk → List Nat
  | _, [] => []
  | offset, chunk :: rest =>
      (if chunk.isStray then [offset] else []) ++
        strayOffsets (offset + byteLength chunk.lexeme) rest

theorem stray_offsets_behind {offset : Nat} {ahead : List Chunk} :
    ∀ position ∈ strayOffsets offset ahead, offset ≤ position := by
  induction ahead generalizing offset with
  | nil => exact nofun
  | cons chunk ahead ih =>
      intro position found
      rcases List.mem_append.mp found with here | later
      · split at here
        · exact Nat.le_of_eq (List.mem_singleton.mp here).symm
        · cases here
      · exact Nat.le_trans (Nat.le_add_right _ _) (ih position later)

theorem items_stray_offsets (ahead : List Chunk) (cursor : Cursor) :
    ((Cursor.itemsFrom ahead cursor).filterMap Item.error?).filterMap LexError.stray? =
      strayOffsets cursor.offset ahead := by
  induction ahead generalizing cursor with
  | nil => rfl
  | cons chunk ahead ih =>
      have later := ih (cursor.past chunk.lexeme ahead)
      rcases chunk with ⟨sort, lexeme⟩
      cases sort with
      | layout => exact later
      | token kind literal => exact later
      | fault cause =>
          cases cause with
          | unexpectedCharacter char => exact congrArg (List.cons _) later
          | unterminatedString => exact later
          | unterminatedComment => exact later

theorem blanked_append {offsets : List Nat} {offset : Nat} {lexeme : List Char}
    (outside : ∀ position ∈ offsets, offset ≤ position → offset + byteLength lexeme ≤ position)
    (rest : List Char) :
    blanked offsets offset (lexeme ++ rest) =
      lexeme ++ blanked offsets (offset + byteLength lexeme) rest := by
  induction lexeme generalizing offset with
  | nil => rfl
  | cons char lexeme ih =>
      have size := char.utf8Size_pos
      have length : byteLength (char :: lexeme) = char.utf8Size + byteLength lexeme := rfl
      have absent : offset ∉ offsets := by
        intro found
        have past := outside offset found (Nat.le_refl _)
        omega
      have later : ∀ position ∈ offsets, offset + char.utf8Size ≤ position →
          offset + char.utf8Size + byteLength lexeme ≤ position := by
        intro position found behind
        have past := outside position found (by omega)
        omega
      rw [List.cons_append, blanked, if_neg absent, ih later, length, ← Nat.add_assoc]
      rfl

/-- Blanks at the offsets of the stray chunks are blanks in place of these chunks. -/
theorem blanked_eq_spaced {offsets : List Nat} (text : List Char) (offset : Nat)
    (given : ∀ position, offset ≤ position →
      (position ∈ offsets ↔ position ∈ strayOffsets offset (chunks text))) :
    blanked offsets offset text = spaced text := by
  induction size : text.length using Nat.strongRecOn generalizing text offset with
  | _ size ih =>
      cases text with
      | nil => rfl
      | cons first rest =>
          have shorter := Chunk.munch_length first rest
          rw [List.length_cons] at size
          have later : ∀ position,
            offset + byteLength (Chunk.munch first rest).1.lexeme ≤ position →
              (position ∈ offsets ↔ position ∈ strayOffsets
                (offset + byteLength (Chunk.munch first rest).1.lexeme)
                (chunks (Chunk.munch first rest).2)) := by
            intro position behind
            have positive := byte_length_pos (Chunk.munch_lexeme_ne_nil first rest)
            rw [given position (by omega), chunks_cons, strayOffsets, List.mem_append]
            constructor
            · rintro (here | found)
              · split at here
                · have same := List.mem_singleton.mp here
                  omega
                · cases here
              · exact found
            · exact .inr
          have shown := ih _ (by omega) _ _ later rfl
          cases stray : (Chunk.munch first rest).1.isStray with
          | true =>
              obtain ⟨lexeme, behind, -⟩ := stray_munch stray
              have length : byteLength [first] = first.utf8Size := by simp [byteLength]
              have present : offset ∈ offsets := by
                rw [given offset (Nat.le_refl _), chunks_cons, strayOffsets, if_pos stray]
                exact List.mem_append_left _ (List.mem_singleton.mpr rfl)
              rw [lexeme, behind, length] at shown
              rw [blanked, if_pos present, shown, spaced_stray stray]
          | false =>
              have outside : ∀ position ∈ offsets, offset ≤ position →
                  offset + byteLength (Chunk.munch first rest).1.lexeme ≤ position := by
                intro position found behind
                have listed := (given position behind).mp found
                rw [chunks_cons, strayOffsets, if_neg (by simp [stray])] at listed
                exact stray_offsets_behind position listed
              calc blanked offsets offset (first :: rest)
                  = blanked offsets offset
                      ((Chunk.munch first rest).1.lexeme ++ (Chunk.munch first rest).2) := by
                    rw [Chunk.munch_covers]
                _ = (Chunk.munch first rest).1.lexeme ++ spaced (Chunk.munch first rest).2 := by
                    rw [blanked_append outside, shown]
                _ = spaced (first :: rest) := (spaced_other stray).symm

theorem without_strays_to_list (source : String) :
    (withoutStrays source).toList = spaced source.toList := by
  unfold withoutStrays
  rw [String.toList_ofList]
  apply blanked_eq_spaced
  intro position _
  exact iff_of_eq (congrArg (position ∈ ·)
    (items_stray_offsets (chunks source.toList) (Cursor.start source.toList)))

namespace Cursor

def Meets (left right : Cursor) : Prop :=
  left.offset = right.offset ∧ left.line = right.line

theorem items_blanks (count : Nat) (ahead : List Chunk) (cursor : Cursor) :
    ∃ after : Cursor, after.Meets ⟨ahead, cursor.offset + count, cursor.line⟩ ∧
      itemsFrom (List.replicate count ⟨.layout, [' ']⟩ ++ ahead) cursor = itemsFrom ahead after ∧
      last (List.replicate count ⟨.layout, [' ']⟩ ++ ahead) cursor = last ahead after := by
  induction count generalizing cursor with
  | zero => exact ⟨cursor, ⟨rfl, rfl⟩, rfl, rfl⟩
  | succ count ih =>
      obtain ⟨after, ⟨offset, line⟩, items, ended⟩ :=
        ih (cursor.past [' '] (List.replicate count ⟨.layout, [' ']⟩ ++ ahead))
      have moved : after.offset = cursor.offset + 1 + count := offset
      exact ⟨after, ⟨by simp only [moved]; omega, line⟩, items, ended⟩

theorem Meets.past {cursor other : Cursor} (meets : cursor.Meets other) (lexeme : List Char)
    (ahead behind : List Chunk) : (cursor.past lexeme ahead).Meets (other.past lexeme behind) :=
  ⟨congrArg (· + byteLength lexeme) meets.1, congrArg (· + newlines lexeme) meets.2⟩

/-- With blanks in place of stray characters, the tokens are as before, and so is the end. -/
theorem tokens_without_strays {ahead : List Chunk} {cursor other : Cursor}
    (single : ∀ chunk ∈ ahead, chunk.isStray = true →
      ∃ char, chunk.lexeme = [char] ∧ char ≠ '\n')
    (meets : cursor.Meets other) :
    (itemsFrom (ahead.flatMap Chunk.withoutStray) cursor).filterMap Item.token? =
        (itemsFrom ahead other).filterMap Item.token? ∧
      (last (ahead.flatMap Chunk.withoutStray) cursor).finish = (last ahead other).finish := by
  induction ahead generalizing cursor other with
  | nil =>
      refine ⟨rfl, ?_⟩
      simp only [List.flatMap_nil, last, finish, meets.1, meets.2]
  | cons chunk ahead ih =>
      have later := fun {cursor other : Cursor} (meets : cursor.Meets other) =>
        ih (fun chunk found => single chunk (List.mem_cons_of_mem _ found)) meets
      rw [List.flatMap_cons]
      cases stray : chunk.isStray with
      | true =>
          obtain ⟨char, lexeme, notBreak⟩ := single chunk List.mem_cons_self stray
          obtain ⟨after, ⟨offset, line⟩, items, ended⟩ :=
            items_blanks (byteLength chunk.lexeme) (ahead.flatMap Chunk.withoutStray) cursor
          rw [Chunk.withoutStray, if_pos stray, items, ended]
          have breaks : newlines chunk.lexeme = 0 := by
            rw [lexeme]
            exact List.count_eq_zero.mpr (by simpa using fun same => notBreak same.symm)
          have arrived : after.Meets (other.past chunk.lexeme ahead) := by
            constructor
            · exact offset.trans (congrArg (· + byteLength chunk.lexeme) meets.1)
            · rw [line, Cursor.past, breaks]
              exact meets.2
          rcases chunk with ⟨sort, text⟩
          cases sort with
          | layout => cases stray
          | token kind literal => cases stray
          | fault cause => exact later arrived
      | false =>
          obtain ⟨tokens, ended⟩ :=
            later (meets.past chunk.lexeme (ahead.flatMap Chunk.withoutStray) ahead)
          rw [Chunk.withoutStray, if_neg (by simp [stray])]
          rcases chunk with ⟨sort, text⟩
          cases sort with
          | layout => exact ⟨tokens, ended⟩
          | token kind literal =>
              have same : (⟨kind, String.ofList text, literal, cursor.line + newlines text,
                    ⟨cursor.offset, cursor.offset + byteLength text⟩⟩ : Token) =
                  ⟨kind, String.ofList text, literal, other.line + newlines text,
                    ⟨other.offset, other.offset + byteLength text⟩⟩ := by
                rw [meets.1, meets.2]
              exact ⟨(congrArg (List.cons _) tokens).trans (congrArg (· :: _) same), ended⟩
          | fault cause => exact ⟨tokens, ended⟩

end Cursor

/-- Blanks in place of the characters that scanning reports leave the tokens where they are. -/
theorem scanned_without_strays (source : String) :
    (Scanned.ofSource (withoutStrays source)).tokens = (Scanned.ofSource source).tokens ∧
      (Scanned.ofSource (withoutStrays source)).closing = (Scanned.ofSource source).closing := by
  have spacedChunks : chunks (withoutStrays source).toList =
      (chunks source.toList).flatMap Chunk.withoutStray := by
    rw [without_strays_to_list, chunks_spaced]
  have same : (Scanned.ofText (withoutStrays source).toList).tokens =
        (Scanned.ofText source.toList).tokens ∧
      (Scanned.ofText (withoutStrays source).toList).closing =
        (Scanned.ofText source.toList).closing := by
    unfold Scanned.ofText Scanned.tokens
    dsimp only [Cursor.start]
    rw [spacedChunks]
    exact Cursor.tokens_without_strays (fun chunk found => stray_lexeme found) ⟨rfl, rfl⟩
  rw [tokens_of_source, tokens_of_source, same.1]
  exact ⟨rfl, congrArg Token.narrowed same.2⟩

end Treewalk
