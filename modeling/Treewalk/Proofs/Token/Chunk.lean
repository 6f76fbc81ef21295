import Treewalk.Token.Chunk

/-!
# Chunks cover the text

Cutting off the first chunk loses no character: its lexeme and what follows make up the text. Since
the lexeme is not empty, the number of characters is enough of a bound, and the chunks of a text are
its first chunk and the chunks of what follows.
-/

namespace Treewalk

set_option autoImplicit false

namespace Chunk

theorem block_comment_covers {text body after : List Char}
    (closed : blockComment text = some (body, after)) : body ++ after = text := by
  induction text generalizing body with
  | nil => cases closed
  | cons char rest ih =>
      unfold blockComment at closed
      split at closed
      · rename_i same
        cases closed
        rw [same]
        rfl
      · rename_i found same
        cases same
        rw [Option.map_eq_some_iff] at closed
        obtain ⟨⟨inner, behind⟩, closed, pair⟩ := closed
        cases pair
        rw [List.cons_append, ih closed]
      · rename_i same
        cases same

theorem number_digits_covers (rest : List Char) :
    (numberDigits rest).1 ++ ((if (numberDigits rest).2.1.isEmpty then []
      else '.' :: (numberDigits rest).2.1) ++ (numberDigits rest).2.2) = rest := by
  have split := List.takeWhile_append_dropWhile (p := isDigit) (l := rest)
  unfold numberDigits
  dsimp only
  split
  · rename_i digit after found
    rw [found] at split
    split
    · rw [if_neg (by simp), List.cons_append, List.cons_append, List.takeWhile_append_dropWhile]
      exact split
    · exact split
  · exact split

theorem number_covers (first : Char) (rest : List Char) :
    (number first rest).1.lexeme ++ (number first rest).2 = first :: rest := by
  have covers := number_digits_covers rest
  simp only [number, List.cons_append, List.append_assoc, covers]

theorem word_covers (first : Char) (rest : List Char) :
    (word first rest).1.lexeme ++ (word first rest).2 = first :: rest := by
  simp [word, List.takeWhile_append_dropWhile]

theorem string_covers (rest : List Char) :
    (string rest).1.lexeme ++ (string rest).2 = '"' :: rest := by
  have split := List.takeWhile_append_dropWhile (p := (· != '"')) (l := rest)
  unfold string
  dsimp only
  split
  · rename_i quote after found
    rw [found] at split
    simp [split]
  · simp

theorem sign_covers (first : Char) (rest : List Char) :
    (sign first rest).1.lexeme ++ (sign first rest).2 = first :: rest := by
  unfold sign
  split
  · rfl
  · split <;> rfl

theorem slash_covers (rest : List Char) :
    (slash rest).1.lexeme ++ (slash rest).2 = '/' :: rest := by
  unfold slash
  split
  · simp [List.takeWhile_append_dropWhile]
  · rename_i inside
    split
    · rename_i body after closed
      simp [block_comment_covers closed]
    · simp
  · rfl

theorem munch_covers (first : Char) (rest : List Char) :
    (munch first rest).1.lexeme ++ (munch first rest).2 = first :: rest := by
  unfold munch
  split
  · rfl
  · split
    · rename_i isSlash
      rw [isSlash]
      exact slash_covers rest
    · split
      · rename_i isQuote
        rw [isQuote]
        exact string_covers rest
      · split
        · exact number_covers first rest
        · split
          · exact word_covers first rest
          · exact sign_covers first rest

theorem munch_lexeme_ne_nil (first : Char) (rest : List Char) :
    (munch first rest).1.lexeme ≠ [] := by
  unfold munch
  split
  · simp
  · split
    · unfold slash
      split
      · simp
      · split <;> simp
      · simp
    · split
      · unfold string
        dsimp only
        split <;> simp
      · split
        · simp [number]
        · split
          · simp [word]
          · unfold sign
            split
            · simp
            · split <;> simp

theorem munch_length (first : Char) (rest : List Char) :
    (munch first rest).2.length ≤ rest.length := by
  have covers := congrArg List.length (munch_covers first rest)
  have nonempty := List.length_pos_iff.mpr (munch_lexeme_ne_nil first rest)
  rw [List.length_append, List.length_cons] at covers
  omega

end Chunk

theorem chunks_up_to_eq {count other : Nat} {text : List Char} (enough : text.length ≤ count)
    (enoughOther : text.length ≤ other) : chunksUpTo count text = chunksUpTo other text := by
  induction count generalizing other text with
  | zero =>
      have empty : text = [] := List.length_eq_zero_iff.mp (by omega)
      rw [empty]
      cases other <;> rfl
  | succ count ih =>
      cases text with
      | nil => cases other <;> rfl
      | cons first rest =>
          rw [List.length_cons] at enough enoughOther
          obtain ⟨other, rfl⟩ : ∃ left, other = left + 1 := ⟨other - 1, by omega⟩
          have shorter := Chunk.munch_length first rest
          simp only [chunksUpTo]
          have same : chunksUpTo count (Chunk.munch first rest).2 =
              chunksUpTo other (Chunk.munch first rest).2 := ih (by omega) (by omega)
          rw [same]

theorem chunks_cons (first : Char) (rest : List Char) :
    chunks (first :: rest) =
      (Chunk.munch first rest).1 :: chunks (Chunk.munch first rest).2 := by
  unfold chunks
  rw [chunks_up_to_eq (Nat.le_refl _) (Chunk.munch_length first rest)]
  rfl

theorem chunks_cover (text : List Char) : (chunks text).flatMap Chunk.lexeme = text := by
  induction size : text.length using Nat.strongRecOn generalizing text with
  | _ size ih =>
      cases text with
      | nil => rfl
      | cons first rest =>
          have shorter := Chunk.munch_length first rest
          rw [List.length_cons] at size
          rw [chunks_cons, List.flatMap_cons, ih _ (by omega) _ rfl, Chunk.munch_covers]

theorem chunks_length (text : List Char) : (chunks text).length ≤ text.length := by
  unfold chunks
  generalize text.length = count
  induction count generalizing text with
  | zero => exact Nat.le_refl 0
  | succ count ih =>
      cases text with
      | nil => exact Nat.zero_le _
      | cons first rest => exact Nat.succ_le_succ (ih _)

theorem chunk_of_mem {text : List Char} {chunk : Chunk} (found : chunk ∈ chunks text) :
    ∃ first rest, chunk = (Chunk.munch first rest).1 := by
  unfold chunks at found
  generalize text.length = count at found
  induction count generalizing text with
  | zero => cases found
  | succ count ih =>
      cases text with
      | nil => cases found
      | cons first rest =>
          rcases List.mem_cons.mp found with same | later
          · exact ⟨first, rest, same⟩
          · exact ih later

end Treewalk
