import Treewalk.Proofs.Token.Lexed

/-!
# Tokens of a scanned text

Kind, lexeme and literal of a token that comes from a text fit together: a sign or keyword has its
one spelling, an identifier is a word that is not reserved, a number is the value of its digits, and
a string is what stands between its quotes.
-/

namespace Treewalk

set_option autoImplicit false

open Chunk

inductive Token.Proper (token : Token) : Prop where
  | identifier {first : Char} {body : List Char} (kind : token.kind = .identifier)
      (lexeme : token.lexeme = String.ofList (first :: body)) (starts : startsWord first = true)
      (inside : ∀ char ∈ body, continuesWord char = true)
      (free : Kind.ofKeyword? (String.ofList (first :: body)) = none)
      (literal : token.literal = none)
  | number {whole fraction : List Char} (kind : token.kind = .number)
      (literal : token.literal = some (.number (Decimal.ofDigits whole fraction).toFloat))
  | string {body : List Char} (kind : token.kind = .string) (inside : '"' ∉ body)
      (literal : token.literal = some (.string (String.ofList body)))
  | fixed (kind : token.kind ∈ fixedKinds) (lexeme : token.lexeme = token.kind.spelling)
      (literal : token.literal = none)

theorem proper_of_erase {token : Token} (proper : token.erase.Proper) : token.Proper := by
  cases proper with
  | identifier kind lexeme starts inside free literal =>
      exact .identifier kind lexeme starts inside free literal
  | number kind literal => exact .number kind literal
  | string kind inside literal => exact .string kind inside literal
  | fixed kind lexeme literal => exact .fixed kind lexeme literal

def Chunk.IsProper (chunk : Chunk) : Prop :=
  ∀ token, chunk.spelled? = some (.ok token) → token.Proper

theorem keyword_proper {kind : Kind} {word : List Char}
    (found : Kind.ofKeyword? (String.ofList word) = some kind) :
    (Token.unplaced kind word none).Proper := by
  have reserved : kind ∈ Kind.keywords := List.mem_of_find?_eq_some found
  have spelling := List.find?_some found
  rw [beq_iff_eq] at spelling
  exact .fixed (List.mem_append_right _ reserved) spelling.symm rfl

theorem word_proper {first : Char} (rest : List Char) (starts : startsWord first = true) :
    (word first rest).1.IsProper := by
  rintro token spelled
  cases spelled
  have inside : ∀ char ∈ rest.takeWhile continuesWord, continuesWord char = true :=
    List.all_eq_true.mp List.all_takeWhile
  cases found : Kind.ofKeyword? (String.ofList (first :: rest.takeWhile continuesWord)) with
  | none => exact .identifier rfl rfl starts inside found rfl
  | some kind => exact keyword_proper found

theorem string_proper (rest : List Char) : (string rest).1.IsProper := by
  have others : ∀ char ∈ rest.takeWhile (· != '"'), (char != '"') = true :=
    List.all_eq_true.mp List.all_takeWhile
  have inside : '"' ∉ rest.takeWhile (· != '"') := by
    intro found
    cases others '"' found
  intro token spelled
  unfold string at spelled
  dsimp only at spelled
  split at spelled
  · cases spelled
    exact .string rfl inside rfl
  · cases spelled

theorem sign_equal_fixed {first : Char} {kind : Kind} (found : signEqual? first = some kind) :
    kind ∈ fixedKinds ∧ String.ofList [first, '='] = kind.spelling := by
  unfold signEqual? at found
  split at found
  all_goals cases found
  all_goals exact ⟨by decide, rfl⟩

theorem sign_fixed {first : Char} {kind : Kind} (found : sign? first = some kind) :
    kind ∈ fixedKinds ∧ String.ofList [first] = kind.spelling := by
  unfold sign? at found
  split at found
  all_goals cases found
  all_goals exact ⟨by decide, rfl⟩

theorem sign_proper (first : Char) (rest : List Char) : (sign first rest).1.IsProper := by
  intro token spelled
  unfold sign at spelled
  split at spelled
  · rename_i found
    cases spelled
    obtain ⟨fixed, spelling⟩ := sign_equal_fixed found
    exact .fixed fixed spelling rfl
  · split at spelled
    · rename_i found
      cases spelled
      obtain ⟨fixed, spelling⟩ := sign_fixed found
      exact .fixed fixed spelling rfl
    · cases spelled

theorem slash_proper (rest : List Char) : (slash rest).1.IsProper := by
  intro token spelled
  unfold slash at spelled
  split at spelled
  · cases spelled
  · split at spelled
    · cases spelled
    · cases spelled
  · cases spelled
    exact .fixed (show Kind.slash ∈ fixedKinds by decide) rfl rfl

theorem munch_proper (first : Char) (rest : List Char) : (munch first rest).1.IsProper := by
  unfold munch
  split
  · intro token spelled
    cases spelled
  · split
    · exact slash_proper rest
    · split
      · exact string_proper rest
      · split
        · intro token spelled
          cases spelled
          exact .number rfl rfl
        · split
          · rename_i starts
            exact word_proper rest starts
          · exact sign_proper first rest

theorem tokens_proper (source : String) :
    ∀ token ∈ (Scanned.ofSource source).tokens, token.Proper := by
  intro token found
  obtain ⟨item, inside, isToken⟩ := List.mem_filterMap.mp found
  cases item with
  | error fault => cases isToken
  | token same =>
      cases isToken
      have erased : .ok token.erase ∈ spelled source.toList := by
        rw [← source_items_erase]
        exact List.mem_map_of_mem inside
      obtain ⟨chunk, cut, spells⟩ := List.mem_filterMap.mp erased
      obtain ⟨first, rest, rfl⟩ := chunk_of_mem cut
      exact proper_of_erase (munch_proper first rest _ spells)

end Treewalk
