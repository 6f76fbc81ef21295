import Treewalk.Proofs.Token.Lexeme
import Treewalk.Proofs.Token.Tiling

/-!
# Scanning takes the longest lexeme

By the rules a text is cut up from left to right: blanks and comments are skipped, a token takes the
longest lexeme with which the text begins, a quote or a block comment without an end takes all that
is left, and where nothing begins one character is reported. These rules leave no choice, and
scanning follows them.
-/

namespace Treewalk

set_option autoImplicit false

open Chunk

def OpensComment (text : List Char) : Prop :=
  ['/', '/'] <+: text ∨ ['/', '*'] <+: text

def IsLongest (lexeme text : List Char) : Prop :=
  ∀ other kind literal, Lexeme other kind literal → other <+: text → other.length ≤ lexeme.length

inductive Chunk.Cut : Chunk → List Char → Prop where
  | blank {char : Char} {rest : List Char} (blank : isBlank char = true) :
      Cut ⟨.layout, [char]⟩ rest
  | line {body rest : List Char} (inside : '\n' ∉ body)
      (ended : ∀ char ∈ rest.head?, char = '\n') : Cut ⟨.layout, '/' :: '/' :: body⟩ rest
  | block {body rest : List Char} (inside : ¬['*', '/'] <:+: body) :
      Cut ⟨.layout, '/' :: '*' :: (body ++ ['*', '/'])⟩ rest
  | token {lexeme rest : List Char} {kind : Kind} {literal : Option Literal}
      (spelled : Lexeme lexeme kind literal) (longest : IsLongest lexeme (lexeme ++ rest))
      (apart : ¬OpensComment (lexeme ++ rest)) : Cut ⟨.token kind literal, lexeme⟩ rest
  | openString {body : List Char} (inside : '"' ∉ body) :
      Cut ⟨.fault .unterminatedString, '"' :: body⟩ []
  | openComment {body : List Char} (inside : ¬['*', '/'] <:+: body) :
      Cut ⟨.fault .unterminatedComment, '/' :: '*' :: body⟩ []
  | stray {char : Char} {rest : List Char} (solid : isBlank char = false) (notQuote : char ≠ '"')
      (none : ∀ lexeme kind literal, Lexeme lexeme kind literal → ¬lexeme <+: char :: rest) :
      Cut ⟨.fault (.unexpectedCharacter char), [char]⟩ rest

/-- From the byte `offset` on the line `line` on, the text is cut up by the rules into layout and
these items, and the closing token stands at its end. -/
inductive Munched : Nat → Nat → List Char → List Item → Token → Prop where
  | finish {offset line : Nat} :
      Munched offset line [] [] ⟨.endOfInput, "", none, line, ⟨offset, offset⟩⟩
  | layout {offset line : Nat} {lexeme rest : List Char} {items : List Item} {closing : Token}
      (cut : Cut ⟨.layout, lexeme⟩ rest)
      (later : Munched (offset + byteLength lexeme) (line + newlines lexeme) rest items closing) :
      Munched offset line (lexeme ++ rest) items closing
  | token {offset line : Nat} {lexeme rest : List Char} {kind : Kind} {literal : Option Literal}
      {items : List Item} {closing : Token} (cut : Cut ⟨.token kind literal, lexeme⟩ rest)
      (later : Munched (offset + byteLength lexeme) (line + newlines lexeme) rest items closing) :
      Munched offset line (lexeme ++ rest)
        (.token ⟨kind, String.ofList lexeme, literal, line + newlines lexeme,
          ⟨offset, offset + byteLength lexeme⟩⟩ :: items) closing
  | fault {offset line : Nat} {lexeme rest : List Char} {cause : LexCause} {items : List Item}
      {closing : Token} (cut : Cut ⟨.fault cause, lexeme⟩ rest)
      (later : Munched (offset + byteLength lexeme) (line + newlines lexeme) rest items closing) :
      Munched offset line (lexeme ++ rest)
        (.error ⟨cause, ⟨offset, offset + byteLength lexeme⟩, line + newlines lexeme⟩ :: items)
        closing

section Comments

variable {text body rest : List Char}

theorem block_comment_closed (inside : ¬['*', '/'] <:+: body) (rest : List Char) :
    blockComment (body ++ '*' :: '/' :: rest) = some (body ++ ['*', '/'], rest) := by
  induction body with
  | nil => rfl
  | cons char body ih =>
      have later := ih fun found => inside (List.infix_cons found)
      rw [List.cons_append]
      unfold blockComment
      split
      · rename_i same
        injection same with isStar same
        cases body with
        | nil => cases same
        | cons second body =>
            cases same
            exact absurd ⟨[], body, by rw [isStar]; rfl⟩ inside
      · rename_i same
        cases same
        rw [later]
        rfl
      · rename_i same
        cases same

theorem block_comment_open : blockComment text = none ↔ ¬['*', '/'] <:+: text := by
  constructor
  · rintro open_ ⟨before, behind, same⟩
    induction before generalizing text with
    | nil =>
        subst same
        cases open_
    | cons char before ih =>
        subst same
        rw [List.cons_append, List.cons_append] at open_
        unfold blockComment at open_
        split at open_
        · cases open_
        · rename_i same
          cases same
          exact ih (Option.map_eq_none_iff.mp open_) rfl
        · rename_i same
          cases same
  · intro inside
    cases found : blockComment text with
    | none => rfl
    | some parts =>
        obtain ⟨closed, after⟩ := parts
        obtain ⟨body, rfl, -⟩ := block_comment_ends found
        have covers := block_comment_covers found
        rw [List.append_assoc] at covers
        exact absurd ⟨body, after, by rw [← covers, List.append_assoc]⟩ inside

end Comments

theorem munch_longest (first : Char) (rest : List Char) :
    IsLongest (munch first rest).1.lexeme (first :: rest) := by
  intro other kind literal spelled starts
  obtain ⟨char, body, rfl, shape⟩ := spelled.shape
  obtain ⟨rfl, more, rfl⟩ := List.cons_prefix_cons.mp starts
  exact shape.reaches more

/-- A lexeme that scanning cuts off as a token is cut off by the rules. -/
theorem token_cut {first : Char} {rest lexeme after : List Char} {kind : Kind}
    {literal : Option Literal}
    (munched : munch first rest = (⟨.token kind literal, lexeme⟩, after))
    (spelled : Lexeme lexeme kind literal) (apart : ¬OpensComment (first :: rest)) :
    Cut (munch first rest).1 (munch first rest).2 := by
  have longest := munch_longest first rest
  have covers := munch_covers first rest
  rw [munched] at longest covers ⊢
  rw [← covers] at longest apart
  exact .token spelled longest apart

section Existence

variable {first : Char} {rest : List Char}

theorem apart_of_first (notSlash : first ≠ '/') (rest : List Char) :
    ¬OpensComment (first :: rest) := by
  rintro (starts | starts)
  · exact notSlash (List.cons_prefix_cons.mp starts).1.symm
  · exact notSlash (List.cons_prefix_cons.mp starts).1.symm

theorem slash_alone (apart : ¬OpensComment ('/' :: rest)) :
    munch '/' rest = (⟨.token .slash none, ['/']⟩, rest) := by
  show slash rest = _
  unfold slash
  split
  · exact absurd (.inl ⟨_, rfl⟩) apart
  · exact absurd (.inr ⟨_, rfl⟩) apart
  · rfl

theorem slash_cut (rest : List Char) : Cut (munch '/' rest).1 (munch '/' rest).2 := by
  by_cases apart : OpensComment ('/' :: rest)
  · rcases apart with ⟨behind, same⟩ | ⟨behind, same⟩
    · cases same
      have inside : '\n' ∉ behind.takeWhile (· != '\n') := by
        intro found
        have others := List.all_eq_true.mp List.all_takeWhile '\n' found
        cases others
      exact .line inside fun char found => by simpa using outside_of_cut rfl char found
    · cases same
      show Cut (slash ('*' :: behind)).1 (slash ('*' :: behind)).2
      rw [slash]
      cases found : blockComment behind with
      | none => exact .openComment (block_comment_open.mp found)
      | some parts =>
          obtain ⟨closed, after⟩ := parts
          obtain ⟨body, rfl, inside⟩ := block_comment_ends found
          exact .block inside
  · exact token_cut (slash_alone apart) (sign_lexeme rfl) apart

theorem string_open (open_ : '"' ∉ rest) :
    munch '"' rest = (⟨.fault .unterminatedString, '"' :: rest⟩, []) := by
  have cut := @drop_while_exact (· != '"') rest [] (differs_of_not_mem open_) nofun
  rw [List.append_nil] at cut
  show string rest = _
  rw [string, cut]

theorem string_cut (rest : List Char) : Cut (munch '"' rest).1 (munch '"' rest).2 := by
  by_cases closed : '"' ∈ rest
  · obtain ⟨body, after, rfl, inside⟩ := List.eq_append_cons_of_mem closed
    exact token_cut (munch_string inside after) (.string inside) (apart_of_first (by decide) _)
  · rw [string_open closed]
    exact .openString closed

theorem comment_open (open_ : ¬['*', '/'] <:+: rest) :
    munch '/' ('*' :: rest) = (⟨.fault .unterminatedComment, '/' :: '*' :: rest⟩, []) := by
  show slash ('*' :: rest) = _
  rw [slash, block_comment_open.mpr open_]

theorem stray_cut (solid : isBlank first = false) (notQuote : first ≠ '"')
    (notDigit : isDigit first = false) (notWord : startsWord first = false)
    (noSign : sign? first = none) : Cut ⟨.fault (.unexpectedCharacter first), [first]⟩ rest := by
  apply Cut.stray solid notQuote
  intro lexeme kind literal spelled starts
  obtain ⟨char, body, rfl, shape⟩ := spelled.shape
  obtain ⟨rfl, -⟩ := List.cons_prefix_cons.mp starts
  cases shape with
  | single found =>
      rw [noSign] at found
      cases found
  | double found =>
      obtain ⟨shorter, single⟩ := single_of_double found
      rw [noSign] at single
      cases single
  | string inside => exact notQuote rfl
  | number isNumber =>
      rw [notDigit] at isNumber
      cases isNumber
  | word starts =>
      rw [notWord] at starts
      cases starts

theorem munch_cut (first : Char) (rest : List Char) :
    Cut (munch first rest).1 (munch first rest).2 := by
  by_cases blank : isBlank first = true
  · rw [munch, if_pos blank]
    exact .blank blank
  by_cases isSlash : first = '/'
  · subst isSlash
    exact slash_cut rest
  by_cases isQuote : first = '"'
  · subst isQuote
    exact string_cut rest
  have apart := apart_of_first isSlash rest
  by_cases digit : isDigit first = true
  · exact token_cut (munch_number digit rest) (number_lexeme digit rest) apart
  by_cases starts : startsWord first = true
  · exact token_cut (munch_word starts rest) (word_lexeme starts rest) apart
  have munched : munch first rest = sign first rest := by
    rw [munch, if_neg blank, if_neg isSlash, if_neg isQuote, if_neg digit, if_neg starts]
  by_cases double : ∃ kind after, signEqual? first = some kind ∧ rest = '=' :: after
  · obtain ⟨kind, after, found, rfl⟩ := double
    have both : munch first ('=' :: after) = (⟨.token kind none, [first, '=']⟩, after) := by
      rw [munched]
      simp only [sign, found]
    exact token_cut both (sign_equal_lexeme found) apart
  · have alone := sign_alone fun kind after found same => double ⟨kind, after, found, same⟩
    rw [← munched] at alone
    cases single : sign? first with
    | none =>
        rw [single] at alone
        rw [alone]
        exact stray_cut (by simpa using blank) isQuote (by simpa using digit)
          (by simpa using starts) single
    | some kind =>
        rw [single] at alone
        exact token_cut alone (sign_lexeme single) apart

end Existence

section Uniqueness

variable {chunk : Chunk} {lexeme after behind : List Char}

theorem token_cut_unique {kind : Kind} {literal : Option Literal} (cut : Cut chunk after)
    (same : chunk.lexeme ++ after = lexeme ++ behind) (spelled : Lexeme lexeme kind literal)
    (longest : IsLongest lexeme (lexeme ++ behind)) (apart : ¬OpensComment (lexeme ++ behind)) :
    (chunk, after) = (⟨.token kind literal, lexeme⟩, behind) := by
  obtain ⟨first, body, rfl, shape⟩ := spelled.shape
  rw [← same] at longest apart
  cases cut with
  | blank blank =>
      cases same
      rw [shape.solid] at blank
      cases blank
  | line inside ended => exact absurd (.inl ⟨_, rfl⟩) apart
  | block inside => exact absurd (.inr ⟨_, rfl⟩) apart
  | token again longestToo =>
      have length := Nat.le_antisymm (longest _ _ _ again (List.prefix_append _ _))
        (longestToo _ _ _ spelled ⟨behind, same.symm⟩)
      obtain ⟨rfl, rfl⟩ := List.append_inj same length
      obtain ⟨rfl, rfl⟩ := spelled.unique again
      rfl
  | openString inside =>
      rw [List.append_nil] at same
      cases same
      exact absurd (List.mem_append_left behind shape.quoted) inside
  | openComment inside => exact absurd (.inr ⟨_, rfl⟩) apart
  | stray solid notQuote none => exact absurd ⟨behind, same.symm⟩ (none _ _ _ spelled)

/-- Where the rules cut off a character that starts nothing, they cut off nothing else. -/
theorem stray_cut_unique {char : Char} (cut : Cut chunk after)
    (same : chunk.lexeme ++ after = char :: behind) (solid : isBlank char = false)
    (notQuote : char ≠ '"')
    (none : ∀ lexeme kind literal, Lexeme lexeme kind literal → ¬lexeme <+: char :: behind) :
    (chunk, after) = (⟨.fault (.unexpectedCharacter char), [char]⟩, behind) := by
  have notSlash : ¬['/'] <+: char :: behind := none _ _ _ (sign_lexeme rfl)
  rw [← same] at notSlash
  cases cut with
  | blank blank =>
      cases same
      rw [solid] at blank
      cases blank
  | line inside ended => exact absurd ⟨_, rfl⟩ notSlash
  | block inside => exact absurd ⟨_, rfl⟩ notSlash
  | token again => exact absurd ⟨_, same⟩ (none _ _ _ again)
  | openString inside =>
      cases same
      exact absurd rfl notQuote
  | openComment inside => exact absurd ⟨_, rfl⟩ notSlash
  | stray =>
      cases same
      rfl

end Uniqueness

theorem munch_line {body rest : List Char} (inside : '\n' ∉ body)
    (ended : ∀ char ∈ rest.head?, char = '\n') :
    munch '/' ('/' :: (body ++ rest)) = (⟨.layout, '/' :: '/' :: body⟩, rest) := by
  have inner : ∀ char ∈ '/' :: body, (char != '\n') = true :=
    differs_of_not_mem (by simpa using inside)
  have outside : ∀ char ∈ rest.head?, (char != '\n') = false := by
    intro char found
    simp [ended char found]
  have taken := take_while_exact inner outside
  have dropped := drop_while_exact inner outside
  rw [List.cons_append] at taken dropped
  show slash ('/' :: (body ++ rest)) = _
  rw [slash, taken, dropped]

theorem munch_block {body : List Char} (inside : ¬['*', '/'] <:+: body) (rest : List Char) :
    munch '/' ('*' :: (body ++ '*' :: '/' :: rest)) =
      (⟨.layout, '/' :: '*' :: (body ++ ['*', '/'])⟩, rest) := by
  show slash ('*' :: (body ++ '*' :: '/' :: rest)) = _
  simp only [slash, block_comment_closed inside]

theorem munch_of_cut {first : Char} {rest after : List Char} {chunk : Chunk} (cut : Cut chunk after)
    (whole : chunk.lexeme ++ after = first :: rest) : munch first rest = (chunk, after) := by
  have others := munch_cut first rest
  have covers := munch_covers first rest
  cases cut with
  | blank blank =>
      simp only [List.cons_append, List.nil_append, List.cons.injEq] at whole
      obtain ⟨rfl, rfl⟩ := whole
      rw [munch, if_pos blank]
  | line inside ended =>
      simp only [List.cons_append, List.cons.injEq] at whole
      obtain ⟨rfl, rfl⟩ := whole
      exact munch_line inside ended
  | block inside =>
      simp only [List.cons_append, List.append_assoc, List.nil_append, List.cons.injEq] at whole
      obtain ⟨rfl, rfl⟩ := whole
      exact munch_block inside _
  | token spelled longest apart =>
      exact token_cut_unique others (covers.trans whole.symm) spelled longest apart
  | openString inside =>
      simp only [List.append_nil, List.cons.injEq] at whole
      obtain ⟨rfl, rfl⟩ := whole
      exact string_open inside
  | openComment inside =>
      simp only [List.append_nil, List.cons.injEq] at whole
      obtain ⟨rfl, rfl⟩ := whole
      exact comment_open inside
  | stray solid notQuote none =>
      simp only [List.cons_append, List.nil_append, List.cons.injEq] at whole
      obtain ⟨rfl, rfl⟩ := whole
      exact stray_cut_unique others covers solid notQuote none

theorem Chunk.Cut.ne_nil {chunk : Chunk} {rest : List Char} (cut : Cut chunk rest) :
    chunk.lexeme ≠ [] := by
  cases cut with
  | token spelled => exact spelled.ne_nil
  | _ => exact List.cons_ne_nil _ _

/-- A chunk that is cut off by the rules is the first chunk of the text. -/
theorem chunks_of_cut {chunk : Chunk} {rest : List Char} (cut : Cut chunk rest) :
    chunks (chunk.lexeme ++ rest) = chunk :: chunks rest := by
  obtain ⟨first, body, starts⟩ := List.exists_cons_of_ne_nil cut.ne_nil
  have whole : chunk.lexeme ++ rest = first :: (body ++ rest) := by
    rw [starts, List.cons_append]
  rw [whole, chunks_cons, munch_of_cut cut whole]

theorem munched_items (text : List Char) (offset line : Nat) :
    Munched offset line text (Cursor.itemsFrom (chunks text) ⟨chunks text, offset, line⟩)
      (Cursor.last (chunks text) ⟨chunks text, offset, line⟩).finish := by
  induction size : text.length using Nat.strongRecOn generalizing text offset line with
  | ind count ih =>
      subst size
      cases text with
      | nil => exact .finish
      | cons first rest =>
          have covers := munch_covers first rest
          have cut := munch_cut first rest
          have shorter := munch_length first rest
          rw [chunks_cons]
          generalize munch first rest = parts at covers cut shorter
          obtain ⟨⟨sort, lexeme⟩, after⟩ := parts
          dsimp only at covers cut shorter ⊢
          have later := ih after.length (Nat.lt_succ_of_le shorter) after
            (offset + byteLength lexeme) (line + newlines lexeme) rfl
          rw [← covers]
          cases sort with
          | layout => exact .layout cut later
          | token kind literal => exact .token cut later
          | fault cause => exact .fault cut later

theorem Munched.items_eq {offset line : Nat} {text : List Char} {items : List Item}
    {closing : Token} (munched : Munched offset line text items closing) :
    items = Cursor.itemsFrom (chunks text) ⟨chunks text, offset, line⟩ ∧
      closing = (Cursor.last (chunks text) ⟨chunks text, offset, line⟩).finish := by
  induction munched with
  | finish => exact ⟨rfl, rfl⟩
  | layout cut later ih =>
      rw [chunks_of_cut cut]
      exact ih
  | token cut later ih =>
      rw [chunks_of_cut cut]
      exact ⟨congrArg (List.cons _) ih.1, ih.2⟩
  | fault cut later ih =>
      rw [chunks_of_cut cut]
      exact ⟨congrArg (List.cons _) ih.1, ih.2⟩

/-- The rules cut up a source in one way: blanks and comments are left out, each token is the
longest lexeme of the grammar in its place, and each fault covers what the rules let it cover.
Scanning gives these items and this closing token, with their places in 32 bits. -/
theorem scanning_takes_the_longest (source : String) (scanned : Scanned) :
    (Munched 0 1 source.toList scanned.items scanned.closing ↔
      scanned = Scanned.ofText source.toList) ∧
    (Scanner.scan (.ofText source.toList)).1 = (Scanned.ofText source.toList).narrowed := by
  refine ⟨?_, Scanner.scan_source source⟩
  constructor
  · intro munched
    obtain ⟨items, closing⟩ := munched.items_eq
    rcases scanned with ⟨found, ended⟩
    dsimp only at items closing
    rw [items, closing]
    rfl
  · rintro rfl
    exact munched_items source.toList 0 1

end Treewalk
