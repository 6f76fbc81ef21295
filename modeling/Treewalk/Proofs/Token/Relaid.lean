import Treewalk.Proofs.Token.Munched

/-!
# Layout between tokens

No lexeme goes on over a blank, unless the blank is inside of a string. So the lexemes of a text
give the same tokens again if other layout stands between them, as long as each piece of it begins
with a blank: a slash in front of a comment is still a sign, and digits in front of a point are a
number of their own.
-/

namespace Treewalk

set_option autoImplicit false

open Chunk

/-- The text is made of the lexemes of the tokens with blanks and comments between them, a blank
first. The lexeme behind a line comment does not begin with a line break, so the comment has its own
line break. -/
inductive Relaid : List Token → List Char → Prop where
  | none : Relaid [] []
  | last {token : Token} : Relaid [token] token.lexeme.toList
  | more {token next : Token} {rest : List Token} {char : Char} {gap text : List Char}
      (blank : isBlank char = true) (spacing : Spacing text gap)
      (later : Relaid (next :: rest) text) :
      Relaid (token :: next :: rest) (token.lexeme.toList ++ char :: (gap ++ text))

/-- Blanks and comments in front of a text change nothing of what the text spells. -/
theorem spelled_spacing {gap text : List Char} (spacing : Spacing text gap) :
    spelled (gap ++ text) = spelled text := by
  induction spacing with
  | nil => rfl
  | blank blank later ih => rw [List.cons_append, spelled_blank blank, ih]
  | line inside ended later ih =>
      rw [List.cons_append, List.cons_append, List.append_assoc, spelled_cons,
        munch_line inside ended, ← ih]
      rfl
  | block inside later ih =>
      rw [List.cons_append, List.cons_append, List.append_assoc, List.cons_append,
        List.cons_append, spelled_cons, munch_block inside, ← ih]
      rfl

theorem spelled_lexeme {lexeme rest : List Char} {kind : Kind} {literal : Option Literal}
    (spells : Lexeme lexeme kind literal) (apart : ∀ char ∈ rest.head?, isBlank char = true) :
    spelled (lexeme ++ rest) = .ok (Token.unplaced kind lexeme literal) :: spelled rest := by
  obtain ⟨first, body, rfl, shape⟩ := spells.shape
  rw [List.cons_append, spelled_cons, shape.munch_apart apart]
  rfl

theorem Token.unplaced_eq_erase {token : Token} {kind : Kind} {lexeme : List Char}
    {literal : Option Literal} (same : Token.unplaced kind lexeme literal = token.erase) :
    token.kind = kind ∧ token.lexeme = String.ofList lexeme ∧ token.literal = literal := by
  injection same with kinds lexemes literals
  exact ⟨kinds.symm, lexemes.symm, literals.symm⟩

theorem tokens_spelled (text : List Char) : ∀ token ∈ (Scanned.ofText text).tokens,
    Lexeme token.lexeme.toList token.kind token.literal := by
  intro token found
  obtain ⟨item, inside, isToken⟩ := List.mem_filterMap.mp found
  cases item with
  | error fault => cases isToken
  | token same =>
      cases isToken
      have erased : .ok token.erase ∈ spelled text := by
        unfold spelled
        rw [← items_erase (chunks text) (Cursor.start text)]
        exact List.mem_map_of_mem inside
      obtain ⟨chunk, among, spells⟩ := List.mem_filterMap.mp erased
      obtain ⟨first, rest, rfl⟩ := chunk_of_mem among
      have cut := munch_cut first rest
      generalize munch first rest = parts at spells cut
      obtain ⟨⟨sort, lexeme⟩, after⟩ := parts
      cases cut with
      | token isLexeme =>
          injection spells with spells
          injection spells with spells
          obtain ⟨rfl, lexemes, rfl⟩ := Token.unplaced_eq_erase spells
          rw [lexemes, String.toList_ofList]
          exact isLexeme
      | _ => cases spells

/-- Lexemes that are laid out anew spell the tokens that they come from. -/
theorem spelled_relaid {tokens : List Token} {text : List Char} (relaid : Relaid tokens text)
    (spell : ∀ token ∈ tokens, Lexeme token.lexeme.toList token.kind token.literal) :
    spelled text = tokens.map fun token => .ok token.erase := by
  have unplaced : ∀ token : Token,
      Token.unplaced token.kind token.lexeme.toList token.literal = token.erase := by
    intro token
    rw [Token.unplaced, String.ofList_toList]
    rfl
  induction relaid with
  | none => rfl
  | @last token =>
      have alone := @spelled_lexeme _ [] _ _ (spell token List.mem_cons_self) nofun
      rw [List.append_nil, unplaced] at alone
      exact alone
  | @more token next rest char gap text blank spacing later ih =>
      obtain ⟨first, others⟩ := List.forall_mem_cons.mp spell
      have apart : ∀ found ∈ (char :: (gap ++ text)).head?, isBlank found = true := by
        rintro found same
        cases same
        exact blank
      rw [spelled_lexeme first apart, unplaced, spelled_blank blank, spelled_spacing spacing,
        ih others]
      rfl

/-- A source that scans without errors, and any text that is made of the lexemes of its tokens and
of layout between them, give the same tokens in other places. -/
theorem tokens_independent_of_layout {source : String} {tokens : List Token} {closing : Token}
    (scanned : scan source = .ok (tokens ++ [closing])) {text : List Char}
    (relaid : Relaid tokens text) :
    ∃ again, scan (String.ofList text) = .ok again ∧
      again.map Token.erase = (tokens ++ [closing]).map Token.erase := by
  obtain ⟨-, whole⟩ := scan_ok_iff.mp scanned
  obtain ⟨same, ended⟩ := List.append_inj' whole rfl
  have spell : ∀ token ∈ tokens, Lexeme token.lexeme.toList token.kind token.literal := by
    rw [← same, tokens_of_source]
    exact List.forall_mem_map.mpr (tokens_spelled source.toList)
  have spells := spelled_relaid relaid spell
  have again : spelled (String.ofList text).toList = (tokens.map Token.erase).map .ok := by
    rw [String.toList_ofList, List.map_map]
    exact spells
  obtain ⟨found, last, rescanned, -, erased⟩ := scan_of_spelled again
  refine ⟨found ++ [last], rescanned, ?_⟩
  obtain ⟨-, wholeAgain⟩ := scan_ok_iff.mp rescanned
  obtain ⟨-, endedAgain⟩ := List.append_inj' wholeAgain rfl
  injection ended with ended
  injection endedAgain with endedAgain
  rw [List.map_append, List.map_append, ← ended, ← endedAgain]
  exact congrArg (· ++ _) erased

/-- A name, a slash and a string, once without anything between them, once with a line comment in
front of the slash and a block comment behind it. -/
theorem slash_between_comments :
    ∃ again, scan "a\n// x\n/ \t/*/ **/\"//\"" = .ok again ∧
      again.map Token.erase = [Token.unplaced .identifier ['a'] none,
        Token.unplaced .slash ['/'] none,
        Token.unplaced .string ['"', '/', '/', '"'] (some (.string "//")),
        Token.unplaced .endOfInput [] none] := by
  have behind : Spacing ['"', '/', '/', '"'] ['\t', '/', '*', '/', ' ', '*', '*', '/'] :=
    .blank rfl (@Spacing.block _ ['/', ' ', '*'] [] (by decide) .nil)
  have front : ∀ text, Spacing ('/' :: text) ['/', '/', ' ', 'x', '\n'] := fun text =>
    @Spacing.line _ [' ', 'x'] ['\n'] (by decide) (by simp) (.blank rfl .nil)
  have scanned : scan "a/\"//\"" = .ok ([⟨.identifier, "a", none, 1, ⟨0, 1⟩⟩,
      ⟨.slash, "/", none, 1, ⟨1, 2⟩⟩, ⟨.string, "\"//\"", some (.string "//"), 1, ⟨2, 6⟩⟩] ++
      [⟨.endOfInput, "", none, 1, ⟨6, 6⟩⟩]) := by
    rfl
  exact tokens_independent_of_layout scanned (.more rfl (front _) (.more rfl behind .last))

end Treewalk
