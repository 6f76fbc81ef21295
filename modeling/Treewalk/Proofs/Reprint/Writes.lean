import Treewalk.Proofs.Token.Proper

/-!
# Texts that spell tokens

Tokens of a text are printed side by side. What keeps two of them apart is a blank or a sign that
continues neither: in front of such a stop a text spells its own tokens, whatever follows.
-/

namespace Treewalk

set_option autoImplicit false

/-- No infinite number. -/
def Literal.isFinite : Literal → Bool
  | number value => value.isFinite
  | _ => true

structure Token.Printable (token : Token) : Prop where
  proper : token.Proper
  finite : token.literal.all Literal.isFinite = true

namespace Token

variable {token : Token}

theorem Printable.erase_eq (printable : token.Printable) (fixed : token.kind ∈ fixedKinds) :
    token.erase = unplaced token.kind token.kind.spelling.toList none ∧
      token.lexeme = token.kind.spelling := by
  have isFixed : token.lexeme = token.kind.spelling ∧ token.literal = none := by
    cases printable.proper with
    | identifier kind => rw [kind] at fixed; exact absurd fixed (by decide)
    | number kind => rw [kind] at fixed; exact absurd fixed (by decide)
    | string kind => rw [kind] at fixed; exact absurd fixed (by decide)
    | fixed kind lexeme literal => exact ⟨lexeme, literal⟩
  refine ⟨?_, isFixed.1⟩
  rw [erase, unplaced, isFixed.1, isFixed.2, String.ofList_toList]

theorem Printable.erase_of_kind (printable : token.Printable) {kind : Kind}
    (same : token.kind = kind) (fixed : kind ∈ fixedKinds) :
    token.erase = unplaced kind kind.spelling.toList none := by
  subst same
  exact (printable.erase_eq fixed).1

end Token

/-- The text starts with a character that does not make a comparison out of a negation. -/
def Unequal (text : List Char) : Prop :=
  ∃ first more, text = first :: more ∧ first ≠ '='

theorem Unequal.append {text : List Char} (starts : Unequal text) (more : List Char) :
    Unequal (text ++ more) := by
  obtain ⟨first, rest, rfl, unequal⟩ := starts
  exact ⟨first, rest ++ more, rfl, unequal⟩

def Writes (text : List Char) (tokens : List Token) : Prop :=
  ∀ rest, Stops rest → spelled (text ++ rest) = tokens.map .ok ++ spelled rest

theorem writes_fixed {kind : Kind} (fixed : kind ∈ fixedKinds) :
    Writes kind.spelling.toList [Token.unplaced kind kind.spelling.toList none] :=
  fun _ stops => spelled_fixed fixed stops

theorem writes_token {token : Token} (printable : token.Printable)
    (fixed : token.kind ∈ fixedKinds) : Writes token.lexeme.toList [token.erase] := by
  obtain ⟨same, lexeme⟩ := printable.erase_eq fixed
  rw [same, lexeme]
  exact writes_fixed fixed

theorem writes_name {token : Token} (printable : token.Printable)
    (word : token.kind = .identifier) :
    Writes token.lexeme.toList [token.erase] ∧ Unequal token.lexeme.toList := by
  cases printable.proper with
  | @identifier first body kind lexeme starts inside free literal =>
      have same : token.erase = Token.unplaced .identifier (first :: body) none := by
        rw [Token.erase, Token.unplaced, kind, lexeme, literal]
      rw [lexeme, String.toList_ofList, same]
      constructor
      · intro rest stops
        rw [List.cons_append, spelled_word starts inside stops, free]
        rfl
      · refine ⟨first, body, rfl, ?_⟩
        rintro rfl
        cases starts
  | number kind => rw [kind] at word; cases word
  | string kind => rw [kind] at word; cases word
  | fixed kind => rw [word] at kind; exact absurd kind (by decide)

namespace Writes

variable {first second text : List Char} {before behind tokens : List Token}

theorem append (writesFirst : Writes first before) (starts : ∀ rest, Stops (second ++ rest))
    (writesSecond : Writes second behind) : Writes (first ++ second) (before ++ behind) := by
  intro rest stops
  rw [List.append_assoc, writesFirst _ (starts rest), writesSecond rest stops, List.map_append,
    List.append_assoc]

theorem indent (writes : Writes text tokens) : Writes (' ' :: text) tokens := by
  intro rest stops
  rw [List.cons_append, spelled_blank (by decide), writes rest stops]

theorem spaced (writesFirst : Writes first before) (writesSecond : Writes second behind) :
    Writes (first ++ ' ' :: second) (before ++ behind) :=
  writesFirst.append (fun _ => stops_cons (by decide)) writesSecond.indent

theorem behind_sign {kind : Kind} (closed : kind ∈ closedSigns) (writes : Writes text tokens) :
    Writes (kind.spelling.toList ++ text)
      (Token.unplaced kind kind.spelling.toList none :: tokens) := by
  intro rest stops
  rw [List.append_assoc, spelled_closed closed, writes rest stops]
  rfl

theorem nil : Writes [] [] :=
  fun _ _ => rfl

theorem ended (writes : Writes text tokens) :
    Writes (text ++ [';']) (tokens ++ [Token.unplaced .semicolon [';'] none]) :=
  writes.append (fun _ => stops_cons (by decide)) (writes_fixed (show .semicolon ∈ _ by decide))

theorem closed (writes : Writes text tokens) :
    Writes (text ++ [')']) (tokens ++ [Token.unplaced .rightParen [')'] none]) :=
  writes.append (fun _ => stops_cons (by decide)) (writes_fixed (show .rightParen ∈ _ by decide))

theorem parenthesized (writes : Writes text tokens) :
    Writes ('(' :: (text ++ [')'])) (Token.unplaced .leftParen ['('] none ::
      (tokens ++ [Token.unplaced .rightParen [')'] none])) :=
  behind_sign (show .leftParen ∈ _ by decide) writes.closed

end Writes

theorem map_erase_singleton {found : List Token} {token : Token}
    (same : found.map Token.erase = [token]) : ∃ other, found = [other] ∧ other.erase = token := by
  obtain ⟨other, rest, rfl, head, tail⟩ := List.map_eq_cons_iff.mp same
  rw [List.map_eq_nil_iff.mp tail]
  exact ⟨other, rfl, head⟩

end Treewalk
