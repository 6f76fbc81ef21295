import Treewalk.Proofs.Token.Stable

/-!
# The grammar of tokens

What a token may look like, said without a scanner: a sign, a string between quotes, a number, a
keyword or another word. The first character decides which of these a lexeme can be, and so what
scanning does with a text that begins with it. It takes the lexeme at least, and no more than the
lexeme if a blank or the end of the text follows.
-/

namespace Treewalk

set_option autoImplicit false

open Chunk

def signs : List Kind :=
  closedSigns ++ openSigns ++ [.slash]

section Classes

variable {char : Char}

theorem class_listed {inside : Char → Bool} {members : List Char}
    (small : inside char = true → char.toNat < 128)
    (listed : (members.all fun char => char.toNat < 128) = true)
    (same : ∀ code < 128, inside (Char.ofNat code) = members.contains (Char.ofNat code)) :
    inside char = true ↔ char ∈ members := by
  have agree : char.toNat < 128 → inside char = members.contains char := by
    intro bound
    have at_ := same char.toNat bound
    rwa [Char.ofNat_toNat] at at_
  constructor
  · intro found
    have member := agree (small found)
    rw [found] at member
    exact List.contains_iff_mem.mp member.symm
  · intro found
    rw [agree (of_decide_eq_true (List.all_eq_true.mp listed char found))]
    exact List.contains_iff_mem.mpr found

theorem is_blank_iff : isBlank char = true ↔ char ∈ [' ', '\r', '\t', '\n'] := by
  simp [isBlank, or_assoc]

theorem is_digit_iff : isDigit char = true ↔ char ∈ "0123456789".toList := by
  apply class_listed _ rfl (by decide +kernel)
  intro found
  simp only [isDigit, Bool.and_eq_true, decide_eq_true_eq] at found
  exact Nat.lt_of_le_of_lt found.2 (by decide)

theorem starts_word_iff :
    startsWord char = true ↔
      char ∈ "abcdefghijklmnopqrstuvwxyzABCDEFGHIJKLMNOPQRSTUVWXYZ_".toList := by
  apply class_listed _ rfl (by decide +kernel)
  intro found
  simp only [startsWord, Bool.or_eq_true, Bool.and_eq_true, decide_eq_true_eq, beq_iff_eq] at found
  rcases found with (⟨-, upper⟩ | ⟨-, upper⟩) | rfl
  · exact Nat.lt_of_le_of_lt upper (by decide)
  · exact Nat.lt_of_le_of_lt upper (by decide)
  · decide

theorem continues_word_iff :
    continuesWord char = true ↔ startsWord char = true ∨ isDigit char = true :=
  Bool.or_eq_true_iff

end Classes

theorem signs_spelled :
    signs.map Kind.spelling =
      ["(", ")", "\x7b", "\x7d", ",", ".", "-", "+", ";", "*", "!=", "==", ">=", "<=", "!", "=",
        ">", "<", "/"] :=
  rfl

theorem keywords_spelled :
    Kind.keywords.map Kind.spelling =
      ["and", "break", "class", "else", "false", "for", "fun", "if", "nil", "or", "print", "return",
        "super", "this", "true", "var", "while"] :=
  rfl

/-- The lexemes of tokens, each with the kind of the token and the constant that it denotes. -/
inductive Lexeme : List Char → Kind → Option Literal → Prop where
  | sign {kind : Kind} (listed : kind ∈ signs) : Lexeme kind.spelling.toList kind none
  | string {body : List Char} (inside : '"' ∉ body) :
      Lexeme ('"' :: (body ++ ['"'])) .string (some (.string (String.ofList body)))
  | whole {digits : List Char} (nonempty : digits ≠ [])
      (inside : ∀ char ∈ digits, isDigit char = true) :
      Lexeme digits .number (some (.number (Decimal.ofDigits digits []).toFloat))
  | fraction {whole digits : List Char} (nonemptyWhole : whole ≠ [])
      (insideWhole : ∀ char ∈ whole, isDigit char = true) (nonempty : digits ≠ [])
      (inside : ∀ char ∈ digits, isDigit char = true) :
      Lexeme (whole ++ '.' :: digits) .number
        (some (.number (Decimal.ofDigits whole digits).toFloat))
  | keyword {kind : Kind} (reserved : kind ∈ Kind.keywords) :
      Lexeme kind.spelling.toList kind none
  | identifier {first : Char} {body : List Char} (starts : startsWord first = true)
      (inside : ∀ char ∈ body, continuesWord char = true)
      (free : ∀ kind ∈ Kind.keywords, kind.spelling.toList ≠ first :: body) :
      Lexeme (first :: body) .identifier none

inductive Lexeme.Shape : Char → List Char → Kind → Option Literal → Prop where
  | single {first : Char} {kind : Kind} (found : sign? first = some kind) :
      Shape first [] kind none
  | double {first : Char} {kind : Kind} (found : signEqual? first = some kind) :
      Shape first ['='] kind none
  | string {body : List Char} (inside : '"' ∉ body) :
      Shape '"' (body ++ ['"']) .string (some (.string (String.ofList body)))
  | number {first : Char} {whole fraction : List Char} (starts : isDigit first = true)
      (insideWhole : ∀ char ∈ whole, isDigit char = true)
      (inside : ∀ char ∈ fraction, isDigit char = true) :
      Shape first (whole ++ (if fraction.isEmpty then [] else '.' :: fraction)) .number
        (some (.number (Decimal.ofDigits (first :: whole) fraction).toFloat))
  | word {first : Char} {body : List Char} (starts : startsWord first = true)
      (inside : ∀ char ∈ body, continuesWord char = true) :
      Shape first body ((Kind.ofKeyword? (String.ofList (first :: body))).getD .identifier) none

section Signs

variable {first : Char} {kind : Kind}

def spellsSign (kind : Kind) : List Char → Bool
  | [first] => decide (sign? first = some kind)
  | [first, second] => decide (second = '=' ∧ signEqual? first = some kind)
  | _ => false

theorem sign_shape (listed : kind ∈ signs) :
    ∃ first body, kind.spelling.toList = first :: body ∧ Lexeme.Shape first body kind none := by
  have all : signs.all (fun kind => spellsSign kind kind.spelling.toList) = true := by
    decide +kernel
  have spelled := List.all_eq_true.mp all kind listed
  unfold spellsSign at spelled
  split at spelled
  · rename_i first spelling
    exact ⟨first, [], spelling, .single (of_decide_eq_true spelled)⟩
  · rename_i first second spelling
    obtain ⟨rfl, found⟩ := of_decide_eq_true spelled
    exact ⟨first, ['='], spelling, .double found⟩
  · cases spelled

theorem sign_lexeme (found : sign? first = some kind) : Lexeme [first] kind none := by
  have listed : kind ∈ signs ∧ kind.spelling.toList = [first] := by
    unfold sign? at found
    split at found
    all_goals cases found
    all_goals exact ⟨by decide, rfl⟩
  rw [← listed.2]
  exact .sign listed.1

theorem sign_equal_lexeme (found : signEqual? first = some kind) :
    Lexeme [first, '='] kind none := by
  have listed : kind ∈ signs ∧ kind.spelling.toList = [first, '='] := by
    unfold signEqual? at found
    split at found
    all_goals cases found
    all_goals exact ⟨by decide, rfl⟩
  rw [← listed.2]
  exact .sign listed.1

theorem single_of_double (found : signEqual? first = some kind) :
    ∃ shorter, sign? first = some shorter := by
  unfold signEqual? at found
  split at found
  all_goals cases found
  all_goals exact ⟨_, rfl⟩

theorem sign_solid (found : sign? first = some kind) : isBlank first = false := by
  unfold sign? at found
  split at found
  all_goals cases found
  all_goals rfl

theorem munch_sign (found : sign? first = some kind) (notSlash : first ≠ '/') (rest : List Char) :
    munch first rest = sign first rest := by
  unfold sign? at found
  split at found
  all_goals cases found
  all_goals first | exact absurd rfl notSlash | rfl

theorem munch_sign_equal (found : signEqual? first = some kind) (rest : List Char) :
    munch first rest = sign first rest := by
  obtain ⟨_, single⟩ := single_of_double found
  apply munch_sign single
  rintro rfl
  cases found

end Signs

theorem not_keyword_of_free {word : List Char}
    (free : ∀ kind ∈ Kind.keywords, kind.spelling.toList ≠ word) :
    Kind.ofKeyword? (String.ofList word) = none := by
  apply List.find?_eq_none.mpr
  intro kind reserved same
  apply free kind reserved
  rw [beq_iff_eq.mp same, String.toList_ofList]

namespace Lexeme

variable {lexeme : List Char} {kind : Kind} {literal : Option Literal}

theorem shape (spelled : Lexeme lexeme kind literal) :
    ∃ first body, lexeme = first :: body ∧ Shape first body kind literal := by
  cases spelled with
  | sign listed => exact sign_shape listed
  | string inside => exact ⟨_, _, rfl, .string inside⟩
  | whole nonempty inside =>
      obtain ⟨first, digits, rfl⟩ := List.exists_cons_of_ne_nil nonempty
      obtain ⟨starts, others⟩ := List.forall_mem_cons.mp inside
      have number := @Shape.number first digits [] starts others (List.forall_mem_nil _)
      rw [List.isEmpty_nil, if_pos rfl, List.append_nil] at number
      exact ⟨first, digits, rfl, number⟩
  | @fraction whole digits nonemptyWhole insideWhole nonempty inside =>
      obtain ⟨first, others, rfl⟩ := List.exists_cons_of_ne_nil nonemptyWhole
      obtain ⟨starts, insideOthers⟩ := List.forall_mem_cons.mp insideWhole
      have number := @Shape.number first others digits starts insideOthers inside
      rw [if_neg (by simpa using nonempty)] at number
      exact ⟨first, others ++ '.' :: digits, rfl, number⟩
  | keyword reserved =>
      obtain ⟨first, body, spelling, starts, inside, found⟩ := keyword_spelling reserved
      have word := @Shape.word first body starts inside
      rw [found] at word
      exact ⟨first, body, spelling, word⟩
  | @identifier first body starts inside free =>
      have word := @Shape.word first body starts inside
      rw [not_keyword_of_free free] at word
      exact ⟨first, body, rfl, word⟩

theorem ne_nil (spelled : Lexeme lexeme kind literal) : lexeme ≠ [] := by
  obtain ⟨first, body, rfl, -⟩ := spelled.shape
  exact List.cons_ne_nil first body

theorem Shape.solid {first : Char} {body : List Char} (shape : Shape first body kind literal) :
    isBlank first = false := by
  cases shape with
  | single found => exact sign_solid found
  | double found =>
      obtain ⟨_, single⟩ := single_of_double found
      exact sign_solid single
  | string inside => rfl
  | number starts => exact digit_not_blank starts
  | word starts => exact word_not_blank starts

theorem Shape.quoted {body : List Char} (shape : Shape '"' body kind literal) : '"' ∈ body := by
  cases shape with
  | single found => cases found
  | double found => cases found
  | string inside => exact List.mem_append_right _ List.mem_cons_self
  | number starts => cases starts
  | word starts => cases starts

theorem word_length {class_ : Char → Bool} {body : List Char}
    (inside : ∀ char ∈ body, class_ char = true) (more : List Char) :
    body.length ≤ ((body ++ more).takeWhile class_).length := by
  rw [List.takeWhile_append_of_pos inside, List.length_append]
  exact Nat.le_add_right _ _

/-- Scanning takes at least as much as any lexeme at the beginning of the text. -/
theorem Shape.reaches {first : Char} {body : List Char} (shape : Shape first body kind literal)
    (more : List Char) :
    (first :: body).length ≤ (munch first (body ++ more)).1.lexeme.length := by
  cases shape with
  | single found => exact List.length_pos_iff.mpr (munch_lexeme_ne_nil first _)
  | double found =>
      rw [munch_sign_equal found]
      simp [Chunk.sign, found]
  | string inside =>
      rw [List.append_assoc, List.singleton_append, munch_string inside]
      exact Nat.le_refl _
  | @number _ whole fraction starts insideWhole inside =>
      rw [munch_number starts]
      cases fraction with
      | nil =>
          have longer : ∀ text, (numberDigits text).1 = text.takeWhile isDigit := by
            intro text
            unfold numberDigits
            dsimp only
            split
            · split <;> rfl
            · rfl
          have enough := word_length insideWhole more
          simp only [Chunk.number, List.isEmpty_nil, if_true, List.append_nil, List.length_append,
            List.length_cons, longer]
          omega
      | cons digit digits =>
          obtain ⟨isNumber, others⟩ := List.forall_mem_cons.mp inside
          have point : ∀ char ∈ ('.' :: digit :: (digits ++ more)).head?, isDigit char = false := by
            rintro char found
            cases found
            rfl
          have enough := word_length others more
          have parts : numberDigits (whole ++ '.' :: digit :: (digits ++ more)) =
              (whole, digit :: (digits ++ more).takeWhile isDigit,
                (digits ++ more).dropWhile isDigit) := by
            unfold numberDigits
            rw [take_while_exact insideWhole point, drop_while_exact insideWhole point]
            simp only [isNumber, if_true]
          simp only [Chunk.number, List.isEmpty_cons, Bool.false_eq_true, if_false,
            List.append_assoc, List.cons_append, parts, List.length_append, List.length_cons]
          omega
  | word starts inside =>
      rw [munch_word starts]
      exact Nat.succ_le_succ (word_length inside more)

/-- In front of a blank or of the end, scanning takes the lexeme and nothing else. -/
theorem Shape.munch_apart {first : Char} {body rest : List Char}
    (shape : Shape first body kind literal) (apart : ∀ char ∈ rest.head?, isBlank char = true) :
    munch first (body ++ rest) = (⟨.token kind literal, first :: body⟩, rest) := by
  have outside : ∀ {class_ : Char → Bool}, class_ ' ' = false → class_ '\r' = false →
      class_ '\t' = false → class_ '\n' = false → ∀ char ∈ rest.head?, class_ char = false := by
    intro class_ space return_ tab line char found
    have blank := apart char found
    simp only [isBlank, Bool.or_eq_true, beq_iff_eq] at blank
    rcases blank with ((rfl | rfl) | rfl) | rfl
    · exact space
    · exact return_
    · exact tab
    · exact line
  cases shape with
  | single found =>
      have notEqual : ∀ char ∈ rest.head?, char ≠ '=' := by
        rintro char isHead rfl
        cases apart '=' isHead
      by_cases isSlash : first = '/'
      · subst isSlash
        cases found
        show slash rest = _
        unfold slash
        split
        · cases apart '/' rfl
        · cases apart '*' rfl
        · rfl
      · rw [munch_sign found isSlash]
        exact sign_apart found notEqual
  | double found =>
      rw [munch_sign_equal found]
      simp only [Chunk.sign, found, List.cons_append, List.nil_append]
  | string inside =>
      rw [List.append_assoc, List.singleton_append, munch_string inside]
      rfl
  | number starts insideWhole inside =>
      rw [munch_number starts, List.append_assoc, Chunk.number,
        number_digits_exact insideWhole inside (outside (by decide) (by decide) (by decide)
          (by decide))]
      · rfl
      · rintro - second after rfl
        cases apart '.' rfl
  | word starts inside =>
      have boundary : ∀ char ∈ rest.head?, continuesWord char = false :=
        outside (by decide) (by decide) (by decide) (by decide)
      rw [munch_word starts, Chunk.word, take_while_exact inside boundary,
        drop_while_exact inside boundary]

theorem unique {other : Kind} {constant : Option Literal} (spelled : Lexeme lexeme kind literal)
    (again : Lexeme lexeme other constant) : other = kind ∧ constant = literal := by
  obtain ⟨first, body, rfl, shape⟩ := spelled.shape
  obtain ⟨_, _, same, shapeToo⟩ := again.shape
  cases same
  have munched := @Shape.munch_apart _ _ first body [] shape (by simp)
  rw [@Shape.munch_apart _ _ first body [] shapeToo (by simp)] at munched
  simpa using munched

end Lexeme

theorem number_lexeme {first : Char} (starts : isDigit first = true) (rest : List Char) :
    Lexeme (number first rest).1.lexeme .number
      (some (.number (Decimal.ofDigits (first :: (numberDigits rest).1)
        (numberDigits rest).2.1).toFloat)) := by
  obtain ⟨insideWhole, inside, -⟩ := number_digits_spec rest
  have insideAll : ∀ char ∈ first :: (numberDigits rest).1, isDigit char = true :=
    List.forall_mem_cons.mpr ⟨starts, insideWhole⟩
  simp only [number]
  generalize numberDigits rest = parts at *
  obtain ⟨whole, fraction, after⟩ := parts
  dsimp only at insideAll inside ⊢
  cases fraction with
  | nil =>
      rw [List.isEmpty_nil, if_pos rfl, List.append_nil]
      exact .whole (List.cons_ne_nil first whole) insideAll
  | cons digit digits =>
      exact .fraction (List.cons_ne_nil first whole) insideAll (List.cons_ne_nil digit digits)
        inside

/-- Letters are scanned as a keyword or as an identifier of the grammar. -/
theorem word_lexeme {first : Char} (starts : startsWord first = true) (rest : List Char) :
    Lexeme (first :: rest.takeWhile continuesWord)
      ((Kind.ofKeyword? (String.ofList (first :: rest.takeWhile continuesWord))).getD .identifier)
      none := by
  have inside : ∀ char ∈ rest.takeWhile continuesWord, continuesWord char = true :=
    List.all_eq_true.mp List.all_takeWhile
  generalize rest.takeWhile continuesWord = body at *
  cases found : Kind.ofKeyword? (String.ofList (first :: body)) with
  | none =>
      apply Lexeme.identifier starts inside
      intro kind reserved same
      have different := List.find?_eq_none.mp found kind reserved
      rw [← same, String.ofList_toList] at different
      exact different (beq_self_eq_true _)
  | some kind =>
      have reserved : kind ∈ Kind.keywords := List.mem_of_find?_eq_some found
      have spelling := List.find?_some found
      rw [beq_iff_eq] at spelling
      have lexeme := Lexeme.keyword reserved
      rw [spelling, String.toList_ofList] at lexeme
      exact lexeme

end Treewalk
