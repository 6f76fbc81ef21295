import Treewalk.Proofs.Token.Streamed

/-!
# Texts and the tokens that they spell

Scanning gives tokens with their places; what a text spells are the tokens without them. A text that
starts with the lexeme of a token spells that token and what the rest spells, if the rest does not
begin with a character that would continue the lexeme.
-/

namespace Treewalk

set_option autoImplicit false

def Token.erase (token : Token) : Token :=
  { token with line := 0, span := ⟨0, 0⟩ }

theorem Token.kind_of_erase {found token : Token} (same : found.erase = token.erase) :
    found.kind = token.kind := by
  have kinds : found.erase.kind = token.erase.kind := by rw [same]
  exact kinds

theorem Token.lexeme_of_erase {found token : Token} (same : found.erase = token.erase) :
    found.lexeme = token.lexeme := by
  have lexemes : found.erase.lexeme = token.erase.lexeme := by rw [same]
  exact lexemes

def Token.unplaced (kind : Kind) (lexeme : List Char) (literal : Option Literal) : Token :=
  ⟨kind, String.ofList lexeme, literal, 0, ⟨0, 0⟩⟩

def Chunk.spelled? (chunk : Chunk) : Option (Except LexCause Token) :=
  match chunk.sort with
  | .layout => none
  | .token kind literal => some (.ok (Token.unplaced kind chunk.lexeme literal))
  | .fault cause => some (.error cause)

def spelled (text : List Char) : List (Except LexCause Token) :=
  (chunks text).filterMap Chunk.spelled?

def Item.erase : Item → Except LexCause Token
  | .token found => .ok found.erase
  | .error found => .error found.cause

theorem items_erase (ahead : List Chunk) (cursor : Cursor) :
    (Cursor.itemsFrom ahead cursor).map Item.erase = ahead.filterMap Chunk.spelled? := by
  induction ahead generalizing cursor with
  | nil => rfl
  | cons chunk ahead ih =>
      rcases chunk with ⟨sort, lexeme⟩
      cases sort with
      | layout => exact ih _
      | token kind literal => exact congrArg (List.cons _) (ih _)
      | fault cause => exact congrArg (List.cons _) (ih _)

theorem tokens_of_items {items : List Item} {tokens : List Token}
    (spells : items.map Item.erase = tokens.map .ok) :
    items.filterMap Item.error? = [] ∧
      (items.filterMap Item.token?).map Token.erase = tokens := by
  induction items generalizing tokens with
  | nil =>
      cases tokens with
      | nil => exact ⟨rfl, rfl⟩
      | cons token rest => cases spells
  | cons item items ih =>
      cases tokens with
      | nil => cases spells
      | cons token rest =>
          rw [List.map_cons, List.map_cons] at spells
          injection spells with first others
          obtain ⟨clean, same⟩ := ih others
          cases item with
          | token found =>
              cases first
              exact ⟨clean, congrArg (List.cons _) same⟩
          | error found => cases first

theorem erase_narrowed (tokens : List Token) :
    (tokens.map Token.narrowed).map Token.erase = tokens.map Token.erase := by
  rw [List.map_map]
  rfl

theorem items_erase_narrowed (items : List Item) :
    (items.map Item.narrowed).map Item.erase = items.map Item.erase := by
  rw [List.map_map]
  congr 1
  funext item
  cases item <;> rfl

theorem source_items_erase (source : String) :
    (Scanned.ofSource source).items.map Item.erase = spelled source.toList :=
  (items_erase_narrowed _).trans (items_erase (chunks source.toList) (Cursor.start source.toList))

theorem scan_ok_iff {source : String} {tokens : List Token} :
    scan source = .ok tokens ↔ (Scanned.ofSource source).errors = [] ∧
      (Scanned.ofSource source).tokens ++ [(Scanned.ofSource source).closing] = tokens := by
  unfold scan
  rw [Scanner.scan_source]
  dsimp only
  split
  · rename_i clean
    simp [clean]
  · rename_i faulty
    constructor
    · intro same
      cases same
    · rintro ⟨clean, -⟩
      exact absurd clean faulty

/-- A text that spells tokens only is scanned without errors, and gives these tokens. -/
theorem scan_of_spelled {source : String} {tokens : List Token}
    (spells : spelled source.toList = tokens.map .ok) :
    ∃ found closing, scan source = .ok (found ++ [closing]) ∧ closing.kind = .endOfInput ∧
      found.map Token.erase = tokens := by
  obtain ⟨clean, same⟩ := tokens_of_items ((source_items_erase source).trans spells)
  exact ⟨_, _, scan_ok_iff.mpr ⟨clean, rfl⟩, rfl, same⟩

theorem spelled_cons (first : Char) (rest : List Char) :
    spelled (first :: rest) =
      (Chunk.munch first rest).1.spelled?.toList ++ spelled (Chunk.munch first rest).2 := by
  unfold spelled
  rw [chunks_cons, List.filterMap_cons]
  cases (Chunk.munch first rest).1.spelled? <;> rfl

theorem spelled_blank {char : Char} (blank : Chunk.isBlank char = true) (rest : List Char) :
    spelled (char :: rest) = spelled rest := by
  rw [spelled_cons, Chunk.munch, if_pos blank]
  rfl

/-- The text is at its end, or begins with a character that continues no token. -/
def Stops (rest : List Char) : Prop :=
  ∀ char ∈ rest.head?, char ∈ [' ', '\n', '(', ')', ',', ';']

section Classes

open Chunk

theorem stops_nil : Stops [] := by
  intro char found
  cases found

theorem stops_cons {char : Char} {rest : List Char}
    (inside : char ∈ [' ', '\n', '(', ')', ',', ';']) : Stops (char :: rest) := by
  intro other found
  cases found
  exact inside

/-- No class of characters continues into a stop if none of the stops is in it. -/
theorem head_of_stops {rest : List Char} {class_ : Char → Bool} (stops : Stops rest)
    (apart : [' ', '\n', '(', ')', ',', ';'].any class_ = false) :
    ∀ char ∈ rest.head?, class_ char = false := by
  intro char found
  have inside := List.any_eq_false.mp apart char (stops char found)
  simpa using inside

theorem take_while_exact {class_ : Char → Bool} {body rest : List Char}
    (inside : ∀ char ∈ body, class_ char = true)
    (boundary : ∀ char ∈ rest.head?, class_ char = false) :
    (body ++ rest).takeWhile class_ = body := by
  rw [List.takeWhile_append_of_pos inside]
  cases rest with
  | nil => simp
  | cons char rest => simp [boundary char rfl]

theorem drop_while_exact {class_ : Char → Bool} {body rest : List Char}
    (inside : ∀ char ∈ body, class_ char = true)
    (boundary : ∀ char ∈ rest.head?, class_ char = false) :
    (body ++ rest).dropWhile class_ = rest := by
  rw [List.dropWhile_append_of_pos inside]
  cases rest with
  | nil => rfl
  | cons char rest => simp [boundary char rfl]

theorem differs_of_not_mem {stop : Char} {body : List Char} (outside : stop ∉ body) :
    ∀ char ∈ body, (char != stop) = true := by
  intro char found
  rw [bne_iff_ne]
  rintro rfl
  exact outside found

theorem digit_not_blank {char : Char} (digit : isDigit char = true) : isBlank char = false := by
  cases blank : isBlank char with
  | false => rfl
  | true =>
      simp only [isBlank, Bool.or_eq_true, beq_iff_eq] at blank
      rcases blank with ((rfl | rfl) | rfl) | rfl <;> cases digit

theorem word_not_blank {char : Char} (word : startsWord char = true) : isBlank char = false := by
  cases blank : isBlank char with
  | false => rfl
  | true =>
      simp only [isBlank, Bool.or_eq_true, beq_iff_eq] at blank
      rcases blank with ((rfl | rfl) | rfl) | rfl <;> cases word

theorem word_not_digit {char : Char} (word : startsWord char = true) : isDigit char = false := by
  cases digit : isDigit char with
  | false => rfl
  | true =>
      simp only [isDigit, startsWord, Bool.or_eq_true, Bool.and_eq_true, decide_eq_true_eq,
        beq_iff_eq, Char.le_def, UInt32.le_iff_toNat_le] at digit word
      rcases word with (word | word) | rfl
      · exact absurd (Nat.le_trans word.1 digit.2) (by decide)
      · exact absurd (Nat.le_trans word.1 digit.2) (by decide)
      · exact absurd digit.2 (by decide)

theorem munch_word {first : Char} (starts : startsWord first = true) (rest : List Char) :
    munch first rest = word first rest := by
  have notSlash : first ≠ '/' := by
    rintro rfl
    cases starts
  have notQuote : first ≠ '"' := by
    rintro rfl
    cases starts
  rw [munch, if_neg (by simp [word_not_blank starts]), if_neg notSlash, if_neg notQuote,
    if_neg (by simp [word_not_digit starts]), if_pos starts]

/-- A word spells one token: its keyword if it is one, an identifier otherwise. -/
theorem spelled_word {first : Char} {body rest : List Char} (starts : startsWord first = true)
    (inside : ∀ char ∈ body, continuesWord char = true) (stops : Stops rest) :
    spelled (first :: (body ++ rest)) =
      .ok (Token.unplaced ((Kind.ofKeyword? (String.ofList (first :: body))).getD .identifier)
        (first :: body) none) :: spelled rest := by
  have boundary : ∀ char ∈ rest.head?, continuesWord char = false :=
    head_of_stops stops (by decide)
  rw [spelled_cons, munch_word starts, word, take_while_exact inside boundary,
    drop_while_exact inside boundary]
  rfl

/-- Digits, and digits behind a point if there are some, are the parts of a number, if no digit
follows and, without digits behind a point, no point in front of a digit. -/
theorem number_digits_exact {whole fraction rest : List Char}
    (insideWhole : ∀ char ∈ whole, isDigit char = true)
    (insideFraction : ∀ char ∈ fraction, isDigit char = true)
    (boundary : ∀ char ∈ rest.head?, isDigit char = false)
    (apart : fraction = [] → ∀ second after, rest = '.' :: second :: after →
      isDigit second = false) :
    numberDigits (whole ++ ((if fraction.isEmpty then [] else '.' :: fraction) ++ rest)) =
      (whole, fraction, rest) := by
  unfold numberDigits
  cases fraction with
  | nil =>
      simp only [List.isEmpty_nil, if_true, List.nil_append]
      rw [take_while_exact insideWhole boundary, drop_while_exact insideWhole boundary]
      split
      · rename_i second after
        rw [if_neg (by simp [apart rfl second after rfl])]
      · rfl
  | cons digit fraction =>
      have point : ∀ char ∈ ('.' :: digit :: (fraction ++ rest)).head?, isDigit char = false := by
        rintro char found
        cases found
        rfl
      have insideRest : ∀ char ∈ fraction, isDigit char = true :=
        fun char found => insideFraction char (List.mem_cons_of_mem digit found)
      simp only [List.isEmpty_cons, Bool.false_eq_true, if_false, List.cons_append]
      rw [take_while_exact insideWhole point, drop_while_exact insideWhole point]
      split
      · rename_i same
        cases same
        rw [if_pos (insideFraction _ List.mem_cons_self), take_while_exact insideRest boundary,
          drop_while_exact insideRest boundary]
      · rename_i other
        exact absurd rfl (other _ _)

theorem munch_number {first : Char} (starts : isDigit first = true) (rest : List Char) :
    munch first rest = number first rest := by
  have notSlash : first ≠ '/' := by
    rintro rfl
    cases starts
  have notQuote : first ≠ '"' := by
    rintro rfl
    cases starts
  rw [munch, if_neg (by simp [digit_not_blank starts]), if_neg notSlash, if_neg notQuote,
    if_pos starts]

/-- Digits, and digits behind a point if there are some, spell the number that they denote. -/
theorem spelled_number {first : Char} {whole fraction rest : List Char}
    (starts : isDigit first = true) (insideWhole : ∀ char ∈ whole, isDigit char = true)
    (insideFraction : ∀ char ∈ fraction, isDigit char = true) (stops : Stops rest) :
    spelled (first :: (whole ++ ((if fraction.isEmpty then [] else '.' :: fraction) ++ rest))) =
      .ok (Token.unplaced .number
        (first :: whole ++ (if fraction.isEmpty then [] else '.' :: fraction))
        (some (.number (Decimal.ofDigits (first :: whole) fraction).toFloat))) :: spelled rest := by
  have boundary : ∀ char ∈ rest.head?, isDigit char = false := head_of_stops stops (by decide)
  have digits := number_digits_exact insideWhole insideFraction boundary
    (fun _ second after same => by
      have point := stops '.' (by rw [same]; rfl)
      simp at point)
  rw [spelled_cons, munch_number starts, number, digits]
  rfl

theorem munch_string {body : List Char} (inside : '"' ∉ body) (rest : List Char) :
    munch '"' (body ++ '"' :: rest) =
      (⟨.token .string (some (.string (String.ofList body))), '"' :: body ++ ['"']⟩, rest) := by
  have others := differs_of_not_mem inside
  have boundary : ∀ char ∈ ('"' :: rest).head?, (char != '"') = false := by
    rintro char found
    cases found
    rfl
  show string (body ++ '"' :: rest) = _
  rw [string, take_while_exact others boundary, drop_while_exact others boundary]

theorem spelled_string {body : List Char} (inside : '"' ∉ body) (rest : List Char) :
    spelled ('"' :: (body ++ '"' :: rest)) =
      .ok (Token.unplaced .string ('"' :: body ++ ['"']) (some (.string (String.ofList body)))) ::
        spelled rest := by
  rw [spelled_cons, munch_string inside]
  rfl

def closedSigns : List Kind :=
  [.leftParen, .rightParen, .leftBrace, .rightBrace, .comma, .dot, .minus, .plus, .semicolon,
    .star, .bangEqual, .equalEqual, .greaterEqual, .lessEqual]

def openSigns : List Kind :=
  [.bang, .equal, .greater, .less]

theorem spelled_closed {kind : Kind} (closed : kind ∈ closedSigns) (rest : List Char) :
    spelled (kind.spelling.toList ++ rest) =
      .ok (Token.unplaced kind kind.spelling.toList none) :: spelled rest := by
  simp only [closedSigns, List.mem_cons, List.not_mem_nil, or_false] at closed
  rcases closed with rfl | rfl | rfl | rfl | rfl | rfl | rfl | rfl | rfl | rfl | rfl | rfl | rfl |
    rfl
  all_goals exact spelled_cons _ _

theorem sign_apart {first : Char} {kind : Kind} {rest : List Char}
    (single : sign? first = some kind) (apart : ∀ char ∈ rest.head?, char ≠ '=') :
    sign first rest = (⟨.token kind none, [first]⟩, rest) := by
  unfold sign
  split
  · exact absurd rfl (apart '=' rfl)
  · rw [single]

theorem spelled_open {kind : Kind} (open_ : kind ∈ openSigns) {rest : List Char}
    (apart : ∀ char ∈ rest.head?, char ≠ '=') :
    spelled (kind.spelling.toList ++ rest) =
      .ok (Token.unplaced kind kind.spelling.toList none) :: spelled rest := by
  have signs : ∀ first, sign? first = some kind → munch first rest = sign first rest →
      kind.spelling.toList = [first] → spelled (kind.spelling.toList ++ rest) =
        .ok (Token.unplaced kind kind.spelling.toList none) :: spelled rest := by
    intro first single munched spelling
    rw [spelling, List.singleton_append, spelled_cons, munched, sign_apart single apart]
    rfl
  simp only [openSigns, List.mem_cons, List.not_mem_nil, or_false] at open_
  rcases open_ with rfl | rfl | rfl | rfl
  · exact signs '!' rfl rfl rfl
  · exact signs '=' rfl rfl rfl
  · exact signs '>' rfl rfl rfl
  · exact signs '<' rfl rfl rfl

theorem spelled_slash {rest : List Char} (stops : Stops rest) :
    spelled (Kind.slash.spelling.toList ++ rest) =
      .ok (Token.unplaced .slash Kind.slash.spelling.toList none) :: spelled rest := by
  have single : slash rest = (⟨.token .slash none, ['/']⟩, rest) := by
    unfold slash
    split
    · exact absurd (stops '/' rfl) (by decide)
    · exact absurd (stops '*' rfl) (by decide)
    · rfl
  have munched : munch '/' rest = slash rest := rfl
  show spelled ('/' :: rest) = _
  rw [spelled_cons, munched, single]
  rfl

theorem keyword_spelling {kind : Kind} (reserved : kind ∈ Kind.keywords) :
    ∃ first body, kind.spelling.toList = first :: body ∧ startsWord first = true ∧
      (∀ char ∈ body, continuesWord char = true) ∧
      Kind.ofKeyword? (String.ofList (first :: body)) = some kind := by
  revert kind
  have all : ∀ kind ∈ Kind.keywords, kind.spelling.toList.head?.all startsWord = true ∧
      kind.spelling.toList ≠ [] ∧ kind.spelling.toList.all continuesWord = true ∧
      Kind.ofKeyword? (String.ofList kind.spelling.toList) = some kind := by
    decide +kernel
  intro kind reserved
  obtain ⟨starts, nonempty, inside, found⟩ := all kind reserved
  cases spelling : kind.spelling.toList with
  | nil => exact absurd spelling nonempty
  | cons first body =>
      rw [spelling] at starts inside found
      refine ⟨first, body, rfl, starts, ?_, found⟩
      intro char member
      exact List.all_eq_true.mp inside char (List.mem_cons_of_mem first member)

theorem spelled_keyword {kind : Kind} (reserved : kind ∈ Kind.keywords) {rest : List Char}
    (stops : Stops rest) :
    spelled (kind.spelling.toList ++ rest) =
      .ok (Token.unplaced kind kind.spelling.toList none) :: spelled rest := by
  obtain ⟨first, body, spelling, starts, inside, found⟩ := keyword_spelling reserved
  rw [spelling, List.cons_append, spelled_word starts inside stops, found]
  rfl

def fixedKinds : List Kind :=
  closedSigns ++ openSigns ++ [.slash] ++ Kind.keywords

/-- The spelling of a kind in front of a stop spells a token of this kind. -/
theorem spelled_fixed {kind : Kind} (fixed : kind ∈ fixedKinds) {rest : List Char}
    (stops : Stops rest) :
    spelled (kind.spelling.toList ++ rest) =
      .ok (Token.unplaced kind kind.spelling.toList none) :: spelled rest := by
  simp only [fixedKinds, List.mem_append, List.mem_singleton] at fixed
  rcases fixed with ((closed | open_) | rfl) | reserved
  · exact spelled_closed closed rest
  · apply spelled_open open_
    intro char found
    have stop := stops char found
    rintro rfl
    exact absurd stop (by decide)
  · exact spelled_slash stops
  · exact spelled_keyword reserved stops

end Classes

end Treewalk
