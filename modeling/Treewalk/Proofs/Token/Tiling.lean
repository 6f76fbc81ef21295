import Mathlib.Data.List.Chain
import Treewalk.Proofs.Token.Proper
import Treewalk.Proofs.Token.Streamed

/-!
# Items tile the source

The items of a source and the layout between them make up the source, from its first byte to its
last. `Tiled` says so from some place on: a gap of layout, the lexeme of an item, and the same again
behind it; the span and the line of the item are counted up from the place. A chunk of layout makes
the next gap longer, any other chunk starts a new step, so scanning tiles every text. What a reader
of spans relies on is read off the steps.
-/

namespace Treewalk

set_option autoImplicit false

/-- The text is made of blanks and comments. A line comment goes to the end of its line or, with
nothing in `behind`, of the source; a block comment goes to the first closing sign. -/
inductive Spacing (behind : List Char) : List Char → Prop where
  | nil : Spacing behind []
  | blank {char : Char} {rest : List Char} (blank : Chunk.isBlank char = true)
      (later : Spacing behind rest) : Spacing behind (char :: rest)
  | line {body rest : List Char} (inside : '\n' ∉ body)
      (ended : ∀ char ∈ (rest ++ behind).head?, char = '\n') (later : Spacing behind rest) :
      Spacing behind ('/' :: '/' :: (body ++ rest))
  | block {body rest : List Char} (inside : ¬['*', '/'] <:+: body) (later : Spacing behind rest) :
      Spacing behind ('/' :: '*' :: (body ++ '*' :: '/' :: rest))

namespace Item

def span : Item → Span
  | token found => found.span
  | error found => found.span

def line : Item → Nat
  | token found => found.line
  | error found => found.line

/-- The item comes from this lexeme. A token is not the closing one, and the literal of a string is
the lexeme without its quotes. -/
def Spells (lexeme : List Char) : Item → Prop
  | token found => found.lexeme = String.ofList lexeme ∧ found.kind ≠ .endOfInput ∧
      (found.kind = .string → ∃ body, lexeme = '"' :: (body ++ ['"']) ∧
        found.literal = some (.string (String.ofList body)))
  | error _ => True

end Item

/-- From the byte `offset` on the line `line` on, the text falls into gaps and the lexemes of the
items; behind the last gap is the closing token. -/
inductive Tiled : Nat → Nat → List Char → List Item → Token → Prop where
  | finish {offset line : Nat} {gap : List Char} (layout : Spacing [] gap) :
      Tiled offset line gap [] ⟨.endOfInput, "", none, line + newlines gap,
        ⟨offset + byteLength gap, offset + byteLength gap⟩⟩
  | step {offset line : Nat} {gap lexeme rest : List Char} {item : Item} {items : List Item}
      {closing : Token} (layout : Spacing (lexeme ++ rest) gap) (nonempty : lexeme ≠ [])
      (spells : item.Spells lexeme)
      (span : item.span = ⟨offset + byteLength gap, offset + byteLength (gap ++ lexeme)⟩)
      (row : item.line = line + newlines (gap ++ lexeme))
      (later : Tiled (offset + byteLength (gap ++ lexeme)) (line + newlines (gap ++ lexeme)) rest
        items closing) :
      Tiled offset line (gap ++ (lexeme ++ rest)) (item :: items) closing

section Chunks

open Chunk

theorem block_comment_ends {text closed after : List Char}
    (found : blockComment text = some (closed, after)) :
    ∃ body, closed = body ++ ['*', '/'] ∧ ¬['*', '/'] <:+: body := by
  induction text generalizing closed with
  | nil => cases found
  | cons char rest ih =>
      unfold blockComment at found
      split at found
      · cases found
        exact ⟨[], rfl, by simp⟩
      · rename_i other same
        cases same
        rw [Option.map_eq_some_iff] at found
        obtain ⟨⟨inner, behind⟩, found, pair⟩ := found
        cases pair
        obtain ⟨body, rfl, inside⟩ := ih found
        refine ⟨char :: body, rfl, ?_⟩
        rw [List.infix_cons_iff]
        rintro (starts | later)
        · obtain ⟨tail, same⟩ := starts
          cases same
          exact other _ rfl (block_comment_covers found).symm
        · exact inside later
      · rename_i same
        cases same

/-- What holds of every class of chunks holds of the first chunk of a text. -/
theorem munch_cases {first : Char} {rest : List Char} {motive : Chunk × List Char → Prop}
    (blank : isBlank first = true → motive (⟨.layout, [first]⟩, rest))
    (ofSlash : first = '/' → motive (slash rest)) (ofString : first = '"' → motive (string rest))
    (ofNumber : motive (number first rest)) (ofWord : motive (word first rest))
    (ofSign : motive (sign first rest)) : motive (munch first rest) := by
  unfold munch
  split
  · exact blank (by assumption)
  split
  · exact ofSlash (by assumption)
  split
  · exact ofString (by assumption)
  split
  · exact ofNumber
  split
  · exact ofWord
  · exact ofSign

theorem spacing_of_slash {rest behind gap : List Char} (layout : (slash rest).1.sort = .layout)
    (cut : (slash rest).2 = gap ++ behind) (later : Spacing behind gap) :
    Spacing behind ((slash rest).1.lexeme ++ gap) := by
  revert layout cut
  unfold slash
  split
  · rename_i tail
    intro layout cut
    have same : ('/' :: tail).takeWhile (· != '\n') = '/' :: tail.takeWhile (· != '\n') := rfl
    rw [same]
    apply Spacing.line _ _ later
    · intro found
      have inside := List.all_eq_true.mp List.all_takeWhile '\n' found
      cases inside
    · intro char found
      rw [← cut] at found
      have ends := List.head?_dropWhile_not (· != '\n') ('/' :: tail)
      rw [found] at ends
      simpa using ends
  · rename_i inside
    cases found : blockComment inside with
    | some parts =>
        obtain ⟨closed, after⟩ := parts
        intro layout cut
        obtain ⟨body, rfl, plain⟩ := block_comment_ends found
        have spacing := Spacing.block plain later
        simpa using spacing
    | none =>
        intro layout
        cases layout
  · intro layout
    cases layout

theorem spacing_of_munch {first : Char} {rest behind gap : List Char}
    (layout : (munch first rest).1.sort = .layout) (cut : (munch first rest).2 = gap ++ behind)
    (later : Spacing behind gap) : Spacing behind ((munch first rest).1.lexeme ++ gap) := by
  revert layout cut
  apply munch_cases (motive := fun parts => parts.1.sort = .layout → parts.2 = gap ++ behind →
    Spacing behind (parts.1.lexeme ++ gap))
  · exact fun blank _ _ => .blank blank later
  · exact fun _ layout cut => spacing_of_slash layout cut later
  · intro _ layout
    unfold string at layout
    dsimp only at layout
    split at layout <;> cases layout
  · intro layout
    cases layout
  · intro layout
    cases layout
  · intro layout
    unfold sign at layout
    split at layout
    · cases layout
    · split at layout <;> cases layout

/-- If the chunk is a token, it is not the closing one, and the literal of a string is the lexeme
without its quotes. -/
def FitsToken (chunk : Chunk) : Prop :=
  ∀ kind literal, chunk.sort = .token kind literal → kind ≠ .endOfInput ∧
    (kind = .string → ∃ body, chunk.lexeme = '"' :: (body ++ ['"']) ∧
      literal = some (.string (String.ofList body)))

theorem fixed_fits {kind : Kind} {lexeme : List Char} (fixed : kind ∈ fixedKinds) :
    FitsToken ⟨.token kind none, lexeme⟩ := by
  rintro _ _ ⟨⟩
  refine ⟨?_, ?_⟩
  · rintro rfl
    exact absurd fixed (by decide)
  · rintro rfl
    exact absurd fixed (by decide)

theorem slash_fits (rest : List Char) : FitsToken (slash rest).1 := by
  unfold slash
  split
  · rintro kind literal ⟨⟩
  · split
    · rintro kind literal ⟨⟩
    · rintro kind literal ⟨⟩
  · exact fixed_fits (by decide)

theorem string_fits (rest : List Char) : FitsToken (string rest).1 := by
  intro kind literal isToken
  unfold string at isToken ⊢
  dsimp only at isToken ⊢
  split at isToken
  · rename_i quote after found
    cases isToken
    refine ⟨nofun, fun _ => ⟨_, ?_, rfl⟩⟩
    have ends := List.head?_dropWhile_not (· != '"') rest
    rw [found] at ends
    have isQuote : quote = '"' := by simpa using ends
    rw [isQuote]
    rfl
  · cases isToken

theorem word_fits (first : Char) (rest : List Char) : FitsToken (word first rest).1 := by
  unfold word
  dsimp only
  cases found : Kind.ofKeyword? (String.ofList (first :: rest.takeWhile continuesWord)) with
  | none =>
      rintro kind literal ⟨⟩
      exact ⟨nofun, nofun⟩
  | some kind =>
      have reserved : kind ∈ Kind.keywords := List.mem_of_find?_eq_some found
      exact fixed_fits (List.mem_append_right _ reserved)

theorem sign_fits (first : Char) (rest : List Char) : FitsToken (sign first rest).1 := by
  unfold sign
  split
  · rename_i double
    exact fixed_fits (sign_equal_fixed double).1
  · split
    · rename_i single
      exact fixed_fits (sign_fixed single).1
    · rintro kind literal ⟨⟩

theorem munch_fits (first : Char) (rest : List Char) : FitsToken (munch first rest).1 := by
  apply munch_cases (motive := fun parts => FitsToken parts.1)
  · rintro - kind literal ⟨⟩
  · exact fun _ => slash_fits rest
  · exact fun _ => string_fits rest
  · rintro kind literal ⟨⟩
    exact ⟨nofun, nofun⟩
  · exact word_fits first rest
  · exact sign_fits first rest

end Chunks

theorem Tiled.prepend {offset line : Nat} {before text : List Char} {items : List Item}
    {closing : Token}
    (spacing : ∀ gap behind, text = gap ++ behind → Spacing behind gap →
      Spacing behind (before ++ gap))
    (tiled : Tiled (offset + byteLength before) (line + newlines before) text items closing) :
    Tiled offset line (before ++ text) items closing := by
  cases tiled with
  | finish layout =>
      have longer := spacing text [] (List.append_nil _).symm layout
      have finished : Tiled offset line (before ++ text) [] _ := .finish longer
      simpa only [byte_length_append, newlines_append, Nat.add_assoc] using finished
  | @step _ _ gap lexeme rest item _ _ layout nonempty spells span row later =>
      have longer := spacing gap (lexeme ++ rest) rfl layout
      rw [← List.append_assoc]
      apply Tiled.step longer nonempty spells
      · rw [span]
        simp only [byte_length_append, Nat.add_assoc]
      · rw [row]
        simp only [newlines_append, Nat.add_assoc]
      · simpa only [byte_length_append, newlines_append, Nat.add_assoc] using later

theorem Tiled.next {offset line : Nat} {lexeme rest : List Char} {item : Item} {items : List Item}
    {closing : Token} (nonempty : lexeme ≠ []) (spells : item.Spells lexeme)
    (span : item.span = ⟨offset, offset + byteLength lexeme⟩)
    (row : item.line = line + newlines lexeme)
    (later : Tiled (offset + byteLength lexeme) (line + newlines lexeme) rest items closing) :
    Tiled offset line (lexeme ++ rest) (item :: items) closing := by
  have step : Tiled offset line ([] ++ (lexeme ++ rest)) (item :: items) closing :=
    .step .nil nonempty spells span row later
  exact step

theorem tiled_items (text : List Char) (offset line : Nat) :
    Tiled offset line text (Cursor.itemsFrom (chunks text) ⟨chunks text, offset, line⟩)
      (Cursor.last (chunks text) ⟨chunks text, offset, line⟩).finish := by
  induction size : text.length using Nat.strongRecOn generalizing text offset line with
  | ind count ih =>
      subst size
      cases text with
      | nil => exact .finish .nil
      | cons first rest =>
          have covers := Chunk.munch_covers first rest
          have nonempty := Chunk.munch_lexeme_ne_nil first rest
          have fits := munch_fits first rest
          have shorter := Chunk.munch_length first rest
          have spacing := fun gap behind => @spacing_of_munch first rest behind gap
          rw [chunks_cons]
          generalize Chunk.munch first rest = parts at covers nonempty fits shorter spacing
          obtain ⟨⟨sort, lexeme⟩, after⟩ := parts
          dsimp only at covers nonempty fits shorter spacing ⊢
          -- The next chunk is cut off what this one leaves, so the induction is on the length.
          have later := ih after.length (Nat.lt_succ_of_le shorter) after
            (offset + byteLength lexeme) (line + newlines lexeme) rfl
          rw [← covers]
          cases sort with
          | layout => exact later.prepend fun gap behind => spacing gap behind rfl
          | token kind literal =>
              obtain ⟨notClosing, ofString⟩ := fits kind literal rfl
              exact .next nonempty ⟨rfl, notClosing, ofString⟩ rfl rfl later
          | fault cause => exact .next nonempty trivial rfl rfl later


def Separated (source : List Char) (left right : Span) : Prop :=
  ∃ before gap behind, source = before ++ (gap ++ behind) ∧ left.stop = byteLength before ∧
    right.start = byteLength (before ++ gap) ∧ Spacing behind gap

def Span.Holds (span : Span) (source text : List Char) : Prop :=
  ∃ before behind, source = before ++ (text ++ behind) ∧
    span = ⟨byteLength before, byteLength (before ++ text)⟩

def Item.Located (source lexeme : List Char) (item : Item) : Prop :=
  ∃ before behind, source = before ++ (lexeme ++ behind) ∧
    item.span = ⟨byteLength before, byteLength (before ++ lexeme)⟩ ∧
    item.line = 1 + newlines (before ++ lexeme)

namespace Item.Located

variable {source : String} {lexeme : List Char} {item : Item}

theorem holds (located : item.Located source.toList lexeme) :
    item.span.Holds source.toList lexeme := by
  obtain ⟨before, behind, whole, span, -⟩ := located
  exact ⟨before, behind, whole, span⟩

theorem fits (located : item.Located source.toList lexeme) : item.span.fits source = true := by
  obtain ⟨before, behind, whole, span, -⟩ := located
  have start := boundary_behind before (lexeme ++ behind)
  have stop := boundary_behind (before ++ lexeme) behind
  rw [List.append_assoc] at stop
  rw [Span.fits, span, whole, start, stop, byte_length_append]
  simp

theorem line_eq (located : item.Located source.toList lexeme) :
    item.line = 1 + newlinesBefore item.span.stop source.toList := by
  obtain ⟨before, behind, whole, span, row⟩ := located
  rw [row, span, whole, ← List.append_assoc, newlines_before_behind]

end Item.Located

namespace Tiled

variable {offset line : Nat} {text source before : List Char} {items : List Item} {closing : Token}

theorem located (tiled : Tiled offset line text items closing) (whole : source = before ++ text)
    (start : offset = byteLength before) (row : line = 1 + newlines before) :
    ∀ item ∈ items, ∃ lexeme, lexeme ≠ [] ∧ item.Spells lexeme ∧ item.Located source lexeme := by
  induction tiled generalizing before with
  | finish layout => exact nofun
  | @step offset line gap lexeme rest item items closing layout nonempty spells span itemRow later
      ih =>
      intro found among
      rcases List.mem_cons.mp among with rfl | among
      · refine ⟨lexeme, nonempty, spells, before ++ gap, rest, ?_, ?_, ?_⟩
        · rw [whole, List.append_assoc]
        · rw [span, start, List.append_assoc, byte_length_append before, byte_length_append before]
        · rw [itemRow, row, List.append_assoc, newlines_append before, Nat.add_assoc]
      · apply ih _ _ _ found among
        · exact before ++ (gap ++ lexeme)
        · rw [whole, List.append_assoc, List.append_assoc]
        · rw [start, byte_length_append before]
        · rw [row, newlines_append before, Nat.add_assoc]

theorem closing_eq (tiled : Tiled offset line text items closing) :
    closing = ⟨.endOfInput, "", none, line + newlines text,
      ⟨offset + byteLength text, offset + byteLength text⟩⟩ := by
  induction tiled with
  | finish layout => rfl
  | step layout nonempty spells span row later ih =>
      rw [ih]
      simp only [byte_length_append, newlines_append, Nat.add_assoc]

/-- Every span of a tiled text ends where the next one starts, or in front of it. -/
theorem spans_apart (tiled : Tiled offset line text items closing) :
    (items ++ [Item.token closing]).Pairwise (fun item later => item.span.stop ≤ later.span.start) ∧
      ∀ item ∈ items ++ [Item.token closing], offset ≤ item.span.start := by
  induction tiled with
  | finish layout => simp [Item.span]
  | step layout nonempty spells span row later ih =>
      obtain ⟨apart, behind⟩ := ih
      refine ⟨List.pairwise_cons.mpr ⟨?_, apart⟩, ?_⟩
      · intro next among
        rw [span]
        exact behind next among
      · intro found among
        rcases List.mem_cons.mp among with rfl | among
        · rw [span]
          exact Nat.le_add_right _ _
        · exact Nat.le_trans (Nat.le_add_right _ _) (behind found among)

theorem separated (tiled : Tiled offset line text items closing) (whole : source = before ++ text)
    (start : offset = byteLength before) (first : Span) (stop : first.stop = offset) :
    List.IsChain (Separated source) (first :: (items ++ [Item.token closing]).map Item.span) := by
  induction tiled generalizing before first with
  | @finish offset line gap layout =>
      rw [List.nil_append, List.map_singleton, List.isChain_pair]
      refine ⟨before, gap, [], ?_, ?_, ?_, layout⟩
      · rw [whole, List.append_nil]
      · rw [stop, start]
      · rw [byte_length_append, ← start]
        rfl
  | @step offset line gap lexeme rest item items closing layout nonempty spells span row later ih =>
      rw [List.cons_append, List.map_cons, List.isChain_cons_cons]
      refine ⟨⟨before, gap, lexeme ++ rest, whole, ?_, ?_, layout⟩, ?_⟩
      · rw [stop, start]
      · rw [span, byte_length_append before, start]
      · apply ih _ _ item.span
        · rw [span]
        · exact before ++ (gap ++ lexeme)
        · rw [whole, List.append_assoc, List.append_assoc]
        · rw [start, byte_length_append before]

end Tiled

def Scanned.listed (scanned : Scanned) : List Item :=
  scanned.items ++ [.token scanned.closing]

/-- The items and the closing token tile the source. -/
structure Scanned.Tiles (source : String) (scanned : Scanned) : Prop where
  /-- Spans are ordered, lie inside the source and cut no character in two. -/
  fits : ∀ item ∈ scanned.listed, item.span.fits source = true
  /-- Spans do not overlap, and come in the order of the source. -/
  apart : scanned.listed.Pairwise fun item later => item.span.stop ≤ later.span.start
  /-- Only the closing token is empty. -/
  nonempty : ∀ item ∈ scanned.items, item.span.start < item.span.stop
  /-- A lexeme is the text of the source at its span. -/
  lexeme : ∀ token, .token token ∈ scanned.listed →
    token.span.Holds source.toList token.lexeme.toList
  /-- In front of the first span and between two neighbours there is layout only. -/
  gaps : List.IsChain (Separated source.toList) (⟨0, 0⟩ :: scanned.listed.map Item.span)
  /-- The closing token stands at the end. -/
  closing : scanned.closing.kind = .endOfInput ∧
    scanned.closing.span = ⟨source.utf8ByteSize, source.utf8ByteSize⟩
  /-- No other token is a closing one. -/
  single : ∀ token ∈ scanned.tokens, token.kind ≠ .endOfInput
  /-- The line of an item is that of its end. -/
  line : ∀ item ∈ scanned.listed, item.line = 1 + newlinesBefore item.span.stop source.toList
  /-- The literal of a string is its lexeme without the quotes. -/
  string : ∀ token ∈ scanned.tokens, token.kind = .string →
    ∃ body, token.lexeme = "\"" ++ body ++ "\"" ∧ token.literal = some (.string body)

section Whole

variable {source : String} {items : List Item} {closing : Token}

/-- In a source that is tiled from its start on, every item of the list has its place, the closing
token at the empty lexeme. -/
theorem Tiled.listed_located (tiled : Tiled 0 1 source.toList items closing) :
    ∀ item ∈ items ++ [Item.token closing], ∃ lexeme, item.Located source.toList lexeme ∧
      ∀ token, item = .token token → token.lexeme = String.ofList lexeme := by
  intro item among
  rcases List.mem_append.mp among with among | among
  · obtain ⟨lexeme, -, spells, located⟩ :=
      tiled.located (List.nil_append _).symm rfl rfl item among
    refine ⟨lexeme, located, ?_⟩
    rintro token rfl
    exact spells.1
  · obtain rfl := List.mem_singleton.mp among
    have last := tiled.closing_eq
    rw [Nat.zero_add] at last
    refine ⟨[], ⟨source.toList, [], (List.append_nil _).symm, ?_, ?_⟩, ?_⟩
    · rw [last, List.append_nil]
      rfl
    · rw [last, List.append_nil]
      rfl
    · rintro token ⟨⟩
      rw [last]

theorem Tiled.tokens_spell (tiled : Tiled 0 1 source.toList items closing) :
    ∀ token ∈ items.filterMap Item.token?, ∃ lexeme, (Item.token token).Spells lexeme := by
  intro token found
  obtain ⟨item, among, isToken⟩ := List.mem_filterMap.mp found
  cases item with
  | error fault => cases isToken
  | token same =>
      cases isToken
      obtain ⟨lexeme, -, spells, -⟩ := tiled.located (List.nil_append _).symm rfl rfl _ among
      exact ⟨lexeme, spells⟩

end Whole

theorem tiles_of_tiled {source : String} {scanned : Scanned}
    (tiled : Tiled 0 1 source.toList scanned.items scanned.closing) : scanned.Tiles source where
  fits item among := by
    obtain ⟨lexeme, placed, -⟩ := tiled.listed_located item among
    exact placed.fits
  apart := tiled.spans_apart.1
  nonempty item among := by
    obtain ⟨lexeme, nonempty, -, before, behind, -, span, -⟩ :=
      tiled.located (List.nil_append _).symm rfl rfl item among
    have positive := byte_length_pos nonempty
    rw [span, byte_length_append]
    exact Nat.lt_add_of_pos_right positive
  lexeme token among := by
    obtain ⟨lexeme, placed, same⟩ := tiled.listed_located _ among
    rw [same token rfl, String.toList_ofList]
    exact placed.holds
  gaps := tiled.separated (List.nil_append _).symm rfl ⟨0, 0⟩ rfl
  closing := by
    rw [← byte_length_to_list, tiled.closing_eq, Nat.zero_add]
    exact ⟨rfl, rfl⟩
  single token found := by
    obtain ⟨lexeme, -, notClosing, -⟩ := tiled.tokens_spell token found
    exact notClosing
  line item among := by
    obtain ⟨lexeme, placed, -⟩ := tiled.listed_located item among
    exact placed.line_eq
  string token found isString := by
    obtain ⟨lexeme, same, -, ofString⟩ := tiled.tokens_spell token found
    obtain ⟨body, quoted, literal⟩ := ofString isString
    refine ⟨String.ofList body, ?_, literal⟩
    rw [same, quoted]
    apply String.toList_inj.mp
    simp

theorem text_tiles (source : String) : (Scanned.ofText source.toList).Tiles source :=
  tiles_of_tiled (tiled_items source.toList 0 1)

end Treewalk
