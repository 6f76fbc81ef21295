import Treewalk.Proofs.Token.Joined
import Treewalk.Proofs.Token.Strays

/-!
# Texts behind other texts

Scanning keeps nothing from one line to the next but the offset and the line, if no fault is open at
the end of the first. So what is found in a text that stands behind another one is what is found in
it alone, moved by the length and the lines of the text in front.
-/

namespace Treewalk

set_option autoImplicit false

/-- How far a text is moved: by bytes and by lines. -/
structure Shift where
  bytes : Nat
  lines : Nat

def Shift.behind (text : List Char) : Shift :=
  ⟨byteLength text + 1, newlines text + 1⟩

def Span.moved (shift : Shift) (span : Span) : Span :=
  ⟨span.start + shift.bytes, span.stop + shift.bytes⟩

def Token.moved (shift : Shift) (token : Token) : Token :=
  { token with line := token.line + shift.lines, span := token.span.moved shift }

theorem Token.kind_moved (shift : Shift) (token : Token) :
    (token.moved shift).kind = token.kind :=
  rfl

theorem Token.span_moved (shift : Shift) (token : Token) :
    (token.moved shift).span = token.span.moved shift :=
  rfl

def LexError.moved (shift : Shift) (error : LexError) : LexError :=
  { error with span := error.span.moved shift, line := error.line + shift.lines }

def Item.moved (shift : Shift) : Item → Item
  | token found => token (found.moved shift)
  | error found => error (found.moved shift)

theorem Span.hull_moved (shift : Shift) (left right : Span) :
    (left.moved shift).hull (right.moved shift) = (left.hull right).moved shift := by
  simp only [Span.hull, Span.moved, Nat.add_min_add_right, Nat.add_max_add_right]

theorem tokens_moved (shift : Shift) (items : List Item) :
    (items.map (Item.moved shift)).filterMap Item.token? =
      (items.filterMap Item.token?).map (Token.moved shift) := by
  rw [List.filterMap_map, List.map_filterMap]
  congr 1
  funext item
  cases item <;> rfl

theorem errors_moved (shift : Shift) (items : List Item) :
    (items.map (Item.moved shift)).filterMap Item.error? =
      (items.filterMap Item.error?).map (LexError.moved shift) := by
  rw [List.filterMap_map, List.map_filterMap]
  congr 1
  funext item
  cases item <;> rfl

namespace Cursor

structure Moves (shift : Shift) (cursor other : Cursor) : Prop where
  offset : other.offset = cursor.offset + shift.bytes
  line : other.line = cursor.line + shift.lines

variable {shift : Shift} {cursor other : Cursor}

theorem Moves.past (moves : Moves shift cursor other) (lexeme : List Char)
    (ahead behind : List Chunk) :
    Moves shift (cursor.past lexeme ahead) (other.past lexeme behind) := by
  refine ⟨?_, ?_⟩
  · simp only [Cursor.past, moves.offset]
    omega
  · simp only [Cursor.past, moves.line]
    omega

theorem Moves.finish (moves : Moves shift cursor other) :
    other.finish = cursor.finish.moved shift := by
  simp only [Cursor.finish, Token.moved, Span.moved, moves.offset, moves.line]

theorem Moves.item (moves : Moves shift cursor other) (chunk : Chunk) (ahead behind : List Chunk) :
    item? chunk other (other.past chunk.lexeme behind) =
      (item? chunk cursor (cursor.past chunk.lexeme ahead)).map (Item.moved shift) := by
  have later := moves.past chunk.lexeme ahead behind
  unfold item?
  cases chunk.sort with
  | layout => rfl
  | token kind literal =>
      simp only [Option.map_some, Item.moved, Token.moved, Span.moved, moves.offset, later.offset,
        later.line]
  | fault cause =>
      simp only [Option.map_some, Item.moved, LexError.moved, Span.moved, moves.offset,
        later.offset, later.line]

theorem items_cons (chunk : Chunk) (ahead : List Chunk) (cursor : Cursor) :
    itemsFrom (chunk :: ahead) cursor =
      (item? chunk cursor (cursor.past chunk.lexeme ahead)).toList ++
        itemsFrom ahead (cursor.past chunk.lexeme ahead) := by
  rw [itemsFrom]
  cases item? chunk cursor (cursor.past chunk.lexeme ahead) <;> rfl

/-- From a moved cursor, the same chunks give moved items, and the end has moved. -/
theorem items_moved (moves : Moves shift cursor other) (ahead : List Chunk) :
    itemsFrom ahead other = (itemsFrom ahead cursor).map (Item.moved shift) ∧
      (last ahead other).finish = (last ahead cursor).finish.moved shift := by
  induction ahead generalizing cursor other with
  | nil => exact ⟨rfl, moves.finish⟩
  | cons chunk ahead ih =>
      obtain ⟨items, ended⟩ := ih (moves.past chunk.lexeme ahead ahead)
      refine ⟨?_, ended⟩
      rw [items_cons, items_cons, List.map_append, moves.item chunk ahead ahead, items,
        Option.toList_map]

theorem Meets.item (meets : cursor.Meets other) (chunk : Chunk) (ahead behind : List Chunk) :
    item? chunk cursor (cursor.past chunk.lexeme ahead) =
      item? chunk other (other.past chunk.lexeme behind) := by
  unfold item? Cursor.past
  rw [meets.1, meets.2]

/-- Chunks in front of others give their items, and leave the cursor behind their text. -/
theorem items_append (first second : List Chunk) (meets : cursor.Meets other) :
    ∃ after : Cursor, after.offset = other.offset + byteLength (first.flatMap Chunk.lexeme) ∧
      after.line = other.line + newlines (first.flatMap Chunk.lexeme) ∧
      itemsFrom (first ++ second) cursor = itemsFrom first other ++ itemsFrom second after ∧
      last (first ++ second) cursor = last second after := by
  induction first generalizing cursor other with
  | nil => exact ⟨cursor, meets.1, meets.2, rfl, rfl⟩
  | cons chunk first ih =>
      obtain ⟨after, offset, line, items, ended⟩ :=
        ih (meets.past chunk.lexeme (first ++ second) first)
      refine ⟨after, ?_, ?_, ?_, ended⟩
      · rw [offset, List.flatMap_cons, byte_length_append, ← Nat.add_assoc]
        rfl
      · rw [line, List.flatMap_cons, newlines_append, ← Nat.add_assoc]
        rfl
      · rw [List.cons_append, items_cons, items_cons, meets.item chunk (first ++ second) first,
          items, List.append_assoc]

theorem sound_of_clean {ahead : List Chunk}
    (clean : (itemsFrom ahead cursor).filterMap Item.error? = []) :
    ∀ chunk ∈ ahead, ∀ cause, chunk.sort ≠ .fault cause := by
  induction ahead generalizing cursor with
  | nil => exact List.forall_mem_nil _
  | cons chunk ahead ih =>
      rw [items_cons, List.filterMap_append, List.append_eq_nil_iff] at clean
      refine List.forall_mem_cons.mpr ⟨?_, ih clean.2⟩
      intro cause fault
      have reported := clean.1
      rw [item?, fault] at reported
      cases reported

end Cursor

/-- Behind blanks everything is found as it is in the text alone, but moved. -/
theorem scanned_behind_blanks (count : Nat) (text : List Char) :
    Scanned.ofText (List.replicate count ' ' ++ text) =
      ⟨(Scanned.ofText text).items.map (Item.moved ⟨count, 0⟩),
        (Scanned.ofText text).closing.moved ⟨count, 0⟩⟩ := by
  obtain ⟨after, ⟨offset, line⟩, items, ended⟩ := Cursor.items_blanks count (chunks text)
    (Cursor.start (List.replicate count ' ' ++ text))
  have moves : Cursor.Moves ⟨count, 0⟩ (Cursor.start text) after := ⟨offset, line⟩
  obtain ⟨moved, closing⟩ := Cursor.items_moved moves (chunks text)
  rw [← chunks_blanks] at items ended
  exact (Scanned.mk.injEq ..).mpr
    ⟨items.trans moved, (congrArg Cursor.finish ended).trans closing⟩

def behindBlanks (count : Nat) (text : String) : String :=
  String.ofList (List.replicate count ' ' ++ text.toList)

theorem of_source_behind_blanks (count : Nat) (text : String) :
    Scanned.ofSource (behindBlanks count text) =
      Scanned.narrowed ⟨(Scanned.ofText text.toList).items.map (Item.moved ⟨count, 0⟩),
        (Scanned.ofText text.toList).closing.moved ⟨count, 0⟩⟩ := by
  rw [Scanned.ofSource, behindBlanks, String.toList_ofList, scanned_behind_blanks]

def setApart (count : Nat) (first second : String) : String :=
  String.ofList (first.toList ++ '\n' :: (List.replicate count ' ' ++ second.toList))

/-- A text without faults is found in front of a line break as it is alone, and the text behind the
break is found there as it is alone, but moved. -/
theorem scanned_joined {first : List Char} (second : List Char)
    (clean : (Scanned.ofText first).errors = []) :
    (Scanned.ofText (first ++ '\n' :: second)).items =
        (Scanned.ofText first).items ++
          (Scanned.ofText second).items.map (Item.moved (Shift.behind first)) ∧
      (Scanned.ofText (first ++ '\n' :: second)).closing =
        (Scanned.ofText second).closing.moved (Shift.behind first) := by
  have sound : ∀ chunk ∈ chunks first, ∀ cause, chunk.sort ≠ .fault cause :=
    Cursor.sound_of_clean clean
  have broken : chunks ('\n' :: second) = ⟨.layout, ['\n']⟩ :: chunks second := by
    rw [chunks_cons]
    rfl
  have joined := chunks_cut (List.append_nil (chunks first)).symm sound second
  rw [chunks_cover, broken] at joined
  obtain ⟨after, offset, line, items, ended⟩ :=
    Cursor.items_append (chunks first) (⟨.layout, ['\n']⟩ :: chunks second)
      (show (Cursor.start (first ++ '\n' :: second)).Meets (Cursor.start first) from ⟨rfl, rfl⟩)
  rw [chunks_cover] at offset line
  have moves : Cursor.Moves (Shift.behind first) (Cursor.start second)
      (after.past ['\n'] (chunks second)) := by
    have offset : after.offset = 0 + byteLength first := offset
    have line : after.line = 1 + newlines first := line
    refine ⟨?_, ?_⟩
    · show after.offset + 1 = 0 + (byteLength first + 1)
      omega
    · show after.line + 1 = 1 + (newlines first + 1)
      omega
  obtain ⟨moved, closing⟩ := Cursor.items_moved moves (chunks second)
  rw [← joined] at items ended
  constructor
  · exact items.trans (congrArg _ moved)
  · exact (congrArg Cursor.finish ended).trans closing

theorem of_source_set_apart (count : Nat) {first : String} (second : String)
    (clean : (Scanned.ofText first.toList).errors = []) :
    Scanned.ofSource (setApart count first second) =
      Scanned.narrowed ⟨(Scanned.ofText first.toList).items ++
          ((Scanned.ofText second.toList).items.map (Item.moved ⟨count, 0⟩)).map
            (Item.moved (Shift.behind first.toList)),
        ((Scanned.ofText second.toList).closing.moved ⟨count, 0⟩).moved
          (Shift.behind first.toList)⟩ := by
  obtain ⟨items, closing⟩ := scanned_joined (List.replicate count ' ' ++ second.toList) clean
  rw [scanned_behind_blanks] at items closing
  rw [Scanned.ofSource, setApart, String.toList_ofList]
  exact congrArg Scanned.narrowed ((Scanned.mk.injEq ..).mpr ⟨items, closing⟩)

end Treewalk
