import Treewalk.Report.Line

/-!
# Snippets

A snippet shows the lines of a source that its labels touch. A label within a line gets a row of
carets under that line, and its text stands behind the carets if there is room, else under them at
the end of a pointer. A label over several lines gets a bar in a gutter at the left, from a corner
at its first line to a corner under its last. Of a long label only some lines at both ends are
shown; one line that is left out between two shown ones is shown after all, more become a dot.
-/

namespace Treewalk

set_option autoImplicit false

structure Label where
  span : Span
  text : Option String
deriving DecidableEq, Inhabited

namespace Snippet

def startContext : Nat := 3

def endContext : Nat := 1

inductive Rank where
  | main
  | other
deriving DecidableEq, Inhabited

namespace Rank

def caret : Rank → Char
  | main => '^'
  | other => '-'

def tip : Rank → String
  | main => "^"
  | other => "'"

end Rank

/-- A label within one line, by bytes of that line; it covers one byte at least. -/
structure Mark where
  line : Nat
  start : Nat
  stop : Nat
  rank : Rank
  text : String
deriving DecidableEq, Inhabited

/-- A label over several lines: its column in the gutter, the lines and the bytes of these lines at
which it starts and ends. -/
structure Bar where
  column : Nat
  top : Line
  bottom : Line
  start : Nat
  stop : Nat
  rank : Rank
  text : String
deriving DecidableEq, Inhabited

def mark? (lines : List Line) : Rank × Label → Option Mark
  | (rank, label) =>
      let line := Line.containing lines label.span.start
      if line.index = (Line.containing lines label.span.stop).index then
        let start := label.span.start - line.start
        some ⟨line.index, start, max (label.span.stop - line.start) (start + 1), rank,
          label.text.getD ""⟩
      else none

def bar (lines : List Line) : (Rank × Label) × Nat → Bar
  | ((rank, label), column) =>
      let top := Line.containing lines label.span.start
      let bottom := Line.containing lines label.span.stop
      ⟨column, top, bottom, label.span.start - top.start, label.span.stop - bottom.start, rank,
        label.text.getD ""⟩

def bars (lines : List Line) (labels : List (Rank × Label)) : List Bar :=
  ((labels.filter fun label => (mark? lines label).isNone).zipIdx).map (bar lines)

namespace Bar

/-- Whether the label starts in the indentation of its first line, so that the corner stands in
front of that line and not under it. -/
def startsInIndent (bar : Bar) : Bool :=
  bar.start ≤ bar.top.indentation

def touches (bar : Bar) (index : Nat) : Bool :=
  bar.top.index ≤ index && index ≤ bar.bottom.index

def shows (bar : Bar) (index : Nat) : Bool :=
  bar.touches index
    && (index - bar.top.index ≤ startContext || bar.bottom.index - index ≤ endContext)

def sourcePiece (index : Nat) (bar : Bar) : String :=
  if !bar.touches index then "  "
  else if index ≠ bar.top.index then " │"
  else if bar.startsInIndent then " ╭"
  else "  "

def rowPiece (index : Nat) (bar : Bar) : String :=
  if bar.touches index && index ≠ bar.top.index then " │" else "  "

/-- The piece of the gutter in front of the row with a corner of `current`. The line from that
corner runs through the columns at its right. Of two bars with a corner at one source line, the one
at the left has its row first. -/
def cornerPiece (index : Nat) (current bar : Bar) : String :=
  let passed := current.column < bar.column
  let through := if passed then "──" else "  "
  let crossed := if passed then "─│" else " │"
  if bar.column = current.column then (if index = bar.top.index then " ╭" else " ╰")
  else if !bar.touches index then through
  else if index = bar.top.index then (if passed then through else crossed)
  else if index = bar.bottom.index then (if passed then crossed else through)
  else crossed

end Bar

def gutter (piece : Bar → String) (bars : List Bar) : String :=
  String.join (bars.map piece)

def margin (width : Nat) : String :=
  String.ofList (List.replicate width ' ')

def numbered (width : Nat) (number : Nat) : String :=
  let digits := toString number
  margin (width - digits.length) ++ digits

def sourceRow (width : Nat) (bars : List Bar) (line : Line) : String :=
  numbered width line.number ++ " │" ++ gutter (Bar.sourcePiece line.index) bars ++ " "
    ++ String.ofList line.display

def rowStart (width : Nat) (bars : List Bar) (line : Line) : String :=
  margin width ++ " │" ++ gutter (Bar.rowPiece line.index) bars ++ " "

namespace Mark

/-- Puts a mark in front of the first one that does not come before it by start and stop. -/
def insert (mark : Mark) : List Mark → List Mark
  | [] => [mark]
  | first :: rest =>
      if first.start < mark.start || (first.start = mark.start && first.stop < mark.stop) then
        first :: insert mark rest
      else mark :: first :: rest

def overlaps (left right : Mark) : Bool :=
  max left.start right.start < min left.stop right.stop

def covers (mark : Mark) (cell : Line.Cell) : Bool :=
  mark.start < cell.start + cell.bytes && cell.start < mark.stop

def startsAt (cell : Line.Cell) (mark : Mark) : Bool :=
  cell.start ≤ mark.start && mark.start < cell.start + cell.bytes

end Mark

/-- The marks of a line by start and stop; of two in one place, the later label comes first. -/
def marksOf (marks : List Mark) (line : Line) : List Mark :=
  (marks.filter fun mark => mark.line = line.index).foldl (fun sorted mark => mark.insert sorted) []

def furthest? (marks : List Mark) : Option (Mark × Nat) :=
  marks.zipIdx.foldl
    (fun best candidate =>
      match best with
      | none => some candidate
      | some (mark, _) => if mark.stop ≤ candidate.1.stop then some candidate else best)
    none

/-- The mark whose text stands behind the carets, with its position: the one that reaches furthest,
if it has a text and shares no byte with another. -/
def trailing? (marks : List Mark) : Option (Mark × Nat) :=
  match furthest? marks with
  | none => none
  | some (mark, position) =>
      let apart := marks.zipIdx.all fun (other, index) =>
        index = position || !mark.overlaps other
      if mark.text.isEmpty || !apart then none else some (mark, position)

def hanging (marks : List Mark) : List Mark :=
  let trailing := (trailing? marks).map Prod.snd
  (marks.zipIdx.filter fun (mark, index) => !mark.text.isEmpty && trailing ≠ some index).map
    Prod.fst

def caret? (marks : List Mark) (cell : Line.Cell) : Option Char :=
  let covering := marks.filter fun mark => mark.covers cell
  if covering.any fun mark => mark.rank = .main then some Rank.main.caret
  else if covering.isEmpty then none
  else some Rank.other.caret

def carets (marks : List Mark) (line : Line) : String :=
  let last := (marks.map Mark.stop).foldl max 0
  String.ofList (line.cellsAndEnd.flatMap fun cell =>
    match caret? marks cell with
    | some caret => List.replicate cell.columns caret
    | none => if cell.start < last then List.replicate cell.columns ' ' else [])

/-- Pointers from carets down to texts that hang under them, as far as the given characters reach.
Blanks lead up to the last caret's start. -/
def pointers (marks : List Mark) (cells : List Line.Cell) : String :=
  let last := (marks.map Mark.start).foldl max 0
  let blanks (cell : Line.Cell) (count : Nat) : List Char :=
    if cell.start ≤ last then List.replicate count ' ' else []
  String.ofList (cells.flatMap fun cell =>
    if (hanging marks).any (Mark.startsAt cell) then '│' :: blanks cell (cell.columns - 1)
    else blanks cell cell.columns)

def caretRow (marks : List Mark) (line : Line) : String :=
  match trailing? marks with
  | some (mark, _) => carets marks line ++ " " ++ mark.text
  | none => carets marks line

def hangingRows (marks : List Mark) (line : Line) : List String :=
  match hanging marks with
  | [] => []
  | texts =>
      pointers marks line.cells
        :: texts.reverse.map fun mark =>
          pointers marks (line.cells.takeWhile fun cell => cell.start < mark.start) ++ mark.text

def markRows (width : Nat) (bars : List Bar) (marks : List Mark) (line : Line) : List String :=
  match marksOf marks line with
  | [] => []
  | here => (caretRow here line :: hangingRows here line).map (rowStart width bars line ++ ·)

def dashes (line : Line) (stop : Nat) : String :=
  String.ofList ((line.cells.takeWhile fun cell => cell.start < stop).flatMap fun cell =>
    List.replicate cell.columns '─')

def corner? (line : Line) (bar : Bar) : Option String :=
  if line.index = bar.top.index then
    if bar.startsInIndent then none else some (dashes line (bar.start + 1) ++ bar.rank.tip)
  else if line.index = bar.bottom.index then
    some (dashes line bar.stop ++ bar.rank.tip
      ++ (if bar.text.isEmpty then "" else " " ++ bar.text))
  else none

def cornerRows (width : Nat) (bars : List Bar) (line : Line) : List String :=
  bars.filterMap fun bar =>
    (corner? line bar).map fun rest =>
      margin width ++ " │" ++ gutter (Bar.cornerPiece line.index bar) bars ++ rest

def lineRows (width : Nat) (bars : List Bar) (marks : List Mark) (line : Line) : List String :=
  sourceRow width bars line :: markRows width bars marks line ++ cornerRows width bars line

/-- The rows of lines that are shown. Lines between two of them are shown or left out. -/
def allRows (width : Nat) (bars : List Bar) (marks : List Mark) (lines : List Line) :
    List Line → List String
  | [] => []
  | [line] => lineRows width bars marks line
  | line :: next :: rest =>
      let between :=
        if next.index ≤ line.index + 1 then []
        else if next.index = line.index + 2 then
          (lines.filter fun skipped => skipped.index = line.index + 1).map (sourceRow width bars)
        else [margin width ++ " ·" ++ gutter (Bar.rowPiece line.index) bars]
      lineRows width bars marks line ++ between ++ allRows width bars marks lines (next :: rest)

def rows (path source : String) (main : Label) (others : List Label) : List String :=
  let lines := Line.all source
  let labels := (Rank.main, main) :: others.map fun label => (Rank.other, label)
  let bars := bars lines labels
  let marks := labels.filterMap (mark? lines)
  let isShown (line : Line) : Bool :=
    marks.any (fun mark => mark.line = line.index) || bars.any fun bar => bar.shows line.index
  let shown := lines.filter isShown
  let width := (toString (((shown.getLast?).map Line.number).getD 1)).length
  let first := Line.containing lines main.span.start
  let column := first.column (main.span.start - first.start)
  let place := path ++ ":" ++ toString first.number ++ ":" ++ toString column
  (margin width ++ " ┌─ " ++ place)
    :: (margin width ++ " │" ++ gutter (fun _ => "  ") bars)
    :: allRows width bars marks lines shown

end Snippet

end Treewalk
