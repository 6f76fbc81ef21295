import Treewalk.Source.Span
import Treewalk.Text.Width

/-!
# Lines of a source text

A text is cut behind every newline. The piece behind the last newline is a line as well, even when
it is empty, so every position of the text, its end included, lies on exactly one line.
-/

namespace Treewalk

set_option autoImplicit false

/-- A line with its index, the byte offset of its first character, and its characters without the
newline. -/
structure Line where
  index : Nat
  start : Nat
  text : List Char
deriving DecidableEq, Inhabited

namespace Line

def isLineEnd (char : Char) : Bool :=
  char == '\n' || char == '\r' || char == '\x00'

def shown (line : Line) : List Char :=
  (line.text.reverse.dropWhile isLineEnd).reverse

/-- The lines of a text that starts at an offset; `before` are the characters of the current line
that have been passed, the last one first. -/
def cut (index start : Nat) (before : List Char) : List Char → List Line
  | [] => [⟨index, start, before.reverse⟩]
  | char :: rest =>
      if char = '\n' then
        ⟨index, start, before.reverse⟩
          :: cut (index + 1) (start + byteLength before + 1) [] rest
      else cut index start (char :: before) rest

def all (text : String) : List Line :=
  cut 0 0 [] text.toList

def containing (lines : List Line) (position : Nat) : Line :=
  ((lines.takeWhile fun line => line.start ≤ position).getLast?).getD default

def number (line : Line) : Nat :=
  line.index + 1

def column (line : Line) (byte : Nat) : Nat :=
  1 + charactersBefore byte line.text

def isIndent (char : Char) : Bool :=
  let code := char.toNat
  (0x09 ≤ code && code ≤ 0x0d) || code = 0x20 || code = 0x85 || code = 0xa0 || code = 0x1680
    || (0x2000 ≤ code && code ≤ 0x200a) || code = 0x2028 || code = 0x2029 || code = 0x202f
    || code = 0x205f || code = 0x3000

def indentation (line : Line) : Nat :=
  byteLength (line.shown.takeWhile isIndent)

/-- A character of a line: the byte at which it starts in the line, its bytes and its columns. -/
structure Cell where
  start : Nat
  bytes : Nat
  columns : Nat
  char : Char
deriving Inhabited

def place (start : Nat) : List (Char × Nat) → List Cell
  | [] => []
  | (char, columns) :: rest =>
      ⟨start, char.utf8Size, columns, char⟩ :: place (start + char.utf8Size) rest

def cells (line : Line) : List Cell :=
  place 0 (Text.measured 0 line.shown)

/-- The characters of a line and one column behind them, which a position at the end points to. -/
def cellsAndEnd (line : Line) : List Cell :=
  line.cells ++ [⟨byteLength line.shown, 1, 1, '\x00'⟩]

def display (line : Line) : List Char :=
  line.cells.flatMap fun cell =>
    if cell.char = '\t' then List.replicate cell.columns ' ' else [cell.char]

end Line

end Treewalk
