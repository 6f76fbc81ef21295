/-!
# Positions in a source text

Positions are byte offsets into the UTF-8 form of a text. A span is a pair of them, a line is
counted by the newlines before a position. Texts are walked as lists of characters, so that every
fact about positions is an induction over the list. While a text is scanned its positions are kept
in 32 bits, so that behind the bound counting starts again from zero.
-/

namespace Treewalk

set_option autoImplicit false

/-- A number as 32 bits hold it. -/
def narrow (number : Nat) : Nat :=
  number % UInt32.size

/-- The half-open byte range `[start, stop)` that a construct occupies in its source. -/
structure Span where
  start : Nat
  stop : Nat
deriving DecidableEq, Inhabited

namespace Span

def hull (left right : Span) : Span :=
  ⟨min left.start right.start, max left.stop right.stop⟩

def text (span : Span) : String :=
  s!"{span.start}..{span.stop}"

end Span

def byteLength (text : List Char) : Nat :=
  text.foldr (fun char total => char.utf8Size + total) 0

def newlines (text : List Char) : Nat :=
  text.count '\n'

def newlinesBefore : Nat → List Char → Nat
  | _, [] => 0
  | position, char :: rest =>
      if position = 0 then 0
      else (if char = '\n' then 1 else 0) + newlinesBefore (position - char.utf8Size) rest

def charactersBefore : Nat → List Char → Nat
  | _, [] => 0
  | position, char :: rest =>
      if position = 0 then 0 else 1 + charactersBefore (position - char.utf8Size) rest

/-- Whether byte `position` is the start of a character or the end of the text. -/
def isBoundary : Nat → List Char → Bool
  | position, [] => position == 0
  | position, char :: rest =>
      position == 0 || (char.utf8Size ≤ position && isBoundary (position - char.utf8Size) rest)

namespace Span

/-- The line, counted from one, on which the span starts; a start behind the end of the text is
on the last line. -/
def lineIn (span : Span) (source : String) : Nat :=
  1 + newlinesBefore span.start source.toList

/-- A span fits a text if it is ordered, ends inside the text and cuts no character in two. -/
def fits (span : Span) (source : String) : Bool :=
  span.start ≤ span.stop && isBoundary span.start source.toList &&
    isBoundary span.stop source.toList

end Span

end Treewalk
