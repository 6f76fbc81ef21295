import Treewalk.Source.Decoding
import Treewalk.Source.Span

/-!
# Reading source files

A file is read in one of two ways: before anything else is done, or character by character while it
is scanned. In the second way a fault looks like the end of the text to the one who asks, but asking
again goes on behind it. The characters that were handed out are kept as the text of the file, and
so is the last fault that was met. A text in memory is fed in the same way; there the places are its
byte offsets, while those of a file are counted along.
-/

namespace Treewalk

set_option autoImplicit false

/-- A file that is being read: what asking will give and the places of that, the characters that
were handed out, and the last fault. -/
structure Feed where
  pulls : List (Nat × Pull)
  text : String
  fault : Option Fault
deriving Inhabited

namespace Feed

/-- The place of a character is that of the one in front of it with its size; a fault has none. -/
def counted : Nat → List Pull → List (Nat × Pull)
  | _, [] => []
  | offset, .fault value :: rest => (offset, .fault value) :: counted offset rest
  | offset, .char value :: rest =>
      (offset, .char value) :: counted (narrow (offset + value.utf8Size)) rest

def indexed : Nat → List Char → List (Nat × Pull)
  | _, [] => []
  | offset, value :: rest =>
      (narrow offset, .char value) :: indexed (offset + value.utf8Size) rest

def ofPulls (pulls : List Pull) : Feed :=
  ⟨counted 0 pulls, "", none⟩

def ofText (text : List Char) : Feed :=
  ⟨indexed 0 text, "", none⟩

/-- The next character with its place, or nothing at a fault and at the end. -/
def next (feed : Feed) : Option (Nat × Char) × Feed :=
  match feed.pulls with
  | [] => (none, feed)
  | (_, .fault value) :: rest => (none, { feed with pulls := rest, fault := some value })
  | (place, .char value) :: rest =>
      (some (place, value), ⟨rest, feed.text.push value, feed.fault⟩)

end Feed

def readWhole (bytes : List UInt8) : Except Fault String :=
  match String.fromUTF8? ⟨bytes.toArray⟩ with
  | some text => .ok text
  | none => .error .invalidData

end Treewalk
