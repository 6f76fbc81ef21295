import Treewalk.Token.Chunk

/-!
# The items of a text

Tokens and lexical errors are listed with their places by walking over the chunks of a text. One
token for the end of the input closes the list. A lexical error does not stop it, so one pass
reports all of them. Places are counted without a bound here; the scanner, which takes the same
items from a file (`Treewalk.Token.Scanner`), keeps them in 32 bits.
-/

namespace Treewalk

set_option autoImplicit false

structure LexError where
  cause : LexCause
  span : Span
  line : Nat
deriving DecidableEq, Inhabited

namespace LexError

def headline (error : LexError) : String :=
  s!"[line {error.line}] Error: " ++ error.cause.message

end LexError

inductive Item where
  | token (token : Token)
  | error (error : LexError)
deriving Inhabited

namespace Item

def token? : Item → Option Token
  | token found => some found
  | error _ => none

def error? : Item → Option LexError
  | token _ => none
  | error found => some found

end Item

/-- A place between two chunks: the chunks that follow, the byte offset and the line. -/
structure Cursor where
  ahead : List Chunk
  offset : Nat
  line : Nat
deriving Inhabited

namespace Cursor

def start (text : List Char) : Cursor :=
  ⟨chunks text, 0, 1⟩

def past (lexeme : List Char) (ahead : List Chunk) (cursor : Cursor) : Cursor :=
  ⟨ahead, cursor.offset + byteLength lexeme, cursor.line + newlines lexeme⟩

def finish (cursor : Cursor) : Token :=
  ⟨.endOfInput, "", none, cursor.line, ⟨cursor.offset, cursor.offset⟩⟩

def item? (chunk : Chunk) (before after : Cursor) : Option Item :=
  match chunk.sort with
  | .layout => none
  | .token kind literal =>
      some (.token ⟨kind, String.ofList chunk.lexeme, literal, after.line,
        ⟨before.offset, after.offset⟩⟩)
  | .fault cause => some (.error ⟨cause, ⟨before.offset, after.offset⟩, after.line⟩)

/-- The next item and the place behind it. At the end it is the closing token, again and again. -/
def nextFrom : List Chunk → Cursor → Item × Cursor
  | [], cursor => (.token cursor.finish, cursor)
  | chunk :: ahead, cursor =>
      let after := cursor.past chunk.lexeme ahead
      match item? chunk cursor after with
      | some item => (item, after)
      | none => nextFrom ahead after

def next (cursor : Cursor) : Item × Cursor :=
  nextFrom cursor.ahead cursor

def itemsFrom : List Chunk → Cursor → List Item
  | [], _ => []
  | chunk :: ahead, cursor =>
      let after := cursor.past chunk.lexeme ahead
      match item? chunk cursor after with
      | some item => item :: itemsFrom ahead after
      | none => itemsFrom ahead after

def last : List Chunk → Cursor → Cursor
  | [], cursor => cursor
  | chunk :: ahead, cursor => last ahead (cursor.past chunk.lexeme ahead)

def window (cursor : Cursor) : Option Char × Option Char :=
  match (cursor.ahead.take 2).flatMap Chunk.lexeme with
  | [] => (none, none)
  | [char] => (some char, none)
  | char :: following :: _ => (some char, some following)

end Cursor

/-- What scanning a text gives: its items in order and the token that closes it. -/
structure Scanned where
  items : List Item
  closing : Token
deriving Inhabited

namespace Scanned

def ofText (text : List Char) : Scanned :=
  let start := Cursor.start text
  ⟨Cursor.itemsFrom start.ahead start, (Cursor.last start.ahead start).finish⟩

def tokens (scanned : Scanned) : List Token :=
  scanned.items.filterMap Item.token?

def errors (scanned : Scanned) : List LexError :=
  scanned.items.filterMap Item.error?

end Scanned

end Treewalk
