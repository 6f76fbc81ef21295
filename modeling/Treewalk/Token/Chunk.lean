import Treewalk.Token

/-!
# Lexical chunks

A text falls apart, from left to right, into chunks: layout (blanks and comments), tokens and
faults. `munch` cuts off the first chunk; it decides on the first character and takes the longest
lexeme of its class. `chunks` repeats it. Chunks hold characters only; where they stand in the
source is added when they are listed (`Treewalk.Token.Scan`).
-/

namespace Treewalk

set_option autoImplicit false

inductive LexCause where
  | unexpectedCharacter (char : Char)
  | unterminatedString
  | unterminatedComment
deriving DecidableEq, Inhabited

namespace LexCause

def message : LexCause → String
  | unexpectedCharacter char => "Unexpected character '" ++ String.singleton char ++ "'."
  | unterminatedString => "Unterminated string."
  | unterminatedComment => "Unterminated block comment."

def notes : LexCause → List String
  | unexpectedCharacter _ => []
  | unterminatedString => ["A string literal needs a closing `\"`."]
  | unterminatedComment => ["A block comment needs a closing `*/`."]

end LexCause

inductive ChunkSort where
  | layout
  | token (kind : Kind) (literal : Option Literal)
  | fault (cause : LexCause)
deriving Inhabited

structure Chunk where
  sort : ChunkSort
  lexeme : List Char
deriving Inhabited

namespace Chunk

def isBlank (char : Char) : Bool :=
  char == ' ' || char == '\r' || char == '\t' || char == '\n'

def isDigit (char : Char) : Bool :=
  '0' ≤ char && char ≤ '9'

def startsWord (char : Char) : Bool :=
  ('a' ≤ char && char ≤ 'z') || ('A' ≤ char && char ≤ 'Z') || char == '_'

def continuesWord (char : Char) : Bool :=
  startsWord char || isDigit char

def sign? : Char → Option Kind
  | '(' => some .leftParen
  | ')' => some .rightParen
  | '{' => some .leftBrace
  | '}' => some .rightBrace
  | ',' => some .comma
  | '.' => some .dot
  | '-' => some .minus
  | '+' => some .plus
  | ';' => some .semicolon
  | '/' => some .slash
  | '*' => some .star
  | '!' => some .bang
  | '=' => some .equal
  | '<' => some .less
  | '>' => some .greater
  | _ => none

def signEqual? : Char → Option Kind
  | '!' => some .bangEqual
  | '=' => some .equalEqual
  | '<' => some .lessEqual
  | '>' => some .greaterEqual
  | _ => none

/-- The text of a block comment up to and including the first `*/`, and what follows it. -/
def blockComment : List Char → Option (List Char × List Char)
  | '*' :: '/' :: rest => some (['*', '/'], rest)
  | char :: rest => (blockComment rest).map fun (body, after) => (char :: body, after)
  | [] => none

/-- The digits of a number behind its first digit, whole part and fraction. A point belongs to the
number only if a digit follows it. -/
def numberDigits (rest : List Char) : List Char × List Char × List Char :=
  let whole := rest.takeWhile isDigit
  match rest.dropWhile isDigit with
  | '.' :: digit :: after =>
      if isDigit digit then
        (whole, digit :: after.takeWhile isDigit, after.dropWhile isDigit)
      else (whole, [], '.' :: digit :: after)
  | after => (whole, [], after)

def number (first : Char) (rest : List Char) : Chunk × List Char :=
  let (whole, fraction, after) := numberDigits rest
  let value := (Decimal.ofDigits (first :: whole) fraction).toFloat
  let lexeme := first :: whole ++ (if fraction.isEmpty then [] else '.' :: fraction)
  (⟨.token .number (some (.number value)), lexeme⟩, after)

def word (first : Char) (rest : List Char) : Chunk × List Char :=
  let lexeme := first :: rest.takeWhile continuesWord
  let kind := (Kind.ofKeyword? (String.ofList lexeme)).getD .identifier
  (⟨.token kind none, lexeme⟩, rest.dropWhile continuesWord)

def string (rest : List Char) : Chunk × List Char :=
  let body := rest.takeWhile (· != '"')
  match rest.dropWhile (· != '"') with
  | quote :: after =>
      (⟨.token .string (some (.string (String.ofList body))), '"' :: body ++ [quote]⟩, after)
  | [] => (⟨.fault .unterminatedString, '"' :: rest⟩, [])

/-- A sign that starts with `first`, or the fault that nothing starts with it. -/
def sign (first : Char) (rest : List Char) : Chunk × List Char :=
  match signEqual? first, rest with
  | some kind, '=' :: after => (⟨.token kind none, [first, '=']⟩, after)
  | _, _ =>
      match sign? first with
      | some kind => (⟨.token kind none, [first]⟩, rest)
      | none => (⟨.fault (.unexpectedCharacter first), [first]⟩, rest)

def slash (rest : List Char) : Chunk × List Char :=
  match rest with
  | '/' :: _ =>
      (⟨.layout, '/' :: rest.takeWhile (· != '\n')⟩, rest.dropWhile (· != '\n'))
  | '*' :: inside =>
      match blockComment inside with
      | some (body, after) => (⟨.layout, '/' :: '*' :: body⟩, after)
      | none => (⟨.fault .unterminatedComment, '/' :: rest⟩, [])
  | _ => (⟨.token .slash none, ['/']⟩, rest)

def munch (first : Char) (rest : List Char) : Chunk × List Char :=
  if isBlank first then (⟨.layout, [first]⟩, rest)
  else if first = '/' then slash rest
  else if first = '"' then string rest
  else if isDigit first then number first rest
  else if startsWord first then word first rest
  else sign first rest

end Chunk

def chunksUpTo : Nat → List Char → List Chunk
  | 0, _ => []
  | _ + 1, [] => []
  | count + 1, first :: rest =>
      let (chunk, after) := Chunk.munch first rest
      chunk :: chunksUpTo count after

/-- All chunks of a text. A chunk is not empty, so there are no more of them than characters. -/
def chunks (text : List Char) : List Chunk :=
  chunksUpTo text.length text

end Treewalk
