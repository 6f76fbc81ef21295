import Treewalk.Reading
import Treewalk.Token.Scan

/-!
# Scanning while reading

The scanner takes one character after the other from a file that is being read. It keeps two of them
in view, the one that it takes next and the one behind that, together with the place behind the last
one taken, the line, and the characters of the lexeme so far. A round starts with an empty lexeme
and takes one chunk: layout, an item, or the end of the text. What bounds the rounds bounds the
loops inside of them as well, since each round takes a character.
-/

namespace Treewalk

set_option autoImplicit false

structure Scanner where
  current : Option (Nat × Char)
  following : Option (Nat × Char)
  stop : Nat
  line : Nat
  lexeme : String
  feed : Feed
deriving Inhabited

inductive Round where
  | layout
  | item (item : Item)
  | finished (closing : Token)

namespace Scanner

def offset (scanner : Scanner) : Nat :=
  match scanner.current with
  | some (position, _) => position
  | none => scanner.stop

def peek (scanner : Scanner) : Option Char :=
  scanner.current.map Prod.snd

def peekNext (scanner : Scanner) : Option Char :=
  scanner.following.map Prod.snd

/-- Takes the next character, if there is one, and asks for another one to keep in view. -/
def take (scanner : Scanner) : Option Char × Scanner :=
  let (pulled, feed) := scanner.feed.next
  match scanner.current with
  | none => (none, { scanner with current := scanner.following, following := pulled, feed := feed })
  | some (position, char) =>
      (some char,
        { current := scanner.following
          following := pulled
          stop := narrow (position + char.utf8Size)
          line := if char = '\n' then scanner.line + 1 else scanner.line
          lexeme := scanner.lexeme.push char
          feed := feed })

def advance (scanner : Scanner) : Scanner :=
  scanner.take.2

/-- The scanner in front of a file, with its first two characters in view. -/
def start (feed : Feed) : Scanner :=
  advance (advance ⟨none, none, 0, 1, "", feed⟩)

def skipWhile (inside : Char → Bool) : Nat → Scanner → Scanner
  | 0, scanner => scanner
  | bound + 1, scanner =>
      if scanner.peek.any inside then skipWhile inside bound scanner.advance else scanner

/-- Takes everything up to the first `*/` behind the start of a block comment, and tells whether
there is one. -/
def skipComment : Nat → Scanner → Bool × Scanner
  | 0, scanner => (false, scanner)
  | bound + 1, scanner =>
      match scanner.peek, scanner.peekNext with
      | some '*', some '/' => (true, scanner.advance.advance)
      | some _, _ => skipComment bound scanner.advance
      | none, _ => (false, scanner)

def token (kind : Kind) (literal : Option Literal) (start : Nat) (scanner : Scanner) : Round :=
  .item (.token ⟨kind, scanner.lexeme, literal, scanner.line, ⟨start, scanner.offset⟩⟩)

def error (cause : LexCause) (start : Nat) (scanner : Scanner) : Round :=
  .item (.error ⟨cause, ⟨start, scanner.offset⟩, scanner.line⟩)

/-- A slash has been taken: it is one of the two comments, or stands for itself. -/
def slash (bound start : Nat) (scanner : Scanner) : Round × Scanner :=
  match scanner.peek with
  | some '/' => (.layout, scanner.skipWhile (· != '\n') bound)
  | some '*' =>
      match scanner.advance.skipComment bound with
      | (true, after) => (.layout, after)
      | (false, after) => (after.error .unterminatedComment start, after)
  | _ => (scanner.token .slash none start, scanner)

def string (bound start : Nat) (scanner : Scanner) : Round × Scanner :=
  let inside := scanner.skipWhile (· != '"') bound
  match inside.peek with
  | some _ =>
      let after := inside.advance
      let body := (after.lexeme.toList.drop 1).dropLast
      (after.token .string (some (.string (String.ofList body))) start, after)
  | none => (inside.error .unterminatedString start, inside)

def numberOf (lexeme : String) : Float :=
  let whole := lexeme.toList.takeWhile (· != '.')
  let fraction := (lexeme.toList.dropWhile (· != '.')).drop 1
  (Decimal.ofDigits whole fraction).toFloat

def number (bound start : Nat) (scanner : Scanner) : Round × Scanner :=
  let whole := scanner.skipWhile Chunk.isDigit bound
  let after :=
    if whole.peek = some '.' && whole.peekNext.any Chunk.isDigit then
      whole.advance.skipWhile Chunk.isDigit bound
    else whole
  (after.token .number (some (.number (numberOf after.lexeme))) start, after)

def word (bound start : Nat) (scanner : Scanner) : Round × Scanner :=
  let after := scanner.skipWhile Chunk.continuesWord bound
  (after.token ((Kind.ofKeyword? after.lexeme).getD .identifier) none start, after)

/-- A sign of one character has been taken, or a character that starts nothing. -/
def single (start : Nat) (first : Char) (scanner : Scanner) : Round :=
  match Chunk.sign? first with
  | some kind => scanner.token kind none start
  | none => scanner.error (.unexpectedCharacter first) start

/-- The first character of a sign has been taken; some signs go on with an equals sign. -/
def sign (start : Nat) (first : Char) (scanner : Scanner) : Round × Scanner :=
  match Chunk.signEqual? first with
  | some kind =>
      if scanner.peek = some '=' then (scanner.advance.token kind none start, scanner.advance)
      else (scanner.single start first, scanner)
  | none => (scanner.single start first, scanner)

def proceed (bound start : Nat) (first : Char) (scanner : Scanner) : Round × Scanner :=
  if Chunk.isBlank first then (.layout, scanner)
  else if first = '/' then scanner.slash bound start
  else if first = '"' then scanner.string bound start
  else if Chunk.isDigit first then scanner.number bound start
  else if Chunk.startsWord first then scanner.word bound start
  else scanner.sign start first

def round (bound : Nat) (scanner : Scanner) : Round × Scanner :=
  let start := scanner.offset
  match { scanner with lexeme := "" }.take with
  | (some first, after) => after.proceed bound start first
  | (none, after) => (.finished ⟨.endOfInput, "", none, after.line, ⟨start, start⟩⟩, after)

/-- The items of at most `count` rounds, the closing token, and the file as far as it has been
read. -/
def scanUpTo : Nat → Scanner → Scanned × Feed
  | 0, scanner => (⟨[], default⟩, scanner.feed)
  | count + 1, scanner =>
      match scanner.round count with
      | (.layout, after) => scanUpTo count after
      | (.item item, after) =>
          let (scanned, feed) := scanUpTo count after
          ({ scanned with items := item :: scanned.items }, feed)
      | (.finished closing, after) => (⟨[], closing⟩, after.feed)

def scan (feed : Feed) : Scanned × Feed :=
  scanUpTo (feed.pulls.length + 1) (start feed)

end Scanner

def scan (source : String) : Except (List LexError) (List Token) :=
  let scanned := (Scanner.scan (Feed.ofText source.toList)).1
  match scanned.errors with
  | [] => .ok (scanned.tokens ++ [scanned.closing])
  | errors => .error errors

end Treewalk
